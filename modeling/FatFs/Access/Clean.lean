import FatFs.Access.ReadOnly
import FatFs.Total.Mount

/-!
# Reading through a clean window

What the functions that read do while the window is clean, on every device: also on one that refuses
transfers, or whose layout is not sound. The sector numbers are then `DWORD`s that may wrap around,
so the FAT entry of a cluster is the value at the address that `get_fat` computes
(`Geometry.fatEntry`).

`move_window` marks an invalid window by the sector number `0xFFFFFFFF`, and takes a request for
that sector as served. A window on the device (`State.OnSector`) stays there until a transfer is
refused, and then the device has been asked for sectors of the FAT and of valid clusters only
(`Reading`).
-/

namespace FatFs

open Run

/-! ## Volumes -/

/-- What the BPB analysis checks of every volume. -/
structure Geometry.Accepted (g : Geometry) : Prop where
  fsType : g.fsType ≠ .none
  csize : ∃ k ≤ 7, g.csize = 2 ^ k
  entries : 2 ≤ g.nFatent
  limit : g.nFatent < W32

/-- The cluster size that the BPB analysis accepts is a power of two. -/
theorem Analysed.accepted {s : Sector} {b sys : Nat} {g : Geometry} (h : Analysed s b sys g) :
    g.Accepted := by
  have hlim := h.limit
  have hent := h.entries
  refine ⟨h.fsType, h.csize_pow, by omega, ?_⟩
  unfold Geometry.maxEntries at hlim
  simp only [MAX_FAT12, MAX_FAT16, MAX_FAT32, W32] at *
  split at hlim <;> omega

/-- A sound layout is accepted. -/
theorem Geometry.Sound.accepted {g : Geometry} (hg : g.Sound) : g.Accepted := by
  have h3 := hg.entries
  have hlt := hg.nFatent_lt
  refine ⟨hg.fsType, hg.csize, by omega, ?_⟩
  simp only [DISKERR, W32] at *
  omega

section
variable {g : Geometry} (hg : g.Accepted)

include hg

/-- A cluster has a sector. -/
theorem Geometry.Accepted.csize_pos : 0 < g.csize := by
  obtain ⟨k, -, hk⟩ := hg.csize
  rw [hk]
  exact Nat.two_pow_pos k

/-- The bytes of a cluster. -/
theorem Geometry.Accepted.bcs : ∃ k, g.csize * SS = 2 ^ k := by
  obtain ⟨k, -, hk⟩ := hg.csize
  exact ⟨k + 9, by rw [hk, Nat.pow_add]⟩

/-- The offset of the cluster of the byte `n` in a file. -/
theorem Geometry.Accepted.clusterStart (n : Nat) :
    n - (n &&& (g.csize * SS - 1)) = n / (g.csize * SS) * (g.csize * SS) := by
  obtain ⟨k, hk⟩ := hg.bcs
  have hdiv := Nat.div_add_mod n (g.csize * SS)
  rw [Nat.mul_comm] at hdiv
  rw [hk, Nat.and_two_pow_sub_one_eq_mod, ← hk]
  omega

/-- The sector of the cursor in its cluster. -/
theorem Geometry.Accepted.csect (n : Nat) : n &&& (g.csize - 1) = n % g.csize := by
  obtain ⟨k, -, hk⟩ := hg.csize
  rw [hk]
  exact Nat.and_two_pow_sub_one_eq_mod n k

/-- `clst2sect` answers 0 for every number that is no cluster. -/
theorem Geometry.Accepted.isClust {c : Nat} (hlt : c < W32) (h : clst2sect g c ≠ 0) :
    g.IsClust c := by
  have h2 := hg.entries
  have hl := hg.limit
  by_contra hc
  refine h (if_pos ?_)
  unfold Geometry.IsClust at hc
  rw [sub32_of_le hl h2]
  simp only [sub32, W32] at *
  omega

end

/-- The sectors that `get_fat` reads for the entry of a cluster. -/
def Geometry.fatSects (g : Geometry) (c : Nat) : List Nat :=
  match g.fsType with
  | .none => []
  | .fat12 => [add32 g.fatbase ((c + c / 2) / SS), add32 g.fatbase ((c + c / 2 + 1) / SS)]
  | .fat16 => [add32 g.fatbase (c / (SS / 2))]
  | .fat32 => [add32 g.fatbase (c / (SS / 4))]

/-- The entry of a cluster in the content `d` of a device, where `get_fat` looks for it. -/
def Geometry.fatEntry (g : Geometry) (d : Nat → Sector) (c : Nat) : Nat :=
  match g.fsType with
  | .none => 1
  | .fat12 =>
    let wc := (d (add32 g.fatbase ((c + c / 2) / SS)) ((c + c / 2) % SS)).toNat +
      (d (add32 g.fatbase ((c + c / 2 + 1) / SS)) ((c + c / 2 + 1) % SS)).toNat * 256
    if c % 2 = 1 then wc / 16 else wc % 4096
  | .fat16 => ldWord (d (add32 g.fatbase (c / (SS / 2)))) (c * 2 % SS)
  | .fat32 => ldDword (d (add32 g.fatbase (c / (SS / 4)))) (c * 4 % SS) % 0x10000000

/-- What follows a number in a chain: its entry, or 1 if it is no cluster. -/
def Geometry.succ (g : Geometry) (d : Nat → Sector) (c : Nat) : Nat :=
  if 2 ≤ c ∧ c < g.nFatent then g.fatEntry d c else 1

/-- The entries have 28 bits at most. -/
theorem Geometry.fatEntry_lt (g : Geometry) (d : Nat → Sector) (c : Nat) :
    g.fatEntry d c < 0x10000000 := by
  unfold fatEntry
  cases g.fsType with
  | none => exact (by decide : 1 < 0x10000000)
  | fat12 =>
    have h₁ := (d (add32 g.fatbase ((c + c / 2) / SS)) ((c + c / 2) % SS)).toNat_lt
    have h₂ := (d (add32 g.fatbase ((c + c / 2 + 1) / SS)) ((c + c / 2 + 1) % SS)).toNat_lt
    show (if c % 2 = 1 then _ else _) < _
    split <;> omega
  | fat16 => exact Nat.lt_trans ldWord_lt (by decide)
  | fat32 => exact Nat.mod_lt _ (by decide)

/-- The successors have 28 bits at most. -/
theorem Geometry.succ_lt (g : Geometry) (d : Nat → Sector) (c : Nat) : g.succ d c < 0x10000000 := by
  unfold succ
  split
  · exact g.fatEntry_lt d c
  · decide

/-- The cluster that is reached from `c` over `k` FAT entries. -/
def Geometry.reach (g : Geometry) (d : Nat → Sector) (c : Nat) : Nat → Nat
  | 0 => c
  | k + 1 => g.succ d (g.reach d c k)

/-- The clusters of a chain have 32-bit numbers. -/
theorem Geometry.reach_lt (g : Geometry) (d : Nat → Sector) {c : Nat} (hc : c < W32) (k : Nat) :
    g.reach d c k < W32 := by
  cases k with
  | zero => exact hc
  | succ k => exact Nat.lt_trans (g.succ_lt d _) (by decide)

/-- A chain that has reached a cluster went through clusters only. -/
theorem Geometry.isClust_reach {g : Geometry} {d : Nat → Sector} {c k : Nat}
    (h : g.IsClust (g.reach d c k)) : ∀ j ≤ k, g.IsClust (g.reach d c j) := by
  induction k with
  | zero =>
    intro j hj
    rwa [Nat.le_zero.1 hj]
  | succ k ih =>
    have hk : g.IsClust (g.reach d c k) := by
      by_contra hn
      have h2 := h.1
      rw [reach, succ, if_neg (show ¬(2 ≤ _ ∧ _ < _) from hn)] at h2
      omega
    intro j hj
    rcases Nat.le_succ_iff.1 hj with hj | rfl
    · exact ih hk j hj
    · exact h

/-! ## The window -/

/-- The window holds a sector of the device. -/
def State.OnSector (w : State) : Prop :=
  w.winsect < w.disk.sectors ∧ w.win = w.disk.data w.winsect

/-- The transfers that read the FAT entries of clusters, or sectors of a cluster. -/
def Geometry.OfClusters (g : Geometry) : Access → Prop
  | .read s n => (n = 1 ∧ ∃ c, g.IsClust c ∧ s ∈ g.fatSects c) ∨
      ∃ c j, g.IsClust c ∧ j + n ≤ g.csize ∧ s = add32 (clst2sect g c) j
  | .write _ _ => False

/-- A run from `w` to `w'` with a clean window that only read, and only for clusters. -/
structure Reading (g : Geometry) (w w' : State) : Prop where
  kept : Kept w w'
  clean : w'.wflag = false
  data : w'.disk.data = w.disk.data
  log : ∃ l, w'.disk.log = l ++ w.disk.log ∧ ∀ a ∈ l, g.OfClusters a

/-- Nothing is changed when nothing is done. -/
theorem Reading.refl (g : Geometry) {w : State} (hc : w.wflag = false) : Reading g w w :=
  ⟨.refl w, hc, rfl, [], rfl, nofun⟩

/-- Two steps that only read. -/
theorem Reading.trans {g : Geometry} {w₁ w₂ w₃ : State} (h : Reading g w₁ w₂)
    (h' : Reading g w₂ w₃) : Reading g w₁ w₃ := by
  obtain ⟨l, hl, hp⟩ := h.log
  obtain ⟨l', hl', hp'⟩ := h'.log
  refine ⟨h.kept.trans h'.kept, h'.clean, h'.data.trans h.data, l' ++ l, ?_, fun a ha => ?_⟩
  · rw [hl', hl, List.append_assoc]
  · rcases List.mem_append.1 ha with ha | ha
    · exact hp' a ha
    · exact hp a ha

/-- A transfer for a cluster. -/
theorem Reading.note {g : Geometry} {w : State} (hc : w.wflag = false) {a : Access}
    (ha : g.OfClusters a) : Reading g w (w.note a) :=
  ⟨⟨rfl, rfl, rfl, rfl, rfl, rfl, rfl, rfl, rfl, rfl⟩, hc, rfl, [a], rfl, by simpa using ha⟩

/-- What moving a clean window that is on the device does. -/
structure Moved (g : Geometry) (w : State) (s : Nat) (r : FRESULT) (w' : State) : Prop where
  reading : g.OfClusters (.read s 1) → Reading g w w'
  res : r = .ok ∨ r = .diskErr
  win : r = .ok → w'.OnSector ∧ s < w.disk.sectors ∧ w'.win = w.disk.data s
  full : w.disk.Reliable → s < w.disk.sectors → r = .ok

/-- `move_window` from a clean window reads the sector, or invalidates the window. -/
theorem moveWindow_on (g : Geometry) {w : State} (hc : w.wflag = false) (ho : w.OnSector)
    (s : Nat) :
    Returns (moveWindow s) w (Moved g w s) := by
  rw [moveWindow, returns_bind, returns_get, returns_ite]
  refine ⟨fun hne => ?_, fun he => returns_pure.2 ?_⟩
  · have hsync : syncWindow w = some (.ok, w) := by
      rw [syncWindow, get_bind_apply, hc]
      rfl
    rw [returns_bind]
    refine ⟨.ok, w, hsync, ?_⟩
    simp only [if_true, returns_bind, returns_diskRead, returns_modify, returns_pure]
    refine ⟨fun hs => ?_, fun hs => ?_⟩
    · have hb := (Disk.inBounds_iff.1 (Disk.inBounds_of_serves hs)).1
      refine ⟨fun ha => ?_, .inl rfl, fun _ => ⟨⟨hb, rfl⟩, hb, rfl⟩, fun _ _ => rfl⟩
      have h := Reading.note hc ha
      exact ⟨⟨rfl, rfl, rfl, rfl, rfl, rfl, rfl, rfl, rfl, rfl⟩, h.clean, h.data, h.log⟩
    · refine ⟨fun ha => ?_, .inr rfl, by simp, fun hr hlt => absurd ?_ hs⟩
      · have h := Reading.note hc ha
        exact ⟨⟨rfl, rfl, rfl, rfl, rfl, rfl, rfl, rfl, rfl, rfl⟩, h.clean, h.data, h.log⟩
      · rw [hr.serves, Disk.inBounds_iff]
        omega
  · obtain rfl : s = w.winsect := by simpa using he
    exact ⟨fun _ => .refl g hc, .inl rfl, fun _ => ⟨ho, ho.1, ho.2⟩, fun _ _ => rfl⟩

/-- What `get_fat` does: it answers what follows the number, or the device has refused a
transfer. -/
structure Answered (g : Geometry) (w : State) (c r : Nat) (w' : State) : Prop where
  reading : Reading g w w'
  val : r = DISKERR ∨ (r = g.succ w.disk.data c ∧ w'.OnSector)
  full : w.disk.Reliable → (∀ s ∈ g.fatSects c, s < w.disk.sectors) → r ≠ DISKERR

/-- `get_fat` from a clean window answers by the sectors of the device. -/
theorem getFat_on {g : Geometry} {w : State} (hg : w.geo = g) (hc : w.wflag = false)
    (ho : w.OnSector) (c : Nat) : Returns (getFat c) w (Answered g w c) := by
  have hval : ∀ {r w'}, Reading g w w' → r = g.succ w.disk.data c → w'.OnSector →
      Answered g w c r w' := fun h hr ho' => ⟨h, .inr ⟨hr, ho'⟩, fun _ _ => by
    have := g.succ_lt w.disk.data c
    rw [hr, DISKERR]
    omega⟩
  rw [getFat, returns_bind, returns_get, returns_ite, hg]
  refine ⟨fun hn => returns_pure.2 (hval (.refl g hc) (if_neg (by omega)).symm ho), fun hn => ?_⟩
  have hcl : g.IsClust c := ⟨by omega, by omega⟩
  have hsucc : g.succ w.disk.data c = g.fatEntry w.disk.data c := if_pos hcl
  -- a sector of the entry is in the window, or was refused
  have hmove : ∀ {w₁ s}, Reading g w w₁ → w₁.OnSector → s ∈ g.fatSects c →
      Returns (moveWindow s) w₁ fun r w₂ => Reading g w w₂ ∧
        (r = .ok → w₂.OnSector ∧ w₂.win = w.disk.data s) ∧
        (¬r = .ok → Answered g w c DISKERR w₂) := fun {w₁ s} h₁ ho₁ hs => by
    refine (moveWindow_on g h₁.clean ho₁ s).mono fun r w₂ h₂ => ?_
    have hr := h₁.trans (h₂.reading (.inl ⟨rfl, c, hcl, hs⟩))
    refine ⟨hr, fun hok => ⟨(h₂.win hok).1, by rw [(h₂.win hok).2.2, h₁.data]⟩, fun hne =>
      ⟨hr, .inl rfl, fun hrel hall => absurd (h₂.full (h₁.kept.reliable hrel) ?_) hne⟩⟩
    rw [h₁.kept.sectors]
    exact hall s hs
  cases hf : g.fsType with
  | none =>
    refine returns_pure.2 (hval (.refl g hc) ?_ ho)
    rw [hsucc, Geometry.fatEntry, hf]
  | fat12 =>
    simp only [returns_bind, returns_ite, returns_pure, returns_get]
    refine (hmove (.refl g hc) ho (by simp [Geometry.fatSects, hf])).mono
      fun r w₁ hpost => ?_
    obtain ⟨h₁, hok₁, hne₁⟩ := hpost
    refine ⟨hne₁, fun hr => ?_⟩
    obtain ⟨ho₁, hw₁⟩ := hok₁ (not_not.1 hr)
    refine (hmove h₁ ho₁ (by simp [Geometry.fatSects, hf])).mono
      fun r' w₂ hpost => ?_
    obtain ⟨h₂, hok₂, hne₂⟩ := hpost
    refine ⟨hne₂, fun hr' => ?_⟩
    obtain ⟨ho₂, hw₂⟩ := hok₂ (not_not.1 hr')
    refine hval h₂ ?_ ho₂
    rw [hsucc, Geometry.fatEntry, hf, hw₁, hw₂]
  | fat16 =>
    simp only [returns_bind, returns_ite, returns_pure, returns_get]
    refine (hmove (.refl g hc) ho (by simp [Geometry.fatSects, hf])).mono
      fun r w₁ hpost => ?_
    obtain ⟨h₁, hok₁, hne₁⟩ := hpost
    refine ⟨hne₁, fun hr => ?_⟩
    obtain ⟨ho₁, hw₁⟩ := hok₁ (not_not.1 hr)
    refine hval h₁ ?_ ho₁
    rw [hsucc, Geometry.fatEntry, hf, hw₁]
  | fat32 =>
    simp only [returns_bind, returns_ite, returns_pure, returns_get]
    refine (hmove (.refl g hc) ho (by simp [Geometry.fatSects, hf])).mono
      fun r w₁ hpost => ?_
    obtain ⟨h₁, hok₁, hne₁⟩ := hpost
    refine ⟨hne₁, fun hr => ?_⟩
    obtain ⟨ho₁, hw₁⟩ := hok₁ (not_not.1 hr)
    refine hval h₁ ?_ ho₁
    rw [hsucc, Geometry.fatEntry, hf, hw₁]

/-! ## Mounting and opening -/

/-- In a run from `w₀` that only read: the window is clean, and holds the device sector if it is on
the device. -/
structure Settled (w₀ : State) (g : Geometry) (w : State) : Prop where
  geo : w.geo = g
  clean : w.wflag = false
  coherent : w.Coherent
  data : w.disk.data = w₀.disk.data
  sectors : w.disk.sectors = w₀.disk.sectors
  fault : w.disk.fault = w₀.disk.fault

/-- What holds between calls that only read. -/
structure Resting (w : State) : Prop where
  clean : w.wflag = false
  size : w.disk.sectors < W32
  mounted : w.geo.fsType ≠ .none → w.Coherent ∧ w.geo.Accepted

section
variable {w₀ : State} (hsz : w₀.disk.sectors < W32) {g : Geometry}

include hsz

/-- `move_window` keeps the window on the device of the mount. -/
theorem moveWindow_settled (s : Nat) : Keeps (Settled w₀ g) (moveWindow s) := fun w hw =>
  (moveWindow_spec w s).ensures.mono fun r w' h => by
    cases h with
    | same => exact hw
    | moved hk _ hc hws hwin _ hf =>
      exact ⟨hk.geo.trans hw.geo, hc, fun _ _ => by rw [hwin, hws],
        (hf.of_clean hw.clean).trans hw.data, hk.sectors.trans hw.sectors, hk.fault.trans hw.fault⟩
    | stuck _ _ hd => exact absurd hd (by simp [hw.clean])
    | lost hk _ hc hws _ hf _ =>
      refine ⟨hk.geo.trans hw.geo, hc, fun _ hon => ?_, (hf.of_clean hw.clean).trans hw.data,
        hk.sectors.trans hw.sectors, hk.fault.trans hw.fault⟩
      rw [hws, hk.sectors, hw.sectors] at hon
      simp only [W32] at hsz
      omega

/-- `check_fs` starts with an invalid window. -/
theorem checkFs_settled {w : State} (hg : w.geo = g) (hd : w.disk.data = w₀.disk.data)
    (hs : w.disk.sectors = w₀.disk.sectors) (hf : w.disk.fault = w₀.disk.fault) (s : Nat) :
    Ensures (checkFs s) w fun _ w' => Settled w₀ g w' := by
  simp only [checkFs, ensures_bind, ensures_modify, ensures_ite, ensures_pure, ensures_get]
  have hset : Settled w₀ g { w with wflag := false, winsect := 0xFFFFFFFF } := by
    refine ⟨hg, rfl, fun _ hon => ?_, hd, hs, hf⟩
    have hon : 0xFFFFFFFF < w.disk.sectors := hon
    simp only [W32] at hsz
    omega
  exact (moveWindow_settled hsz s _ hset).mono fun r w' h => ⟨fun _ => h, fun _ => h⟩

/-- The search through the partitions keeps the device of the mount. -/
theorem tryParts_settled : ∀ pts : List Nat, Keeps (Settled w₀ g) (tryParts pts)
  | [] => .pure _
  | pt :: pts => .bind (.ite (fun _ => fun _ hw => checkFs_settled hsz hw.geo hw.data hw.sectors
      hw.fault pt) fun _ => .pure _) fun _ => .ite (fun _ => tryParts_settled pts) fun _ => .pure _

/-- The reading of the FSInfo record keeps the device of the mount. -/
theorem loadFsInfo_settled (fmt : FsType) (s : Sector) (b : Nat) :
    Keeps (Settled w₀ g) (loadFsInfo fmt s b) := by
  unfold loadFsInfo
  refine .bind (.modify fun w hw => ⟨hw.geo, hw.clean, hw.coherent, hw.data, hw.sectors, hw.fault⟩)
    fun _ => .ite (fun _ => .bind (moveWindow_settled hsz _) fun r => .ite (fun _ => .modify
      fun w hw => ?_) fun _ => .pure _) fun _ => .pure _
  split <;> exact ⟨hw.geo, hw.clean, hw.coherent, hw.data, hw.sectors, hw.fault⟩

/-- A mount keeps the device, and the layout when it fails. -/
theorem mountDrive_settled {w : State} (hg : w.geo = g) (hd : w.disk = w₀.disk) :
    Ensures mountDrive w fun r w' => Settled w₀ w'.geo w' ∧ (r = .ok → w'.geo.Accepted) ∧
      (r ≠ .ok → w'.geo = g) := by
  rw [mountDrive, ensures_bind]
  have hfind : Ensures findVolume w fun _ w' => Settled w₀ g w' := by
    simp only [findVolume, ensures_bind, ensures_ite, ensures_pure, ensures_get]
    exact (checkFs_settled hsz hg (by rw [hd]) (by rw [hd]) (by rw [hd]) 0).mono fun r w' h =>
      ⟨fun _ => h, fun _ => tryParts_settled hsz _ w' h⟩
  refine hfind.mono fun r w₁ h₁ => ?_
  have hfail : ∀ {res : FRESULT}, res ≠ .ok → Settled w₀ w₁.geo w₁ ∧
      (res = .ok → w₁.geo.Accepted) ∧ (res ≠ .ok → w₁.geo = g) := fun hne =>
    ⟨by rw [h₁.geo]; exact h₁, fun h => absurd h hne, fun _ => h₁.geo⟩
  simp only [ensures_ite, ensures_pure, ensures_bind, ensures_get]
  refine ⟨fun _ => hfail (by simp), fun _ => ⟨fun _ => hfail (by simp), fun _ => ?_⟩⟩
  cases hb : readBPB w₁.win w₁.winsect with
  | none => exact ensures_pure.2 (hfail (by simp))
  | some b =>
    simp only [ensures_bind, ensures_modify, ensures_pure]
    refine (loadFsInfo_settled hsz _ _ _ w₁ h₁).mono fun _ w₂ h₂ => ?_
    refine ⟨⟨rfl, h₂.clean, h₂.coherent, h₂.data, h₂.sectors, h₂.fault⟩, fun _ => ?_,
      fun h => absurd rfl h⟩
    have ha := (readBPB_some hb).accepted
    exact ⟨ha.fsType, ha.csize, ha.entries, ha.limit⟩

omit hsz

/-- A volume that is mounted is one that the BPB analysis accepts, and the window is settled. -/
theorem mountVolume_settled {w : State} (hw : Resting w) (path : List UInt8) (mode : UInt8) :
    Ensures (mountVolume path mode) w fun r w' =>
      r.1 = .ok → Settled w w'.geo w' ∧ w'.geo.Accepted := by
  rw [mountVolume, ensures_bind, ensures_get]
  obtain ⟨known, rest⟩ := getLdnumber w.charSigned path
  cases known with
  | false => exact ensures_pure.2 (by simp)
  | true =>
    simp only [ensures_ite, ensures_pure, ensures_bind, ensures_modify]
    refine ⟨by simp, fun _ => ⟨fun hm => ⟨by simp, fun _ _ => ?_⟩, fun hm => ⟨by simp, fun _ =>
      ⟨by simp, fun _ => ?_⟩⟩⟩⟩
    · obtain ⟨hco, hacc⟩ := hw.mounted hm.1
      exact ⟨⟨rfl, hw.clean, hco, rfl, rfl, rfl⟩, hacc⟩
    · refine (mountDrive_settled hw.size (w := { w with geo := { w.geo with fsType := .none } }) rfl
        rfl).mono fun r w' hpost h => ?_
      obtain ⟨hset, hok, _⟩ := hpost
      exact ⟨hset, hok h⟩

end

end FatFs
