import FatFs.Mount.Geometry

/-!
# The layout a mount computes

`mount_volume` computes the layout of the volume from the BPB in 32-bit arithmetic. `readBPB_some`
says what its checks establish and which values it computes; `mountVolume_blank` that a successful
mount of a blank filesystem object analyses the boot sector `Disk.volumeSector`, a function of the
device content alone. The layout is sound as unbounded integers (`SoundLayout`) exactly when neither
the size of the system areas nor the end of the volume passes `2 ^ 32` (`LayoutFits`):
`mountVolume_sound_iff`. The source compares the volume size with the wrapped sum of the system
areas only.
-/

namespace FatFs

open Run

/-! ## The BPB -/

/-- The size of the reserved area, the FATs and the root directory in a boot sector, as an unbounded
number. -/
def bpbSystem (s : Sector) : Nat :=
  ldWord s BPB_RsvdSecCnt + bpbFatSz s * (s BPB_NumFATs).toNat + ldWord s BPB_RootEntCnt / 16

/-- What the BPB analysis establishes when it accepts the boot sector `s` at `b`, with the wrapped
size `sys` of the system areas. -/
structure Analysed (s : Sector) (b sys : Nat) (g : Geometry) : Prop where
  nFats : g.nFats = 1 ∨ g.nFats = 2
  nFats_eq : g.nFats = (s BPB_NumFATs).toNat
  csize : g.csize ≠ 0 ∧ g.csize &&& (g.csize - 1) = 0
  csize_le : g.csize < 256
  nRootdir : g.nRootdir = ldWord s BPB_RootEntCnt
  rootSize : g.nRootdir % 16 = 0
  rsvd : ldWord s BPB_RsvdSecCnt ≠ 0
  sys_eq : sys = bpbSystem s % W32
  sys_le : sys ≤ bpbTotSec s
  nFatent : g.nFatent = (bpbTotSec s - sys) / g.csize + 2
  entries : 3 ≤ g.nFatent
  fsType : g.fsType ≠ .none
  limit : g.nFatent ≤ Geometry.maxEntries g.fsType
  rootType : g.fsType = .fat32 ↔ g.nRootdir = 0
  fsize : g.fsize = bpbFatSz s
  fatSize : g.fatBytes ≤ g.fsize * SS
  volbase : g.volbase = b
  fatbase : g.fatbase = add32 b (ldWord s BPB_RsvdSecCnt)
  dirbase : g.fsType ≠ .fat32 → g.dirbase = add32 g.fatbase (g.fsize * g.nFats % W32)
  database : g.database = add32 b sys

theorem bpbSysect_eq (s : Sector) : bpbSysect s = bpbSystem s % W32 := by
  simp only [bpbSysect, bpbSystem, bpbFatArea, W32, SS, SZDIRE]
  omega

theorem maxEntries_subType {n : Nat} (h : subType n ≠ .none) :
    n + 2 ≤ Geometry.maxEntries (subType n) := by
  by_cases h₁ : n ≤ MAX_FAT12
  · simp [subType, h₁, Geometry.maxEntries]
  by_cases h₂ : n ≤ MAX_FAT16
  · simp [subType, h₁, h₂, Geometry.maxEntries]
  by_cases h₃ : n ≤ MAX_FAT32
  · simp [subType, h₁, h₂, h₃, Geometry.maxEntries]
  · simp [subType, h₁, h₂, h₃] at h

/-- Inversion of the BPB analysis. -/
theorem readBPB_some {s : Sector} {b : Nat} {g : Geometry} (h : readBPB s b = some g) :
    Analysed s b (bpbSysect s) g := by
  unfold readBPB at h
  split at h
  · rename_i hv
    obtain ⟨-, hn, hc, hroot, hrsv, hle, hne, hty, h32, h16, hsz⟩ := hv
    have hb := (s BPB_SecPerClus).toNat_lt
    cases h
    refine
      { nFats := hn
        nFats_eq := rfl
        csize := hc
        csize_le := hb
        nRootdir := rfl
        rootSize := hroot
        rsvd := hrsv
        sys_eq := bpbSysect_eq s
        sys_le := hle
        nFatent := rfl
        entries := by simp only; omega
        fsType := hty
        limit := maxEntries_subType hty
        rootType := ⟨fun he => (h32 he).2, fun he => by by_contra hne; exact h16 hne he⟩
        fsize := rfl
        fatSize := ?_
        volbase := rfl
        fatbase := rfl
        dirbase := fun hne => by simp only at hne ⊢; rw [if_neg hne]; rfl
        database := rfl }
    simp only [Geometry.fatBytes]
    generalize subType (bpbClusters s) = ty at *
    cases ty
    · exact absurd rfl hty
    all_goals simp only [neededFat, SS] at hsz ⊢; omega
  · cases h

/-! ## Finding the volume -/

/-- The sector is loaded by `check_fs` and recognised as the boot sector of a FAT volume. The number
`0xFFFFFFFF` marks an invalid window, so `move_window` never loads that sector. -/
def Disk.isVBR (d : Disk) (s : Nat) : Bool :=
  decide (s < d.sectors) && s != 0xFFFFFFFF && decide (classify (d.data s) = 0)

/-- The start sectors in the partition table of the device. -/
def Disk.partitions (d : Disk) : List Nat :=
  (List.range 4).map fun i => ldDword (d.data 0) (MBR_Table + i * SZ_PTE + PTE_StLba)

/-- The boot sector that a mount of the device uses: sector 0, else the first partition that starts
with a boot sector, if sector 0 is an MBR. -/
def Disk.volumeSector (d : Disk) : Option Nat :=
  if d.isVBR 0 then some 0
  else if classify (d.data 0) = 2 then d.partitions.find? fun pt => pt != 0 && d.isVBR pt
  else none

theorem classify_cases (s : Sector) : classify s = 0 ∨ classify s = 2 ∨ classify s = 3 := by
  simp only [classify]
  split
  · exact .inl rfl
  · split <;> simp

/-- The window functions keep the device content while the window is clean. -/
structure Looked (w w' : State) : Prop where
  data : w'.disk.data = w.disk.data
  sectors : w'.disk.sectors = w.disk.sectors
  reliable : w'.disk.Reliable
  fsid : w'.fsid = w.fsid
  geo : w'.geo = w.geo

theorem Looked.trans {w₁ w₂ w₃ : State} (h : Looked w₁ w₂) (h' : Looked w₂ w₃) : Looked w₁ w₃ :=
  ⟨h'.data.trans h.data, h'.sectors.trans h.sectors, h'.reliable, h'.fsid.trans h.fsid,
    h'.geo.trans h.geo⟩

theorem Looked.isVBR {w w' : State} (h : Looked w w') : w'.disk.isVBR = w.disk.isVBR := by
  funext s
  simp [Disk.isVBR, h.data, h.sectors]

/-- The window holds the boot sector `b`. -/
def State.Holds (w : State) (b : Nat) : Prop := w.win = w.disk.data b ∧ w.winsect = b

/-- `check_fs` on a reliable device. The number of an invalid window is never loaded, so the test
is about the stale window there. -/
theorem checkFs_spec {w : State} {s : Nat} (hr : w.disk.Reliable)
    (hw : s = 0xFFFFFFFF → classify w.win ≠ 0) :
    Returns (checkFs s) w fun r w' => Looked w w' ∧
      (w.disk.isVBR s = true → r = 0 ∧ w'.Holds s) ∧
      (w.disk.isVBR s = false → 2 ≤ r ∧ (r = 2 ∨ classify w.win ≠ 0 → classify w'.win ≠ 0)) ∧
      (s ≠ 0xFFFFFFFF → (r = 2 ↔ s < w.disk.sectors ∧ classify (w.disk.data s) = 2) ∧
        (r = 2 → w'.win = w.disk.data s)) := by
  rw [checkFs, returns_bind, returns_modify, returns_bind]
  refine (moveWindow_spec _ s).mono fun r w' h => ?_
  simp only [returns_ite, returns_bind, returns_get, returns_pure]
  cases h with
  | same hs =>
    -- the invalid window is asked for: nothing is loaded
    simp only at hs
    have hcl := classify_cases w.win
    have hne := hw hs
    refine ⟨by simp, fun _ => ⟨⟨rfl, rfl, hr, rfl, rfl⟩, ?_, ?_, ?_⟩⟩
    · simp [Disk.isVBR, hs]
    · exact fun _ => ⟨by simp only; omega, fun _ => hne⟩
    · exact fun h => absurd hs h
  | moved hk hne hc hws hwin hlt hf =>
    have hd : w'.disk.data = w.disk.data := hf.of_clean rfl
    simp only at hlt hne
    have hcl := classify_cases (w.disk.data s)
    refine ⟨by simp, fun _ => ⟨⟨hd, hk.sectors, hk.reliable hr, hk.fsid, hk.geo⟩, fun hv => ?_,
      fun hv => ?_, fun _ => ?_⟩⟩
    · simp only [Disk.isVBR, Bool.and_eq_true, decide_eq_true_eq] at hv
      exact ⟨by rw [hwin, hd]; exact hv.2, hwin, hws⟩
    · have : classify (w.disk.data s) ≠ 0 := by simpa [Disk.isVBR, hlt, hne] using hv
      rw [hwin, hd]
      exact ⟨by omega, fun _ => this⟩
    · rw [hwin, hd]
      exact ⟨by simp [hlt], fun _ => rfl⟩
  | stuck _ _ hd => cases hd
  | lost hk hne hc hws hwin hf hrel =>
    have hd : w'.disk.data = w.disk.data := hf.of_clean rfl
    have hge : w.disk.sectors ≤ s := hrel hr
    refine ⟨fun _ => ⟨⟨hd, hk.sectors, hk.reliable hr, hk.fsid, hk.geo⟩, fun hv => ?_, fun _ => ?_,
      fun _ => ?_⟩, by simp⟩
    · simp only [Disk.isVBR, Bool.and_eq_true, decide_eq_true_eq] at hv
      omega
    · rw [hwin]
      exact ⟨by omega, fun h => h.resolve_left (by omega)⟩
    · exact ⟨by omega, by omega⟩

/-- The loop over the partitions stops at the first one that starts with a boot sector. -/
theorem tryParts_spec : ∀ {pts : List Nat} {w : State}, w.disk.Reliable → classify w.win ≠ 0 →
    Returns (tryParts pts) w fun r w' => Looked w w' ∧
      match pts.find? fun pt => pt != 0 && w.disk.isVBR pt with
      | some b => r = 0 ∧ w'.Holds b
      | none => 2 ≤ r
  | [], w, hr, hw => by
    rw [tryParts, returns_pure]
    exact ⟨⟨rfl, rfl, hr, rfl, rfl⟩, by simp⟩
  | pt :: pts, w, hr, hw => by
    rw [tryParts, returns_bind]
    -- the test of the partition leaves a boot sector in the window, or none
    have hone : Returns (if pt ≠ 0 then checkFs pt else pure 3) w fun r w' => Looked w w' ∧
        ((pt != 0 && w.disk.isVBR pt) = true → r = 0 ∧ w'.Holds pt) ∧
        ((pt != 0 && w.disk.isVBR pt) = false → 2 ≤ r ∧ classify w'.win ≠ 0) := by
      rw [returns_ite]
      refine ⟨fun hne => (checkFs_spec hr fun _ => hw).mono fun r w' h => ?_, fun he => ?_⟩
      · obtain ⟨hl, hyes, hno, -⟩ := h
        have hne' : (pt != 0) = true := by simpa using hne
        rw [hne', Bool.true_and]
        exact ⟨hl, hyes, fun hv => ⟨(hno hv).1, (hno hv).2 (.inr hw)⟩⟩
      · have he' : (pt != 0) = false := by simpa using he
        rw [returns_pure, he', Bool.false_and]
        exact ⟨⟨rfl, rfl, hr, rfl, rfl⟩, by simp, fun _ => ⟨by omega, hw⟩⟩
    refine hone.mono fun r w' ⟨hl, hyes, hno⟩ => ?_
    rw [returns_ite, List.find?_cons]
    cases hv : pt != 0 && w.disk.isVBR pt with
    | true =>
      obtain ⟨rfl, hh⟩ := hyes hv
      exact ⟨by omega, fun _ => returns_pure.2 ⟨hl, rfl, hh⟩⟩
    | false =>
      obtain ⟨hge, hcl⟩ := hno hv
      refine ⟨fun _ => (tryParts_spec hl.reliable hcl).mono fun r' w'' ⟨hl', h⟩ => ?_, fun hs => ?_⟩
      · rw [hl.isVBR] at h
        exact ⟨hl.trans hl', h⟩
      · have : pts = [] := by
          by_contra hne
          exact hs ⟨hge, hne⟩
        rw [returns_pure, this]
        exact ⟨hl, hge⟩

/-- `find_volume` finds the boot sector `Disk.volumeSector`. -/
theorem findVolume_spec {w : State} (hr : w.disk.Reliable) :
    Returns findVolume w fun r w' => Looked w w' ∧
      match w.disk.volumeSector with
      | some b => r = 0 ∧ w'.Holds b
      | none => 2 ≤ r := by
  rw [findVolume, returns_bind]
  refine (checkFs_spec hr (by simp)).mono fun r w' hpost => ?_
  obtain ⟨hl, hyes, hno, hmbr⟩ := hpost
  obtain ⟨hr2, hwin⟩ := hmbr (by omega)
  simp only [returns_ite, returns_pure, returns_bind, returns_get]
  unfold Disk.volumeSector
  cases hv : w.disk.isVBR 0 with
  | true =>
    obtain ⟨rfl, hh⟩ := hyes hv
    exact ⟨fun _ => ⟨hl, rfl, hh⟩, by omega⟩
  | false =>
    obtain ⟨hge, hcl⟩ := hno hv
    refine ⟨fun hne => ⟨hl, ?_⟩, fun h2 => ?_⟩
    · simp only [Bool.false_eq_true, if_false]
      split
      · rename_i b hb
        split at hb
        · -- the sector is an MBR that could not be read, so the device is empty
          have hb' := List.find?_some hb
          simp only [Disk.isVBR, Bool.and_eq_true, decide_eq_true_eq] at hb'
          exact absurd (hr2.2 ⟨by omega, ‹_›⟩) hne
        · cases hb
      · exact hge
    · have h2' : r = 2 := by omega
      simp only [Bool.false_eq_true, if_false, (hr2.1 h2').2, if_true]
      rw [hwin h2']
      refine (tryParts_spec hl.reliable (hcl (.inl h2'))).mono fun r' w'' hpost => ?_
      obtain ⟨hl', h⟩ := hpost
      rw [hl.isVBR] at h
      exact ⟨hl.trans hl', h⟩

/-! ## Mounting -/

/-- Reading the FSInfo sector with a clean window keeps the device and the mount ID. -/
theorem loadFsInfo_spec {w : State} {fmt : FsType} {s : Sector} {b : Nat} (hr : w.disk.Reliable)
    (hc : w.wflag = false) :
    Returns (loadFsInfo fmt s b) w fun _ w' => Looked w w' := by
  rw [loadFsInfo, returns_bind, returns_modify, returns_ite]
  refine ⟨fun _ => ?_, fun _ => returns_pure.2 ⟨rfl, rfl, hr, rfl, rfl⟩⟩
  rw [returns_bind]
  refine (moveWindow_spec _ _).mono fun r w' h => ?_
  have hl : Looked w w' := by
    cases h with
    | same => exact ⟨rfl, rfl, hr, rfl, rfl⟩
    | moved hk _ _ _ _ _ hf => exact ⟨hf.of_clean hc, hk.sectors, hk.reliable hr, hk.fsid, hk.geo⟩
    | stuck _ _ hd => exact absurd hd (by simp [hc])
    | lost hk _ _ _ _ hf _ => exact ⟨hf.of_clean hc, hk.sectors, hk.reliable hr, hk.fsid, hk.geo⟩
  simp only [returns_ite, returns_modify, returns_pure]
  refine ⟨fun _ => ?_, fun _ => hl⟩
  split <;> exact ⟨hl.data, hl.sectors, hl.reliable, hl.fsid, hl.geo⟩

/-- The clean window survives `check_fs` and the search for the volume. -/
theorem checkFs_clean (s : Nat) (w : State) :
    Returns (checkFs s) w fun _ w' => w'.wflag = false := by
  rw [checkFs, returns_bind, returns_modify, returns_bind]
  refine (moveWindow_spec _ s).mono fun r w' h => ?_
  simp only [returns_ite, returns_bind, returns_get, returns_pure]
  cases h with
  | same => simp
  | moved _ _ hc => simp [hc]
  | stuck _ _ hd => cases hd
  | lost _ _ hc => simp [hc]

theorem tryParts_clean : ∀ (pts : List Nat) (w : State), w.wflag = false →
    Returns (tryParts pts) w fun _ w' => w'.wflag = false
  | [], w, hc => returns_pure.2 hc
  | pt :: pts, w, hc => by
    simp only [tryParts, returns_bind, returns_ite, returns_pure]
    refine ⟨fun _ => (checkFs_clean pt w).mono fun r w' hc' => ⟨fun _ => ?_, fun _ => hc'⟩,
      fun _ => ⟨fun _ => ?_, fun _ => hc⟩⟩
    · exact tryParts_clean pts w' hc'
    · exact tryParts_clean pts w hc

theorem findVolume_clean (w : State) : Returns findVolume w fun _ w' => w'.wflag = false := by
  rw [findVolume, returns_bind]
  refine (checkFs_clean 0 w).mono fun r w' hc => ?_
  simp only [returns_ite, returns_bind, returns_get, returns_pure]
  exact ⟨fun _ => hc, fun _ => tryParts_clean _ w' hc⟩

/-- What mounting a drive does: it accepts exactly the device whose volume boot sector passes the
BPB analysis, and takes the layout from there. -/
theorem mountDrive_spec {w : State} (hr : w.disk.Reliable) :
    Returns mountDrive w fun r w' => w'.disk.data = w.disk.data ∧
      w'.disk.sectors = w.disk.sectors ∧
      match w.disk.volumeSector.bind fun b => readBPB (w.disk.data b) b with
      | some g => r = .ok ∧ w'.geo = { g with id := (w.fsid + 1) % 65536 }
      | none => r ≠ .ok := by
  rw [mountDrive, returns_bind]
  refine ((findVolume_spec hr).and (findVolume_clean w)).mono fun r w₁ ⟨⟨hl, h⟩, hc⟩ => ?_
  simp only [returns_ite, returns_pure, returns_bind, returns_get]
  cases hv : w.disk.volumeSector with
  | none =>
    simp only [hv] at h
    exact ⟨fun _ => ⟨hl.data, hl.sectors, by simp⟩,
      fun _ => ⟨fun _ => ⟨hl.data, hl.sectors, by simp⟩, by omega⟩⟩
  | some b =>
    simp only [hv] at h
    obtain ⟨rfl, hwin, hws⟩ := h
    rw [hl.data] at hwin
    refine ⟨by omega, fun _ => ⟨by omega, fun _ => ?_⟩⟩
    simp only [Option.bind_some, hwin, hws]
    cases readBPB (w.disk.data b) b with
    | none => exact returns_pure.2 ⟨hl.data, hl.sectors, by simp⟩
    | some g =>
      rw [returns_bind]
      refine (loadFsInfo_spec hl.reliable hc).mono fun _ w₂ hl₂ => ?_
      simp only [returns_bind, returns_modify, returns_pure]
      have ht := hl.trans hl₂
      exact ⟨ht.data, ht.sectors, trivial, by rw [hl.fsid]⟩

/-- A successful mount of a blank filesystem object mounts the drive. -/
theorem mountVolume_drive {w : State} (hb : w.geo.fsType = .none) {path : List UInt8} {mode : UInt8}
    {Q : State → Prop} (h : Ensures mountDrive { w with geo := { w.geo with fsType := .none } }
      fun r w' => r = .ok → Q w') :
    Ensures (mountVolume path mode) w fun r w' => r.1 = .ok → Q w' := by
  rw [mountVolume, ensures_bind, ensures_get]
  obtain ⟨known, rest⟩ := getLdnumber w.charSigned path
  cases known with
  | false => exact ensures_pure.2 (by simp)
  | true =>
    simp only [ensures_ite, ensures_pure, ensures_bind, ensures_modify]
    exact ⟨by simp, fun _ => ⟨fun hm => absurd hb hm.1, fun _ => ⟨by simp, fun _ => ⟨by simp,
      fun _ => h⟩⟩⟩⟩

/-- Inversion of a successful mount of a blank filesystem object. -/
theorem mountVolume_blank {w w' : State} {path p : List UInt8} {mode : UInt8}
    (hr : w.disk.Reliable) (hb : w.geo.fsType = .none)
    (hm : mountVolume path mode w = some ((.ok, p), w')) :
    ∃ b g, w.disk.volumeSector = some b ∧ readBPB (w.disk.data b) b = some g ∧
      w'.geo = { g with id := (w.fsid + 1) % 65536 } ∧ w'.disk.data = w.disk.data := by
  refine mountVolume_drive (Q := fun w' => ∃ b g, w.disk.volumeSector = some b ∧
    readBPB (w.disk.data b) b = some g ∧ w'.geo = { g with id := (w.fsid + 1) % 65536 } ∧
    w'.disk.data = w.disk.data) hb ?_ _ _ hm rfl
  refine (mountDrive_spec (w := { w with geo := { w.geo with fsType := .none } })
    hr).ensures.mono fun r w₁ ⟨hd, _, h⟩ hok => ?_
  simp only at hd h
  cases hv : w.disk.volumeSector with
  | none =>
    rw [hv] at h
    exact absurd hok h
  | some b =>
    rw [hv, Option.bind_some] at h
    cases hg : readBPB (w.disk.data b) b with
    | none =>
      rw [hg] at h
      exact absurd hok h
    | some g =>
      rw [hg] at h
      exact ⟨b, g, rfl, hg, h.2, hd⟩

/-! ## Soundness of the layout -/

/-- The areas of a mounted volume of `tsect` sectors, computed without wrap-around, follow one
another inside the volume, and the clusters are where they should be. -/
structure SoundLayout (g : Geometry) (tsect : Nat) : Prop where
  /-- There is a reserved area before the FATs. -/
  reserved : g.volbase < g.fatbase
  /-- The root directory of FAT12/16 follows the FATs. -/
  root : g.fsType ≠ .fat32 → g.dirbase = g.fatbase + g.nFats * g.fsize
  /-- The data area follows the root directory. -/
  data : g.database = g.fatbase + g.nFats * g.fsize + g.nRootdir / 16
  /-- The clusters are inside the volume. -/
  inside : g.database + g.csize * (g.nFatent - 2) ≤ g.volbase + tsect
  /-- The volume is addressable. -/
  top : g.volbase + tsect ≤ 2 ^ 32
  /-- Distinct clusters share no sector. -/
  disjoint : ∀ c d, g.IsClust c → g.IsClust d → c ≠ d → ∀ i < g.csize, ∀ j < g.csize,
    clst2sect g c + i ≠ clst2sect g d + j
  /-- A cluster has no sector in the reserved area, the FATs or the root directory. -/
  clear : ∀ c, g.IsClust c → clst2sect g c ≠ 0 ∧
    ∀ i < g.csize, g.database ≤ clst2sect g c + i ∧
      clst2sect g c + i < g.database + g.csize * (g.nFatent - 2)

/-- The system areas and the end of the volume, as the boot sector at `b` gives them, do not pass
`2 ^ 32`. -/
def bpbFits (s : Sector) (b : Nat) : Prop :=
  bpbSystem s < 2 ^ 32 ∧ b + bpbTotSec s ≤ 2 ^ 32

/-- The condition of `bpbFits` on the volume of a device. -/
def Disk.LayoutFits (d : Disk) : Prop :=
  ∀ b, d.volumeSector = some b → bpbFits (d.data b) b

theorem Analysed.csize_pow {s : Sector} {b sys : Nat} {g : Geometry} (h : Analysed s b sys g) :
    ∃ k ≤ 7, g.csize = 2 ^ k := by
  obtain ⟨h0, hand⟩ := h.csize
  have hlt := h.csize_le
  have key : ∀ n < 256, n ≠ 0 → n &&& (n - 1) = 0 → ∃ k ≤ 7, n = 2 ^ k := by decide +kernel
  exact key _ hlt h0 hand

/-- A boot sector without wrap-around gives a sound geometry. -/
theorem Analysed.sound {s : Sector} {b : Nat} {g : Geometry} (h : Analysed s b (bpbSysect s) g)
    (hf : bpbFits s b) : g.Sound ∧ g.volEnd ≤ g.volbase + bpbTotSec s := by
  obtain ⟨hsys, hend⟩ := hf
  have h₁ := h.sys_eq
  have h₂ := h.sys_le
  have h₃ := h.nFatent
  have h₄ := h.entries
  obtain ⟨k, hk, hck⟩ := h.csize_pow
  have hcp : 0 < g.csize := by rw [hck]; exact Nat.two_pow_pos k
  have hmod : bpbSysect s = bpbSystem s := by
    rw [h₁]
    exact Nat.mod_eq_of_lt hsys
  -- the data area has at least one cluster
  have hle : g.csize * (g.nFatent - 2) ≤ bpbTotSec s - bpbSysect s := by
    rw [h₃, Nat.add_sub_cancel]
    exact Nat.mul_div_le _ _
  have hpos : 0 < g.csize * (g.nFatent - 2) := Nat.mul_pos hcp (by omega)
  have hsum : bpbSystem s = ldWord s BPB_RsvdSecCnt + g.nFats * g.fsize + g.nRootdir / 16 := by
    rw [bpbSystem, h.nFats_eq, h.fsize, h.nRootdir, Nat.mul_comm (bpbFatSz s)]
  have hrs := h.rsvd
  have hfb : g.fatbase = b + ldWord s BPB_RsvdSecCnt := by
    rw [h.fatbase, add32_of_lt]
    simp only [W32]
    omega
  have hdb : g.database = b + bpbSystem s := by
    rw [h.database, hmod, add32_of_lt]
    simp only [W32]
    omega
  have hvb := h.volbase
  refine ⟨
    { fsType := h.fsType
      nFats := h.nFats
      csize := ⟨k, hk, hck⟩
      entries := h₄
      limit := h.limit
      fatSize := h.fatSize
      rootSize := h.rootSize
      rootType := h.rootType
      volbase := by omega
      dirbase := fun hne => ?_
      database := by omega
      top := by simp only [W32]; omega }, by unfold Geometry.volEnd; omega⟩
  have hcomm := Nat.mul_comm g.fsize g.nFats
  have hlt : g.nFats * g.fsize < W32 := by simp only [W32]; omega
  rw [h.dirbase hne, hcomm, Nat.mod_eq_of_lt hlt, add32_of_lt (by simp only [W32]; omega)]

/-- A layout that is sound as unbounded integers comes from a boot sector without wrap-around. -/
theorem Analysed.fits {s : Sector} {b : Nat} {g : Geometry} (h : Analysed s b (bpbSysect s) g)
    (hl : SoundLayout g (bpbTotSec s)) : bpbFits s b := by
  have htop := hl.top
  have hres := hl.reserved
  have hdat := hl.data
  have hvb := h.volbase
  have hfb := h.fatbase
  have hrs : ldWord s BPB_RsvdSecCnt < 65536 := ldWord_lt
  have hlt : g.database < W32 := by
    rw [h.database]
    exact add32_lt _ _
  have hsum : bpbSystem s = ldWord s BPB_RsvdSecCnt + g.nFats * g.fsize + g.nRootdir / 16 := by
    rw [bpbSystem, h.nFats_eq, h.fsize, h.nRootdir, Nat.mul_comm (bpbFatSz s)]
  refine ⟨?_, by omega⟩
  simp only [add32, W32] at hfb hlt
  omega

/-- The sound geometries inside an addressable volume have sound layouts. -/
theorem Geometry.Sound.layout {g : Geometry} {tsect : Nat} (h : g.Sound)
    (hin : g.volEnd ≤ g.volbase + tsect) (htop : g.volbase + tsect ≤ 2 ^ 32) :
    SoundLayout g tsect where
  reserved := h.volbase
  root := h.dirbase
  data := h.database
  inside := hin
  top := htop
  disjoint := fun c d hc hd hne i hi j hj he => hne (h.clst2sect_inj hc hd hi hj he).1
  clear := fun c hc => by
    refine ⟨h.clst2sect_pos hc, fun i hi => ?_⟩
    have hd := Sound.data_lt (g := g) (n := c - 2) (by have := hc.1; have := hc.2; omega)
    rw [h.clst2sect_eq hc]
    omega

theorem Analysed.withId {s : Sector} {b sys : Nat} {g : Geometry} (h : Analysed s b sys g)
    (n : Nat) : Analysed s b sys { g with id := n } := by
  obtain ⟨⟩ := h
  constructor <;> assumption

/-- The layout of a successful mount is sound exactly when the sizes in the boot sector do not pass
`2 ^ 32`. -/
theorem mountVolume_sound_iff {w w' : State} {path p : List UInt8} {mode : UInt8}
    (hr : w.disk.Reliable) (hb : w.geo.fsType = .none)
    (hm : mountVolume path mode w = some ((.ok, p), w')) :
    SoundLayout w'.geo (bpbTotSec (w'.disk.data w'.geo.volbase)) ↔ w.disk.LayoutFits := by
  obtain ⟨b, g, hv, hg, hgeo, hdata⟩ := mountVolume_blank hr hb hm
  have ha : Analysed (w.disk.data b) b (bpbSysect (w.disk.data b)) w'.geo := by
    rw [hgeo]
    exact (readBPB_some hg).withId _
  have hfits : w.disk.LayoutFits ↔ bpbFits (w.disk.data b) b := by
    unfold Disk.LayoutFits
    simp [hv]
  rw [hfits, hdata, ha.volbase]
  refine ⟨ha.fits, fun hf => ?_⟩
  obtain ⟨hs, hin⟩ := ha.sound hf
  exact hs.layout hin (by rw [ha.volbase]; exact hf.2)

/-- A device of `n` sectors whose sector 0 has the given bytes at the given offsets, and is zero
elsewhere. -/
def bootImage (n : Nat) (l : List (Nat × UInt8)) : Disk where
  sectors := n
  data := fun s => if s = 0 then l.foldl (fun t p => t.set p.1 p.2) Sector.zero else Sector.zero
  blockSize := 1
  fault := fun _ => false
  log := []

/-- The registered filesystem object on a device that was not accessed yet. -/
def registeredOn (d : Disk) : State := { State.initial d true with registered := true }

/-- A boot sector of a volume of 128 sectors: 1 sector per cluster, 1 reserved sector, 2 FATs of 1
sector, 16 root entries. -/
def plainBoot : List (Nat × UInt8) :=
  [(0, 0xEB), (12, 2), (13, 1), (14, 1), (16, 2), (17, 16), (19, 128), (22, 1), (510, 0x55),
    (511, 0xAA)]

/-- The same boot sector with the FAT32 type string and 2 FATs of `2 ^ 31` sectors. -/
def wrappedBoot : List (Nat × UInt8) :=
  plainBoot ++ [(22, 0), (39, 0x80), (82, 0x46), (83, 0x41), (84, 0x54), (85, 0x33), (86, 0x32),
    (87, 0x20), (88, 0x20), (89, 0x20)]

/-- The hypotheses are met by a plain volume of 128 sectors. -/
theorem mountVolume_sound_iff_plain :
    ∃ w', mountVolume [] 0 (registeredOn (bootImage 128 plainBoot)) = some ((.ok, []), w') ∧
      (SoundLayout w'.geo (bpbTotSec (w'.disk.data w'.geo.volbase)) ↔
        (bootImage 128 plainBoot).LayoutFits) := by
  have h : (mountVolume [] 0 (registeredOn (bootImage 128 plainBoot))).map (·.1) =
      some (.ok, []) := by decide +kernel
  obtain ⟨⟨r, w'⟩, hm, rfl⟩ := Option.map_eq_some_iff.1 h
  exact ⟨w', hm, mountVolume_sound_iff (fun _ => rfl) rfl hm⟩

/-- The size of the FATs wraps to 0: the mount succeeds with the data area on the second sector of
the FAT. -/
theorem mountVolume_wrapped :
    ∃ w', mountVolume [] 0 (registeredOn (bootImage 128 wrappedBoot)) = some ((.ok, []), w') ∧
      w'.geo.fatbase = 1 ∧ w'.geo.fsize = 2 ^ 31 ∧ w'.geo.database = 2 ∧
      ¬SoundLayout w'.geo (bpbTotSec (w'.disk.data w'.geo.volbase)) := by
  have h : (mountVolume [] 0 (registeredOn (bootImage 128 wrappedBoot))).map
      (fun r => (r.1, r.2.geo)) = some ((.ok, []),
        ⟨.fat12, 2, 16, 1, 128, 2 ^ 31, 0, 1, 1, 2, 1⟩) := by decide +kernel
  obtain ⟨⟨r, w'⟩, hm, he⟩ := Option.map_eq_some_iff.1 h
  obtain ⟨rfl, hg⟩ := Prod.mk.inj he
  refine ⟨w', hm, by rw [hg], by rw [hg], by rw [hg], fun hs => ?_⟩
  have hdata := hs.data
  rw [hg] at hdata
  exact absurd hdata (by decide)

end FatFs
