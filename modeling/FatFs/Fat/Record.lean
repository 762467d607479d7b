import FatFs.Fat.Info
import FatFs.Format.Mkfs
import Mathlib.Data.List.Find

/-!
# The round trip of the FSInfo record

`sync_fs` and `f_mkfs` write an FSInfo record, and `mount_volume` loads it. The record of `sync_fs`
is loaded back as it was written (`syncFs_record`); the volume is the same one because a run does
not touch its boot sector (`Frozen`). The record of `f_mkfs` lacks the trailing signature that
`mount_volume` asks for at offset 498, so the free clusters are unknown after the first mount.
-/

namespace FatFs

open Run

/-! ## What a run leaves alone -/

/-- A sector of the FSInfo record, the FATs, the root directory or the data area. -/
def Geometry.Volatile (g : Geometry) (s : Nat) : Prop :=
  s = g.volbase + 1 ∨ g.fatbase ≤ s ∧ s < g.volEnd

/-- The allocation information fits its fields. -/
structure Words (g : Geometry) (w : State) : Prop where
  geo : w.geo = g
  free : w.freeClst < W32
  last : w.lastClst < W32

/-- The allocation information does not change. -/
theorem Words.kept {g : Geometry} {w w' : State} (h : Words g w) (hk : Kept w w') : Words g w' :=
  ⟨hk.geo.trans h.geo, by rw [hk.freeClst]; exact h.free, by rw [hk.lastClst]; exact h.last⟩

/-- The sectors that are not volatile are those of the device `d`. -/
structure Frozen (g : Geometry) (d : Disk) (w : State) : Prop where
  inv : Inv g w
  words : Words g w
  sectors : w.disk.sectors = d.sectors
  content : ∀ s, ¬g.Volatile s → w.logical s = d.data s

section
variable {g : Geometry} {d : Disk}

/-- The data area may change. -/
theorem Geometry.InArea.volatile {s : Nat} (hs : g.InArea s) : g.Volatile s := by
  refine .inr ⟨?_, hs.2⟩
  have := hs.1
  omega

variable (hg : g.Sound)

include hg

/-- The FATs may change. -/
theorem Geometry.Sound.volatile_fats {s : Nat} (h : g.fatbase ≤ s)
    (h' : s < g.fatbase + g.nFats * g.fsize) : g.Volatile s := by
  have h₁ := hg.database
  refine .inr ⟨h, ?_⟩
  unfold Geometry.volEnd
  omega

/-- What may not change is not in the first FAT. -/
theorem Geometry.Sound.not_inFat {s : Nat} (h : ¬g.Volatile s) : ¬g.InFat s := by
  intro hs
  refine h (hg.volatile_fats hs.1 ?_)
  have := hs.2
  rcases hg.nFats with h₁ | h₁ <;> rw [h₁] <;> omega

/-- What may not change is not in the second FAT. -/
theorem Geometry.Sound.not_inFat2 {s : Nat} (h : ¬g.Volatile s) : ¬g.InFat2 s := fun hs =>
  h (hg.volatile_fats (by have := hs.2.1; omega) hs.2.2)

/-- The boot sector is not touched. -/
theorem Geometry.Sound.not_volatile {s : Nat} (h : s ≤ g.volbase) : ¬g.Volatile s := by
  have := hg.volbase
  rintro (h₁ | ⟨h₁, -⟩) <;> omega

omit hg in
/-- `move_window` does not change the allocation information. -/
theorem moveWindow_words (s : Nat) : Keeps (Words g) (moveWindow s) :=
  fun w h => (moveWindow_spec w s).ensures.mono fun _ _ h' => h.kept h'.kept

omit hg in
/-- `put_fat` does not change the allocation information. -/
theorem putFat_words (c v : Nat) : Keeps (Words g) (putFat c v) :=
  putFat_keeps moveWindow_words (fun _ => .modify fun _ h => ⟨h.geo, h.free, h.last⟩) c v

/-- `create_chain` keeps the allocation information within 32 bits. -/
theorem createChain_words (c : Nat) : Keeps (Words g) (createChain c) := by
  have hlt := hg.nFatent_lt
  simp only [DISKERR] at hlt
  refine createChain_keeps_next (getFat_keeps moveWindow_words) putFat_words (P := fun n => n < W32)
    (fun w n h => ?_) (fun w n hn h => ?_) c
  · rw [h.geo]
    split
    · decide
    · simp only [W32]
      omega
  · unfold State.allocated
    split
    · exact ⟨h.geo, by have := h.free; simp only; omega, hn⟩
    · exact ⟨h.geo, h.free, hn⟩

/-- `remove_chain` keeps the allocation information within 32 bits. -/
theorem removeChain_words (c p : Nat) : Keeps (Words g) (removeChain c p) := by
  have hlt := hg.nFatent_lt
  simp only [DISKERR] at hlt
  refine removeChain_keeps (getFat_keeps moveWindow_words) putFat_words (fun w h => ?_) c p
  unfold State.freed
  split
  · rename_i hf
    rw [h.geo] at hf
    exact ⟨h.geo, by simp only [W32]; omega, h.last⟩
  · exact h

omit hg in
/-- The frozen sectors stay when the window is moved. -/
theorem Frozen.kept {w w' : State} (hw : Frozen g d w) (hi : Inv g w') (hk : Kept w w')
    (hs : ∀ s, ¬g.Volatile s → w'.logical s = w.logical s) : Frozen g d w' :=
  ⟨hi, hw.words.kept hk, hk.sectors.trans hw.sectors, fun s h => (hs s h).trans (hw.content s h)⟩

/-- The frozen sectors stay when the FAT changes. -/
theorem Frozen.fatOnly {w w' : State} (hw : Frozen g d w) (h : FatOnly g w w') (hk : Words g w') :
    Frozen g d w' :=
  ⟨h.inv, hk, h.sectors.trans hw.sectors, fun s hs =>
    (h.frame s (hg.not_inFat hs) (hg.not_inFat2 hs)).trans (hw.content s hs)⟩

/-- The frozen sectors stay, whatever the API stores. -/
theorem frozen_closed : Closed g g.InArea (Frozen g d) where
  inv := Frozen.inv
  area := id
  note := fun a h => ⟨h.inv.note a, h.words.kept ⟨rfl, rfl, rfl, rfl, rfl, rfl, rfl, rfl, rfl, rfl⟩,
    h.sectors, h.content⟩
  move := fun s w h => (moveWindow_inv hg h.inv s).ensures.mono fun _ _ h' =>
    h.kept h'.inv h'.kept fun s hs => h'.same s (hg.not_inFat2 hs)
  sync := fun w h => (syncWindow_inv hg h.inv).ensures.mono fun _ _ h' =>
    h.kept h'.inv h'.kept fun s hs => h'.same s (hg.not_inFat2 hs)
  store := fun {w} t h ha => ⟨h.inv.store t, ⟨h.words.geo, h.words.free, h.words.last⟩, h.sectors,
    fun s hs => by
    rw [logical_store, if_neg fun he => hs (by rw [he]; exact ha.volatile)]
    exact h.content s hs⟩
  create := fun c w h => ((createChain_inv hg h.inv c).ensures.and
    (createChain_words hg c w h.words)).mono fun _ _ ⟨h', hk⟩ => h.fatOnly hg h'.fat hk
  remove := fun {w} c p h _ => ((removeChain_inv hg h.inv c p).ensures.and
    (removeChain_words hg c p w h.words)).mono fun _ _ ⟨h', hk⟩ => h.fatOnly hg h' hk
  clear := fun c hc w h => (dirClear_inv hg h.inv hc).ensures.mono fun _ _ h' =>
    h.kept h'.inv h'.kept fun s hs =>
      h'.outside hg hc (fun ha => hs ha.volatile) (hg.not_inFat2 hs)
  direct := fun buff sect cc hcc ha w h => by
    have hle : sect + cc ≤ W32 := by
      have := hg.inArea_lt (ha (cc - 1) (by omega))
      omega
    exact (writeDirect_inv h.inv buff hcc hle).ensures.mono fun r _ h' =>
      h.kept h'.inv h'.kept fun s hs => h'.outside ha fun h => hs h.volatile
  edge := fun {w} s t h hc ha => ⟨h.inv.edge hg ha t, ⟨h.words.geo, h.words.free, h.words.last⟩,
    h.sectors, fun s' hs' => by
      have hne : s' ≠ s := fun he => hs' (by rw [he]; exact ha.volatile)
      rw [← h.content s' hs', logical_of_clean hc]
      exact logical_of_ne (w := { w with winsect := s, win := t, wflag := true }) hne⟩
  info := fun w h => (syncFs_inv hg h.inv).ensures.mono fun _ _ h' =>
    ⟨h'.inv, ⟨h'.inv.geo, by rw [h'.freeClst]; exact h.words.free,
      by rw [h'.lastClst]; exact h.words.last⟩, h'.sectors.trans h.sectors, fun s hs =>
        (h'.frame s (hg.not_inFat2 hs) fun he => absurd (.inl he) hs).trans (h.content s hs)⟩
  last := fun n hn h => ⟨h.inv.setLast n, ⟨h.words.geo, h.words.free, hn⟩, h.sectors, h.content⟩
  count := fun n hn h _ hon => ⟨h.inv.setFree n hon, ⟨h.words.geo, by
    have := hg.nFatent_lt
    simp only [DISKERR, W32] at *
    omega, h.words.last⟩, h.sectors, h.content⟩

end

/-! ## The record -/

/-- The free clusters and the last allocated cluster that a mount takes from an FSInfo sector. -/
def decodeInfo (s : Sector) : Nat × Nat :=
  if ldDword s FSI_LeadSig = 0x41615252 ∧ ldDword s FSI_StrucSig = 0x61417272 ∧
      ldDword s FSI_TrailSig = 0xAA550000 then
    (ldDword s FSI_Free_Count, ldDword s FSI_Nxt_Free)
  else (0xFFFFFFFF, 0xFFFFFFFF)

/-- The record of `sync_fs` is decoded as it was encoded. -/
theorem decodeInfo_fsInfo {n m : Nat} (hn : n < W32) (hm : m < W32) :
    decodeInfo (fsInfo n m) = (n, m) := by
  have h₁ : ldDword (fsInfo n m) FSI_LeadSig = 0x41615252 := by
    unfold fsInfo
    simp (disch := decide) only [ldDword_stDword_of_ne, ldDword_stDword]
    decide
  have h₂ : ldDword (fsInfo n m) FSI_StrucSig = 0x61417272 := by
    unfold fsInfo
    simp (disch := decide) only [ldDword_stDword_of_ne, ldDword_stDword]
    decide
  have h₃ : ldDword (fsInfo n m) FSI_TrailSig = 0xAA550000 := by
    unfold fsInfo
    rw [ldDword_stDword, Nat.mod_eq_of_lt (by decide)]
  have h₄ : ldDword (fsInfo n m) FSI_Free_Count = n := by
    unfold fsInfo
    simp (disch := decide) only [ldDword_stDword_of_ne, ldDword_stDword]
    exact Nat.mod_eq_of_lt hn
  have h₅ : ldDword (fsInfo n m) FSI_Nxt_Free = m := by
    unfold fsInfo
    simp (disch := decide) only [ldDword_stDword_of_ne, ldDword_stDword]
    exact Nat.mod_eq_of_lt hm
  rw [decodeInfo, if_pos ⟨h₁, h₂, h₃⟩, h₄, h₅]

/-- The record of `f_mkfs` is not recognised: it has the signature at the end of the sector, but not
the one of the record. -/
theorem decodeInfo_makeFsInfo (n : Nat) : decodeInfo (makeFsInfo n) = (0xFFFFFFFF, 0xFFFFFFFF) := by
  have h : ldDword (makeFsInfo n) FSI_TrailSig = 0 := by
    unfold makeFsInfo
    simp (disch := decide) only [ldDword_stDword_of_ne, ldDword_stWord_of_ne]
    exact ldDword_zero
  rw [decodeInfo, if_neg]
  rw [h]
  simp

/-- The volume at sector `b` is a FAT32 volume with the geometry `g` and an FSInfo record. -/
structure Disk.HasInfo (d : Disk) (b : Nat) (g : Geometry) : Prop where
  found : d.volumeSector = some b
  bpb : readBPB (d.data b) b = some g
  fat32 : g.fsType = .fat32
  enabled : ldWord (d.data b) BPB_FSInfo32 = 1
  on : b + 1 < d.sectors
  size : d.sectors < W32

/-- Loading the record with the boot sector in the window. -/
theorem loadFsInfo_decode {w : State} {b : Nat} {s : Sector} (hc : w.wflag = false)
    (hr : w.disk.Reliable) (hs : w.winsect = b) (h1 : ldWord s BPB_FSInfo32 = 1)
    (hon : b + 1 < w.disk.sectors) (hsz : w.disk.sectors < W32) :
    Returns (loadFsInfo .fat32 s b) w fun _ w' =>
      (w'.freeClst, w'.lastClst) = decodeInfo (w.disk.data (b + 1)) := by
  have hadd : add32 b 1 = b + 1 := add32_of_lt (by omega)
  rw [loadFsInfo, returns_bind, returns_modify, if_pos ⟨rfl, h1⟩, hadd, returns_bind]
  refine (moveWindow_spec _ _).mono fun r w' h => ?_
  cases h with
  | same he =>
    simp only at he
    omega
  | moved hk _ _ _ hwin _ hf =>
    have hd : w'.disk.data = w.disk.data := hf.of_clean hc
    rw [if_pos rfl, returns_modify, hwin, hd, decodeInfo]
    split
    · rfl
    · exact Prod.ext hk.freeClst hk.lastClst
  | stuck _ _ hd => exact absurd hd (by simp [hc])
  | lost _ _ _ _ _ _ hrel => exact absurd (hrel hr) (by simp only; omega)

/-- A mount takes the allocation information from the record. -/
theorem mountDrive_decode {w : State} (hr : w.disk.Reliable) {b : Nat} {g : Geometry}
    (h : w.disk.HasInfo b g) :
    Returns mountDrive w fun r w' => r = .ok ∧
      (w'.freeClst, w'.lastClst) = decodeInfo (w.disk.data (b + 1)) := by
  rw [mountDrive, returns_bind]
  refine ((findVolume_spec hr).and (findVolume_clean w)).mono fun r w₁ hpost => ?_
  obtain ⟨⟨hl, hv⟩, hc⟩ := hpost
  rw [h.found] at hv
  obtain ⟨rfl, hwin, hws⟩ := hv
  rw [hl.data] at hwin
  rw [if_neg (by decide), if_neg (by decide), returns_bind, returns_get, hwin, hws, h.bpb]
  simp only [returns_bind, returns_modify, returns_pure]
  rw [h.fat32]
  refine (loadFsInfo_decode hc hl.reliable hws h.enabled (by rw [hl.sectors]; exact h.on)
    (by rw [hl.sectors]; exact h.size)).mono fun _ w₂ h₂ => ?_
  rw [hl.data] at h₂
  exact ⟨trivial, h₂⟩

/-- A mount of the volume loads the record. -/
theorem mountVolume_decode {w : State} (hr : w.disk.Reliable) (hreg : w.registered = true)
    (hb : w.geo.fsType = .none) {path rest : List UInt8} {mode : UInt8}
    (hd : getLdnumber w.charSigned path = (true, rest)) {b : Nat} {g : Geometry}
    (h : w.disk.HasInfo b g) :
    Returns (mountVolume path mode) w fun r w' => r = (.ok, rest) ∧
      (w'.freeClst, w'.lastClst) = decodeInfo (w.disk.data (b + 1)) := by
  rw [mountVolume, returns_bind, returns_get]
  simp only [hd, returns_ite, returns_pure, returns_bind, returns_modify]
  refine ⟨by simp [hreg], fun _ => ⟨fun h => absurd hb h.1, fun _ => ⟨by simp [diskInitialize],
    fun _ => ⟨by simp [diskInitialize], fun _ => ?_⟩⟩⟩⟩
  refine (mountDrive_decode (w := { w with geo := { w.geo with fsType := .none } }) hr h).mono
    fun r w₁ hpost => ?_
  obtain ⟨hok, hi⟩ := hpost
  exact ⟨by rw [hok], hi⟩

/-- `sync_fs` writes the record that is due. -/
theorem syncFs_record {g : Geometry} (hg : g.Sound) {w : State} (hw : Inv g w)
    (h32 : g.fsType = .fat32) (h1 : w.fsiFlag = 1) :
    Returns syncFs w fun r w' => r = .ok →
      w'.disk.data (g.volbase + 1) = fsInfo w.freeClst w.lastClst := by
  have hlt := hw.info h1
  have hvol := hg.volbase
  have hsz := hw.size
  rw [syncFs, returns_bind]
  refine (syncWindow_inv hg hw).mono fun r w₁ h₁ => ?_
  have hsect : add32 g.volbase 1 = g.volbase + 1 := add32_of_lt (by omega)
  have hserves : w₁.disk.serves (g.volbase + 1) 1 = true := by
    rw [h₁.inv.reliable.serves, Disk.inBounds_iff, h₁.kept.sectors]
    omega
  simp only [returns_ite, returns_pure, returns_bind, returns_get, returns_modify, diskSync,
    if_true, h₁.kept.fsiFlag, h1, h₁.inv.geo, h32, hsect, returns_diskWrite, h₁.kept.freeClst,
    h₁.kept.lastClst]
  refine ⟨fun _ => ⟨fun _ => ⟨fun _ => ⟨fun _ _ => ?_, fun hn => absurd hserves hn⟩,
    fun h => absurd trivial h⟩, fun h => absurd trivial h⟩, fun hne h => absurd h hne⟩
  rw [State.store_data, if_pos ⟨Nat.le_refl _, by omega⟩]

/-! ## The volume is found again -/

/-- The other partitions of the drive do not start inside the volume. -/
def Geometry.Alone (g : Geometry) (d : Disk) : Prop :=
  g.volbase = 0 ∨ ∀ p ∈ d.partitions, ¬g.Volatile p

/-- The volume is found by sectors that are not volatile. -/
theorem volumeSector_frozen {g : Geometry} (hg : g.Sound) {d d' : Disk} (ha : g.Alone d)
    (hv : d.volumeSector = some g.volbase) (hs : d'.sectors = d.sectors)
    (hd : ∀ s, ¬g.Volatile s → d'.data s = d.data s) : d'.volumeSector = some g.volbase := by
  have hvbr : ∀ s, ¬g.Volatile s → d'.isVBR s = d.isVBR s := fun s h => by
    simp only [Disk.isVBR, hs, hd s h]
  have h₀ := hd 0 (hg.not_volatile (Nat.zero_le _))
  have hp : d'.partitions = d.partitions := by rw [Disk.partitions, h₀, Disk.partitions]
  rw [Disk.volumeSector, hvbr 0 (hg.not_volatile (Nat.zero_le _)), h₀, hp]
  rw [Disk.volumeSector] at hv
  split at hv
  · rw [if_pos ‹_›, hv]
  · rename_i hno
    rw [if_neg hno]
    split at hv
    · rw [if_pos ‹_›]
      rw [← hv]
      rcases ha with h0 | ha
      · -- sector 0 is no partition
        rw [h0] at hv
        exact absurd (List.find?_some hv) (by simp)
      · exact List.find?_congr fun p hp => by rw [hvbr p (ha p hp)]
    · cases hv

/-- What a mount leaves in the allocation information fits its fields. -/
theorem mountVolume_words {w : State} (hb : w.geo.fsType = .none) (path : List UInt8)
    (mode : UInt8) : Ensures (mountVolume path mode) w fun r w' => r.1 = .ok →
      w'.freeClst < W32 ∧ w'.lastClst < W32 := by
  have hload : ∀ fmt s b u, Ensures (loadFsInfo fmt s b) u fun _ w' =>
      w'.freeClst < W32 ∧ w'.lastClst < W32 := by
    intro fmt s b u
    simp only [loadFsInfo, ensures_bind, ensures_modify, ensures_ite, ensures_pure]
    refine ⟨fun _ => (moveWindow_spec _ _).ensures.mono fun r w' h => ?_, fun _ =>
      ⟨by simp, by simp⟩⟩
    have hk : w'.freeClst < W32 ∧ w'.lastClst < W32 := by
      rw [h.kept.freeClst, h.kept.lastClst]
      exact ⟨by simp, by simp⟩
    refine ⟨fun _ => ?_, fun _ => hk⟩
    split
    · exact ⟨ldDword_lt, ldDword_lt⟩
    · exact hk
  refine mountVolume_drive hb ?_
  rw [mountDrive, ensures_bind]
  intro r w₁ _
  simp only [ensures_ite, ensures_pure, ensures_bind, ensures_get]
  refine ⟨by simp, fun _ => ⟨by simp, fun _ => ?_⟩⟩
  cases readBPB w₁.win w₁.winsect with
  | none => exact ensures_pure.2 (by simp)
  | some g =>
    simp only [ensures_bind, ensures_modify, ensures_pure]
    exact (hload _ _ _ w₁).mono fun _ _ h _ => h

/-! ## The two writers -/

/-- Every mount of the device loads the numbers. -/
def Disk.LoadsInfo (d : Disk) (free last : Nat) : Prop :=
  ∀ v drive rest mode, v.disk = d → v.registered = true → v.geo.fsType = .none →
    getLdnumber v.charSigned drive = (true, rest) →
    Returns (mountVolume drive mode) v fun r v' =>
      r = (.ok, rest) ∧ v'.freeClst = free ∧ v'.lastClst = last

/-- A mount loads what the record decodes to. -/
theorem Disk.HasInfo.loads {d : Disk} {b : Nat} {g : Geometry} (h : d.HasInfo b g)
    (hr : d.Reliable) {free last : Nat} (hi : decodeInfo (d.data (b + 1)) = (free, last)) :
    d.LoadsInfo free last := by
  rintro v drive rest mode rfl hreg hb hd
  refine (mountVolume_decode hr hreg hb hd h).mono fun r v' ⟨hok, hdec⟩ => ?_
  rw [hi] at hdec
  exact ⟨hok, (Prod.mk.inj hdec).1, (Prod.mk.inj hdec).2⟩

/-- An FSInfo record is written: by `sync_fs` in the session `t` of a run from the mount of a
volume, or by `f_mkfs`. -/
inductive InfoWrite
  | sync (w₀ : State) (s t : Session)
  | format (w : State) (path : List UInt8) (opt : Option MKFS_PARM) (len : Option Nat)

/-- The volume is a FAT32 volume with the FSInfo record enabled, and the record is due; for the
format, the call creates a FAT32 volume. -/
def InfoWrite.Due : InfoWrite → Prop
  | .sync w₀ s t => s.JustMounted w₀ ∧ s.w.geo.Alone w₀.disk ∧
      Reaches (fun _ c => c.OnVolume) s t ∧ t.w.geo.fsType = .fat32 ∧ t.w.fsiFlag = 1
  | .format w path opt len => w.disk.Reliable ∧ w.disk.sectors < W32 ∧
      ∃ l, Formats w path opt len l ∧ l.fsty = .fat32

/-- The numbers that the writer writes are loaded by the next mount. -/
def InfoWrite.Survives : InfoWrite → Prop
  | .sync _ _ t => Returns syncFs t.w fun r w' => r = .ok →
      w'.disk.LoadsInfo t.w.freeClst t.w.lastClst
  | .format w path opt len => Returns (fMkfs path opt len) w fun r w' => r = .ok ∧
      ∃ l, chooseLayout (w.disk.mkfsEnv opt) 8 (w.disk.mkfsStart opt) = some (.ok l) ∧
        w'.disk.LoadsInfo (l.nClst - 1) 2

/-- The writer is `sync_fs`. -/
def InfoWrite.BySync : InfoWrite → Prop
  | .sync .. => True
  | .format .. => False

/-- A mount finds the volume in a run as it was. -/
theorem Session.JustMounted.frozen {w₀ : State} {s t : Session} (hs : s.JustMounted w₀)
    (h : Reaches (fun _ c => c.OnVolume) s t) : Frozen s.w.geo w₀.disk t.w := by
  obtain ⟨hg, hi, hc, hd⟩ := hs.inv
  obtain ⟨path, mode, p, hm⟩ := hs.mount
  have hw := mountVolume_words hs.blank path mode _ _ hm rfl
  have hsec : s.w.disk.sectors = w₀.disk.sectors := mountVolume_drive
    (Q := fun w' => w'.disk.sectors = w₀.disk.sectors) hs.blank
    ((mountDrive_spec (w := { w₀ with geo := { w₀.geo with fsType := .none } })
      hs.reliable).ensures.mono fun _ _ h _ => h.2.1) _ _ hm rfl
  have hf : Frozen s.w.geo w₀.disk s.w :=
    ⟨hi, ⟨rfl, hw.1, hw.2⟩, hsec, fun u _ => by rw [logical_of_clean hc, hd]⟩
  exact (h.closed hg (frozen_closed hg) (hs.noneOpen.placed hf)).inv

/-- The boot sector of a mounted volume whose record is not disabled enables the record. -/
theorem Session.JustMounted.hasInfo {w₀ : State} {s : Session} (hs : s.JustMounted w₀)
    (h32 : s.w.geo.fsType = .fat32) (hon : ¬s.w.InfoOff) :
    ∃ g, w₀.disk.volumeSector = some s.w.geo.volbase ∧
      readBPB (w₀.disk.data s.w.geo.volbase) s.w.geo.volbase = some g ∧ g.fsType = .fat32 ∧
      ldWord (w₀.disk.data s.w.geo.volbase) BPB_FSInfo32 = 1 := by
  obtain ⟨path, mode, p, hm⟩ := hs.mount
  obtain ⟨b, g, hv, hb, hgeo, hi⟩ := mountVolume_drive hs.blank
    (mountDrive_info (w := { w₀ with geo := { w₀.geo with fsType := .none } }) hs.reliable)
    _ _ hm rfl
  have hvol : s.w.geo.volbase = b := by
    rw [hgeo]
    exact (readBPB_some hb).volbase
  rw [hvol]
  rw [hgeo] at h32
  exact ⟨g, hv, hb, h32, (hi.resolve_left hon).2⟩

/-- A run does not enable a record that the mount left disabled. -/
theorem Session.JustMounted.infoOn {w₀ : State} {s t : Session} (hs : s.JustMounted w₀)
    (h : Reaches (fun _ c => c.OnVolume) s t) (h1 : t.w.fsiFlag = 1) : ¬s.w.InfoOff := by
  intro hoff
  obtain ⟨hg, hi, -, -⟩ := hs.inv
  have ht := (h.closed hg (infoOff_closed hg False) (hs.noneOpen.placed ⟨hi, .inl hoff⟩)).inv
  have hoff' := ht.2.resolve_right id
  unfold State.InfoOff at hoff'
  rw [h1] at hoff'
  exact absurd hoff' (by decide)

/-- The record of `sync_fs` is loaded by the next mount. -/
theorem syncFs_survives {w₀ : State} {s t : Session} (h : (InfoWrite.sync w₀ s t).Due) :
    (InfoWrite.sync w₀ s t).Survives := by
  obtain ⟨hs, ha, hrun, h32, h1⟩ := h
  obtain ⟨hg, -, -, -⟩ := hs.inv
  have hf := hs.frozen hrun
  have hgeo := hf.words.geo
  rw [hgeo] at h32
  obtain ⟨g, hv, hbpb, hty, hen⟩ := hs.hasInfo h32 (hs.infoOn hrun h1)
  have hlt := hf.inv.info h1
  have hvol := hg.volbase
  show Returns syncFs t.w _
  refine ((syncFs_inv hg hf.inv).and (syncFs_record hg hf.inv h32 h1)).mono
    fun r w' ⟨hsync, hrec⟩ hok => ?_
  -- after the flush the device holds the logical content
  have hdev : ∀ u, ¬s.w.geo.Volatile u → w'.disk.data u = w₀.disk.data u := fun u hu => by
    rw [← logical_of_clean (hsync.clean hok), hsync.frame u (hg.not_inFat2 hu) fun he =>
      absurd (.inl he) hu, hf.content u hu]
  have hvb := hdev _ (hg.not_volatile (Nat.le_refl s.w.geo.volbase))
  have hinfo : w'.disk.HasInfo s.w.geo.volbase g :=
    { found := volumeSector_frozen hg ha hv (hsync.sectors.trans hf.sectors) hdev
      bpb := by rw [hvb]; exact hbpb
      fat32 := hty
      enabled := by rw [hvb]; exact hen
      on := by rw [hsync.sectors]; omega
      size := hsync.inv.size }
  exact hinfo.loads hsync.inv.reliable (by
    rw [hrec hok]
    exact decodeInfo_fsInfo hf.words.free hf.words.last)

/-- The record of `f_mkfs` is not loaded by the next mount. -/
theorem fMkfs_forgets {w : State} {path : List UInt8} {opt : Option MKFS_PARM} {len : Option Nat}
    (h : (InfoWrite.format w path opt len).Due) : ¬(InfoWrite.format w path opt len).Survives := by
  obtain ⟨hr, hs, l, hl, h32⟩ := h
  intro hsv
  obtain ⟨r, w', -, ⟨-, l', hl', hload⟩, hpost⟩ := Returns.and hsv (fMkfs_spec hr hs)
  rw [hl.layout] at hl'
  cases hl'
  obtain ⟨hf, hvol⟩ := hpost.formatted l hl
  have he := hl.sane hs
  have hacc := hl.accepted hs
  have hboot := makeVBR_boot he hacc
  have hne : l.nClst ≠ 0 := by
    have := hacc.typed
    simp only [Typed, h32, reduceCtorEq, false_and, false_or, true_and] at this
    omega
  have hbpb := hboot.readBPB_eq he hacc
  rw [if_neg hne, ← hf.boot] at hbpb
  have hsec := hpost.wrote.sectors
  rw [State.blanked_disk] at hsec
  have hinfo : w'.disk.HasInfo (w.disk.mkfsEnv opt).bVol (l.geometry (w.disk.mkfsEnv opt)) :=
    { found := hvol
      bpb := hbpb
      fat32 := h32
      enabled := by rw [hf.boot]; exact hboot.fsInfo32 h32
      on := by
        have := he.szVol
        rcases mkfsEnv_location hl.size with ⟨-, hb, hv⟩ | ⟨-, hb, hv⟩ <;> omega
      size := by omega }
  cases hd : getLdnumber w.charSigned path with
  | mk known rest =>
  have hk := hl.drive
  rw [hd] at hk
  cases hk
  let v : State := { w' with registered := true, geo := { w'.geo with fsType := .none } }
  have hv : getLdnumber v.charSigned path = (true, rest) := by
    show getLdnumber w'.charSigned path = _
    rw [hpost.charSigned, hd]
  have hdec : decodeInfo (w'.disk.data ((w.disk.mkfsEnv opt).bVol + 1)) =
      (0xFFFFFFFF, 0xFFFFFFFF) := by
    rw [hf.info h32]
    exact decodeInfo_makeFsInfo _
  obtain ⟨r', v', -, ⟨-, -, hlast⟩, -, -, hlast'⟩ := (hload v path rest 0 rfl rfl rfl hv).and
    (hinfo.loads (hpost.reliable hr) hdec v path rest 0 rfl rfl rfl hv)
  rw [hlast] at hlast'
  cases hlast'

/-- Exactly the records of `sync_fs` survive the round trip. -/
theorem infoWrite_survives_iff {x : InfoWrite} (h : x.Due) : x.Survives ↔ x.BySync := by
  cases x with
  | sync w₀ s t => exact ⟨fun _ => trivial, fun _ => syncFs_survives h⟩
  | format w path opt len => exact ⟨fun hs => absurd hs (fMkfs_forgets h), fun hf => hf.elim⟩

/-- The hypotheses are met by a run that writes a file, after which 99 free clusters are loaded. -/
theorem infoWrite_survives_written : ∃ w t u,
    mountVolume [] 0 (registeredOn (infoDisk 2)) = some ((.ok, []), w) ∧
    exec ⟨w, fun _ => {}, fun _ => {}⟩ (.open 0 [0x41] (FA_WRITE ||| FA_CREATE_ALWAYS)) =
      some (.ok, t) ∧ exec t (.write 0 [0x42]) = some (.ok, u) ∧ u.w.freeClst = 99 ∧
    (InfoWrite.sync (registeredOn (infoDisk 2)) ⟨w, fun _ => {}, fun _ => {}⟩ u).Survives := by
  have h : ((mountVolume [] 0 (registeredOn (infoDisk 2))).bind fun r =>
      (exec ⟨r.2, fun _ => {}, fun _ => {}⟩
        (.open 0 [0x41] (FA_WRITE ||| FA_CREATE_ALWAYS))).bind fun p =>
        (exec p.2 (.write 0 [0x42])).map fun q =>
          ((r.1, r.2.geo.volbase), p.1, q.1, q.2.w.geo.fsType, q.2.w.fsiFlag, q.2.w.freeClst)) =
      some (((.ok, []), 0), .ok, .ok, .fat32, 1, 99) := by decide +kernel
  obtain ⟨⟨r, w⟩, hm, h⟩ := Option.bind_eq_some_iff.1 h
  obtain ⟨⟨p, t⟩, ht, h⟩ := Option.bind_eq_some_iff.1 h
  obtain ⟨⟨q, u⟩, hu, h⟩ := Option.map_eq_some_iff.1 h
  simp only [Prod.mk.injEq] at h
  obtain ⟨⟨rfl, hvol⟩, rfl, rfl, hty, hfsi, hfree⟩ := h
  have hsound : (infoDisk 2).MountsSound :=
    Disk.mountsSound_of (b := 0) (by decide +kernel) (by decide +kernel) (by decide +kernel)
  have hs : Session.JustMounted (registeredOn (infoDisk 2)) ⟨w, fun _ => {}, fun _ => {}⟩ :=
    ⟨fun _ => rfl, show 1024 < W32 by decide, hsound, rfl, ⟨[], 0, [], hm⟩, fun _ h => by cases h⟩
  have hdue : (InfoWrite.sync (registeredOn (infoDisk 2)) ⟨w, fun _ => {}, fun _ => {}⟩ u).Due :=
    ⟨hs, .inl hvol, .call (c := .write 0 [0x42]) (.call
      (c := .open 0 [0x41] (FA_WRITE ||| FA_CREATE_ALWAYS)) .refl trivial ht) trivial hu, hty, hfsi⟩
  exact ⟨w, t, u, hm, ht, hu, hfree, (infoWrite_survives_iff hdue).2 trivial⟩

/-- The format of a drive of 70000 sectors as a FAT32 volume of 69421 clusters succeeds, and the
mount does not load the free clusters. -/
theorem fMkfs_forgets_fat32 :
    ∃ l, Formats (registeredOn (blankDisk 70000)) []
      (some ⟨FM_FAT32 ||| FM_SFD, 1, 1, 512, 512⟩) (some 512) l ∧ l.fsty = .fat32 ∧
    l.nClst = 69421 ∧
    ¬(InfoWrite.format (registeredOn (blankDisk 70000)) []
      (some ⟨FM_FAT32 ||| FM_SFD, 1, 1, 512, 512⟩) (some 512)).Survives := by
  have hl : chooseLayout ((blankDisk 70000).mkfsEnv (some ⟨FM_FAT32 ||| FM_SFD, 1, 1, 512, 512⟩)) 8
      ((blankDisk 70000).mkfsStart (some ⟨FM_FAT32 ||| FM_SFD, 1, 1, 512, 512⟩)) =
      some (.ok ⟨.fat32, 1, 69421, 32, 547, 0, 32⟩) := by decide +kernel
  have hf : Formats (registeredOn (blankDisk 70000)) []
      (some ⟨FM_FAT32 ||| FM_SFD, 1, 1, 512, 512⟩) (some 512) ⟨.fat32, 1, 69421, 32, 547, 0, 32⟩ :=
    ⟨⟨by decide, by decide, by decide, by decide⟩, hl⟩
  exact ⟨_, hf, rfl, rfl, fMkfs_forgets ⟨fun _ => rfl, by decide, _, hf, rfl⟩⟩

end FatFs
