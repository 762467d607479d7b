import FatFs.Format.Layout
import FatFs.Mount.Layout

/-!
# The boot sector of a format

The fields of the boot sector that `f_mkfs` writes, as `mount_volume` loads them (`Boot`), and what
the mount makes of them: the sector is a FAT boot sector, and the BPB analysis takes the layout from
it that the format chose, or rejects it if that layout has no clusters.
-/

namespace FatFs

open Run

/-! ## Loads past a store -/

section
variable {s : Sector} {o p v : Nat} {b : UInt8} {bs : List UInt8}

/-- A copy leaves the bytes outside its range. -/
theorem copy_of_ne (h : o < p ∨ p + bs.length ≤ o) : s.copy p bs o = s o := by
  rw [Sector.copy, if_neg (by omega)]

/-- A byte outside the word does not change it. -/
theorem ldWord_set_of_ne (h : p < o ∨ o + 2 ≤ p) : ldWord (s.set p b) o = ldWord s o :=
  ldWord_congr fun _ _ _ => Sector.set_of_ne (by omega)

/-- A word that is stored beside the word does not change it. -/
theorem ldWord_stWord_of_ne (h : p + 2 ≤ o ∨ o + 2 ≤ p) : ldWord (stWord s p v) o = ldWord s o :=
  ldWord_congr fun _ _ _ => stWord_of_ne (by omega)

/-- A double word that is stored beside the word does not change it. -/
theorem ldWord_stDword_of_ne (h : p + 4 ≤ o ∨ o + 2 ≤ p) : ldWord (stDword s p v) o = ldWord s o :=
  ldWord_congr fun _ _ _ => stDword_of_ne (by omega)

/-- A text that is copied beside the word does not change it. -/
theorem ldWord_copy_of_ne (h : p + bs.length ≤ o ∨ o + 2 ≤ p) :
    ldWord (s.copy p bs) o = ldWord s o :=
  ldWord_congr fun _ _ _ => copy_of_ne (by omega)

/-- A byte outside the double word does not change it. -/
theorem ldDword_set_of_ne (h : p < o ∨ o + 4 ≤ p) : ldDword (s.set p b) o = ldDword s o :=
  ldDword_congr fun _ _ _ => Sector.set_of_ne (by omega)

/-- A word that is stored beside the double word does not change it. -/
theorem ldDword_stWord_of_ne (h : p + 2 ≤ o ∨ o + 4 ≤ p) : ldDword (stWord s p v) o = ldDword s o :=
  ldDword_congr fun _ _ _ => stWord_of_ne (by omega)

/-- A double word that is stored beside the double word does not change it. -/
theorem ldDword_stDword_of_ne (h : p + 4 ≤ o ∨ o + 4 ≤ p) : ldDword (stDword s p v) o =
    ldDword s o :=
  ldDword_congr fun _ _ _ => stDword_of_ne (by omega)

/-- A text that is copied beside the double word does not change it. -/
theorem ldDword_copy_of_ne (h : p + bs.length ≤ o ∨ o + 4 ≤ p) :
    ldDword (s.copy p bs) o = ldDword s o :=
  ldDword_congr fun _ _ _ => copy_of_ne (by omega)

/-- The words of an empty sector. -/
theorem ldWord_zero : ldWord Sector.zero o = 0 := by simp [ldWord, Sector.zero]

/-- The double words of an empty sector. -/
theorem ldDword_zero : ldDword Sector.zero o = 0 := by simp [ldDword, Sector.zero]

end

/-! ## The fields -/

/-- The part of the boot sector before the fields of the sub-type. -/
def bootHead (e : MkfsEnv) (l : MkfsLayout) : Sector :=
  let s := Sector.zero.copy BS_JmpBoot strJmpOem
  let s := stWord s BPB_BytsPerSec SS
  let s := s.set BPB_SecPerClus (UInt8.ofNat l.pau)
  let s := stWord s BPB_RsvdSecCnt l.szRsv
  let s := s.set BPB_NumFATs (UInt8.ofNat e.nFat)
  let s := stWord s BPB_RootEntCnt (if l.fsty = .fat32 then 0 else e.nRoot)
  let s := if e.szVol < 0x10000 then stWord s BPB_TotSec16 e.szVol
    else stDword s BPB_TotSec32 e.szVol
  let s := s.set 21 0xF8
  let s := stWord s 24 63
  let s := stWord s 26 255
  stDword s 28 e.bVol

/-- The part of the boot sector of a FAT32 volume before the signature. -/
def boot32 (e : MkfsEnv) (l : MkfsLayout) : Sector :=
  let s := stDword (bootHead e l) 67 (add32 e.szVol GET_FATTIME)
  let s := stDword s BPB_FATSz32 l.szFat
  let s := stDword s BPB_RootClus32 2
  let s := stWord s BPB_FSInfo32 1
  let s := stWord s 50 6
  let s := s.set 64 0x80
  let s := s.set 66 0x29
  s.copy 71 (strNoName ++ strFAT32)

/-- The part of the boot sector of a FAT12 or FAT16 volume before the signature. -/
def boot16 (e : MkfsEnv) (l : MkfsLayout) : Sector :=
  let s := stDword (bootHead e l) 39 (add32 e.szVol GET_FATTIME)
  let s := stWord s BPB_FATSz16 l.szFat
  let s := s.set 36 0x80
  let s := s.set 38 0x29
  s.copy 43 (strNoName ++ strFAT)

/-- The boot sector is built from its fields by type, and the signature is stored last. -/
theorem makeVBR_eq (e : MkfsEnv) (l : MkfsLayout) :
    makeVBR e l = stWord (if l.fsty = .fat32 then boot32 e l else boot16 e l) BS_55AA 0xAA55 := rfl

/-- The fields of every sub-type. -/
structure Head (e : MkfsEnv) (l : MkfsLayout) (s : Sector) : Prop where
  jump : s BS_JmpBoot = 0xEB
  bytsPerSec : ldWord s BPB_BytsPerSec = SS
  secPerClus : (s BPB_SecPerClus).toNat = l.pau
  rsvdSecCnt : ldWord s BPB_RsvdSecCnt = l.szRsv
  numFATs : (s BPB_NumFATs).toNat = e.nFat
  rootEntCnt : ldWord s BPB_RootEntCnt = if l.fsty = .fat32 then 0 else e.nRoot
  totSec16 : ldWord s BPB_TotSec16 = if e.szVol < 0x10000 then e.szVol else 0
  totSec32 : ldDword s BPB_TotSec32 = if e.szVol < 0x10000 then 0 else e.szVol

/-- The common fields of a boot sector lie in its first 21 bytes and in `BPB_TotSec32`. -/
theorem Head.congr {e : MkfsEnv} {l : MkfsLayout} {s t : Sector} (h : Head e l s)
    (hs : ∀ i < 21, t i = s i) (hs' : ∀ i, 32 ≤ i → i < 36 → t i = s i) : Head e l t := by
  have hw : ∀ o ≤ 19, ldWord t o = ldWord s o := fun o ho =>
    ldWord_congr fun i _ hi => hs i (by omega)
  have hd : ldDword t 32 = ldDword s 32 := ldDword_congr hs'
  exact
    { jump := (hs _ (by decide)).trans h.jump
      bytsPerSec := (hw _ (by decide)).trans h.bytsPerSec
      secPerClus := by rw [hs _ (by decide), h.secPerClus]
      rsvdSecCnt := (hw _ (by decide)).trans h.rsvdSecCnt
      numFATs := by rw [hs _ (by decide), h.numFATs]
      rootEntCnt := (hw _ (by decide)).trans h.rootEntCnt
      totSec16 := (hw _ (by decide)).trans h.totSec16
      totSec32 := hd.trans h.totSec32 }

/-- The number of sectors is in the field of 16 bits if it fits there, else in the one of 32. -/
theorem totSec_eq {s : Sector} {n : Nat} (hn : n < W32) (h₀ : ldWord s BPB_TotSec16 = 0)
    (h₁ : ldDword s BPB_TotSec32 = 0) {t : Sector}
    (ht : t = if n < 0x10000 then stWord s BPB_TotSec16 n else stDword s BPB_TotSec32 n) :
    (ldWord t BPB_TotSec16 = if n < 0x10000 then n else 0) ∧
      (ldDword t BPB_TotSec32 = if n < 0x10000 then 0 else n) ∧
      ∀ i < 19, t i = s i := by
  rw [ht]
  split
  · rename_i hs
    rw [ldWord_stWord, ldDword_stWord_of_ne (by decide), h₁]
    exact ⟨Nat.mod_eq_of_lt hs, rfl, fun i hi => stWord_of_ne (.inl hi)⟩
  · rw [ldDword_stDword, ldWord_stDword_of_ne (by decide), h₀]
    exact ⟨rfl, Nat.mod_eq_of_lt hn, fun i hi =>
      stDword_of_ne (.inl (by simp only [BPB_TotSec32]; omega))⟩

/-- The fields that the boot sectors of all types have in common. -/
theorem bootHead_head {e : MkfsEnv} (he : e.Sane) {l : MkfsLayout} (hl : Accepted e l) :
    Head e l (bootHead e l) := by
  have hpau := hl.pau.bounds
  have hrsv := hl.szRsv_lt
  have htop := he.top
  have hroot := he.nRoot
  have hfat := he.nFat
  unfold bootHead
  dsimp only
  generalize hs : stWord _ BPB_RootEntCnt _ = s
  generalize ht : (if e.szVol < 0x10000 then stWord s BPB_TotSec16 e.szVol
    else stDword s BPB_TotSec32 e.szVol) = t
  obtain ⟨h16, h32, hlow⟩ := totSec_eq (s := s) (by omega) (by
    rw [← hs]
    simp (disch := decide) only [ldWord_stWord_of_ne, ldWord_set_of_ne, ldWord_copy_of_ne]
    exact ldWord_zero) (by
    rw [← hs]
    simp (disch := decide) only [ldDword_stWord_of_ne, ldDword_set_of_ne, ldDword_copy_of_ne]
    exact ldDword_zero) ht.symm
  have hw : ∀ o ≤ 17, ldWord t o = ldWord s o := fun o ho =>
    ldWord_congr fun i _ hi => hlow i (by omega)
  have ht' : Head e l t :=
    { jump := by
        rw [hlow _ (by decide), ← hs]
        simp (disch := decide) only [stWord_of_ne, Sector.set_of_ne]
        decide
      bytsPerSec := by
        rw [hw _ (by decide), ← hs]
        simp (disch := decide) only [ldWord_stWord_of_ne, ldWord_set_of_ne, ldWord_stWord]
        decide
      secPerClus := by
        rw [hlow _ (by decide), ← hs]
        simp (disch := decide) only [stWord_of_ne, Sector.set_of_ne, Sector.set_self]
        rw [UInt8.toNat_ofNat', Nat.mod_eq_of_lt (by omega)]
      rsvdSecCnt := by
        rw [hw _ (by decide), ← hs]
        simp (disch := decide) only [ldWord_stWord_of_ne, ldWord_set_of_ne, ldWord_stWord]
        exact Nat.mod_eq_of_lt hrsv
      numFATs := by
        rw [hlow _ (by decide), ← hs]
        simp (disch := decide) only [stWord_of_ne, Sector.set_self]
        rw [UInt8.toNat_ofNat', Nat.mod_eq_of_lt (by omega)]
      rootEntCnt := by
        rw [hw _ (by decide), ← hs, ldWord_stWord]
        split <;> exact Nat.mod_eq_of_lt (by omega)
      totSec16 := h16
      totSec32 := h32 }
  refine ht'.congr (fun i hi => ?_) (fun i h₁ h₂ => ?_) <;>
    rw [stDword_of_ne (by omega), stWord_of_ne (by omega), stWord_of_ne (by omega),
      Sector.set_of_ne (by omega)]

/-- The fields of the boot sector that a mount reads. -/
structure Boot (e : MkfsEnv) (l : MkfsLayout) (s : Sector) : Prop extends Head e l s where
  fatSz16 : ldWord s BPB_FATSz16 = if l.fsty = .fat32 then 0 else l.szFat
  fatSz32 : l.fsty = .fat32 → ldDword s BPB_FATSz32 = l.szFat
  fsVer32 : l.fsty = .fat32 → ldWord s BPB_FSVer32 = 0
  rootClus32 : l.fsty = .fat32 → ldDword s BPB_RootClus32 = 2
  fsInfo32 : l.fsty = .fat32 → ldWord s BPB_FSInfo32 = 1
  filSysType32 : l.fsty = .fat32 → s.bytes BS_FilSysType32 8 = strFAT32
  sign : ldWord s BS_55AA = 0xAA55

/-- The bytes between the common fields and the signature are zero in the common part. -/
theorem bootHead_zero (e : MkfsEnv) (l : MkfsLayout) {i : Nat} (h : i = 22 ∨ i = 23 ∨ 36 ≤ i) :
    bootHead e l i = 0 := by
  unfold bootHead
  rw [stDword_of_ne (by omega), stWord_of_ne (by omega), stWord_of_ne (by omega),
    Sector.set_of_ne (by omega)]
  split
  · rw [stWord_of_ne (by simp only [BPB_TotSec16]; omega),
      stWord_of_ne (by simp only [BPB_RootEntCnt]; omega),
      Sector.set_of_ne (by simp only [BPB_NumFATs]; omega),
      stWord_of_ne (by simp only [BPB_RsvdSecCnt]; omega),
      Sector.set_of_ne (by simp only [BPB_SecPerClus]; omega),
      stWord_of_ne (by simp only [BPB_BytsPerSec]; omega), copy_of_ne (.inr (by
        simp only [strJmpOem, BS_JmpBoot, List.length_cons, List.length_nil]; omega))]
    rfl
  · rw [stDword_of_ne (by simp only [BPB_TotSec32]; omega),
      stWord_of_ne (by simp only [BPB_RootEntCnt]; omega),
      Sector.set_of_ne (by simp only [BPB_NumFATs]; omega),
      stWord_of_ne (by simp only [BPB_RsvdSecCnt]; omega),
      Sector.set_of_ne (by simp only [BPB_SecPerClus]; omega),
      stWord_of_ne (by simp only [BPB_BytsPerSec]; omega), copy_of_ne (.inr (by
        simp only [strJmpOem, BS_JmpBoot, List.length_cons, List.length_nil]; omega))]
    rfl

/-- The word at two zero bytes. -/
theorem ldWord_of_zero {s : Sector} {o : Nat} (h : ∀ i, o ≤ i → i < o + 2 → s i = 0) :
    ldWord s o = 0 :=
  (ldWord_congr h).trans ldWord_zero

/-- The boot sector of a FAT32 volume shows the layout it is made from. -/
theorem boot32_boot {e : MkfsEnv} (he : e.Sane) {l : MkfsLayout} (hl : Accepted e l)
    (h32 : l.fsty = .fat32) : Boot e l (stWord (boot32 e l) BS_55AA 0xAA55) := by
  have hz := fun i => bootHead_zero e l (i := i)
  have hh := bootHead_head he hl
  have hsz := hl.szFat_lt.1
  unfold boot32
  dsimp only
  generalize bootHead e l = b at *
  have hlen : (strNoName ++ strFAT32).length = 19 := rfl
  refine { toHead := hh.congr (fun i hi => ?_) (fun i h₁ h₂ => ?_), fatSz16 := ?_, fatSz32 := ?_,
           fsVer32 := ?_, rootClus32 := ?_, fsInfo32 := ?_, filSysType32 := ?_, sign := ?_ }
  · rw [stWord_of_ne (by simp only [BS_55AA]; omega), copy_of_ne (by omega),
      Sector.set_of_ne (by omega), Sector.set_of_ne (by omega), stWord_of_ne (by omega),
      stWord_of_ne (by simp only [BPB_FSInfo32]; omega),
      stDword_of_ne (by simp only [BPB_RootClus32]; omega),
      stDword_of_ne (by simp only [BPB_FATSz32]; omega), stDword_of_ne (by omega)]
  · rw [stWord_of_ne (by simp only [BS_55AA]; omega), copy_of_ne (by omega),
      Sector.set_of_ne (by omega), Sector.set_of_ne (by omega), stWord_of_ne (by omega),
      stWord_of_ne (by simp only [BPB_FSInfo32]; omega),
      stDword_of_ne (by simp only [BPB_RootClus32]; omega),
      stDword_of_ne (by simp only [BPB_FATSz32]; omega), stDword_of_ne (by omega)]
  · simp (disch := decide) only [ldWord_stWord_of_ne, ldWord_set_of_ne, ldWord_copy_of_ne,
      ldWord_stDword_of_ne]
    rw [if_pos h32]
    exact ldWord_of_zero fun i _ _ => hz i (by simp only [BPB_FATSz16] at *; omega)
  · intro _
    simp (disch := decide) only [ldDword_stWord_of_ne, ldDword_set_of_ne, ldDword_copy_of_ne,
      ldDword_stDword_of_ne, ldDword_stDword]
    exact Nat.mod_eq_of_lt hsz
  · intro _
    simp (disch := decide) only [ldWord_stWord_of_ne, ldWord_set_of_ne, ldWord_copy_of_ne,
      ldWord_stDword_of_ne]
    exact ldWord_of_zero fun i _ _ => hz i (by simp only [BPB_FSVer32] at *; omega)
  · intro _
    simp (disch := decide) only [ldDword_stWord_of_ne, ldDword_set_of_ne, ldDword_copy_of_ne,
      ldDword_stDword]
    decide
  · intro _
    simp (disch := decide) only [ldWord_stWord_of_ne, ldWord_set_of_ne, ldWord_copy_of_ne,
      ldWord_stWord]
  · intro _
    have hb : ∀ i < 8, ∀ s : Sector,
        stWord (s.copy 71 (strNoName ++ strFAT32)) BS_55AA 0xAA55 (BS_FilSysType32 + i) =
          strFAT32.getD i 0 := by
      intro i hi s
      rw [stWord_of_ne (.inl (by simp only [BS_55AA, BS_FilSysType32]; omega)), Sector.copy,
        if_pos (by simp only [BS_FilSysType32, hlen]; omega)]
      exact (by decide : ∀ i < 8, (strNoName ++ strFAT32).getD (BS_FilSysType32 + i - 71) 0 =
        strFAT32.getD i 0) i hi
    rw [Sector.bytes]
    have : (List.range 8).map (fun i => strFAT32.getD i 0) = strFAT32 := by decide
    rw [← this]
    exact List.map_congr_left fun i hi => hb i (List.mem_range.1 hi) _
  · rw [ldWord_stWord]

/-- The boot sector of a FAT12 or FAT16 volume shows the layout it is made from. -/
theorem boot16_boot {e : MkfsEnv} (he : e.Sane) {l : MkfsLayout} (hl : Accepted e l)
    (h32 : l.fsty ≠ .fat32) : Boot e l (stWord (boot16 e l) BS_55AA 0xAA55) := by
  have hh := bootHead_head he hl
  have hsz := hl.szFat_lt.2 h32
  unfold boot16
  dsimp only
  generalize bootHead e l = b at *
  have hlen : (strNoName ++ strFAT).length = 19 := rfl
  refine { toHead := hh.congr (fun i hi => ?_) (fun i h₁ h₂ => ?_), fatSz16 := ?_,
           fatSz32 := (absurd · h32), fsVer32 := (absurd · h32), rootClus32 := (absurd · h32),
           fsInfo32 := (absurd · h32), filSysType32 := (absurd · h32), sign := ?_ }
  · rw [stWord_of_ne (by simp only [BS_55AA]; omega), copy_of_ne (by omega),
      Sector.set_of_ne (by omega), Sector.set_of_ne (by omega),
      stWord_of_ne (by simp only [BPB_FATSz16]; omega), stDword_of_ne (by omega)]
  · rw [stWord_of_ne (by simp only [BS_55AA]; omega), copy_of_ne (by omega),
      Sector.set_of_ne (by omega), Sector.set_of_ne (by omega),
      stWord_of_ne (by simp only [BPB_FATSz16]; omega), stDword_of_ne (by omega)]
  · simp (disch := decide) only [ldWord_stWord_of_ne, ldWord_set_of_ne, ldWord_copy_of_ne,
      ldWord_stWord]
    rw [if_neg h32]
    exact Nat.mod_eq_of_lt hsz
  · rw [ldWord_stWord]

/-- The boot sector that `f_mkfs` writes has the fields of the layout. -/
theorem makeVBR_boot {e : MkfsEnv} (he : e.Sane) {l : MkfsLayout} (hl : Accepted e l) :
    Boot e l (makeVBR e l) := by
  rw [makeVBR_eq]
  split
  · exact boot32_boot he hl ‹_›
  · exact boot16_boot he hl ‹_›

/-! ## What a mount makes of it -/

/-- The geometry of a layout. -/
def MkfsLayout.geometry (l : MkfsLayout) (e : MkfsEnv) : Geometry where
  fsType := l.fsty
  nFats := e.nFat
  nRootdir := if l.fsty = .fat32 then 0 else e.nRoot
  csize := l.pau
  nFatent := l.nClst + 2
  fsize := l.szFat
  volbase := e.bVol
  fatbase := l.bFat
  dirbase := if l.fsty = .fat32 then 2 else l.bFat + l.szFat * e.nFat
  database := e.bVol + l.system e
  id := 0

/-- The cluster size is a power of two, as `check_fs` asks. -/
theorem IsAu.pow {n : Nat} (h : IsAu n) : n ≠ 0 ∧ n &&& (n - 1) = 0 := by
  unfold IsAu at h
  rcases h with rfl | rfl | rfl | rfl | rfl | rfl | rfl | rfl <;> decide

/-- The number of clusters gives the FAT type that the volume was laid out for. -/
theorem Typed.subType {fsty : FsType} {n : Nat} (h : Typed fsty n) : FatFs.subType n = fsty := by
  unfold FatFs.subType
  rcases h with ⟨rfl, h⟩ | ⟨rfl, h₁, h₂⟩ | ⟨rfl, h₁, h₂⟩
  · rw [if_pos h]
  · rw [if_neg (by omega), if_pos h₂]
  · rw [if_neg (by simp only [MAX_FAT12, MAX_FAT16] at *; omega), if_neg (by omega), if_pos h₂]

/-- An accepted layout has a FAT. -/
theorem Accepted.szFat_pos {e : MkfsEnv} {l : MkfsLayout} (hl : Accepted e l) : 0 < l.szFat := by
  have h := hl.room
  cases hf : l.fsty <;> rw [hf] at h <;> simp only [neededFat] at h <;> omega

section
variable {e : MkfsEnv} {l : MkfsLayout} {s : Sector} (he : e.Sane) (hl : Accepted e l)
  (hb : Boot e l s)

include he hl hb

omit hl in
/-- The layout in the boot sector is the one that was chosen. -/
theorem Boot.totSec : bpbTotSec s = e.szVol := by
  have := he.szVol
  rw [bpbTotSec, hb.totSec16, hb.totSec32]
  split_ifs <;> omega

omit he in
/-- `mount_volume` reads the FAT size that was written. -/
theorem Boot.fatSz : bpbFatSz s = l.szFat := by
  have hpos := hl.szFat_pos
  rw [bpbFatSz, hb.fatSz16]
  rcases Decidable.em (l.fsty = .fat32) with h | h
  · rw [if_pos h, if_pos rfl, hb.fatSz32 h]
  · rw [if_neg h, if_neg (by omega)]

/-- `mount_volume` computes the size of the system area that was laid out. -/
theorem Boot.sysect : bpbSysect s = l.system e := by
  have h₁ := hl.fits
  have h₂ := he.top
  rw [bpbSysect_eq, bpbSystem, hb.fatSz hl, hb.rsvdSecCnt, hb.numFATs, hb.rootEntCnt,
    Nat.mod_eq_of_lt]
  · rw [MkfsLayout.system, hl.szDir]
    split <;> rfl
  · rw [MkfsLayout.system, hl.szDir] at h₁
    split at h₁ <;> simp only [*, if_true, if_false] <;> omega

/-- `mount_volume` computes the number of clusters that was laid out. -/
theorem Boot.clusters : bpbClusters s = l.nClst := by
  rw [bpbClusters, hb.totSec he, hb.sysect he hl, hb.secPerClus, hl.nClst]

/-- The sector is recognised as a boot sector. -/
theorem Boot.classify_eq : classify s = 0 := by
  have hpos := hl.szFat_pos
  rw [classify]
  refine if_pos ⟨.inl hb.jump, ?_⟩
  rcases Decidable.em (l.fsty = .fat32) with h | h
  · exact .inl ⟨hb.sign, hb.filSysType32 h⟩
  · have hroot := he.nRoot
    have hvol := he.szVol
    have hrsv := hl.szRsv
    rw [hb.bytsPerSec, hb.secPerClus, hb.rsvdSecCnt, hb.numFATs, hb.rootEntCnt, hb.totSec16,
      hb.totSec32, hb.fatSz16, if_neg h, if_neg h]
    refine .inr ⟨by decide, by decide, by decide, hl.pau.pow.1, hl.pau.pow.2, by omega,
      ?_, by omega, ?_, by omega⟩
    · rcases he.nFat with h | h <;> rw [h] <;> decide
    · split <;> omega

/-- The BPB analysis accepts the boot sector exactly if the layout has clusters, and then takes the
layout from it. -/
theorem Boot.readBPB_eq :
    readBPB s e.bVol = if l.nClst = 0 then none else some (l.geometry e) := by
  have hcl := hb.clusters he hl
  have hsys := hb.sysect he hl
  have hty := hl.typed.subType
  have hbpb : bpbValid s ↔ l.nClst ≠ 0 := by
    simp only [bpbValid, hcl, hsys, hb.totSec he, hb.fatSz hl, hb.bytsPerSec, hb.secPerClus,
      hb.rsvdSecCnt, hb.numFATs, hb.rootEntCnt, hty]
    have hroot := he.nRoot
    have hrsv := hl.szRsv
    refine ⟨fun h => h.2.2.2.2.2.2.1, fun h => ⟨trivial, he.nFat, hl.pau.pow, ?_, by omega, hl.fits,
      h, hl.fsty, fun h32 => ⟨hb.fsVer32 h32, if_pos h32⟩, fun h32 => ?_, hl.room⟩⟩
    · split
      · rfl
      · exact hroot.2.2
    · rw [if_neg h32]
      omega
  rw [readBPB]
  rcases Decidable.em (l.nClst = 0) with h | h
  · rw [if_neg (by rw [hbpb]; exact not_not.2 h), if_pos h]
  · rw [if_pos (hbpb.2 h), if_neg h]
    have htop := he.top
    have hfits := hl.fits
    have hbf := hl.bFat
    have hdir := hl.szDir
    have harea : bpbFatArea s = l.szFat * e.nFat := by
      rw [bpbFatArea, hb.fatSz hl, hb.numFATs, Nat.mod_eq_of_lt]
      unfold MkfsLayout.system at hfits
      omega
    have hbase : add32 e.bVol l.szRsv = l.bFat := by
      rw [add32_of_lt, hbf]
      unfold MkfsLayout.system at hfits
      omega
    have hdata : add32 e.bVol (l.system e) = e.bVol + l.system e := add32_of_lt (by omega)
    have hroot : add32 l.bFat (l.szFat * e.nFat) = l.bFat + l.szFat * e.nFat := by
      refine add32_of_lt ?_
      unfold MkfsLayout.system at hfits
      omega
    simp only [hcl, hsys, hty, hb.fatSz hl, hb.secPerClus, hb.rsvdSecCnt, hb.numFATs,
      hb.rootEntCnt, harea, hbase, hdata, hroot, MkfsLayout.geometry]
    congr 2
    split
    · exact hb.rootClus32 ‹_›
    · rfl

end

end FatFs
