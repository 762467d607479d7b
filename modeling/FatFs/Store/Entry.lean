import FatFs.Format.Boot
import FatFs.Store.Refine

/-!
# The directory entries of open files

`f_sync` updates the directory entry of its file (`syncEntry`). The update stays inside the slot of
32 bytes of the entry, keeps the name, and changes the attributes by the archive bit only.
`Recorded` says that the entry tells where the file is.
-/

namespace FatFs

/-- The directory entry has the start cluster and the size of the file. -/
structure Recorded (g : Geometry) (L : Nat → Sector) (fp : FIL) : Prop where
  clst : ldClust g (L fp.dirSect) fp.dirPtr = fp.sclust
  size : ldDword (L fp.dirSect) (fp.dirPtr + DIR_FileSize) = fp.objsize

/-- Setting other bits does not change a test. -/
theorem hasBits_or_of_disjoint {m b : UInt8} (h : b &&& m = 0) (a : UInt8) :
    hasBits (a ||| b) m = hasBits a m := by
  have hor : (a ||| b) &&& m = a &&& m ||| b &&& m := by
    rw [← UInt8.toNat_inj]
    simp only [UInt8.toNat_and, UInt8.toNat_or]
    exact Nat.and_or_distrib_right _ _ _
  unfold hasBits
  rw [hor, h, UInt8.or_zero]

section
variable {g : Geometry} {s : Sector} {fp : FIL} {dir i : Nat}

/-- The start cluster is stored in its own bytes of the entry. -/
theorem stClust_of_ne {cl : Nat} (h : i < dir + DIR_FstClusHI ∨ dir + SZDIRE ≤ i) :
    stClust g s dir cl i = s i := by
  simp only [DIR_FstClusHI, SZDIRE] at h
  unfold stClust
  split
  · rw [stWord_of_ne (by simp only [DIR_FstClusHI]; omega),
      stWord_of_ne (by simp only [DIR_FstClusLO]; omega)]
  · exact stWord_of_ne (by simp only [DIR_FstClusLO]; omega)

/-- The bytes before the attributes and behind the entry stay. -/
theorem syncEntry_of_ne (h : i < dir + DIR_Attr ∨ dir + SZDIRE ≤ i) : syncEntry g s dir fp i =
    s i := by
  simp only [DIR_Attr, SZDIRE] at h
  unfold syncEntry
  rw [stWord_of_ne (by simp only [DIR_LstAccDate]; omega),
    stDword_of_ne (by simp only [DIR_ModTime]; omega),
    stDword_of_ne (by simp only [DIR_FileSize]; omega),
    stClust_of_ne (by simp only [DIR_FstClusHI, SZDIRE]; omega),
    Sector.set_of_ne (by simp only [DIR_Attr]; omega)]

/-- `f_sync` sets the archive bit and keeps the other ones. -/
theorem syncEntry_attr : syncEntry g s dir fp (dir + DIR_Attr) = s (dir + DIR_Attr) ||| AM_ARC := by
  unfold syncEntry
  rw [stWord_of_ne (by simp only [DIR_LstAccDate, DIR_Attr]; omega),
    stDword_of_ne (by simp only [DIR_ModTime, DIR_Attr]; omega),
    stDword_of_ne (by simp only [DIR_FileSize, DIR_Attr]; omega),
    stClust_of_ne (by simp only [DIR_FstClusHI, DIR_Attr]; omega), Sector.set_self]

/-- The start cluster is read from the entry. -/
theorem ldClust_congr {t : Sector} (h : ∀ k < SZDIRE, t (dir + k) = s (dir + k)) :
    ldClust g t dir = ldClust g s dir := by
  have hword : ∀ o, o + 2 ≤ SZDIRE → ldWord t (dir + o) = ldWord s (dir + o) := fun o ho =>
    ldWord_congr fun i hi hi' => by
      rw [show i = dir + (i - dir) by omega]
      exact h _ (by omega)
  unfold ldClust
  rw [hword _ (by decide), hword _ (by decide)]

/-- The start cluster that was stored is read back. -/
theorem ldClust_stClust {d cl : Nat} (h : cl < W32) (hw : g.fsType ≠ .fat32 → cl < 65536) :
    ldClust g (stClust g s d cl) d = cl := by
  simp only [W32] at h
  unfold ldClust stClust
  split
  · rw [ldWord_stWord_of_ne (by simp only [DIR_FstClusHI, DIR_FstClusLO]; omega), ldWord_stWord,
      ldWord_stWord]
    omega
  · rename_i hf
    rw [ldWord_stWord]
    exact Nat.mod_eq_of_lt (hw hf)

/-- The updated entry tells where the file is. -/
theorem ldClust_syncEntry (h : fp.sclust < W32) (hw : g.fsType ≠ .fat32 → fp.sclust < 65536) :
    ldClust g (syncEntry g s dir fp) dir = fp.sclust := by
  have hword : ∀ o, o = DIR_FstClusLO ∨ o = DIR_FstClusHI →
      ldWord (syncEntry g s dir fp) (dir + o) =
      ldWord (stClust g (s.set (dir + DIR_Attr) (s (dir + DIR_Attr) ||| AM_ARC)) dir fp.sclust)
        (dir + o) := by
    intro o ho
    simp only [DIR_FstClusLO, DIR_FstClusHI] at ho
    unfold syncEntry
    rw [ldWord_stWord_of_ne (by simp only [DIR_LstAccDate]; omega),
      ldWord_stDword_of_ne (by simp only [DIR_ModTime]; omega),
      ldWord_stDword_of_ne (by simp only [DIR_FileSize]; omega)]
  have hst := ldClust_stClust (g := g) (s := s.set (dir + DIR_Attr) (s (dir + DIR_Attr) ||| AM_ARC))
    (d := dir) h hw
  unfold ldClust at hst ⊢
  rw [hword _ (.inl rfl), hword _ (.inr rfl), hst]

/-- The size that `f_sync` stores. -/
theorem ldDword_syncEntry (h : fp.objsize < W32) :
    ldDword (syncEntry g s dir fp) (dir + DIR_FileSize) = fp.objsize := by
  unfold syncEntry
  rw [ldDword_stWord_of_ne (by simp only [DIR_LstAccDate, DIR_FileSize]; omega),
    ldDword_stDword_of_ne (by simp only [DIR_ModTime, DIR_FileSize]; omega), ldDword_stDword]
  exact Nat.mod_eq_of_lt h

end

/-! ## Entries that tell where the file is -/

section
variable {g : Geometry} {L L' : Nat → Sector} {fp : FIL}

/-- What the entry of a file records depends on the bytes of the entry. -/
theorem Recorded.congr (h : Recorded g L fp)
    (hs : ∀ k < SZDIRE, L' fp.dirSect (fp.dirPtr + k) = L fp.dirSect (fp.dirPtr + k)) :
    Recorded g L' fp := by
  refine ⟨(ldClust_congr hs).trans h.clst, Eq.trans ?_ h.size⟩
  refine ldDword_congr fun i hi hi' => ?_
  simp only [DIR_FileSize] at hi hi'
  rw [show i = fp.dirPtr + (i - fp.dirPtr) by omega]
  exact hs _ (by simp only [SZDIRE]; omega)

/-- The start of a file fits into its entry. -/
theorem FIL.Holds.sclust_lt {w : State} {cs : List Nat} (hg : g.Sound) (h : fp.Holds g w cs) :
    fp.sclust < W32 ∧ (g.fsType ≠ .fat32 → fp.sclust < 65536) := by
  have hlim := hg.limit
  have htop : fp.sclust = 0 ∨ fp.sclust < g.nFatent := by
    rw [h.file.start]
    cases hcs : cs with
    | nil => exact .inl rfl
    | cons c cs' => exact .inr (h.file.clust c (by rw [hcs]; exact List.mem_cons_self)).2
  have hmax : g.nFatent ≤ W32 ∧ (g.fsType ≠ .fat32 → g.nFatent ≤ 65536) := by
    rcases hf : g.fsType <;> rw [hf] at hlim <;>
      simp [Geometry.maxEntries, MAX_FAT12, MAX_FAT16, MAX_FAT32, W32] at hlim ⊢ <;> omega
  refine ⟨?_, fun hf => ?_⟩
  · have := hmax.1
    simp only [W32] at *
    omega
  · have := hmax.2 hf
    omega

/-- `f_sync` records the file. -/
theorem FIL.Holds.recorded {w : State} {cs : List Nat} (hg : g.Sound) (h : fp.Holds g w cs)
    {t : Sector} (hs : L fp.dirSect = syncEntry g t fp.dirPtr fp) : Recorded g L fp := by
  obtain ⟨h₁, h₂⟩ := h.sclust_lt hg
  refine ⟨?_, ?_⟩
  · rw [hs, ldClust_syncEntry h₁ h₂]
  · rw [hs, ldDword_syncEntry h.size]

end

/-! ## Sectors of directories -/

section
variable {ι : Type} {g : Geometry} {files : ι → FIL} {s o : Nat} {t t' : Sector}

/-- Slots of entries are the same or do not meet. -/
theorem slot_eq_or_apart {d : Nat} (hd : d % SZDIRE = 0) (ho : o % SZDIRE = 0) :
    d = o ∨ d + SZDIRE ≤ o ∨ o + SZDIRE ≤ d := by
  simp only [SZDIRE] at *
  omega

variable (h : Updated g files s t t') (hal : ∀ i, (files i).dirPtr % SZDIRE = 0)
  (ho : o % SZDIRE = 0)

include h hal ho

/-- A slot that is of none of the files stays. -/
theorem Updated.slot (hno : ∀ i, (files i).dirSect = s → (files i).dirPtr ≠ o) {k : Nat}
    (hk : k < SZDIRE) : t' (o + k) = t (o + k) := by
  induction h with
  | refl => rfl
  | sync i fp _ hs hp ih =>
    rw [← ih, hp]
    refine syncEntry_of_ne ?_
    rcases slot_eq_or_apart (hal i) ho with he | hl | hr
    · exact absurd he (hno i hs)
    · exact .inr (by omega)
    · exact .inl (by omega)

/-- The names stay. -/
theorem Updated.name {k : Nat} (hk : k < DIR_Attr) : t' (o + k) = t (o + k) := by
  simp only [DIR_Attr] at hk
  induction h with
  | refl => rfl
  | sync i fp _ hs hp ih =>
    rw [← ih, hp]
    refine syncEntry_of_ne ?_
    rcases slot_eq_or_apart (hal i) ho with he | hl | hr
    · exact .inl (by simp only [DIR_Attr]; omega)
    · exact .inr (by omega)
    · exact .inl (by simp only [SZDIRE] at hr; omega)

/-- The attributes stay but for the archive bit. -/
theorem Updated.attr {m : UInt8} (hm : AM_ARC &&& m = 0) :
    hasBits (t' (o + DIR_Attr)) m = hasBits (t (o + DIR_Attr)) m := by
  induction h with
  | refl => rfl
  | sync i fp _ hs hp ih =>
    rw [← ih, hp]
    rcases slot_eq_or_apart (hal i) ho with he | hl | hr
    · rw [he, syncEntry_attr, hasBits_or_of_disjoint hm]
    · rw [syncEntry_of_ne (.inr (by omega))]
    · rw [syncEntry_of_ne (.inl (by simp only [SZDIRE, DIR_Attr] at *; omega))]

end

end FatFs
