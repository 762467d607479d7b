import FatFs.Lib.Packed
import FatFs.Window.Invariant

/-!
# FAT entries

The first FAT as a packed array of the logical content of the volume: `Geometry.entry g L c` is the
entry of cluster `c`, of 12, 16 or 28 bits. `get_fat` reads it and `put_fat` replaces it, and every
other entry and sector keeps its logical content (`getFat_inv`, `putFat_inv`). The results hold for
every image, and for a device that ends inside the FAT: then the functions fail.
-/

namespace FatFs

open Run

namespace Geometry

/-- The bytes of the first FAT. -/
def fatByte (g : Geometry) (L : Nat → Sector) : Packed.Bytes :=
  fun i => L (g.fatbase + i / SS) (i % SS)

/-- The entry of a cluster in the bytes of a FAT. -/
def entryOf (g : Geometry) (F : Packed.Bytes) (c : Nat) : Nat :=
  match g.fsType with
  | .none => 0
  | .fat12 => Packed.get12 F c
  | .fat16 => Packed.get16 F c
  | .fat32 => Packed.get28 F c

/-- The bytes of a FAT with the entry of a cluster replaced. -/
def setEntry (g : Geometry) (F : Packed.Bytes) (c v : Nat) : Packed.Bytes :=
  match g.fsType with
  | .none => F
  | .fat12 => Packed.set12 F c v
  | .fat16 => Packed.set16 F c v
  | .fat32 => Packed.set28 F c v

/-- The FAT entry of a cluster in the logical content of the volume. -/
def entry (g : Geometry) (L : Nat → Sector) (c : Nat) : Nat := g.entryOf (g.fatByte L) c

/-- The number of values of a FAT entry. -/
def entryMod (g : Geometry) : Nat :=
  match g.fsType with
  | .none => 1
  | .fat12 => 4096
  | .fat16 => 65536
  | .fat32 => 0x10000000

/-- The first FAT is on the device. -/
def FatOn (g : Geometry) (w : State) : Prop := g.fatbase + g.fsize ≤ w.disk.sectors

section
variable {g : Geometry} (hg : g.Sound)

/-- A byte of the FAT is in a sector of the FAT. -/
theorem inFat_byte {i : Nat} (hi : i < g.fsize * SS) : g.InFat (g.fatbase + i / SS) := by
  have : i / SS < g.fsize := Nat.div_lt_of_lt_mul (by rwa [Nat.mul_comm])
  exact ⟨Nat.le_add_right _ _, Nat.add_lt_add_left this _⟩

/-- An entry has the bits of its type. -/
theorem entry_lt (g : Geometry) (L : Nat → Sector) (c : Nat) : g.entry L c < g.entryMod := by
  unfold entry entryOf entryMod
  cases hf : g.fsType with
  | none => simp
  | fat12 => exact Packed.get12_lt _ _
  | fat16 => exact Packed.get16_lt _ _
  | fat32 => exact Packed.get28_lt _ _

/-- The entry of a cluster in the sector of a FAT16. -/
theorem ldWord_entry (hf : g.fsType = .fat16) (L : Nat → Sector) (c : Nat) :
    ldWord (L (g.fatbase + 2 * c / SS)) (c * 2 % SS) = g.entry L c := by
  have h₁ : (2 * c + 1) / SS = 2 * c / SS := by simp only [SS]; omega
  have h₂ : (2 * c + 1) % SS = c * 2 % SS + 1 := by simp only [SS]; omega
  have h₃ : 2 * c % SS = c * 2 % SS := by rw [Nat.mul_comm]
  simp only [entry, entryOf, hf, ldWord, Packed.get16, fatByte, h₁, h₂, h₃]

/-- The entry of a cluster in the sector of a FAT32. -/
theorem ldDword_entry (hf : g.fsType = .fat32) (L : Nat → Sector) (c : Nat) :
    ldDword (L (g.fatbase + 4 * c / SS)) (c * 4 % SS) % 0x10000000 = g.entry L c := by
  have h₁ : ∀ k < 4, (4 * c + k) / SS = 4 * c / SS := fun k hk => by
    simp only [SS]
    omega
  have h₂ : ∀ k < 4, (4 * c + k) % SS = c * 4 % SS + k := fun k hk => by
    simp only [SS]
    omega
  have h₃ : 4 * c % SS = c * 4 % SS := by rw [Nat.mul_comm]
  simp only [entry, entryOf, hf, ldDword, Packed.get28, Packed.get32, fatByte, h₁ 1 (by omega),
    h₁ 2 (by omega), h₁ 3 (by omega), h₂ 1 (by omega), h₂ 2 (by omega), h₂ 3 (by omega), h₃]

/-- No entry has more than 28 bits. -/
theorem entryMod_le (g : Geometry) : g.entryMod ≤ 0x10000000 := by
  unfold entryMod
  cases g.fsType <;> simp

include hg

/-- The sectors of the FAT have 32-bit numbers. -/
theorem Sound.add32_fat {i : Nat} (hi : i < g.fsize * SS) :
    add32 g.fatbase (i / SS) = g.fatbase + i / SS := by
  have h₁ := hg.inFat_lt (inFat_byte hi)
  have h₂ := hg.database_lt
  exact add32_of_lt (by omega)

/-- The entries of the clusters are inside the FAT. -/
theorem Sound.byte12 (h : g.fsType = .fat12) {c : Nat} (hc : c < g.nFatent) :
    c + c / 2 + 1 < g.fsize * SS := by
  have hs := hg.fatSize
  simp only [fatBytes, h] at hs
  omega

/-- A FAT16 entry is in the FAT. -/
theorem Sound.byte16 (h : g.fsType = .fat16) {c : Nat} (hc : c < g.nFatent) :
    2 * c + 1 < g.fsize * SS := by
  have hs := hg.fatSize
  simp only [fatBytes, h] at hs
  omega

/-- A FAT32 entry is in the FAT. -/
theorem Sound.byte32 (h : g.fsType = .fat32) {c : Nat} (hc : c < g.nFatent) :
    4 * c + 3 < g.fsize * SS := by
  have hs := hg.fatSize
  simp only [fatBytes, h] at hs
  omega

/-- An entry depends on the bytes of the FAT. -/
theorem Sound.entryOf_congr {F G : Packed.Bytes} (h : ∀ i < g.fsize * SS, F i = G i) {c : Nat}
    (hc : c < g.nFatent) : g.entryOf F c = g.entryOf G c := by
  unfold entryOf
  cases hf : g.fsType with
  | none => rfl
  | fat12 =>
    have := hg.byte12 hf hc
    simp only [Packed.get12]
    rw [h _ (by omega), h _ (by omega)]
  | fat16 =>
    have := hg.byte16 hf hc
    simp only [Packed.get16]
    rw [h _ (by omega), h _ (by omega)]
  | fat32 =>
    have := hg.byte32 hf hc
    simp only [Packed.get28, Packed.get32]
    rw [h _ (by omega), h _ (by omega), h _ (by omega), h _ (by omega)]

/-- The entry that is set. -/
theorem Sound.entryOf_setEntry (F : Packed.Bytes) (c v : Nat) :
    g.entryOf (g.setEntry F c v) c = v % g.entryMod := by
  unfold entryOf setEntry entryMod
  cases hf : g.fsType with
  | none => exact absurd hf hg.fsType
  | fat12 => exact Packed.get12_set12 F c v
  | fat16 => exact Packed.get16_set16 F c v
  | fat32 => exact Packed.get28_set28 F c v

omit hg in
/-- The other entries stay. -/
theorem entryOf_setEntry_of_ne (F : Packed.Bytes) {c e : Nat} (v : Nat) (h : e ≠ c) :
    g.entryOf (g.setEntry F c v) e = g.entryOf F e := by
  unfold entryOf setEntry
  cases hf : g.fsType with
  | none => rfl
  | fat12 => exact Packed.get12_set12_of_ne F v h
  | fat16 => exact Packed.get16_set16_of_ne F v h
  | fat32 => exact Packed.get28_set28_of_ne F v h

omit hg in
/-- The bytes of the FAT depend on its sectors. -/
theorem fatByte_congr {L L' : Nat → Sector} (h : ∀ s, g.InFat s → L' s = L s) {i : Nat}
    (hi : i < g.fsize * SS) : g.fatByte L' i = g.fatByte L i := by
  rw [fatByte, fatByte, h _ (inFat_byte hi)]

/-- The entry of a cluster depends on the sectors of the FAT only. -/
theorem Sound.entry_congr {L L' : Nat → Sector} (h : ∀ s, g.InFat s → L' s = L s) {c : Nat}
    (hc : c < g.nFatent) : g.entry L' c = g.entry L c :=
  hg.entryOf_congr (fun _ hi => fatByte_congr h hi) hc

/-- The entries stay when the first FAT does. -/
theorem Sound.entry_same {w w' : State} (h : Same g w w') {c : Nat} (hc : c < g.nFatent) :
    g.entry w'.logical c = g.entry w.logical c :=
  hg.entry_congr (fun s hs => h s hs.not_inFat2) hc

/-- A cluster number fits an entry. -/
theorem Sound.nFatent_lt_mod : g.nFatent < g.entryMod := by
  have h₁ := hg.limit
  have h₂ := hg.fsType
  unfold entryMod
  cases hf : g.fsType <;> simp only [hf, maxEntries, MAX_FAT12, MAX_FAT16, MAX_FAT32] at h₁ h₂ ⊢
  · exact absurd rfl h₂
  all_goals omega

/-- A device that holds the volume holds the first FAT. -/
theorem Sound.fatOn {w : State} (h : g.volEnd ≤ w.disk.sectors) : g.FatOn w := by
  have hd := hg.database
  unfold FatOn
  unfold volEnd at h
  rcases hg.nFats with hn | hn <;> rw [hn] at hd <;> omega

/-- The value `0xFFFFFFFF` marks the end of a chain in every FAT. -/
theorem Sound.endMark_ge : g.nFatent ≤ 0xFFFFFFFF % g.entryMod := by
  have hlt := hg.nFatent_lt_mod
  unfold entryMod at hlt ⊢
  split at hlt <;> omega

end

end Geometry

/-! ## Reading and changing a byte of the FAT -/

section
variable {g : Geometry} (hg : g.Sound) {w : State} (hw : Inv g w)

/-- What moving the window to the byte `i` of the FAT does. -/
structure FatMove (g : Geometry) (w : State) (i : Nat) (r : FRESULT) (w' : State) : Prop
    extends MoveInv g w (g.fatbase + i / SS) r w' where
  onDevice : r = .ok → g.fatbase + i / SS < w.disk.sectors
  filled : r = .ok → w'.win = w.logical (g.fatbase + i / SS)

include hg hw

/-- `move_window` to a sector of the FAT. -/
theorem moveFat {i : Nat} (hi : i < g.fsize * SS) :
    Returns (moveWindow (add32 g.fatbase (i / SS))) w (FatMove g w i) := by
  rw [hg.add32_fat hi]
  refine (moveWindow_inv hg hw _).mono fun r w' h => ?_
  have hfat := Geometry.inFat_byte hi
  have hon : r = .ok → g.fatbase + i / SS < w.disk.sectors := fun hr => by
    have := h.inv.fat
    rw [h.winsect hr, h.kept.sectors] at this
    exact this hfat
  exact ⟨h, hon, fun hr => by rw [h.win hr (hon hr), h.same _ hfat.not_inFat2]⟩

end

/-- The bytes of the FAT after a store to the window on the sector of byte `i`. -/
theorem fatByte_store {g : Geometry} {w : State} {i : Nat} (hs : w.winsect = g.fatbase + i / SS)
    (t : Sector) (j : Nat) :
    g.fatByte (State.logical { w with win := t, wflag := true }) j =
      if j / SS = i / SS then t (j % SS) else g.fatByte w.logical j := by
  rw [Geometry.fatByte, logical_store, hs]
  by_cases hj : j / SS = i / SS
  · rw [if_pos (by rw [hj]), if_pos hj]
  · rw [if_neg (fun h => hj (Nat.add_left_cancel h)), if_neg hj]
    rfl

/-! ## `get_fat` -/

/-- What `get_fat` does: it answers 1 or `0xFFFFFFFF`, or the entry of a valid cluster. -/
structure FatRead (g : Geometry) (w : State) (c r : Nat) (w' : State) : Prop where
  kept : Kept w w'
  inv : Inv g w'
  same : Same g w w'
  good : w.Flushable → w'.Flushable
  val : r = 1 ∨ r = DISKERR ∨
    (g.IsClust c ∧ r = g.entry w.logical c ∧ g.fatbase < w.disk.sectors)
  full : w.Flushable → g.FatOn w → g.IsClust c → r = g.entry w.logical c

section
variable {g : Geometry} (hg : g.Sound) {w : State} (hw : Inv g w)

include hg hw

/-- `get_fat` from any state of a mounted volume, on any cluster number. -/
theorem getFat_inv (c : Nat) : Returns (getFat c) w (FatRead g w c) := by
  have hfail : ∀ {w'}, Kept w w' → Inv g w' → Same g w w' → (w.Flushable → w'.Flushable) →
      (w.Flushable → g.FatOn w → g.IsClust c → False) → FatRead g w c DISKERR w' :=
    fun h₁ h₂ h₃ h₄ h₅ => ⟨h₁, h₂, h₃, h₄, .inr (.inl rfl), fun hf ho hc => (h₅ hf ho hc).elim⟩
  rw [getFat, returns_bind, returns_get, returns_ite, hw.geo]
  refine ⟨fun hc => returns_pure.2 ⟨Kept.refl w, hw, Same.refl g w, id, .inl rfl, fun _ _ hi => ?_⟩,
    fun hc => ?_⟩
  · have := hi.1
    have := hi.2
    omega
  have hcl : g.IsClust c := ⟨by omega, by omega⟩
  have hentry : ∀ L, g.entry L c = match g.fsType with
      | .none => 0
      | .fat12 => Packed.get12 (g.fatByte L) c
      | .fat16 => Packed.get16 (g.fatByte L) c
      | .fat32 => Packed.get28 (g.fatByte L) c := fun _ => rfl
  -- a sector of the FAT is on the device if the FAT is
  have hon : ∀ i < g.fsize * SS, g.FatOn w →
      g.fatbase + i / SS < w.disk.sectors := fun i hi ho => by
    have := (Geometry.inFat_byte hi).2
    unfold Geometry.FatOn at ho
    omega
  cases hf : g.fsType with
  | none => exact absurd hf hg.fsType
  | fat12 =>
    have hb := hg.byte12 hf hcl.2
    rw [hf] at hentry
    simp only [returns_bind, returns_ite, returns_pure, returns_get]
    refine (moveFat hg hw (by omega)).mono fun r w₁ h₁ => ⟨fun hne => ?_, fun hok => ?_⟩
    · exact hfail h₁.kept h₁.inv h₁.same (fun hf => (h₁.good hf).1)
        fun hf ho _ => hne ((h₁.good hf).2 (hon _ (by omega) ho))
    have hok' : r = .ok := by simpa using hok
    refine (moveFat hg h₁.inv hb).mono fun r₂ w₂ h₂ => ?_
    have hk := h₁.kept.trans h₂.kept
    have hs := h₁.same.trans h₂.same
    have hgood : w.Flushable → w₂.Flushable := fun hf => (h₂.good (h₁.good hf).1).1
    refine ⟨fun hne => ?_, fun hok₂ => ?_⟩
    · exact hfail hk h₂.inv hs hgood fun hf ho _ =>
        hne ((h₂.good (h₁.good hf).1).2 (by rw [h₁.kept.sectors]; exact hon _ hb ho))
    · have hok₂' : r₂ = .ok := by simpa using hok₂
      have hv : (if c % 2 = 1 then ((w₁.win ((c + c / 2) % SS)).toNat +
          (w₂.win ((c + c / 2 + 1) % SS)).toNat * 256) / 16
          else ((w₁.win ((c + c / 2) % SS)).toNat +
            (w₂.win ((c + c / 2 + 1) % SS)).toNat * 256) % 4096) = g.entry w.logical c := by
        rw [hentry, h₁.filled hok', h₂.filled hok₂',
          h₁.same _ (Geometry.inFat_byte hb).not_inFat2]
        rfl
      have hlt := Nat.lt_of_le_of_lt (Nat.le_add_right _ _) (h₁.onDevice hok')
      exact ⟨hk, h₂.inv, hs, hgood, .inr (.inr ⟨hcl, hv, hlt⟩), fun _ _ _ => hv⟩
  | fat16 =>
    have hb := hg.byte16 hf hcl.2
    rw [hf] at hentry
    have hdiv : c / (SS / 2) = 2 * c / SS := by simp only [SS]; omega
    simp only [returns_bind, returns_ite, returns_pure, returns_get, hdiv]
    refine (moveFat hg hw (by omega)).mono fun r w₁ h₁ => ⟨fun hne => ?_, fun hok => ?_⟩
    · exact hfail h₁.kept h₁.inv h₁.same (fun hf => (h₁.good hf).1)
        fun hf ho _ => hne ((h₁.good hf).2 (hon _ (by omega) ho))
    · have hok' : r = .ok := by simpa using hok
      have hv : ldWord w₁.win (c * 2 % SS) = g.entry w.logical c := by
        rw [h₁.filled hok', Geometry.ldWord_entry hf]
      have hlt := Nat.lt_of_le_of_lt (Nat.le_add_right _ _) (h₁.onDevice hok')
      exact ⟨h₁.kept, h₁.inv, h₁.same, fun hf => (h₁.good hf).1,
        .inr (.inr ⟨hcl, hv, hlt⟩), fun _ _ _ => hv⟩
  | fat32 =>
    have hb := hg.byte32 hf hcl.2
    rw [hf] at hentry
    have hdiv : c / (SS / 4) = 4 * c / SS := by simp only [SS]; omega
    simp only [returns_bind, returns_ite, returns_pure, returns_get, hdiv]
    refine (moveFat hg hw (by omega)).mono fun r w₁ h₁ => ⟨fun hne => ?_, fun hok => ?_⟩
    · exact hfail h₁.kept h₁.inv h₁.same (fun hf => (h₁.good hf).1)
        fun hf ho _ => hne ((h₁.good hf).2 (hon _ (by omega) ho))
    · have hok' : r = .ok := by simpa using hok
      have hv : ldDword w₁.win (c * 4 % SS) % 0x10000000 = g.entry w.logical c := by
        rw [h₁.filled hok', Geometry.ldDword_entry hf]
      have hlt := Nat.lt_of_le_of_lt (Nat.le_add_right _ _) (h₁.onDevice hok')
      exact ⟨h₁.kept, h₁.inv, h₁.same, fun hf => (h₁.good hf).1,
        .inr (.inr ⟨hcl, hv, hlt⟩), fun _ _ _ => hv⟩

end

/-! ## `put_fat` -/

/-- What `put_fat` does: the other sectors keep their content, and on success the entry is replaced
and the others are kept. -/
structure FatWrite (g : Geometry) (w : State) (c v : Nat) (r : FRESULT) (w' : State) : Prop where
  kept : Kept w w'
  inv : Inv g w'
  good : w.Flushable → w'.Flushable
  frame : ∀ s, ¬g.InFat s → ¬g.InFat2 s → w'.logical s = w.logical s
  clust : r = .ok → g.IsClust c
  onDevice : r = .ok → g.fatbase < w.disk.sectors
  bytes : r = .ok → ∀ i < g.fsize * SS,
    g.fatByte w'.logical i = g.setEntry (g.fatByte w.logical) c v i
  full : w.Flushable → g.FatOn w → g.IsClust c → r = .ok

section
variable {g : Geometry} (hg : g.Sound)

include hg

/-- `put_fat` sets the entry. -/
theorem FatWrite.entry_self {w w' : State} {c v : Nat} (h : FatWrite g w c v .ok w') :
    g.entry w'.logical c = v % g.entryMod := by
  have hc := (h.clust rfl).2
  rw [Geometry.entry, hg.entryOf_congr (h.bytes rfl) hc, hg.entryOf_setEntry]

/-- `put_fat` keeps the other entries. -/
theorem FatWrite.entry_other {w w' : State} {c v e : Nat} (h : FatWrite g w c v .ok w')
    (he : e < g.nFatent) (hne : e ≠ c) : g.entry w'.logical e = g.entry w.logical e := by
  rw [Geometry.entry, hg.entryOf_congr (h.bytes rfl) he, Geometry.entryOf_setEntry_of_ne _ _ hne,
    Geometry.entry]

end

/-- What a store to the window does after the window was moved to the byte `i` of the FAT. -/
structure FatStore (g : Geometry) (w : State) (i : Nat) (t : Sector) (w' : State) : Prop where
  kept : Kept w w'
  inv : Inv g w'
  good : w'.Flushable
  frame : ∀ s, ¬g.InFat s → ¬g.InFat2 s → w'.logical s = w.logical s
  bytes : ∀ j < g.fsize * SS, g.fatByte w'.logical j =
    if j / SS = i / SS then t (j % SS) else g.fatByte w.logical j

/-- A store in the window on the FAT. -/
theorem FatMove.store {g : Geometry} {w w' : State} {i : Nat} (hi : i < g.fsize * SS)
    (h : FatMove g w i .ok w') (t : Sector) :
    FatStore g w i t { w' with win := t, wflag := true } := by
  have hfat := Geometry.inFat_byte hi
  have hws : w'.winsect = g.fatbase + i / SS := h.winsect rfl
  refine ⟨⟨h.kept.geo, h.kept.fsiFlag, h.kept.lastClst, h.kept.freeClst, h.kept.registered,
    h.kept.fsid, h.kept.charSigned, h.kept.sectors, h.kept.blockSize, h.kept.fault⟩,
    h.inv.store _, fun _ => ?_, fun s hs hs₂ => ?_, fun j hj => ?_⟩
  · change w'.winsect < w'.disk.sectors
    rw [hws, h.kept.sectors]
    exact h.onDevice rfl
  · rw [logical_store, if_neg fun he => hs (by rw [he, hws]; exact hfat), h.same s hs₂]
  · rw [fatByte_store hws, Geometry.fatByte_congr (fun s hs => h.same s hs.not_inFat2) hj]

/-- The window on the sector of byte `i` holds the bytes of the FAT there. -/
theorem FatMove.byte {g : Geometry} {w w' : State} {i j : Nat} (h : FatMove g w i .ok w')
    (hj : j / SS = i / SS) : w'.win (j % SS) = g.fatByte w.logical j := by
  rw [h.filled rfl, Geometry.fatByte, hj]

/-- A store of the byte `i`. -/
theorem FatMove.put {g : Geometry} {w w' : State} {i : Nat} (hi : i < g.fsize * SS)
    (h : FatMove g w i .ok w') (b : UInt8) {j : Nat} (hj : j < g.fsize * SS) :
    g.fatByte (State.logical { w' with win := w'.win.set (i % SS) b, wflag := true }) j =
      Packed.put (g.fatByte w.logical) i b j := by
  rw [(h.store hi _).bytes j hj, Packed.put]
  by_cases hs : j / SS = i / SS
  · have he : j % SS = i % SS ↔ j = i := by
      simp only [SS] at *
      omega
    simp only [hs, if_true, Sector.set, he, h.byte hs]
  · have hne : j ≠ i := fun he => hs (by rw [he])
    simp only [hs, if_false, hne]

/-- A store of a FAT16 entry. -/
theorem FatMove.put16 {g : Geometry} {w w' : State} {c : Nat} (hi : 2 * c < g.fsize * SS)
    (h : FatMove g w (2 * c) .ok w') (v : Nat) {j : Nat} (hj : j < g.fsize * SS) :
    g.fatByte (State.logical { w' with win := stWord w'.win (c * 2 % SS) v, wflag := true }) j =
      Packed.set16 (g.fatByte w.logical) c v j := by
  rw [(h.store hi _).bytes j hj, Packed.set16]
  simp only [Packed.put]
  by_cases hs : j / SS = 2 * c / SS
  · have e₁ : j % SS = c * 2 % SS + 1 ↔ j = 2 * c + 1 := by
      simp only [SS] at *
      omega
    have e₂ : j % SS = c * 2 % SS ↔ j = 2 * c := by
      simp only [SS] at *
      omega
    simp only [hs, if_true, stWord, Sector.set, e₁, e₂, h.byte hs]
  · have e₁ : j ≠ 2 * c + 1 := by
      simp only [SS] at *
      omega
    have e₂ : j ≠ 2 * c := fun he => hs (by rw [he])
    simp only [hs, if_false, e₁, e₂]

/-- A store of a FAT32 entry. -/
theorem FatMove.put32 {g : Geometry} {w w' : State} {c : Nat} (hi : 4 * c < g.fsize * SS)
    (h : FatMove g w (4 * c) .ok w') (v : Nat) {j : Nat} (hj : j < g.fsize * SS) :
    g.fatByte (State.logical { w' with win := stDword w'.win (c * 4 % SS) v, wflag := true }) j =
      Packed.set32 (g.fatByte w.logical) c v j := by
  rw [(h.store hi _).bytes j hj, Packed.set32]
  simp only [Packed.put]
  by_cases hs : j / SS = 4 * c / SS
  · have e : ∀ k < 4, j % SS = c * 4 % SS + k ↔ j = 4 * c + k := fun k hk => by
      simp only [SS] at *
      omega
    have e₀ : j % SS = c * 4 % SS ↔ j = 4 * c := e 0 (by omega)
    simp only [hs, if_true, stDword, Sector.set, e 1 (by omega), e 2 (by omega), e 3 (by omega),
      e₀, h.byte hs]
  · have e : ∀ k < 4, j ≠ 4 * c + k := fun k hk => by
      simp only [SS] at *
      omega
    have e₀ : j ≠ 4 * c := e 0 (by omega)
    simp only [hs, if_false, e 1 (by omega), e 2 (by omega), e 3 (by omega), e₀]

/-- The window on the sector of a FAT32 entry shows all of its 32 bits. -/
theorem FatMove.get32 {g : Geometry} {w w' : State} {c : Nat} (h : FatMove g w (4 * c) .ok w') :
    ldDword w'.win (c * 4 % SS) = Packed.get32 (g.fatByte w.logical) c := by
  have hk : ∀ k < 4, w'.win (c * 4 % SS + k) = g.fatByte w.logical (4 * c + k) := fun k hk => by
    have hdiv : (4 * c + k) / SS = 4 * c / SS := by simp only [SS]; omega
    have hmod : (4 * c + k) % SS = c * 4 % SS + k := by simp only [SS]; omega
    rw [← hmod, h.byte hdiv]
  have h₀ : w'.win (c * 4 % SS) = g.fatByte w.logical (4 * c) := hk 0 (by omega)
  simp only [ldDword, Packed.get32, h₀, hk 1 (by omega), hk 2 (by omega), hk 3 (by omega)]

/-- The window could not be moved to the entry: nothing is written. -/
theorem FatMove.failed {g : Geometry} {w w' : State} {i c v : Nat} {r : FRESULT}
    (hi : i < g.fsize * SS) (h : FatMove g w i r w') (hne : r ≠ .ok) : FatWrite g w c v r w' :=
  ⟨h.kept, h.inv, fun hf => (h.good hf).1, fun s _ hs => h.same s hs, fun hr => absurd hr hne,
    fun hr => absurd hr hne, fun hr => absurd hr hne,
    fun hf ho _ => (h.good hf).2 (Nat.lt_of_lt_of_le (Geometry.inFat_byte hi).2 ho)⟩

/-- A store that leaves the entry of `c` set to `v`. -/
theorem FatStore.wrote {g : Geometry} {w w₁ w' : State} {i c v : Nat} {t : Sector}
    (hm : FatMove g w i .ok w₁) (hs : FatStore g w i t w') (hc : g.IsClust c)
    (hb : ∀ j < g.fsize * SS, g.fatByte w'.logical j = g.setEntry (g.fatByte w.logical) c v j) :
    FatWrite g w c v .ok w' :=
  ⟨hs.kept, hs.inv, fun _ => hs.good, hs.frame, fun _ => hc,
    fun _ => Nat.lt_of_le_of_lt (Nat.le_add_right _ _) (hm.onDevice rfl), fun _ => hb,
    fun _ _ _ => rfl⟩

section
variable {g : Geometry} (hg : g.Sound) {w : State} (hw : Inv g w)

include hg hw

/-- `put_fat` on a FAT12 volume: the two bytes of the entry may lie in different sectors, and the
window moves twice. -/
theorem putFat_fat12 (hf : g.fsType = .fat12) {c : Nat} (hc : g.IsClust c) (v : Nat) :
    Returns (putFat c v) w (FatWrite g w c v) := by
  have hb := hg.byte12 hf hc.2
  have hb' : c + c / 2 < g.fsize * SS := by omega
  rw [putFat, returns_bind, returns_get, returns_ite, hw.geo]
  refine ⟨fun _ => ?_, fun hn => absurd ⟨hc.1, hc.2⟩ hn⟩
  simp only [hf, returns_bind, returns_ite, returns_pure]
  refine (moveFat hg hw hb').mono fun r w₁ h₁ => ⟨fun hne => h₁.failed hb' hne, fun hok => ?_⟩
  obtain rfl : r = .ok := by simpa using hok
  rw [returns_modWin]
  have hs₁ := h₁.store hb' (w₁.win.set ((c + c / 2) % SS)
    (fat12Lo c v (w₁.win ((c + c / 2) % SS))))
  have hput := fun j hj => h₁.put hb' (fat12Lo c v (w₁.win ((c + c / 2) % SS))) (j := j) hj
  have hlo : fat12Lo c v (w₁.win ((c + c / 2) % SS)) =
      Packed.lo12 c v (g.fatByte w.logical (c + c / 2)) := by
    rw [h₁.byte rfl]
    rfl
  refine (moveFat hg hs₁.inv hb).mono fun r w₂ h₂ => ⟨fun hne => ?_, fun hok₂ => ?_⟩
  · -- the first byte is in the window, or written
    have hfail : FatWrite g _ c v r w₂ := h₂.failed hb hne
    exact ⟨hs₁.kept.trans hfail.kept, hfail.inv, fun _ => hfail.good hs₁.good,
      fun s hs hs₂ => (hfail.frame s hs hs₂).trans (hs₁.frame s hs hs₂), fun hr => absurd hr hne,
      fun hr => absurd hr hne, fun hr => absurd hr hne, fun _ ho hcl =>
        hfail.full hs₁.good (by rw [Geometry.FatOn, hs₁.kept.sectors]; exact ho) hcl⟩
  · obtain rfl : r = .ok := by simpa using hok₂
    rw [returns_modWin]
    have hs₂ := h₂.store hb (w₂.win.set ((c + c / 2 + 1) % SS)
      (fat12Hi c v (w₂.win ((c + c / 2 + 1) % SS))))
    -- the second byte is as before the first store
    have hsnd := hput _ hb
    rw [Packed.put_of_ne (by omega)] at hsnd
    refine ⟨hs₁.kept.trans hs₂.kept, hs₂.inv, fun _ => hs₂.good, fun s h h' =>
      (hs₂.frame s h h').trans (hs₁.frame s h h'), fun _ => hc,
      fun _ => Nat.lt_of_le_of_lt (Nat.le_add_right _ _) (h₁.onDevice rfl), fun _ j hj => ?_,
      fun _ _ _ => rfl⟩
    rw [h₂.put hb _ hj, h₂.byte rfl, hsnd, Packed.put, hput j hj, hlo]
    simp only [Geometry.setEntry, hf, Packed.set12]
    rfl

/-- `put_fat` on a FAT16 volume. -/
theorem putFat_fat16 (hf : g.fsType = .fat16) {c : Nat} (hc : g.IsClust c) (v : Nat) :
    Returns (putFat c v) w (FatWrite g w c v) := by
  have hb := hg.byte16 hf hc.2
  have hb' : 2 * c < g.fsize * SS := by omega
  have hdiv : c / (SS / 2) = 2 * c / SS := by simp only [SS]; omega
  rw [putFat, returns_bind, returns_get, returns_ite, hw.geo]
  refine ⟨fun _ => ?_, fun hn => absurd ⟨hc.1, hc.2⟩ hn⟩
  simp only [hf, returns_bind, returns_ite, returns_pure, hdiv]
  refine (moveFat hg hw hb').mono fun r w₁ h₁ => ⟨fun hne => h₁.failed hb' hne, fun hok => ?_⟩
  obtain rfl : r = .ok := by simpa using hok
  rw [returns_modWin]
  refine FatStore.wrote h₁ (h₁.store hb' _) hc fun j hj => ?_
  rw [h₁.put16 hb' v hj]
  simp only [Geometry.setEntry, hf]

/-- `put_fat` on a FAT32 volume: the upper 4 bits of the entry are kept. -/
theorem putFat_fat32 (hf : g.fsType = .fat32) {c : Nat} (hc : g.IsClust c) (v : Nat) :
    Returns (putFat c v) w (FatWrite g w c v) := by
  have hb := hg.byte32 hf hc.2
  have hb' : 4 * c < g.fsize * SS := by omega
  have hdiv : c / (SS / 4) = 4 * c / SS := by simp only [SS]; omega
  rw [putFat, returns_bind, returns_get, returns_ite, hw.geo]
  refine ⟨fun _ => ?_, fun hn => absurd ⟨hc.1, hc.2⟩ hn⟩
  simp only [hf, returns_bind, returns_ite, returns_pure, hdiv]
  refine (moveFat hg hw hb').mono fun r w₁ h₁ => ⟨fun hne => h₁.failed hb' hne, fun hok => ?_⟩
  obtain rfl : r = .ok := by simpa using hok
  rw [returns_modWin]
  refine FatStore.wrote h₁ (h₁.store hb' _) hc fun j hj => ?_
  rw [h₁.put32 hb' _ hj, h₁.get32]
  simp only [Geometry.setEntry, hf, Packed.set28]

/-- What `put_fat` does from any state of a mounted volume, on any cluster number. -/
theorem putFat_inv (c v : Nat) : Returns (putFat c v) w (FatWrite g w c v) := by
  by_cases hc : g.IsClust c
  · cases hf : g.fsType with
    | none => exact absurd hf hg.fsType
    | fat12 => exact putFat_fat12 hg hw hf hc v
    | fat16 => exact putFat_fat16 hg hw hf hc v
    | fat32 => exact putFat_fat32 hg hw hf hc v
  · rw [putFat, returns_bind, returns_get, returns_ite, hw.geo]
    exact ⟨fun h => absurd ⟨h.1, h.2⟩ hc, fun _ => returns_pure.2 ⟨Kept.refl w, hw, id,
      fun _ _ _ => rfl, by simp, by simp, by simp, fun _ _ h => absurd h hc⟩⟩

end

end FatFs
