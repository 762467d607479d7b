import FatFs.Mount.Geometry

/-!
# The window invariant

`Inv g w` is what every function keeps while a volume with the sound geometry `g` is mounted on a
reliable device, whatever the image on it: a clean window on the device holds the device sector, and
a window on the first FAT is on the device. The device may be smaller than the volume, so the window
can be outside the device, but never on a FAT sector.

`Same g w w'` says that the logical contents agree outside the second FAT, which a flush rewrites.
-/

namespace FatFs

open Run

/-- A sector of the second FAT. -/
def Geometry.InFat2 (g : Geometry) (s : Nat) : Prop :=
  g.nFats = 2 ∧ g.fatbase + g.fsize ≤ s ∧ s < g.fatbase + g.nFats * g.fsize

/-- The window invariant of a mounted volume. -/
structure Inv (g : Geometry) (w : State) : Prop where
  geo : w.geo = g
  reliable : w.disk.Reliable
  /-- The device is addressable. -/
  size : w.disk.sectors < W32
  coherent : w.Coherent
  winsect : w.winsect < W32
  /-- A window on the first FAT is on the device. -/
  fat : g.InFat w.winsect → w.winsect < w.disk.sectors
  /-- The allocation information is to be written only after a FAT access succeeded. -/
  info : w.fsiFlag = 1 → g.fatbase < w.disk.sectors

/-- The logical contents agree outside the second FAT. -/
def Same (g : Geometry) (w w' : State) : Prop :=
  ∀ s, ¬g.InFat2 s → w'.logical s = w.logical s

/-- Nothing is changed when nothing is done. -/
theorem Same.refl (g : Geometry) (w : State) : Same g w w := fun _ _ => rfl

/-- Two steps that change nothing but the second FAT. -/
theorem Same.trans {g : Geometry} {w₁ w₂ w₃ : State} (h : Same g w₁ w₂) (h' : Same g w₂ w₃) :
    Same g w₁ w₃ := fun s hs => (h' s hs).trans (h s hs)

/-- A dirty window can be written back. -/
def State.Flushable (w : State) : Prop := w.wflag = true → w.winsect < w.disk.sectors

/-- The window holds the logical content of its sector, if that is on the device. -/
theorem State.Coherent.win {w : State} (h : w.Coherent) (hs : w.winsect < w.disk.sectors) :
    w.win = w.logical w.winsect := by
  cases hd : w.wflag with
  | true => exact (logical_dirty hd).symm
  | false => rw [logical_of_clean hd, h hd hs]

/-- The first FAT is not the second one. -/
theorem Geometry.InFat.not_inFat2 {g : Geometry} {s : Nat} (hs : g.InFat s) : ¬g.InFat2 s := by
  intro h
  have := h.2.1
  have := hs.2
  omega

/-- The data area is behind the FATs. -/
theorem Geometry.InArea.not_inFat2 {g : Geometry} {s : Nat} (hs : g.InArea s) : ¬g.InFat2 s := by
  intro h
  have := h.2.2
  have := hs.1
  omega

section
variable {g : Geometry} (hg : g.Sound)

include hg

/-- The number of an invalid window is no FAT sector. -/
theorem Geometry.Sound.not_inFat_invalid : ¬g.InFat 0xFFFFFFFF := by
  intro h
  have h₁ := hg.inFat_lt h
  have h₂ := hg.database_lt
  simp only [W32] at h₂
  omega

/-- The sector a flush reflects the window to is in the second FAT. -/
theorem Geometry.Sound.inFat2_of_mirrors {w : State} (hw : w.geo = g) (hlt : w.winsect < W32)
    {s : Nat} (h : w.Mirrors s) : g.InFat2 s := by
  obtain ⟨_, hn, hsub, rfl⟩ := h
  rw [hw] at hn hsub ⊢
  have hfat := hg.inFat_of_sub32 hlt hsub
  have hdb := hg.database
  have hdl := hg.database_lt
  unfold Geometry.InFat at hfat
  rw [hn] at hdb
  rw [add32_of_lt (by omega)]
  refine ⟨hn, by omega, ?_⟩
  rw [hn]
  omega

/-- Flushing keeps the logical content outside the second FAT. -/
theorem Flushed.same {w w' : State} (hf : Flushed w w') (hw : w.geo = g) (hlt : w.winsect < W32)
    (hc : w'.wflag = false) : Same g w w' := by
  intro s hs
  rw [logical_of_clean hc]
  rcases hf s with h | ⟨hm, _⟩
  · exact h
  · exact absurd (hg.inFat2_of_mirrors hw hlt hm) hs

/-- What `sync_window` does to a mounted volume. -/
structure SyncInv (g : Geometry) (w : State) (r : FRESULT) (w' : State) : Prop where
  kept : Kept w w'
  inv : Inv g w'
  same : Same g w w'
  winsect : w'.winsect = w.winsect
  win : w'.win = w.win
  res : r = .ok ∨ r = .diskErr
  clean : r = .ok → w'.wflag = false
  good : w.Flushable → r = .ok

/-- `sync_window` keeps the window invariant, whatever the device answers. -/
theorem syncWindow_inv {w : State} (hw : Inv g w) : Returns syncWindow w (SyncInv g w) := by
  refine (syncWindow_spec w).mono fun r w' h => ?_
  obtain ⟨hk, hws, hwin, hout⟩ := h
  have hinv : w'.Coherent → Inv g w' := fun hco =>
    { geo := hk.geo.trans hw.geo
      reliable := hk.reliable hw.reliable
      size := by rw [hk.sectors]; exact hw.size
      coherent := hco
      winsect := by rw [hws]; exact hw.winsect
      fat := by rw [hws, hk.sectors]; exact hw.fat
      info := by rw [hk.fsiFlag, hk.sectors]; exact hw.info }
  rcases hout with ⟨rfl, hc, hf, hlt⟩ | ⟨rfl, hd, hd', hdata, hrel⟩
  · have hsame := hf.same hg hw.geo hw.winsect hc
    refine ⟨hk, hinv fun _ hon => ?_, hsame, hws, hwin, .inl rfl, fun _ => hc, fun _ => rfl⟩
    -- the flushed window holds what was written
    rw [hws, hk.sectors] at hon
    rw [hwin, hws, ← logical_of_clean hc]
    by_cases hfat : g.InFat2 w.winsect
    · rcases hf w.winsect with h | ⟨_, h⟩
      · rw [logical_of_clean hc, h, ← hw.coherent.win hon]
      · rw [logical_of_clean hc, h]
    · rw [hsame _ hfat, ← hw.coherent.win hon]
  · have hco : w'.Coherent := fun hc => absurd hd' (by simp [hc])
    refine ⟨hk, hinv hco, fun s _ => ?_, hws, hwin, .inr rfl, by simp, fun hfl => ?_⟩
    · simp only [State.logical, hd, hd', hws, hwin, hdata]
    · have := hrel hw.reliable
      have := hfl hd
      omega

/-- What `move_window` does to a mounted volume. -/
structure MoveInv (g : Geometry) (w : State) (s : Nat) (r : FRESULT) (w' : State) : Prop where
  kept : Kept w w'
  inv : Inv g w'
  same : Same g w w'
  res : r = .ok ∨ r = .diskErr
  winsect : r = .ok → w'.winsect = s
  win : r = .ok → s < w.disk.sectors → w'.win = w'.logical s
  good : w.Flushable → w'.Flushable ∧ (s < w.disk.sectors → r = .ok)

/-- `move_window` keeps the window invariant, whatever the sector. -/
theorem moveWindow_inv {w : State} (hw : Inv g w) (s : Nat) :
    Returns (moveWindow s) w (MoveInv g w s) := by
  refine (moveWindow_spec w s).mono fun r w' h => ?_
  cases h with
  | same hs =>
    subst hs
    exact ⟨Kept.refl w, hw, Same.refl g w, .inl rfl, fun _ => rfl, fun _ h => hw.coherent.win h,
      fun hfl => ⟨hfl, fun _ => rfl⟩⟩
  | moved hk hne hc hws hwin hlt hf =>
    have hsize := hw.size
    have hinv : Inv g w' :=
      { geo := hk.geo.trans hw.geo
        reliable := hk.reliable hw.reliable
        size := by rw [hk.sectors]; exact hw.size
        coherent := fun _ _ => by rw [hwin, hws]
        winsect := by omega
        fat := fun _ => by rw [hws, hk.sectors]; exact hlt
        info := by rw [hk.fsiFlag, hk.sectors]; exact hw.info }
    exact ⟨hk, hinv, hf.same hg hw.geo hw.winsect hc, .inl rfl, fun _ => hws,
      fun _ _ => by rw [hwin, logical_of_clean hc],
      fun _ => ⟨fun hd => absurd hd (by simp [hc]), fun _ => rfl⟩⟩
  | stuck hk hne hd hd' hws hwin hdata hrel =>
    have hge := hrel hw.reliable
    have hinv : Inv g w' :=
      { geo := hk.geo.trans hw.geo
        reliable := hk.reliable hw.reliable
        size := by rw [hk.sectors]; exact hw.size
        coherent := fun hc => by rw [hc] at hd'; cases hd'
        winsect := by rw [hws]; exact hw.winsect
        fat := by rw [hws, hk.sectors]; exact hw.fat
        info := by rw [hk.fsiFlag, hk.sectors]; exact hw.info }
    refine ⟨hk, hinv, fun t _ => ?_, .inr rfl, by simp, by simp, fun hfl => ?_⟩
    · simp only [State.logical, hd, hd', hws, hwin, hdata]
    · have := hfl hd
      omega
  | lost hk hne hc hws hwin hf hrel =>
    have hge := hrel hw.reliable
    have hsize := hw.size
    have hinv : Inv g w' :=
      { geo := hk.geo.trans hw.geo
        reliable := hk.reliable hw.reliable
        size := by rw [hk.sectors]; exact hw.size
        coherent := fun _ hon => by rw [hws, hk.sectors] at hon; simp only [W32] at hsize; omega
        winsect := by rw [hws]; decide
        fat := fun hfat => by rw [hws] at hfat; exact absurd hfat hg.not_inFat_invalid
        info := by rw [hk.fsiFlag, hk.sectors]; exact hw.info }
    exact ⟨hk, hinv, hf.same hg hw.geo hw.winsect hc, .inr rfl, by simp, by simp,
      fun _ => ⟨fun hd => absurd hd (by simp [hc]), by omega⟩⟩

end

/-! ## Stores to the window -/

/-- The logical content after a store to the window. -/
theorem logical_store (w : State) (t : Sector) (s : Nat) :
    State.logical { w with win := t, wflag := true } s =
      if s = w.winsect then t else w.logical s := by
  by_cases h : s = w.winsect
  · simp [State.logical, h]
  · simp [State.logical, h]

/-- A store in the window keeps the window invariant. -/
theorem Inv.store {g : Geometry} {w : State} (hw : Inv g w) (t : Sector) :
    Inv g { w with win := t, wflag := true } :=
  { geo := hw.geo
    reliable := hw.reliable
    size := hw.size
    coherent := fun h => by cases h
    winsect := hw.winsect
    fat := hw.fat
    info := hw.info }

/-- A change of the window marks it as dirty. -/
theorem returns_modWin {w : State} {f : Sector → Sector} {Q : PUnit → State → Prop} :
    Returns (modWin f) w Q ↔ Q ⟨⟩ { w with win := f w.win, wflag := true } := returns_modify

end FatFs
