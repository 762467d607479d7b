import FatFs.Window.Invariant
import FatFs.Model.File

/-!
# Transfers around the window

`f_read` and `f_write` move whole sectors between the buffer and the device without the window, and
`f_write` re-points the window to a new sector at the end of a file without filling it. This module
states what these transfers do to the logical content: a direct read delivers it, a direct write
replaces it, and a write at the growing edge of a file is never seen with the foreign bytes, since
the store that follows in the same step makes the window dirty.
-/

namespace FatFs

open Run

/-- Logging a transfer keeps the invariant. -/
theorem Inv.note {g : Geometry} {w : State} (hw : Inv g w) (a : Access) : Inv g (w.note a) :=
  ⟨hw.geo, hw.reliable, hw.size, hw.coherent, hw.winsect, hw.fat, hw.info⟩

/-- The unsigned range test of the source for the window. -/
theorem sub32_lt_iff {a b n : Nat} (ha : a < W32) (hb : b + n ≤ W32) :
    sub32 a b < n ↔ b ≤ a ∧ a < b + n := by
  unfold sub32 W32 at *
  omega

theorem sub32_of_mem {a b n : Nat} (ha : a < W32) (hb : b + n ≤ W32) (h : sub32 a b < n) :
    sub32 a b = a - b := sub32_of_le ha ((sub32_lt_iff ha hb).1 h).1

/-- The bytes a direct read delivers are the logical content of the sectors. -/
theorem overlay_logical {w : State} {sect cc : Nat} (hw : w.winsect < W32) (hs : sect + cc ≤ W32) :
    overlay (fun k => w.disk.data (sect + k)) w.wflag w.win (sub32 w.winsect sect) cc =
      (List.range (SS * cc)).map fun i => w.logical (sect + i / SS) (i % SS) := by
  unfold overlay
  refine List.map_congr_left fun i hi => ?_
  have hi' : i / SS < cc := Nat.div_lt_of_lt_mul (List.mem_range.1 hi)
  have hiff := sub32_lt_iff hw hs
  unfold State.logical
  generalize i / SS = k at *
  by_cases hk : sub32 w.winsect sect < cc
  · have he := sub32_of_mem hw hs hk
    have hb := hiff.1 hk
    by_cases h : w.wflag = true ∧ sect + k = w.winsect
    · rw [if_pos ⟨h.1, hk, by omega⟩, if_pos h]
    · rw [if_neg fun h' => h ⟨h'.1, by omega⟩, if_neg h]
  · rw [if_neg fun h => hk h.2.1, if_neg fun h => hk (hiff.2 ⟨by omega, by omega⟩)]

/-- The logical content after a write that went around the window. -/
theorem logical_diskStore (w : State) (a : Access) (buff : Nat → Sector) (sect cc s : Nat) :
    ((w.note a).store buff sect cc).logical s =
      if w.wflag = true ∧ s = w.winsect then w.win
      else if sect ≤ s ∧ s < sect + cc then buff (s - sect) else w.disk.data s := rfl

section
variable {g : Geometry}

/-! ## Direct writes -/

/-- What the direct write of `cc` sectors at `sect` does. -/
structure DirectWrite (g : Geometry) (w : State) (buff : List UInt8) (sect cc : Nat) (r : DRESULT)
    (w' : State) : Prop where
  kept : Kept w w'
  inv : Inv g w'
  good : w.Flushable → w'.Flushable
  logical : r = .ok → ∀ s, w'.logical s =
    if sect ≤ s ∧ s < sect + cc then Sector.ofList (buff.drop (SS * (s - sect))) else w.logical s
  fail : r ≠ .ok → w'.logical = w.logical
  full : sect + cc ≤ w.disk.sectors → r = .ok

/-- A direct write to an area changes no sector outside it. -/
theorem DirectWrite.outside {w w' : State} {buff : List UInt8} {sect cc : Nat} {r : DRESULT}
    (h : DirectWrite g w buff sect cc r w') {A : Nat → Prop} (hA : ∀ k < cc, A (sect + k)) {s : Nat}
    (hs : ¬A s) : w'.logical s = w.logical s := by
  by_cases hr : r = .ok
  · rw [h.logical hr, if_neg fun hin => ?_]
    have hin' := hA (s - sect) (by omega)
    rw [Nat.add_sub_cancel' hin.1] at hin'
    exact hs hin'
  · rw [h.fail hr]

theorem writeDirect_inv {w : State} (hw : Inv g w) (buff : List UInt8) {sect cc : Nat}
    (hcc : 0 < cc) (hs : sect + cc ≤ W32) :
    Returns (writeDirect buff sect cc) w (DirectWrite g w buff sect cc) := by
  have hserves : w.disk.serves sect cc = true ↔ sect + cc ≤ w.disk.sectors := by
    rw [hw.reliable.serves, Disk.inBounds_iff]
    omega
  have hiff := sub32_lt_iff hw.winsect hs
  rw [writeDirect, returns_bind, returns_diskWrite]
  simp only [hserves, returns_ite, returns_bind, returns_modify, returns_pure]
  refine ⟨fun hon => ⟨fun _ => ?_, by simp⟩, fun hoff => ⟨fun h => ?_, fun hne => ?_⟩⟩
  · split
    · -- the window is in the range: it is refilled and clean
      rename_i hin'
      have hin : sub32 w.winsect sect < cc := hin'
      have hb := hiff.1 hin
      have he := sub32_of_mem hw.winsect hs hin
      refine ⟨⟨rfl, rfl, rfl, rfl, rfl, rfl, rfl, rfl, rfl, rfl⟩, ⟨hw.geo, hw.reliable, hw.size,
        fun _ _ => ?_, hw.winsect, hw.fat, hw.info⟩, fun _ h => (by cases h), fun _ s => ?_,
        fun h => absurd rfl h, fun _ => rfl⟩
      · simp only [State.store_data, State.store_winsect, State.note_winsect, if_pos hb, he]
      · rw [logical_of_clean rfl, State.store_data]
        split
        · rfl
        · have hne : s ≠ w.winsect := fun h => by omega
          rw [logical_of_ne hne]
          rfl
    · rename_i hout
      have hb : ¬(sect ≤ w.winsect ∧ w.winsect < sect + cc) := fun h => hout (hiff.2 h)
      refine ⟨⟨rfl, rfl, rfl, rfl, rfl, rfl, rfl, rfl, rfl, rfl⟩, ⟨hw.geo, hw.reliable, hw.size,
        fun hc hlt => ?_, hw.winsect, hw.fat, hw.info⟩, fun h => h, fun _ s => ?_,
        fun h => absurd rfl h, fun _ => rfl⟩
      · simp only [State.store_data, State.store_winsect, State.note_winsect, if_neg hb]
        exact hw.coherent hc hlt
      · rw [logical_diskStore]
        by_cases hs' : sect ≤ s ∧ s < sect + cc
        · rw [if_pos hs', if_pos hs', if_neg (by rintro ⟨_, rfl⟩; exact hb hs')]
        · rw [if_neg hs', if_neg hs']
          rfl
  · split at h <;> cases h
  · exact ⟨⟨rfl, rfl, rfl, rfl, rfl, rfl, rfl, rfl, rfl, rfl⟩, hw.note _, fun h => h,
      fun h => absurd h hne, fun _ => rfl, fun h => absurd h hoff⟩

/-! ## Stores to a sector through the window -/

/-- The state after the bytes `bs` were stored at the offset `o` of the sector `sect` through the
window. The other bytes of the sector are kept if `keep` holds. -/
structure Patched (g : Geometry) (w : State) (sect o : Nat) (bs : List UInt8) (keep : Prop)
    (w' : State) : Prop where
  kept : Kept w w'
  inv : Inv g w'
  good : sect < w.disk.sectors → w'.Flushable
  frame : ∀ s, ¬g.InFat2 s → s ≠ sect → w'.logical s = w.logical s
  bytes : ∀ i, o ≤ i → i < o + bs.length → w'.logical sect i = bs.getD (i - o) 0
  rest : keep → ∀ i, (i < o ∨ o + bs.length ≤ i) → w'.logical sect i = w.logical sect i

section
variable (hg : g.Sound)

include hg

omit hg in
/-- A store through the window after it was moved to the sector. -/
theorem MoveInv.patched {w w₁ : State} {sect o : Nat} (h : MoveInv g w sect .ok w₁)
    (bs : List UInt8) :
    Patched g w sect o bs (sect < w.disk.sectors ∧ ¬g.InFat2 sect)
      { w₁ with win := w₁.win.copy o bs, wflag := true } := by
  have hws : w₁.winsect = sect := h.winsect rfl
  have hsect : ∀ i, State.logical { w₁ with win := w₁.win.copy o bs, wflag := true } sect i =
      w₁.win.copy o bs i := fun i => by rw [logical_store, if_pos hws.symm]
  refine ⟨⟨h.kept.geo, h.kept.fsiFlag, h.kept.lastClst, h.kept.freeClst, h.kept.registered,
    h.kept.fsid, h.kept.charSigned, h.kept.sectors, h.kept.blockSize, h.kept.fault⟩,
    h.inv.store _, fun hon _ => ?_, fun s hs hne => ?_, fun i h₁ h₂ => ?_, fun hkeep i hi => ?_⟩
  · change w₁.winsect < w₁.disk.sectors
    rw [hws, h.kept.sectors]
    exact hon
  · rw [logical_store, if_neg (by rw [hws]; exact hne), h.same s hs]
  · rw [hsect, Sector.copy, if_pos ⟨h₁, h₂⟩]
  · rw [hsect, Sector.copy, if_neg (by omega), h.win rfl hkeep.1, h.same _ hkeep.2]

/-- The outcome of `writeWindow` from a state with the invariant. -/
theorem writeWindow_inv {w : State} (hw : Inv g w) (fp : FIL) (buff : List UInt8) (bw : Nat) :
    Returns (writeWindow fp buff bw) w fun r w' =>
      (r = .inr (.diskErr, fp.abort .diskErr, bw) ∧ Inv g w' ∧
        (w.Flushable → ¬fp.sect < w.disk.sectors)) ∨
      (r = .inl (fp.advance (min (SS - fp.fptr % SS) buff.length),
          buff.drop (min (SS - fp.fptr % SS) buff.length),
          bw + min (SS - fp.fptr % SS) buff.length) ∧
        Patched g w fp.sect (fp.fptr % SS) (buff.take (min (SS - fp.fptr % SS) buff.length))
          (fp.sect < w.disk.sectors ∧ ¬g.InFat2 fp.sect) w') := by
  rw [writeWindow, returns_bind]
  refine (moveWindow_inv hg hw _).mono fun r w₁ h₁ => ?_
  simp only [returns_ite, returns_pure, returns_bind, returns_modWin]
  refine ⟨fun hne => .inl ⟨trivial, h₁.inv, fun hf hon => hne ((h₁.good hf).2 hon)⟩,
    fun hok => .inr ⟨trivial, ?_⟩⟩
  obtain rfl : r = .ok := by simpa using hok
  exact h₁.patched _

/-- The growing edge: the flush may fail, else the window is re-pointed and the store makes it
dirty at once. -/
theorem growEdge_inv {w : State} (hw : Inv g w) (fp : FIL) {sect : Nat} (hs : g.InArea sect)
    (buff : List UInt8) (bw : Nat) :
    Returns (do
        if (← growEdge fp sect) ≠ .ok then
          return .inr (.diskErr, fp.abort .diskErr, bw)
        else writeWindow { fp with sect := sect } buff bw) w fun r w' =>
      ((∃ fp', r = .inr (.diskErr, fp', bw)) ∧ Inv g w' ∧ (w.Flushable → ¬sect < w.disk.sectors)) ∨
      (r = .inl (FIL.advance { fp with sect := sect } (min (SS - fp.fptr % SS) buff.length),
          buff.drop (min (SS - fp.fptr % SS) buff.length),
          bw + min (SS - fp.fptr % SS) buff.length) ∧
        Patched g w sect (fp.fptr % SS) (buff.take (min (SS - fp.fptr % SS) buff.length))
          (fp.fptr < fp.objsize ∧ sect < w.disk.sectors) w') := by
  rw [growEdge]
  simp only [returns_bind, returns_ite]
  refine ⟨fun hedge => ?_, fun hno => ?_⟩
  · refine (syncWindow_inv hg hw).mono fun r w₁ h₁ => ?_
    simp only [returns_pure, returns_modify]
    refine ⟨fun hne => ⟨fun _ => .inl ⟨⟨_, rfl⟩, h₁.inv, fun hf => absurd (h₁.good hf) hne⟩,
      fun h => absurd trivial (by simp at h)⟩, fun hok => ⟨by simp, fun _ => ?_⟩⟩
    -- the window is on the sector already, so the move does nothing
    rw [writeWindow, moveWindow]
    simp only [returns_bind, returns_get, returns_ite, returns_pure, returns_modWin]
    refine ⟨fun hne => absurd rfl hne, fun _ => ⟨by simp, fun _ => .inr ⟨trivial, ?_⟩⟩⟩
    obtain rfl : r = .ok := by simpa using hok
    have hk := h₁.kept
    generalize hbs : buff.take (min (SS - fp.fptr % SS) buff.length) = bs
    have hlog : ∀ s, State.logical
        { w₁ with winsect := sect, win := w₁.win.copy (fp.fptr % SS) bs, wflag := true } s =
        if s = sect then w₁.win.copy (fp.fptr % SS) bs else w₁.disk.data s := fun s => by
      simp [State.logical]
    refine ⟨⟨hk.geo, hk.fsiFlag, hk.lastClst, hk.freeClst, hk.registered, hk.fsid, hk.charSigned,
      hk.sectors, hk.blockSize, hk.fault⟩, ⟨h₁.inv.geo, h₁.inv.reliable, h₁.inv.size,
      fun h => (by cases h), hg.inArea_lt hs, fun hf => absurd hs (hg.not_inArea_of_inFat hf),
      h₁.inv.info⟩, fun hon _ => ?_, fun s hs' hne => ?_, fun i h₂ h₃ => ?_, fun h => ?_⟩
    · change sect < w₁.disk.sectors
      rw [hk.sectors]
      exact hon
    · rw [hlog, if_neg hne, ← logical_of_clean (h₁.clean rfl), h₁.same s hs']
    · rw [hlog, if_pos rfl, Sector.copy, if_pos ⟨h₂, h₃⟩]
    · have := h.1
      omega
  · simp only [returns_pure]
    refine ⟨by simp, fun _ => (writeWindow_inv hg hw _ _ _).mono fun r w' h => ?_⟩
    rcases h with ⟨hr, h₁, h₂⟩ | ⟨hr, h⟩
    · exact .inl ⟨⟨_, hr⟩, h₁, h₂⟩
    · exact .inr ⟨hr, h.kept, h.inv, h.good, h.frame, h.bytes, fun hk =>
        h.rest ⟨hk.2, hs.not_inFat2⟩⟩

end

end

end FatFs
