import FatFs.Model.Mount
import FatFs.Window.Basic
import Mathlib.Data.Nat.Bitwise
import Mathlib.Tactic.Ring

/-!
# Sound geometries

`Geometry.Sound` is the layout of a volume as the format intends it: the FAT copies, the static root
directory and the data area follow one another after the reserved area, below sector `2 ^ 32`, and
the FAT has room for every entry. This module proves what it gives: where the sectors of FAT entries
and of clusters are, and that the areas do not meet.
-/

namespace FatFs

namespace Geometry

/-- The largest number of FAT entries of a sub-type. -/
def maxEntries : FsType → Nat
  | .none => 0
  | .fat12 => MAX_FAT12 + 2
  | .fat16 => MAX_FAT16 + 2
  | .fat32 => MAX_FAT32 + 2

/-- The bytes that the FAT entries of a volume need. -/
def fatBytes (g : Geometry) : Nat :=
  match g.fsType with
  | .none => 0
  | .fat12 => g.nFatent * 3 / 2 + g.nFatent % 2
  | .fat16 => g.nFatent * 2
  | .fat32 => g.nFatent * 4

/-- The areas of the volume do not overlap and do not wrap, and the FAT holds every entry. -/
structure Sound (g : Geometry) : Prop where
  fsType : g.fsType ≠ .none
  nFats : g.nFats = 1 ∨ g.nFats = 2
  csize : ∃ k ≤ 7, g.csize = 2 ^ k
  entries : 3 ≤ g.nFatent
  limit : g.nFatent ≤ maxEntries g.fsType
  fatSize : g.fatBytes ≤ g.fsize * SS
  rootSize : g.nRootdir % 16 = 0
  rootType : g.fsType = .fat32 ↔ g.nRootdir = 0
  volbase : g.volbase < g.fatbase
  dirbase : g.fsType ≠ .fat32 → g.dirbase = g.fatbase + g.nFats * g.fsize
  database : g.database = g.fatbase + g.nFats * g.fsize + g.nRootdir / 16
  top : g.database + g.csize * (g.nFatent - 2) ≤ W32

/-- A valid cluster number. -/
def IsClust (g : Geometry) (c : Nat) : Prop := 2 ≤ c ∧ c < g.nFatent

/-- A sector of the first FAT. -/
def InFat (g : Geometry) (s : Nat) : Prop := g.fatbase ≤ s ∧ s < g.fatbase + g.fsize

/-- A sector of the root directory area or the data area. -/
def InArea (g : Geometry) (s : Nat) : Prop :=
  g.fatbase + g.nFats * g.fsize ≤ s ∧ s < g.database + g.csize * (g.nFatent - 2)

/-- The end of the volume: the first sector after the data area. -/
def volEnd (g : Geometry) : Nat := g.database + g.csize * (g.nFatent - 2)

namespace Sound

variable {g : Geometry} (h : g.Sound)

include h

/-- A cluster has a sector. -/
theorem csize_pos : 0 < g.csize := by
  obtain ⟨k, _, hk⟩ := h.csize
  rw [hk]
  exact Nat.two_pow_pos k

/-- The mask of the cluster size is the remainder. -/
theorem and_csize (n : Nat) : n &&& (g.csize - 1) = n % g.csize := by
  obtain ⟨k, _, hk⟩ := h.csize
  rw [hk, Nat.and_two_pow_sub_one_eq_mod]

/-- The mask of the cluster size in bytes is the remainder. -/
theorem and_bcs (n : Nat) : n &&& (g.csize * SS - 1) = n % (g.csize * SS) := by
  obtain ⟨k, _, hk⟩ := h.csize
  have : g.csize * SS = 2 ^ (k + 9) := by
    rw [hk, pow_add]
    rfl
  rw [this, Nat.and_two_pow_sub_one_eq_mod]

/-- The number of clusters is that of a FAT32 volume at most. -/
theorem nFatent_le : g.nFatent ≤ MAX_FAT32 + 2 := by
  have := h.limit
  cases hf : g.fsType <;> rw [hf] at this <;>
    simp only [maxEntries, MAX_FAT12, MAX_FAT16, MAX_FAT32] at this ⊢ <;> omega

/-- No entry number is `0xFFFFFFFF`. -/
theorem nFatent_lt : g.nFatent < DISKERR := by
  have := h.nFatent_le
  unfold DISKERR MAX_FAT32 at *
  omega

/-- The FAT has a sector. -/
theorem fsize_pos : 0 < g.fsize := by
  have h₁ := h.fatSize
  have h₂ := h.entries
  have h₃ := h.fsType
  unfold fatBytes at h₁
  rcases Nat.eq_zero_or_pos g.fsize with h0 | h0
  · rw [h0, Nat.zero_mul] at h₁
    cases hf : g.fsType <;> simp only [hf] at h₁ h₃
    · exact absurd rfl h₃
    all_goals omega
  · exact h0

omit h in
/-- A cluster ends inside the data area. -/
theorem data_lt {n : Nat} (hn : n < g.nFatent - 2) :
    g.csize * n + g.csize ≤ g.csize * (g.nFatent - 2) := by
  have : g.csize * (n + 1) ≤ g.csize * (g.nFatent - 2) := Nat.mul_le_mul_left _ hn
  rwa [Nat.mul_succ] at this

/-- The sectors of a cluster, without wrap-around. -/
theorem clst2sect_eq {c : Nat} (hc : g.IsClust c) :
    clst2sect g c = g.database + g.csize * (c - 2) := by
  obtain ⟨h2, hn⟩ := hc
  have hl := h.nFatent_lt
  have hd := data_lt (g := g) (n := c - 2) (by omega)
  have ht := h.top
  have hp := h.csize_pos
  have he := h.entries
  simp only [DISKERR] at hl
  have hs : sub32 c 2 = c - 2 := sub32_of_le (by simp only [W32]; omega) h2
  have hs' : sub32 g.nFatent 2 = g.nFatent - 2 :=
    sub32_of_le (by simp only [W32]; omega) (by omega)
  rw [clst2sect, hs, hs', if_neg (by omega), add32_of_lt (by omega)]

/-- Every other number is refused. -/
theorem clst2sect_eq_zero {c : Nat} (hc : ¬g.IsClust c) (hlt : c < W32) : clst2sect g c = 0 := by
  have hl := h.nFatent_lt
  have he := h.entries
  simp only [DISKERR] at hl
  have hs' : sub32 g.nFatent 2 = g.nFatent - 2 :=
    sub32_of_le (by simp only [W32]; omega) (by omega)
  rw [clst2sect, hs', if_pos]
  unfold IsClust at hc
  by_cases h2 : 2 ≤ c
  · rw [sub32_of_le hlt h2]
    omega
  · simp only [sub32, W32]
    omega

/-- The area behind the FATs does not begin at sector 0. -/
theorem area_pos : 0 < g.fatbase + g.nFats * g.fsize := by
  have := h.volbase
  omega

/-- The sectors of a valid cluster are in the data area. -/
theorem inArea_clst {c k : Nat} (hc : g.IsClust c) (hk : k < g.csize) :
    g.InArea (clst2sect g c + k) := by
  have hd := data_lt (g := g) (n := c - 2) (by have := hc.1; have := hc.2; omega)
  have hb := h.database
  rw [h.clst2sect_eq hc]
  unfold InArea
  omega

/-- No cluster begins at sector 0. -/
theorem clst2sect_pos {c : Nat} (hc : g.IsClust c) : clst2sect g c ≠ 0 := by
  have := h.inArea_clst hc h.csize_pos
  have := h.area_pos
  unfold InArea at *
  omega

/-- Two sectors of clusters are equal only if the clusters and the offsets are. -/
theorem clst2sect_inj {c d i j : Nat} (hc : g.IsClust c) (hd : g.IsClust d) (hi : i < g.csize)
    (hj : j < g.csize) (he : clst2sect g c + i = clst2sect g d + j) : c = d ∧ i = j := by
  rw [h.clst2sect_eq hc, h.clst2sect_eq hd] at he
  have hq : ∀ n k, k < g.csize → (g.csize * n + k) / g.csize = n := fun n k hk => by
    rw [Nat.mul_add_div h.csize_pos, Nat.div_eq_of_lt hk, Nat.add_zero]
  have e : g.csize * (c - 2) + i = g.csize * (d - 2) + j := by omega
  have e₂ : c - 2 = d - 2 := by rw [← hq (c - 2) i hi, ← hq (d - 2) j hj, e]
  rw [e₂] at e
  have := hc.1
  have := hd.1
  omega

/-- The areas do not meet: the first FAT and the second FAT, the root directory and the data. -/
theorem not_inArea_of_inFat {s : Nat} (hs : g.InFat s) : ¬g.InArea s := by
  unfold InFat InArea at *
  rcases h.nFats with hn | hn <;> rw [hn] <;> omega

/-- What is behind the FATs is not in the first one. -/
theorem not_inFat_of_ge {s : Nat} (hs : g.fatbase + g.nFats * g.fsize ≤ s) : ¬g.InFat s := by
  unfold InFat
  rcases h.nFats with hn | hn <;> rw [hn] at hs <;> omega

/-- The FAT is in front of the data area. -/
theorem inFat_lt {s : Nat} (hs : g.InFat s) : s < g.database := by
  have := h.database
  unfold InFat at *
  rcases h.nFats with hn | hn <;> rw [hn] at this <;> omega

/-- The sectors of the data area have 32-bit numbers. -/
theorem inArea_lt {s : Nat} (hs : g.InArea s) : s < W32 := by
  have := h.top
  unfold InArea at *
  omega

/-- The data area begins at a 32-bit sector number. -/
theorem database_lt : g.database < W32 := by
  have h₁ := h.top
  have h₂ := h.csize_pos
  have h₃ := h.entries
  have : 0 < g.csize * (g.nFatent - 2) := Nat.mul_pos h₂ (by omega)
  omega

/-- A sector that the source finds in the first FAT by an unsigned range test is in it. -/
theorem inFat_of_sub32 {s : Nat} (hs : s < W32) (ht : sub32 s g.fatbase < g.fsize) :
    g.InFat s := by
  have hd := h.database_lt
  have hb := h.database
  have hn : g.nFats * g.fsize ≥ g.fsize := by rcases h.nFats with hn | hn <;> rw [hn] <;> omega
  unfold InFat
  unfold sub32 W32 at *
  omega

/-- The test of `sync_window` for a sector of the FAT. -/
theorem sub32_of_inFat {s : Nat} (hs : g.InFat s) : sub32 s g.fatbase < g.fsize := by
  have hd := h.database_lt
  have hl := h.inFat_lt hs
  rw [sub32_of_le (by omega) hs.1]
  unfold InFat at hs
  omega

end Sound

end Geometry

end FatFs
