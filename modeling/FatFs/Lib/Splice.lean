import Mathlib.Data.List.Basic
import Mathlib.Tactic.Common

/-!
# Overwriting a part of an array

`splice l p x` is the array `l` with `x` stored from the place `p` on; what `x` has beyond the end
of `l` extends it. Stores that continue one another are one store (`splice_splice`), and what was
stored is read back (`splice_read`).
-/

namespace Splice

section
variable {α : Type} {l x y : List α} {p : Nat}

/-- The array `l` with `x` stored from the place `p` on. -/
def splice (l : List α) (p : Nat) (x : List α) : List α :=
  l.take p ++ x ++ l.drop (p + x.length)

@[simp] theorem splice_nil : splice l p [] = l := by
  simp [splice]

theorem splice_length (h : p ≤ l.length) : (splice l p x).length = max l.length (p + x.length) := by
  simp only [splice, List.length_append, List.length_take, List.length_drop]
  omega

/-- A place inside the store holds the element stored, every other place what it held before. -/
theorem getElem?_splice (h : p ≤ l.length) (k : Nat) :
    (splice l p x)[k]? = if p ≤ k ∧ k < p + x.length then x[k - p]? else l[k]? := by
  have ht : (l.take p).length = p := by rw [List.length_take]; omega
  unfold splice
  rcases Nat.lt_or_ge k p with hk | hk
  · rw [if_neg (by omega), List.append_assoc, List.getElem?_append_left (by omega),
      List.getElem?_take_of_lt hk]
  · rcases Nat.lt_or_ge k (p + x.length) with hx | hx
    · rw [if_pos ⟨hk, hx⟩, List.append_assoc, List.getElem?_append_right (by omega), ht,
        List.getElem?_append_left (by omega)]
    · rw [if_neg (by omega), List.getElem?_append_right (by rw [List.length_append]; omega),
        List.length_append, ht, List.getElem?_drop]
      congr 1
      omega

/-- A store that continues the one before is one store with it. -/
theorem splice_splice (h : p ≤ l.length) :
    splice (splice l p x) (p + x.length) y = splice l p (x ++ y) := by
  have hlen : p + x.length ≤ (splice l p x).length := by
    rw [splice_length h]
    omega
  refine List.ext_getElem? fun k => ?_
  rw [getElem?_splice hlen, getElem?_splice h, getElem?_splice h, List.length_append]
  by_cases hy : p + x.length ≤ k ∧ k < p + x.length + y.length
  · rw [if_pos hy, if_pos (by omega), List.getElem?_append_right (by omega)]
    congr 1
    omega
  · rw [if_neg hy]
    by_cases hx : p ≤ k ∧ k < p + x.length
    · rw [if_pos hx, if_pos (by omega), List.getElem?_append_left (by omega)]
    · rw [if_neg hx, if_neg (by omega)]

/-- What was stored is read back. -/
theorem splice_read (h : p ≤ l.length) : ((splice l p x).drop p).take x.length = x := by
  have ht : (l.take p).length = p := by rw [List.length_take]; omega
  rw [splice, List.append_assoc, List.drop_append_of_le_length (by omega), List.drop_eq_nil_of_le
    (by omega), List.nil_append, List.take_append_of_le_length (Nat.le_refl _), List.take_length]

end

end Splice
