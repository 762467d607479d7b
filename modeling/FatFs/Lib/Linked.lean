import Mathlib.Data.List.Nodup
import Mathlib.Tactic.Common

/-!
# Chains in a successor table

A table `next` gives each node its successor, and some values are stops: they are no nodes, and a
node whose successor is a stop is the last of its chain. `Chain next stop l` says that `l` is a
whole chain up to its stop. A chain never meets a node twice (`Chain.nodup`), because the rest of a
chain is determined by where it starts (`Chain.unique`); it depends on its own nodes only
(`Chain.congr`); and it can be stretched behind its last node (`Chain.snoc`) and cut behind any node
(`Chain.take`).
-/

namespace Linked

section
variable {α : Type} {next next' : α → α} {stop : α → Prop} {l : List α}

/-- Each node of `l` is followed by the next one, and the last one by a stop. -/
structure Chain (next : α → α) (stop : α → Prop) (l : List α) : Prop where
  node : ∀ a ∈ l, ¬stop a
  link : ∀ i a b, l[i]? = some a → l[i + 1]? = some b → next a = b
  last : ∀ i a, l[i]? = some a → i + 1 = l.length → stop (next a)

theorem Chain.nil : Chain next stop ([] : List α) := by
  refine ⟨fun _ h => ?_, fun _ _ _ h => ?_, fun _ _ h => ?_⟩ <;> simp at h

/-- The chain of one node. -/
theorem Chain.singleton {a : α} (ha : ¬stop a) (hs : stop (next a)) : Chain next stop [a] := by
  refine ⟨fun b hb => ?_, fun i b c _ hc => ?_, fun i b hb hi => ?_⟩
  · rw [List.mem_singleton.1 hb]
    exact ha
  · simp at hc
  · obtain rfl : i = 0 := by simpa using hi
    obtain rfl : a = b := by simpa using hb
    exact hs

/-- A chain depends on the successors of its own nodes only. -/
theorem Chain.congr (h : Chain next stop l) (he : ∀ a ∈ l, next' a = next a) :
    Chain next' stop l := by
  refine ⟨h.node, fun i a b ha hb => ?_, fun i a ha hi => ?_⟩
  · rw [he a (List.mem_of_getElem? ha)]
    exact h.link i a b ha hb
  · rw [he a (List.mem_of_getElem? ha)]
    exact h.last i a ha hi

/-- Two places of a chain that hold the same node have the same nodes behind them. -/
theorem Chain.same_tail (h : Chain next stop l) {i j : Nat} (hij : l[i]? = l[j]?) (k : Nat) :
    i + k < l.length → j + k < l.length → l[i + k]? = l[j + k]? := by
  induction k with
  | zero => exact fun _ _ => hij
  | succ k ih =>
    intro hi hj
    have hk := ih (by omega) (by omega)
    rw [List.getElem?_eq_getElem (show i + k < l.length by omega),
      List.getElem?_eq_getElem (show j + k < l.length by omega), Option.some_inj] at hk
    have h₁ := h.link (i + k) _ _ (List.getElem?_eq_getElem (by omega))
      (List.getElem?_eq_getElem hi)
    have h₂ := h.link (j + k) _ _ (List.getElem?_eq_getElem (by omega))
      (List.getElem?_eq_getElem hj)
    rw [hk] at h₁
    rw [List.getElem?_eq_getElem hi, List.getElem?_eq_getElem hj]
    exact congrArg some (h₁.symm.trans h₂)

/-- A chain meets no node twice: from the later place it would reach its stop, from the earlier one
a node. -/
theorem Chain.nodup (h : Chain next stop l) : l.Nodup := by
  have key : ∀ i j, i < j → j < l.length → l[i]? ≠ l[j]? := by
    intro i j hij hj he
    obtain ⟨k, hk⟩ : ∃ k, j + k + 1 = l.length := ⟨l.length - 1 - j, by omega⟩
    have ht := h.same_tail he k (by omega) (by omega)
    have hlast := h.last (j + k) _ (List.getElem?_eq_getElem (by omega)) (by omega)
    rw [List.getElem?_eq_getElem (show i + k < l.length by omega),
      List.getElem?_eq_getElem (show j + k < l.length by omega), Option.some_inj] at ht
    rw [← ht, h.link (i + k) _ _ (List.getElem?_eq_getElem (by omega))
      (List.getElem?_eq_getElem (show i + k + 1 < l.length by omega))] at hlast
    exact h.node _ (List.getElem_mem _) hlast
  rw [List.nodup_iff_getElem?_ne_getElem?]
  exact key

/-- A chain without its first node. -/
theorem Chain.tail {a : α} {l : List α} (h : Chain next stop (a :: l)) : Chain next stop l := by
  refine ⟨fun b hb => h.node b (List.mem_cons_of_mem _ hb), fun i b c hb hc => ?_,
    fun i b hb hi => ?_⟩
  · exact h.link (i + 1) b c hb hc
  · exact h.last (i + 1) b hb (by rw [List.length_cons, hi])

/-- The chain from a node is determined. -/
theorem Chain.unique {l l' : List α} (h : Chain next stop l) (h' : Chain next stop l')
    (he : l.head? = l'.head?) : l = l' := by
  induction l generalizing l' with
  | nil => exact (List.head?_eq_none_iff.1 he.symm).symm
  | cons a l ih =>
    rcases l' with _ | ⟨b, l'⟩
    · cases he
    obtain rfl : a = b := Option.some_inj.1 he
    rw [ih h.tail h'.tail]
    rcases l with _ | ⟨c, l⟩ <;> rcases l' with _ | ⟨d, l'⟩
    · rfl
    · have hs := h.last 0 a rfl rfl
      rw [h'.link 0 a d rfl rfl] at hs
      exact absurd hs (h'.node d (by simp))
    · have hs := h'.last 0 a rfl rfl
      rw [h.link 0 a c rfl rfl] at hs
      exact absurd hs (h.node c (by simp))
    · rw [List.head?_cons, List.head?_cons, ← h.link 0 a c rfl rfl, h'.link 0 a d rfl rfl]

/-- A chain stretched by a node `n` behind its last one. -/
theorem Chain.snoc {n z : α} (h : Chain next stop l) (hz : l.getLast? = some z) (hl : next' z = n)
    (ho : ∀ a ∈ l, a ≠ z → next' a = next a) (hn : ¬stop n) (hs : stop (next' n)) :
    Chain next' stop (l ++ [n]) := by
  have hnd := h.nodup
  rw [List.getLast?_eq_getElem?] at hz
  have hlen : 0 < l.length := by
    rcases l with _ | ⟨a, l⟩
    · simp at hz
    · exact Nat.succ_pos _
  refine ⟨fun a ha => ?_, fun i a b ha hb => ?_, fun i a ha hi => ?_⟩
  · rcases List.mem_append.1 ha with h' | h'
    · exact h.node a h'
    · rw [List.mem_singleton.1 h']
      exact hn
  · rcases Nat.lt_or_ge (i + 1) l.length with hlt | hge
    · rw [List.getElem?_append_left (by omega)] at ha hb
      -- not the last node
      have hne : a ≠ z := by
        rintro rfl
        have := (List.getElem?_inj (by omega) hnd).1 (ha.trans hz.symm)
        omega
      rw [ho a (List.mem_of_getElem? ha) hne]
      exact h.link i a b ha hb
    · obtain hi : i + 1 = l.length := by
        have := (List.getElem?_eq_some_iff.1 hb).1
        simp only [List.length_append, List.length_singleton] at this
        omega
      rw [List.getElem?_append_left (by omega), show i = l.length - 1 by omega, hz] at ha
      rw [hi, List.getElem?_concat_length] at hb
      cases ha
      cases hb
      exact hl
  · have hi : i = l.length := by simpa using hi
    rw [hi, List.getElem?_concat_length] at ha
    cases ha
    exact hs

/-- A chain cut behind its `k`-th node. -/
theorem Chain.take {k : Nat} {z : α} (h : Chain next stop l) (hz : l[k]? = some z)
    (hs : stop (next' z)) (ho : ∀ a ∈ l.take k, next' a = next a) :
    Chain next' stop (l.take (k + 1)) := by
  have hk := (List.getElem?_eq_some_iff.1 hz).1
  refine ⟨fun a ha => h.node a (List.mem_of_mem_take ha), fun i a b ha hb => ?_,
    fun i a ha hi => ?_⟩
  · have hi : i + 1 < k + 1 := by
      have := (List.getElem?_eq_some_iff.1 hb).1
      rw [List.length_take] at this
      omega
    rw [List.getElem?_take_of_lt (by omega)] at ha hb
    rw [ho a (List.mem_of_getElem? (i := i)
      (by rw [List.getElem?_take_of_lt (by omega)]; exact ha))]
    exact h.link i a b ha hb
  · rw [List.length_take] at hi
    obtain rfl : i = k := by omega
    rw [List.getElem?_take_of_lt (by omega), hz] at ha
    cases ha
    exact hs

end

end Linked
