import Mathlib.Logic.Basic
import Mathlib.Tactic.Common

/-!
# Runs of sequential programs

A program over states `σ` is a partial function from a state to a result and a state: `none` means
that the run does not return. `Returns m s Q` is the weakest precondition of total correctness: the
run of `m` from `s` returns, and its result and final state satisfy `Q`. It distributes over `bind`
and over the primitives in both directions, so a proof about a program computes its precondition by
`simp` down to the calls it has a specification for, and passes those by `Returns.mono`.

`loop` iterates a body that says after each round whether to go on (`Sum.inl`) or to leave
(`Sum.inr`). It gives up after a number of rounds; `Returns.loop` is the rule that the loop leaves
before that, from an invariant with a bound that every round lowers. `Preserves` is the rule for a
property that every step of a program keeps.

`Ensures` is partial correctness, for facts that do not depend on termination, and `Keeps` is its
rule for a property that every step of a program keeps; `Yields` is the same with a property of the
result. `Commutes` says that a program does not look
at a part of the state.
-/

namespace Run

/-- A program over states `σ`: from a state it returns a value and a state, or does not return. -/
abbrev Prog (σ : Type) := StateT σ Option

section
variable {σ α β γ : Type}

/-- The run of `m` from `s` returns, with a result and a state that satisfy `Q`. -/
def Returns (m : Prog σ α) (s : σ) (Q : α → σ → Prop) : Prop :=
  ∃ a s', m s = some (a, s') ∧ Q a s'

/-- A run that returns with `Q` returns with every consequence of `Q`. -/
theorem Returns.mono {m : Prog σ α} {s : σ} {Q R : α → σ → Prop} (h : Returns m s Q)
    (hQR : ∀ a s', Q a s' → R a s') : Returns m s R := by
  obtain ⟨a, s', hm, hq⟩ := h
  exact ⟨a, s', hm, hQR a s' hq⟩

/-- Runs are deterministic: what holds of the result in two ways holds of it at once. -/
theorem Returns.and {m : Prog σ α} {s : σ} {Q R : α → σ → Prop} (h₁ : Returns m s Q)
    (h₂ : Returns m s R) : Returns m s fun a s' => Q a s' ∧ R a s' := by
  obtain ⟨a, s', hm, hq⟩ := h₁
  obtain ⟨b, t, hm', hr⟩ := h₂
  rw [hm] at hm'
  cases hm'
  exact ⟨a, s', hm, hq, hr⟩

/-- The result of a run that returns with `Q` satisfies `Q`. -/
theorem Returns.of_eq {m : Prog σ α} {s : σ} {Q : α → σ → Prop} {a : α} {s' : σ}
    (h : Returns m s Q) (hm : m s = some (a, s')) : Q a s' := by
  obtain ⟨b, t, hm', hq⟩ := h
  rw [hm] at hm'
  cases hm'
  exact hq

/-- A result without a step. -/
@[simp] theorem returns_pure {a : α} {s : σ} {Q : α → σ → Prop} :
    Returns (pure a : Prog σ α) s Q ↔ Q a s := by
  constructor
  · rintro ⟨_, _, h, hq⟩
    cases h
    exact hq
  · exact fun hq => ⟨a, s, rfl, hq⟩

/-- A run of a sequence is a run of its parts. -/
@[simp] theorem returns_bind {m : Prog σ α} {f : α → Prog σ β} {s : σ} {Q : β → σ → Prop} :
    Returns (m >>= f) s Q ↔ Returns m s fun a s' => Returns (f a) s' Q := by
  have hb : (m >>= f) s = (m s).bind fun p => f p.1 p.2 := rfl
  constructor
  · rintro ⟨b, t, h, hq⟩
    rw [hb, Option.bind_eq_some_iff] at h
    obtain ⟨⟨a, s'⟩, hm, hf⟩ := h
    exact ⟨a, s', hm, b, t, hf, hq⟩
  · rintro ⟨a, s', hm, b, t, hf, hq⟩
    exact ⟨b, t, by rw [hb, hm]; exact hf, hq⟩

/-- The state is the result. -/
@[simp] theorem returns_get {s : σ} {Q : σ → σ → Prop} :
    Returns (get : Prog σ σ) s Q ↔ Q s s := returns_pure (a := s)

/-- A change of the state. -/
@[simp] theorem returns_modify {f : σ → σ} {s : σ} {Q : PUnit → σ → Prop} :
    Returns (modify f : Prog σ PUnit) s Q ↔ Q ⟨⟩ (f s) := by
  constructor
  · rintro ⟨_, _, h, hq⟩
    cases h
    exact hq
  · exact fun hq => ⟨⟨⟩, f s, rfl, hq⟩

/-- Both branches, each under its condition. -/
@[simp] theorem returns_ite {c : Prop} [Decidable c] {x y : Prog σ α} {s : σ}
    {Q : α → σ → Prop} :
    Returns (if c then x else y) s Q ↔ (c → Returns x s Q) ∧ (¬c → Returns y s Q) := by
  by_cases h : c <;> simp [h]

/-! ## Loops -/

/-- `loop body n b` runs `body` from `b`, again from the value after `Sum.inl` until it answers
`Sum.inr`, at most `n` times. -/
def loop (body : β → Prog σ (β ⊕ γ)) : Nat → β → Prog σ γ
  | 0, _ => fun _ => none
  | n + 1, b => do
    match ← body b with
    | .inl b' => loop body n b'
    | .inr c => pure c

/-- What one round of a loop must establish for `Returns.loop`: on leaving the postcondition, else
the invariant at a smaller bound. -/
def Round (I : Nat → β → σ → Prop) (Q : γ → σ → Prop) (n : Nat) : β ⊕ γ → σ → Prop
  | .inl b, s => ∃ m < n, I m b s
  | .inr c, s => Q c s

/-- A round that goes on has a smaller measure and keeps the invariant. -/
@[simp] theorem round_inl {I : Nat → β → σ → Prop} {Q : γ → σ → Prop} {n : Nat} {b : β} {s : σ} :
    Round I Q n (.inl b) s ↔ ∃ m < n, I m b s := Iff.rfl

/-- A round that ends has the postcondition. -/
@[simp] theorem round_inr {I : Nat → β → σ → Prop} {Q : γ → σ → Prop} {n : Nat} {c : γ} {s : σ} :
    Round I Q n (.inr c) s ↔ Q c s := Iff.rfl

/-- The loop rule of total correctness. The invariant `I n b s` carries a bound `n` on the rounds
still to come; a round that goes on lowers it. -/
theorem Returns.loop {body : β → Prog σ (β ⊕ γ)} {I : Nat → β → σ → Prop} {Q : γ → σ → Prop}
    (step : ∀ n b s, I n b s → Returns (body b) s (Round I Q n)) :
    ∀ {n fuel : Nat} {b : β} {s : σ}, I n b s → n < fuel → Returns (loop body fuel b) s Q
  | n, fuel + 1, b, s, hI, hn => by
    rw [Run.loop, returns_bind]
    refine (step n b s hI).mono fun r s' hr => ?_
    cases r with
    | inl b' =>
      obtain ⟨m, hm, hI'⟩ := hr
      exact Returns.loop step hI' (by omega)
    | inr c => simpa using hr

/-! ## Properties every step keeps -/

/-- The run of `m` from every state with `I` returns, in a state with `I`. -/
def Preserves (I : σ → Prop) (m : Prog σ α) : Prop :=
  ∀ s, I s → Returns m s fun _ s' => I s'

section
variable {I : σ → Prop}

/-- A result without a step keeps everything. -/
theorem Preserves.pure (a : α) : Preserves I (Pure.pure a : Prog σ α) :=
  fun _ h => returns_pure.2 h

/-- A sequence keeps what its parts keep. -/
theorem Preserves.bind {m : Prog σ α} {f : α → Prog σ β} (hm : Preserves I m)
    (hf : ∀ a, Preserves I (f a)) : Preserves I (m >>= f) :=
  fun s h => returns_bind.2 ((hm s h).mono fun a s' h' => hf a s' h')

/-- The state that is read has the invariant. -/
theorem Preserves.get {f : σ → Prog σ β} (hf : ∀ s, I s → Preserves I (f s)) :
    Preserves I (MonadState.get >>= f) :=
  fun s h => returns_bind.2 (returns_get.2 (hf s h s h))

/-- A change of the state keeps what it is proved to keep. -/
theorem Preserves.modify {g : σ → σ} (h : ∀ s, I s → I (g s)) :
    Preserves I (modify g : Prog σ PUnit) :=
  fun s hs => returns_modify.2 (h s hs)

/-- A branch is only run under its condition. -/
theorem Preserves.ite {c : Prop} [Decidable c] {x y : Prog σ α} (hx : c → Preserves I x)
    (hy : ¬c → Preserves I y) : Preserves I (if c then x else y) := by
  split
  · exact hx ‹_›
  · exact hy ‹_›

/-- A loop keeps a property when a bound on its rounds is lowered by every round. -/
theorem Preserves.loop {body : β → Prog σ (β ⊕ γ)} (bound : β → Nat) {n : Nat} {b : β}
    (h : ∀ b s, I s → Returns (body b) s fun r s' =>
      I s' ∧ ∀ b', r = .inl b' → bound b' < bound b) (hn : bound b < n) :
    Preserves I (Run.loop body n b) := by
  intro s hs
  refine Returns.loop (I := fun k b s => I s ∧ bound b ≤ k) (fun k b s ⟨hI, hk⟩ => ?_)
    ⟨hs, Nat.le_refl _⟩ hn
  refine (h b s hI).mono fun r s' ⟨hI', hb⟩ => ?_
  cases r with
  | inl b' =>
    have hlt := hb b' rfl
    exact ⟨bound b', by omega, hI', Nat.le_refl _⟩
  | inr c => exact hI'

end

/-! ## Partial correctness -/

/-- If the run of `m` from `s` returns, its result and state satisfy `Q`. -/
def Ensures (m : Prog σ α) (s : σ) (Q : α → σ → Prop) : Prop :=
  ∀ a s', m s = some (a, s') → Q a s'

/-- A postcondition may be weakened. -/
theorem Ensures.mono {m : Prog σ α} {s : σ} {Q R : α → σ → Prop} (h : Ensures m s Q)
    (hQR : ∀ a s', Q a s' → R a s') : Ensures m s R :=
  fun a s' hm => hQR a s' (h a s' hm)

/-- A run has at most one result. -/
theorem Returns.ensures {m : Prog σ α} {s : σ} {Q : α → σ → Prop} (h : Returns m s Q) :
    Ensures m s Q :=
  fun _ _ hm => h.of_eq hm

/-- What a run ensures in two ways it ensures at once. -/
theorem Ensures.and {m : Prog σ α} {s : σ} {Q R : α → σ → Prop} (h₁ : Ensures m s Q)
    (h₂ : Ensures m s R) : Ensures m s fun a s' => Q a s' ∧ R a s' :=
  fun a s' hm => ⟨h₁ a s' hm, h₂ a s' hm⟩

/-- What a run ensures holds of its result when it returns. -/
theorem Returns.and_ensures {m : Prog σ α} {s : σ} {Q R : α → σ → Prop} (h₁ : Returns m s Q)
    (h₂ : Ensures m s R) : Returns m s fun a s' => Q a s' ∧ R a s' := by
  obtain ⟨a, s', hm, hq⟩ := h₁
  exact ⟨a, s', hm, hq, h₂ a s' hm⟩

/-- A result without a step. -/
@[simp] theorem ensures_pure {a : α} {s : σ} {Q : α → σ → Prop} :
    Ensures (pure a : Prog σ α) s Q ↔ Q a s := by
  constructor
  · exact fun h => h a s rfl
  · rintro hq _ _ h
    cases h
    exact hq

/-- A run of a sequence is a run of its parts. -/
@[simp] theorem ensures_bind {m : Prog σ α} {f : α → Prog σ β} {s : σ} {Q : β → σ → Prop} :
    Ensures (m >>= f) s Q ↔ Ensures m s fun a s' => Ensures (f a) s' Q := by
  have hb : (m >>= f) s = (m s).bind fun p => f p.1 p.2 := rfl
  constructor
  · intro h a s' hm b t hf
    exact h b t (by rw [hb, hm]; exact hf)
  · intro h b t hmf
    rw [hb, Option.bind_eq_some_iff] at hmf
    obtain ⟨⟨a, s'⟩, hm, hf⟩ := hmf
    exact h a s' hm b t hf

/-- The state is the result. -/
@[simp] theorem ensures_get {s : σ} {Q : σ → σ → Prop} :
    Ensures (get : Prog σ σ) s Q ↔ Q s s := ensures_pure (a := s)

/-- A change of the state. -/
@[simp] theorem ensures_modify {f : σ → σ} {s : σ} {Q : PUnit → σ → Prop} :
    Ensures (modify f : Prog σ PUnit) s Q ↔ Q ⟨⟩ (f s) := by
  constructor
  · exact fun h => h ⟨⟩ (f s) rfl
  · rintro hq _ _ h
    cases h
    exact hq

/-- Both branches, each under its condition. -/
@[simp] theorem ensures_ite {c : Prop} [Decidable c] {x y : Prog σ α} {s : σ}
    {Q : α → σ → Prop} :
    Ensures (if c then x else y) s Q ↔ (c → Ensures x s Q) ∧ (¬c → Ensures y s Q) := by
  by_cases h : c <;> simp [h]

/-- The loop rule of partial correctness. -/
theorem Ensures.loop {body : β → Prog σ (β ⊕ γ)} {I : β → σ → Prop} {Q : γ → σ → Prop}
    (step : ∀ b s, I b s → Ensures (body b) s fun r s' => Sum.elim (I · s') (Q · s') r) :
    ∀ (n : Nat) {b : β} {s : σ}, I b s → Ensures (loop body n b) s Q
  | 0, _, _, _ => fun _ _ h => by cases h
  | n + 1, b, s, hI => by
    rw [Run.loop, ensures_bind]
    refine (step b s hI).mono fun r s' hr => ?_
    cases r with
    | inl b' => exact Ensures.loop step n hr
    | inr c => exact ensures_pure.2 hr

/-- Every run of `m` from a state with `I` ends in a state with `I`, if it ends. -/
def Keeps (I : σ → Prop) (m : Prog σ α) : Prop := ∀ s, I s → Ensures m s fun _ s' => I s'

section
variable {I : σ → Prop}

/-- A result without a step keeps everything. -/
theorem Keeps.pure (a : α) : Keeps I (Pure.pure a : Prog σ α) := fun _ h => ensures_pure.2 h

/-- A sequence keeps what its parts keep. -/
theorem Keeps.bind {m : Prog σ α} {f : α → Prog σ β} (hm : Keeps I m)
    (hf : ∀ a, Keeps I (f a)) : Keeps I (m >>= f) :=
  fun s h => ensures_bind.2 ((hm s h).mono fun a s' h' => hf a s' h')

/-- The state that is read has the invariant. -/
theorem Keeps.get {f : σ → Prog σ β} (hf : ∀ s, I s → Keeps I (f s)) :
    Keeps I (MonadState.get >>= f) :=
  fun s h => ensures_bind.2 (ensures_get.2 (hf s h s h))

/-- A change of the state keeps what it is proved to keep. -/
theorem Keeps.modify {g : σ → σ} (h : ∀ s, I s → I (g s)) :
    Keeps I (modify g : Prog σ PUnit) :=
  fun s hs => ensures_modify.2 (h s hs)

/-- A branch is only run under its condition. -/
theorem Keeps.ite {c : Prop} [Decidable c] {x y : Prog σ α} (hx : c → Keeps I x)
    (hy : ¬c → Keeps I y) : Keeps I (if c then x else y) := by
  split
  · exact hx ‹_›
  · exact hy ‹_›

/-- Two properties that are kept are kept together. -/
theorem Keeps.and {J : σ → Prop} {m : Prog σ α} (hI : Keeps I m) (hJ : Keeps J m) :
    Keeps (fun s => I s ∧ J s) m :=
  fun s h => (hI s h.1).and (hJ s h.2)

/-- A program that keeps a property keeps it up to a proposition that does not depend on the
state. -/
theorem Keeps.or_const {m : Prog σ α} (hI : Keeps I m) (p : Prop) : Keeps (fun s => I s ∨ p) m := by
  rintro s (h | h)
  · exact (hI s h).mono fun _ _ h' => .inl h'
  · exact fun _ _ _ => .inr h

/-- What every run preserves is kept by those that return. -/
theorem Preserves.keeps {m : Prog σ α} (h : Preserves I m) : Keeps I m :=
  fun s hs => (h s hs).ensures

/-- A loop keeps what its rounds keep; whether it ends does not matter. -/
theorem Keeps.loop {body : β → Prog σ (β ⊕ γ)} (h : ∀ b, Keeps I (body b)) (n : Nat) (b : β) :
    Keeps I (Run.loop body n b) :=
  fun _ hs => Ensures.loop (I := fun _ => I) (fun b s hI => (h b s hI).mono fun r s' h' => by
    cases r <;> exact h') n hs

end

/-- Every run of `m` from a state with `I` ends in a state with `I` and with a result in `R`, if it
ends. -/
def Yields (I : σ → Prop) (R : α → Prop) (m : Prog σ α) : Prop :=
  ∀ s, I s → Ensures m s fun a s' => I s' ∧ R a

section
variable {I : σ → Prop} {R : α → Prop}

/-- The result may be forgotten. -/
theorem Yields.keeps {m : Prog σ α} (h : Yields I R m) : Keeps I m :=
  fun s hs => (h s hs).mono fun _ _ h' => h'.1

/-- The result is given. -/
theorem Yields.pure {a : α} (h : R a) : Yields I R (Pure.pure a : Prog σ α) :=
  fun _ hs => ensures_pure.2 ⟨hs, h⟩

/-- The second part may use what the first one yields. -/
theorem Yields.bind {S : β → Prop} {m : Prog σ α} {f : α → Prog σ β} (hm : Yields I R m)
    (hf : ∀ a, R a → Yields I S (f a)) : Yields I S (m >>= f) :=
  fun s h => ensures_bind.2 ((hm s h).mono fun a s' h' => hf a h'.2 s' h'.1)

/-- A step whose result does not matter. -/
theorem Keeps.then {S : β → Prop} {m : Prog σ α} {f : α → Prog σ β} (hm : Keeps I m)
    (hf : ∀ a, Yields I S (f a)) : Yields I S (m >>= f) :=
  fun s h => ensures_bind.2 ((hm s h).mono fun a s' h' => hf a s' h')

/-- A program whose run does not matter. -/
theorem keeps_true (m : Prog σ α) : Keeps (fun _ => True) m := fun _ _ _ _ _ => trivial

/-- The state that is read has the invariant. -/
theorem Yields.get {S : β → Prop} {f : σ → Prog σ β} (hf : ∀ s, I s → Yields I S (f s)) :
    Yields I S (MonadState.get >>= f) :=
  fun s h => ensures_bind.2 (ensures_get.2 (hf s h s h))

/-- A branch is only run under its condition. -/
theorem Yields.ite {c : Prop} [Decidable c] {x y : Prog σ α} (hx : c → Yields I R x)
    (hy : ¬c → Yields I R y) : Yields I R (if c then x else y) := by
  split
  · exact hx ‹_›
  · exact hy ‹_›

/-- The rounds of a loop hand their results on. -/
theorem Yields.loop {B : β → Prop} {S : γ → Prop} {body : β → Prog σ (β ⊕ γ)}
    (h : ∀ b, B b → Yields I (Sum.elim B S) (body b)) (n : Nat) {b : β} (hb : B b) :
    Yields I S (Run.loop body n b) :=
  fun _ hs => Ensures.loop (I := fun b s => I s ∧ B b) (fun b s hI => (h b hI.2 s hI.1).mono
    fun r s' h' => by cases r <;> exact h') n ⟨hs, hb⟩

end

/-- The state that is read is that of the run. -/
theorem get_bind_apply {f : σ → Prog σ β} {s : σ} : (get >>= f) s = f s s := rfl

/-- A run that returns goes on with the continuation. -/
theorem bind_apply_of {m : Prog σ α} {f : α → Prog σ β} {s s' : σ} {a : α}
    (h : m s = some (a, s')) : (m >>= f) s = f a s' := by
  change (m s).bind _ = _
  rw [h]
  rfl

/-- Programs that agree on a state have the same runs from there. -/
theorem bind_congr_left {m m' : Prog σ α} {f : α → Prog σ β} {s : σ} (h : m s = m' s) :
    (m >>= f) s = (m' >>= f) s := by
  change (m s).bind _ = (m' s).bind _
  rw [h]

/-- Two continuations that agree on the results of `m` give the same run. -/
theorem bind_congr_of {m : Prog σ α} {f g : α → Prog σ β} {s : σ}
    (h : Ensures m s fun a s' => f a s' = g a s') : (m >>= f) s = (m >>= g) s := by
  change (m s).bind _ = (m s).bind _
  cases hm : m s with
  | none => rfl
  | some p => exact h p.1 p.2 hm

/-- Two bodies that agree where an invariant of the first holds give the same loop. -/
theorem loop_congr_of {body body' : β → Prog σ (β ⊕ γ)} {I : β → σ → Prop}
    (heq : ∀ b s, I b s → body b s = body' b s)
    (step : ∀ b s, I b s → Ensures (body b) s fun r s' => ∀ b', r = .inl b' → I b' s') :
    ∀ (n : Nat) {b : β} {s : σ}, I b s → loop body n b s = loop body' n b s
  | 0, _, _, _ => rfl
  | n + 1, b, s, hI => by
    rw [loop, loop, ← bind_congr_left (heq b s hI)]
    refine bind_congr_of ((step b s hI).mono fun r s' hr => ?_)
    cases r with
    | inl b' => exact loop_congr_of heq step n (hr b' rfl)
    | inr c => rfl

/-! ## Parts of the state a program does not look at -/

/-- A change `φ` of the state before the run is the same change after it. -/
def Commutes (φ : σ → σ) (m : Prog σ α) : Prop := ∀ s, m (φ s) = (m s).map (Prod.map id φ)

variable {φ : σ → σ}

/-- A result does not depend on the state. -/
theorem Commutes.pure (a : α) : Commutes φ (Pure.pure a : Prog σ α) := fun _ => rfl

/-- A sequence commutes with what its parts commute with. -/
theorem Commutes.bind {m : Prog σ α} {f : α → Prog σ β} (hm : Commutes φ m)
    (hf : ∀ a, Commutes φ (f a)) : Commutes φ (m >>= f) := by
  intro s
  change (m (φ s)).bind _ = ((m s).bind _).map _
  rw [hm s]
  cases m s with
  | none => rfl
  | some p => exact hf p.1 p.2

/-- Reading the state commutes when what follows does not read the part that changes. -/
theorem Commutes.get {f : σ → Prog σ β} (hf : ∀ s, Commutes φ (f s))
    (he : ∀ s, f (φ s) = f s) : Commutes φ (MonadState.get >>= f) := by
  intro s
  change f (φ s) (φ s) = (f s s).map _
  rw [he s]
  exact hf s s

/-- A change of the state that commutes with the map. -/
theorem Commutes.modify {g : σ → σ} (h : ∀ s, g (φ s) = φ (g s)) :
    Commutes φ (modify g : Prog σ PUnit) := by
  intro s
  change some (PUnit.unit, g (φ s)) = some (PUnit.unit, φ (g s))
  rw [h s]

/-- A choice commutes with what both branches commute with. -/
theorem Commutes.ite {c : Prop} [Decidable c] {x y : Prog σ α} (hx : Commutes φ x)
    (hy : Commutes φ y) : Commutes φ (if c then x else y) := by
  split
  · exact hx
  · exact hy

/-- A loop commutes with what its rounds commute with. -/
theorem Commutes.loop {body : β → Prog σ (β ⊕ γ)} (h : ∀ b, Commutes φ (body b)) :
    ∀ (n : Nat) (b : β), Commutes φ (Run.loop body n b)
  | 0, _ => fun _ => rfl
  | n + 1, b => by
    refine (h b).bind fun r => ?_
    cases r with
    | inl b' => exact Commutes.loop h n b'
    | inr c => exact Commutes.pure c

end

end Run
