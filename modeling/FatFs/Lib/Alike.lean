import FatFs.Lib.Run

/-!
# Two runs side by side

`Alike R Q m m'` relates two programs: from states that are related by `R` neither of them returns,
or both do, with results related by `Q` and states related by `R`. It composes along the structure
of the programs, as `Keeps` does for one run. The loops of two related programs run in lock step, so
no bound on their rounds is needed.

`bind_apply_of_some` passes the first step of a program and `loop_skip` the first rounds of a loop;
`loop_mono` compares loops with different bounds on their rounds.
-/

namespace Run

section
variable {σ α α' β β' γ γ' : Type}

/-- From related states the two programs do not return, or return related results and states. -/
def Alike (R : σ → σ → Prop) (Q : α → α' → Prop) (m : Prog σ α) (m' : Prog σ α') : Prop :=
  ∀ s s', R s s' → Option.Rel (fun p p' => Q p.1 p'.1 ∧ R p.2 p'.2) (m s) (m' s')

section
variable {R : σ → σ → Prop} {Q : α → α' → Prop} {m : Prog σ α} {m' : Prog σ α'}

/-- Two runs that return related results. -/
theorem Alike.of_returns (h : ∀ s s', R s s' → ∃ P, Returns m s P ∧
    Returns m' s' fun a' t' => ∀ a t, P a t → Q a a' ∧ R t t') : Alike R Q m m' := by
  intro s s' hR
  obtain ⟨P, ⟨a, t, hm, hp⟩, a', t', hm', hq⟩ := h s s' hR
  rw [hm, hm']
  exact .some (hq a t hp)

/-- If one of two runs returns, so does the other. -/
theorem Alike.returns (h : Alike R Q m m') {s s' : σ} (hR : R s s') {a : α} {t : σ}
    (hm : m s = some (a, t)) : Returns m' s' fun a' t' => Q a a' ∧ R t t' := by
  have hrel := h s s' hR
  rw [hm] at hrel
  cases hm' : m' s' with
  | none =>
    rw [hm'] at hrel
    cases hrel
  | some p =>
    rw [hm'] at hrel
    cases hrel with
    | some hp => exact ⟨p.1, p.2, hm', hp⟩

/-- A relation of the results may be weakened. -/
theorem Alike.mono {P : α → α' → Prop} (h : Alike R Q m m') (hPQ : ∀ a a', Q a a' → P a a') :
    Alike R P m m' := by
  intro s s' hR
  cases hm : m s with
  | none =>
    have hrel := h s s' hR
    rw [hm] at hrel
    cases hm' : m' s' with
    | none => exact .none
    | some p =>
      rw [hm'] at hrel
      cases hrel
  | some p =>
    obtain ⟨a', t', hm', hq, hR'⟩ := h.returns hR hm
    rw [hm']
    exact .some ⟨hPQ _ _ hq, hR'⟩

/-- What is known of the results of one of the two. -/
theorem Alike.and_ensures {P : α → Prop} (h : Alike R Q m m')
    (hm : ∀ s s', R s s' → Ensures m s fun a _ => P a) :
    Alike R (fun a a' => Q a a' ∧ P a) m m' := by
  intro s s' hR
  have hrel := h s s' hR
  cases hms : m s with
  | none =>
    cases hms' : m' s' with
    | none => exact .none
    | some p =>
      rw [hms, hms'] at hrel
      cases hrel
  | some p =>
    obtain ⟨a', t', hms', hq, hR'⟩ := h.returns hR hms
    rw [hms']
    exact .some ⟨⟨hq, hm s s' hR _ _ hms⟩, hR'⟩

/-- Results without a step. -/
theorem Alike.pure {a : α} {a' : α'} (h : Q a a') :
    Alike R Q (Pure.pure a : Prog σ α) (Pure.pure a' : Prog σ α') :=
  fun _ _ hR => .some ⟨h, hR⟩

/-- Two sequences are alike if their parts are. -/
theorem Alike.bind {P : β → β' → Prop} {f : α → Prog σ β} {f' : α' → Prog σ β'}
    (hm : Alike R Q m m') (hf : ∀ a a', Q a a' → Alike R P (f a) (f' a')) :
    Alike R P (m >>= f) (m' >>= f') := by
  intro s s' hR
  change Option.Rel _ ((m s).bind fun p => f p.1 p.2) ((m' s').bind fun p => f' p.1 p.2)
  have hrel := hm s s' hR
  cases hms : m s with
  | none =>
    rw [hms] at hrel
    cases hms' : m' s' with
    | none => exact .none
    | some p =>
      rw [hms'] at hrel
      cases hrel
  | some p =>
    obtain ⟨a', t', hms', hq, hR'⟩ := hm.returns hR hms
    rw [hms']
    exact hf p.1 a' hq p.2 t' hR'

/-- A step with equal results. -/
theorem Alike.bind_eq {P : β → β' → Prop} {m m' : Prog σ α} {f : α → Prog σ β} {f' : α → Prog σ β'}
    (hm : Alike R Eq m m') (hf : ∀ a, Alike R P (f a) (f' a)) :
    Alike R P (m >>= f) (m' >>= f') :=
  hm.bind fun a _ h => h ▸ hf a

/-- The states that are read are related. -/
theorem Alike.get {f : σ → Prog σ α} {f' : σ → Prog σ α'}
    (hf : ∀ s s', R s s' → Alike R Q (f s) (f' s')) :
    Alike R Q (MonadState.get >>= f) (MonadState.get >>= f') :=
  fun s s' hR => hf s s' hR s s' hR

/-- Two changes of the state that keep the relation. -/
theorem Alike.modify {g g' : σ → σ} (h : ∀ s s', R s s' → R (g s) (g' s')) :
    Alike R (fun _ _ => True) (modify g : Prog σ PUnit) (modify g' : Prog σ PUnit) :=
  fun s s' hR => .some ⟨trivial, h s s' hR⟩

/-- Two branches with the same condition. -/
theorem Alike.ite {c c' : Prop} [Decidable c] [Decidable c'] (hc : c ↔ c') {x y : Prog σ α}
    {x' y' : Prog σ α'} (hx : c → Alike R Q x x') (hy : ¬c → Alike R Q y y') :
    Alike R Q (if c then x else y) (if c' then x' else y') := by
  by_cases h : c
  · rw [if_pos h, if_pos (hc.1 h)]
    exact hx h
  · rw [if_neg h, if_neg fun h' => h (hc.2 h')]
    exact hy h

/-- Two loops in lock step. -/
theorem Alike.loop {B : β → β' → Prop} {P : γ → γ' → Prop} {body : β → Prog σ (β ⊕ γ)}
    {body' : β' → Prog σ (β' ⊕ γ')}
    (h : ∀ b b', B b b' → Alike R (Sum.LiftRel B P) (body b) (body' b')) :
    ∀ (n : Nat) {b : β} {b' : β'}, B b b' → Alike R P (Run.loop body n b) (Run.loop body' n b')
  | 0, _, _, _ => fun _ _ _ => .none
  | n + 1, b, b', hb => by
    refine (h b b' hb).bind fun r r' hr => ?_
    cases hr with
    | inl hb' => exact Alike.loop h n hb'
    | inr hp => exact .pure hp

/-- A loop with equal results. -/
theorem Alike.loop_eq {body : β → Prog σ (β ⊕ γ)} (h : ∀ b, Alike R Eq (body b) (body b)) (n : Nat)
    (b : β) : Alike R Eq (Run.loop body n b) (Run.loop body n b) := by
  refine Alike.loop (B := Eq) (fun b b' hb => ?_) n rfl
  subst hb
  refine (h b).mono fun r r' hr => ?_
  subst hr
  cases r with
  | inl _ => exact .inl rfl
  | inr _ => exact .inr rfl

end

/-- A program after its first step. -/
theorem bind_apply_of_some {m : Prog σ α} {f : α → Prog σ β} {s t : σ} {a : α}
    (h : m s = some (a, t)) : (m >>= f) s = f a t := by
  change (m s).bind _ = _
  rw [h]
  rfl

/-- A loop that has left is not changed by more rounds. -/
theorem loop_mono {body : β → Prog σ (β ⊕ γ)} : ∀ {n k : Nat} {b : β} {s : σ} {r : γ × σ},
    n ≤ k → loop body n b s = some r → loop body k b s = some r
  | 0, _, _, _, _, _, h => by cases h
  | n + 1, k + 1, b, s, r, hk, h => by
    change (body b s).bind _ = some r at h
    change (body b s).bind _ = some r
    obtain ⟨⟨x, t⟩, hb, h⟩ := Option.bind_eq_some_iff.1 h
    rw [hb]
    cases x with
    | inl b' => exact loop_mono (Nat.le_of_succ_le_succ hk) h
    | inr c => exact h

/-- A loop after its first round. -/
theorem loop_succ_of_inl {body : β → Prog σ (β ⊕ γ)} {n : Nat} {b b' : β} {s t : σ}
    (h : body b s = some (.inl b', t)) : loop body (n + 1) b s = loop body n b' t := by
  change (body b s).bind _ = _
  rw [h]
  rfl

/-- A loop whose first round is its last. -/
theorem loop_succ_of_inr {body : β → Prog σ (β ⊕ γ)} {n : Nat} {b : β} {c : γ} {s t : σ}
    (h : body b s = some (.inr c, t)) : loop body (n + 1) b s = some (c, t) := by
  change (body b s).bind _ = _
  rw [h]
  rfl

/-- A loop after rounds that are known: the round `i` starts from `f i`. -/
theorem loop_skip {body : β → Prog σ (β ⊕ γ)} {I : σ → Prop} {f : Nat → β} {k : Nat}
    (h : ∀ i < k, ∀ s, I s → Returns (body (f i)) s fun r t => I t ∧ r = .inl (f (i + 1))) {s : σ}
    (hs : I s) (n : Nat) : ∃ t, I t ∧ loop body (n + k) (f 0) s = loop body n (f k) t := by
  induction k generalizing n with
  | zero => exact ⟨s, hs, rfl⟩
  | succ k ih =>
    obtain ⟨t, ht, he⟩ := ih (fun i hi => h i (by omega)) (n + 1)
    obtain ⟨r, t', hr, ht', rfl⟩ := h k (by omega) t ht
    refine ⟨t', ht', ?_⟩
    rw [show n + (k + 1) = n + 1 + k by omega, he, loop_succ_of_inl hr]

end

end Run
