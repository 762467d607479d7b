import FatFs.Fat.Entry
import Mathlib.Data.Finset.Card
import Mathlib.Order.Interval.Finset.Nat

/-!
# Removing and stretching chains

`remove_chain` and `create_chain` on any image: they return, they keep the window invariant and
change no sector outside the FATs (`FatOnly`). The loop of `remove_chain` ends even on a cyclic
chain because every round makes a nonzero entry zero (`Geometry.used`); the search of `create_chain`
ends because it tests every cluster at most once, whatever cluster it starts from.
-/

namespace FatFs

open Run

/-- A function that works on the FAT keeps the invariant and every sector outside the FATs. -/
structure FatOnly (g : Geometry) (w w' : State) : Prop where
  inv : Inv g w'
  sectors : w'.disk.sectors = w.disk.sectors
  registered : w'.registered = w.registered
  fsid : w'.fsid = w.fsid
  charSigned : w'.charSigned = w.charSigned
  good : w.Flushable → w'.Flushable
  frame : ∀ s, ¬g.InFat s → ¬g.InFat2 s → w'.logical s = w.logical s

/-- Nothing outside the FAT changes when nothing is done. -/
theorem FatOnly.refl {g : Geometry} {w : State} (hw : Inv g w) : FatOnly g w w :=
  ⟨hw, rfl, rfl, rfl, rfl, id, fun _ _ _ => rfl⟩

/-- Two steps that change the FAT only. -/
theorem FatOnly.trans {g : Geometry} {w₁ w₂ w₃ : State} (h : FatOnly g w₁ w₂)
    (h' : FatOnly g w₂ w₃) : FatOnly g w₁ w₃ :=
  ⟨h'.inv, h'.sectors.trans h.sectors, h'.registered.trans h.registered, h'.fsid.trans h.fsid,
    h'.charSigned.trans h.charSigned, fun hf => h'.good (h.good hf),
    fun s hs hs₂ => (h'.frame s hs hs₂).trans (h.frame s hs hs₂)⟩

/-- `get_fat` changes nothing. -/
theorem FatRead.fatOnly {g : Geometry} {w w' : State} {c r : Nat} (h : FatRead g w c r w') :
    FatOnly g w w' :=
  ⟨h.inv, h.kept.sectors, h.kept.registered, h.kept.fsid, h.kept.charSigned, h.good,
    fun s _ hs => h.same s hs⟩

/-- `put_fat` changes the FAT only. -/
theorem FatWrite.fatOnly {g : Geometry} {w w' : State} {c v : Nat} {r : FRESULT}
    (h : FatWrite g w c v r w') : FatOnly g w w' :=
  ⟨h.inv, h.kept.sectors, h.kept.registered, h.kept.fsid, h.kept.charSigned, h.good, h.frame⟩

section
variable {g : Geometry} {w : State} (hw : Inv g w) (hon : g.fatbase < w.disk.sectors)

include hw hon

/-- The allocation information is changed after a successful FAT access only. -/
theorem FatOnly.freed : FatOnly g w w.freed := by
  unfold State.freed
  split
  · exact ⟨⟨hw.geo, hw.reliable, hw.size, hw.coherent, hw.winsect, hw.fat, fun _ => hon⟩, rfl, rfl,
      rfl, rfl, id, fun _ _ _ => rfl⟩
  · exact FatOnly.refl hw

/-- The allocation information is not part of the contents. -/
theorem FatOnly.allocated (n : Nat) : FatOnly g w (w.allocated n) := by
  unfold State.allocated
  split
  · exact ⟨⟨hw.geo, hw.reliable, hw.size, hw.coherent, hw.winsect, hw.fat, fun _ => hon⟩, rfl, rfl,
      rfl, rfl, id, fun _ _ _ => rfl⟩
  · exact ⟨⟨hw.geo, hw.reliable, hw.size, hw.coherent, hw.winsect, hw.fat, hw.info⟩, rfl, rfl,
      rfl, rfl, id, fun _ _ _ => rfl⟩

end

/-- The allocation information is not part of the contents. -/
@[simp] theorem State.freed_logical (w : State) : w.freed.logical = w.logical := by
  unfold State.freed
  split <;> rfl

@[simp] theorem State.freed_geo (w : State) : w.freed.geo = w.geo := by
  unfold State.freed
  split <;> rfl

/-- A freed cluster is counted unless the count is unknown, or all clusters are free by it. -/
theorem State.freed_freeClst (w : State) :
    w.freed.freeClst = if w.freeClst < w.geo.nFatent - 2 then w.freeClst + 1 else w.freeClst := by
  unfold State.freed
  split <;> rfl

@[simp] theorem State.allocated_logical (w : State) (n : Nat) :
    (w.allocated n).logical = w.logical := by
  unfold State.allocated
  split <;> rfl

/-- An allocated cluster is counted unless the count is unknown. -/
theorem State.allocated_freeClst (w : State) (n : Nat) (h : w.freeClst ≠ 0) :
    (w.allocated n).freeClst =
      if w.freeClst ≤ w.geo.nFatent - 2 then w.freeClst - 1 else w.freeClst := by
  unfold State.allocated
  by_cases hle : w.freeClst ≤ w.geo.nFatent - 2
  · rw [if_pos ⟨Nat.pos_of_ne_zero h, hle⟩, if_pos hle]
  · rw [if_neg fun h => hle h.2, if_neg hle]

/-- The number of clusters whose FAT entry is not zero. -/
def Geometry.used (g : Geometry) (L : Nat → Sector) : Nat :=
  ((Finset.Ico 2 g.nFatent).filter fun c => g.entry L c ≠ 0).card

/-- There are no more clusters in use than entries. -/
theorem Geometry.used_le (g : Geometry) (L : Nat → Sector) : g.used L ≤ g.nFatent := by
  refine (Finset.card_filter_le _ _).trans ?_
  simp

/-- Clearing an entry in use lowers the number of entries in use. -/
theorem Geometry.used_lt {g : Geometry} {L L' : Nat → Sector} {c : Nat} (hc : g.IsClust c)
    (hu : g.entry L c ≠ 0) (h0 : g.entry L' c = 0)
    (he : ∀ e < g.nFatent, e ≠ c → g.entry L' e = g.entry L e) : g.used L' < g.used L := by
  refine Finset.card_lt_card ⟨fun e hmem => ?_, fun hsub => ?_⟩
  · rw [Finset.mem_filter, Finset.mem_Ico] at hmem ⊢
    have hne : e ≠ c := fun h => hmem.2 (by rw [h, h0])
    exact ⟨hmem.1, by rw [← he e hmem.1.2 hne]; exact hmem.2⟩
  · have hmem : c ∈ (Finset.Ico 2 g.nFatent).filter fun c => g.entry L c ≠ 0 :=
      Finset.mem_filter.2 ⟨Finset.mem_Ico.2 hc, hu⟩
    exact (Finset.mem_filter.1 (hsub hmem)).2 h0

section
variable {g : Geometry} (hg : g.Sound)

include hg

/-! ## `remove_chain` -/

/-- One round of `remove_chain` from the cluster `c`: it stops, or the entry of `c` was a valid
cluster and is free now. -/
structure Removed (g : Geometry) (w : State) (c : Nat) (r : Nat ⊕ FRESULT) (w' : State) : Prop where
  fat : FatOnly g w w'
  next : ∀ n, r = .inl n → g.IsClust c ∧ g.IsClust n ∧ g.entry w.logical c = n ∧
    g.entry w'.logical c = 0 ∧ ∀ e < g.nFatent, e ≠ c → g.entry w'.logical e = g.entry w.logical e

/-- One round of `remove_chain`: an entry is cleared, and the walk goes on to what it held. -/
theorem removeRound_inv {w : State} (hw : Inv g w) (c : Nat) :
    Returns (removeRound c) w (Removed g w c) := by
  rw [removeRound, returns_bind]
  refine (getFat_inv hg hw c).mono fun nxt w₁ h₁ => ?_
  simp only [returns_ite, returns_pure, returns_bind]
  have hstop : ∀ (res : FRESULT), Removed g w c (.inr res) w₁ := fun res =>
    ⟨h₁.fatOnly, fun n hn => by cases hn⟩
  refine ⟨fun _ => hstop _, fun h0 => ⟨fun _ => hstop _, fun h1 => ⟨fun _ => hstop _,
    fun hd => ?_⟩⟩⟩
  obtain ⟨hcl, hval, hon⟩ := (h₁.val.resolve_left h1).resolve_left hd
  refine (putFat_inv hg h₁.inv c 0).mono fun res w₂ h₂ => ⟨fun _ => ?_, fun hok => ?_⟩
  · exact ⟨h₁.fatOnly.trans h₂.fatOnly, fun n hn => by cases hn⟩
  obtain rfl : res = .ok := by simpa using hok
  have hon₂ : g.fatbase < w₂.disk.sectors := by
    rw [h₂.kept.sectors]
    exact h₂.onDevice rfl
  have hfreed : FatOnly g w w₂.freed :=
    (h₁.fatOnly.trans h₂.fatOnly).trans (FatOnly.freed h₂.inv hon₂)
  rw [returns_modify]
  simp only [returns_get]
  refine ⟨fun hlt => ⟨hfreed, fun n hn => ?_⟩, fun _ => ⟨hfreed, fun n hn => by cases hn⟩⟩
  cases hn
  rw [State.freed_geo, h₂.inv.geo] at hlt
  refine ⟨hcl, ⟨by omega, hlt⟩, hval.symm, ?_, fun e he hne => ?_⟩
  · rw [State.freed_logical, h₂.entry_self hg, Nat.zero_mod]
  · rw [State.freed_logical, h₂.entry_other hg he hne, hg.entry_same h₁.same he]

/-- `remove_chain` returns on every image: each round frees a cluster that was in use. -/
theorem removeChain_inv {w : State} (hw : Inv g w) (clst pclst : Nat) :
    Returns (removeChain clst pclst) w fun _ w' => FatOnly g w w' := by
  have hloop : ∀ {w₁ : State}, FatOnly g w w₁ →
      Returns (loop removeRound (w.geo.nFatent + 1) clst) w₁ fun _ w' => FatOnly g w w' := by
    intro w₁ h₁
    refine Returns.loop (I := fun n _ w' => FatOnly g w w' ∧ g.used w'.logical ≤ n)
      (fun n c w₂ ⟨h₂, hn⟩ => ?_) ⟨h₁, g.used_le _⟩ (by rw [hw.geo]; omega)
    refine (removeRound_inv hg h₂.inv c).mono fun r w₃ h₃ => ?_
    cases r with
    | inl nxt =>
      obtain ⟨hc, hn', hval, h0, hother⟩ := h₃.next nxt rfl
      have := hn'.1
      have hlt := Geometry.used_lt hc (by rw [hval]; omega) h0 hother
      exact ⟨g.used w₃.logical, by omega, h₂.trans h₃.fat, Nat.le_refl _⟩
    | inr res => exact h₂.trans h₃.fat
  rw [removeChain, returns_bind, returns_get]
  simp only [returns_ite, returns_pure, returns_bind]
  refine ⟨fun _ => FatOnly.refl hw, fun _ => ⟨fun _ => ?_, fun _ => hloop (FatOnly.refl hw)⟩⟩
  exact (putFat_inv hg hw pclst _).mono fun res w₁ h₁ =>
    ⟨fun _ => h₁.fatOnly, fun _ => hloop h₁.fatOnly⟩

/-! ## `create_chain` -/

omit hg in
/-- The clusters that the search from `scl` has tested when it is at `ncl`: it goes up to the last
cluster and then from the first one up to `scl`. -/
def Tested (scl ncl e : Nat) : Prop :=
  if scl ≤ ncl then scl < e ∧ e ≤ ncl else scl < e ∨ e ≤ ncl

/-- The tests that are left. -/
def testsLeft (g : Geometry) (scl ncl : Nat) : Nat :=
  if scl ≤ ncl then g.nFatent - 1 - ncl + scl else scl - ncl

/-- The state of the search for a free cluster: nothing was changed, and the tested clusters are in
use. -/
structure Searching (g : Geometry) (w : State) (scl ncl : Nat) (w' : State) : Prop where
  kept : Kept w w'
  inv : Inv g w'
  same : Same g w w'
  good : w.Flushable → w'.Flushable
  pos : 1 ≤ ncl
  lt : ncl < g.nFatent
  used : ∀ e, g.IsClust e → Tested scl ncl e → g.entry w.logical e ≠ 0

/-- The outcome of the search for a free cluster. -/
structure Searched (g : Geometry) (w : State) (r : Except Nat Nat) (w' : State) : Prop where
  kept : Kept w w'
  inv : Inv g w'
  same : Same g w w'
  good : w.Flushable → w'.Flushable
  out : (∃ n, r = .ok n ∧ g.IsClust n ∧ g.entry w.logical n = 0) ∨
    (r = .error 0 ∧ ∀ e, g.IsClust e → g.entry w.logical e ≠ 0) ∨ r = .error 1 ∨ r = .error DISKERR
  full : w.Flushable → g.FatOn w → (∀ e, g.IsClust e → g.entry w.logical e ≠ 1) →
    r ≠ .error 1 ∧ r ≠ .error DISKERR

/-- The next cluster to test. -/
def nextTest (g : Geometry) (ncl : Nat) : Nat := if g.nFatent ≤ ncl + 1 then 2 else ncl + 1

omit hg in
/-- The search for a free cluster goes up and wraps around to 2. -/
theorem nextTest_cases (ncl : Nat) : (g.nFatent ≤ ncl + 1 ∧ nextTest g ncl = 2) ∨
    (ncl + 1 < g.nFatent ∧ nextTest g ncl = ncl + 1) := by
  unfold nextTest
  split <;> omega

omit hg in
/-- What the next test adds to the clusters that were tested. -/
theorem tested_next {scl ncl e : Nat} (hlt : ncl < g.nFatent) (he : g.IsClust e)
    (h : nextTest g ncl ≠ scl → Tested scl (nextTest g ncl) e) :
    e = nextTest g ncl ∨ Tested scl ncl e := by
  have h₁ := he.1
  have h₂ := he.2
  have hn := nextTest_cases (g := g) ncl
  generalize nextTest g ncl = m at h hn ⊢
  by_cases hs : m = scl
  · simp only [Tested]
    split <;> omega
  · replace h := h hs
    simp only [Tested] at h ⊢
    split at h <;> split <;> omega

/-- One round of the search for a free cluster: one more cluster is tested. -/
theorem findRound_inv {w : State} {scl : Nat} (hs : 1 ≤ scl) (hlt : scl < g.nFatent) (ncl : Nat)
    (w₁ : State) (h : Searching g w scl ncl w₁) :
    Returns (findRound scl ncl) w₁ fun r w₂ => match r with
      | .inl n => Searching g w scl n w₂ ∧ testsLeft g scl n < testsLeft g scl ncl
      | .inr r => Searched g w r w₂ := by
  have hpos := h.pos
  have hncl := h.lt
  have hent := hg.entries
  rw [findRound, returns_bind, returns_get, returns_ite, h.inv.geo]
  refine ⟨fun hend => returns_pure.2 ?_, fun hgo => ?_⟩
  · refine ⟨h.kept, h.inv, h.same, h.good, .inr (.inl ⟨rfl, fun e he => h.used e he ?_⟩), by simp⟩
    have h₁ := he.1
    have h₂ := he.2
    simp only [Tested]
    split <;> omega
  have hnext : g.IsClust (nextTest g ncl) := by
    rcases nextTest_cases (g := g) ncl with ⟨_, h⟩ | ⟨_, h⟩ <;> rw [h] <;>
      exact ⟨by omega, by omega⟩
  simp only [returns_bind]
  change Returns (getFat (nextTest g ncl)) w₁ _
  refine (getFat_inv hg h.inv _).mono fun cs w₂ h₂ => ?_
  have hk := h.kept.trans h₂.kept
  have hsame := h.same.trans h₂.same
  have hgood : w.Flushable → w₂.Flushable := fun hf => h₂.good (h.good hf)
  have hentry : g.entry w₁.logical (nextTest g ncl) = g.entry w.logical (nextTest g ncl) :=
    hg.entry_same h.same hnext.2
  simp only [returns_ite, returns_pure]
  refine ⟨fun h0 => ?_, fun h0 => ⟨fun herr => ?_, fun herr => ⟨fun hend => ?_, fun hgo' => ?_⟩⟩⟩
  · -- a free cluster
    subst h0
    have hval := (h₂.val.resolve_left (by omega)).resolve_left (by simp only [DISKERR]; omega)
    refine ⟨hk, h₂.inv, hsame, hgood, .inl ⟨nextTest g ncl, rfl, hnext, ?_⟩, by simp⟩
    rw [← hentry, ← hval.2.1]
  · refine ⟨hk, h₂.inv, hsame, hgood, ?_, fun hf ho hno => ?_⟩
    · rcases herr with rfl | rfl <;> simp
    · -- a valid FAT on the device has no such entry
      have hon : g.FatOn w₁ := by
        unfold Geometry.FatOn
        rw [h.kept.sectors]
        exact ho
      have hcs := h₂.full (h.good hf) hon hnext
      rw [hentry] at hcs
      have hlt' := g.entry_lt w.logical (nextTest g ncl)
      have hle := g.entryMod_le
      rcases herr with rfl | rfl
      · exact absurd hcs.symm (hno _ hnext)
      · simp only [DISKERR] at hcs
        omega
  · refine ⟨hk, h₂.inv, hsame, hgood, .inr (.inl ⟨rfl, fun e he => ?_⟩), by simp⟩
    have hval := (h₂.val.resolve_left fun h => herr (.inl h)).resolve_left fun h => herr (.inr h)
    rcases tested_next hncl he (fun h => absurd hend h) with rfl | ht
    · rw [← hentry, ← hval.2.1]
      exact h0
    · exact h.used e he ht
  · have hval := (h₂.val.resolve_left fun h => herr (.inl h)).resolve_left fun h => herr (.inr h)
    refine ⟨⟨hk, h₂.inv, hsame, hgood, Nat.le_of_succ_le hnext.1, hnext.2, fun e he ht => ?_⟩, ?_⟩
    · rcases tested_next hncl he (fun _ => ht) with rfl | ht
      · rw [← hentry, ← hval.2.1]
        exact h0
      · exact h.used e he ht
    · change testsLeft g scl (nextTest g ncl) < testsLeft g scl ncl
      have hne : nextTest g ncl ≠ scl := hgo'
      have hn := nextTest_cases (g := g) ncl
      simp only [testsLeft]
      split <;> split <;> omega

/-- The search for a free cluster returns, and finds one if there is one. -/
theorem findFree_inv {w : State} (hw : Inv g w) {scl : Nat} (hs : 1 ≤ scl) (hlt : scl < g.nFatent) :
    Returns (findFree scl) w (Searched g w) := by
  rw [findFree, returns_bind, returns_get, hw.geo]
  refine Returns.loop (I := fun n ncl w' => Searching g w scl ncl w' ∧ testsLeft g scl ncl ≤ n)
    (fun n ncl w₁ ⟨h₁, hn⟩ => ?_) (n := testsLeft g scl scl)
    ⟨⟨Kept.refl w, hw, Same.refl g w, id, hs, hlt, fun e _ ht => ?_⟩, Nat.le_refl _⟩ ?_
  · refine (findRound_inv hg hs hlt ncl w₁ h₁).mono fun r w₂ h₂ => ?_
    cases r with
    | inl m => exact ⟨testsLeft g scl m, by have := h₂.2; omega, h₂.1, Nat.le_refl _⟩
    | inr r => exact h₂
  · simp only [Tested, Nat.le_refl, if_true] at ht
    omega
  · simp only [testsLeft, Nat.le_refl, if_true]
    omega

/-- The entries after the cluster `n` was made the end of a chain, linked from `c` unless `c` is
0. -/
def Linked (g : Geometry) (w : State) (c n : Nat) (w' : State) : Prop :=
  ∀ e < g.nFatent, g.entry w'.logical e =
    if e = c ∧ c ≠ 0 then n else if e = n then 0xFFFFFFFF % g.entryMod else g.entry w.logical e

/-- What `create_chain` does: it answers 0 for a full volume, 1 or `0xFFFFFFFF` on an error, the
next cluster of the chain if there is one, or a cluster that was free and is linked now. -/
structure Created (g : Geometry) (w : State) (c r : Nat) (w' : State) : Prop where
  fat : FatOnly g w w'
  none : r = 0 → Same g w w' ∧ w'.freeClst = w.freeClst ∧
    (w.freeClst = 0 ∨ ∀ e, g.IsClust e → g.entry w.logical e ≠ 0)
  out : r = 0 ∨ r = 1 ∨ r = DISKERR ∨ (g.IsClust r ∧ c ≠ 0 ∧ r = g.entry w.logical c ∧ Same g w w' ∧
      w'.freeClst = w.freeClst) ∨
    (g.IsClust r ∧ g.entry w.logical r = 0 ∧ Linked g w c r w' ∧ w.freeClst ≠ 0 ∧
      w'.freeClst = if w.freeClst ≤ g.nFatent - 2 then w.freeClst - 1 else w.freeClst)
  full : w.Flushable → g.FatOn w → (∀ e, g.IsClust e → g.entry w.logical e ≠ 1) →
    (c = 0 ∨ (g.IsClust c ∧ 2 ≤ g.entry w.logical c)) → r ≠ 1 ∧ r ≠ DISKERR
  /-- With the FAT on the device only reading it fails. -/
  err : w.Flushable → g.FatOn w → r = 1 ∨ r = DISKERR → Same g w w' ∧ w'.freeClst = w.freeClst
  /-- The chain that is stretched is in use, and a new cluster is linked behind its last one. -/
  tail : c = 0 ∨ r = 1 ∨ r = DISKERR ∨ (g.IsClust c ∧ 2 ≤ g.entry w.logical c ∧
    (r = g.entry w.logical c ∨ g.nFatent ≤ g.entry w.logical c))

/-- The cluster `c` that a chain is stretched from is its last one. -/
def IsTail (g : Geometry) (w : State) (c : Nat) : Prop :=
  c = 0 ∨ (g.IsClust c ∧ g.nFatent ≤ g.entry w.logical c)

/-- What `create_chain` may answer before the search, by the end that the chain has. -/
theorem IsTail.created {w : State} {c : Nat} (h : IsTail g w c) (r : Nat) :
    c = 0 ∨ r = 1 ∨ r = DISKERR ∨ (g.IsClust c ∧ 2 ≤ g.entry w.logical c ∧
      (r = g.entry w.logical c ∨ g.nFatent ≤ g.entry w.logical c)) := by
  have := hg.entries
  rcases h with h | h
  · exact .inl h
  · exact .inr (.inr (.inr ⟨h.1, by omega, .inr h.2⟩))

/-- What linking a free cluster does. -/
structure LinkedPost (g : Geometry) (w : State) (c n r : Nat) (w' : State) : Prop where
  fat : FatOnly g w w'
  out : r = 1 ∨ r = DISKERR ∨ (r = n ∧ Linked g w c n w' ∧
    w'.freeClst = if w.freeClst ≤ g.nFatent - 2 then w.freeClst - 1 else w.freeClst)
  full : w.Flushable → g.FatOn w → (c = 0 ∨ g.IsClust c) → r = n

/-- A free cluster becomes the end of the chain. -/
theorem linkClust_inv {w : State} (hw : Inv g w) {c n : Nat} (hn : g.IsClust n)
    (hfree : w.freeClst ≠ 0) :
    Returns (linkClust c n) w (LinkedPost g w c n) := by
  have hmod := hg.nFatent_lt_mod
  have herr : ∀ {res : FRESULT} {w' : State}, FatOnly g w w' →
      (w.Flushable → g.FatOn w → (c = 0 ∨ g.IsClust c) → False) →
      LinkedPost g w c n (if res = .diskErr then DISKERR else 1) w' := fun h hfull => by
    refine ⟨h, ?_, fun h₁ h₂ h₃ => (hfull h₁ h₂ h₃).elim⟩
    split <;> simp
  -- the allocation information is updated after the links
  have hend : ∀ {w₂ : State}, FatOnly g w w₂ → w₂.freeClst = w.freeClst →
      g.fatbase < w₂.disk.sectors → Linked g w c n w₂ → LinkedPost g w c n n (w₂.allocated n) := by
    intro w₂ h₂ hfr hon hl
    refine ⟨h₂.trans (FatOnly.allocated h₂.inv hon n), .inr (.inr ⟨rfl, ?_, ?_⟩), fun _ _ _ => rfl⟩
    · unfold Linked
      rw [State.allocated_logical]
      exact hl
    · rw [State.allocated_freeClst _ _ (by rw [hfr]; exact hfree), hfr, h₂.inv.geo]
  rw [linkClust, returns_bind]
  refine (putFat_inv hg hw n _).mono fun res w₁ h₁ => ?_
  simp only [returns_bind, returns_ite, returns_pure, returns_modify]
  refine ⟨fun hlink => ?_, fun hno => ⟨fun hok => ?_, fun hne => ?_⟩⟩
  · obtain ⟨rfl, hc⟩ := hlink
    refine (putFat_inv hg h₁.inv c n).mono fun res w₂ h₂ => ⟨fun hok => ?_, fun hne => ?_⟩
    · subst hok
      have hfat := h₁.fatOnly.trans h₂.fatOnly
      refine hend hfat (h₂.kept.freeClst.trans h₁.kept.freeClst)
        (by rw [h₂.kept.sectors]; exact h₂.onDevice rfl) fun e he => ?_
      by_cases hec : e = c
      · rw [if_pos ⟨hec, hc⟩, hec, h₂.entry_self hg, Nat.mod_eq_of_lt (by have := hn.2; omega)]
      · rw [if_neg fun h => hec h.1, h₂.entry_other hg he hec]
        by_cases hen : e = n
        · rw [if_pos hen, hen, h₁.entry_self hg]
        · rw [if_neg hen, h₁.entry_other hg he hen]
    · refine herr (h₁.fatOnly.trans h₂.fatOnly) fun hf ho hcl => hne ?_
      refine h₂.full (h₁.good hf) ?_ (hcl.resolve_left hc)
      unfold Geometry.FatOn
      rw [h₁.kept.sectors]
      exact ho
  · subst hok
    have hc : c = 0 := by
      by_contra hne
      exact hno ⟨rfl, hne⟩
    refine hend h₁.fatOnly h₁.kept.freeClst (by rw [h₁.kept.sectors]; exact h₁.onDevice rfl)
      fun e he => ?_
    rw [if_neg fun h => h.2 hc]
    by_cases hen : e = n
    · rw [if_pos hen, hen, h₁.entry_self hg]
    · rw [if_neg hen, h₁.entry_other hg he hen]
  · exact herr h₁.fatOnly fun hf ho _ => hne (h₁.full hf ho hn)

omit hg in
/-- The size of the device does not change. -/
theorem Geometry.FatOn.kept {w w' : State} (h : g.FatOn w) (hk : w'.disk.sectors = w.disk.sectors) :
    g.FatOn w' := by
  unfold Geometry.FatOn
  rw [hk]
  exact h

/-- The state after the FAT was only read. -/
structure FatSeen (g : Geometry) (w w' : State) : Prop where
  kept : Kept w w'
  inv : Inv g w'
  same : Same g w w'
  good : w.Flushable → w'.Flushable

omit hg in
/-- A state in which the FAT was only read. -/
theorem FatSeen.fatOnly {w w' : State} (h : FatSeen g w w') : FatOnly g w w' :=
  ⟨h.inv, h.kept.sectors, h.kept.registered, h.kept.fsid, h.kept.charSigned, h.good,
    fun s _ hs => h.same s hs⟩

/-- Linking after the FAT was only read. -/
theorem LinkedPost.created {w w₁ w₂ : State} {c n r : Nat} (hn : g.IsClust n)
    (hcl : IsTail g w c) (h₁ : FatSeen g w w₁) (h0 : g.entry w.logical n = 0)
    (hfree : w.freeClst ≠ 0) (h : LinkedPost g w₁ c n r w₂) : Created g w c r w₂ := by
  have hn2 := hn.1
  have hnl := hn.2
  have hmax := hg.nFatent_lt
  have hr : w.Flushable → g.FatOn w → r ≠ 1 ∧ r ≠ DISKERR := fun hf ho => by
    rw [h.full (h₁.good hf) (ho.kept h₁.kept.sectors) (hcl.imp_right And.left)]
    exact ⟨by omega, by simp only [DISKERR] at *; omega⟩
  refine ⟨h₁.fatOnly.trans h.fat, fun hr => ?_, ?_, fun hf ho _ _ => hr hf ho, fun hf ho he => ?_,
    hcl.created hg r⟩
  · rcases h.out with h | h | h
    · omega
    · simp only [DISKERR] at h
      omega
    · omega
  · rcases h.out with h | h | ⟨rfl, hl, hfr⟩
    · exact .inr (.inl h)
    · exact .inr (.inr (.inl h))
    · refine .inr (.inr (.inr (.inr ⟨hn, h0, fun e he => ?_, hfree, ?_⟩)))
      · rw [hl e he, hg.entry_same h₁.same he]
      · rw [hfr, h₁.kept.freeClst]
  · rcases he with he | he
    · exact absurd he (hr hf ho).1
    · exact absurd he (hr hf ho).2

/-- The search and the link of what it finds. -/
theorem findAndLink_inv {w w₁ : State} {c scl : Nat} (hcl : IsTail g w c)
    (h₁ : FatSeen g w w₁) (hs : 1 ≤ scl)
    (hlt : scl < g.nFatent) (hfree : w.freeClst ≠ 0) :
    Returns (findAndLink c scl) w₁ (Created g w c) := by
  rw [findAndLink, returns_bind]
  refine (findFree_inv hg h₁.inv hs hlt).mono fun r w₂ h₂ => ?_
  have hseen : FatSeen g w w₂ := ⟨h₁.kept.trans h₂.kept, h₂.inv, h₁.same.trans h₂.same,
    fun hf => h₂.good (h₁.good hf)⟩
  have hentry : ∀ e, g.IsClust e → g.entry w₁.logical e = g.entry w.logical e :=
    fun e he => hg.entry_same h₁.same he.2
  have herr : ∀ v, v = 1 ∨ v = DISKERR → r = .error v → Created g w c v w₂ := by
    intro v hv hr
    refine ⟨hseen.fatOnly, fun h0 => by rcases hv with h | h <;> simp [h0] at h, ?_,
      fun hf ho hno _ => ?_, fun _ _ _ => ⟨hseen.same, hseen.kept.freeClst⟩, hcl.created hg v⟩
    · rcases hv with h | h
      · exact .inr (.inl h)
      · exact .inr (.inr (.inl h))
    · have hfull := h₂.full (h₁.good hf) (ho.kept h₁.kept.sectors) fun e he => by
        rw [hentry e he]
        exact hno e he
      rcases hv with rfl | rfl
      · exact absurd hr hfull.1
      · exact absurd hr hfull.2
  rcases h₂.out with ⟨n, rfl, hn, h0⟩ | ⟨rfl, hall⟩ | rfl | rfl
  · refine (linkClust_inv hg h₂.inv hn (by rw [hseen.kept.freeClst]; exact hfree)).mono
      fun r w₃ h₃ => ?_
    exact h₃.created hg hn hcl hseen (by rw [← hentry n hn]; exact h0) hfree
  · refine returns_pure.2 ⟨hseen.fatOnly, fun _ => ⟨hseen.same, hseen.kept.freeClst, .inr
      fun e he => ?_⟩, .inl rfl, fun _ _ _ _ => ⟨by omega, by simp⟩,
      fun _ _ _ => ⟨hseen.same, hseen.kept.freeClst⟩, hcl.created hg 0⟩
    rw [← hentry e he]
    exact hall e he
  · exact returns_pure.2 (herr 1 (.inl rfl) rfl)
  · exact returns_pure.2 (herr DISKERR (.inr rfl) rfl)

/-- `create_chain` behind the test of the current cluster. -/
theorem createFrom_inv {w w₁ : State} {c scl : Nat} (hcl : IsTail g w c)
    (h₁ : FatSeen g w w₁) (hs : 1 ≤ scl)
    (hlt : scl < g.nFatent) : Returns (createFrom c scl) w₁ (Created g w c) := by
  rw [createFrom, returns_bind, returns_get]
  simp only [returns_ite, returns_pure, returns_bind]
  refine ⟨fun hz => ?_, fun hnz => ?_⟩
  · refine ⟨h₁.fatOnly, fun _ => ⟨h₁.same, h₁.kept.freeClst, .inl ?_⟩, .inl rfl,
      fun _ _ _ _ => ⟨by omega, by simp⟩, fun _ _ _ => ⟨h₁.same, h₁.kept.freeClst⟩,
      hcl.created hg 0⟩
    rw [← h₁.kept.freeClst]
    exact hz
  have hfree : w.freeClst ≠ 0 := by
    rw [← h₁.kept.freeClst]
    exact hnz
  refine ⟨fun hc => ?_, fun _ => findAndLink_inv hg hcl h₁ hs hlt hfree⟩
  -- the chain is stretched by the next cluster if that is free
  have hent := hg.entries
  rw [h₁.inv.geo]
  change Returns (getFat (nextTest g scl)) w₁ _
  have hnext : g.IsClust (nextTest g scl) := by
    rcases nextTest_cases (g := g) scl with ⟨_, h⟩ | ⟨_, h⟩ <;> rw [h] <;>
      exact ⟨by omega, by omega⟩
  have hentry : g.entry w₁.logical (nextTest g scl) = g.entry w.logical (nextTest g scl) :=
    hg.entry_same h₁.same hnext.2
  refine (getFat_inv hg h₁.inv _).mono fun cs w₂ h₂ => ?_
  have hseen : FatSeen g w w₂ := ⟨h₁.kept.trans h₂.kept, h₂.inv, h₁.same.trans h₂.same,
    fun hf => h₂.good (h₁.good hf)⟩
  refine ⟨fun herr => ?_, fun hok => ⟨fun _ => ?_, fun h0 => ?_⟩⟩
  · refine ⟨hseen.fatOnly, fun h0 => by rcases herr with h | h <;> simp [h0] at h, ?_,
      fun hf ho hno _ => ?_, fun _ _ _ => ⟨hseen.same, hseen.kept.freeClst⟩, hcl.created hg cs⟩
    · rcases herr with h | h
      · exact .inr (.inl h)
      · exact .inr (.inr (.inl h))
    · have hcs := h₂.full (h₁.good hf) (ho.kept h₁.kept.sectors) hnext
      rw [hentry] at hcs
      have hlt' := g.entry_lt w.logical (nextTest g scl)
      have hle := g.entryMod_le
      rw [hcs]
      exact ⟨hno _ hnext, by simp only [DISKERR]; omega⟩
  · rw [returns_get]
    refine findAndLink_inv hg hcl hseen ?_ ?_ hfree
    · split <;> omega
    · split <;> omega
  · have h0' : cs = 0 := by simpa using h0
    have hval := (h₂.val.resolve_left fun h => hok (.inl h)).resolve_left fun h => hok (.inr h)
    refine (linkClust_inv hg h₂.inv hnext (by rw [hseen.kept.freeClst]; exact hfree)).mono
      fun r w₃ h₃ => h₃.created hg hnext hcl hseen ?_ hfree
    rw [← hentry, ← hval.2.1, h0']

/-- `create_chain` on every image. -/
theorem createChain_inv {w : State} (hw : Inv g w) (c : Nat) :
    Returns (createChain c) w (Created g w c) := by
  have hseen : FatSeen g w w := ⟨Kept.refl w, hw, Same.refl g w, id⟩
  have hent := hg.entries
  rw [createChain, returns_bind, returns_get, returns_ite]
  refine ⟨fun hc => createFrom_inv hg (.inl hc) hseen ?_ ?_, fun hc => ?_⟩
  · split <;> omega
  · rw [hw.geo]
    split <;> omega
  simp only [returns_bind, returns_ite, returns_pure]
  refine (getFat_inv hg hw c).mono fun cs w₁ h₁ => ?_
  have hseen₁ : FatSeen g w w₁ := ⟨h₁.kept, h₁.inv, h₁.same, h₁.good⟩
  have hfull : w.Flushable → g.FatOn w → (c = 0 ∨ (g.IsClust c ∧ 2 ≤ g.entry w.logical c)) →
      cs = g.entry w.logical c ∧ 2 ≤ cs ∧ cs ≠ DISKERR := by
    intro hf ho hcl
    obtain ⟨hcl, h2⟩ := hcl.resolve_left hc
    have hcs := h₁.full hf ho hcl
    have hlt := g.entry_lt w.logical c
    have hle := g.entryMod_le
    exact ⟨hcs, by omega, by simp only [DISKERR]; omega⟩
  refine ⟨fun hlt => ?_, fun hge => ⟨fun hd => ?_, fun hd => ⟨fun hin => ?_, fun hend => ?_⟩⟩⟩
  · refine ⟨hseen₁.fatOnly, by simp, .inr (.inl rfl), fun hf ho _ hcl => ?_, fun _ _ _ =>
      ⟨hseen₁.same, hseen₁.kept.freeClst⟩, .inr (.inl rfl)⟩
    have := hfull hf ho hcl
    omega
  · refine ⟨hseen₁.fatOnly, fun h0 => by omega, .inr (.inr (.inl hd)), fun hf ho _ hcl => ?_,
      fun _ _ _ => ⟨hseen₁.same, hseen₁.kept.freeClst⟩, .inr (.inr (.inl hd))⟩
    exact absurd hd (hfull hf ho hcl).2.2
  · have hval := (h₁.val.resolve_left (by omega)).resolve_left hd
    rw [hw.geo] at hin
    exact ⟨hseen₁.fatOnly, fun h0 => by omega,
      .inr (.inr (.inr (.inl ⟨⟨by omega, hin⟩, hc, hval.2.1,
      h₁.same, h₁.kept.freeClst⟩))), fun _ _ _ _ => ⟨by omega, hd⟩,
      fun _ _ _ => ⟨hseen₁.same, hseen₁.kept.freeClst⟩,
      .inr (.inr (.inr ⟨hval.1, by rw [← hval.2.1]; omega, .inl hval.2.1⟩))⟩
  · have hval := (h₁.val.resolve_left (by omega)).resolve_left hd
    rw [hw.geo] at hend
    exact createFrom_inv hg (.inr ⟨hval.1, by rw [← hval.2.1]; omega⟩) hseen₁
      (by have := hval.1.1; omega) hval.1.2

end

/-! ## Properties that the FAT functions keep -/

section
variable {I : State → Prop}

/-- Changing the FAT keeps what moving the window and storing to it keep. -/
theorem putFat_keeps (hmove : ∀ s, Keeps I (moveWindow s)) (hmod : ∀ f, Keeps I (modWin f))
    (c v : Nat) : Keeps I (putFat c v) := by
  unfold putFat
  refine .get fun w _ => .ite (fun _ => ?_) fun _ => .pure _
  cases w.geo.fsType with
  | none => exact .pure _
  | fat12 =>
    exact .bind (hmove _) fun _ => .ite (fun _ => .pure _) fun _ => .bind (hmod _) fun _ => .bind
      (hmove _) fun _ => .ite (fun _ => .pure _) fun _ => .bind (hmod _) fun _ => .pure _
  | fat16 =>
    exact .bind (hmove _) fun _ => .ite (fun _ => .pure _) fun _ => .bind (hmod _) fun _ => .pure _
  | fat32 =>
    exact .bind (hmove _) fun _ => .ite (fun _ => .pure _) fun _ => .bind (hmod _) fun _ => .pure _

variable (hget : ∀ c, Keeps I (getFat c)) (hput : ∀ c v, Keeps I (putFat c v))

include hget hput

/-- `remove_chain` keeps what reading and changing FAT entries and counting a free cluster keep. -/
theorem removeChain_keeps (hfreed : ∀ w, I w → I w.freed) (c p : Nat) :
    Keeps I (removeChain c p) := by
  have hround : ∀ c, Keeps I (removeRound c) := fun c => by
    unfold removeRound
    exact .bind (hget _) fun _ => .ite (fun _ => .pure _) fun _ => .ite (fun _ => .pure _) fun _ =>
      .ite (fun _ => .pure _) fun _ => .bind (hput _ _) fun _ => .ite (fun _ => .pure _) fun _ =>
        .bind (.modify hfreed) fun _ => .get fun _ _ => .ite (fun _ => .pure _) fun _ => .pure _
  unfold removeChain
  exact .get fun _ _ => .ite (fun _ => .pure _) fun _ => .ite (fun _ => .bind (hput _ _) fun _ =>
    .ite (fun _ => .pure _) fun _ => .loop hround _ _) fun _ => .loop hround _ _

/-- `create_chain` keeps what reading and changing FAT entries and counting an allocated cluster
keep. The cluster is one that follows another in the cyclic search. -/
theorem createChain_keeps_next {P : Nat → Prop}
    (hnext : ∀ w n, I w → P (if w.geo.nFatent ≤ n + 1 then 2 else n + 1))
    (halloc : ∀ w n, P n → I w → I (w.allocated n)) (c : Nat) : Keeps I (createChain c) := by
  have hlink : ∀ c n, P n → Keeps I (linkClust c n) := fun c n hn => by
    unfold linkClust
    exact .bind (hput _ _) fun _ => .bind (.ite (fun _ => hput _ _) fun _ => .pure _) fun _ => .ite
      (fun _ => .bind (.modify fun w hw => halloc w n hn hw) fun _ => .pure _) fun _ => .pure _
  have hfind : ∀ c scl, Keeps I (findAndLink c scl) := fun c scl => by
    have hround : ∀ n, Yields I (Sum.elim (fun _ => True) fun r => ∀ n, r = .ok n → P n)
        (findRound scl n) := fun n => by
      unfold findRound
      refine .get fun w hw => .ite (fun _ => .pure (by simp)) fun _ => (hget _).then fun cs => .ite
        (fun _ => .pure fun m hm => ?_) fun _ => .ite (fun _ => .pure (by simp)) fun _ => .ite
          (fun _ => .pure (by simp)) fun _ => .pure trivial
      cases hm
      exact hnext w n hw
    unfold findAndLink findFree
    refine fun w hw => ensures_bind.2 ((Yields.get (f := fun w => loop (findRound scl)
      (w.geo.nFatent + 1) scl) (fun _ _ => .loop (fun n _ => hround n) _ trivial) w hw).mono
      fun r w' ⟨hw', hr⟩ => ?_)
    cases r with
    | ok n => exact hlink c n (hr n rfl) w' hw'
    | error v => exact ensures_pure.2 hw'
  have hfrom : ∀ c scl, Keeps I (createFrom c scl) := fun c scl => by
    unfold createFrom
    exact .get fun w hw => .ite (fun _ => .pure _) fun _ => .ite (fun _ => .bind (hget _) fun _ =>
      .ite (fun _ => .pure _) fun _ => .ite (fun _ => .get fun _ _ => hfind _ _) fun _ =>
        hlink _ _ (hnext w _ hw)) fun _ => hfind _ _
  unfold createChain
  exact .get fun _ _ => .ite (fun _ => hfrom _ _) fun _ => .bind (hget _) fun _ => .ite
    (fun _ => .pure _) fun _ => .ite (fun _ => .pure _) fun _ => .ite (fun _ => .pure _)
      fun _ => hfrom _ _

/-- `create_chain` keeps what `get_fat`, `put_fat` and the allocation information keep. -/
theorem createChain_keeps (halloc : ∀ w n, I w → I (w.allocated n)) (c : Nat) :
    Keeps I (createChain c) :=
  createChain_keeps_next hget hput (P := fun _ => True) (fun _ _ _ => trivial)
    (fun w n _ => halloc w n) c

end

/-- A cluster that is linked is the answer, or the answer is an error. -/
theorem linkClust_pos (c : Nat) {n : Nat} (hn : n ≠ 0) :
    Yields (fun _ => True) (fun r => r ≠ 0) (linkClust c n) := by
  unfold linkClust
  exact (keeps_true _).then fun _ => (keeps_true _).then fun _ => .ite
    (fun _ => (keeps_true _).then fun _ => .pure hn) fun _ => .pure (by split <;> decide)

/-- On a full volume `create_chain` keeps what reading FAT entries keeps. -/
theorem createChain_full_keeps {I : State → Prop} (hget : ∀ c, Keeps I (getFat c)) {w : State}
    (hw : I w) (c : Nat) : Ensures (createChain c) w fun r w' => r = 0 → I w' := by
  have hlink : ∀ (c : Nat) {n : Nat} (w : State), n ≠ 0 →
      Ensures (linkClust c n) w fun r w' => r = 0 → I w' := fun c n w hn =>
    (linkClust_pos c hn w trivial).mono fun r w' h h0 => absurd h0 h.2
  have hnext : ∀ (w : State) (n : Nat), (if w.geo.nFatent ≤ n + 1 then 2 else n + 1) ≠ 0 :=
    fun w n => by
      split <;> omega
  have hround : ∀ scl n, Yields I (Sum.elim (fun _ => True) fun r => ∀ n, r = .ok n → n ≠ 0)
      (findRound scl n) := fun scl n => by
    unfold findRound
    refine .get fun w _ => .ite (fun _ => .pure (by simp)) fun _ => (hget _).then fun cs => .ite
      (fun _ => .pure fun m hm => ?_) fun _ => .ite (fun _ => .pure (by simp)) fun _ => .ite
        (fun _ => .pure (by simp)) fun _ => .pure trivial
    cases hm
    exact hnext w n
  have hfind : ∀ (c scl : Nat) {w : State}, I w →
      Ensures (findAndLink c scl) w fun r w' => r = 0 → I w' := fun c scl w hw => by
    unfold findAndLink findFree
    refine ensures_bind.2 ((Yields.get (f := fun w => loop (findRound scl) (w.geo.nFatent + 1) scl)
      (fun _ _ => .loop (fun n _ => hround scl n) _ trivial) w hw).mono fun r w' ⟨hw', hr⟩ => ?_)
    cases r with
    | ok n => exact hlink c w' (hr n rfl)
    | error v => exact ensures_pure.2 fun _ => hw'
  have hfrom : ∀ (c scl : Nat) {w : State}, I w →
      Ensures (createFrom c scl) w fun r w' => r = 0 → I w' := fun c scl w hw => by
    rw [createFrom, ensures_bind, ensures_get]
    simp only [ensures_ite, ensures_pure, ensures_bind]
    refine ⟨fun _ _ => hw, fun _ => ⟨fun _ => ?_, fun _ => hfind c scl hw⟩⟩
    refine (hget _ w hw).mono fun cs w₁ h₁ => ⟨fun _ _ => h₁, fun _ => ⟨fun _ => ?_, fun _ => ?_⟩⟩
    · exact ensures_get.2 (hfind _ _ h₁)
    · exact hlink _ _ (hnext w scl)
  rw [createChain, ensures_bind, ensures_get]
  simp only [ensures_ite, ensures_pure, ensures_bind]
  exact ⟨fun _ => hfrom _ _ hw, fun _ => (hget _ w hw).mono fun cs w₁ h₁ => ⟨fun _ _ => h₁, fun _ =>
    ⟨fun _ _ => h₁, fun _ => ⟨fun _ _ => h₁, fun _ => hfrom _ _ h₁⟩⟩⟩⟩

end FatFs
