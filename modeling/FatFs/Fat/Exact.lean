import FatFs.Fat.Count

/-!
# Chains are stretched and removed exactly

What `create_chain` and `remove_chain` do to the FAT of a volume whose FAT is on the device,
whatever its entries are. `create_chain` finds a free cluster if there is one, from every hint, and
changes the entries of the new link only (`createChain_exact`). `remove_chain` frees the clusters
that are reached from its start, up to the first one that is not a used cluster any more, also on a
cyclic chain, where it stops at an entry it has cleared itself (`removeChain_exact`).
-/

namespace FatFs

open Run

section
variable {g : Geometry} (hg : g.Sound)

/-! ## `create_chain` -/

/-- The cluster that was allocated last. -/
def LastIs (l : Nat) (w : State) : Prop := w.lastClst = l

theorem getFat_last (l c : Nat) : Keeps (LastIs l) (getFat c) :=
  getFat_keeps (fun s w h => (moveWindow_spec w s).ensures.mono fun _ _ h' =>
    h'.kept.lastClst.trans h) c

theorem putFat_last (l c v : Nat) : Keeps (LastIs l) (putFat c v) :=
  putFat_keeps (fun s w h => (moveWindow_spec w s).ensures.mono fun _ _ h' =>
    h'.kept.lastClst.trans h) (fun _ => .modify fun _ h => h) c v

/-- An answer of `create_chain` that is no cluster. -/
def NoClust (r : Nat) : Prop := r = 0 ∨ r = 1 ∨ r = DISKERR

/-- The number of the last cluster is kept, or it is the answer. -/
def LastPost (l r : Nat) (w : State) : Prop :=
  (w.lastClst = l ∧ NoClust r) ∨ (w.lastClst = r ∧ r ≠ 0)

theorem linkClust_last (l c : Nat) {n : Nat} (hn : n ≠ 0) {w : State} (hw : LastIs l w) :
    Ensures (linkClust c n) w (LastPost l) := by
  rw [linkClust, ensures_bind]
  refine (putFat_last l n _ w hw).mono fun res w₁ h₁ => ?_
  rw [ensures_bind]
  have hput : Keeps (LastIs l) (if res = .ok ∧ c ≠ 0 then putFat c n else pure res) :=
    .ite (fun _ => putFat_last l c n) fun _ => .pure _
  refine (hput w₁ h₁).mono fun res' w₂ h₂ => ?_
  rw [ensures_ite]
  refine ⟨fun _ => ?_, fun _ => ensures_pure.2 (.inl ⟨h₂, ?_⟩)⟩
  · simp only [ensures_bind, ensures_modify, ensures_pure]
    refine .inr ⟨?_, hn⟩
    unfold State.allocated
    split <;> rfl
  · split
    · exact .inr (.inr rfl)
    · exact .inr (.inl rfl)

/-- What the search for a free cluster answers: the number of one, or a value that is none. -/
def FoundClust : Except Nat Nat → Prop
  | .ok n => n ≠ 0
  | .error v => NoClust v

theorem findAndLink_last (l c scl : Nat) {w : State} (hw : LastIs l w) :
    Ensures (findAndLink c scl) w (LastPost l) := by
  have hround : ∀ n, Yields (LastIs l) (Sum.elim (fun _ => True) FoundClust) (findRound scl n) := by
    intro n
    unfold findRound
    refine .get fun w _ => .ite (fun _ => .pure (.inl rfl)) fun _ => (getFat_last l _).then
      fun cs => .ite (fun _ => .pure ?_) fun _ => .ite (fun h => .pure (.inr h)) fun _ =>
        .ite (fun _ => .pure (.inl rfl)) fun _ => .pure trivial
    show (if w.geo.nFatent ≤ n + 1 then 2 else n + 1) ≠ 0
    split <;> omega
  have hfind : Yields (LastIs l) FoundClust (findFree scl) := by
    unfold findFree
    exact .get fun _ _ => .loop (fun n _ => hround n) _ trivial
  rw [findAndLink, ensures_bind]
  refine (hfind w hw).mono fun r w₁ hpost => ?_
  obtain ⟨h₁, hr⟩ := hpost
  cases r with
  | ok n => exact linkClust_last l c hr h₁
  | error v => exact ensures_pure.2 (.inl ⟨h₁, hr⟩)

theorem createFrom_last (l c scl : Nat) {w : State} (hw : LastIs l w) :
    Ensures (createFrom c scl) w (LastPost l) := by
  rw [createFrom, ensures_bind, ensures_get]
  simp only [ensures_ite, ensures_pure, ensures_bind]
  refine ⟨fun _ => .inl ⟨hw, .inl rfl⟩, fun _ => ⟨fun _ => ?_, fun _ =>
    findAndLink_last l c scl hw⟩⟩
  refine (getFat_last l _ w hw).mono fun cs w₁ h₁ => ?_
  simp only [ensures_get]
  refine ⟨fun h => .inl ⟨h₁, .inr h⟩, fun _ => ⟨fun _ => findAndLink_last l c _ h₁,
    fun _ => linkClust_last l c ?_ h₁⟩⟩
  split <;> omega

/-- `create_chain` from the end of a chain, or from nothing, has allocated `r`, or found the volume
full. -/
structure Allocates (g : Geometry) (w : State) (c r : Nat) (w' : State) : Prop where
  full : r = 0 ↔ ∀ e, g.IsClust e → g.entry w.logical e ≠ 0
  free : r ≠ 0 → g.entry w.logical r = 0
  /-- The new cluster ends the chain and is linked from `c`, and nothing else changes. -/
  entries : ∀ e < g.nFatent, g.entry w'.logical e =
    if r = 0 then g.entry w.logical e
    else if e = c ∧ c ≠ 0 then r
    else if e = r then 0xFFFFFFFF % g.entryMod
    else g.entry w.logical e
  last : w'.lastClst = if r = 0 then w.lastClst else r

/-- `create_chain` from a cluster that has a successor answers it and changes nothing. -/
structure Follows (g : Geometry) (w : State) (c r : Nat) (w' : State) : Prop where
  succ : r = g.entry w.logical c
  entries : ∀ e < g.nFatent, g.entry w'.logical e = g.entry w.logical e
  last : w'.lastClst = w.lastClst

/-- The end of a chain, or nothing. -/
def ChainEnd (g : Geometry) (w : State) (c : Nat) : Prop :=
  c = 0 ∨ g.nFatent ≤ g.entry w.logical c

include hg

theorem createChain_last {w : State} (hw : Inv g w) (hf : w.Flushable) (ho : g.FatOn w) {c : Nat}
    (hc : c = 0 ∨ (g.IsClust c ∧ 2 ≤ g.entry w.logical c)) :
    Ensures (createChain c) w fun r w' =>
      (ChainEnd g w c → LastPost w.lastClst r w') ∧
      (¬ChainEnd g w c → r = g.entry w.logical c ∧ Same g w w' ∧ w'.lastClst = w.lastClst) := by
  rw [createChain, ensures_bind, ensures_get]
  simp only [ensures_ite, ensures_pure, ensures_bind]
  refine ⟨fun h0 => (createFrom_last _ c _ rfl).mono fun r w' h => ⟨fun _ => h, fun hn =>
    absurd (.inl h0) hn⟩, fun hc0 => ?_⟩
  obtain ⟨hcl, h2⟩ := hc.resolve_left hc0
  refine (getFat_inv hg hw c).ensures.mono fun cs w₁ h₁ => ?_
  have hcs := h₁.full hf ho hcl
  have hlt := g.entry_lt w.logical c
  have hle := g.entryMod_le
  refine ⟨fun h => by omega, fun _ => ⟨fun hd => ?_, fun _ => ⟨fun hin => ?_, fun hend => ?_⟩⟩⟩
  · rw [hd, DISKERR] at hcs
    omega
  · rw [hw.geo, hcs] at hin
    refine ⟨fun hn => ?_, fun _ => ⟨hcs, h₁.same, h₁.kept.lastClst⟩⟩
    rcases hn with h | h <;> omega
  · rw [hw.geo, hcs] at hend
    exact (createFrom_last _ c c h₁.kept.lastClst).mono fun r w' h =>
      ⟨fun _ => h, fun hn => absurd (.inr (by omega)) hn⟩

/-- `create_chain` allocates a free cluster if there is one, from every hint. -/
theorem createChain_exact {w : State} (hw : Inv g w) (hf : w.Flushable) (ho : g.FatOn w) {c : Nat}
    (hone : ∀ e, g.IsClust e → g.entry w.logical e ≠ 1)
    (hcount : g.nFatent - 2 < w.freeClst ∨ w.freeClst = g.free w.logical)
    (hc : c = 0 ∨ (g.IsClust c ∧ g.entry w.logical c ≠ 0)) :
    Returns (createChain c) w fun r w' =>
      (ChainEnd g w c → Allocates g w c r w') ∧ (¬ChainEnd g w c → Follows g w c r w') ∧
      (r ≠ 0 → g.IsClust r) := by
  have hent := hg.entries
  have hmax := hg.nFatent_lt
  have hc' : c = 0 ∨ (g.IsClust c ∧ 2 ≤ g.entry w.logical c) := hc.imp_right fun h => by
    have := hone c h.1
    exact ⟨h.1, by omega⟩
  refine ((createChain_inv hg hw c).and_ensures (createChain_last hg hw hf ho hc')).mono
    fun r w' ⟨h, hend, hgo⟩ => ?_
  obtain ⟨h1, hd⟩ := h.full hf ho hone hc'
  have hcl : r ≠ 0 → g.IsClust r := fun h0 => by
    rcases h.out with hr | hr | hr | hr | hr
    · exact absurd hr h0
    · exact absurd hr h1
    · exact absurd hr hd
    · exact hr.1
    · exact hr.1
  refine ⟨fun he => ?_, fun hne => ?_, hcl⟩
  · have hnofree : r = 0 → ∀ e, g.IsClust e → g.entry w.logical e ≠ 0 := fun h0 => by
      obtain ⟨-, -, hz | hall⟩ := h.none h0
      · rcases hcount with hk | hk
        · omega
        · exact Geometry.free_eq_zero_iff.1 (hk.symm.trans hz)
      · exact hall
    have hnew : r ≠ 0 → g.entry w.logical r = 0 ∧ Linked g w c r w' := fun h0 => by
      rcases h.out with hr | hr | hr | ⟨hr, hc0, hs, -⟩ | ⟨-, hz, hl, -⟩
      · exact absurd hr h0
      · exact absurd hr h1
      · exact absurd hr hd
      · have := hr.2
        have := he.resolve_left hc0
        omega
      · exact ⟨hz, hl⟩
    refine ⟨⟨hnofree, fun hall => ?_⟩, fun h0 => (hnew h0).1, fun e hlt => ?_, ?_⟩
    · by_contra h0
      exact hall r (hcl h0) (hnew h0).1
    · split
      · rename_i h0
        exact hg.entry_same (h.none h0).1 hlt
      · rename_i h0
        exact (hnew h0).2 e hlt
    · rcases hend he with ⟨hl, h0 | h0 | h0⟩ | ⟨hl, h0⟩
      · rw [if_pos h0, hl]
      · exact absurd h0 h1
      · exact absurd h0 hd
      · rw [if_neg h0, hl]
  · obtain ⟨hr, hs, hl⟩ := hgo hne
    exact ⟨hr, fun e he => hg.entry_same hs he, hl⟩

omit hg in
/-- An image of the plain volume with the chain 2, 3 in a cycle, and a chain of cluster 4. -/
def cycleImage : List UInt8 := plainImage ++ [0, 0, 0, 0x03, 0x20, 0x00, 0xFF, 0x0F]

omit hg in
/-- What the mount of this volume finds. -/
theorem cycleImage_mounted : ∃ w, mountVolume [] 0 (registeredOn (fuzzDisk cycleImage)) =
      some ((.ok, []), w) ∧ w.geo.Sound ∧ Inv w.geo w ∧ w.Flushable ∧ w.geo.FatOn w ∧
    w.geo.nFatent = 126 ∧ w.freeClst = 0xFFFFFFFF ∧ w.geo.entry w.logical 2 = 3 ∧
    w.geo.entry w.logical 3 = 2 ∧ w.geo.entry w.logical 4 = 0xFFF ∧
    ∀ e < 126, w.geo.entry w.logical e ≠ 1 := by
  have h : (mountVolume [] 0 (registeredOn (fuzzDisk cycleImage))).map (fun r =>
      ((r.1, r.2.geo, r.2.freeClst, r.2.disk.sectors),
        (r.2.geo.entry r.2.logical 2, r.2.geo.entry r.2.logical 3, r.2.geo.entry r.2.logical 4),
        (List.range 126).all fun c => r.2.geo.entry r.2.logical c != 1)) =
      some (((.ok, []), ⟨.fat12, 2, 16, 1, 126, 1, 0, 1, 3, 4, 1⟩, 0xFFFFFFFF, 128),
        (3, 2, 0xFFF), true) := by
    decide +kernel
  obtain ⟨⟨r, w⟩, hm, h⟩ := Option.map_eq_some_iff.1 h
  simp only [Prod.mk.injEq, List.all_eq_true, List.mem_range, bne_iff_ne] at h
  obtain ⟨⟨rfl, hgeo, hfree, hsec⟩, ⟨h2, h3, h4⟩, hone⟩ := h
  have hsound : (fuzzDisk cycleImage).MountsSound :=
    Disk.mountsSound_of (b := 0) (by decide +kernel) (by decide +kernel) (by decide +kernel)
  obtain ⟨hg, hi, hf⟩ := fuzzDisk_mounted hsound hm
  refine ⟨w, hm, hg, hi, hf, ?_, by rw [hgeo], hfree, h2, h3, h4, hone⟩
  unfold Geometry.FatOn
  rw [hgeo, hsec]
  decide

omit hg in
/-- The hypotheses are met by a new chain on this volume, and by the end of a chain. -/
theorem createChain_exact_cycle : ∃ w, mountVolume [] 0 (registeredOn (fuzzDisk cycleImage)) =
      some ((.ok, []), w) ∧
    Returns (createChain 0) w (fun r w' => Allocates w.geo w 0 r w' ∧ (r ≠ 0 → w.geo.IsClust r)) ∧
    Returns (createChain 4) w (fun r w' => Allocates w.geo w 4 r w') ∧
    Returns (createChain 2) w (fun r w' => Follows w.geo w 2 r w') := by
  obtain ⟨w, hm, hg, hi, hf, ho, hn, hfree, h2, h3, h4, hone⟩ := cycleImage_mounted
  have hone' : ∀ e, w.geo.IsClust e → w.geo.entry w.logical e ≠ 1 := fun e he =>
    hone e (by have := he.2; omega)
  have hcount : w.geo.nFatent - 2 < w.freeClst ∨ w.freeClst = w.geo.free w.logical :=
    .inl (by omega)
  refine ⟨w, hm, (createChain_exact hg hi hf ho hone' hcount (.inl rfl)).mono
    fun r w' h => ⟨h.1 (.inl rfl), h.2.2⟩, (createChain_exact hg hi hf ho hone' hcount
      (.inr ⟨⟨by omega, by omega⟩, by omega⟩)).mono fun r w' h => h.1 (.inr (by omega)),
    (createChain_exact hg hi hf ho hone' hcount (.inr ⟨⟨by omega, by omega⟩, by omega⟩)).mono
      fun r w' h => h.2.1 fun hend => ?_⟩
  rcases hend with h | h <;> omega

/-! ## `remove_chain` -/

omit hg in
/-- The cluster that is reached from `c` by `k` FAT entries. -/
def Geometry.chain (g : Geometry) (L : Nat → Sector) (c : Nat) : Nat → Nat
  | 0 => c
  | k + 1 => g.entry L (g.chain L c k)

omit hg in
/-- The cluster `e` is on the chain from `c`. -/
def Geometry.OnChain (g : Geometry) (L : Nat → Sector) (c e : Nat) : Prop :=
  ∃ k, g.chain L c k = e ∧ ∀ j ≤ k, g.IsClust (g.chain L c j)

omit hg in
/-- The clusters of the chain from `c` that are visited are the first `n`: they are different, and
behind them there is a free cluster's 0, the value 1, a value that is no cluster, or one of them. -/
structure Visited (g : Geometry) (L : Nat → Sector) (c n : Nat) : Prop where
  pos : 0 < n
  clust : ∀ k < n, g.IsClust (g.chain L c k)
  fresh : ∀ k < n, ∀ j < k, g.chain L c j ≠ g.chain L c k
  stop : g.chain L c n = 0 ∨ g.chain L c n = 1 ∨ g.nFatent ≤ g.chain L c n ∨
    ∃ j < n, g.chain L c n = g.chain L c j

omit hg in
/-- The number of entries that became zero. -/
def Geometry.cleared (g : Geometry) (L L' : Nat → Sector) : Nat :=
  ((Finset.Ico 2 g.nFatent).filter fun e => g.entry L e ≠ 0 ∧ g.entry L' e = 0).card

omit hg in
/-- What `remove_chain` does when it visits `n` clusters of the chain from `c`, behind `p` if that
is not 0. -/
structure Removes (g : Geometry) (w : State) (c p n : Nat) (r : FRESULT) (w' : State) : Prop where
  visited : Visited g w.logical c n
  res : r = .ok ∨ r = .intErr
  err : r = .intErr ↔ ∃ k < n, g.entry w.logical (g.chain w.logical c k) = 1
  freed : r = .ok → ∀ k < n, g.entry w'.logical (g.chain w.logical c k) = 0
  tail : r = .ok → p ≠ 0 → g.entry w'.logical p = 0xFFFFFFFF % g.entryMod
  other : r = .ok → ∀ e < g.nFatent, (p ≠ 0 → e ≠ p) → (∀ k < n, e ≠ g.chain w.logical c k) →
    g.entry w'.logical e = g.entry w.logical e

omit hg in
/-- The state of the loop of `remove_chain` before the cluster `k` of the chain in `L`, in a run
from `w`: the clusters before it are free. -/
structure Removing (g : Geometry) (L : Nat → Sector) (c : Nat) (w : State) (k : Nat) (w' : State) :
    Prop where
  inv : Inv g w'
  good : w'.Flushable
  fatOn : g.FatOn w'
  clust : ∀ j ≤ k, g.IsClust (g.chain L c j)
  fresh : ∀ j < k, ∀ i < j, g.chain L c i ≠ g.chain L c j
  freed : ∀ j < k, g.entry w'.logical (g.chain L c j) = 0
  other : ∀ e < g.nFatent, (∀ j < k, e ≠ g.chain L c j) → g.entry w'.logical e = g.entry w.logical e

omit hg in
/-- The end of the loop of `remove_chain`. -/
structure RemovedAll (g : Geometry) (L : Nat → Sector) (c : Nat) (w : State) (r : FRESULT)
    (w' : State) (n : Nat) : Prop where
  visited : Visited g L c n
  res : r = .ok ∨ r = .intErr
  err : r = .intErr ↔ ∃ k < n, g.entry L (g.chain L c k) = 1
  freed : r = .ok → ∀ k < n, g.entry w'.logical (g.chain L c k) = 0
  other : r = .ok → ∀ e < g.nFatent, (∀ k < n, e ≠ g.chain L c k) →
    g.entry w'.logical e = g.entry w.logical e

omit hg in
/-- The value 1 is met only behind the clusters that are visited. -/
theorem Visited.one_iff {L : Nat → Sector} {c n : Nat} (h : Visited g L c n) :
    (∃ k < n, g.entry L (g.chain L c k) = 1) ↔ g.chain L c n = 1 := by
  constructor
  · rintro ⟨k, hk, h1⟩
    rcases Nat.lt_or_ge (k + 1) n with hlt | hge
    · have := (h.clust (k + 1) hlt).1
      rw [Geometry.chain, h1] at this
      omega
    · rw [← h1, Nat.le_antisymm hge hk]
      rfl
  · intro h1
    obtain ⟨m, rfl⟩ : ∃ m, n = m + 1 := ⟨n - 1, by have := h.pos; omega⟩
    exact ⟨m, Nat.lt_succ_self m, h1⟩

omit hg in
theorem RemovedAll.of_ok {L : Nat → Sector} {c n : Nat} {w w' : State} (hv : Visited g L c n)
    (h1 : g.chain L c n ≠ 1) (hfreed : ∀ k < n, g.entry w'.logical (g.chain L c k) = 0)
    (hother : ∀ e < g.nFatent, (∀ k < n, e ≠ g.chain L c k) →
      g.entry w'.logical e = g.entry w.logical e) : RemovedAll g L c w .ok w' n :=
  ⟨hv, .inl rfl, ⟨nofun, fun h => absurd (hv.one_iff.1 h) h1⟩, fun _ => hfreed, fun _ => hother⟩

/-- The loop is back at a cluster that it has freed. -/
theorem Removing.repeated {L : Nat → Sector} {c k j : Nat} {w w' w'' : State}
    (h : Removing g L c w k w') (hj : j < k) (hjk : g.chain L c k = g.chain L c j)
    (hs : Same g w' w'') : RemovedAll g L c w .ok w'' k := by
  have h2 := (h.clust k (Nat.le_refl k)).1
  refine .of_ok ⟨by omega, fun i hi => h.clust i (by omega), h.fresh,
    .inr (.inr (.inr ⟨j, hj, hjk⟩))⟩ (by omega) (fun i hi => ?_) fun e he hne => ?_
  · rw [hg.entry_same hs (h.clust i (by omega)).2]
    exact h.freed i hi
  · rw [hg.entry_same hs he]
    exact h.other e he hne

omit hg in
/-- A cluster that the loop visits for the first time is freed. -/
theorem Removing.freed_next {L : Nat → Sector} {c k : Nat} {w w' w'' : State}
    (h : Removing g L c w k w') (hnew : ∀ j < k, g.chain L c k ≠ g.chain L c j)
    (hf : Freed g w' (g.chain L c k) w'') :
    (∀ j < k + 1, g.entry w''.logical (g.chain L c j) = 0) ∧
    ∀ e < g.nFatent, (∀ j < k + 1, e ≠ g.chain L c j) →
      g.entry w''.logical e = g.entry w.logical e := by
  refine ⟨fun j hj => ?_, fun e he hne => ?_⟩
  · rcases Nat.lt_succ_iff_lt_or_eq.1 hj with hj | rfl
    · rw [hf.other _ (h.clust j (by omega)).2 fun he => hnew j hj he.symm]
      exact h.freed j hj
    · exact hf.zero
  · rw [hf.other e he (hne k (by omega))]
    exact h.other e he fun j hj => hne j (by omega)

/-- The loop stops at a cluster that it visits for the first time, without a change. -/
theorem Removing.stopped {L : Nat → Sector} {c k : Nat} {w w' w'' : State} {res : FRESULT}
    (h : Removing g L c w k w') (hv : Visited g L c (k + 1)) (hs : Same g w' w'')
    (hval : g.entry w'.logical (g.chain L c k) = g.chain L c (k + 1))
    (hres : g.chain L c (k + 1) = 0 ∧ res = .ok ∨ g.chain L c (k + 1) = 1 ∧ res = .intErr) :
    RemovedAll g L c w res w'' (k + 1) := by
  rcases hres with ⟨h0, rfl⟩ | ⟨h1, rfl⟩
  · refine .of_ok hv (by omega) (fun j hj => ?_) fun e he hne => ?_
    · rw [hg.entry_same hs (hv.clust j hj).2]
      rcases Nat.lt_succ_iff_lt_or_eq.1 hj with hj | rfl
      · exact h.freed j hj
      · rw [hval, h0]
    · rw [hg.entry_same hs he]
      exact h.other e he fun j hj => hne j (by omega)
  · exact ⟨hv, .inr rfl, ⟨fun _ => hv.one_iff.2 h1, fun _ => rfl⟩, nofun, nofun⟩

/-- One round of the loop. -/
theorem removeRound_removing {L : Nat → Sector} {c k : Nat} {w w' : State}
    (hL : ∀ e, g.OnChain L c e → g.entry w.logical e = g.entry L e)
    (h : Removing g L c w k w') :
    Returns (removeRound (g.chain L c k)) w' fun r w'' =>
      (∃ res n, r = .inr res ∧ RemovedAll g L c w res w'' n) ∨
      (r = .inl (g.chain L c (k + 1)) ∧ Removing g L c w (k + 1) w'' ∧
        g.used w''.logical < g.used w'.logical) := by
  have hck := h.clust k (Nat.le_refl k)
  have hclust : ∀ j < k + 1, g.IsClust (g.chain L c j) := fun j hj => h.clust j (by omega)
  refine (removeRound_freed hg h.inv h.good h.fatOn _).mono fun r w'' hr => ?_
  by_cases hrep : ∃ j < k, g.chain L c k = g.chain L c j
  · obtain ⟨j, hj, hjk⟩ := hrep
    have hzero : g.entry w'.logical (g.chain L c k) = 0 := by
      rw [hjk]
      exact h.freed j hj
    rcases hr with ⟨hseen, res, rfl, hres⟩ | ⟨-, h2, -⟩
    · obtain ⟨-, rfl⟩ | ⟨h1, -⟩ := hres hck
      · exact .inl ⟨_, k, rfl, h.repeated hg hj hjk hseen.same⟩
      · omega
    · omega
  · have hnew : ∀ j < k, g.chain L c k ≠ g.chain L c j := fun j hj he => hrep ⟨j, hj, he⟩
    have hfresh : ∀ j < k + 1, ∀ i < j, g.chain L c i ≠ g.chain L c j := fun j hj i hi he => by
      rcases Nat.lt_succ_iff_lt_or_eq.1 hj with hj | rfl
      · exact h.fresh j hj i hi he
      · exact hnew i hi he.symm
    have hval : g.entry w'.logical (g.chain L c k) = g.chain L c (k + 1) := by
      rw [h.other _ hck.2 hnew, hL _ ⟨k, rfl, h.clust⟩]
      rfl
    rw [hval] at hr
    rcases hr with ⟨hseen, res, rfl, hres⟩ | ⟨hfreed, h2, rfl⟩
    · refine .inl ⟨_, k + 1, rfl,
        h.stopped hg ⟨by omega, hclust, hfresh, ?_⟩ hseen.same hval (hres hck)⟩
      rcases hres hck with ⟨h0, -⟩ | ⟨h1, -⟩
      · exact .inl h0
      · exact .inr (.inl h1)
    · obtain ⟨hzero, hother⟩ := h.freed_next hnew hfreed
      split
      · rename_i hlt
        have hnext : ∀ j ≤ k + 1, g.IsClust (g.chain L c j) := fun j hj => by
          rcases Nat.lt_or_ge j (k + 1) with hj' | hj'
          · exact hclust j hj'
          · rw [Nat.le_antisymm hj hj']
            exact ⟨h2, hlt⟩
        exact .inr ⟨rfl, ⟨hfreed.fat.inv, hfreed.fat.good h.good, h.fatOn.kept hfreed.fat.sectors,
          hnext, hfresh, hzero, hother⟩,
          Geometry.used_lt hfreed.clust hfreed.used hfreed.zero hfreed.other⟩
      · rename_i hge
        exact .inl ⟨_, k + 1, rfl, .of_ok ⟨by omega, hclust, hfresh, .inr (.inr (.inl (by omega)))⟩
          (by omega) hzero hother⟩

/-- The loop of `remove_chain` returns, and has visited the chain. -/
theorem removeLoop_all {L : Nat → Sector} {c : Nat} (hc : g.IsClust c) {w : State} (hw : Inv g w)
    (hf : w.Flushable) (ho : g.FatOn w)
    (hL : ∀ e, g.OnChain L c e → g.entry w.logical e = g.entry L e) :
    Returns (loop removeRound (g.nFatent + 1) c) w fun r w' => ∃ n, RemovedAll g L c w r w' n := by
  refine Returns.loop (I := fun n c' w' => ∃ k, c' = g.chain L c k ∧ Removing g L c w k w' ∧
      g.used w'.logical ≤ n) (n := g.nFatent) (fun n c' w' ⟨k, hk, h, hn⟩ => ?_)
    ⟨0, rfl, ⟨hw, hf, ho, fun j hj => ?_, nofun, nofun, fun _ _ _ => rfl⟩, g.used_le _⟩
    (Nat.lt_succ_self _)
  · subst hk
    refine (removeRound_removing hg hL h).mono fun r w'' hr => ?_
    rcases hr with ⟨res, n, rfl, hall⟩ | ⟨rfl, hnext, hlt⟩
    · exact ⟨n, hall⟩
    · exact ⟨g.used w''.logical, by omega, k + 1, rfl, hnext, Nat.le_refl _⟩
  · rw [Nat.le_zero.1 hj]
    exact hc

omit hg in
/-- If no free cluster came into use, the number of free clusters has grown by the entries that
became zero. -/
theorem Geometry.free_add_cleared {L L' : Nat → Sector}
    (h : ∀ e, g.IsClust e → g.entry L e = 0 → g.entry L' e = 0) :
    g.free L' = g.free L + g.cleared L L' := by
  have hset : g.freeSet L' = g.freeSet L ∪
      (Finset.Ico 2 g.nFatent).filter fun e => g.entry L e ≠ 0 ∧ g.entry L' e = 0 := by
    ext e
    rw [Finset.mem_union, mem_freeSet, mem_freeSet, Finset.mem_filter, Finset.mem_Ico]
    constructor
    · rintro ⟨he, h0⟩
      by_cases hz : g.entry L e = 0
      · exact .inl ⟨he, hz⟩
      · exact .inr ⟨he, hz, h0⟩
    · rintro (⟨he, hz⟩ | ⟨he, -, h0⟩)
      · exact ⟨he, h e he hz⟩
      · exact ⟨he, h0⟩
  have hdisj : Disjoint (g.freeSet L)
      ((Finset.Ico 2 g.nFatent).filter fun e => g.entry L e ≠ 0 ∧ g.entry L' e = 0) := by
    rw [Finset.disjoint_left]
    intro e he he'
    exact (Finset.mem_filter.1 he').2.1 (mem_freeSet.1 he).2
  rw [free, hset, Finset.card_union_of_disjoint hdisj]
  rfl

section
variable {w : State} {c p : Nat} (hc : g.IsClust c)
  (hp : p = 0 ∨ (g.IsClust p ∧ g.entry w.logical p ≠ 0 ∧ ¬g.OnChain w.logical c p))

include hc hp

/-- The loop of `remove_chain`, from the state in which the chain of `p` is ended. -/
theorem removeLoop_removes {w₁ : State} (hw : Inv g w₁) (hf : w₁.Flushable) (ho : g.FatOn w₁)
    (hend : p ≠ 0 → g.entry w₁.logical p = 0xFFFFFFFF % g.entryMod)
    (hsame : ∀ e < g.nFatent, (p ≠ 0 → e ≠ p) → g.entry w₁.logical e = g.entry w.logical e) :
    Returns (loop removeRound (g.nFatent + 1) c) w₁ fun r w' => ∃ n, Removes g w c p n r w' := by
  have hchain : ∀ e, g.OnChain w.logical c e → p ≠ 0 → e ≠ p := fun e he hp0 hep =>
    (hp.resolve_left hp0).2.2 (hep ▸ he)
  refine (removeLoop_all hg (L := w.logical) hc hw hf ho fun e he => ?_).mono
    fun r w' ⟨n, h⟩ => ⟨n, h.visited, h.res, h.err, h.freed, fun hr hp0 => ?_,
      fun hr e he hne hk => ?_⟩
  · obtain ⟨k, rfl, hcl⟩ := he
    exact hsame _ (hcl k (Nat.le_refl k)).2 (hchain _ ⟨k, rfl, hcl⟩)
  · rw [h.other hr p (hp.resolve_left hp0).1.2 fun k hk he => ?_, hend hp0]
    exact hchain _ ⟨k, rfl, fun j hj => h.visited.clust j (by omega)⟩ hp0 he.symm
  · rw [h.other hr e he hk, hsame e he hne]

theorem removeChain_removes (hw : Inv g w) (hf : w.Flushable) (ho : g.FatOn w) :
    Returns (removeChain c p) w fun r w' => ∃ n, Removes g w c p n r w' := by
  have h2 := hc.1
  have hlt := hc.2
  rw [removeChain, returns_bind, returns_get, hw.geo]
  simp only [returns_ite, returns_pure, returns_bind]
  refine ⟨fun h => by omega, fun _ => ⟨fun hp0 => ?_, fun hp0 => ?_⟩⟩
  · have hpc := (hp.resolve_left hp0).1
    refine (putFat_inv hg hw p _).mono fun res w₁ h₁ => ?_
    obtain rfl : res = .ok := h₁.full hf ho hpc
    refine ⟨by simp, fun _ => removeLoop_removes hg hc hp h₁.inv (h₁.good hf)
      (ho.kept h₁.kept.sectors) (fun _ => h₁.entry_self hg) fun e he hne => ?_⟩
    exact h₁.entry_other hg he (hne hp0)
  · exact removeLoop_removes hg hc hp hw hf ho (fun h => absurd h hp0) fun _ _ _ => rfl

omit hg hc in
/-- No free cluster comes into use. -/
theorem Removes.zero {w' : State} {n : Nat} (h : Removes g w c p n .ok w') {e : Nat}
    (he : g.IsClust e) (h0 : g.entry w.logical e = 0) : g.entry w'.logical e = 0 := by
  by_cases hv : ∃ k < n, e = g.chain w.logical c k
  · obtain ⟨k, hk, rfl⟩ := hv
    exact h.freed rfl k hk
  · rw [h.other rfl e he.2 (fun hp0 hep => (hp.resolve_left hp0).2.1 (hep ▸ h0))
      fun k hk hek => hv ⟨k, hk, hek⟩, h0]

end

/-- `remove_chain` frees exactly the chain, on every FAT. -/
theorem removeChain_exact {w : State} (hw : Inv g w) (hf : w.Flushable) (ho : g.FatOn w) {c p : Nat}
    (hc : g.IsClust c)
    (hp : p = 0 ∨ (g.IsClust p ∧ g.entry w.logical p ≠ 0 ∧ ¬g.OnChain w.logical c p)) :
    Returns (removeChain c p) w fun r w' => (∃ n, Removes g w c p n r w') ∧
      (r = .ok → w.freeClst = g.free w.logical →
        w'.freeClst = w.freeClst + g.cleared w.logical w'.logical) := by
  have hcount : Ensures (removeChain c p) w fun _ w' => w.freeClst = g.free w.logical →
      w'.freeClst = g.free w'.logical := fun r w' hm hk =>
    (removeChain_tally hg ⟨hw, hf, ho, hk⟩ c p (fun hp0 _ =>
    (hp.resolve_left hp0).2.1) r w' hm).count
  refine ((removeChain_removes hg hc hp hw hf ho).and_ensures hcount).mono
    fun r w' ⟨⟨n, h⟩, hk⟩ => ⟨⟨n, h⟩, fun hr hexact => ?_⟩
  subst hr
  rw [hk hexact, hexact]
  exact Geometry.free_add_cleared fun e he h0 => h.zero hp he h0

end

/-- The hypotheses are met by the cycle, with the chain of cluster 4 to be ended before it. -/
theorem removeChain_exact_cycle : ∃ w, mountVolume [] 0 (registeredOn (fuzzDisk cycleImage)) =
      some ((.ok, []), w) ∧
    Returns (removeChain 2 4) w fun r w' => ∃ n, Removes w.geo w 2 4 n r w' := by
  obtain ⟨w, hm, hg, hi, hf, ho, hn, -, h2, h3, h4, -⟩ := cycleImage_mounted
  have hcycle : ∀ k, w.geo.chain w.logical 2 k = 2 ∨ w.geo.chain w.logical 2 k = 3 := by
    intro k
    induction k with
    | zero => exact .inl rfl
    | succ k ih =>
      rw [Geometry.chain]
      rcases ih with h | h
      · rw [h, h2]
        exact .inr rfl
      · rw [h, h3]
        exact .inl rfl
  refine ⟨w, hm, (removeChain_exact hg hi hf ho ⟨Nat.le_refl 2, by omega⟩
    (.inr ⟨⟨by omega, by omega⟩, by omega, ?_⟩)).mono fun r w' h => h.1⟩
  rintro ⟨k, hk, -⟩
  rcases hcycle k with h | h <;> omega

end FatFs
