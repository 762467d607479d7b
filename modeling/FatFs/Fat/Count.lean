import FatFs.Placed.Device

/-!
# Counting the free clusters

`free_clst` is lowered by `create_chain` and raised by `remove_chain`, each under a guard that is
also the test whether the number is known. On a volume that is wholly on the device the guards are
exact: if the number is that of the clusters with a zero FAT entry at one point of a run, it is so
from there on (`freeClst_exact`), and `create_chain` gives up at once exactly when no cluster is
free.
-/

namespace FatFs

open Run

/-- The clusters whose FAT entry is zero. -/
def Geometry.freeSet (g : Geometry) (L : Nat → Sector) : Finset Nat :=
  (Finset.Ico 2 g.nFatent).filter fun c => g.entry L c = 0

/-- The number of free clusters. -/
def Geometry.free (g : Geometry) (L : Nat → Sector) : Nat := (g.freeSet L).card

section
variable {g : Geometry}

/-- A cluster is free if its entry is 0. -/
theorem Geometry.mem_freeSet {L : Nat → Sector} {c : Nat} :
    c ∈ g.freeSet L ↔ g.IsClust c ∧ g.entry L c = 0 := by
  rw [freeSet, Finset.mem_filter, Finset.mem_Ico]
  rfl

/-- There are no more free clusters than clusters. -/
theorem Geometry.free_le (g : Geometry) (L : Nat → Sector) : g.free L ≤ g.nFatent - 2 := by
  refine (Finset.card_filter_le _ _).trans ?_
  rw [Nat.card_Ico]

/-- No cluster is free if no entry is 0. -/
theorem Geometry.free_eq_zero_iff {L : Nat → Sector} :
    g.free L = 0 ↔ ∀ c, g.IsClust c → g.entry L c ≠ 0 := by
  rw [free, Finset.card_eq_zero, Finset.eq_empty_iff_forall_notMem]
  refine forall_congr' fun c => ?_
  rw [mem_freeSet]
  exact ⟨fun h hc h0 => h ⟨hc, h0⟩, fun h hc => h hc.1 hc.2⟩

/-- The number of free clusters depends on which entries are zero only. -/
theorem Geometry.free_congr {L L' : Nat → Sector}
    (h : ∀ c, g.IsClust c → (g.entry L' c = 0 ↔ g.entry L c = 0)) : g.free L' = g.free L := by
  rw [free, free]
  congr 1
  ext c
  rw [mem_freeSet, mem_freeSet]
  exact ⟨fun hc => ⟨hc.1, (h c hc.1).1 hc.2⟩, fun hc => ⟨hc.1, (h c hc.1).2 hc.2⟩⟩

/-- A cluster that was free and is not free any more, and no other change. -/
theorem Geometry.free_pred {L L' : Nat → Sector} {n : Nat} (hn : g.IsClust n) (h0 : g.entry L n = 0)
    (h1 : g.entry L' n ≠ 0)
    (h : ∀ c, g.IsClust c → c ≠ n → (g.entry L' c = 0 ↔ g.entry L c = 0)) :
    g.free L' + 1 = g.free L := by
  have hset : g.freeSet L' = (g.freeSet L).erase n := by
    ext c
    rw [Finset.mem_erase, mem_freeSet, mem_freeSet]
    refine ⟨fun hc => ?_, fun hc => ⟨hc.2.1, (h c hc.2.1 hc.1).2 hc.2.2⟩⟩
    have hne : c ≠ n := fun he => h1 (by rw [← he]; exact hc.2)
    exact ⟨hne, hc.1, (h c hc.1 hne).1 hc.2⟩
  rw [free, hset, Finset.card_erase_add_one (mem_freeSet.2 ⟨hn, h0⟩), free]

/-! ## One round of `remove_chain` -/

/-- The cluster `c` was freed and counted. -/
structure Freed (g : Geometry) (w : State) (c : Nat) (w' : State) : Prop where
  fat : FatOnly g w w'
  clust : g.IsClust c
  used : g.entry w.logical c ≠ 0
  zero : g.entry w'.logical c = 0
  other : ∀ e < g.nFatent, e ≠ c → g.entry w'.logical e = g.entry w.logical e
  count : w'.freeClst = if w.freeClst < g.nFatent - 2 then w.freeClst + 1 else w.freeClst

section
variable (hg : g.Sound)

include hg

/-- With the FAT on the device a round stops at a free cluster or at the value 1 before any change,
or frees the cluster. -/
theorem removeRound_freed {w : State} (hw : Inv g w) (hf : w.Flushable) (ho : g.FatOn w) (c : Nat) :
    Returns (removeRound c) w fun r w' =>
      (FatSeen g w w' ∧ ∃ res, r = .inr res ∧ (g.IsClust c → g.entry w.logical c = 0 ∧ res = .ok ∨
        g.entry w.logical c = 1 ∧ res = .intErr)) ∨
      (Freed g w c w' ∧ 2 ≤ g.entry w.logical c ∧
        r = if g.entry w.logical c < g.nFatent then .inl (g.entry w.logical c) else .inr .ok) := by
  have hlt := g.entry_lt w.logical c
  have hmod := g.entryMod_le
  rw [removeRound, returns_bind]
  refine (getFat_inv hg hw c).mono fun nxt w₁ h₁ => ?_
  have hseen : FatSeen g w w₁ := ⟨h₁.kept, h₁.inv, h₁.same, h₁.good⟩
  have hval : g.IsClust c → nxt = g.entry w.logical c := h₁.full hf ho
  simp only [returns_ite, returns_pure, returns_bind]
  refine ⟨fun h0 => .inl ⟨hseen, _, rfl, fun hc => .inl ⟨?_, rfl⟩⟩, fun h0 =>
    ⟨fun h1 => .inl ⟨hseen, _,
    rfl, fun hc => .inr ⟨?_, rfl⟩⟩, fun h1 => ⟨fun hd => .inl ⟨hseen, _, rfl, fun hc => ?_⟩,
      fun hd => ?_⟩⟩⟩
  · rw [← hval hc, h0]
  · rw [← hval hc, h1]
  · rw [← hval hc, hd] at hlt
    simp only [DISKERR] at hlt
    omega
  obtain ⟨hcl, hnxt, hon⟩ := (h₁.val.resolve_left h1).resolve_left hd
  refine (putFat_inv hg h₁.inv c 0).mono fun res w₂ h₂ => ?_
  obtain rfl : res = .ok := h₂.full (h₁.good hf) (ho.kept h₁.kept.sectors) hcl
  refine ⟨by simp, fun _ => ?_⟩
  have hon₂ : g.fatbase < w₂.disk.sectors := by
    rw [h₂.kept.sectors, h₁.kept.sectors]
    exact hon
  have hfreed : Freed g w c w₂.freed := by
    refine ⟨(h₁.fatOnly.trans h₂.fatOnly).trans (FatOnly.freed h₂.inv hon₂), hcl, ?_, ?_,
      fun e he hne => ?_, ?_⟩
    · rw [← hnxt]
      exact h0
    · rw [State.freed_logical, h₂.entry_self hg, Nat.zero_mod]
    · rw [State.freed_logical, h₂.entry_other hg he hne, hg.entry_same h₁.same he]
    · rw [State.freed_freeClst, h₂.inv.geo, h₂.kept.freeClst, h₁.kept.freeClst]
  have h2 : 2 ≤ g.entry w.logical c := by omega
  rw [returns_modify, returns_get, State.freed_geo, h₂.inv.geo, ← hnxt]
  rw [← hnxt] at h2
  exact ⟨fun hin => .inr ⟨hfreed, h2, by rw [if_pos hin]⟩, fun hout => .inr ⟨hfreed, h2, by
    rw [if_neg hout]⟩⟩

end

/-! ## The number is exact -/

/-- The invariant: the volume is on the device and `free_clst` is the number of free clusters. -/
structure Counted (g : Geometry) (w : State) : Prop where
  dev : OnDevice g w
  count : w.freeClst = g.free w.logical

/-- A count that is exact is known. -/
theorem Counted.le {w : State} (h : Counted g w) : w.freeClst ≤ g.nFatent - 2 := by
  rw [h.count]
  exact g.free_le _

section
variable (hg : g.Sound)

include hg

/-- A step that keeps the sectors of the FAT and the number keeps it exact. -/
theorem Counted.of_frame {w w' : State} (h : Counted g w) (hd : OnDevice g w')
    (hs : ∀ s, g.InFat s → w'.logical s = w.logical s) (hn : w'.freeClst = w.freeClst) :
    Counted g w' := by
  refine ⟨hd, ?_⟩
  rw [hn, h.count]
  exact (Geometry.free_congr fun c hc => by rw [hg.entry_congr hs hc.2]).symm

/-- The count stays exact when the FAT does not change. -/
theorem Counted.of_same {w w' : State} (h : Counted g w) (hd : OnDevice g w') (hs : Same g w w')
    (hn : w'.freeClst = w.freeClst) : Counted g w' :=
  h.of_frame hg hd (fun s hs' => hs s hs'.not_inFat2) hn

/-- The end mark is not zero. -/
theorem Geometry.Sound.endMark_ne : 0xFFFFFFFF % g.entryMod ≠ 0 := by
  have hge := hg.endMark_ge
  have hn := hg.entries
  omega

omit hg in
/-- `put_fat` stores nothing for a number that is no cluster. -/
theorem putFat_invalid {w : State} {c : Nat} (h : ¬w.geo.IsClust c) (v : Nat) :
    Returns (putFat c v) w fun r w' => r = .intErr ∧ w' = w := by
  rw [putFat, returns_bind, returns_get, returns_ite]
  exact ⟨fun hc => absurd hc h, fun _ => returns_pure.2 ⟨rfl, rfl⟩⟩

/-- `create_chain` counts the cluster that it takes. -/
theorem createChain_counted (c : Nat) : Keeps (Counted g) (createChain c) := by
  intro w hw
  refine (((onDevice_closed hg).create c w hw.dev).and
    (createChain_inv hg hw.dev.inv c).ensures).mono
    fun r w' ⟨hd, h⟩ => ?_
  have hmod := hg.nFatent_lt_mod
  have hent := hg.entries
  have herr : r = 1 ∨ r = DISKERR → Counted g w' := fun hr => by
    obtain ⟨hs, hn⟩ := h.err hw.dev.good (hw.dev.fatOn hg) hr
    exact hw.of_same hg hd hs hn
  rcases h.out with hr | hr | hr | ⟨_, _, _, hs, hn⟩ | ⟨hr, h0, hl, hfree, hn⟩
  · obtain ⟨hs, hn, -⟩ := h.none hr
    exact hw.of_same hg hd hs hn
  · exact herr (.inl hr)
  · exact herr (.inr hr)
  · exact hw.of_same hg hd hs hn
  · -- a free cluster was linked: the entry of `c` was in use before and is now
    refine ⟨hd, ?_⟩
    have hr2 := hr.1
    have hused : c = 0 ∨ g.entry w.logical c ≠ 0 := by
      rcases h.tail with h | h | h | h
      · exact .inl h
      · omega
      · have := hg.nFatent_lt
        have := hr.2
        omega
      · exact .inr (by omega)
    have hrc : r ≠ c := fun he => by
      rcases hused with hc | hc
      · omega
      · exact hc (by rw [← he]; exact h0)
    have hpred : g.free w'.logical + 1 = g.free w.logical := by
      refine Geometry.free_pred hr h0 ?_ fun e he hne => ?_
      · rw [hl r hr.2, if_neg fun hh => hrc hh.1, if_pos rfl]
        exact hg.endMark_ne
      · rw [hl e he.2]
        by_cases hec : e = c ∧ c ≠ 0
        · rw [if_pos hec]
          have hc := hused.resolve_left hec.2
          rw [hec.1]
          exact ⟨fun hz => by omega, fun hz => absurd hz hc⟩
        · rw [if_neg hec, if_neg hne]
    rw [hn, if_pos hw.le, hw.count]
    omega

omit hg in
/-- What the rounds of `remove_chain` keep. -/
structure Tally (g : Geometry) (w : State) : Prop where
  inv : Inv g w
  good : w.Flushable
  fatOn : g.FatOn w
  count : w.freeClst = g.free w.logical

/-- One round of `remove_chain` counts the cluster that it frees. -/
theorem removeRound_tally (c : Nat) : Keeps (Tally g) (removeRound c) := by
  intro w hw
  refine (removeRound_freed hg hw.inv hw.good hw.fatOn c).ensures.mono fun r w' h => ?_
  rcases h with ⟨h, -⟩ | ⟨h, -⟩
  · refine ⟨h.inv, h.good hw.good, hw.fatOn.kept h.kept.sectors, ?_⟩
    rw [h.kept.freeClst, hw.count]
    exact (Geometry.free_congr fun e he => by rw [hg.entry_same h.same he.2]).symm
  · refine ⟨h.fat.inv, h.fat.good hw.good, hw.fatOn.kept h.fat.sectors, ?_⟩
    have hsucc : g.free w.logical + 1 = g.free w'.logical :=
      Geometry.free_pred h.clust h.zero h.used fun e he hne => by rw [h.other e he.2 hne]
    have hle := g.free_le w'.logical
    rw [h.count, hw.count, if_pos (by omega)]
    exact hsucc

/-- The chain that is removed may be cut off behind `p`, a cluster in use. -/
theorem removeChain_tally {w : State} (hw : Tally g w) (c p : Nat)
    (hp : p ≠ 0 → g.IsClust c → g.entry w.logical p ≠ 0) :
    Ensures (removeChain c p) w fun _ w' => Tally g w' := by
  have hloop : ∀ n c, Keeps (Tally g) (loop removeRound n c) := .loop (removeRound_tally hg)
  rw [removeChain, ensures_bind, ensures_get]
  simp only [ensures_ite, ensures_pure, ensures_bind]
  refine ⟨fun _ => hw, fun hc => ⟨fun hp0 => ?_, fun _ => hloop _ _ w hw⟩⟩
  rw [hw.inv.geo] at hc
  by_cases hpc : g.IsClust p
  · refine (putFat_inv hg hw.inv p _).ensures.mono fun res w₁ h₁ => ?_
    obtain rfl : res = .ok := h₁.full hw.good hw.fatOn hpc
    refine ⟨by simp, fun _ => hloop _ _ w₁ ⟨h₁.inv, h₁.good hw.good,
      hw.fatOn.kept h₁.kept.sectors, ?_⟩⟩
    -- the entry of `p` was in use and is the end of the chain
    rw [h₁.kept.freeClst, hw.count]
    refine (Geometry.free_congr fun e he => ?_).symm
    by_cases hep : e = p
    · rw [hep, h₁.entry_self hg]
      have := hg.endMark_ne
      exact ⟨fun h => absurd h this, fun h => absurd h (hp hp0 ⟨by omega, by omega⟩)⟩
    · rw [h₁.entry_other hg he.2 hep]
  · refine (putFat_invalid (by rw [hw.inv.geo]; exact hpc) _).ensures.mono fun res w₁ h₁ => ?_
    obtain ⟨rfl, rfl⟩ := h₁
    exact ⟨fun _ => hw, by simp⟩

/-- The chain that is removed may be the rest of a chain that ends at `p` then. -/
theorem removeChain_counted {w : State} (hw : Counted g w) (c p : Nat)
    (hp : p ≠ 0 → g.entry w.logical p = c) :
    Ensures (removeChain c p) w fun _ w' => Counted g w' := by
  have htally : Tally g w := ⟨hw.dev.inv, hw.dev.good, hw.dev.fatOn hg, hw.count⟩
  have hcount := removeChain_tally hg htally c p fun hp0 hc => by
    have := hc.1
    rw [hp hp0]
    omega
  exact (((onDevice_closed hg).remove c p hw.dev hp).and hcount).mono fun _ _ ⟨h, h'⟩ =>
    ⟨h, h'.count⟩

/-- The count is kept exact by every store that the API makes. -/
theorem counted_closed : Closed g g.InArea (Counted g) where
  inv := fun h => h.dev.inv
  area := id
  note := fun a h => ⟨(onDevice_closed hg).note a h.dev, h.count⟩
  move := fun s w h => (((onDevice_closed hg).move s w h.dev).and
    (moveWindow_inv hg h.dev.inv s).ensures).mono fun _ _ ⟨hd, h'⟩ =>
      h.of_same hg hd h'.same h'.kept.freeClst
  sync := fun w h => (((onDevice_closed hg).sync w h.dev).and
    (syncWindow_inv hg h.dev.inv).ensures).mono fun _ _ ⟨hd, h'⟩ =>
      h.of_same hg hd h'.same h'.kept.freeClst
  store := fun t h hs => h.of_frame hg ((onDevice_closed hg).store t h.dev hs) (fun s hs' => by
    rw [logical_store, if_neg fun he => hg.not_inArea_of_inFat hs' (by rw [he]; exact hs)]) rfl
  create := createChain_counted hg
  remove := fun c p h hp => removeChain_counted hg h c p hp
  clear := fun c hc w h => (((onDevice_closed hg).clear c hc w h.dev).and
    (dirClear_inv hg h.dev.inv hc).ensures).mono fun _ _ ⟨hd, h'⟩ =>
      h.of_frame hg hd (fun s hs => h'.outside hg hc (hg.not_inArea_of_inFat hs) hs.not_inFat2)
        h'.kept.freeClst
  direct := fun buff sect cc hcc hs w h => by
    have hle : sect + cc ≤ W32 := by
      have := hg.inArea_lt (hs (cc - 1) (by omega))
      omega
    exact (((onDevice_closed hg).direct buff sect cc hcc hs w h.dev).and
      (writeDirect_inv h.dev.inv buff hcc hle).ensures).mono fun r _ ⟨hd, h'⟩ =>
        h.of_frame hg hd (fun s hs' => h'.outside hs (hg.not_inArea_of_inFat hs'))
          h'.kept.freeClst
  edge := fun {w} s t h hc hs =>
    h.of_frame hg ((onDevice_closed hg).edge s t h.dev hc hs) (fun s' hs' => by
    have hne : s' ≠ s := fun he => hg.not_inArea_of_inFat hs' (by rw [he]; exact hs)
    rw [logical_of_clean hc]
    exact logical_of_ne (w := { w with winsect := s, win := t, wflag := true }) hne) rfl
  info := fun w h => (((onDevice_closed hg).info w h.dev).and
    (syncFs_inv hg h.dev.inv).ensures).mono fun _ _ ⟨hd, h'⟩ =>
      h.of_frame hg hd (fun s hs => h'.area h.dev hs.1 hs.not_inFat2) h'.freeClst
  last := fun n hn h => ⟨(onDevice_closed hg).last n hn h.dev, h.count⟩
  count := fun n _ h hlt _ => absurd h.le (Nat.not_le_of_lt hlt)

end

end

/-! ## Runs -/

/-- `free_clst` is the number of free clusters, and `create_chain`, which gives up at once when
`free_clst` is 0, gives up only when no cluster is free. -/
structure FreeExact (g : Geometry) (w : State) : Prop where
  count : w.freeClst = g.free w.logical
  exit : w.freeClst = 0 ↔ ∀ c, g.IsClust c → g.entry w.logical c ≠ 0
  full : ∀ c, Returns (createChain c) w fun r _ => r = 0 →
    ∀ e, g.IsClust e → g.entry w.logical e ≠ 0

/-- A count that is known is the number of free clusters. -/
theorem Counted.exact {g : Geometry} (hg : g.Sound) {w : State} (h : Counted g w) :
    FreeExact g w := by
  have hexit : w.freeClst = 0 ↔ ∀ c, g.IsClust c → g.entry w.logical c ≠ 0 := by
    rw [h.count]
    exact Geometry.free_eq_zero_iff
  refine ⟨h.count, hexit, fun c => (createChain_inv hg h.dev.inv c).mono fun r w' hc hr => ?_⟩
  obtain ⟨-, -, h0 | hno⟩ := hc.none hr
  · exact hexit.1 h0
  · exact hno

/-- If the number of free clusters is known and right at one point of a run, it is right from there
on, whatever the calls do and however they end. -/
theorem freeClst_exact {w₀ : State} {s t u : Session} (hs : s.OnMedium w₀)
    (ht : Reaches (fun _ c => c.OnVolume) s t)
    (hknown : t.w.freeClst ≤ s.w.geo.nFatent - 2 ∧ t.w.freeClst = s.w.geo.free t.w.logical)
    (hu : Reaches (fun _ c => c.OnVolume) t u) : FreeExact s.w.geo u.w := by
  have hg := hs.onDevice.1
  have hplaced := ht.onDevice hs
  exact (hu.closed hg (counted_closed hg)
    ⟨⟨hplaced.inv, hknown.2⟩, hplaced.files⟩).inv.exact hg

/-- The hypotheses are met after `f_getfree` on a plain volume, and the run goes on with a directory
that is created. -/
theorem freeClst_exact_plain : ∃ w t u, mountVolume [] 0 (registeredOn (fuzzDisk plainImage)) =
      some ((.ok, []), w) ∧ exec ⟨w, fun _ => {}, fun _ => {}⟩ (.getfree []) = some (.ok, t) ∧
    exec t (.mkdir [0x41]) = some (.ok, u) ∧ FreeExact w.geo u.w := by
  have h : ((mountVolume [] 0 (registeredOn (fuzzDisk plainImage))).bind fun r =>
      (exec ⟨r.2, fun _ => {}, fun _ => {}⟩ (.getfree [])).bind fun p =>
        (exec p.2 (.mkdir [0x41])).map fun q =>
          ((r.1, r.2.geo, r.2.fsiFlag, r.2.disk.sectors), p.1, p.2.w.freeClst,
            r.2.geo.free p.2.w.logical, q.1)) =
      some (((.ok, []), ⟨.fat12, 2, 16, 1, 126, 1, 0, 1, 3, 4, 1⟩, 0x80, 128), .ok,
      124, 124, .ok) := by
    decide +kernel
  obtain ⟨⟨r, w⟩, hm, h⟩ := Option.bind_eq_some_iff.1 h
  obtain ⟨⟨p, t⟩, ht, h⟩ := Option.bind_eq_some_iff.1 h
  obtain ⟨⟨q, u⟩, hu, h⟩ := Option.map_eq_some_iff.1 h
  simp only [Prod.mk.injEq] at h
  obtain ⟨⟨rfl, hgeo, hfsi, hsec⟩, rfl, hfree, hcount, rfl⟩ := h
  have hs : Session.OnMedium (registeredOn (fuzzDisk plainImage))
      ⟨w, fun _ => {}, fun _ => {}⟩ := by
    refine ⟨⟨fun _ => rfl, show 128 < W32 by decide, plainImage_mountsSound, rfl, ⟨[], 0, [], hm⟩,
      fun _ h => by cases h⟩, .inl ?_, ?_⟩
    · unfold State.InfoOff
      rw [hfsi]
      decide
    · show w.geo.volEnd ≤ w.disk.sectors
      rw [hgeo, hsec]
      decide
  refine ⟨w, t, u, hm, ht, hu, freeClst_exact hs (.call (c := .getfree []) .refl trivial ht)
    ⟨?_, hfree.trans hcount.symm⟩ (.call (c := .mkdir [0x41]) .refl trivial hu)⟩
  rw [hfree, hgeo]
  exact Nat.le_refl 124

end FatFs
