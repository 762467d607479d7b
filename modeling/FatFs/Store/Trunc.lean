import FatFs.Store.Seek

/-!
# Truncating a file

`f_truncate` cuts the chain of the file behind the cluster of the cursor. `remove_chain` frees the
clusters of a chain from a given one on: on a whole chain it visits exactly those
(`IsChain.visited`). `Touches` says what any call on a file may change: the clusters of the file
before or after it, clusters that were free, and its directory entry. Everything that belongs to
another file stays, and the free clusters are counted exactly.
-/

namespace FatFs

open Run Splice

/-! ## The rest of a chain -/

section
variable {g : Geometry} {L : Nat → Sector} {w w' : State} {cs : List Nat} {start k c p n : Nat}

/-- The clusters of a chain behind the `k`-th one. -/
theorem IsChain.chain_from (h : IsChain g L start cs) (hc : cs[k]? = some c) (j : Nat)
    (hj : k + j < cs.length) : cs[k + j]? = some (g.chain L c j) := by
  induction j with
  | zero => exact hc
  | succ j ih =>
    obtain ⟨d, hd⟩ : ∃ d, cs[k + (j + 1)]? = some d := ⟨_, List.getElem?_eq_getElem hj⟩
    rw [hd, ← h.chain.link _ _ _ (ih (by omega)) hd]
    rfl

/-- Behind the last cluster there is the mark of the end. -/
theorem IsChain.chain_stop (h : IsChain g L start cs) (hc : cs[k]? = some c) :
    g.nFatent ≤ g.chain L c (cs.length - k) := by
  have hk := (List.getElem?_eq_some_iff.1 hc).1
  obtain ⟨j, hj⟩ : ∃ j, cs.length - k = j + 1 := ⟨cs.length - k - 1, by omega⟩
  rw [hj]
  exact h.chain.last (k + j) _ (h.chain_from hc j (by omega)) (by omega)

/-- From a cluster of a chain `remove_chain` visits the clusters up to the last one. -/
theorem IsChain.visited (h : IsChain g L start cs) (hc : cs[k]? = some c) (hv : Visited g L c n) :
    n = cs.length - k := by
  have hk := (List.getElem?_eq_some_iff.1 hc).1
  rcases Nat.lt_trichotomy n (cs.length - k) with hlt | heq | hgt
  · -- a cluster in the middle is new, and no end
    have hn := h.chain_from hc n (by omega)
    have hcl := h.clust _ (List.mem_of_getElem? hn)
    have h2 := hcl.1
    have hlt' := hcl.2
    rcases hv.stop with h0 | h1 | hge | ⟨j, hj, he⟩
    · omega
    · omega
    · omega
    · have hjn := h.chain_from hc j (by omega)
      rw [he, ← hjn] at hn
      have := (List.getElem?_inj (show k + n < cs.length by omega) h.chain.nodup).1 hn
      omega
  · exact heq
  · have := (hv.clust _ hgt).2
    have := h.chain_stop hc
    omega

/-- The clusters behind a place of a chain are not before it. -/
theorem IsChain.drop_disjoint (h : IsChain g L start cs) (k : Nat) :
    (cs.take k).Disjoint (cs.drop k) := by
  have hnd := h.chain.nodup
  rw [← List.take_append_drop k cs] at hnd
  intro a ha hb
  exact (List.nodup_append.1 hnd).2.2 a ha a hb rfl

variable (hg : g.Sound)

include hg

omit hg in
/-- An unknown count of the free clusters stays unknown when a chain is removed. -/
theorem removeChain_unknown (hgeo : w.geo = g) (h : g.nFatent - 2 < w.freeClst) :
    Ensures (removeChain c p) w fun _ w' => g.nFatent - 2 < w'.freeClst := by
  have hmove : ∀ s, Keeps (fun w => w.geo = g ∧ g.nFatent - 2 < w.freeClst) (moveWindow s) :=
    fun s w hw => (moveWindow_spec w s).ensures.mono fun _ _ h' =>
      ⟨h'.kept.geo.trans hw.1, by rw [h'.kept.freeClst]; exact hw.2⟩
  have hkeep := removeChain_keeps (getFat_keeps hmove) (putFat_keeps hmove fun _ =>
    .modify fun _ h => h) (fun w hw => ⟨by rw [State.freed_geo]; exact hw.1, by
      rw [State.freed_freeClst, hw.1, if_neg (Nat.not_lt.2 (Nat.le_of_lt hw.2))]
      exact hw.2⟩) c p
  exact (hkeep w ⟨hgeo, h⟩).mono fun _ _ h' => h'.2

/-- `remove_chain` from the `k`-th cluster of a chain on. The cluster before it, if there is one,
becomes the last one. -/
theorem removeChain_tail (hs : Stable g w) (h : IsChain g w.logical start cs) (hc : cs[k]? = some c)
    (hp : (k = 0 ∧ p = 0) ∨ (0 < k ∧ cs[k - 1]? = some p)) :
    Returns (removeChain c p) w fun r w' => r = .ok ∧ Stable g w' ∧
      w'.disk.sectors = w.disk.sectors ∧ (∀ s, g.InArea s → w'.logical s = w.logical s) ∧
      (∀ e ∈ cs.drop k, g.entry w'.logical e = 0) ∧
      (∀ e, g.IsClust e → e ∉ cs → g.entry w'.logical e = g.entry w.logical e) ∧
      IsChain g w'.logical ((cs.take k).headD 0) (cs.take k) := by
  have hcl := h.clust c (List.mem_of_getElem? hc)
  have hk := (List.getElem?_eq_some_iff.1 hc).1
  have hnd := h.chain.nodup
  -- the cluster before is in use and not behind
  have hp' : p = 0 ∨ (g.IsClust p ∧ g.entry w.logical p ≠ 0 ∧ ¬g.OnChain w.logical c p) := by
    refine hp.imp (fun hz => hz.2) fun hpos => ?_
    have hm := List.mem_of_getElem? hpos.2
    refine ⟨h.clust p hm, h.used hm, fun hon => ?_⟩
    obtain ⟨j, hj, hall⟩ := hon
    have hlt : k + j < cs.length := by
      by_contra hge
      have := (hall (cs.length - k) (by omega)).2
      have := h.chain_stop hc
      omega
    have hget := h.chain_from hc j hlt
    rw [hj, ← hpos.2] at hget
    have := (List.getElem?_inj hlt hnd).1 hget
    omega
  have hpc : p ≠ 0 → g.entry w.logical p = c := fun hp0 => by
    rcases hp with hz | hpos
    · exact absurd hz.2 hp0
    · exact h.chain.link (k - 1) p c hpos.2 (by rw [Nat.sub_add_cancel hpos.1]; exact hc)
  refine (((((removeChain_removes hg hcl hp' hs.dev.inv hs.dev.good (hs.dev.fatOn hg)).and
    (removeChain_inv hg hs.dev.inv c p)).and_ensures
    ((onDevice_closed hg).remove c p hs.dev hpc)).and_ensures
    (fun r w' hm hu => removeChain_unknown hs.dev.inv.geo hu r w' hm)).and_ensures
    fun r w' hm hcnt => removeChain_counted hg ⟨hs.dev, hcnt⟩ c p hpc r w'
      hm).mono fun r w' hpost => ?_
  obtain ⟨⟨⟨⟨⟨n, hr⟩, hfat⟩, hdev⟩, hunk⟩, hcnt⟩ := hpost
  obtain rfl := h.visited hc hr.visited
  have hok : r = .ok := by
    refine hr.res.resolve_right fun hi => ?_
    obtain ⟨j, hj, h1⟩ := hr.err.1 hi
    exact hs.one _ (hr.visited.clust j hj) h1
  have hfreed : ∀ e ∈ cs.drop k, g.entry w'.logical e = 0 := fun e he => by
    obtain ⟨j, hj⟩ := List.mem_iff_getElem?.1 he
    rw [List.getElem?_drop] at hj
    have hlt := (List.getElem?_eq_some_iff.1 hj).1
    have hget := h.chain_from hc j hlt
    rw [hj] at hget
    rw [Option.some.inj hget]
    exact hr.freed hok j (by omega)
  have hmem : ∀ j < cs.length - k, g.chain w.logical c j ∈ cs.drop k := fun j hj =>
    List.mem_of_getElem? (i := j) (by rw [List.getElem?_drop]; exact h.chain_from hc j (by omega))
  have hother : ∀ e, g.IsClust e → (p ≠ 0 → e ≠ p) → e ∉ cs.drop k →
      g.entry w'.logical e = g.entry w.logical e := fun e he hne hn =>
    hr.other hok e he.2 hne fun j hj hej => hn (by rw [hej]; exact hmem j hj)
  have hmark := hg.endMark_ge
  have hent := hg.entries
  refine ⟨hok, ⟨hdev, fun e he => ?_, ?_⟩, hfat.sectors, fun s hin =>
    hfat.frame s (hg.not_inFat_of_ge hin.1) hin.not_inFat2, hfreed, fun e he hn => ?_, ?_, ?_, rfl⟩
  · -- the value 1 does not come up
    by_cases hep : p ≠ 0 ∧ e = p
    · rw [hep.2, hr.tail hok hep.1]
      omega
    · by_cases hd : e ∈ cs.drop k
      · rw [hfreed e hd]
        decide
      · rw [hother e he (fun hp0 he' => hep ⟨hp0, he'⟩) hd]
        exact hs.one e he
  · exact hs.count.imp hunk fun hex => (hcnt hex).count
  · refine hother e he (fun hp0 hep => hn ?_) fun hd => hn (List.mem_of_mem_drop hd)
    rcases hp with hz | hpos
    · exact absurd hz.2 hp0
    · rw [hep]
      exact List.mem_of_getElem? hpos.2
  · rcases hp with hz | hpos
    · rw [hz.1, List.take_zero]
      exact .nil
    · obtain ⟨j, rfl⟩ : ∃ j, k = j + 1 := ⟨k - 1, by omega⟩
      have hpj : cs[j]? = some p := hpos.2
      have hp0 : p ≠ 0 := by
        have := (h.clust p (List.mem_of_getElem? hpj)).1
        omega
      refine h.chain.take hpj (by rw [hr.tail hok hp0]; exact hmark) fun a ha => ?_
      refine hother a (h.clust a (List.mem_of_mem_take ha)) (fun _ hap => ?_) fun hd =>
        h.drop_disjoint (j + 1) ((List.take_prefix_take_left (by omega)).subset ha) hd
      obtain ⟨i, hi⟩ := List.mem_iff_getElem?.1 ha
      have hij := (List.getElem?_eq_some_iff.1 hi).1
      rw [List.length_take] at hij
      rw [List.getElem?_take_of_lt (by omega), hap, ← hpj] at hi
      have := (List.getElem?_inj (show i < cs.length by omega) hnd).1 hi
      omega
  · exact fun a ha => h.clust a (List.mem_of_mem_take ha)

end

/-! ## What a call on a file changes -/

/-- What a call on the file object may change that turns the chain `cs` of its file into `cs'`.
Outside of the chain that is the directory entry of the file. -/
structure Touches (g : Geometry) (w : State) (fp : FIL) (cs : List Nat) (w' : State)
    (cs' : List Nat) :
    Prop where
  stable : Stable g w'
  sectors : w'.disk.sectors = w.disk.sectors
  came : ∀ c ∈ cs', c ∉ cs → g.IsClust c ∧ g.entry w.logical c = 0
  left : ∀ c ∈ cs, c ∉ cs' → g.entry w'.logical c = 0
  entry : ∀ e, g.IsClust e → e ∉ cs → e ∉ cs' → g.entry w'.logical e = g.entry w.logical e
  data : ∀ s, g.InArea s → (∀ c ∈ cs', ¬g.InClust c s) → w'.logical s = w.logical s ∨
    (s = fp.dirSect ∧ w'.logical s = syncEntry g (w.logical s) fp.dirPtr fp)

section
variable {g : Geometry} {w w' : State} {cs cs' ds : List Nat} {start : Nat} {fp : FIL}

theorem Grows.touches (h : Grows g w cs w' cs') (fp : FIL) : Touches g w fp cs w' cs' :=
  ⟨h.stable, h.sectors, h.fresh, fun _ hc hn => absurd (h.pre.subset hc) hn,
    fun e he _ hn => h.entry e he hn, fun s hs hn => .inl (h.data s hs hn)⟩

/-- A cluster in use that is not of the file stays apart from it. -/
theorem Touches.not_mem (h : Touches g w fp cs w' cs') {e : Nat} (hu : g.entry w.logical e ≠ 0)
    (hn : e ∉ cs) : e ∉ cs' := fun hm => hu (h.came e hm hn).2

theorem Touches.disjoint (h : Touches g w fp cs w' cs') (hd : IsChain g w.logical start ds)
    (hdis : ds.Disjoint cs) : ds.Disjoint cs' :=
  fun _ hc hc' => h.not_mem (hd.used hc) (fun hm => hdis hc hm) hc'

/-- A cluster in use that is not of the file keeps its entry. -/
theorem Touches.entry_used (h : Touches g w fp cs w' cs') {e : Nat} (he : g.IsClust e)
    (hu : g.entry w.logical e ≠ 0) (hn : e ∉ cs) : g.entry w'.logical e = g.entry w.logical e :=
  h.entry e he hn (h.not_mem hu hn)

/-- The content of another file stays. -/
theorem Touches.content (hg : g.Sound) (h : Touches g w fp cs w' cs') (hcl : ∀ c ∈ cs', g.IsClust c)
    (hd : IsChain g w.logical start ds) (hdis : ds.Disjoint cs) (hdir : ∀ c ∈ ds,
    ¬g.InClust c fp.dirSect) {n : Nat} (hlen : g.clusters n ≤ ds.length) :
    g.content w'.logical ds n = g.content w.logical ds n := by
  refine hg.content_congr hlen fun c hc s hs => ?_
  refine (h.data s (hs.inArea hg (hd.clust c hc)) fun e hm he => ?_).resolve_right fun he =>
    hdir c hc (by rw [← he.1]; exact hs)
  refine h.disjoint hd hdis hc ?_
  rw [hs.unique hg (hd.clust c hc) (hcl e hm) he]
  exact hm

/-- The free clusters and those of the file are exchanged for each other. -/
theorem Touches.free {start' : Nat} (h : Touches g w fp cs w' cs')
    (hc : IsChain g w.logical start cs) (hc' : IsChain g w'.logical start' cs') :
    g.free w'.logical + cs'.length = g.free w.logical + cs.length := by
  have hset : g.freeSet w'.logical ∪ cs'.toFinset = g.freeSet w.logical ∪ cs.toFinset := by
    ext e
    simp only [Finset.mem_union, Geometry.mem_freeSet, List.mem_toFinset]
    by_cases hm : e ∈ cs
    · by_cases hm' : e ∈ cs'
      · exact ⟨fun _ => .inr hm, fun _ => .inr hm'⟩
      · exact ⟨fun _ => .inr hm, fun _ => .inl ⟨hc.clust e hm, h.left e hm hm'⟩⟩
    · by_cases hm' : e ∈ cs'
      · exact ⟨fun _ => .inl (h.came e hm' hm), fun _ => .inr hm'⟩
      · constructor
        · rintro (⟨he, h0⟩ | hx)
          · exact .inl ⟨he, by rw [← h.entry e he hm hm']; exact h0⟩
          · exact absurd hx hm'
        · rintro (⟨he, h0⟩ | hx)
          · exact .inl ⟨he, by rw [h.entry e he hm hm']; exact h0⟩
          · exact absurd hx hm
  have hdis : ∀ {L : Nat → Sector} {l : List Nat} {a : Nat}, IsChain g L a l →
      (g.freeSet L ∪ l.toFinset).card = g.free L + l.length := by
    intro L l a hl
    rw [Finset.card_union_of_disjoint, List.toFinset_card_of_nodup hl.chain.nodup]
    · rfl
    · rw [Finset.disjoint_left]
      intro e he hm
      exact hl.used (List.mem_toFinset.1 hm) (Geometry.mem_freeSet.1 he).2
  rw [← hdis hc', ← hdis hc, hset]

/-! ## `f_truncate` -/

/-- What `f_truncate` does to the file: the bytes from the cursor on go, with their clusters. -/
structure Truncated (g : Geometry) (w : State) (fp : FIL) (cs : List Nat) (r : FRESULT × FIL)
    (w' : State) (cs' : List Nat) : Prop where
  res : r.1 = .ok
  touches : Touches g w fp cs w' cs'
  holds : r.2.Holds g w' cs'
  fptr : r.2.fptr = fp.fptr
  objsize : r.2.objsize = fp.fptr
  content : g.content w'.logical cs' fp.fptr = (g.content w.logical cs fp.objsize).take fp.fptr
  flag : r.2.flag = if fp.fptr < fp.objsize then fp.flag ||| FA_MODIFIED else fp.flag
  same : ¬fp.fptr < fp.objsize → r.2 = fp
  dirSect : r.2.dirSect = fp.dirSect
  dirPtr : r.2.dirPtr = fp.dirPtr

variable (hg : g.Sound)

include hg

/-- The chain of the file is cut behind the cluster of the cursor. -/
theorem truncChain_store (hs : Stable g w) (h : fp.Holds g w cs) (hlt : fp.fptr < fp.objsize) :
    Returns (truncChain fp) w fun r w' => r.1 = .ok ∧
      r.2 = { fp with sclust := (cs.take (g.clusters fp.fptr)).headD 0 } ∧
      Touches g w fp cs w' (cs.take (g.clusters fp.fptr)) ∧
      (∀ s, g.InArea s → w'.logical s = w.logical s) ∧
      IsChain g w'.logical ((cs.take (g.clusters fp.fptr)).headD 0)
      (cs.take (g.clusters fp.fptr)) := by
  have hch := h.file.toIsChain
  have hb := hg.bcs_pos
  -- what the removal from the cluster `k` on leaves
  have htail : ∀ {w₁ k c p}, Stable g w₁ → w₁.disk.sectors = w.disk.sectors → Same g w w₁ →
      cs[k]? = some c → ((k = 0 ∧ p = 0) ∨ (0 < k ∧ cs[k - 1]? = some p)) →
      Returns (removeChain c p) w₁ fun r w' => r = .ok ∧ Touches g w fp cs w' (cs.take k) ∧
        (∀ s, g.InArea s → w'.logical s = w.logical s) ∧
        IsChain g w'.logical ((cs.take k).headD 0) (cs.take k) := by
    intro w₁ k c p hs₁ hsec₁ hsame₁ hc hp
    have hch₁ := hch.congr fun e hm => hg.entry_same hsame₁ (hch.clust e hm).2
    refine (removeChain_tail hg hs₁ hch₁ hc hp).mono fun r w' hpost => ?_
    obtain ⟨hr, hst, hsec, harea, hfreed, hsame, hcut⟩ := hpost
    have harea' : ∀ s, g.InArea s → w'.logical s = w.logical s := fun s hin => by
      rw [harea s hin, hsame₁ s hin.not_inFat2]
    refine ⟨hr, ⟨hst, hsec.trans hsec₁, fun e he hn => absurd (List.mem_of_mem_take he) hn,
      fun e he hn => ?_, fun e he hn _ => ?_, fun s hin _ => .inl (harea' s hin)⟩, harea', hcut⟩
    · rw [← List.take_append_drop k cs, List.mem_append] at he
      exact hfreed e (he.resolve_left hn)
    · rw [hsame e he hn, hg.entry_same hsame₁ he.2]
  rw [truncChain, returns_ite]
  refine ⟨fun hz => ?_, fun hz => ?_⟩
  · have hlen := h.div_lt hg hlt
    rw [hz, Nat.zero_div] at hlen
    have hne : fp.sclust ≠ 0 := fun h0 => by
      rw [hch.nil_iff.2 h0] at hlen
      exact Nat.not_lt_zero _ hlen
    rw [hz, hg.clusters_zero, returns_bind]
    refine (htail hs rfl (.refl g w) (hch.head hne) (.inl ⟨rfl, rfl⟩)).mono fun r w' hpost => ?_
    obtain ⟨hr, ht, harea, hcut⟩ := hpost
    exact returns_pure.2 ⟨hr, rfl, ht, harea, hcut⟩
  · have hpos : 0 < fp.fptr := Nat.pos_of_ne_zero hz
    have hcl := h.clust hpos
    have hk : g.clusters fp.fptr = (fp.fptr - 1) / (g.csize * SS) + 1 := by
      have := Nat.div_add_mod (fp.fptr - 1) (g.csize * SS)
      have := Nat.mod_lt (fp.fptr - 1) hb
      refine hg.clusters_eq ?_ ?_
      · rw [Nat.mul_comm]
        omega
      · rw [Nat.add_mul, Nat.one_mul, Nat.mul_comm]
        omega
    have hlen := (List.getElem?_eq_some_iff.1 hcl).1
    generalize (fp.fptr - 1) / (g.csize * SS) = i at hcl hk hlen
    rw [hk]
    have hhead : (cs.take (i + 1)).headD 0 = fp.sclust := by
      rw [hch.start]
      rcases cs with _ | ⟨a, l⟩
      · cases hcl
      · rfl
    rw [returns_bind]
    refine (getFat_stable hg hs (hch.clust _ (List.mem_of_getElem? hcl))).mono fun r w₁ hpost => ?_
    obtain ⟨hr, hst, hsec, hsame⟩ := hpost
    have hmax := hg.nFatent_lt
    have hone := hs.one _ (hch.clust _ (List.mem_of_getElem? hcl))
    rcases Nat.lt_or_ge (i + 1) cs.length with hin | hout
    · -- the chain goes on behind the cluster of the cursor
      have hd := List.getElem?_eq_getElem hin
      have hlink := hch.chain.link i _ _ hcl hd
      have hrcl := hch.clust _ (List.getElem_mem hin)
      rw [← hlink, ← hr] at hrcl
      have h2 := hrcl.1
      have hrlt := hrcl.2
      rw [if_neg (by omega), if_neg (by omega), returns_bind, returns_get, hst.dev.inv.geo,
        if_pos hrlt, returns_bind]
      refine (htail (p := fp.clust) hst hsec hsame (by rw [hr, hlink]; exact hd)
        (.inr ⟨Nat.succ_pos i, hcl⟩)).mono fun r w' hpost => ?_
      obtain ⟨hres, ht, harea, hcut⟩ := hpost
      exact returns_pure.2 ⟨hres, by rw [hhead], ht, harea, hcut⟩
    · -- the cluster of the cursor is the last one
      have hend := hch.chain.last i _ hcl (by omega)
      rw [← hr] at hend hone
      have hlast : cs.take (i + 1) = cs := List.take_of_length_le (by omega)
      have hne : r ≠ DISKERR := fun hd => by
        have := g.entryMod_le
        have := g.entry_lt w.logical fp.clust
        rw [← hr, hd] at this
        simp only [DISKERR] at this
        omega
      rw [if_neg hne, if_neg hone, returns_bind, returns_get, hst.dev.inv.geo,
        if_neg (Nat.not_lt.2 hend), returns_pure, hhead, hlast]
      refine ⟨rfl, rfl, (Grows.of_same hg hst hsec hsame cs).touches _, fun s hin =>
        hsame s hin.not_inFat2, ?_⟩
      exact hch.congr fun e hm => hg.entry_same hsame (hch.clust e hm).2

/-- `f_truncate` on a file. -/
theorem fTruncate_store (hs : Stable g w) (h : fp.Holds g w cs)
    (hflag : hasBits fp.flag FA_WRITE = true) :
    Returns (fTruncate fp) w fun r w' => ∃ cs', Truncated g w fp cs r w' cs' := by
  have hin := h.inside
  rw [fTruncate, returns_bind]
  refine ⟨_, _, validate_holds hg hs h, ?_⟩
  simp only [ne_eq, not_true_eq_false, if_false, h.err, hflag, Bool.not_true, Bool.false_eq_true]
  rw [returns_ite]
  refine ⟨fun hlt => ?_, fun hge => returns_pure.2 ⟨cs, ?_⟩⟩
  · rw [returns_bind]
    refine (truncChain_store hg hs h hlt).mono fun r w' hpost => ?_
    obtain ⟨res, fp'⟩ := r
    obtain ⟨hres, hfp, ht, harea, hch⟩ := hpost
    simp only at hres hfp
    subst hres hfp
    have hle : g.clusters fp.fptr ≤ cs.length := by
      rw [h.file.length]
      exact hg.clusters_mono hin
    have hlen : (cs.take (g.clusters fp.fptr)).length = g.clusters fp.fptr := by
      rw [List.length_take]
      exact Nat.min_eq_left hle
    simp only [not_true_eq_false, if_false, returns_pure]
    refine ⟨cs.take (g.clusters fp.fptr), rfl, ht, ?_, rfl, rfl, ?_, by rw [if_pos hlt],
      fun hge => absurd hlt hge, rfl, rfl⟩
    · have hsz := h.size
      refine ⟨⟨hch, hlen⟩, by simp only; omega, h.fs, h.id, h.err, Nat.le_refl _, fun hpos => ?_,
        fun hne => ?_⟩
      · have hidx := hg.div_lt_clusters
          (show fp.fptr - 1 < fp.fptr from Nat.sub_lt hpos Nat.one_pos)
        simp only
        rw [List.getElem?_take_of_lt hidx]
        exact h.clust hpos
      · simp only
        rw [h.sect hne, Geometry.sectAt, Geometry.sectAt, List.getD_eq_getElem?_getD,
          List.getD_eq_getElem?_getD, List.getElem?_take_of_lt]
        -- inside a sector the cluster of the cursor is that of the byte before it
        have hb : fp.fptr % (g.csize * SS) ≠ 0 := fun hz => hne (by
          simp only
          rw [← Nat.mod_mod_of_dvd fp.fptr (Nat.dvd_mul_left SS g.csize), hz, Nat.zero_mod])
        have hpos : 0 < fp.fptr := Nat.pos_of_ne_zero fun hz => hb (by rw [hz, Nat.zero_mod])
        rw [← pred_div_of_mod hb]
        exact hg.div_lt_clusters (Nat.sub_lt hpos Nat.one_pos)
    · rw [Geometry.content_take hin, ← hg.content_prefix (List.take_prefix (g.clusters fp.fptr) cs)
        (Nat.le_of_eq hlen.symm)]
      exact hg.content_congr hle fun c hm s hin' => harea s (hin'.inArea hg (h.file.clust c hm))
  · have heq : fp.fptr = fp.objsize := Nat.le_antisymm hin (Nat.le_of_not_lt hge)
    refine ⟨rfl, (Grows.refl hs cs).touches _, h, rfl, heq.symm,
      ?_, by rw [if_neg hge], fun _ => rfl, rfl, rfl⟩
    rw [Geometry.content_take hin]

end

end FatFs
