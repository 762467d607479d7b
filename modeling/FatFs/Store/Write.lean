import FatFs.Store.Content

/-!
# Writing to a file

A file object that `Holds` a chain has its cursor on the chain: the current cluster is the one of
the byte before the cursor, and the current sector the one of the cursor where that is inside a
sector. One round of the loop of `f_write` stores a piece of the data that ends at a sector, at a
cluster or with the data; it is carried to the whole call by `Splice.splice_splice`.
-/

namespace FatFs

open Run Splice

/-- The file object is open on the file with the clusters `cs`, and its cursor is on them. -/
structure FIL.Holds (g : Geometry) (w : State) (fp : FIL) (cs : List Nat) : Prop where
  file : IsFile g w.logical fp.sclust fp.objsize cs
  size : fp.objsize < W32
  fs : fp.fs = true
  id : fp.id = g.id
  err : fp.err = .ok
  inside : fp.fptr ≤ fp.objsize
  clust : 0 < fp.fptr → cs[(fp.fptr - 1) / (g.csize * SS)]? = some fp.clust
  sect : fp.fptr % SS ≠ 0 → fp.sect = g.sectAt cs fp.fptr

section
variable {g : Geometry} (hg : g.Sound) {w w' : State} {cs cs' : List Nat} {fp : FIL}

/-- A file object with its cursor at the start. -/
theorem FIL.Holds.atStart (hf : IsFile g w.logical fp.sclust fp.objsize cs)
    (hsize : fp.objsize < W32)
    (hfs : fp.fs = true) (hid : fp.id = g.id) (herr : fp.err = .ok) (hz : fp.fptr = 0) :
    fp.Holds g w cs := by
  refine ⟨hf, hsize, hfs, hid, herr, by omega, fun h => ?_, fun h => ?_⟩
  · omega
  · rw [hz] at h
    exact absurd rfl h

/-- A file object depends on the entries of its chain only. -/
theorem FIL.Holds.congr (h : fp.Holds g w cs)
    (he : ∀ c ∈ cs, g.entry w'.logical c = g.entry w.logical c) : fp.Holds g w' cs :=
  ⟨⟨h.file.toIsChain.congr he, h.file.length⟩, h.size, h.fs, h.id, h.err, h.inside, h.clust, h.sect⟩

include hg

/-- A byte of the file is in one of its clusters. -/
theorem FIL.Holds.div_lt (h : fp.Holds g w cs) {k : Nat} (hk : k < fp.objsize) :
    k / (g.csize * SS) < cs.length := by
  rw [h.file.length]
  exact hg.div_lt_clusters hk

/-- A new cluster behind the end of a chain, or the first one of a file without clusters. -/
theorem IsChain.stretched {start c r : Nat} (h : IsChain g w.logical start cs)
    (hc : cs.getLast?.getD 0 = c) (hr : g.IsClust r)
    (hnew : ∀ e, g.IsClust e → g.entry w'.logical e = if e = c ∧ c ≠ 0 then r
      else if e = r then 0xFFFFFFFF % g.entryMod else g.entry w.logical e)
    (hfree : g.entry w.logical r = 0) :
    IsChain g w'.logical ((cs ++ [r]).headD 0) (cs ++ [r]) := by
  have hrc : r ∉ cs := fun hm => h.used hm hfree
  have hclust : ∀ e ∈ cs ++ [r], g.IsClust e := fun e he => by
    rcases List.mem_append.1 he with h' | h'
    · exact h.clust e h'
    · rw [List.mem_singleton.1 h']
      exact hr
  have hend : g.nFatent ≤ g.entry w'.logical r ∨ r = c ∧ c ≠ 0 := by
    rw [hnew r hr]
    by_cases hrc' : r = c ∧ c ≠ 0
    · exact .inr hrc'
    · rw [if_neg hrc', if_pos rfl]
      exact .inl hg.endMark_ge
  refine ⟨?_, hclust, rfl⟩
  rcases hl : cs.getLast? with _ | z
  · rw [List.getLast?_eq_none_iff.1 hl, List.nil_append]
    rw [hl] at hc
    exact .singleton (Nat.not_le.2 hr.2) (hend.resolve_right fun h' => h'.2 hc.symm)
  · rw [hl] at hc
    obtain rfl : z = c := hc
    have hz : z ∈ cs := List.mem_of_getLast? hl
    have hz0 : z ≠ 0 := by
      have := (h.clust z hz).1
      omega
    refine h.chain.snoc hl ?_ (fun a ha hne => ?_) (Nat.not_le.2 hr.2)
      (hend.resolve_right fun h' => hrc (h'.1 ▸ hz))
    · rw [hnew z (h.clust z hz), if_pos ⟨rfl, hz0⟩]
    · rw [hnew a (h.clust a ha), if_neg fun h' => hne h'.1,
        if_neg fun h' : a = r => hrc (h' ▸ ha)]

omit hg in
/-- The chain that `create_chain` stretched. -/
theorem Grows.stretched {c r : Nat} (hc : cs.getLast?.getD 0 = c) (hst : Stable g w')
    (hsec : w'.disk.sectors = w.disk.sectors)
    (harea : ∀ s, g.InArea s → w'.logical s = w.logical s) (hr : g.IsClust r)
    (hnew : ∀ e, g.IsClust e → g.entry w'.logical e = if e = c ∧ c ≠ 0 then r
      else if e = r then 0xFFFFFFFF % g.entryMod else g.entry w.logical e)
    (hfree : g.entry w.logical r = 0) : Grows g w cs w' (cs ++ [r]) := by
  refine ⟨hst, hsec, List.prefix_append _ _, fun e he hn => ?_, fun e he hn => ?_,
    fun s hs _ => harea s hs⟩
  · obtain rfl : e = r := by simpa [hn] using he
    exact ⟨hr, hfree⟩
  · rw [hnew e he, if_neg, if_neg fun h' => hn (by simp [h'])]
    rintro ⟨rfl, h0⟩
    rcases hl : cs.getLast? with _ | z
    · rw [hl] at hc
      exact h0 hc.symm
    · rw [hl] at hc
      obtain rfl : z = e := hc
      exact hn (List.mem_append_left _ (List.mem_of_getLast? hl))

omit hg in
/-- On a sector boundary the first sector of a cluster is at a cluster boundary. -/
theorem csect_eq_zero_iff {p : Nat} (h0 : p % SS = 0) :
    p / SS % g.csize = 0 ↔ p % (g.csize * SS) = 0 := by
  obtain ⟨q, rfl⟩ := Nat.dvd_of_mod_eq_zero h0
  rw [Nat.mul_div_cancel_left _ (by decide), Nat.mul_comm SS q, Nat.mul_mod_mul_right]
  simp only [SS]
  omega

/-- The cluster behind the end of the chain, unless no cluster is free. -/
theorem createChain_end (hs : Stable g w) {start c : Nat} (h : IsChain g w.logical start cs)
    (hc : cs.getLast?.getD 0 = c) :
    Returns (createChain c) w fun r w' => (∀ s, g.InArea s → w'.logical s = w.logical s) ∧
      ((r = 0 ∧ g.NoFree w.logical ∧ Grows g w cs w' cs ∧ IsChain g w'.logical start cs) ∨
      (g.IsClust r ∧ Grows g w cs w' (cs ++ [r]) ∧
        IsChain g w'.logical ((cs ++ [r]).headD 0) (cs ++ [r]))) := by
  have hcl : c = 0 ∨ (g.IsClust c ∧ g.entry w.logical c ≠ 0) ∧ g.nFatent ≤ g.entry w.logical c := by
    rcases hl : cs.getLast? with _ | z
    · rw [hl] at hc
      exact .inl hc.symm
    · rw [hl] at hc
      obtain rfl : z = c := hc
      have hz := List.mem_of_getLast? hl
      rw [List.getLast?_eq_getElem?] at hl
      have hlt := (List.getElem?_eq_some_iff.1 hl).1
      exact .inr ⟨⟨h.clust z hz, h.used hz⟩, h.chain.last _ z hl (by omega)⟩
  refine (createChain_stable hg hs (hcl.imp_right And.left)).mono fun r w' hpost => ?_
  obtain ⟨hst, hsec, harea, hr⟩ := hpost
  refine ⟨harea, ?_⟩
  rcases hr with ⟨hn, _, _⟩ | ⟨_, hr, hfull, he⟩ | ⟨_, hr, h0, hnew⟩
  · exact absurd (hcl.imp_right And.right) hn
  · refine .inl ⟨hr, hfull, ?_, h.congr fun e hm => he e (h.clust e hm)⟩
    exact ⟨hst, hsec, List.prefix_rfl, fun _ hm hn => absurd hm hn, fun e hm _ => he e hm,
      fun s hs _ => harea s hs⟩
  · exact .inr ⟨hr, .stretched hc hst hsec harea hr hnew h0, h.stretched hg hc hr hnew h0⟩

/-- The cluster behind the `k`-th one of a chain that goes on. -/
theorem createChain_next (hs : Stable g w) {start k c d : Nat} (h : IsChain g w.logical start cs)
    (hc : cs[k]? = some c) (hd : cs[k + 1]? = some d) :
    Returns (createChain c) w fun r w' => (∀ s, g.InArea s → w'.logical s = w.logical s) ∧ r = d ∧
      Grows g w cs w' cs ∧ IsChain g w'.logical start cs := by
  have hm := List.mem_of_getElem? hc
  have hlink : g.entry w.logical c = d := h.chain.link k c d hc hd
  have hdc := h.clust d (List.mem_of_getElem? hd)
  refine (createChain_stable hg hs (.inr ⟨h.clust c hm, h.used hm⟩)).mono fun r w' hpost => ?_
  obtain ⟨hst, hsec, harea, hr⟩ := hpost
  have hend : ¬ChainEnd g w c := by
    rintro (h0 | hge)
    · have := (h.clust c hm).1
      omega
    · have := hdc.2
      omega
  rcases hr with ⟨_, hr, he⟩ | ⟨he, _⟩ | ⟨he, _⟩
  · exact ⟨harea, hr.trans hlink, ⟨hst, hsec, List.prefix_rfl, fun _ hm hn => absurd hm hn,
      fun e hm _ => he e hm, fun s hs _ => harea s hs⟩, h.congr fun e hm => he e (h.clust e hm)⟩
  · exact absurd he hend
  · exact absurd he hend

omit hg in
/-- The place `p` is the end of the last cluster of the chain, and no cluster is free. -/
structure NoRoom (g : Geometry) (L : Nat → Sector) (cs : List Nat) (p : Nat) : Prop where
  noFree : g.NoFree L
  last : p = cs.length * (g.csize * SS)

omit hg in
/-- What the choice of the cluster for a write leaves: there is no room, or the cluster of the
cursor is on the chain. -/
def Chosen (g : Geometry) (w : State) (fp : FIL) (cs : List Nat) (v : Nat) (w' : State) : Prop :=
  (v = 0 ∧ NoRoom g w.logical cs fp.fptr ∧ Grows g w cs w' cs ∧ IsChain g w'.logical fp.sclust cs) ∨
  ∃ cs', g.IsClust v ∧ Grows g w cs w' cs' ∧ IsChain g w'.logical (cs'.headD 0) cs' ∧
    cs'[fp.fptr / (g.csize * SS)]? = some v ∧
    cs'.length = max cs.length (fp.fptr / (g.csize * SS) + 1)

/-- The choice at a cluster boundary. -/
theorem writeClust_chosen (hs : Stable g w) (h : fp.Holds g w cs)
    (h0 : fp.fptr % (g.csize * SS) = 0) :
    Returns (if fp.fptr = 0 then if fp.sclust = 0 then createChain 0 else pure fp.sclust
      else createChain fp.clust) w fun v w' =>
      (∀ s, g.InArea s → w'.logical s = w.logical s) ∧ Chosen g w fp cs v w' := by
  have hb := hg.bcs_pos
  have hch := h.file.toIsChain
  have hstart := hch.start
  rw [returns_ite]
  refine ⟨fun hz => ?_, fun hz => ?_⟩
  · rw [returns_ite]
    refine ⟨fun hs0 => ?_, fun hs0 => returns_pure.2 ⟨fun _ _ => rfl, .inr ⟨cs, ?_⟩⟩⟩
    · -- the first cluster of the file
      obtain rfl : cs = [] := hch.nil_iff.2 hs0
      refine (createChain_end hg hs hch rfl).mono fun v w' hpost => ?_
      obtain ⟨harea, ⟨hv, hfull, hgr, hc⟩ | ⟨hv, hgr, hc⟩⟩ := hpost
      · exact ⟨harea, .inl ⟨hv, ⟨hfull, by rw [hz, List.length_nil, Nat.zero_mul]⟩, hgr, hc⟩⟩
      · refine ⟨harea, .inr ⟨[v], hv, hgr, hc, ?_, ?_⟩⟩
        · rw [hz, Nat.zero_div]
          rfl
        · rw [hz, Nat.zero_div]
          rfl
    · have hhead := hch.head hs0
      have hlen := (List.getElem?_eq_some_iff.1 hhead).1
      refine ⟨hch.clust _ (List.mem_of_getElem? hhead), .refl hs cs,
        by rw [← hstart]; exact hch, ?_, ?_⟩
      · rw [hz, Nat.zero_div]
        exact hhead
      · rw [hz, Nat.zero_div]
        omega
  · have hpos : 0 < fp.fptr := Nat.pos_of_ne_zero hz
    have hcl := h.clust hpos
    have hsucc := pred_div_succ h0 hpos
    have hlen := (List.getElem?_eq_some_iff.1 hcl).1
    rcases Nat.lt_or_ge (fp.fptr / (g.csize * SS)) cs.length with hlt | hge
    · -- the chain goes on
      have hd := List.getElem?_eq_getElem hlt
      refine (createChain_next hg hs hch hcl (by rw [hsucc]; exact hd)).mono fun v w' hpost => ?_
      obtain ⟨harea, hv, hgr, hc⟩ := hpost
      refine ⟨harea, .inr ⟨cs, ?_, hgr, by rw [← hstart]; exact hc, by rw [hv]; exact hd, by omega⟩⟩
      rw [hv]
      exact hch.clust _ (List.getElem_mem hlt)
    · -- the cursor is at the end of the last cluster
      have hpred : cs.length = (fp.fptr - 1) / (g.csize * SS) + 1 :=
        Nat.le_antisymm (by rw [hsucc]; exact hge) hlen
      have hlast : cs.getLast?.getD 0 = fp.clust := by
        rw [List.getLast?_eq_getElem?, hpred, Nat.add_sub_cancel, hcl]
        rfl
      have hidx : fp.fptr / (g.csize * SS) = cs.length := by rw [hpred, hsucc]
      refine (createChain_end hg hs hch hlast).mono fun v w' hpost => ?_
      obtain ⟨harea, ⟨hv, hfull, hgr, hc⟩ | ⟨hv, hgr, hc⟩⟩ := hpost
      · refine ⟨harea, .inl ⟨hv, ⟨hfull, ?_⟩, hgr, hc⟩⟩
        rw [← hidx, Nat.div_mul_cancel (Nat.dvd_of_mod_eq_zero h0)]
      · refine ⟨harea, .inr ⟨cs ++ [v], hv, hgr, hc, ?_, ?_⟩⟩
        · rw [hidx, List.getElem?_concat_length]
        · rw [List.length_append, List.length_singleton]
          omega

/-- The current cluster for a write on a sector boundary. -/
theorem writeClust_store (hs : Stable g w) (h : fp.Holds g w cs) (h0 : fp.fptr % SS = 0) :
    Returns (writeClust fp (fp.fptr / SS % g.csize)) w fun r w' =>
      (∀ s, g.InArea s → w'.logical s = w.logical s) ∧
      ((r = .ok none ∧ NoRoom g w.logical cs fp.fptr ∧ Grows g w cs w' cs ∧
        IsChain g w'.logical fp.sclust cs) ∨
      ∃ cs' c, r = .ok (some { fp with clust := c, sclust := cs'.headD 0 }) ∧ Grows g w cs w' cs' ∧
        IsChain g w'.logical (cs'.headD 0) cs' ∧ cs'[fp.fptr / (g.csize * SS)]? = some c ∧
        cs'.length = max cs.length (fp.fptr / (g.csize * SS) + 1)) := by
  have hch := h.file.toIsChain
  have hstart := hch.start
  rw [writeClust, returns_ite]
  refine ⟨fun hcs => ?_, fun hcs => returns_pure.2 ⟨fun _ _ => rfl, .inr ?_⟩⟩
  · rw [returns_bind]
    refine (writeClust_chosen hg hs h ((csect_eq_zero_iff h0).1 hcs)).mono fun v w' hpost => ?_
    obtain ⟨harea, ⟨hv, hfull, hgr, hc⟩ | ⟨cs', hv, hgr, hc, hidx, hlen⟩⟩ := hpost
    · rw [if_pos hv, returns_pure]
      exact ⟨harea, .inl ⟨rfl, hfull, hgr, hc⟩⟩
    · have h2 := hv.1
      have hlt := hv.2
      have hmax := hg.nFatent_lt
      rw [if_neg (by omega), if_neg (by omega), if_neg (by omega), returns_pure]
      refine ⟨harea, .inr ⟨cs', v, ?_, hgr, hc, hidx, hlen⟩⟩
      have hsc : (if fp.sclust = 0 then v else fp.sclust) = cs'.headD 0 := by
        split
        · rename_i h0'
          -- a file without clusters has its cursor at the start
          have hnil : cs = [] := hch.nil_iff.2 h0'
          have hz : fp.fptr = 0 := by
            by_contra hne
            have := h.clust (Nat.pos_of_ne_zero hne)
            rw [hnil] at this
            cases this
          rw [hz, Nat.zero_div] at hidx
          rcases cs' with _ | ⟨a, l⟩
          · cases hidx
          · simpa using hidx.symm
        · rename_i h0'
          have hpre := hgr.pre
          rcases cs with _ | ⟨a, l⟩
          · exact absurd hstart h0'
          · obtain ⟨t, rfl⟩ := hpre
            exact hstart
      rw [hsc]
  · have hne : fp.fptr % (g.csize * SS) ≠ 0 := fun hz => hcs ((csect_eq_zero_iff h0).2 hz)
    have hpos : 0 < fp.fptr := Nat.pos_of_ne_zero fun hz => hne (by rw [hz, Nat.zero_mod])
    have hcl := h.clust hpos
    rw [pred_div_of_mod hne] at hcl
    have hlen := (List.getElem?_eq_some_iff.1 hcl).1
    refine ⟨cs, fp.clust, ?_, .refl hs cs, by rw [← hstart]; exact hch, hcl, by omega⟩
    rw [← hstart]

/-! ## The data -/

omit hg in
/-- The bytes `x` are stored from the byte `p` of the file with the clusters `cs` on; the other
bytes below `size` stay, and so does everything outside the clusters. -/
structure Stored (g : Geometry) (w : State) (cs : List Nat) (p : Nat) (x : List UInt8) (size : Nat)
    (w' : State) : Prop where
  dev : OnDevice g w'
  sectors : w'.disk.sectors = w.disk.sectors
  freeClst : w'.freeClst = w.freeClst
  fat : ∀ s, g.InFat s → w'.logical s = w.logical s
  frame : ∀ s, g.InArea s → (∀ c ∈ cs, ¬g.InClust c s) → w'.logical s = w.logical s
  bytes : ∀ k, p ≤ k → k < p + x.length → g.byteAt w'.logical cs k = x.getD (k - p) 0
  rest : ∀ k < size, (k < p ∨ p + x.length ≤ k) →
    g.byteAt w'.logical cs k = g.byteAt w.logical cs k

omit hg in
/-- The content after a store. -/
theorem Stored.content {p size : Nat} {x : List UInt8} (h : Stored g w cs p x size w')
    (hp : p ≤ size) : g.content w'.logical cs (max size (p + x.length)) =
      splice (g.content w.logical cs size) p x := by
  refine List.ext_getElem? fun k => ?_
  rw [getElem?_splice (by rw [Geometry.content_length]; exact hp)]
  rcases Nat.lt_or_ge k (max size (p + x.length)) with hk | hk
  · rw [Geometry.content_getElem? hk]
    by_cases hx : p ≤ k ∧ k < p + x.length
    · rw [if_pos hx, h.bytes k hx.1 hx.2, List.getD_eq_getElem _ _ (by omega),
        List.getElem?_eq_getElem (by omega)]
    · rw [if_neg hx, Geometry.content_getElem? (by omega), h.rest k (by omega) (by omega)]
  · rw [if_neg (by omega), List.getElem?_eq_none (by rw [Geometry.content_length]; exact hk),
      List.getElem?_eq_none (by rw [Geometry.content_length]; omega)]

section
variable {p size : Nat} {x : List UInt8} (hdev : OnDevice g w) (hnd : cs.Nodup)
  (hcl : ∀ c ∈ cs, g.IsClust c) (hp : p / (g.csize * SS) < cs.length)
  (hsize : ∀ k < size, k / (g.csize * SS) < cs.length)

include hdev hnd hcl hp hsize

/-- A store to one sector of the file through the window. -/
theorem Patched.stored {keep : Prop} (h : Patched g w (g.sectAt cs p) (p % SS) x keep w')
    (hx : p % SS + x.length ≤ SS) (hkeep : keep ∨ (size ≤ p ∧ p % SS = 0)) :
    Stored g w cs p x size w' := by
  have hin := hg.sectAt_inClust (List.getElem?_eq_getElem hp)
  have hmem := List.getElem_mem hp
  have harea := hin.inArea hg (hcl _ hmem)
  refine ⟨⟨⟨h.inv, hdev.info.2.imp_left fun ho => ho.of_eq h.kept.fsiFlag⟩, ?_, ?_⟩, h.kept.sectors,
    h.kept.freeClst, fun s hs => ?_, fun s hs hn => ?_, fun k hk hlt => ?_, fun k hk hout => ?_⟩
  · rw [h.kept.sectors]
    exact hdev.on
  · exact h.good (harea.on hdev)
  · exact h.frame s hs.not_inFat2 fun he => hg.not_inArea_of_inFat hs (he ▸ harea)
  · exact h.frame s hs.not_inFat2 fun he => hn _ hmem (he ▸ hin)
  · have hdiv : k / SS = p / SS := by simp only [SS] at *; omega
    have hmod : k % SS = p % SS + (k - p) := by simp only [SS] at *; omega
    unfold Geometry.byteAt
    rw [(Geometry.sectAt_congr hdiv).1, hmod, h.bytes _ (by omega) (by omega),
      Nat.add_sub_cancel_left]
  · unfold Geometry.byteAt
    by_cases hdiv : k / SS = p / SS
    · rw [(Geometry.sectAt_congr hdiv).1]
      rcases hkeep with hkeep | ⟨hle, h0⟩
      · exact h.rest hkeep _ (by simp only [SS] at *; omega)
      · simp only [SS] at *
        omega
    · rw [h.frame _ ?_ fun he => hdiv (hg.sectAt_inj hnd hcl (hsize k hk) hp he)]
      have hin' := hg.sectAt_inClust (List.getElem?_eq_getElem (hsize k hk))
      exact (hin'.inArea hg (hcl _ (List.getElem_mem (hsize k hk)))).not_inFat2

/-- A direct write of whole sectors of a cluster. -/
theorem DirectWrite.stored {buff : List UInt8} {cc : Nat}
    (h : DirectWrite g w buff (g.sectAt cs p) cc .ok w') (h0 : p % SS = 0)
    (hcc : p / SS % g.csize + cc ≤ g.csize) (hlen : SS * cc ≤ buff.length) :
    Stored g w cs p (buff.take (SS * cc)) size w' := by
  have hin := hg.sectAt_inClust (List.getElem?_eq_getElem hp)
  have hmem := List.getElem_mem hp
  have hx : (buff.take (SS * cc)).length = SS * cc := by rw [List.length_take]; omega
  -- the sectors written are sectors of the cluster
  have hsect : ∀ s, g.sectAt cs p ≤ s → s < g.sectAt cs p + cc →
      g.InClust cs[p / (g.csize * SS)] s := by
    intro s hl hr
    have hd : g.sectAt cs p = clst2sect g cs[p / (g.csize * SS)] + p / SS % g.csize := by
      unfold Geometry.sectAt
      rw [List.getD_eq_getElem _ _ hp]
    unfold Geometry.InClust
    omega
  have hlog := h.logical rfl
  refine ⟨⟨⟨h.inv, hdev.info.2.imp_left fun ho => ho.of_eq h.kept.fsiFlag⟩, ?_, h.good hdev.good⟩,
    h.kept.sectors, h.kept.freeClst, fun s hs => ?_, fun s hs hn => ?_, fun k hk hlt => ?_,
    fun k hk hout => ?_⟩
  · rw [h.kept.sectors]
    exact hdev.on
  · rw [hlog, if_neg fun hr => hg.not_inArea_of_inFat hs ((hsect s hr.1 hr.2).inArea hg
      (hcl _ hmem))]
  · rw [hlog, if_neg fun hr => hn _ hmem (hsect s hr.1 hr.2)]
  · obtain ⟨i, hi, hdiv⟩ : ∃ i < cc, k / SS = (p + i * SS) / SS := by
      refine ⟨k / SS - p / SS, ?_, ?_⟩
      all_goals
        rw [hx] at hlt
        simp only [SS] at *
        omega
    have hadd : g.sectAt cs (p + i * SS) = g.sectAt cs p + i := (Geometry.sectAt_add (by omega)).1
    have hofs : SS * i + k % SS = k - p := by simp only [SS] at *; omega
    unfold Geometry.byteAt
    rw [(Geometry.sectAt_congr hdiv).1, hadd, hlog, if_pos ⟨by omega, by omega⟩,
      Nat.add_sub_cancel_left,
      Sector.ofList, List.getD_eq_getElem?_getD, List.getElem?_drop, hofs,
      List.getD_eq_getElem?_getD, List.getElem?_take_of_lt (by omega)]
  · unfold Geometry.byteAt
    rw [hlog, if_neg]
    rintro ⟨hl, hr⟩
    obtain ⟨i, hi⟩ := Nat.exists_eq_add_of_le hl
    obtain ⟨hadd, hdiv⟩ : g.sectAt cs (p + i * SS) = g.sectAt cs p + i ∧ _ :=
      Geometry.sectAt_add (by omega)
    have hinj := hg.sectAt_inj hnd hcl (hsize k hk) (by rw [hdiv]; exact hp) (hi.trans hadd.symm)
    rw [hx] at hout
    simp only [SS] at *
    omega

end

/-! ## One round and the whole call -/

omit hg in
/-- The bytes `x` were written to the file at the cursor. -/
structure Written (g : Geometry) (w : State) (fp : FIL) (cs : List Nat) (x : List UInt8) (fp' : FIL)
    (w' : State) (cs' : List Nat) : Prop where
  grows : Grows g w cs w' cs'
  holds : fp'.Holds g w' cs'
  fptr : fp'.fptr = fp.fptr + x.length
  objsize : fp'.objsize = max fp.objsize (fp.fptr + x.length)
  content : g.content w'.logical cs' fp'.objsize =
    splice (g.content w.logical cs fp.objsize) fp.fptr x
  flag : fp'.flag = fp.flag
  dirSect : fp'.dirSect = fp.dirSect
  dirPtr : fp'.dirPtr = fp.dirPtr

omit hg in
theorem Written.refl (hs : Stable g w) (h : fp.Holds g w cs) : Written g w fp cs [] fp w cs where
  grows := .refl hs cs
  holds := h
  fptr := rfl
  objsize := (Nat.max_eq_left h.inside).symm
  content := splice_nil.symm
  flag := rfl
  dirSect := rfl
  dirPtr := rfl

omit hg in
theorem Written.trans {w₂ : State} {fp₁ fp₂ : FIL} {cs₂ : List Nat} {x y : List UInt8}
    (hin : fp.fptr ≤ fp.objsize) (h : Written g w fp cs x fp₁ w' cs')
    (h' : Written g w' fp₁ cs' y fp₂ w₂ cs₂) : Written g w fp cs (x ++ y) fp₂ w₂ cs₂ where
  grows := h.grows.trans h'.grows
  holds := h'.holds
  fptr := by rw [h'.fptr, h.fptr, List.length_append, Nat.add_assoc]
  objsize := by rw [h'.objsize, h.objsize, h.fptr, List.length_append]; omega
  content := by
    rw [h'.content, h.content, h.fptr, splice_splice (by rw [Geometry.content_length]; exact hin)]
  flag := h'.flag.trans h.flag
  dirSect := h'.dirSect.trans h.dirSect
  dirPtr := h'.dirPtr.trans h.dirPtr

/-- The file object after a store of `n` bytes at the cursor, inside the cluster of the cursor. -/
theorem FIL.Holds.advance (h : fp.Holds g w cs) {n c s : Nat}
    (hch : IsChain g w'.logical (cs'.headD 0) cs')
    (hlen : cs'.length = max cs.length (fp.fptr / (g.csize * SS) + 1))
    (hc : cs'[fp.fptr / (g.csize * SS)]? = some c) (hn : 0 < n)
    (hin : fp.fptr % (g.csize * SS) + n ≤ g.csize * SS) (hlt : fp.fptr + n < W32)
    (hs : (fp.fptr + n) % SS ≠ 0 → fp.fptr % SS + n < SS ∧ s = g.sectAt cs' fp.fptr) :
    (FIL.advance { fp with clust := c, sclust := cs'.headD 0, sect := s } n).Holds g w' cs' ∧
      (FIL.advance { fp with clust := c, sclust := cs'.headD 0, sect := s } n).objsize =
        max fp.objsize (fp.fptr + n) := by
  have hadd : add32 fp.fptr n = fp.fptr + n := add32_of_lt hlt
  have hmax : (if fp.objsize < fp.fptr + n then fp.fptr + n else fp.objsize) =
      max fp.objsize (fp.fptr + n) := by
    split <;> omega
  have hadv : FIL.advance { fp with clust := c, sclust := cs'.headD 0, sect := s } n =
      { fp with
        clust := c, sclust := cs'.headD 0, sect := s, fptr := fp.fptr + n
        objsize := max fp.objsize (fp.fptr + n) } := by
    simp only [FIL.advance, hadd, hmax]
  have hb := hg.bcs_pos
  have hdm := Nat.div_add_mod fp.fptr (g.csize * SS)
  rw [Nat.mul_comm] at hdm
  have hcl : g.clusters (fp.fptr + n) = fp.fptr / (g.csize * SS) + 1 := by
    refine hg.clusters_eq (by omega) ?_
    rw [Nat.add_mul, Nat.one_mul]
    omega
  have hpred : (fp.fptr + n - 1) / (g.csize * SS) = fp.fptr / (g.csize * SS) := by
    refine Nat.div_eq_of_lt_le (by omega) ?_
    rw [Nat.add_mul, Nat.one_mul]
    omega
  rw [hadv]
  refine ⟨⟨⟨hch, ?_⟩, ?_, h.fs, h.id, h.err, Nat.le_max_right _ _, fun _ => ?_, fun hne => ?_⟩, rfl⟩
  · rw [hg.clusters_max, hcl, ← h.file.length, hlen]
  · exact Nat.max_lt.2 ⟨h.size, hlt⟩
  · rw [hpred]
    exact hc
  · obtain ⟨hlt', hs'⟩ := hs hne
    rw [hs', (Geometry.sectAt_congr (show (fp.fptr + n) / SS = fp.fptr / SS by
      simp only [SS] at *; omega)).1]

/-- A store after the choice of the cluster writes to the file. -/
theorem Stored.wrote {w₁ : State} {x : List UInt8} {c s : Nat} (h : fp.Holds g w cs)
    (hgr : Grows g w cs w₁ cs') (harea : ∀ s, g.InArea s → w₁.logical s = w.logical s)
    (hch : IsChain g w₁.logical (cs'.headD 0) cs')
    (hlen : cs'.length = max cs.length (fp.fptr / (g.csize * SS) + 1))
    (hc : cs'[fp.fptr / (g.csize * SS)]? = some c)
    (hst : Stored g w₁ cs' fp.fptr x fp.objsize w') (hx : 0 < x.length)
    (hin : fp.fptr % (g.csize * SS) + x.length ≤ g.csize * SS) (hlt : fp.fptr + x.length < W32)
    (hs : (fp.fptr + x.length) % SS ≠ 0 →
      fp.fptr % SS + x.length < SS ∧ s = g.sectAt cs' fp.fptr) :
    Written g w fp cs x
      (FIL.advance { fp with clust := c, sclust := cs'.headD 0, sect := s } x.length) w' cs' := by
  have hent : ∀ e, g.IsClust e → g.entry w'.logical e = g.entry w₁.logical e :=
    fun e he => hg.entry_congr hst.fat he.2
  have hgr₂ : Grows g w₁ cs' w' cs' :=
    ⟨hgr.stable.of_frame hg hst.dev hst.fat hst.freeClst, hst.sectors, List.prefix_rfl,
      fun _ hm hn => absurd hm hn, fun e he _ => hent e he, hst.frame⟩
  have hch₂ : IsChain g w'.logical (cs'.headD 0) cs' :=
    hch.congr fun e hm => hent e (hch.clust e hm)
  obtain ⟨hholds, hsize⟩ := h.advance hg hch₂ hlen hc hx hin hlt hs
  have hold : g.content w₁.logical cs' fp.objsize = g.content w.logical cs fp.objsize := by
    rw [hg.content_prefix hgr.pre (Nat.le_of_eq h.file.length.symm)]
    exact hg.content_congr (Nat.le_of_eq h.file.length.symm) fun c hm s hs =>
      harea s (hs.inArea hg (h.file.clust c hm))
  refine ⟨hgr.trans hgr₂, hholds, add32_of_lt hlt, hsize, ?_, rfl, rfl, rfl⟩
  rw [hsize, hst.content h.inside, hold]

/-- Flushing the window of a stable state. -/
theorem syncWindow_stable (hs : Stable g w) (cs : List Nat) : Returns syncWindow w fun r w' =>
    r = .ok ∧ Grows g w cs w' cs ∧ Same g w w' := by
  refine ((syncWindow_inv hg hs.dev.inv).and_ensures ((onDevice_closed hg).sync w hs.dev)).mono
    fun r w' hpost => ?_
  obtain ⟨h, hdev⟩ := hpost
  have hst := hs.of_frame hg hdev (fun s hs => h.same s hs.not_inFat2) h.kept.freeClst
  exact ⟨h.good hs.dev.good, .of_same hg hst h.kept.sectors h.same cs, h.same⟩

section
variable {w₁ : State} {c : Nat} {buff : List UInt8} (h : fp.Holds g w cs)
  (hgr : Grows g w cs w₁ cs') (harea : ∀ s, g.InArea s → w₁.logical s = w.logical s)
  (hch : IsChain g w₁.logical (cs'.headD 0) cs')
  (hlen : cs'.length = max cs.length (fp.fptr / (g.csize * SS) + 1))
  (hc : cs'[fp.fptr / (g.csize * SS)]? = some c) (hbuff : buff ≠ [])
  (hlt : fp.fptr + buff.length < W32)

include h hgr harea hch hlen hc hlt

/-- Whole sectors of the data are written directly. -/
theorem writeDirect_store (h0 : fp.fptr % SS = 0) {cc : Nat} (hcc : 0 < cc)
    (hle : fp.fptr / SS % g.csize + cc ≤ g.csize) (hbl : SS * cc ≤ buff.length) :
    Returns (writeDirect buff (g.sectAt cs' fp.fptr) cc) w₁ fun r w' => r = .ok ∧
      Written g w fp cs (buff.take (SS * cc))
        (FIL.advance { fp with clust := c, sclust := cs'.headD 0 } (SS * cc)) w' cs' := by
  have hdev := hgr.stable.dev
  have hidx := (List.getElem?_eq_some_iff.1 hc).1
  have hcl := hch.clust c (List.mem_of_getElem? hc)
  have hsect : g.sectAt cs' fp.fptr = clst2sect g c + fp.fptr / SS % g.csize := by
    unfold Geometry.sectAt
    rw [List.getD_eq_getElem?_getD, hc]
    rfl
  -- the sectors are on the device
  have hlast := hg.inArea_clst hcl (show fp.fptr / SS % g.csize + cc - 1 < g.csize by omega)
  have hon : g.sectAt cs' fp.fptr + cc ≤ w₁.disk.sectors := by
    have := hlast.on hdev
    omega
  refine (writeDirect_inv hdev.inv buff hcc (by have := hdev.inv.size; omega)).mono
    fun r w' hd => ?_
  obtain rfl := hd.full hon
  have hin : ∀ k < fp.objsize, k / (g.csize * SS) < cs'.length := fun k hk => by
    have := h.div_lt hg hk
    omega
  have hst := hd.stored hg hdev hch.chain.nodup hch.clust hidx hin h0 hle hbl
  have hxl : (buff.take (SS * cc)).length = SS * cc := by rw [List.length_take]; omega
  have hw := hst.wrote hg (c := c) (s := fp.sect) h hgr harea hch hlen hc
    (by rw [hxl]; simp only [SS]; omega)
    ?_ (by rw [hxl]; omega) ?_
  · rw [hxl] at hw
    exact ⟨rfl, hw⟩
  · rw [hxl]
    have hmod : fp.fptr % (g.csize * SS) = fp.fptr / SS % g.csize * SS := by
      obtain ⟨q, hq⟩ := Nat.dvd_of_mod_eq_zero h0
      rw [hq, Nat.mul_div_cancel_left _ (by decide), Nat.mul_comm SS q, Nat.mul_mod_mul_right]
    rw [hmod, Nat.mul_comm SS cc, ← Nat.add_mul]
    exact Nat.mul_le_mul_right _ hle
  · intro hne
    rw [hxl] at hne
    exact absurd (by simp only [SS] at *; omega) hne

include hbuff

/-- The rest of a sector is written through the window. -/
theorem Patched.wrote {keep : Prop}
    (hp : Patched g w₁ (g.sectAt cs' fp.fptr) (fp.fptr % SS)
      (buff.take (min (SS - fp.fptr % SS) buff.length)) keep w')
    (hkeep : keep ∨ (fp.objsize ≤ fp.fptr ∧ fp.fptr % SS = 0)) :
    Written g w fp cs (buff.take (min (SS - fp.fptr % SS) buff.length))
      (FIL.advance { fp with clust := c, sclust := cs'.headD 0, sect := g.sectAt cs' fp.fptr }
        (min (SS - fp.fptr % SS) buff.length)) w' cs' := by
  have hidx := (List.getElem?_eq_some_iff.1 hc).1
  have hpos := List.length_pos_iff.2 hbuff
  have hsm := Nat.mod_lt fp.fptr (show 0 < SS by decide)
  have hxl : (buff.take (min (SS - fp.fptr % SS) buff.length)).length =
      min (SS - fp.fptr % SS) buff.length := by
    rw [List.length_take]
    omega
  have hin : ∀ k < fp.objsize, k / (g.csize * SS) < cs'.length := fun k hk => by
    have := h.div_lt hg hk
    omega
  have hst := hp.stored hg hgr.stable.dev hch.chain.nodup hch.clust hidx hin
    (by rw [hxl]; omega) hkeep
  have hw := hst.wrote hg (c := c) (s := g.sectAt cs' fp.fptr) h hgr harea hch hlen hc
    (by rw [hxl]; omega) ?_ (by rw [hxl]; omega) ?_
  · rw [hxl] at hw
    exact hw
  · rw [hxl]
    -- the cursor is in a sector, and that in a cluster
    have hsub : fp.fptr % (g.csize * SS) = fp.fptr / SS % g.csize * SS + fp.fptr % SS := by
      rw [Nat.mul_comm g.csize, Nat.mod_mul, Nat.mul_comm SS, Nat.add_comm]
    have hcs := Nat.mod_lt (fp.fptr / SS) hg.csize_pos
    have hmul : (fp.fptr / SS % g.csize + 1) * SS ≤ g.csize * SS := Nat.mul_le_mul_right _ hcs
    rw [Nat.add_mul, Nat.one_mul] at hmul
    omega
  · intro hne
    rw [hxl] at hne ⊢
    refine ⟨?_, rfl⟩
    simp only [SS] at *
    omega

end

/-- One round of the loop of `f_write` on data that is left: a piece of it is written, or there is
no room. -/
theorem fWriteRound_store (hs : Stable g w) (h : fp.Holds g w cs) {buff : List UInt8}
    (hbuff : buff ≠ []) (hlt : fp.fptr + buff.length < W32) (bw : Nat) :
    Returns (fWriteRound (fp, buff, bw)) w fun r w' =>
      (r = .inr (.ok, fp, bw) ∧ NoRoom g w.logical cs fp.fptr ∧ Written g w fp cs [] fp w' cs) ∨
      ∃ n fp' cs', 0 < n ∧ n ≤ buff.length ∧ r = .inl (fp', buff.drop n, bw + n) ∧
        Written g w fp cs (buff.take n) fp' w' cs' := by
  have hpos := List.length_pos_iff.2 hbuff
  have hgeo := hs.dev.inv.geo
  rw [fWriteRound]
  simp only [hbuff, if_false]
  rw [returns_ite]
  refine ⟨fun h0 => ?_, fun h0 => ?_⟩
  · rw [returns_bind, returns_get, hgeo, hg.and_csize, returns_bind]
    refine (writeClust_store hg hs h h0).mono fun r w₁ hpost => ?_
    obtain ⟨harea, ⟨rfl, hfull, hgr, hch⟩ | ⟨cs', c, rfl, hgr, hch, hc, hlen⟩⟩ := hpost
    · have hcont : g.content w₁.logical cs fp.objsize = g.content w.logical cs fp.objsize :=
        hg.content_congr (Nat.le_of_eq h.file.length.symm) fun c hm s hs =>
          harea s (hs.inArea hg (h.file.clust c hm))
      refine returns_pure.2 (.inl ⟨rfl, hfull, hgr, ?_, rfl, (Nat.max_eq_left h.inside).symm, ?_,
        rfl, rfl, rfl⟩)
      · exact ⟨⟨hch, h.file.length⟩, h.size, h.fs, h.id, h.err, h.inside, h.clust, h.sect⟩
      · rw [hcont, splice_nil]
    · -- the window is flushed when it shows the sector before
      simp only [returns_bind, returns_get]
      refine Returns.mono (Q := fun r w₂ => r = .ok ∧ Grows g w₁ cs' w₂ cs' ∧ Same g w₁ w₂) ?_
        fun r w₂ hpost => ?_
      · rw [returns_ite]
        exact ⟨fun _ => syncWindow_stable hg hgr.stable cs',
          fun _ => returns_pure.2 ⟨rfl, .refl hgr.stable cs', .refl g w₁⟩⟩
      obtain ⟨rfl, hgr₂, hsame⟩ := hpost
      have hcl := hch.clust c (List.mem_of_getElem? hc)
      have harea₂ : ∀ s, g.InArea s → w₂.logical s = w.logical s := fun s hs => by
        rw [hsame s hs.not_inFat2, harea s hs]
      have hch₂ := hch.congr fun e hm => hg.entry_same hsame (hch.clust e hm).2
      have hcs := Nat.mod_lt (fp.fptr / SS) hg.csize_pos
      have hsect : add32 (clst2sect g c) (fp.fptr / SS % g.csize) = g.sectAt cs' fp.fptr := by
        have hin := hg.inArea_lt (hg.inArea_clst hcl hcs)
        rw [add32_of_lt hin, Geometry.sectAt, List.getD_eq_getElem?_getD, hc]
        rfl
      simp only [ne_eq, not_true_eq_false, if_false, hg.clst2sect_pos hcl, hsect]
      rw [returns_ite]
      refine ⟨fun hcc => ?_, fun hcc => ?_⟩
      · -- whole sectors
        generalize hk : (if g.csize < fp.fptr / SS % g.csize + buff.length / SS then
          g.csize - fp.fptr / SS % g.csize else buff.length / SS) = cc
        have hk' : 0 < cc ∧ fp.fptr / SS % g.csize + cc ≤ g.csize ∧ cc ≤ buff.length / SS := by
          rw [← hk]
          split <;> omega
        have hbl : SS * cc ≤ buff.length := by
          have := Nat.mul_le_mul_left SS hk'.2.2
          have := Nat.mul_div_le buff.length SS
          omega
        rw [returns_bind]
        refine (writeDirect_store hg h (hgr.trans hgr₂) harea₂ hch₂ hlen hc hlt h0 hk'.1 hk'.2.1
          hbl).mono fun r w₃ hpost => ?_
        obtain ⟨rfl, hw⟩ := hpost
        simp only [not_true_eq_false, if_false, returns_pure]
        exact .inr ⟨SS * cc, _, cs', Nat.mul_pos (by decide) hk'.1, hbl, rfl, hw⟩
      · -- the rest of a sector
        have hin := hg.inArea_clst hcl hcs
        have hsect' : g.sectAt cs' fp.fptr = clst2sect g c + fp.fptr / SS % g.csize := by
          rw [← hsect, add32_of_lt (hg.inArea_lt hin)]
        rw [← hsect'] at hin
        refine (growEdge_inv hg hgr₂.stable.dev.inv { fp with clust := c, sclust := cs'.headD 0 }
          hin buff bw).mono fun r w₃ hpost => ?_
        rcases hpost with ⟨_, _, hoff⟩ | ⟨rfl, hp⟩
        · exact absurd (hin.on hgr₂.stable.dev) (hoff hgr₂.stable.dev.good)
        · refine .inr ⟨_, _, cs', ?_, Nat.min_le_right _ _, rfl,
            hp.wrote hg h (hgr.trans hgr₂) harea₂ hch₂ hlen hc
            hbuff hlt ?_⟩
          · simp only [h0, SS]
            omega
          · by_cases hedge : fp.fptr < fp.objsize
            · exact .inl ⟨hedge, hin.on hgr₂.stable.dev⟩
            · exact .inr ⟨Nat.le_of_not_lt hedge, h0⟩
  · -- inside a sector
    have hb : fp.fptr % (g.csize * SS) ≠ 0 := fun hz => h0 (by
      rw [← Nat.mod_mod_of_dvd fp.fptr (Nat.dvd_mul_left SS g.csize), hz, Nat.zero_mod])
    have hp : 0 < fp.fptr := Nat.pos_of_ne_zero fun hz => h0 (by rw [hz, Nat.zero_mod])
    have hc := h.clust hp
    rw [pred_div_of_mod hb] at hc
    have hidx := (List.getElem?_eq_some_iff.1 hc).1
    have hin := (hg.sectAt_inClust hc).inArea hg (h.file.clust _ (List.mem_of_getElem? hc))
    rw [← h.sect h0] at hin
    refine (writeWindow_inv hg hs.dev.inv fp buff bw).mono fun r w₃ hpost => ?_
    rcases hpost with ⟨_, _, hoff⟩ | ⟨rfl, hp⟩
    · exact absurd (hin.on hs.dev) (hoff hs.dev.good)
    · rw [h.sect h0] at hp
      have hch : IsChain g w.logical (cs.headD 0) cs := by
        rw [← h.file.start]
        exact h.file.toIsChain
      have hw := hp.wrote hg h (.refl hs cs) (fun _ _ => rfl) hch (by omega) hc hbuff hlt (.inl ?_)
      · rw [← h.file.start, ← h.sect h0] at hw
        refine .inr ⟨_, _, cs, ?_, Nat.min_le_right _ _, rfl, hw⟩
        have := Nat.mod_lt fp.fptr (show 0 < SS by decide)
        omega
      · rw [← h.sect h0]
        exact ⟨hin.on hs.dev, hin.not_inFat2⟩

/-- The loop of `f_write` writes all of its data unless it runs out of free clusters. -/
theorem fWriteLoop_store (hs : Stable g w) (h : fp.Holds g w cs) {buff : List UInt8}
    (hlt : fp.fptr + buff.length < W32) {fuel : Nat} (hfuel : buff.length < fuel) :
    Returns (loop fWriteRound fuel (fp, buff, 0)) w fun r w' => r.1 = .ok ∧ r.2.2 ≤ buff.length ∧
      ∃ cs', Written g w fp cs (buff.take r.2.2) r.2.1 w' cs' ∧
        (r.2.2 < buff.length → NoRoom g w'.logical cs' r.2.1.fptr) := by
  -- the data left is what follows the bytes written
  refine Returns.loop (I := fun n p w' => p.2.1 = buff.drop p.2.2 ∧ p.2.2 ≤ buff.length ∧
      p.2.1.length ≤ n ∧ ∃ cs', Written g w fp cs (buff.take p.2.2) p.1 w' cs') (n := buff.length)
    (fun n p w₁ hinv => ?_) ⟨rfl, Nat.zero_le _, Nat.le_refl _, cs, ?_⟩ hfuel
  · obtain ⟨fp₁, left, bw⟩ := p
    obtain ⟨hleft, hbw, hn, cs₁, hw₁⟩ := hinv
    simp only at hleft hbw hn hw₁
    have hlen : left.length = buff.length - bw := by rw [hleft, List.length_drop]
    have htake : (buff.take bw).length = bw := by rw [List.length_take]; omega
    by_cases hnil : left = []
    · rw [fWriteRound, if_pos hnil, returns_pure]
      rw [hnil, List.length_nil] at hlen
      exact ⟨rfl, hbw, cs₁, hw₁, fun hlt' => by simp only at hlt'; omega⟩
    · have hfp := hw₁.fptr
      rw [htake] at hfp
      refine (fWriteRound_store hg hw₁.grows.stable hw₁.holds hnil (by omega) bw).mono
        fun r w₂ hpost => ?_
      rcases hpost with ⟨rfl, hfull, hw₂⟩ | ⟨m, fp₂, cs₂, hm, hml, rfl, hw₂⟩
      · refine ⟨rfl, hbw, cs₁, ?_, fun _ =>
          ⟨hw₂.grows.noFree hw₂.holds.file.toIsChain hfull.noFree, hfull.last⟩⟩
        have := hw₁.trans h.inside hw₂
        rwa [List.append_nil] at this
      · refine ⟨(left.drop m).length, ?_, ?_, by simp only; omega, Nat.le_refl _, cs₂, ?_⟩
        · rw [List.length_drop]
          omega
        · rw [hleft, List.drop_drop]
        · have := hw₁.trans h.inside hw₂
          rwa [hleft, ← List.take_add] at this
  · exact .refl hs h

theorem validate_holds (hs : Stable g w) (h : fp.Holds g w cs) :
    validate fp.fs fp.id w = some (.ok, w) := by
  have hmounted := hg.fsType
  have hgeo := hs.dev.inv.geo
  rw [validate, get_bind_apply,
    if_pos ⟨h.fs, by rw [hgeo]; exact hmounted, by rw [hgeo, h.id], rfl⟩]
  rfl

omit hg in
/-- What `f_write` does to the file: it writes the first bytes of the data at the cursor, all of
them unless the size limit is reached or there is no room. -/
structure WriteOut (g : Geometry) (w : State) (fp : FIL) (cs : List Nat) (buff : List UInt8)
    (r : FRESULT × FIL × Nat) (w' : State) (cs' : List Nat) : Prop where
  res : r.1 = .ok
  count : r.2.2 ≤ buff.length
  wrote : Written g w fp cs (buff.take r.2.2) { r.2.1 with flag := fp.flag } w' cs'
  flag : r.2.1.flag = fp.flag ||| FA_MODIFIED
  short : r.2.2 < buff.length →
    fp.fptr + r.2.2 = 0xFFFFFFFF ∨ NoRoom g w'.logical cs' (fp.fptr + r.2.2)

/-- `f_write` on a file. -/
theorem fWrite_store (hs : Stable g w) (h : fp.Holds g w cs)
    (hflag : hasBits fp.flag FA_WRITE = true) {buff : List UInt8} (hbuff : buff.length < W32) :
    Returns (fWrite fp buff) w fun r w' => ∃ cs', WriteOut g w fp cs buff r w' cs' := by
  have hsize := h.size
  have hin := h.inside
  rw [fWrite, returns_bind]
  refine ⟨_, _, validate_holds hg hs h, ?_⟩
  simp only [ne_eq, not_true_eq_false, if_false, h.err, hflag, Bool.not_true, Bool.false_eq_true]
  -- the data is clipped where the size would reach 4 GiB
  generalize hclip : (if add32 fp.fptr buff.length < fp.fptr then 0xFFFFFFFF - fp.fptr
    else buff.length) = btw
  have hbtw : btw ≤ buff.length ∧ fp.fptr + btw < W32 ∧
      (btw < buff.length → fp.fptr + btw = 0xFFFFFFFF) := by
    rw [← hclip]
    unfold add32
    simp only [W32] at *
    split <;> omega
  have hlen : (buff.take btw).length = btw := by rw [List.length_take]; omega
  rw [returns_bind]
  refine (fWriteLoop_store hg hs h (by rw [hlen]; exact hbtw.2.1) (by rw [hlen]; omega)).mono
    fun r w' hpost => ?_
  obtain ⟨res, fp', bw⟩ := r
  obtain ⟨hok, hle, cs', hw, hshort⟩ := hpost
  simp only at hok hle hw hshort
  rw [hlen] at hle hshort
  rw [List.take_take, Nat.min_eq_left hle] at hw
  subst hok
  simp only [if_true, returns_pure]
  refine ⟨cs', rfl, by simp only; omega, ?_, ?_, fun hlt => ?_⟩
  · have hf := hw.flag
    simp only [← hf]
    exact hw
  · simp only [hw.flag]
  · simp only at hlt ⊢
    by_cases hb : bw < btw
    · have hroom := hshort hb
      rw [hw.fptr, List.length_take, Nat.min_eq_left (by omega)] at hroom
      exact .inr hroom
    · left
      have := hbtw.2.2 (by omega)
      omega

end

end FatFs
