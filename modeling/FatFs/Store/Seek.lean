import FatFs.File.Seek
import FatFs.Store.Read

/-!
# Seeking in a file

`f_lseek` follows the chain from the current cluster or from the first one to the cluster of the
target. Behind the end of a file that is open for writing it stretches the chain; the bytes that the
file gains are what the clusters held. When the clusters run out, the cursor stops at the end of the
last cluster.
-/

namespace FatFs

open Run Splice

/-- The walk of a seek has reached the `k`-th cluster: `p` are the file object, the cluster and the
offset that is left. -/
structure SeekWalk (g : Geometry) (w₀ : State) (fp₀ : FIL) (cs : List Nat) (target k : Nat)
    (p : FIL × Nat × Nat) (w : State) (cs₁ : List Nat) : Prop where
  grows : Grows g w₀ cs w cs₁
  area : ∀ s, g.InArea s → w.logical s = w₀.logical s
  chain : IsChain g w.logical (cs₁.headD 0) cs₁
  length : cs₁.length = max cs.length (k + 1)
  fil : p.1 = { fp₀ with fptr := k * (g.csize * SS), clust := p.2.1, sclust := cs₁.headD 0 }
  clust : cs₁[k]? = some p.2.1
  pos : 0 < p.2.2
  target : k * (g.csize * SS) + p.2.2 = target

/-- The walk of a seek has passed the last cluster, the `k`-th, and no cluster is free. -/
structure SeekFull (g : Geometry) (w₀ : State) (fp₀ : FIL) (cs : List Nat) (target k : Nat)
    (p : FIL × Nat × Nat) (w : State) (cs₁ : List Nat) : Prop where
  grows : Grows g w₀ cs w cs₁
  area : ∀ s, g.InArea s → w.logical s = w₀.logical s
  chain : IsChain g w.logical (cs₁.headD 0) cs₁
  length : cs₁.length = k + 1
  covers : cs.length ≤ k + 1
  lt : (k + 1) * (g.csize * SS) < target
  noFree : g.NoFree w.logical
  fil : ∃ c, cs₁[k]? = some c ∧
    p = ({ fp₀ with
      fptr := (k + 1) * (g.csize * SS), clust := c, sclust := cs₁.headD 0 }, 0, 0)

/-- What one round of the walk leaves: the next cluster is reached, or the target is in the current
one, or no cluster is free. -/
inductive SeekStep (g : Geometry) (w₀ : State) (fp₀ : FIL) (cs : List Nat) (target k : Nat)
    (p : FIL × Nat × Nat) (w : State) :
    (FIL × Nat × Nat) ⊕ Except (FRESULT × FIL) (FIL × Nat × Nat) → State → Prop
  | next {q w' cs₂} : q.2.2 + g.csize * SS = p.2.2 →
      SeekWalk g w₀ fp₀ cs target (k + 1) q w' cs₂ → SeekStep g w₀ fp₀ cs target k p w (.inl q) w'
  | here : p.2.2 ≤ g.csize * SS → SeekStep g w₀ fp₀ cs target k p w (.inr (.ok p)) w
  | full {q w' cs₂} : SeekFull g w₀ fp₀ cs target k q w' cs₂ →
      SeekStep g w₀ fp₀ cs target k p w (.inr (.ok q)) w'

/-- What a seek leaves: the cursor is at the target, or at the end of the last cluster when no
cluster is free; the bytes that the file had stay. -/
structure SeekDone (g : Geometry) (w : State) (fp : FIL) (cs : List Nat) (target : Nat)
    (r : FRESULT × FIL) (w' : State) (cs' : List Nat) : Prop where
  res : r.1 = .ok
  grows : Grows g w cs w' cs'
  holds : r.2.Holds g w' cs'
  objsize : r.2.objsize = max fp.objsize r.2.fptr
  content : (g.content w'.logical cs' r.2.objsize).take fp.objsize =
    g.content w.logical cs fp.objsize
  fptr : r.2.fptr = target ∨ (r.2.fptr < target ∧ fp.objsize ≤ r.2.fptr ∧
    r.2.fptr = cs'.length * (g.csize * SS) ∧ g.NoFree w'.logical)
  flag : r.2.flag = if fp.objsize < r.2.fptr then fp.flag ||| FA_MODIFIED else fp.flag
  dirSect : r.2.dirSect = fp.dirSect
  dirPtr : r.2.dirPtr = fp.dirPtr

section
variable {g : Geometry} (hg : g.Sound) {w₀ w : State} {fp₀ fp : FIL} {cs cs₁ : List Nat}
  {target k : Nat} {p : FIL × Nat × Nat}

/-- The bytes that a file had are the first ones of the longer file. -/
theorem Geometry.content_take {L : Nat → Sector} {m n : Nat} (h : m ≤ n) :
    (g.content L cs n).take m = g.content L cs m := by
  unfold Geometry.content
  rw [← List.map_take, List.take_range, Nat.min_eq_left h]

include hg

/-- The end of a seek in the chain it has reached. -/
theorem SeekDone.of_end (h₀ : fp₀.Holds g w₀ cs) (hgr : Grows g w₀ cs w cs₁)
    (harea : ∀ s, g.InArea s → w.logical s = w₀.logical s)
    (hch : IsChain g w.logical (cs₁.headD 0) cs₁) {q c nsect : Nat} (hq : q < W32)
    (hlen : cs₁.length = max cs.length (g.clusters q))
    (hc : 0 < q → cs₁[(q - 1) / (g.csize * SS)]? = some c)
    (hs : q % SS ≠ 0 → nsect = g.sectAt cs₁ q)
    (hfp : q = target ∨ (q < target ∧ fp₀.objsize ≤ q ∧ q = cs₁.length * (g.csize * SS) ∧
      g.NoFree w.logical)) :
    SeekDone g w₀ fp₀ cs target
      (.ok, seekEnd { fp₀ with fptr := q, clust := c, sclust := cs₁.headD 0 } nsect) w cs₁ := by
  have hsz := h₀.size
  have hend : seekEnd { fp₀ with fptr := q, clust := c, sclust := cs₁.headD 0 } nsect =
      { fp₀ with
        fptr := q, clust := c, sclust := cs₁.headD 0, objsize := max fp₀.objsize q
        flag := if fp₀.objsize < q then fp₀.flag ||| FA_MODIFIED else fp₀.flag
        sect := if q % SS ≠ 0 then nsect else fp₀.sect } := by
    unfold seekEnd
    by_cases hlt : fp₀.objsize < q
    · simp only [if_pos hlt, Nat.max_eq_right (Nat.le_of_lt hlt)]
      exact FIL.sect_eq { fp₀ with
        fptr := q, clust := c, sclust := cs₁.headD 0, objsize := q
        flag := fp₀.flag ||| FA_MODIFIED } nsect
    · simp only [if_neg hlt, Nat.max_eq_left (Nat.le_of_not_lt hlt)]
      exact FIL.sect_eq { fp₀ with fptr := q, clust := c, sclust := cs₁.headD 0 } nsect
  have hcont : g.content w.logical cs₁ fp₀.objsize = g.content w₀.logical cs fp₀.objsize := by
    rw [hg.content_prefix hgr.pre (Nat.le_of_eq h₀.file.length.symm)]
    exact hg.content_congr (Nat.le_of_eq h₀.file.length.symm) fun c hm s hs =>
      harea s (hs.inArea hg (h₀.file.clust c hm))
  rw [hend]
  refine ⟨rfl, hgr, ⟨⟨hch, ?_⟩, ?_, h₀.fs, h₀.id, h₀.err, Nat.le_max_right _ _, hc, fun hne => ?_⟩,
    rfl, ?_, hfp, rfl, rfl, rfl⟩
  · rw [hg.clusters_max, hlen, h₀.file.length]
  · exact Nat.max_lt.2 ⟨hsz, hq⟩
  · simp only [if_pos (show q % SS ≠ 0 from hne)]
    exact hs hne
  · simp only
    rw [Geometry.content_take (Nat.le_max_left _ _), hcont]

omit hg in
/-- The walk goes on to the next cluster `d` of the chain, which may have grown to reach it. -/
theorem SeekWalk.next (h : SeekWalk g w₀ fp₀ cs target k p w cs₁) (hlt : g.csize * SS < p.2.2)
    {d : Nat} {w' : State} {cs₂ : List Nat} (hd : cs₂[k + 1]? = some d) (hgr : Grows g w cs₁ w' cs₂)
    (harea : ∀ s, g.InArea s → w'.logical s = w.logical s)
    (hch : IsChain g w'.logical (cs₂.headD 0) cs₂) (hlen : cs₂.length = max cs.length (k + 2)) :
    SeekStep g w₀ fp₀ cs target k p w
      (.inl ({ p.1 with fptr := (k + 1) * (g.csize * SS), clust := d }, d,
        p.2.2 - g.csize * SS)) w' := by
  have htgt := h.target
  have hsc : p.1.sclust = cs₂.headD 0 := by
    rw [h.fil]
    obtain ⟨t, rfl⟩ := hgr.pre
    rcases cs₁ with _ | ⟨a, l⟩
    · cases h.clust
    · rfl
  refine .next (Nat.sub_add_cancel (Nat.le_of_lt hlt)) ⟨h.grows.trans hgr,
    fun s hs => (harea s hs).trans (h.area s hs), hch, hlen, ?_, hd, Nat.sub_pos_of_lt hlt, ?_⟩
  · simp only [← hsc]
    rw [h.fil]
  · simp only
    rw [Nat.add_mul, Nat.one_mul]
    omega

omit hg in
theorem SeekWalk.flag (h : SeekWalk g w₀ fp₀ cs target k p w cs₁) : p.1.flag = fp₀.flag := by
  rw [h.fil]

omit hg in
theorem SeekWalk.fptr (h : SeekWalk g w₀ fp₀ cs target k p w cs₁) :
    p.1.fptr = k * (g.csize * SS) := by
  rw [h.fil]

omit hg in
/-- The pointer of the file object after it passed the current cluster. -/
theorem SeekWalk.fptr_next (h : SeekWalk g w₀ fp₀ cs target k p w cs₁) (ht : target < W32)
    (hlt : g.csize * SS < p.2.2) :
    add32 p.1.fptr (g.csize * SS) = (k + 1) * (g.csize * SS) := by
  have htgt := h.target
  rw [h.fptr, add32_of_lt (by omega), Nat.add_mul, Nat.one_mul]

/-- One round of the walk on a file that is open for writing: the chain grows behind its last
cluster. -/
theorem seekRound_write (ht : target < W32) (hwr : hasBits fp₀.flag FA_WRITE = true)
    (h : SeekWalk g w₀ fp₀ cs target k p w cs₁) (hlt : g.csize * SS < p.2.2) :
    Returns (seekRound (g.csize * SS) p) w (SeekStep g w₀ fp₀ cs target k p w) := by
  obtain ⟨fp, c, ofs⟩ := p
  have hlen := h.length
  have hmax := hg.nFatent_lt
  have hflag : fp.flag = fp₀.flag := h.flag
  rw [seekRound]
  simp only [h.fptr_next ht hlt]
  rw [if_pos (show g.csize * SS < ofs from hlt), returns_bind, returns_get,
    h.grows.stable.dev.inv.geo, if_pos (by rw [hflag]; exact hwr), returns_bind]
  rcases Nat.lt_or_ge (k + 1) cs₁.length with hin | hout
  · -- the chain goes on
    have hnext := List.getElem?_eq_getElem hin
    refine (createChain_next hg h.grows.stable h.chain h.clust hnext).mono fun r w' hpost => ?_
    obtain ⟨har, hr, hgr, hch⟩ := hpost
    have hcl := h.chain.clust _ (List.getElem_mem hin)
    rw [← hr] at hcl
    have h2 := hcl.1
    have hlt' := hcl.2
    rw [if_neg (by omega), if_neg (by omega), if_neg (by omega), returns_pure]
    exact h.next hlt (by rw [hr]; exact hnext) hgr har hch (by omega)
  · -- the walk is at the last cluster
    have hlast : cs₁.getLast?.getD 0 = c := by
      rw [List.getLast?_eq_getElem?, show cs₁.length - 1 = k by omega, h.clust]
      rfl
    refine (createChain_end hg h.grows.stable h.chain hlast).mono fun r w' hpost => ?_
    obtain ⟨har, ⟨hr, hfull, hgr, hch⟩ | ⟨hr, hgr, hch⟩⟩ := hpost
    · have htgt : k * (g.csize * SS) + ofs = target := h.target
      rw [if_pos hr, returns_pure]
      refine .full ⟨h.grows.trans hgr, fun s hs => (har s hs).trans (h.area s hs), hch,
        by omega, by omega, ?_, hgr.noFree hch hfull, c, h.clust, ?_⟩
      · rw [Nat.add_mul, Nat.one_mul]
        exact htgt ▸ Nat.add_lt_add_left hlt _
      · exact congrArg (fun q : FIL => ({ q with fptr := (k + 1) * (g.csize * SS) }, 0, 0)) h.fil
    · have h2 := hr.1
      have hlt' := hr.2
      rw [if_neg (by omega), if_neg (by omega), if_neg (by omega), returns_pure]
      refine h.next hlt ?_ hgr har hch ?_
      · rw [show k + 1 = cs₁.length by omega, List.getElem?_concat_length]
      · rw [List.length_append, List.length_singleton]
        omega

/-- One round of the walk on a file that is open for reading only: the target is in the file, and
so is the next cluster. -/
theorem seekRound_read (h₀ : fp₀.Holds g w₀ cs) (ht : target < W32)
    (hro : hasBits fp₀.flag FA_WRITE = false) (hle : target ≤ fp₀.objsize)
    (h : SeekWalk g w₀ fp₀ cs target k p w cs₁) (hlt : g.csize * SS < p.2.2) :
    Returns (seekRound (g.csize * SS) p) w (SeekStep g w₀ fp₀ cs target k p w) := by
  obtain ⟨fp, c, ofs⟩ := p
  have hlen := h.length
  have hmax := hg.nFatent_lt
  have htgt : k * (g.csize * SS) + ofs = target := h.target
  have hflag : fp.flag = fp₀.flag := h.flag
  have hin : k + 1 < cs₁.length := by
    have hpass : (k + 1) * (g.csize * SS) < fp₀.objsize := by
      rw [Nat.add_mul, Nat.one_mul]
      exact Nat.lt_of_lt_of_le (Nat.add_lt_add_left hlt _) (htgt ▸ hle)
    have hcl := hg.div_lt_clusters hpass
    rw [Nat.mul_div_cancel _ hg.bcs_pos, ← h₀.file.length] at hcl
    omega
  have hd := List.getElem?_eq_getElem hin
  have hlink := h.chain.chain.link k _ _ h.clust hd
  rw [seekRound]
  simp only [h.fptr_next ht hlt]
  rw [if_pos (show g.csize * SS < ofs from hlt), returns_bind, returns_get,
    h.grows.stable.dev.inv.geo, if_neg (by rw [hflag, hro]; decide), returns_bind]
  refine (getFat_stable hg h.grows.stable (h.chain.clust _ (List.mem_of_getElem? h.clust))).mono
    fun r w' hpost => ?_
  obtain ⟨hr, hst, hsec, hsame⟩ := hpost
  have hcl := h.chain.clust _ (List.getElem_mem hin)
  rw [← hlink, ← hr] at hcl
  have h2 := hcl.1
  have hlt' := hcl.2
  rw [if_neg (by omega), if_neg (by omega), returns_pure]
  refine h.next hlt ?_ (.of_same hg hst hsec hsame cs₁)
    (fun s hs => hsame s hs.not_inFat2) ?_ (by omega)
  · rw [hr, hlink]
    exact hd
  · exact h.chain.congr fun e hm => hg.entry_same hsame (h.chain.clust e hm).2

/-- One round of the walk of a seek. -/
theorem seekRound_store (h₀ : fp₀.Holds g w₀ cs) (ht : target < W32)
    (hro : hasBits fp₀.flag FA_WRITE = false → target ≤ fp₀.objsize)
    (h : SeekWalk g w₀ fp₀ cs target k p w cs₁) :
    Returns (seekRound (g.csize * SS) p) w (SeekStep g w₀ fp₀ cs target k p w) := by
  rcases Nat.lt_or_ge (g.csize * SS) p.2.2 with hlt | hle
  · cases hwr : hasBits fp₀.flag FA_WRITE with
    | true => exact seekRound_write hg ht hwr h hlt
    | false => exact seekRound_read hg h₀ ht hwr (hro hwr) h hlt
  · obtain ⟨fp, c, ofs⟩ := p
    rw [seekRound]
    simp only
    rw [if_neg (Nat.not_lt_of_le hle), returns_pure]
    exact .here hle

/-- The walk arrives at the cluster of the target, or no cluster is free. -/
theorem seekLoop_store (h₀ : fp₀.Holds g w₀ cs) (ht : target < W32)
    (hro : hasBits fp₀.flag FA_WRITE = false → target ≤ fp₀.objsize)
    (h : SeekWalk g w₀ fp₀ cs target k p w cs₁) :
    Returns (loop (seekRound (g.csize * SS)) (W32 / SS + 1) p) w fun r w' =>
      ∃ q k' cs', r = .ok q ∧
        ((q.2.2 ≤ g.csize * SS ∧ SeekWalk g w₀ fp₀ cs target k' q w' cs') ∨
          SeekFull g w₀ fp₀ cs target k' q w' cs') := by
  -- a round takes at least one sector off the offset that is left
  refine Returns.loop (I := fun n q w' => q.2.2 ≤ n * SS ∧
      ∃ k' cs', SeekWalk g w₀ fp₀ cs target k' q w' cs') (n := W32 / SS) (fun n q w₁ hinv => ?_)
    ⟨?_, k, cs₁, h⟩ (Nat.lt_succ_self _)
  · obtain ⟨hn, k', cs', h₁⟩ := hinv
    refine (seekRound_store hg h₀ ht hro h₁).mono fun r w₂ hr => ?_
    cases hr with
    | @next q' _ cs₂ hq h₂ =>
      have hpos := h₂.pos
      have hmul := Nat.mul_le_mul_right SS (show 1 ≤ g.csize from hg.csize_pos)
      refine ⟨n - 1, ?_, ?_, k' + 1, cs₂, h₂⟩
      · simp only [SS] at *
        omega
      · simp only [SS] at *
        omega
    | here hle => exact ⟨q, k', cs', rfl, .inl ⟨hle, h₁⟩⟩
    | @full q' _ cs₂ hfull => exact ⟨q', k', cs₂, rfl, .inr hfull⟩
  · have htgt := h.target
    simp only [SS, W32] at *
    omega

/-- The end of a seek in the cluster of its target. -/
theorem SeekWalk.done (h₀ : fp₀.Holds g w₀ cs) (ht : target < W32)
    (h : SeekWalk g w₀ fp₀ cs target k p w cs₁) (hle : p.2.2 ≤ g.csize * SS) {nsect : Nat}
    (hs : target % SS ≠ 0 → nsect = g.sectAt cs₁ target) :
    SeekDone g w₀ fp₀ cs target (.ok, seekEnd { p.1 with fptr := target } nsect) w cs₁ := by
  have htgt := h.target
  have hpos := h.pos
  have hclu : g.clusters target = k + 1 := hg.clusters_eq (by omega) (by
    rw [Nat.add_mul, Nat.one_mul]
    omega)
  have hpred : (target - 1) / (g.csize * SS) = k := by
    refine Nat.div_eq_of_lt_le (by omega) ?_
    rw [Nat.add_mul, Nat.one_mul]
    omega
  rw [h.fil]
  exact .of_end hg h₀ h.grows h.area h.chain ht (by rw [hclu]; exact h.length)
    (fun _ => by rw [hpred]; exact h.clust) hs (.inl rfl)

/-- The sector of a target that is inside the current cluster. -/
theorem SeekWalk.sectAt (h : SeekWalk g w₀ fp₀ cs target k p w cs₁)
    (hlt : p.2.2 < g.csize * SS) :
    add32 (clst2sect g p.2.1) (p.2.2 / SS) = g.sectAt cs₁ target := by
  have htgt := h.target
  have hcl := h.chain.clust _ (List.mem_of_getElem? h.clust)
  have hdiv : p.2.2 / SS < g.csize := Nat.div_lt_of_lt_mul (by rw [Nat.mul_comm]; exact hlt)
  have hk : target / (g.csize * SS) = k := by
    rw [← htgt, Nat.add_comm, Nat.add_mul_div_right _ _ hg.bcs_pos, Nat.div_eq_of_lt hlt,
      Nat.zero_add]
  have hsec : target / SS % g.csize = p.2.2 / SS := by
    rw [← htgt, ← Nat.mul_assoc, Nat.add_comm, Nat.add_mul_div_right _ _ (by decide),
      Nat.add_mul_mod_self_right, Nat.mod_eq_of_lt hdiv]
  rw [add32_of_lt (hg.inArea_lt (hg.inArea_clst hcl hdiv)), Geometry.sectAt, hk, hsec,
    List.getD_eq_getElem?_getD, h.clust]
  rfl

/-- The end of a seek that no cluster was free for: the cursor stops behind the last cluster. -/
theorem SeekFull.done (h₀ : fp₀.Holds g w₀ cs) (ht : target < W32)
    (h : SeekFull g w₀ fp₀ cs target k p w cs₁) :
    SeekDone g w₀ fp₀ cs target
      (.ok, seekEnd { p.1 with fptr := (k + 1) * (g.csize * SS) } 0) w cs₁ := by
  obtain ⟨c, hc, rfl⟩ := h.fil
  have hb := hg.bcs_pos
  have hlen := h.length
  have hcovers := h.covers
  have hlt := h.lt
  have hmod : (k + 1) * (g.csize * SS) % SS = 0 := by rw [← Nat.mul_assoc, Nat.mul_mod_left]
  have hclu : g.clusters ((k + 1) * (g.csize * SS)) = k + 1 :=
    hg.clusters_eq (by rw [Nat.add_mul, Nat.one_mul]; omega) (Nat.le_refl _)
  have hpred : ((k + 1) * (g.csize * SS) - 1) / (g.csize * SS) = k := by
    rw [Nat.add_mul, Nat.one_mul]
    refine Nat.div_eq_of_lt_le (by omega) ?_
    rw [Nat.add_mul, Nat.one_mul]
    omega
  refine SeekDone.of_end hg h₀ h.grows h.area h.chain (by omega) ?_ (fun _ => ?_)
    (fun hne => absurd hmod hne) (.inr ⟨hlt, ?_, by rw [hlen], h.noFree⟩)
  · rw [hclu]
    omega
  · rw [hpred]
    exact hc
  · -- the old chain is covered
    by_contra hgt
    have hcl := hg.div_lt_clusters (Nat.lt_of_not_le hgt)
    rw [Nat.mul_div_cancel _ hb, ← h₀.file.length] at hcl
    omega

/-- The whole walk of a seek, from a cluster of the chain that is not behind the target. -/
theorem seekFollow_store (h₀ : fp₀.Holds g w₀ cs) (ht : target < W32)
    (hro : hasBits fp₀.flag FA_WRITE = false → target ≤ fp₀.objsize)
    (h : SeekWalk g w₀ fp₀ cs target k p w cs₁) :
    Returns (seekFollow p.1 p.2.1 p.2.2) w fun r w' =>
      ∃ cs', SeekDone g w₀ fp₀ cs target r w' cs' := by
  have hcl := h.chain.clust _ (List.mem_of_getElem? h.clust)
  rw [seekFollow, returns_ite]
  refine ⟨fun _ => ?_, fun h0 => absurd (by have := hcl.1; omega) h0⟩
  rw [returns_bind, returns_get, h.grows.stable.dev.inv.geo, returns_bind]
  refine (seekLoop_store hg h₀ ht hro h).mono fun r w' hpost => ?_
  obtain ⟨⟨fp', c, ofs⟩, k', cs', rfl, ⟨hle, h'⟩ | hfull⟩ := hpost
  · -- the cluster of the target
    have htgt : k' * (g.csize * SS) + ofs = target := h'.target
    have hcl' := h'.chain.clust _ (List.mem_of_getElem? h'.clust)
    have hq : add32 fp'.fptr ofs = target := by
      have hptr : fp'.fptr = k' * (g.csize * SS) := h'.fptr
      rw [hptr, add32_of_lt (by omega), htgt]
    have hmod : target % SS = ofs % SS := by
      rw [← htgt, ← Nat.mul_assoc, Nat.add_comm, Nat.add_mul_mod_self_right]
    simp only [hq, returns_ite, returns_pure]
    refine ⟨fun hm => ⟨fun h0 => absurd h0 (hg.clst2sect_pos hcl'),
        fun _ => ⟨cs', h'.done hg h₀ ht hle fun _ => ?_⟩⟩,
      fun hm => ⟨cs', h'.done hg h₀ ht hle fun hne => absurd (by rw [← hmod]; exact hne) hm⟩⟩
    -- the target is inside the cluster
    refine h'.sectAt hg (Nat.lt_of_le_of_ne hle fun he => hm ?_)
    rw [show ofs = g.csize * SS from he, Nat.mul_mod_left]
  · -- the end of the last cluster
    have hlt := hfull.lt
    have hdone := hfull.done hg h₀ ht
    obtain ⟨c', hc', hq⟩ := hfull.fil
    cases hq
    simp only [add32_of_lt (show (k' + 1) * (g.csize * SS) + 0 < W32 by omega), Nat.add_zero,
      Nat.zero_mod, ne_eq, not_true_eq_false, if_false, returns_pure]
    exact ⟨cs', hdone⟩

omit hg in
/-- The walk from the first cluster of a file. -/
theorem SeekWalk.start {c : Nat} (hgr : Grows g w₀ cs w cs₁)
    (harea : ∀ s, g.InArea s → w.logical s = w₀.logical s)
    (hch : IsChain g w.logical (cs₁.headD 0) cs₁) (hlen : cs₁.length = max cs.length 1)
    (hc : cs₁[0]? = some c) (hpos : 0 < target) :
    SeekWalk g w₀ fp₀ cs target 0
      ({ fp₀ with fptr := 0, clust := c, sclust := cs₁.headD 0 }, c, target) w cs₁ :=
  ⟨hgr, harea, hch, hlen, by simp only [Nat.zero_mul], hc, hpos,
    by simp only [Nat.zero_mul, Nat.zero_add]⟩

omit hg in
/-- The pointer of a file object is on its chain. -/
theorem FIL.Holds.cursor (h : fp.Holds g w cs) : fp.Cursor g w := by
  have hchain : 0 < fp.fptr → ∀ j ≤ (fp.fptr - 1) / (g.csize * SS),
      cs[j]? = some (g.chain w.logical fp.sclust j) := by
    intro hpos j hj
    have hidx := (List.getElem?_eq_some_iff.1 (h.clust hpos)).1
    have hget := List.getElem?_eq_getElem (Nat.lt_of_le_of_lt hj hidx)
    rw [h.file.chain_eq hget, hget]
  refine ⟨h.fs, h.id, h.err, h.size, ?_, fun hpos j hj => ?_, fun hpos => ?_⟩
  · by_cases h0 : fp.sclust = 0
    · exact .inl h0
    · exact .inr (h.file.clust _ (List.mem_of_getElem? (h.file.head h0)))
  · exact h.file.clust _ (List.mem_of_getElem? (hchain hpos j hj))
  · have := hchain hpos _ (Nat.le_refl _)
    rw [h.clust hpos] at this
    exact Option.some.inj this

/-- The seek from the first cluster, which is allocated when the file has none. -/
theorem seekFromStart_store (hs : Stable g w) (h : fp.Holds g w cs) (ht : target < W32)
    (hpos : 0 < target) (hro : hasBits fp.flag FA_WRITE = false → target ≤ fp.objsize) :
    Returns (seekFromStart fp target) w fun r w' => ∃ cs', SeekDone g w fp cs target r w' cs' := by
  have hch : IsChain g w.logical (cs.headD 0) cs := by
    rw [← h.file.start]
    exact h.file.toIsChain
  rw [seekFromStart]
  simp only
  rw [returns_ite]
  refine ⟨fun h0 => ?_, fun h0 => ?_⟩
  · obtain rfl : cs = [] := h.file.nil_iff.2 h0
    have hsize : fp.objsize = 0 := by
      by_contra hne
      have := h.div_lt hg (Nat.pos_of_ne_zero hne)
      exact Nat.not_lt_zero _ this
    rw [returns_bind]
    refine (createChain_end hg hs hch rfl).mono fun c w₁ hpost => ?_
    obtain ⟨har, ⟨rfl, hfull, hgr, hch₁⟩ | ⟨hc, hgr, hch₁⟩⟩ := hpost
    · -- no cluster is free
      rw [if_neg (by decide), if_neg (by decide), seekFollow, if_neg fun h => h rfl, returns_pure]
      refine ⟨[], SeekDone.of_end hg h hgr har hch₁ (by decide) ?_ (fun h => absurd h (by decide))
        (fun h => absurd rfl h) (.inr ⟨hpos, by omega, ?_, hgr.noFree hch₁ hfull⟩)⟩
      · rw [hg.clusters_zero]
        rfl
      · rw [List.length_nil, Nat.zero_mul]
    · have h2 := hc.1
      have hlt := hc.2
      have hmax := hg.nFatent_lt
      rw [if_neg (by omega), if_neg (by omega)]
      exact seekFollow_store hg h ht hro (SeekWalk.start hgr har hch₁ rfl rfl hpos)
  · have hhead := h.file.head h0
    have hlen := (List.getElem?_eq_some_iff.1 hhead).1
    have hwalk : SeekWalk g w fp cs target 0
        ({ fp with fptr := 0, clust := fp.sclust, sclust := cs.headD 0 }, fp.sclust, target) w cs :=
      .start (.refl hs cs) (fun _ _ => rfl) hch (by omega) hhead hpos
    rw [← h.file.start] at hwalk
    exact seekFollow_store hg h ht hro hwalk

/-- `f_lseek` on a file. -/
theorem fLseek_store (hs : Stable g w) (h : fp.Holds g w cs) {ofs : Nat} (hofs : ofs < W32) :
    Returns (fLseek fp ofs) w fun r w' => ∃ cs', SeekDone g w fp cs (fp.target ofs) r w' cs' := by
  have hsz := h.size
  have hb := hg.bcs_pos
  have hch : IsChain g w.logical (cs.headD 0) cs := by
    rw [← h.file.start]
    exact h.file.toIsChain
  have ht : fp.target ofs < W32 := by
    unfold FIL.target
    split
    · exact hsz
    · exact hofs
  have hro : hasBits fp.flag FA_WRITE = false → fp.target ofs ≤ fp.objsize := fun hf => by
    unfold FIL.target
    rw [hf]
    split
    · exact Nat.le_refl _
    · rename_i hn
      by_contra hgt
      exact hn ⟨Nat.lt_of_not_le hgt, rfl⟩
  unfold Returns
  rw [fLseek_eq hg hs.dev.inv.geo h.cursor ofs]
  generalize hT : fp.target ofs = T at ht hro
  refine returns_ite.2 ?_
  refine ⟨fun hpos => ?_, fun hz => returns_pure.2 ⟨cs, ?_⟩⟩
  · rw [returns_ite]
    refine ⟨fun hcur => ?_, fun _ => seekFromStart_store hg hs h ht hpos hro⟩
    -- from the current cluster
    have hk := hg.accepted.clusterStart (fp.fptr - 1)
    generalize hi : (fp.fptr - 1) / (g.csize * SS) = i at hcur hk
    have hcl := h.clust hcur.1
    rw [hi] at hcl
    have hidx := (List.getElem?_eq_some_iff.1 hcl).1
    have hmul : i * (g.csize * SS) < T := by
      have h₁ := Nat.mul_le_mul_right (g.csize * SS) hcur.2
      have h₂ := Nat.div_mul_le_self (T - 1) (g.csize * SS)
      omega
    simp only [hk]
    refine seekFollow_store hg (k := i) (p := ({ fp with fptr := i * (g.csize * SS) }, fp.clust,
      T - i * (g.csize * SS))) h ht hro ⟨.refl hs cs, fun _ _ => rfl,
      hch, by omega, ?_, hcl, ?_, ?_⟩
    · simp only [← h.file.start]
    · simp only
      omega
    · simp only
      omega
  · have hz' : T = 0 := Nat.eq_zero_of_not_pos hz
    have hzero : (0 : Nat) % SS ≠ 0 → (0 : Nat) = g.sectAt cs 0 := fun h => absurd rfl h
    have hend := SeekDone.of_end hg (c := fp.clust) h (.refl hs cs) (fun _ _ => rfl) hch
      (by decide) (by rw [hg.clusters_zero]; omega) (fun h => absurd h (by decide)) hzero
      (.inl hz'.symm)
    rw [← h.file.start] at hend
    exact hend

end

end FatFs
