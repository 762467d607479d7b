import FatFs.Fat.Exact
import FatFs.File.Read
import FatFs.Lib.Linked
import FatFs.Lib.Splice

/-!
# The clusters and the bytes of a file

A file is its cluster chain and its size. `IsChain` says that a list of clusters is the chain from a
start cluster to its end mark in the FAT, `Geometry.content` are the bytes of the clusters in order,
and `Grows` is what a call may change when it stretches the chain of its own file: entries and
sectors of the chain and of clusters that were free. So the chain and the content of every other
file stay (`Grows.file`), which is what keeps the files of a volume apart although all of them, the
FAT and the directories share one window.
-/

namespace FatFs

open Run

/-! ## Sectors and bytes -/

/-- The sector `s` belongs to the cluster `c`. -/
def Geometry.InClust (g : Geometry) (c s : Nat) : Prop :=
  clst2sect g c ≤ s ∧ s < clst2sect g c + g.csize

/-- The sector of the byte `k` of a file with the clusters `cs`. -/
def Geometry.sectAt (g : Geometry) (cs : List Nat) (k : Nat) : Nat :=
  clst2sect g (cs.getD (k / (g.csize * SS)) 0) + k / SS % g.csize

/-- The byte `k` of a file with the clusters `cs`. -/
def Geometry.byteAt (g : Geometry) (L : Nat → Sector) (cs : List Nat) (k : Nat) : UInt8 :=
  L (g.sectAt cs k) (k % SS)

/-- The first `n` bytes of a file with the clusters `cs`. -/
def Geometry.content (g : Geometry) (L : Nat → Sector) (cs : List Nat) (n : Nat) : List UInt8 :=
  (List.range n).map (g.byteAt L cs)

/-- The number of clusters that `n` bytes take. -/
def Geometry.clusters (g : Geometry) (n : Nat) : Nat := (n + g.csize * SS - 1) / (g.csize * SS)

/-- `cs` is the chain of clusters from `start` to its end mark; a file without clusters has the
start cluster 0. -/
structure IsChain (g : Geometry) (L : Nat → Sector) (start : Nat) (cs : List Nat) : Prop where
  chain : Linked.Chain (g.entry L) (g.nFatent ≤ ·) cs
  clust : ∀ c ∈ cs, g.IsClust c
  start : start = cs.headD 0

/-- `cs` are the clusters of a file with the start cluster and the size. -/
structure IsFile (g : Geometry) (L : Nat → Sector) (start size : Nat) (cs : List Nat) : Prop extends
    IsChain g L start cs where
  length : cs.length = g.clusters size

section
variable {g : Geometry} {L L' : Nat → Sector} {cs : List Nat} {start : Nat}

/-- The content has the bytes of the size. -/
@[simp] theorem Geometry.content_length (n : Nat) : (g.content L cs n).length = n := by
  simp [Geometry.content]

/-- The bytes of the content. -/
theorem Geometry.content_getElem? {n k : Nat} (h : k < n) :
    (g.content L cs n)[k]? = some (g.byteAt L cs k) := by
  simp [Geometry.content, List.getElem?_range h]

/-- Two contents are equal when their bytes are. -/
theorem Geometry.content_congr {cs' : List Nat} {n : Nat}
    (h : ∀ k < n, g.byteAt L' cs' k = g.byteAt L cs k) : g.content L' cs' n = g.content L cs n :=
  List.map_congr_left fun k hk => h k (List.mem_range.1 hk)

/-- A cluster of a chain is in use. -/
theorem IsChain.used (h : IsChain g L start cs) {c : Nat} (hc : c ∈ cs) : g.entry L c ≠ 0 := by
  obtain ⟨i, hi, rfl⟩ := List.mem_iff_getElem.1 hc
  rcases Nat.lt_or_ge (i + 1) cs.length with hlt | hge
  · rw [h.chain.link i _ _ (List.getElem?_eq_getElem hi) (List.getElem?_eq_getElem hlt)]
    have := (h.clust _ (List.getElem_mem hlt)).1
    omega
  · have hs : g.nFatent ≤ g.entry L cs[i] :=
      h.chain.last i _ (List.getElem?_eq_getElem hi) (by omega)
    have := (h.clust _ hc).2
    omega

/-- A chain is empty if it has no start. -/
theorem IsChain.nil_iff (h : IsChain g L start cs) : cs = [] ↔ start = 0 := by
  constructor
  · rintro rfl
    exact h.start
  · intro h0
    rcases cs with _ | ⟨c, cs⟩
    · rfl
    · have hs := h.start
      have := (h.clust c (List.mem_cons_self)).1
      simp only [List.headD_cons] at hs
      omega

/-- The first cluster of a chain is its start. -/
theorem IsChain.head (h : IsChain g L start cs) (hne : start ≠ 0) : cs[0]? = some start := by
  rcases cs with _ | ⟨c, cs⟩
  · exact absurd h.start hne
  · simp [h.start]

/-- A chain depends on the entries of its own clusters only. -/
theorem IsChain.congr (h : IsChain g L start cs)
    (he : ∀ c ∈ cs, g.entry L' c = g.entry L c) : IsChain g L' start cs :=
  ⟨h.chain.congr he, h.clust, h.start⟩

/-- The entries of a chain, followed from its start. -/
theorem IsChain.chain_eq (h : IsChain g L start cs) {k c : Nat} (hk : cs[k]? = some c) :
    g.chain L start k = c := by
  induction k generalizing c with
  | zero =>
    rcases cs with _ | ⟨a, cs⟩
    · cases hk
    · obtain rfl : a = c := by simpa using hk
      exact h.start
  | succ k ih =>
    have hlt := (List.getElem?_eq_some_iff.1 hk).1
    have hprev := List.getElem?_eq_getElem (l := cs) (i := k) (by omega)
    show g.entry L (g.chain L start k) = c
    rw [ih hprev]
    exact h.chain.link k _ _ hprev hk

/-- The chain from a start cluster is determined. -/
theorem IsChain.unique {start : Nat} {cs cs' : List Nat} (h : IsChain g L start cs)
    (h' : IsChain g L start cs') : cs = cs' := by
  by_cases h0 : start = 0
  · rw [h.nil_iff.2 h0, h'.nil_iff.2 h0]
  · refine h.chain.unique h'.chain ?_
    rw [List.head?_eq_getElem?, List.head?_eq_getElem?, h.head h0, h'.head h0]

variable (hg : g.Sound)

include hg

/-- A cluster has a byte. -/
theorem Geometry.Sound.bcs_pos : 0 < g.csize * SS :=
  Nat.mul_pos hg.csize_pos (by decide)

/-- The sectors of two clusters are apart. -/
theorem Geometry.InClust.unique {c d s : Nat} (hc : g.IsClust c) (hd : g.IsClust d)
    (h : g.InClust c s) (h' : g.InClust d s) : c = d := by
  obtain ⟨i, hi⟩ := Nat.exists_eq_add_of_le h.1
  obtain ⟨j, hj⟩ := Nat.exists_eq_add_of_le h'.1
  have h₁ := h.2
  have h₂ := h'.2
  exact (hg.clst2sect_inj (i := i) (j := j) hc hd (by omega) (by omega) (by omega)).1

/-- A cluster is in the data area. -/
theorem Geometry.InClust.inArea {c s : Nat} (hc : g.IsClust c) (h : g.InClust c s) :
    g.InArea s := by
  obtain ⟨i, rfl⟩ := Nat.exists_eq_add_of_le h.1
  have h₁ := h.2
  exact hg.inArea_clst hc (by omega)

/-- The byte of a file is in the cluster of its place. -/
theorem Geometry.Sound.sectAt_inClust {cs : List Nat} {k c : Nat}
    (hk : cs[k / (g.csize * SS)]? = some c) : g.InClust c (g.sectAt cs k) := by
  have hd : cs.getD (k / (g.csize * SS)) 0 = c := by
    rw [List.getD_eq_getElem?_getD, hk]
    rfl
  have := Nat.mod_lt (k / SS) hg.csize_pos
  unfold Geometry.sectAt Geometry.InClust
  rw [hd]
  omega

omit hg in
/-- A sector number from its cluster and its place in it. -/
theorem div_clust_eq {j k c : Nat} (hd : j / (c * SS) = k / (c * SS))
    (hm : j / SS % c = k / SS % c) :
    j / SS = k / SS := by
  rw [Nat.mul_comm c, ← Nat.div_div_eq_div_mul, ← Nat.div_div_eq_div_mul] at hd
  rw [← Nat.div_add_mod (j / SS) c, ← Nat.div_add_mod (k / SS) c, hd, hm]

/-- Different sectors of a file are different sectors of the device. -/
theorem Geometry.Sound.sectAt_inj {j k : Nat} (hnd : cs.Nodup) (hcl : ∀ c ∈ cs, g.IsClust c)
    (hj : j / (g.csize * SS) < cs.length) (hk : k / (g.csize * SS) < cs.length)
    (h : g.sectAt cs j = g.sectAt cs k) : j / SS = k / SS := by
  unfold Geometry.sectAt at h
  rw [List.getD_eq_getElem _ _ hj, List.getD_eq_getElem _ _ hk] at h
  obtain ⟨hc, hi⟩ := hg.clst2sect_inj (hcl _ (List.getElem_mem hj)) (hcl _ (List.getElem_mem hk))
    (Nat.mod_lt _ hg.csize_pos) (Nat.mod_lt _ hg.csize_pos) h
  refine div_clust_eq ?_ hi
  exact (List.Nodup.getElem_inj_iff hnd).1 hc

omit hg in
/-- The bytes of one sector of a file. -/
theorem Geometry.sectAt_congr {j k : Nat} (h : j / SS = k / SS) :
    g.sectAt cs j = g.sectAt cs k ∧ j / (g.csize * SS) = k / (g.csize * SS) := by
  have hd : j / (g.csize * SS) = k / (g.csize * SS) := by
    rw [Nat.mul_comm, ← Nat.div_div_eq_div_mul, ← Nat.div_div_eq_div_mul, h]
  refine ⟨?_, hd⟩
  unfold Geometry.sectAt
  rw [hd, h]

omit hg in
/-- The sectors of a cluster follow one another. -/
theorem Geometry.sectAt_add {p i : Nat} (h : p / SS % g.csize + i < g.csize) :
    g.sectAt cs (p + i * SS) = g.sectAt cs p + i ∧
      (p + i * SS) / (g.csize * SS) = p / (g.csize * SS) := by
  have hdiv : (p + i * SS) / SS = p / SS + i := Nat.add_mul_div_right _ _ (by decide)
  have hc : (p + i * SS) / (g.csize * SS) = p / (g.csize * SS) := by
    rw [Nat.mul_comm g.csize, ← Nat.div_div_eq_div_mul, ← Nat.div_div_eq_div_mul, hdiv,
      div_add_of_mod h]
  refine ⟨?_, hc⟩
  unfold Geometry.sectAt
  rw [hc, hdiv, Nat.add_mod, Nat.mod_eq_of_lt (show i < g.csize by omega), Nat.mod_eq_of_lt h]
  omega

/-- An empty file needs no cluster. -/
theorem Geometry.Sound.clusters_zero : g.clusters 0 = 0 := by
  have := hg.bcs_pos
  unfold Geometry.clusters
  exact Nat.div_eq_of_lt (by omega)

/-- A byte of a file is in one of its clusters. -/
theorem Geometry.Sound.div_lt_clusters {k n : Nat} (h : k < n) :
    k / (g.csize * SS) < g.clusters n := by
  have hb := hg.bcs_pos
  unfold Geometry.clusters
  rw [Nat.lt_iff_add_one_le, ← Nat.add_div_right _ hb]
  exact Nat.div_le_div_right (by omega)

/-- A file that ends in the cluster `k` has `k + 1` clusters. -/
theorem Geometry.Sound.clusters_eq {k n : Nat} (hl : k * (g.csize * SS) < n)
    (hr : n ≤ (k + 1) * (g.csize * SS)) : g.clusters n = k + 1 := by
  have hb := hg.bcs_pos
  unfold Geometry.clusters
  rw [Nat.add_mul, Nat.one_mul] at hr
  refine Nat.div_eq_of_lt_le ?_ ?_
  · rw [Nat.add_mul, Nat.one_mul]
    omega
  · rw [Nat.add_mul, Nat.add_mul, Nat.one_mul]
    omega

/-- A longer file needs no fewer clusters. -/
theorem Geometry.Sound.clusters_mono {m n : Nat} (h : m ≤ n) : g.clusters m ≤ g.clusters n := by
  have := hg.bcs_pos
  unfold Geometry.clusters
  exact Nat.div_le_div_right (by omega)

/-- The clusters of the longer of two files. -/
theorem Geometry.Sound.clusters_max (m n : Nat) :
    g.clusters (max m n) = max (g.clusters m) (g.clusters n) := by
  rcases Nat.le_total m n with h | h
  · rw [Nat.max_eq_right h, Nat.max_eq_right (hg.clusters_mono h)]
  · rw [Nat.max_eq_left h, Nat.max_eq_left (hg.clusters_mono h)]

/-- The bytes of a file depend on the sectors of its clusters only. -/
theorem Geometry.Sound.content_congr {n : Nat} (hlen : g.clusters n ≤ cs.length)
    (h : ∀ c ∈ cs, ∀ s, g.InClust c s → L' s = L s) : g.content L' cs n = g.content L cs n := by
  refine Geometry.content_congr fun k hk => ?_
  have hlt := Nat.lt_of_lt_of_le (hg.div_lt_clusters hk) hlen
  unfold Geometry.byteAt
  rw [h _ (List.getElem_mem hlt) _ (hg.sectAt_inClust (List.getElem?_eq_getElem hlt))]

/-- Clusters behind the end of a file hold none of its bytes. -/
theorem Geometry.Sound.content_prefix {cs' : List Nat} {n : Nat} (hpre : cs <+: cs')
    (hlen : g.clusters n ≤ cs.length) : g.content L cs' n = g.content L cs n := by
  refine Geometry.content_congr fun k hk => ?_
  have hlt := Nat.lt_of_lt_of_le (hg.div_lt_clusters hk) hlen
  obtain ⟨t, rfl⟩ := hpre
  unfold Geometry.byteAt Geometry.sectAt
  rw [List.getD_eq_getElem?_getD, List.getD_eq_getElem?_getD, List.getElem?_append_left hlt]

end

/-! ## States and growth -/

/-- A state in which no access of a file fails: the volume is wholly on the device, no entry of the
FAT holds 1, and the number of free clusters is unknown or exact. -/
structure Stable (g : Geometry) (w : State) : Prop where
  dev : OnDevice g w
  one : ∀ e, g.IsClust e → g.entry w.logical e ≠ 1
  count : g.nFatent - 2 < w.freeClst ∨ w.freeClst = g.free w.logical

/-- No cluster is free. -/
def Geometry.NoFree (g : Geometry) (L : Nat → Sector) : Prop := ∀ e, g.IsClust e → g.entry L e ≠ 0

/-- What a call may change when it stretches the chain `cs` of its file to `cs'`: clusters that were
free, and the sectors and entries of the chain. -/
structure Grows (g : Geometry) (w : State) (cs : List Nat) (w' : State) (cs' : List Nat) :
    Prop where
  stable : Stable g w'
  sectors : w'.disk.sectors = w.disk.sectors
  pre : cs <+: cs'
  fresh : ∀ c ∈ cs', c ∉ cs → g.IsClust c ∧ g.entry w.logical c = 0
  entry : ∀ e, g.IsClust e → e ∉ cs' → g.entry w'.logical e = g.entry w.logical e
  data : ∀ s, g.InArea s → (∀ c ∈ cs', ¬g.InClust c s) → w'.logical s = w.logical s

section
variable {g : Geometry} {w w₁ w₂ : State} {cs cs₁ cs₂ : List Nat}

/-- A chain that does not grow. -/
theorem Grows.refl (h : Stable g w) (cs : List Nat) : Grows g w cs w cs :=
  ⟨h, rfl, List.prefix_rfl, fun _ hc hn => absurd hc hn, fun _ _ _ => rfl, fun _ _ _ => rfl⟩

/-- A chain that grows twice. -/
theorem Grows.trans (h : Grows g w cs w₁ cs₁) (h' : Grows g w₁ cs₁ w₂ cs₂) :
    Grows g w cs w₂ cs₂ := by
  have hsub := h'.pre.subset
  refine ⟨h'.stable, h'.sectors.trans h.sectors, h.pre.trans h'.pre, fun c hc hn => ?_,
    fun e he hn => ?_, fun s hs hn => ?_⟩
  · by_cases hc₁ : c ∈ cs₁
    · exact h.fresh c hc₁ hn
    · obtain ⟨hcl, h0⟩ := h'.fresh c hc hc₁
      rw [h.entry c hcl hc₁] at h0
      exact ⟨hcl, h0⟩
  · rw [h'.entry e he hn, h.entry e he fun h₁ => hn (hsub h₁)]
  · rw [h'.data s hs hn, h.data s hs fun c hc => hn c (hsub hc)]

/-- A step that changes nothing but the second FAT, and no cluster. -/
theorem Grows.of_same (hg : g.Sound) (hs : Stable g w₁) (hsec : w₁.disk.sectors = w.disk.sectors)
    (h : Same g w w₁) (cs : List Nat) : Grows g w cs w₁ cs :=
  ⟨hs, hsec, List.prefix_rfl, fun _ hc hn => absurd hc hn, fun _ he _ => hg.entry_same h he.2,
    fun s ha _ => h s ha.not_inFat2⟩

/-- A volume without free clusters stays so. -/
theorem Grows.noFree (h : Grows g w cs w₁ cs₁) {start : Nat} (hc : IsChain g w₁.logical start cs₁)
    (hn : g.NoFree w.logical) : g.NoFree w₁.logical := fun e he => by
  by_cases hm : e ∈ cs₁
  · exact hc.used hm
  · rw [h.entry e he hm]
    exact hn e he

variable (hg : g.Sound)

include hg

/-- A state that differs from a stable one outside the FAT only, and not in the count. -/
theorem Stable.of_frame (h : Stable g w) (hd : OnDevice g w₁)
    (hs : ∀ s, g.InFat s → w₁.logical s = w.logical s) (hn : w₁.freeClst = w.freeClst) :
    Stable g w₁ := by
  have hent : ∀ e, g.IsClust e → g.entry w₁.logical e = g.entry w.logical e :=
    fun e he => hg.entry_congr hs he.2
  have hfree : g.free w₁.logical = g.free w.logical :=
    Geometry.free_congr fun e he => by rw [hent e he]
  refine ⟨hd, fun e he => by rw [hent e he]; exact h.one e he, ?_⟩
  rw [hn, hfree]
  exact h.count

/-- What `create_chain` does to a chain: it follows the next link, or it allocates a cluster, or no
cluster is free. -/
inductive Extended (g : Geometry) (w : State) (c r : Nat) (w' : State) : Prop
  | next : ¬ChainEnd g w c → r = g.entry w.logical c →
      (∀ e, g.IsClust e → g.entry w'.logical e = g.entry w.logical e) → Extended g w c r w'
  | full : ChainEnd g w c → r = 0 → g.NoFree w.logical →
      (∀ e, g.IsClust e → g.entry w'.logical e = g.entry w.logical e) → Extended g w c r w'
  | new : ChainEnd g w c → g.IsClust r → g.entry w.logical r = 0 →
      (∀ e, g.IsClust e → g.entry w'.logical e = if e = c ∧ c ≠ 0 then r
        else if e = r then 0xFFFFFFFF % g.entryMod else g.entry w.logical e) → Extended g w c r w'

/-- `create_chain` on a stable state. -/
theorem createChain_stable (h : Stable g w) {c : Nat}
    (hc : c = 0 ∨ (g.IsClust c ∧ g.entry w.logical c ≠ 0)) :
    Returns (createChain c) w fun r w' => Stable g w' ∧ w'.disk.sectors = w.disk.sectors ∧
      (∀ s, g.InArea s → w'.logical s = w.logical s) ∧ Extended g w c r w' := by
  have hw := h.dev.inv
  have hfat := h.dev.fatOn hg
  have hent := hg.entries
  have hmax := hg.nFatent_lt
  have hc' : c = 0 ∨ (g.IsClust c ∧ 2 ≤ g.entry w.logical c) := hc.imp_right fun hcl => by
    have := h.one c hcl.1
    exact ⟨hcl.1, by omega⟩
  refine ((((createChain_inv hg hw c).and_ensures
    (createChain_last hg hw h.dev.good hfat hc')).and_ensures
    ((onDevice_closed hg).create c w h.dev)).and_ensures
    fun r w' hm hcnt => createChain_counted hg c w ⟨h.dev, hcnt⟩ r w' hm).mono
    fun r w' hpost => ?_
  obtain ⟨⟨⟨hcr, -, hgo⟩, hdev⟩, hcounted⟩ := hpost
  have herr := hcr.full h.dev.good hfat h.one hc'
  have harea : ∀ s, g.InArea s → w'.logical s = w.logical s := fun s hs =>
    hcr.fat.frame s (hg.not_inFat_of_ge hs.1) hs.not_inFat2
  have hone : Extended g w c r w' := by
    by_cases he : ChainEnd g w c
    · rcases hcr.out with hr | hr | hr | ⟨hr, hc0, hs, -⟩ | ⟨hr, hz, hl, -⟩
      · obtain ⟨hsame, -, hfull⟩ := hcr.none hr
        refine .full he hr ?_ fun e hcl => hg.entry_same hsame hcl.2
        rcases hfull with hz | hall
        · rcases h.count with hk | hk
          · omega
          · exact Geometry.free_eq_zero_iff.1 (hk.symm.trans hz)
        · exact hall
      · exact absurd hr herr.1
      · exact absurd hr herr.2
      · have := hr.2
        have := he.resolve_left hc0
        omega
      · exact .new he hr hz fun e hcl => hl e hcl.2
    · obtain ⟨hr, hs, -⟩ := hgo he
      exact .next he hr fun e hcl => hg.entry_same hs hcl.2
  have hmark : 0xFFFFFFFF % g.entryMod ≠ 1 := by
    have := hg.endMark_ge
    omega
  refine ⟨⟨hdev, fun e he => ?_, ?_⟩, hcr.fat.sectors, harea, hone⟩
  · rcases hone with ⟨_, _, hs⟩ | ⟨_, _, _, hs⟩ | ⟨_, hr, _, hs⟩
    · rw [hs e he]
      exact h.one e he
    · rw [hs e he]
      exact h.one e he
    · rw [hs e he]
      have := hr.1
      split
      · omega
      · split
        · exact hmark
        · exact h.one e he
  · rcases h.count with hunk | hex
    · left
      rcases hcr.out with rfl | rfl | rfl | ⟨_, _, _, _, hfc⟩ | ⟨_, _, _, _, hfc⟩
      · rw [(hcr.none rfl).2.1]
        exact hunk
      · exact absurd rfl herr.1
      · exact absurd rfl herr.2
      · rw [hfc]
        exact hunk
      · rw [hfc, if_neg (by omega)]
        exact hunk
    · exact .inr (hcounted hex).count

end

end FatFs
