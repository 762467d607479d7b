import FatFs.Store.Refine

/-!
# Runs on open files

The results on any family of open files and any order of calls on them: the calls answer and act as
on independent arrays of bytes over a shared pool of clusters (`runCalls_refines`), what was written
is read back (`runCalls_readBack`), and the files that are not open stay as they are
(`runCalls_spares`).
-/

namespace FatFs

open Run

/-! ## Two open files -/

/-- The file `A` of `twoClusters` is opened, and a new file `B`. -/
def twoOpen : M (FIL × FIL) := do
  let (_, a) ← fOpen {} [0x41] (FA_READ ||| FA_WRITE)
  let (_, b) ← fOpen {} [0x42] (FA_READ ||| FA_WRITE ||| FA_CREATE_NEW)
  return (a, b)

/-- The file objects of the two files. -/
def pairFiles (a b : FIL) : Bool → FIL
  | true => a
  | false => b

/-- The chains of the two files. -/
def pairChains : Bool → List Nat
  | true => [2, 3]
  | false => []

/-- The two files are open on a mounted volume. -/
theorem twoOpen_opened :
    ∃ w a b, ((mountVolume [] 0 >>= fun _ => twoOpen) (registeredOn twoClusters)) =
      some ((a, b), w) ∧ w.geo.Sound ∧ OpenFiles w.geo w (pairFiles a b) pairChains ∧
    hasBits a.flag FA_READ = true ∧ hasBits a.flag FA_WRITE = true ∧
    w.geo.entry w.logical 4 = 0 := by
  have h : (mountVolume [] 0 (registeredOn twoClusters)).map (fun r =>
      (r.1, r.2.geo, r.2.disk.sectors, r.2.fsiFlag)) =
      some ((.ok, []), ⟨.fat12, 2, 16, 1, 126, 1, 0, 1, 3, 4, 1⟩, 128, 0x80) := by
    decide +kernel
  obtain ⟨⟨r, w₀⟩, hm, h⟩ := Option.map_eq_some_iff.1 h
  simp only [Prod.mk.injEq] at h
  obtain ⟨rfl, hgeo, hsec, hfsi⟩ := h
  have hsound : twoClusters.MountsSound :=
    Disk.mountsSound_of (b := 0) (by decide +kernel) (by decide +kernel) (by decide +kernel)
  obtain ⟨hg, hi, hf⟩ := registeredOn_mounted (fun _ => rfl) (show 128 < W32 by decide) hsound hm
  have hdev : OnDevice w₀.geo w₀ := by
    refine ⟨⟨hi, .inl ?_⟩, ?_, hf⟩
    · unfold State.InfoOff
      rw [hfsi]
      decide
    · rw [hgeo, hsec]
      decide
  -- the state after the two files are opened
  have h₂ : ((mountVolume [] 0 >>= fun _ => twoOpen) (registeredOn twoClusters)).map (fun r =>
      ((r.1, r.2.geo, r.2.disk.sectors, r.2.freeClst), (r.2.geo.entry r.2.logical 2,
        r.2.geo.entry r.2.logical 3, r.2.geo.entry r.2.logical 4),
        (List.range 126).all fun e => r.2.geo.entry r.2.logical e != 1)) =
      some (((⟨true, 1, 2, 1000, 3, .ok, 0, 0, 0, 3, 0⟩, ⟨true, 1, 0, 0, 79, .ok, 0, 0, 0, 3, 32⟩),
        ⟨.fat12, 2, 16, 1, 126, 1, 0, 1, 3, 4, 1⟩, 128, 0xFFFFFFFF), (3, 0xFFF, 0), true) := by
    decide +kernel
  obtain ⟨⟨⟨a, b⟩, w⟩, hrun, h₂⟩ := Option.map_eq_some_iff.1 h₂
  simp only [Prod.mk.injEq, List.all_eq_true, List.mem_range, bne_iff_ne] at h₂
  obtain ⟨⟨⟨ha, hb⟩, hgeo', hsec', hfree⟩, ⟨h2, h3, h4⟩, hone⟩ := h₂
  have hopen : ∀ fp path mode,
      Keeps (OnDevice w₀.geo) (fOpen fp path mode) := fun fp path mode w hw =>
    (fOpen_closed hg (onDevice_closed hg) hw fp path mode).mono fun _ _ h => h.1
  have hkeep : Keeps (OnDevice w₀.geo) twoOpen :=
    .bind (hopen _ _ _) fun _ => .bind (hopen _ _ _) fun _ => .pure _
  have hrun' := hrun
  rw [bind_apply_of_some hm] at hrun'
  have hdev' := hkeep w₀ hdev _ _ hrun'
  have hwg : w.geo = w₀.geo := hdev'.inv.geo
  rw [← hwg] at hg hdev'
  have hn : w.geo.nFatent = 126 := by rw [hgeo']
  have hcs : w.geo.csize = 1 := by rw [hgeo']
  have hch : IsChain w.geo w.logical 2 [2, 3] := by
    refine ⟨⟨fun c hc => ?_, fun i c d hc hd => ?_, fun i c hc hi => ?_⟩, fun c hc => ?_, rfl⟩
    · rw [hn]
      fin_cases hc <;> decide
    · rcases i with _ | i
      · obtain rfl : 2 = c := by simpa using hc
        obtain rfl : 3 = d := by simpa using hd
        exact h2
      · simp at hd
    · obtain rfl : i = 1 := by simpa using hi
      obtain rfl : 3 = c := by simpa using hc
      rw [h3, hn]
      decide
    · unfold Geometry.IsClust
      rw [hn]
      fin_cases hc <;> decide
  -- the root directory is no cluster
  have hdir : ∀ i, (pairFiles a b i).dirSect = 3 := by
    rw [ha, hb]
    decide
  have hout : ∀ c, w.geo.IsClust c → ¬w.geo.InClust c 3 := fun c hcl hin => by
    have hle := hin.1
    rw [hg.clst2sect_eq hcl, hgeo'] at hle
    simp only at hle
    omega
  have hclust : ∀ i, ∀ c ∈ pairChains i, w.geo.IsClust c := by
    intro i c hc
    cases i with
    | true => exact hch.clust c hc
    | false => cases hc
  refine ⟨w, a, b, hrun, hg, ⟨⟨hdev', fun e he => hone e (by have := he.2; omega), .inl (by omega)⟩,
    fun i => ?_, fun i j hij => ?_, fun i => ?_, fun i j c hc hin => ?_, fun i c hcl hin => ?_⟩,
      by rw [ha]; decide,
    by rw [ha]; decide, h4⟩
  · cases i with
    | true =>
      change a.Holds w.geo w [2, 3]
      rw [ha]
      refine .atStart ⟨hch, ?_⟩ (by decide) rfl (by rw [hgeo']) rfl rfl
      unfold Geometry.clusters
      rw [hcs]
      decide
    | false =>
      change b.Holds w.geo w []
      rw [hb]
      refine .atStart ⟨⟨.nil, by simp, rfl⟩, ?_⟩ (by decide) rfl (by rw [hgeo']) rfl rfl
      unfold Geometry.clusters
      rw [hcs]
      decide
  · cases i <;> cases j
    · exact absurd rfl hij
    · exact List.disjoint_nil_left _
    · exact List.disjoint_nil_right _
    · exact absurd rfl hij
  · rw [hdir]
    unfold Geometry.InArea
    rw [hgeo']
    decide
  · rw [hdir] at hin
    exact hout c (hclust j c hc) hin
  · rw [hdir] at hin
    exact absurd hin (hout c hcl)

section
variable {ι : Type} [DecidableEq ι] {g : Geometry} (hg : g.Sound) {w : State} {files : ι → FIL}
  {chains : ι → List Nat}

include hg

/-- Calls on open files, in any order, are calls on arrays of bytes with cursors. No cluster is lost
or given to two files. -/
theorem runCalls_refines (h : OpenFiles g w files chains) {calls : List (ι × Op)}
    (hfits : ∀ c ∈ calls, c.2.Fits) :
    Returns (runCalls calls files) w fun r w' => ∃ chains', OpenFiles g w' r.2 chains' ∧
      (volume g w files chains).Run (g.csize * SS) calls r.1 (volume g w' r.2 chains') :=
  (h.trace hg hfits).mono fun _ _ hpost => by
    obtain ⟨chains', ht⟩ := hpost
    exact ⟨chains', ht.refines hg h⟩

omit [DecidableEq ι] hg in
/-- The hypotheses are met by the two open files, with calls on both in turns. -/
theorem runCalls_refines_pair : ∃ w a b, (mountVolume [] 0 >>= fun _ => twoOpen)
      (registeredOn twoClusters) = some ((a, b), w) ∧
    Returns (runCalls [(true, .write [1, 2]), (false, .lseek 700), (true, .truncate),
        (false, .sync),
        (true, .read 9)] (pairFiles a b)) w fun r w' => ∃ chains', OpenFiles w.geo w' r.2 chains' ∧
      (volume w.geo w (pairFiles a b) pairChains).Run (w.geo.csize * SS) [(true, .write [1, 2]),
        (false, .lseek 700), (true, .truncate), (false, .sync), (true, .read 9)] r.1
        (volume w.geo w' r.2 chains') := by
  obtain ⟨w, a, b, hrun, hg, ho, -⟩ := twoOpen_opened
  refine ⟨w, a, b, hrun, runCalls_refines hg ho ?_⟩
  simp [Op.Fits, W32]

/-- No cluster is lost: those of the open files and the free ones are as many after the calls as
before. -/
theorem runCalls_conserves [Fintype ι] (h : OpenFiles g w files chains) {calls : List (ι × Op)}
    (hfits : ∀ c ∈ calls, c.2.Fits) :
    Returns (runCalls calls files) w fun r w' =>
      g.free w'.logical + ∑ i, g.clusters (r.2 i).objsize =
        g.free w.logical + ∑ i, g.clusters (files i).objsize :=
  (h.trace hg hfits).mono fun _ _ hpost => by
    obtain ⟨chains', ht⟩ := hpost
    have hsum := (ht.refines hg h).2.conserved
    simp only [volume, FIL.doc, Geometry.content_length] at hsum
    exact hsum

omit [DecidableEq ι] hg in
/-- The hypotheses are met by the two open files. -/
theorem runCalls_conserves_pair : ∃ w a b, (mountVolume [] 0 >>= fun _ => twoOpen)
      (registeredOn twoClusters) = some ((a, b), w) ∧
    Returns (runCalls [(true, .truncate), (false, .write [1])] (pairFiles a b)) w fun r w' =>
      w.geo.free w'.logical + ∑ i, w.geo.clusters (r.2 i).objsize =
        w.geo.free w.logical + ∑ i, w.geo.clusters (pairFiles a b i).objsize := by
  obtain ⟨w, a, b, hrun, hg, ho, -⟩ := twoOpen_opened
  refine ⟨w, a, b, hrun, runCalls_conserves hg ho ?_⟩
  simp [Op.Fits, W32]

/-- What `f_write` has stored is read back after a seek to its place, whatever is done with the
other files in between. -/
theorem runCalls_readBack (h : OpenFiles g w files chains) {i : ι}
    (hmode : hasBits (files i).flag FA_READ = true ∧ hasBits (files i).flag FA_WRITE = true)
    {buff : List UInt8} (hbuff : buff.length < W32) {mid : List (ι × Op)}
    (hmid : ∀ c ∈ mid, c.1 ≠ i ∧ c.2.Fits) :
    Returns (runCalls ((i, .write buff) :: (mid ++ [(i, .lseek (files i).fptr),
        (i, .read buff.length)])) files) w fun r _ =>
      ∃ first rest last, r.1 = first :: rest ∧ rest.getLast? = some last ∧ first.res = .ok ∧
        last.res = .ok ∧ buff.take first.count <+: last.data := by
  have hh := h.holds i
  have hin := hh.inside
  have hsz := hh.size
  refine (h.trace hg ?_).mono fun r w' hpost => ?_
  · intro c hc
    rcases List.mem_cons.1 hc with rfl | hc
    · exact hbuff
    · rcases List.mem_append.1 hc with hc | hc
      · exact (hmid c hc).2
      · rcases List.mem_cons.1 hc with rfl | hc
        · exact Nat.lt_of_le_of_lt hin hsz
        · rw [List.mem_singleton.1 hc]
          trivial
  · obtain ⟨chains', ht⟩ := hpost
    obtain ⟨first, rest, hr, hok, last, hlast, hres, hpre⟩ :=
      (ht.refines hg h).2.readBack hg.bcs_pos hmode.2 hmode.1
      (by simp only [volume, FIL.doc, Geometry.content_length]; exact hin) fun c hc => (hmid c hc).1
    exact ⟨first, rest, last, hr, hlast, hok, hres, hpre⟩

omit [DecidableEq ι] hg in
/-- The hypotheses are met by the two open files: `A` is written and read, `B` is stretched in
between. -/
theorem runCalls_readBack_pair : ∃ w a b, (mountVolume [] 0 >>= fun _ => twoOpen)
      (registeredOn twoClusters) = some ((a, b), w) ∧
    Returns (runCalls [(true, .write [1, 2]), (false, .lseek 700), (true, .lseek a.fptr),
        (true, .read 2)] (pairFiles a b)) w fun r _ => ∃ first rest last, r.1 = first :: rest ∧
      rest.getLast? = some last ∧ first.res = .ok ∧ last.res = .ok ∧
      [1, 2].take first.count <+: last.data := by
  obtain ⟨w, a, b, hrun, hg, ho, hr, hw, -⟩ := twoOpen_opened
  have hmode : hasBits (pairFiles a b true).flag FA_READ = true ∧
      hasBits (pairFiles a b true).flag FA_WRITE = true := ⟨hr, hw⟩
  have hlen : ([1, 2] : List UInt8).length < W32 := by decide
  have hmid : ∀ c ∈ [(false, Op.lseek 700)], c.1 ≠ true ∧ c.2.Fits := by
    simp [Op.Fits, W32]
  exact ⟨w, a, b, hrun, runCalls_readBack hg ho hmode hlen hmid⟩

/-- A file that is not open keeps its chain and its bytes, whatever is done with the open ones. -/
theorem runCalls_spares (h : OpenFiles g w files chains) {start n : Nat} {ds : List Nat}
    (hd : IsFile g w.logical start n ds) (hdis : ∀ i, ds.Disjoint (chains i))
    (hdir : ∀ i, ∀ c ∈ ds, ¬g.InClust c (files i).dirSect) {calls : List (ι × Op)}
    (hfits : ∀ c ∈ calls, c.2.Fits) :
    Returns (runCalls calls files) w fun _ w' => IsFile g w'.logical start n ds ∧
      g.content w'.logical ds n = g.content w.logical ds n := by
  refine (h.trace hg hfits).mono fun r w' hpost => ?_
  obtain ⟨chains', ht⟩ := hpost
  have hout : ∀ c ∈ ds, Foreign g w.logical chains c := fun c hc =>
    ⟨hd.clust c hc, hd.used hc, fun i hm => hdis i hc hm⟩
  refine ⟨⟨hd.toIsChain.congr fun c hc => ht.spares.entry c (hout c hc), hd.length⟩, ?_⟩
  refine hg.content_congr (Nat.le_of_eq hd.length.symm) fun c hc s hs => ?_
  refine (ht.spares.data s (hs.inArea hg (hd.clust c hc)) fun e he hin => ?_).eq fun i he => ?_
  · rw [← hs.unique hg (hd.clust c hc) he hin]
    exact hout c hc
  · exact hdir i c hc (by rw [he]; exact hs)

omit [DecidableEq ι] hg in
/-- The hypotheses are met when only `B` is open: the file `A` stays. -/
theorem runCalls_spares_other : ∃ w a b, (mountVolume [] 0 >>= fun _ => twoOpen)
      (registeredOn twoClusters) = some ((a, b), w) ∧
    Returns (runCalls [((), .write [1])] fun _ => b) w fun _ w' =>
      IsFile w.geo w'.logical a.sclust a.objsize [2, 3] ∧
      w.geo.content w'.logical [2, 3] a.objsize = w.geo.content w.logical [2, 3] a.objsize := by
  obtain ⟨w, a, b, hrun, hg, ho, -⟩ := twoOpen_opened
  have hB : OpenFiles w.geo w (fun _ : Unit => b) fun _ => [] :=
    ⟨ho.stable, fun _ => ho.holds false, fun i j h => absurd rfl h, fun _ => ho.area false,
      fun _ _ => ho.outside false false, fun _ => ho.used false⟩
  refine ⟨w, a, b, hrun, runCalls_spares hg hB (ho.holds true).file (fun _ =>
    List.disjoint_nil_right _) (fun _ => ho.outside false true) ?_⟩
  simp [Op.Fits, W32]

end

end FatFs
