import FatFs.Handle.Host
import FatFs.Store.Tree

/-!
# Paths beside open files

`PathTo` says that a path leads to an entry of a directory. `follow_path` finds the entry
(`followPath_pathTo`). The calls on open files do not change where a path leads to
(`runCalls_paths`), so a file can be opened again by its path.
-/

namespace FatFs

open Run

/-- The path leads to the directory entry at `q`. -/
def PathTo (g : Geometry) (L : Nat → Sector) (signed : Bool) (path : List UInt8) (q : Pos) : Prop :=
  ∃ par fn ps, Leads g L signed 0 (path.dropWhile isSeparator) par fn ∧
    Table g L (g.dirStart par) ps ∧ ps.find? (Pos.fits L fn) = some q

/-- The path leads to a directory that has no entry with the name. -/
def PathMisses (g : Geometry) (L : Nat → Sector) (signed : Bool) (path : List UInt8) : Prop :=
  ∃ par fn ps, Leads g L signed 0 (path.dropWhile isSeparator) par fn ∧
    Table g L (g.dirStart par) ps ∧ ps.find? (Pos.fits L fn) = none

section
variable {g : Geometry} {L L' : Nat → Sector} {signed : Bool} {path : List UInt8} {q : Pos}

/-- A path leads to a directory of the tree. -/
theorem Leads.isDir {c par : Nat} {fn : List UInt8} (h : Leads g L signed c path par fn)
    (hc : IsDir g L c) : IsDir g L par := by
  induction h with
  | last => exact hc
  | into hn _ ht hf hdir _ ih =>
    exact ih (.sub hc ht (List.mem_of_find?_eq_some hf) (Pos.isSubdir_of_find hn hf hdir))

/-- A path leads to an entry of the tree. -/
theorem PathTo.dirPlace (h : PathTo g L signed path q) : DirPlace g L q := by
  obtain ⟨par, fn, ps, hl, ht, hf⟩ := h
  exact ⟨par, hl.isDir .root, ht.along (List.mem_of_find?_eq_some hf)⟩

/-- A path leads to one entry at most. -/
theorem PathTo.unique {r : Pos} (h : PathTo g L signed path q) (h' : PathTo g L signed path r) :
    q = r := by
  obtain ⟨par, fn, ps, hl, ht, hf⟩ := h
  obtain ⟨par', fn', ps', hl', ht', hf'⟩ := h'
  obtain ⟨rfl, rfl⟩ := hl.unique hl'
  obtain rfl := ht.unique ht'
  rw [hf] at hf'
  cases hf'
  rfl

/-- A path that leads to an entry does not miss it. -/
theorem PathTo.not_misses (h : PathTo g L signed path q) : ¬PathMisses g L signed path := by
  intro h'
  obtain ⟨par, fn, ps, hl, ht, hf⟩ := h
  obtain ⟨par', fn', ps', hl', ht', hf'⟩ := h'
  obtain ⟨rfl, rfl⟩ := hl.unique hl'
  obtain rfl := ht.unique ht'
  rw [hf] at hf'
  cases hf'

/-- Trees with the same names have the same paths. -/
theorem SameTree.pathTo (h : SameTree g L L') (hp : PathTo g L signed path q) :
    PathTo g L' signed path q := by
  obtain ⟨par, fn, ps, hl, ht, hf⟩ := hp
  have hpar := hl.isDir .root
  exact ⟨par, fn, ps, h.leads hl .root, h.table hpar ht, by rw [h.find hpar ht]; exact hf⟩

/-- A path misses in the same tree. -/
theorem SameTree.pathMisses (h : SameTree g L L') (hp : PathMisses g L signed path) :
    PathMisses g L' signed path := by
  obtain ⟨par, fn, ps, hl, ht, hf⟩ := hp
  have hpar := hl.isDir .root
  exact ⟨par, fn, ps, h.leads hl .root, h.table hpar ht, by rw [h.find hpar ht]; exact hf⟩

end

/-- The answer of `follow_path` for a path. -/
structure Answers (g : Geometry) (w : State) (path : List UInt8) (r : FRESULT × DIR) (w' : State) :
    Prop where
  stable : Stable g w'
  sectors : w'.disk.sectors = w.disk.sectors
  same : Same g w w'
  host : w'.host = w.host
  /-- It finds an entry if the path leads to one. -/
  found : ∀ q, PathTo g w.logical w.charSigned path q ↔
    r.1 = .ok ∧ hasBits r.2.nsflag NS_NONAME = false ∧ r.2.pos = q
  misses : PathMisses g w.logical w.charSigned path ↔ r.1 = .noFile
  shown : r.1 = .ok → hasBits r.2.nsflag NS_NONAME = false → w'.winsect = r.2.sect ∧
    w'.win = w.logical r.2.sect ∧ r.2.attr = r.2.pos.attr w.logical &&& AM_MASK ∧
    r.2.dir = r.2.dptr % SS

section
variable {g : Geometry} (hg : g.Sound) {w : State}

include hg

/-- `follow_path` on a stable volume. -/
theorem followPath_answers (hs : Stable g w) (hb : Browsable g w.logical) (path : List UInt8) :
    Returns (followPath {} path) w (Answers g w path) := by
  have hscan : Scanned g w w := ⟨hs.dev.inv, hs.dev.good, .refl g w, rfl⟩
  have hmove : ∀ s, Keeps (fun w' => w'.freeClst = w.freeClst) (moveWindow s) := fun s w₁ h₁ =>
    (moveWindow_spec w₁ s).ensures.mono fun _ _ h => h.kept.freeClst.trans h₁
  refine ((((followPath_leads hg hs.dev.on hb hscan {} path).and_ensures
    (followPath_closed hg (onDevice_closed hg) hs.dev {} path)).and_ensures
    (followPath_of_move hmove {} path w rfl)).and_ensures
    (followPath_host {} path w rfl)).mono fun r w' hpost => ?_
  obtain ⟨⟨⟨⟨hsc, hans⟩, hdev, hfol⟩, hfree⟩, hhost, -⟩ := hpost
  obtain ⟨hinv, hgood, hsame, hsec⟩ := hsc
  have hrest : (∀ q, PathTo g w.logical w.charSigned path q ↔
      r.1 = .ok ∧ hasBits r.2.nsflag NS_NONAME = false ∧ r.2.pos = q) ∧
      (PathMisses g w.logical w.charSigned path ↔ r.1 = .noFile) ∧
      (r.1 = .ok → hasBits r.2.nsflag NS_NONAME = false →
        w'.win = w.logical r.2.sect ∧ r.2.attr = r.2.pos.attr w.logical &&& AM_MASK) := by
    rcases hans with ⟨hok, hno, hnl⟩ | ⟨ps, hdir, hl, ht, hlast, hf⟩ | ⟨hne, hnl⟩
    · refine ⟨fun q => ⟨fun hp => ?_, fun hp => ?_⟩, ⟨fun hp => ?_, fun hp => ?_⟩, fun _ hn => ?_⟩
      · obtain ⟨par, fn, ps, hl, -⟩ := hp
        exact absurd hl (hnl par fn)
      · rw [hno] at hp
        exact absurd hp.2.1 (by decide)
      · obtain ⟨par, fn, ps, hl, -⟩ := hp
        exact absurd hl (hnl par fn)
      · rw [hok] at hp
        cases hp
      · rw [hno] at hn
        exact absurd hn (by decide)
    · have hname : hasBits r.2.nsflag NS_NONAME = false := by
        rw [hlast]
        decide
      cases hq : ps.find? (Pos.fits w.logical r.2.fn) with
      | none =>
        rw [hq] at hf
        simp only at hf
        have hmiss : PathMisses g w.logical w.charSigned path := ⟨_, _, ps, hl, ht, hq⟩
        refine ⟨fun q => ⟨fun hp => absurd hmiss hp.not_misses, fun hp => ?_⟩,
          ⟨fun _ => hf, fun _ => hmiss⟩, fun hok => ?_⟩
        · rw [hf] at hp
          cases hp.1
        · rw [hf] at hok
          cases hok
      | some q₀ =>
        rw [hq] at hf
        obtain ⟨hok, hpos, hattr, -, hwin⟩ := hf
        have hto : PathTo g w.logical w.charSigned path q₀ := ⟨_, _, ps, hl, ht, hq⟩
        refine ⟨fun q => ⟨fun hp => ⟨hok, hname, hpos.trans (hto.unique hp)⟩, fun hp => ?_⟩,
          ⟨fun hp => absurd hp hto.not_misses, fun hp => ?_⟩, fun _ _ => ⟨?_, ?_⟩⟩
        · rw [← hp.2.2, hpos]
          exact hto
        · rw [hok] at hp
          cases hp
        · rw [hwin, ← hpos]
          rfl
        · rw [hattr, hpos]
    · have hnot : r.1 ≠ .ok ∧ r.1 ≠ .noFile := by
        rcases hne with hne | hne <;> rw [hne] <;> decide
      refine ⟨fun q => ⟨fun hp => ?_, fun hp => absurd hp.1 hnot.1⟩,
        ⟨fun hp => ?_, fun hp => absurd hp hnot.2⟩, fun hok => absurd hok hnot.1⟩
      · obtain ⟨par, fn, ps, hl, -⟩ := hp
        exact absurd hl (hnl par fn)
      · obtain ⟨par, fn, ps, hl, -⟩ := hp
        exact absurd hl (hnl par fn)
  obtain ⟨hfound, hmiss, hshow⟩ := hrest
  refine ⟨hs.of_same hg hdev hsame hfree, hsec, hsame, hhost, hfound, hmiss, fun hok hname => ?_⟩
  have hfo := hfol hok
  exact ⟨hfo.shown hname, (hshow hok hname).1, (hshow hok hname).2, hfo.at_.dir⟩

end

/-! ## The tree of two open files -/

/-- The places of a root directory outside of the clusters. -/
theorem Along.clust_zero {g : Geometry} {L : Nat → Sector} {p q : Pos} (h : Along g L p q)
    (hp : p.clust = 0) : q.clust = 0 := by
  induction h with
  | refl => exact hp
  | next hn _ ih =>
    refine ih ?_
    unfold Pos.next at hn
    rw [if_pos hp] at hn
    split at hn
    · cases hn
    · split at hn
      · split at hn
        · cases hn
        · cases hn
          exact hp
      · cases hn
        exact hp

/-- The two open files are files of the root directory, which has no other entries. -/
theorem twoOpen_inTree :
    ∃ w a b, ((mountVolume [] 0 >>= fun _ => twoOpen) (registeredOn twoClusters)) =
      some ((a, b), w) ∧ w.geo.Sound ∧ InTree w.geo w (pairFiles a b) pairChains ∧
    w.registered = true ∧ Table w.geo w.logical (w.geo.dirStart 0) [⟨0, 0, 3⟩, ⟨32, 0, 3⟩] := by
  obtain ⟨w, a, b, hrun, hg, ho, -⟩ := twoOpen_opened
  have h : ((mountVolume [] 0 >>= fun _ => twoOpen) (registeredOn twoClusters)).map (fun r =>
      ((r.1, r.2.geo, r.2.registered), [0, 11, 32, 43, 64].map (r.2.logical 3),
        (ldClust r.2.geo (r.2.logical 3) 0, ldDword (r.2.logical 3) 28))) =
      some (((⟨true, 1, 2, 1000, 3, .ok, 0, 0, 0, 3, 0⟩, ⟨true, 1, 0, 0, 79, .ok, 0, 0, 0, 3, 32⟩),
        ⟨.fat12, 2, 16, 1, 126, 1, 0, 1, 3, 4, 1⟩, true), [0x41, 0, 0x42, 0x20, 0], (2, 1000)) := by
    decide +kernel
  rw [hrun] at h
  simp only [Option.map_some, Option.some.injEq, Prod.mk.injEq, List.map_cons, List.map_nil,
    List.cons.injEq, and_true] at h
  obtain ⟨⟨⟨ha, hb⟩, hgeo, hreg⟩, ⟨h0, h11, h32, h43, h64⟩, hclst, hsize⟩ := h
  have hstart : w.geo.dirStart 0 = ⟨0, 0, 3⟩ := by
    rw [hgeo]
    decide
  -- the table has the two entries
  have ht : Table w.geo w.logical (w.geo.dirStart 0) [⟨0, 0, 3⟩, ⟨32, 0, 3⟩] := by
    rw [hstart]
    refine .entry ?_ rfl (.entry ?_ rfl (.terminator ?_))
    · change w.logical 3 0 ≠ 0
      rw [h0]
      decide
    · change w.logical 3 32 ≠ 0
      rw [h32]
      decide
    · exact h64
  have hroot : ∀ c, IsDir w.geo w.logical c → c = 0 := by
    intro c hc
    induction hc with
    | root => rfl
    | sub _ ht' hp hsub ih =>
      subst ih
      obtain rfl := ht'.unique ht
      exfalso
      have hattr : ∀ p ∈ [(⟨0, 0, 3⟩ : Pos), ⟨32, 0, 3⟩], hasBits (p.attr w.logical) AM_DIR =
          false := by
        intro p hp
        rcases List.mem_cons.1 hp with rfl | hp
        · change hasBits (w.logical 3 11) AM_DIR = false
          rw [h11]
          decide
        · obtain rfl := List.mem_singleton.1 hp
          change hasBits (w.logical 3 43) AM_DIR = false
          rw [h43]
          decide
      unfold Pos.isSubdir at hsub
      rw [hattr _ hp, Bool.and_false] at hsub
      cases hsub
  refine ⟨w, a, b, hrun, hg, { toOpenFiles := ho, browsable := fun c hc => ?_,
                               dirs := fun p hp => ?_, slot := fun i => ?_,
                               plain := fun i => ?_, distinct := fun i j hij => ?_,
                               record := fun i hf => ?_ }, hreg, ht⟩
  · obtain rfl := hroot c hc
    refine ⟨.inl ⟨rfl, fun h32 => ?_⟩, _, ht⟩
    rw [hgeo] at h32
    cases h32
  · obtain ⟨c, hc, hal⟩ := hp
    obtain rfl := hroot c hc
    exact .inl (hal.clust_zero (by rw [hstart]))
  · rw [ha, hb]
    cases i <;> rfl
  · rw [ha, hb]
    cases i with
    | true =>
      change hasBits (w.logical 3 11) AM_DIR = false
      rw [h11]
      decide
    | false =>
      change hasBits (w.logical 3 43) AM_DIR = false
      rw [h43]
      decide
  · rw [ha, hb]
    cases i <;> cases j
    · exact absurd rfl hij
    · exact fun _ h => absurd h (by decide)
    · exact fun _ h => absurd h (by decide)
    · exact absurd rfl hij
  · rw [ha, hb] at hf ⊢
    cases i with
    | true => exact ⟨hclst, hsize⟩
    | false => exact absurd hf (by decide)

/-! ## Runs -/

/-- A call keeps what belongs to no volume. -/
theorem FIL.call_host {h : Host} (fp : FIL) (op : Op) : Keeps (OnHost h) (fp.call op) := by
  cases op with
  | read btr => exact .bind (fRead_host fp btr).keeps fun _ => .pure _
  | write buff => exact .bind (fWrite_host fp buff).keeps fun _ => .pure _
  | lseek ofs => exact .bind (fLseek_host fp ofs).keeps fun _ => .pure _
  | truncate => exact .bind (fTruncate_host fp).keeps fun _ => .pure _
  | sync => exact .bind (fSync_host fp).keeps fun _ => .pure _

section
variable {ι : Type} [DecidableEq ι] {g : Geometry} (hg : g.Sound) {w : State} {files : ι → FIL}
  {chains : ι → List Nat} {calls : List (ι × Op)}

/-- The calls on files keep the host. -/
theorem runCalls_host {h : Host} (calls : List (ι × Op)) (files : ι → FIL) :
    Keeps (OnHost h) (runCalls calls files) := by
  induction calls generalizing files with
  | nil => exact .pure _
  | cons call calls ih => exact .bind (FIL.call_host _ _) fun _ => .bind (ih _) fun _ => .pure _

include hg

/-- Paths lead to the same entries after any calls on open files: `follow_path` finds the same entry
or finds that the name is missing as before. -/
theorem runCalls_paths (h : InTree g w files chains) (hfits : ∀ c ∈ calls, c.2.Fits)
    (path : List UInt8) :
    Returns (followPath {} path) w fun r₀ _ =>
      Returns (runCalls calls files >>= fun _ => followPath {} path) w fun r _ =>
        (r.1 = .noFile ↔ r₀.1 = .noFile) ∧
        ∀ q, (r.1 = .ok ∧ hasBits r.2.nsflag NS_NONAME = false ∧ r.2.pos = q) ↔
          (r₀.1 = .ok ∧ hasBits r₀.2.nsflag NS_NONAME = false ∧ r₀.2.pos = q) := by
  refine (followPath_answers hg h.stable h.browsable path).mono fun r₀ w₀ h₀ => ?_
  rw [returns_bind]
  refine ((h.trace hg hfits).and_ensures
    (runCalls_host calls files w rfl)).mono fun rs w₁ hpost => ?_
  obtain ⟨⟨chains', ht⟩, hhost⟩ := hpost
  obtain ⟨h₁, hst⟩ := h.trace_tree hg ht
  have hsig : w₁.charSigned = w.charSigned := congrArg Host.charSigned hhost
  have hst' := hst.symm h.browsable
  refine (followPath_answers hg h₁.stable h₁.browsable path).mono fun r w₂ h₂ => ⟨?_, fun q => ?_⟩
  · rw [← h₂.misses, ← h₀.misses, hsig]
    exact ⟨hst'.pathMisses, hst.pathMisses⟩
  · rw [← h₂.found, ← h₀.found, hsig]
    exact ⟨hst'.pathTo, hst.pathTo⟩

end

/-- The hypotheses are met by the two open files, for the path of the new one. -/
theorem runCalls_paths_pair : ∃ w a b, (mountVolume [] 0 >>= fun _ => twoOpen)
      (registeredOn twoClusters) = some ((a, b), w) ∧
    Returns (followPath {} [0x42]) w fun r₀ _ =>
      Returns (runCalls [(false, .write [1]), (false, .sync)] (pairFiles a b) >>= fun _ =>
          followPath {} [0x42]) w fun r _ =>
        (r.1 = .noFile ↔ r₀.1 = .noFile) ∧
        ∀ q, (r.1 = .ok ∧ hasBits r.2.nsflag NS_NONAME = false ∧ r.2.pos = q) ↔
          (r₀.1 = .ok ∧ hasBits r₀.2.nsflag NS_NONAME = false ∧ r₀.2.pos = q) := by
  obtain ⟨w, a, b, hrun, hg, ht, -⟩ := twoOpen_inTree
  have hfits : ∀ c ∈ [(false, Op.write [1]), (false, .sync)], c.2.Fits := by
    simp [Op.Fits, W32]
  exact ⟨w, a, b, hrun, runCalls_paths hg ht hfits [0x42]⟩

end FatFs
