import FatFs.Store.Paths
import FatFs.Store.Shelf

/-!
# Files that are opened and closed

Files are opened by their paths, used and closed in any order. A file that is not open counts as an
open file with the cursor at its start and no modes (`FIL.shadow`), so that `InTree` is the
invariant of them all. Every run is a run of the abstract shelf (`runActs_refines`), and what was
written is there when a file is opened again (`runActs_persists`).
-/

namespace FatFs

open Run

/-! ## File objects -/

/-- The act on the file object of the file at `path`. -/
def FIL.act (path : List UInt8) (fp : FIL) : FileAct → M (Reply × FIL)
  | .op o => fp.call o
  | .open mode => do
    let (res, fp) ← fOpen fp path mode
    return ({ res }, fp)
  | .close => do
    let (res, fp) ← fClose fp
    return ({ res }, fp)

/-- A run of acts on file objects. -/
def runActs {ι : Type} [DecidableEq ι] (paths : ι → List UInt8) :
    List (ι × FileAct) → (ι → FIL) → M (List Reply × (ι → FIL))
  | [], files => return ([], files)
  | (i, act) :: acts, files => do
    let (r, fp) ← (files i).act (paths i) act
    let (replies, files) ← runActs paths acts (Function.update files i fp)
    return (r :: replies, files)

/-- The file object of a closed file: it is opened in no mode. -/
def FIL.shadow (g : Geometry) (L : Nat → Sector) (p : Pos) : FIL :=
  { fs := true
    id := g.id
    sclust := p.clst g L
    objsize := ldDword (L p.sect) (p.dptr % SS + DIR_FileSize)
    dirSect := p.sect
    dirPtr := p.dptr % SS }

/-- The file objects, with shadows for the files that are not open. -/
def standing {ι : Type} (g : Geometry) (L : Nat → Sector) (home : ι → Pos) (files : ι → FIL)
    (i : ι) : FIL :=
  if (files i).fs then files i else .shadow g L (home i)

/-- The files of the volume with the entries `home` that are found at `paths`. -/
structure Shelved {ι : Type} (g : Geometry) (w : State) (home : ι → Pos) (paths : ι → List UInt8)
    (files : ι → FIL) (chains : ι → List Nat) : Prop where
  tree : InTree g w (standing g w.logical home files) chains
  place : ∀ i, (files i).fs = true → (files i).dirSect = (home i).sect ∧
    (files i).dirPtr = (home i).dptr % SS
  path : ∀ i, ∃ rest, getLdnumber w.charSigned (paths i) = (true, rest) ∧
    PathTo g w.logical w.charSigned rest (home i)
  registered : w.registered = true

/-- The shelf that the files are on. -/
def shelf {ι : Type} (g : Geometry) (w : State) (home : ι → Pos) (files : ι → FIL)
    (chains : ι → List Nat) : Shelf ι :=
  { volume g w (standing g w.logical home files) chains with isOpen := fun i => (files i).fs }

/-- The entries that are read-only. -/
def readOnlyAt {ι : Type} (L : Nat → Sector) (home : ι → Pos) (i : ι) : Bool :=
  hasBits ((home i).attr L) AM_RDO

/-! ## File objects that are not open -/

section
variable {w : State} {fp : FIL}

/-- A closed object is refused. -/
theorem validate_not_open {fs : Bool} (h : fs = false) (id : Nat) :
    validate fs id w = some (.invalidObject, w) := by
  rw [validate, get_bind_apply, if_neg (by simp [h])]
  rfl

/-- `f_sync` refuses a closed file object. -/
theorem fSync_not_open (h : fp.fs = false) : fSync fp w = some ((.invalidObject, fp), w) := by
  rw [fSync, bind_apply_of_some (validate_not_open h _), if_neg (by simp)]
  rfl

/-- A call on a file object that is not open is refused. -/
theorem FIL.call_not_open (h : fp.fs = false) (op : Op) :
    fp.call op w = some (({ res := .invalidObject }, fp), w) := by
  have hne : FRESULT.invalidObject ≠ .ok := by decide
  have hval := validate_not_open (w := w) h fp.id
  cases op with
  | read btr =>
    have hc : fRead fp btr w = some ((.invalidObject, fp, []), w) := by
      rw [fRead, bind_apply_of_some hval, if_pos hne]
      rfl
    rw [FIL.call, bind_apply_of_some hc]
    rfl
  | write buff =>
    have hc : fWrite fp buff w = some ((.invalidObject, fp, 0), w) := by
      rw [fWrite, bind_apply_of_some hval, if_pos hne]
      rfl
    rw [FIL.call, bind_apply_of_some hc]
    rfl
  | lseek ofs =>
    have hc : fLseek fp ofs w = some ((.invalidObject, fp), w) := by
      rw [fLseek, bind_apply_of_some hval, if_pos hne]
      rfl
    rw [FIL.call, bind_apply_of_some hc]
    rfl
  | truncate =>
    have hc : fTruncate fp w = some ((.invalidObject, fp), w) := by
      rw [fTruncate, bind_apply_of_some hval, if_pos hne]
      rfl
    rw [FIL.call, bind_apply_of_some hc]
    rfl
  | sync =>
    rw [FIL.call, bind_apply_of_some (fSync_not_open h)]
    rfl

/-- `f_close` refuses a closed file object. -/
theorem fClose_not_open (h : fp.fs = false) : fClose fp w = some ((.invalidObject, fp), w) := by
  rw [fClose, bind_apply_of_some (fSync_not_open h)]
  rfl

end

/-- The read-only bit is one of the attributes that `dir_find` keeps. -/
theorem hasBits_rdo (a : UInt8) : hasBits (a &&& AM_MASK) AM_RDO = hasBits a AM_RDO :=
  forall_byte (P := fun a => hasBits (a &&& AM_MASK) AM_RDO = hasBits a AM_RDO)
  (by decide +kernel) a

/-- `f_open` of a file that exists, without a create flag. -/
theorem fOpen_found {w w₁ w₂ : State} {path rest : List UInt8} {dj : DIR} {acc : UInt8}
    (hacc : acc ∈ accessModes) (hmount : mountVolume path acc w = some ((.ok, rest), w₁))
    (hfollow : followPath {} rest w₁ = some ((.ok, dj), w₂))
    (hname : hasBits dj.nsflag NS_NONAME = false) (fp : FIL) :
    fOpen fp path acc w = some (if openExisting .ok dj acc = .ok then (.ok, fp.opened w₂ dj acc)
      else (openExisting .ok dj acc, { fp with fs := false }), w₂) := by
  have hbits : ∀ a ∈ accessModes, a &&& (FA_READ ||| FA_WRITE ||| FA_CREATE_ALWAYS |||
      FA_CREATE_NEW ||| FA_OPEN_ALWAYS ||| FA_OPEN_APPEND) = a ∧
      hasBits a (FA_CREATE_ALWAYS ||| FA_OPEN_ALWAYS ||| FA_CREATE_NEW) = false ∧
      hasBits a FA_CREATE_ALWAYS = false ∧ hasBits a FA_SEEKEND = false := by decide +kernel
  obtain ⟨hmask, hcreate, halways, hseek⟩ := hbits acc hacc
  have hrun : Returns (fOpen fp path acc) w fun r u => u = w₂ ∧
      r = if openExisting .ok dj acc = .ok then (.ok, fp.opened w₂ dj acc)
        else (openExisting .ok dj acc, { fp with fs := false }) := by
    simp only [fOpen, hmask, returns_bind]
    refine ⟨(.ok, rest), w₁, hmount, ?_⟩
    simp only [if_true, returns_bind]
    refine ⟨(.ok, dj), w₂, hfollow, ?_⟩
    simp only [hname, Bool.false_eq_true, and_false, if_false, hcreate, returns_pure]
    split
    · simp only [openFil, halways, Bool.false_eq_true, if_false, hseek, returns_bind, returns_get,
        false_and, returns_pure, ne_eq, not_true_eq_false]
      exact ⟨trivial, rfl⟩
    · exact returns_pure.2 ⟨rfl, rfl⟩
  obtain ⟨r, u, hr, rfl, rfl⟩ := hrun
  exact hr

/-! ## Replacing a file object -/

section
variable {ι : Type} [DecidableEq ι] {g : Geometry} {w w' : State} {files : ι → FIL}
  {chains : ι → List Nat} {i : ι} {fp : FIL}

/-- Another file object for the file `i`. -/
theorem InTree.update (h : InTree g w files chains) (hh : fp.Holds g w (chains i))
    (hs : fp.dirSect = (files i).dirSect) (hp : fp.dirPtr = (files i).dirPtr)
    (hr : hasBits fp.flag FA_MODIFIED = false → Recorded g w.logical fp) :
    InTree g w (Function.update files i fp) chains := by
  have hsect : ∀ j, (Function.update files i fp j).dirSect = (files j).dirSect := fun j => by
    by_cases hj : j = i
    · subst hj
      rw [Function.update_self, hs]
    · rw [Function.update_of_ne hj]
  have hptr : ∀ j, (Function.update files i fp j).dirPtr = (files j).dirPtr := fun j => by
    by_cases hj : j = i
    · subst hj
      rw [Function.update_self, hp]
    · rw [Function.update_of_ne hj]
  refine { stable := h.stable, holds := fun j => ?_, apart := h.apart, area := fun j => ?_,
           outside := fun j k => ?_, used := fun j => ?_, browsable := h.browsable, dirs := h.dirs,
           slot := fun j => ?_, plain := fun j => ?_, distinct := fun j k => ?_,
           record := fun j hf => ?_ }
  · by_cases hj : j = i
    · subst hj
      rw [Function.update_self]
      exact hh
    · rw [Function.update_of_ne hj]
      exact h.holds j
  · rw [hsect]
    exact h.area j
  · rw [hsect]
    exact h.outside j k
  · rw [hsect]
    exact h.used j
  · rw [hptr]
    exact h.slot j
  · rw [hsect, hptr]
    exact h.plain j
  · rw [hsect, hsect, hptr, hptr]
    exact h.distinct j k
  · by_cases hj : j = i
    · subst hj
      rw [Function.update_self] at hf ⊢
      exact hr hf
    · rw [Function.update_of_ne hj] at hf ⊢
      exact h.record j hf

/-- A call of `f_sync` as a step of the abstract volume changes nothing. -/
theorem Volume.Step.sync_eq {b : Nat} {r : Reply} {v v' : Volume ι} (h : v.Step b i .sync r v') :
    v' = v := by
  obtain ⟨hdo, hfree⟩ := h
  cases hdo
  rw [Function.update_eq_self, Nat.add_right_cancel hfree]

/-- Moving the window keeps the tree and the volume. -/
theorem InTree.same (hg : g.Sound) (h : InTree g w files chains) (i : ι) (hs : Stable g w')
    (hsec : w'.disk.sectors = w.disk.sectors) (hsame : Same g w w') :
    InTree g w' files chains ∧ SameTree g w.logical w'.logical ∧
      volume g w' files chains = volume g w files chains := by
  have hh := h.holds i
  have hcont : g.content w'.logical (chains i) (files i).objsize =
      g.content w.logical (chains i) (files i).objsize :=
    hg.content_congr (Nat.le_of_eq hh.file.length.symm) fun c hc s hin =>
      hsame s (hin.inArea hg (hh.file.clust c hc)).not_inFat2
  have hcall : Called g w (files i) (chains i) .sync ({ res := .ok }, files i) w' (chains i) := by
    refine ⟨(Grows.of_same hg hs hsec hsame (chains i)).touches _, ?_, rfl, rfl, ?_, fun hf =>
      ⟨rfl, rfl, fun ht => absurd (hf.symm.trans ht) (by decide)⟩⟩
    · exact hh.congr fun c hc => hg.entry_same hsame (hh.file.clust c hc).2
    · rw [(files i).doc_eq w.logical (chains i) hcont rfl (.inl rfl)]
      exact .sync
  have ht := h.called hg hcall
  have hv := (h.toOpenFiles.called hg hcall).2.sync_eq
  rw [Function.update_eq_self, Function.update_eq_self] at ht hv
  exact ⟨ht, h.sameTree hg hcall.spares, hv⟩

end

/-! ## Acts -/

section
variable {ι : Type} [DecidableEq ι] {g : Geometry} {w w' : State} {home : ι → Pos}
  {paths : ι → List UInt8} {files : ι → FIL} {chains chains' : ι → List Nat} {i : ι}

omit [DecidableEq ι] in
/-- The shadow of an entry is what the entry records. -/
theorem FIL.shadow_eq {L L' : Nat → Sector} {p : Pos} (h : Recorded g L' (.shadow g L p)) :
    FIL.shadow g L' p = .shadow g L p := by
  have hc : p.clst g L' = p.clst g L := h.clst
  have hs : ldDword (L' p.sect) (p.dptr % SS + DIR_FileSize) =
    ldDword (L p.sect) (p.dptr % SS + DIR_FileSize) := h.size
  unfold FIL.shadow
  rw [hc, hs]

omit [DecidableEq ι] in
/-- The shadow of an entry is not modified. -/
theorem FIL.shadow_flag {L : Nat → Sector} {p : Pos} :
    hasBits (FIL.shadow g L p).flag FA_MODIFIED = false := by
  change hasBits 0 FA_MODIFIED = false
  decide

omit [DecidableEq ι] in
/-- The document of a file that is not open. -/
theorem FIL.shadow_doc {L : Nat → Sector} {p : Pos} {cs : List Nat} :
    (FIL.shadow g L p).doc g L cs =
    { bytes := g.content L cs (FIL.shadow g L p).objsize, pos := 0, canRead := false,
      canWrite := false } := by
  have hr : hasBits 0 FA_READ = false := by decide
  have hw : hasBits 0 FA_WRITE = false := by decide
  change Doc.mk _ _ (hasBits 0 FA_READ) (hasBits 0 FA_WRITE) = _
  rw [hr, hw]
  rfl

omit [DecidableEq ι] in
/-- The file object or the shadow of a file has its entry at the place of the file. -/
theorem Shelved.standing_place (h : Shelved g w home paths files chains) (i : ι) :
    (standing g w.logical home files i).dirSect = (home i).sect ∧
      (standing g w.logical home files i).dirPtr = (home i).dptr % SS := by
  unfold standing
  split
  · exact h.place i ‹_›
  · exact ⟨rfl, rfl⟩

/-- The files after an act on the file `i`, whose object is `fp` then. -/
theorem Shelved.assemble (h : Shelved g w home paths files chains) (fp : FIL)
    (ht : InTree g w' (Function.update (standing g w.logical home files) i
      (if fp.fs then fp else .shadow g w'.logical (home i))) chains')
    (hst : SameTree g w.logical w'.logical) (hhost : w'.host = w.host)
    (hp : fp.fs = true → fp.dirSect = (home i).sect ∧ fp.dirPtr = (home i).dptr % SS) :
    Shelved g w' home paths (Function.update files i fp) chains' ∧
      standing g w'.logical home (Function.update files i fp) =
        Function.update (standing g w.logical home files) i
          (if fp.fs then fp else .shadow g w'.logical (home i)) ∧
      readOnlyAt w'.logical home = readOnlyAt w.logical home := by
  have hstand : standing g w'.logical home (Function.update files i fp) =
      Function.update (standing g w.logical home files) i
        (if fp.fs then fp else .shadow g w'.logical (home i)) := by
    funext j
    by_cases hj : j = i
    · subst hj
      rw [Function.update_self]
      unfold standing
      rw [Function.update_self]
    · rw [Function.update_of_ne hj]
      have hrec := ht.record j
      rw [Function.update_of_ne hj] at hrec
      unfold standing at hrec ⊢
      rw [Function.update_of_ne hj]
      split
      · rfl
      · rename_i hfs
        rw [if_neg hfs] at hrec
        exact FIL.shadow_eq (hrec FIL.shadow_flag)
  have hsig : w'.charSigned = w.charSigned := congrArg Host.charSigned hhost
  refine ⟨⟨by rw [hstand]; exact ht, fun j hf => ?_, fun j => ?_, ?_⟩, hstand, funext fun j => ?_⟩
  · by_cases hj : j = i
    · subst hj
      rw [Function.update_self] at hf ⊢
      exact hp hf
    · rw [Function.update_of_ne hj] at hf ⊢
      exact h.place j hf
  · obtain ⟨rest, hl, hto⟩ := h.path j
    rw [hsig]
    exact ⟨rest, hl, hst.pathTo hto⟩
  · rw [show w'.registered = w.registered from congrArg Host.registered hhost]
    exact h.registered
  · obtain ⟨rest, -, hto⟩ := h.path j
    exact (hst _ hto.dirPlace).rdo

/-- What an act on the file `i` does. -/
structure Acted (g : Geometry) (w : State) (home : ι → Pos) (paths : ι → List UInt8)
    (files : ι → FIL) (chains : ι → List Nat) (i : ι) (act : FileAct) (r : Reply × FIL) (w' : State)
    (chains' : ι → List Nat) : Prop where
  shelved : Shelved g w' home paths (Function.update files i r.2) chains'
  step : (shelf g w home files chains).Step (g.csize * SS) (readOnlyAt w.logical home) i act r.1
    (shelf g w' home (Function.update files i r.2) chains')
  readOnly : readOnlyAt w'.logical home = readOnlyAt w.logical home
  host : w'.host = w.host

/-- An act that is refused changes nothing. -/
theorem Acted.refused {act : FileAct} {r : Reply} (h : Shelved g w home paths files chains)
    (hstep : (shelf g w home files chains).Step (g.csize * SS) (readOnlyAt w.logical home) i act r
      (shelf g w home files chains)) :
    Acted g w home paths files chains i act (r, files i) w chains := by
  have he : Function.update files i (files i) = files := Function.update_eq_self i files
  refine ⟨?_, ?_, rfl, rfl⟩
  · rw [he]
    exact h
  · rw [he]
    exact hstep

/-- The table of open files, when one file object is replaced. -/
theorem update_isOpen (fp : FIL) : (fun j => (Function.update files i fp j).fs) =
    Function.update (fun j => (files j).fs) i fp.fs := by
  funext j
  by_cases hj : j = i
  · subst hj
    rw [Function.update_self, Function.update_self]
  · rw [Function.update_of_ne hj, Function.update_of_ne hj]

variable (hg : g.Sound)

include hg

/-- A call on the file object. -/
theorem Shelved.op (h : Shelved g w home paths files chains) (i : ι) {op : Op} (hop : op.Fits) :
    Returns ((files i).act (paths i) (.op op)) w fun r w' => ∃ chains',
      Acted g w home paths files chains i (.op op) r w' chains' := by
  rw [FIL.act]
  cases hfs : (files i).fs with
  | false =>
    exact ⟨_, _, FIL.call_not_open hfs op, chains, .refused h (.noOp hfs)⟩
  | true =>
    have hi : standing g w.logical home files i = files i := by
      unfold standing
      rw [if_pos hfs]
    have ho := h.tree.toOpenFiles
    have hcall := FIL.call_called hg ho.stable (ho.holds i) (ho.area i) (ho.outside i i) hop
    rw [hi] at hcall
    refine (hcall.and_ensures (FIL.call_host (files i) op w rfl)).mono fun r w' hpost => ?_
    obtain ⟨⟨cs', hc⟩, hhost⟩ := hpost
    have hc' := hc
    rw [← hi] at hc'
    have hopen := hc.holds.fs
    have hstep := (ho.called hg hc').2
    obtain ⟨hsh, hstand, hro⟩ := h.assemble (i := i) r.2
      (by rw [if_pos hopen]; exact h.tree.called hg hc') (h.tree.sameTree hg hc'.spares) hhost
      (fun _ => by rw [hc.dirSect, hc.dirPtr]; exact h.place i hfs)
    refine ⟨_, hsh, ?_, hro, hhost⟩
    unfold shelf
    rw [hstand, if_pos hopen, update_isOpen, hopen, ← hfs, Function.update_eq_self]
    exact .op hfs hstep

omit hg in
/-- The volume, when one file object is replaced. -/
theorem volume_update (fp : FIL) : volume g w (Function.update files i fp) chains =
    { volume g w files chains with
      docs := Function.update (volume g w files chains).docs i
        (fp.doc g w.logical (chains i)) } := by
  unfold volume
  congr 1
  funext j
  by_cases hj : j = i
  · subst hj
    simp only [Function.update_self]
  · simp only [Function.update_of_ne hj]

omit hg [DecidableEq ι] in
/-- The cleared mark is not set. -/
theorem hasBits_unmark (f : UInt8) : hasBits (f &&& ~~~FA_MODIFIED) FA_MODIFIED = false :=
  forall_byte (P := fun f => hasBits (f &&& ~~~FA_MODIFIED) FA_MODIFIED = false)
  (by decide +kernel) f

omit hg [DecidableEq ι] in
/-- The shadow of a recorded file. -/
theorem Recorded.shadow {L : Nat → Sector} {p : Pos} {fp : FIL} (h : Recorded g L fp)
    (hs : fp.dirSect = p.sect) (hp : fp.dirPtr = p.dptr % SS) :
    (FIL.shadow g L p).sclust = fp.sclust ∧ (FIL.shadow g L p).objsize = fp.objsize := by
  have hc := h.clst
  have hz := h.size
  rw [hs, hp] at hc hz
  exact ⟨hc, hz⟩

/-- Closing the file. -/
theorem Shelved.close (h : Shelved g w home paths files chains) (i : ι) :
    Returns ((files i).act (paths i) .close) w fun r w' => ∃ chains',
      Acted g w home paths files chains i .close r w' chains' := by
  rw [FIL.act]
  cases hfs : (files i).fs with
  | false =>
    refine ⟨_, w, ?_, chains, .refused h (.noClose hfs)⟩
    rw [bind_apply_of_some (fClose_not_open hfs)]
    rfl
  | true =>
    have hi : standing g w.logical home files i = files i := by
      unfold standing
      rw [if_pos hfs]
    have ho := h.tree.toOpenFiles
    have hhold := ho.holds i
    have harea := ho.area i
    have hout := ho.outside i i
    rw [hi] at hhold harea hout
    have hcall := fSync_called hg ho.stable hhold harea hout
    rw [FIL.call, returns_bind] at hcall
    rw [returns_bind, fClose, returns_bind]
    refine ((hcall.and_ensures (fSync_store hg ho.stable hhold harea).ensures).and_ensures
      (fSync_host (files i) w rfl)).mono fun r w' hpost => ?_
    obtain ⟨⟨hcalled, hsync⟩, hhost, -⟩ := hpost
    obtain ⟨res, fp'⟩ := r
    obtain ⟨cs', hc⟩ := returns_pure.1 hcalled
    have hres : res = .ok := hsync.res
    subst hres
    have hopen : fp'.fs = true := hc.holds.fs
    dsimp only
    rw [if_pos rfl, returns_bind]
    refine ⟨_, _, validate_holds hg hc.touches.stable hc.holds, ?_⟩
    refine returns_pure.2 (returns_pure.2 ⟨Function.update chains i cs', ?_⟩)
    rw [if_pos rfl]
    have hc' := hc
    rw [← hi] at hc'
    have ht := h.tree.called hg hc'
    have hunmarked : hasBits fp'.flag FA_MODIFIED = false := by
      rw [show fp' = _ from hsync.fil]
      split
      · exact hasBits_unmark _
      · rename_i hn
        simpa using hn
    obtain ⟨hps, hpp⟩ := h.place i hfs
    have hrec := h.tree.recorded hg hc' hunmarked
    obtain ⟨hsc, hsz⟩ := hrec.shadow (p := home i) (hc.dirSect.trans hps) (hc.dirPtr.trans hpp)
    have hshadow : (FIL.shadow g w'.logical (home i)).Holds g w' cs' :=
      .atStart (by rw [hsc, hsz]; exact hc.holds.file) (by rw [hsz]; exact hc.holds.size) rfl
      rfl rfl rfl
    have ht' : InTree g w' (Function.update (standing g w.logical home files) i
        (.shadow g w'.logical (home i))) (Function.update chains i cs') := by
      rw [← Function.update_idem fp']
      refine ht.update ?_ ?_ ?_ fun _ => ⟨rfl, rfl⟩
      · rw [Function.update_self]
        exact hshadow
      · rw [Function.update_self]
        exact (hc.dirSect.trans hps).symm
      · rw [Function.update_self]
        exact (hc.dirPtr.trans hpp).symm
    obtain ⟨hsh, hstand, hro⟩ := h.assemble (i := i) { fp' with fs := false } ht'
      (h.tree.sameTree hg hc'.spares) hhost (fun hf => absurd hf (by simp))
    refine ⟨hsh, ?_, hro, hhost⟩
    -- the volume is as before the call but for the cursor and the modes
    have hvol := (ho.called hg hc').2.sync_eq
    have hdoc : (FIL.shadow g w'.logical (home i)).doc g w'.logical cs' =
        { fp'.doc g w'.logical cs' with pos := 0, canRead := false, canWrite := false } := by
      rw [FIL.shadow_doc, hsz]
      rfl
    have hrewind : volume g w' (Function.update (standing g w.logical home files) i
        (.shadow g w'.logical (home i))) (Function.update chains i cs') =
        (volume g w (standing g w.logical home files) chains).rewind i false false := by
      have hi' : (volume g w' (Function.update (standing g w.logical home files) i fp')
          (Function.update chains i cs')).docs i = fp'.doc g w'.logical cs' := by
        simp only [volume, Function.update_self]
      rw [← hvol, ← Function.update_idem fp', volume_update, Function.update_self, hdoc]
      unfold Volume.rewind
      rw [hi']
    unfold shelf
    rw [hstand, update_isOpen, if_neg Bool.false_ne_true, hrewind]
    exact .close hfs

omit hg in
/-- `f_open` finds the directory entry of the closed file `i`, and the volume is as it was. -/
structure EntryFound (g : Geometry) (w : State) (home : ι → Pos) (files : ι → FIL)
    (chains : ι → List Nat) (i : ι) (dj : DIR) (w₂ : State) : Prop where
  winsect : w₂.winsect = (home i).sect
  win : w₂.win = w.logical (home i).sect
  dir : dj.dir = (home i).dptr % SS
  plain : hasBits dj.attr AM_DIR = false
  readOnly : hasBits dj.attr AM_RDO = readOnlyAt w.logical home i
  tree : InTree g w₂ (standing g w.logical home files) chains
  same : SameTree g w.logical w₂.logical
  vol : volume g w₂ (standing g w.logical home files) chains =
    volume g w (standing g w.logical home files) chains
  host : w₂.host = w.host

omit hg [DecidableEq ι] in
/-- A closed file stands for its directory entry. -/
theorem standing_closed {L : Nat → Sector} {i : ι} (hfs : (files i).fs = false) :
    standing g L home files i = .shadow g L (home i) := by
  unfold standing
  rw [if_neg (by rw [hfs]; exact Bool.false_ne_true)]

/-- The mount and the walk of `f_open` on a closed file. -/
theorem Shelved.entryFound (h : Shelved g w home paths files chains) {i : ι}
    (hfs : (files i).fs = false) : ∃ dj w₂, EntryFound g w home files chains i dj w₂ ∧
      ∀ fp, ∀ mode ∈ accessModes, fOpen fp (paths i) mode w =
        some (if openExisting .ok dj mode = .ok then (.ok, fp.opened w₂ dj mode)
          else (openExisting .ok dj mode, { fp with fs := false }), w₂) := by
  have hi : standing g w.logical home files i = .shadow g w.logical (home i) :=
    standing_closed hfs
  obtain ⟨rest, hl, hto⟩ := h.path i
  have hs := h.tree.stable
  obtain ⟨⟨res, dj⟩, w₂, hfollow, hans⟩ := followPath_answers hg hs h.tree.browsable rest
  obtain ⟨hok, hname, hpos⟩ := (hans.found (home i)).1 hto
  simp only at hok hname hpos
  subst hok
  obtain ⟨hws, hwin, hattr, hdir⟩ := hans.shown rfl hname
  simp only at hws hwin hattr hdir
  have hsect : dj.sect = (home i).sect := by rw [← hpos]; rfl
  obtain ⟨ht, hst, hvol⟩ := h.tree.same hg i hans.stable hans.sectors hans.same
  refine ⟨dj, w₂, ⟨by rw [hws, hsect], by rw [hwin, hsect], by rw [hdir, ← hpos]; rfl, ?_, ?_,
    ht, hst, hvol, hans.host⟩, fun fp mode hmode => ?_⟩
  · have := h.tree.plain i
    rw [hi] at this
    rw [hattr, hpos, hasBits_dir]
    exact this
  · rw [hattr, hpos, hasBits_rdo]
    rfl
  · have hmount := mountVolume_mounted mode hl h.registered
      (by rw [hs.dev.inv.geo]; exact hg.fsType)
    exact fOpen_found hmode hmount hfollow hname fp

section
variable {dj : DIR} {w₂ : State} (hf : EntryFound g w home files chains i dj w₂)
  (h : Shelved g w home paths files chains) (hfs : (files i).fs = false)

omit hg [DecidableEq ι] in
include hf hfs in
/-- The entry that is found tells where the file is. -/
theorem EntryFound.recorded : Recorded g w₂.logical (.shadow g w.logical (home i)) := by
  have hrec := hf.tree.record i
  rw [standing_closed hfs] at hrec
  exact hrec FIL.shadow_flag

include hf h hfs

omit hg in
/-- A read-only file that is to be opened for writing stays closed. -/
theorem EntryFound.denied {mode : UInt8} (hro : readOnlyAt w.logical home i = true)
    (hwr : hasBits mode FA_WRITE = true) :
    Acted g w home paths files chains i (.open mode) ({ res := .denied }, files i) w₂ chains := by
  have hstay : Function.update (standing g w.logical home files) i
      (if (files i).fs then files i else .shadow g w₂.logical (home i)) =
      standing g w.logical home files := by
    rw [if_neg (by rw [hfs]; exact Bool.false_ne_true), FIL.shadow_eq (hf.recorded hfs),
      ← standing_closed hfs, Function.update_eq_self]
  obtain ⟨hsh, hstand, hro'⟩ := h.assemble (i := i) (files i) (by rw [hstay]; exact hf.tree) hf.same
    hf.host (fun ho => absurd (hfs.symm.trans ho) Bool.false_ne_true)
  refine ⟨hsh, ?_, hro', hf.host⟩
  have hshelf : shelf g w₂ home (Function.update files i (files i)) chains =
      shelf g w home files chains := by
    unfold shelf
    rw [hstand, hstay, hf.vol, Function.update_eq_self]
  rw [hshelf]
  exact .noOpen hfs hro hwr

omit hg in
/-- A file that may be opened is open with its cursor at the start. -/
theorem EntryFound.opened {mode : UInt8}
    (hmay : readOnlyAt w.logical home i = true → hasBits mode FA_WRITE = false) :
    Acted g w home paths files chains i (.open mode)
      ({ res := .ok }, (files i).opened w₂ dj mode) w₂ chains := by
  have hi : standing g w.logical home files i = .shadow g w.logical (home i) :=
    standing_closed hfs
  have hgeo₂ : w₂.geo = g := hf.tree.stable.dev.inv.geo
  have hrec := hf.recorded hfs
  obtain ⟨fp, hfp⟩ : ∃ fp, fp = (files i).opened w₂ dj mode := ⟨_, rfl⟩
  -- the file object is the shadow with the modes
  have hstart : fp.sclust = (home i).clst g w.logical := by
    rw [hfp, FIL.opened, hf.win, hf.dir, hgeo₂]
    rfl
  have hsize : fp.objsize =
      ldDword (w.logical (home i).sect) ((home i).dptr % SS + DIR_FileSize) := by
    rw [hfp, FIL.opened, hf.win, hf.dir]
  have hds : fp.dirSect = (home i).sect := by rw [hfp, FIL.opened, hf.winsect]
  have hdp : fp.dirPtr = (home i).dptr % SS := by rw [hfp, FIL.opened, hf.dir]
  have hflag : fp.flag = mode := by rw [hfp, FIL.opened]
  have hopen : fp.fs = true := by rw [hfp, FIL.opened]
  have hfptr : fp.fptr = 0 := by rw [hfp, FIL.opened]
  have hid : fp.id = g.id := by rw [hfp, FIL.opened, hgeo₂]
  have herr : fp.err = .ok := by rw [hfp, FIL.opened]
  rw [← hfp]
  have hh := hf.tree.holds i
  rw [hi] at hh
  have hup : InTree g w₂ (Function.update (standing g w.logical home files) i fp) chains := by
    refine hf.tree.update ?_ (by rw [hi]; exact hds) (by rw [hi]; exact hdp) fun _ => ⟨?_, ?_⟩
    · exact .atStart (by rw [hstart, hsize]; exact hh.file) (by rw [hsize]; exact hh.size)
        hopen hid herr hfptr
    · rw [hds, hdp, hstart]
      exact hrec.clst
    · rw [hds, hdp, hsize]
      exact hrec.size
  obtain ⟨hsh, hstand, hro⟩ :=
    h.assemble (i := i) fp (by rw [if_pos hopen]; exact hup) hf.same hf.host (fun _ => ⟨hds, hdp⟩)
  refine ⟨hsh, ?_, hro, hf.host⟩
  have hdoc : (volume g w (standing g w.logical home files) chains).docs i =
      (FIL.shadow g w.logical (home i)).doc g w.logical (chains i) := by
    simp only [volume, hi]
  have hrewind : volume g w₂ (Function.update (standing g w.logical home files) i fp) chains =
      (volume g w (standing g w.logical home files) chains).rewind i (hasBits mode FA_READ)
        (hasBits mode FA_WRITE) := by
    have hbytes := congrArg (fun v => (v.docs i).bytes) hf.vol
    simp only [volume, hi, FIL.doc] at hbytes
    rw [volume_update, hf.vol]
    unfold Volume.rewind
    rw [hdoc]
    unfold FIL.doc
    rw [hsize, hflag, hfptr]
    simp only
    rw [← hbytes]
    rfl
  unfold shelf
  rw [hstand, update_isOpen, if_pos hopen, hopen, hrewind]
  exact .open hfs hmay

end

/-- Opening a file that is closed. -/
theorem Shelved.open (h : Shelved g w home paths files chains) (i : ι) (hfs : (files i).fs = false)
    {mode : UInt8} (hmode : mode ∈ accessModes) :
    Returns ((files i).act (paths i) (.open mode)) w fun r w' => ∃ chains',
      Acted g w home paths files chains i (.open mode) r w' chains' := by
  obtain ⟨dj, w₂, hf, hrun⟩ := h.entryFound hg hfs
  have hrun := hrun (files i) mode hmode
  have hres : openExisting .ok dj mode =
      if hasBits mode FA_WRITE = true ∧ readOnlyAt w.logical home i = true then .denied
      else .ok := by
    unfold openExisting
    rw [if_pos rfl, hf.plain, if_neg Bool.false_ne_true, hf.readOnly]
  rw [FIL.act, returns_bind]
  by_cases hden : hasBits mode FA_WRITE = true ∧ readOnlyAt w.logical home i = true
  · have hself : { files i with fs := false } = files i := by
      rw [← hfs]
    rw [hres, if_pos hden, if_neg (by decide), hself] at hrun
    exact ⟨_, _, hrun, returns_pure.2 ⟨chains, hf.denied h hfs hden.2 hden.1⟩⟩
  · rw [hres, if_neg hden, if_pos rfl] at hrun
    exact ⟨_, _, hrun, returns_pure.2 ⟨chains, hf.opened h hfs fun hr => by simpa [hr] using hden⟩⟩

/-- Every act is an act on the shelf. -/
theorem Shelved.act (h : Shelved g w home paths files chains) (i : ι) {act : FileAct}
    (hfits : act.Fits) (hopen : ∀ mode, act = .open mode → (files i).fs = false) :
    Returns ((files i).act (paths i) act) w fun r w' => ∃ chains',
      Acted g w home paths files chains i act r w' chains' := by
  cases act with
  | op op => exact h.op hg i hfits
  | «open» mode => exact h.open hg i (hopen mode rfl) hfits
  | close => exact h.close hg i

/-- A run of acts. -/
theorem Shelved.run (h : Shelved g w home paths files chains) {acts : List (ι × FileAct)}
    (hfits : ∀ a ∈ acts, a.2.Fits)
    (hord : Orderly (readOnlyAt w.logical home) (fun i => (files i).fs) acts) :
    Returns (runActs paths acts files) w fun r w' => ∃ chains',
      Shelved g w' home paths r.2 chains' ∧
      (shelf g w home files chains).Run (g.csize * SS) (readOnlyAt w.logical home) acts r.1
        (shelf g w' home r.2 chains') ∧ w'.host = w.host := by
  induction acts generalizing w files chains with
  | nil => exact returns_pure.2 ⟨chains, h, .nil _, rfl⟩
  | cons a acts ih =>
    obtain ⟨i, act⟩ := a
    obtain ⟨hclosed, hrest⟩ := hord
    rw [runActs, returns_bind]
    refine (h.act hg i (hfits _ List.mem_cons_self) hclosed).mono fun r w₁ hpost => ?_
    obtain ⟨chains₁, hacted⟩ := hpost
    -- the files that are open after the act are those of the shelf
    have hopen : (fun j => (Function.update files i r.2 j).fs) =
        act.after (readOnlyAt w.logical home) (fun j => (files j).fs) i := hacted.step.isOpen_eq
    rw [returns_bind]
    refine (ih hacted.shelved (fun a hm => hfits a (List.mem_cons_of_mem _ hm))
      (by rw [hacted.readOnly, hopen]; exact hrest)).mono fun rs w₂ hpost => ?_
    obtain ⟨chains₂, hsh, hrun, hhost⟩ := hpost
    rw [hacted.readOnly] at hrun
    exact returns_pure.2 ⟨chains₂, hsh, .cons hacted.step hrun, hhost.trans hacted.host⟩

end

/-! ## Two files -/

/-- The directory entries of the two files. -/
def pairHome : Bool → Pos
  | true => ⟨0, 0, 3⟩
  | false => ⟨32, 0, 3⟩

/-- The paths of the two files. -/
def pairPaths : Bool → List UInt8
  | true => [0x41]
  | false => [0x42]

/-- The two files are on a shelf, closed. -/
theorem twoOpen_shelved :
    ∃ w a b, (mountVolume [] 0 >>= fun _ => twoOpen) (registeredOn twoClusters) =
      some ((a, b), w) ∧ w.geo.Sound ∧
    Shelved w.geo w pairHome pairPaths (fun _ => {}) pairChains ∧
    ∀ i, readOnlyAt w.logical pairHome i = false := by
  obtain ⟨w, a, b, hrun, hg, ht, hreg, htab⟩ := twoOpen_inTree
  have h : ((mountVolume [] 0 >>= fun _ => twoOpen) (registeredOn twoClusters)).map (fun r =>
      (r.1, (Pos.clst r.2.geo r.2.logical ⟨0, 0, 3⟩, ldDword (r.2.logical 3) 28),
        (Pos.clst r.2.geo r.2.logical ⟨32, 0, 3⟩, ldDword (r.2.logical 3) 60))) =
      some ((⟨true, 1, 2, 1000, 3, .ok, 0, 0, 0, 3, 0⟩, ⟨true, 1, 0, 0, 79, .ok, 0, 0, 0, 3, 32⟩),
        (2, 1000), (0, 0)) := by
    decide +kernel
  have hf : ((mountVolume [] 0 >>= fun _ => twoOpen) (registeredOn twoClusters)).map (fun r =>
      ((r.2.charSigned, readOnlyAt r.2.logical pairHome true,
        readOnlyAt r.2.logical pairHome false),
        ([⟨0, 0, 3⟩, ⟨32, 0, 3⟩] : List Pos).find?
        (Pos.fits r.2.logical (createName true {} [0x41]).2.1.fn),
        ([⟨0, 0, 3⟩, ⟨32, 0, 3⟩] : List Pos).find?
          (Pos.fits r.2.logical (createName true {} [0x42]).2.1.fn))) =
      some ((true, false, false), some ⟨0, 0, 3⟩, some ⟨32, 0, 3⟩) := by
    decide +kernel
  rw [hrun] at h hf
  simp only [Option.map_some, Option.some.injEq, Prod.mk.injEq] at h hf
  obtain ⟨⟨ha, hb⟩, ⟨hca, hsa⟩, hcb, hsb⟩ := h
  obtain ⟨⟨hsig, hroa, hrob⟩, hfa, hfb⟩ := hf
  have hname : ∀ i, ∃ d rest, createName true {} (pairPaths i) = (.ok, d, rest) ∧
      hasBits d.nsflag NS_LAST = true := by
    intro i
    refine ⟨(createName true {} (pairPaths i)).2.1, (createName true {} (pairPaths i)).2.2, ?_, ?_⟩
    · cases i <;> decide +kernel
    · cases i <;> decide +kernel
  -- both files are closed
  have hshadow : ∀ i, (FIL.shadow w.geo w.logical (pairHome i)).Holds w.geo w (pairChains i) ∧
      (pairHome i).sect = (pairFiles a b i).dirSect ∧
      (pairHome i).dptr % SS = (pairFiles a b i).dirPtr := by
    intro i
    have hsize : (FIL.shadow w.geo w.logical (pairHome i)).sclust = (pairFiles a b i).sclust ∧
        (FIL.shadow w.geo w.logical (pairHome i)).objsize = (pairFiles a b i).objsize := by
      rw [ha, hb]
      cases i with
      | true => exact ⟨hca, hsa⟩
      | false => exact ⟨hcb, hsb⟩
    have hh := ht.holds i
    refine ⟨.atStart ?_ ?_ rfl rfl rfl rfl, ?_, ?_⟩
    · rw [hsize.1, hsize.2]
      exact hh.file
    · rw [hsize.2]
      exact hh.size
    · rw [ha, hb]
      cases i <;> rfl
    · rw [ha, hb]
      cases i <;> rfl
  have hclosed : InTree w.geo w (standing w.geo w.logical pairHome fun _ => {}) pairChains := by
    have h₁ := ht.update (hshadow true).1 (hshadow true).2.1 (hshadow true).2.2 fun _ => ⟨rfl, rfl⟩
    have h₂ := h₁.update (hshadow false).1 (hshadow false).2.1 (hshadow false).2.2 fun _ =>
      ⟨rfl, rfl⟩
    convert h₂ using 1
    funext i
    cases i <;> rfl
  refine ⟨w, a, b, hrun, hg, ⟨hclosed, fun _ hf => absurd hf (by simp), fun i => ?_, hreg⟩,
    by rintro (_ | _) <;> assumption⟩
  rw [hsig]
  obtain ⟨d, rest, hn, hlast⟩ := hname i
  refine ⟨pairPaths i, by cases i <;> decide +kernel, 0, d.fn, _, ?_, htab, ?_⟩
  · have hdrop : (pairPaths i).dropWhile isSeparator = pairPaths i := by
      cases i <;> decide +kernel
    rw [hdrop]
    exact .last hn hlast
  · cases i with
    | true =>
      change createName true {} [0x41] = _ at hn
      rw [hn] at hfa
      exact hfa
    | false =>
      change createName true {} [0x42] = _ at hn
      rw [hn] at hfb
      exact hfb

/-! ## Runs -/

section
variable {ι : Type} [DecidableEq ι] {g : Geometry} (hg : g.Sound) {w : State} {home : ι → Pos}
  {paths : ι → List UInt8} {files : ι → FIL} {chains : ι → List Nat}

include hg

/-- Files that are opened, used and closed in any order keep their bytes from one opening to the
next: every run is a run on the shelf. -/
theorem runActs_refines (h : Shelved g w home paths files chains) {acts : List (ι × FileAct)}
    (hfits : ∀ a ∈ acts, a.2.Fits)
    (hord : Orderly (readOnlyAt w.logical home) (fun i => (files i).fs) acts) :
    Returns (runActs paths acts files) w fun r w' => ∃ chains',
      Shelved g w' home paths r.2 chains' ∧
      (shelf g w home files chains).Run (g.csize * SS) (readOnlyAt w.logical home) acts r.1
        (shelf g w' home r.2 chains') :=
  (h.run hg hfits hord).mono fun _ _ hpost => by
    obtain ⟨chains', hsh, hrun, -⟩ := hpost
    exact ⟨chains', hsh, hrun⟩

omit [DecidableEq ι] hg in
/-- The hypotheses are met by the two files: `A` is written and closed while `B` is open, and read
again. -/
theorem runActs_refines_pair : ∃ w a b, (mountVolume [] 0 >>= fun _ => twoOpen)
      (registeredOn twoClusters) = some ((a, b), w) ∧
    Returns (runActs pairPaths [(true, .open FA_WRITE), (false, .open FA_READ),
        (true, .op (.write [1, 2])), (true, .close), (true, .open FA_READ), (false, .close),
        (true, .op (.read 2))] fun _ => {}) w
      fun r w' => ∃ chains', Shelved w.geo w' pairHome pairPaths r.2 chains' ∧
        (shelf w.geo w pairHome (fun _ => {}) pairChains).Run (w.geo.csize * SS)
          (readOnlyAt w.logical pairHome) [(true, .open FA_WRITE), (false, .open FA_READ),
            (true, .op (.write [1, 2])), (true, .close), (true, .open FA_READ), (false, .close),
            (true, .op (.read 2))] r.1 (shelf w.geo w' pairHome r.2 chains') := by
  obtain ⟨w, a, b, hrun, hg, hsh, hro⟩ := twoOpen_shelved
  refine ⟨w, a, b, hrun, runActs_refines hg hsh ?_ ?_⟩
  · simp [FileAct.Fits, Op.Fits, W32, accessModes]
  · simp [Orderly, FileAct.after, hro]

/-- What was written to a file before it was closed is read when it is opened again by its path,
whatever is done with the other files in between. -/
theorem runActs_persists (h : Shelved g w home paths files chains) {i : ι}
    (hro : readOnlyAt w.logical home i = false) {m₁ m₂ : UInt8} (hm₁ : hasBits m₁ FA_WRITE = true)
    (hm₂ : hasBits m₂ FA_READ = true) {buff : List UInt8} {mid : List (ι × FileAct)}
    (hmid : ∀ a ∈ mid, a.1 ≠ i)
    (hfits : ∀ a ∈ (i, .open m₁) :: (i, .op (.write buff)) :: (i, .close) ::
      (mid ++ [(i, .open m₂), (i, .op (.read buff.length))]), a.2.Fits)
    (hord : Orderly (readOnlyAt w.logical home) (fun i => (files i).fs)
      ((i, .open m₁) :: (i, .op (.write buff)) :: (i, .close) ::
        (mid ++ [(i, .open m₂), (i, .op (.read buff.length))]))) :
    Returns (runActs paths ((i, .open m₁) :: (i, .op (.write buff)) :: (i, .close) ::
        (mid ++ [(i, .open m₂), (i, .op (.read buff.length))])) files) w fun r _ =>
      ∃ opened written closed rest last, r.1 = opened :: written :: closed :: rest ∧
        rest.getLast? = some last ∧ opened.res = .ok ∧ written.res = .ok ∧ closed.res = .ok ∧
        last.res = .ok ∧ buff.take written.count <+: last.data :=
  (h.run hg hfits hord).mono fun _ _ hpost => by
    obtain ⟨chains', -, hrun, -⟩ := hpost
    exact hrun.persists hro hm₁ hm₂ hmid

omit [DecidableEq ι] hg in
/-- The hypotheses are met by the two files. -/
theorem runActs_persists_pair : ∃ w a b, (mountVolume [] 0 >>= fun _ => twoOpen)
      (registeredOn twoClusters) = some ((a, b), w) ∧
    Returns (runActs pairPaths [(true, .open FA_WRITE), (true, .op (.write [1, 2])), (true, .close),
        (false, .open FA_WRITE), (false, .op (.write [3])), (true, .open FA_READ),
        (true, .op (.read 2))]
        fun _ => {}) w fun r _ =>
      ∃ opened written closed rest last, r.1 = opened :: written :: closed :: rest ∧
        rest.getLast? = some last ∧ opened.res = .ok ∧ written.res = .ok ∧ closed.res = .ok ∧
        last.res = .ok ∧ [1, 2].take written.count <+: last.data := by
  obtain ⟨w, a, b, hrun, hg, hsh, hro⟩ := twoOpen_shelved
  have hmid : ∀ a ∈ [(false, FileAct.open FA_WRITE), (false, .op (.write [3]))],
      a.1 ≠ true := by simp
  have hm₁ : hasBits FA_WRITE FA_WRITE = true := by decide
  have hm₂ : hasBits FA_READ FA_READ = true := by decide
  have hfits : ∀ a ∈ (true, .open FA_WRITE) :: (true, .op (.write [1, 2])) :: (true, .close) ::
      ([(false, FileAct.open FA_WRITE), (false, .op (.write [3]))] ++ [(true, .open FA_READ),
        (true, .op (.read [1, 2].length))]), a.2.Fits := by
    simp [FileAct.Fits, Op.Fits, W32, accessModes]
  have hord : Orderly (readOnlyAt w.logical pairHome) (fun _ => false)
      ((true, .open FA_WRITE) :: (true, .op (.write [1, 2])) :: (true, .close) ::
        ([(false, FileAct.open FA_WRITE), (false, .op (.write [3]))] ++
          [(true, .open FA_READ), (true, .op (.read [1, 2].length))])) := by
    simp [Orderly, FileAct.after, hro]
  have hback := runActs_persists hg hsh (hro true) hm₁ hm₂ hmid hfits hord
  simp only [List.cons_append, List.nil_append, List.length_cons, List.length_nil, Nat.zero_add,
    Nat.reduceAdd] at hback
  exact ⟨w, a, b, hrun, hback⟩

end

end FatFs
