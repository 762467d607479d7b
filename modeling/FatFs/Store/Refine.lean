import FatFs.Path.Names
import FatFs.Store.Sync
import FatFs.Store.Volume

/-!
# Files open at once

`OpenFiles` is the invariant of a family of open files on one volume: their chains do not meet, and
no chain and no free cluster holds the directory entry of one of them. Every call on one of the
files keeps it, and acts on its file as `Doc.Does` says while the other files stay as they are. So a
run of calls in any order is a run of the abstract volume.
-/

namespace FatFs

open Run Splice

/-- The call `op` on the file object. Source: `f_read`, `f_write`, `f_lseek`, `f_truncate` and
`f_sync` (`ff.c:3929`, `ff.c:4029`, `ff.c:4448`, `ff.c:4927`, `ff.c:4150`). -/
def FIL.call (fp : FIL) : Op → M (Reply × FIL)
  | .read btr => do
    let (res, fp, data) ← fRead fp btr
    return ({ res, data }, fp)
  | .write buff => do
    let (res, fp, count) ← fWrite fp buff
    return ({ res, count }, fp)
  | .lseek ofs => do
    let (res, fp) ← fLseek fp ofs
    return ({ res }, fp)
  | .truncate => do
    let (res, fp) ← fTruncate fp
    return ({ res }, fp)
  | .sync => do
    let (res, fp) ← fSync fp
    return ({ res }, fp)

/-- A run of calls on file objects. -/
def runCalls {ι : Type} [DecidableEq ι] : List (ι × Op) → (ι → FIL) → M (List Reply × (ι → FIL))
  | [], files => return ([], files)
  | (i, op) :: calls, files => do
    let (r, fp) ← (files i).call op
    let (replies, files) ← runCalls calls (Function.update files i fp)
    return (r :: replies, files)

/-- The open file that a file object stands for. -/
def FIL.doc (g : Geometry) (L : Nat → Sector) (fp : FIL) (cs : List Nat) : Doc :=
  { bytes := g.content L cs fp.objsize
    pos := fp.fptr
    canRead := hasBits fp.flag FA_READ
    canWrite := hasBits fp.flag FA_WRITE }

/-- What a call on a file does: it is a call on the abstract file, and what it touches is its
own. -/
structure Called (g : Geometry) (w : State) (fp : FIL) (cs : List Nat) (op : Op) (r : Reply × FIL)
    (w' : State) (cs' : List Nat) : Prop where
  touches : Touches g w fp cs w' cs'
  holds : r.2.Holds g w' cs'
  dirSect : r.2.dirSect = fp.dirSect
  dirPtr : r.2.dirPtr = fp.dirPtr
  does : (fp.doc g w.logical cs).Does (g.csize * SS) (g.free w.logical) op r.1
    (r.2.doc g w'.logical cs')
  /-- A file that is not marked as modified after the call is as before, and its directory entry is
  up to date if it was marked. -/
  record : hasBits r.2.flag FA_MODIFIED = false →
    r.2.sclust = fp.sclust ∧ r.2.objsize = fp.objsize ∧ (hasBits fp.flag FA_MODIFIED = true →
      w'.logical fp.dirSect = syncEntry g (w.logical fp.dirSect) fp.dirPtr fp)

section
variable {g : Geometry} {w w' : State} {fp : FIL} {cs cs' : List Nat}

/-- The mark of a modified file does not change the modes. -/
theorem hasBits_modified {m : UInt8} (hm : m = FA_READ ∨ m = FA_WRITE) (f : UInt8) :
    hasBits (f ||| FA_MODIFIED) m = hasBits f m ∧ hasBits (f &&& ~~~FA_MODIFIED) m =
    hasBits f m := by
  rcases hm with rfl | rfl
  · exact forall_byte (P := fun f => hasBits (f ||| FA_MODIFIED) FA_READ = hasBits f FA_READ ∧
      hasBits (f &&& ~~~FA_MODIFIED) FA_READ = hasBits f FA_READ) (by decide +kernel) f
  · exact forall_byte (P := fun f => hasBits (f ||| FA_MODIFIED) FA_WRITE = hasBits f FA_WRITE ∧
      hasBits (f &&& ~~~FA_MODIFIED) FA_WRITE = hasBits f FA_WRITE) (by decide +kernel) f

theorem hasBits_mark (f : UInt8) : hasBits (f ||| FA_MODIFIED) FA_MODIFIED = true :=
  forall_byte (P := fun f => hasBits (f ||| FA_MODIFIED) FA_MODIFIED = true) (by decide +kernel) f

/-- File objects with the same bytes, cursor and modes stand for the same file. -/
theorem FIL.doc_eq (fp : FIL) (L : Nat → Sector) (cs : List Nat) {L' : Nat → Sector} {fp' : FIL}
    {bytes : List UInt8} {pos : Nat} (hb : g.content L' cs' fp'.objsize = bytes)
    (hp : fp'.fptr = pos) (hf : fp'.flag = fp.flag ∨ fp'.flag = fp.flag ||| FA_MODIFIED ∨
      fp'.flag = fp.flag &&& ~~~FA_MODIFIED) :
    fp'.doc g L' cs' = { fp.doc g L cs with bytes, pos } := by
  have hmode : ∀ m, m = FA_READ ∨ m = FA_WRITE → hasBits fp'.flag m = hasBits fp.flag m := by
    intro m hm
    rcases hf with h | h | h
    · rw [h]
    · rw [h]
      exact (hasBits_modified hm _).1
    · rw [h]
      exact (hasBits_modified hm _).2
  unfold FIL.doc
  rw [hb, hp, hmode _ (.inl rfl), hmode _ (.inr rfl)]

variable (hg : g.Sound)

include hg

/-- A chain covers its file. -/
theorem Geometry.Sound.le_clusters (n : Nat) : n ≤ g.clusters n * (g.csize * SS) := by
  have hb := hg.bcs_pos
  have h₁ := Nat.div_add_mod (n + g.csize * SS - 1) (g.csize * SS)
  have h₂ := Nat.mod_lt (n + g.csize * SS - 1) hb
  unfold Geometry.clusters
  rw [Nat.mul_comm]
  omega

omit hg in
/-- The room of a file. -/
theorem FIL.Holds.room (h : fp.Holds g w cs) : (fp.doc g w.logical cs).room (g.csize * SS)
    (g.free w.logical) = (cs.length + g.free w.logical) * (g.csize * SS) := by
  unfold Doc.room FIL.doc
  simp only
  rw [Geometry.content_length, h.file.length]
  rfl

omit hg in
/-- A call that the modes do not allow changes nothing. -/
theorem Called.denied {op : Op} {r : Reply} (hs : Stable g w) (h : fp.Holds g w cs)
    (hdo : (fp.doc g w.logical cs).Does (g.csize * SS) (g.free w.logical) op r
      (fp.doc g w.logical cs)) :
    Called g w fp cs op (r, fp) w cs :=
  ⟨(Grows.refl hs cs).touches _, h, rfl, rfl, hdo, fun hf => ⟨rfl, rfl, fun ht =>
    absurd (hf.symm.trans ht) (by decide)⟩⟩

/-- `f_read` as a call. -/
theorem fRead_called (hs : Stable g w) (h : fp.Holds g w cs) (btr : Nat) :
    Returns (fp.call (.read btr)) w fun r w' => ∃ cs', Called g w fp cs (.read btr) r w' cs' := by
  rw [FIL.call, returns_bind]
  by_cases hr : hasBits fp.flag FA_READ = true
  · refine (fRead_store hg hs h hr btr).mono fun r w' hpost => returns_pure.2 ⟨cs, ?_⟩
    obtain ⟨res, fp', data⟩ := r
    obtain ⟨hres, hdata, hfptr, hm⟩ := hpost
    simp only at hres hdata hfptr hm
    subst hres
    have hcont : g.content w'.logical cs fp'.objsize = g.content w.logical cs fp.objsize := by
      rw [hm.objsize]
      exact hg.content_congr (Nat.le_of_eq h.file.length.symm) fun c hc s hin =>
        hm.same s (hin.inArea hg (h.file.clust c hc)).not_inFat2
    refine ⟨(hm.grows hg).touches _, hm.holds, hm.dirSect, hm.dirPtr, ?_, fun hf => ⟨?_, hm.objsize,
      fun ht => ?_⟩⟩
    · rw [fp.doc_eq w.logical cs hcont hfptr (.inl hm.flag), hdata]
      exact .read hr
    · exact hm.holds.file.start.trans h.file.start.symm
    · rw [show fp'.flag = fp.flag from hm.flag] at hf
      exact absurd (hf.symm.trans ht) (by decide)
  · have hno : hasBits fp.flag FA_READ = false := by simpa using hr
    refine ⟨(.denied, fp, []), w, ?_, returns_pure.2 ⟨cs, .denied hs h (.noRead hno)⟩⟩
    rw [fRead, bind_apply_of_some (validate_holds hg hs h), if_neg fun hne => hne rfl,
      if_neg fun hne => hne h.err, if_pos (by rw [hno]; rfl)]
    rfl

/-- `f_write` as a call. -/
theorem fWrite_called (hs : Stable g w) (h : fp.Holds g w cs) {buff : List UInt8}
    (hbuff : buff.length < W32) :
    Returns (fp.call (.write buff)) w fun r w' => ∃ cs',
    Called g w fp cs (.write buff) r w' cs' := by
  rw [FIL.call, returns_bind]
  by_cases hr : hasBits fp.flag FA_WRITE = true
  · refine (fWrite_store hg hs h hr hbuff).mono fun r w' hpost => returns_pure.2 ?_
    obtain ⟨res, fp', n⟩ := r
    obtain ⟨cs', hres, hcount, hw, hflag, hshort⟩ := hpost
    simp only at hres hcount hw hflag hshort
    subst hres
    have ht := hw.grows.touches fp
    have hholds := hw.holds
    have hfptr := hw.fptr
    have hsize := hw.objsize
    have hlen : (buff.take n).length = n := by rw [List.length_take]; omega
    rw [hlen] at hfptr hsize
    simp only at hfptr hsize
    -- how many bytes there was room for
    have hn : (fp.doc g w.logical cs).stores (g.csize * SS) (g.free w.logical) buff = n := by
      have hfree := ht.free h.file.toIsChain hholds.file.toIsChain
      have hlim := hholds.size
      have hcov := hg.le_clusters fp'.objsize
      have hchain : cs'.length = g.clusters fp'.objsize := hholds.file.length
      have hle : cs'.length * (g.csize * SS) ≤ (cs.length + g.free w.logical) * (g.csize * SS) :=
        Nat.mul_le_mul_right _ (by omega)
      unfold Doc.stores
      rw [h.room]
      simp only [FIL.doc, W32] at hlim ⊢
      rw [← hchain] at hcov
      rcases Nat.lt_or_ge n buff.length with hlt | hge
      · rcases hshort hlt with hmax | hroom
        · omega
        · have hz := Geometry.free_eq_zero_iff.2 hroom.noFree
          have hall : cs'.length = cs.length + g.free w.logical := by omega
          have hlast := hroom.last
          rw [hall] at hlast
          omega
      · omega
    refine ⟨cs', ht, ⟨hholds.file, hholds.size, hholds.fs, hholds.id, hholds.err, hholds.inside,
      hholds.clust, hholds.sect⟩, hw.dirSect, hw.dirPtr, ?_, fun hf => ?_⟩
    · have hcont := hw.content
      simp only at hcont ⊢
      rw [fp.doc_eq w.logical cs hcont hfptr (.inr (.inl hflag)), ← hn]
      exact .write hr
    · simp only at hf
      rw [hflag, hasBits_mark] at hf
      cases hf
  · have hno : hasBits fp.flag FA_WRITE = false := by simpa using hr
    refine ⟨(.denied, fp, 0), w, ?_, returns_pure.2 ⟨cs, .denied hs h (.noWrite hno)⟩⟩
    rw [fWrite, bind_apply_of_some (validate_holds hg hs h), if_neg fun hne => hne rfl,
      if_neg fun hne => hne h.err, if_pos (by rw [hno]; rfl)]
    rfl

/-- `f_lseek` as a call. -/
theorem fLseek_called (hs : Stable g w) (h : fp.Holds g w cs) {ofs : Nat} (hofs : ofs < W32) :
    Returns (fp.call (.lseek ofs)) w fun r w' => ∃ cs', Called g w fp cs (.lseek ofs) r w' cs' := by
  rw [FIL.call, returns_bind]
  refine (fLseek_store hg hs h hofs).mono fun r w' hpost => returns_pure.2 ?_
  obtain ⟨res, fp'⟩ := r
  obtain ⟨cs', hd⟩ := hpost
  have hres := hd.res
  simp only at hres
  subst hres
  have ht := hd.grows.touches fp
  have hholds := hd.holds
  have hsize := hd.objsize
  have hcont := hd.content
  have hfptr := hd.fptr
  have hflag := hd.flag
  simp only at hholds hsize hcont hfptr hflag
  have hpos : fp'.fptr = (fp.doc g w.logical cs).seeks (g.csize * SS) (g.free w.logical) ofs := by
    have hfree := ht.free h.file.toIsChain hholds.file.toIsChain
    have hcov := hg.le_clusters fp'.objsize
    have hcov₀ := hg.le_clusters fp.objsize
    have hchain : cs'.length = g.clusters fp'.objsize := hholds.file.length
    have hle : cs'.length * (g.csize * SS) ≤ (cs.length + g.free w.logical) * (g.csize * SS) :=
      Nat.mul_le_mul_right _ (by omega)
    rw [← hchain] at hcov
    rw [← h.file.length] at hcov₀
    unfold Doc.seeks
    rw [h.room]
    simp only [FIL.doc, Geometry.content_length]
    unfold FIL.target at hfptr
    have hroom : fp'.fptr = cs'.length * (g.csize * SS) → g.NoFree w'.logical →
        fp'.fptr = (cs.length + g.free w.logical) * (g.csize * SS) := fun hlast hno => by
      have hz := Geometry.free_eq_zero_iff.2 hno
      have hall : cs'.length = cs.length + g.free w.logical := by omega
      rw [hlast, hall]
    by_cases hwr : hasBits fp.flag FA_WRITE = true
    · rw [hwr, if_neg (by simp)] at hfptr
      rw [if_pos hwr]
      rcases hfptr with he | ⟨hlt, hge, hlast, hno⟩
      · omega
      · have := hroom hlast hno
        omega
    · have hno : hasBits fp.flag FA_WRITE = false := by simpa using hwr
      rw [if_neg hwr]
      rw [hno] at hfptr
      split at hfptr
      · rename_i hlt
        have := hlt.1
        rcases hfptr with he | ⟨hlt', hge, _, _⟩
        · omega
        · omega
      · rename_i hle'
        have hin : ofs ≤ fp.objsize := by
          by_contra hgt
          exact hle' ⟨Nat.lt_of_not_le hgt, rfl⟩
        rcases hfptr with he | ⟨hlt', hge, _, _⟩
        · omega
        · omega
  refine ⟨cs', ht, hholds, hd.dirSect, hd.dirPtr, ?_, fun hf => ?_⟩
  rotate_left
  · -- without a mark the file has not grown
    simp only at hf
    rw [hflag] at hf
    split at hf
    · rw [hasBits_mark] at hf
      cases hf
    · rename_i hle
      have hsame : fp'.objsize = fp.objsize := by omega
      have hcs : cs = cs' := by
        refine hd.grows.pre.eq_of_length ?_
        rw [h.file.length, hholds.file.length, hsame]
      refine ⟨?_, hsame, fun ht => absurd (hf.symm.trans ht) (by decide)⟩
      have hstart := hholds.file.start
      rw [← hcs] at hstart
      exact hstart.trans h.file.start.symm
  have hdoc : fp'.doc g w'.logical cs' = { fp.doc g w.logical cs with
      bytes := g.content w'.logical cs' fp'.objsize
      pos := (fp.doc g w.logical cs).seeks (g.csize * SS) (g.free w.logical) ofs } := by
    refine fp.doc_eq w.logical cs rfl hpos ?_
    rw [hflag]
    split
    · exact .inr (.inl rfl)
    · exact .inl rfl
  simp only
  rw [hdoc]
  refine .lseek ?_ ?_
  · rw [Geometry.content_length, hsize, hpos]
    simp only [FIL.doc, Geometry.content_length]
  · simp only [FIL.doc, Geometry.content_length]
    exact hcont

/-- `f_truncate` as a call. -/
theorem fTruncate_called (hs : Stable g w) (h : fp.Holds g w cs) :
    Returns (fp.call .truncate) w fun r w' => ∃ cs', Called g w fp cs .truncate r w' cs' := by
  rw [FIL.call, returns_bind]
  by_cases hr : hasBits fp.flag FA_WRITE = true
  · refine (fTruncate_store hg hs h hr).mono fun r w' hpost => returns_pure.2 ?_
    obtain ⟨res, fp'⟩ := r
    obtain ⟨cs', hd⟩ := hpost
    have hres := hd.res
    simp only at hres
    subst hres
    have hcont : g.content w'.logical cs' fp'.objsize =
        (g.content w.logical cs fp.objsize).take fp.fptr := by
      rw [show fp'.objsize = fp.fptr from hd.objsize]
      exact hd.content
    refine ⟨cs', hd.touches, hd.holds, hd.dirSect, hd.dirPtr, ?_, fun hf => ?_⟩
    rotate_left
    · by_cases hlt : fp.fptr < fp.objsize
      · rw [hd.flag, if_pos hlt, hasBits_mark] at hf
        cases hf
      · rw [hd.same hlt] at hf ⊢
        exact ⟨rfl, rfl, fun ht => absurd (hf.symm.trans ht) (by decide)⟩
    simp only
    rw [fp.doc_eq w.logical cs hcont hd.fptr (by
      rw [hd.flag]
      split
      · exact .inr (.inl rfl)
      · exact .inl rfl)]
    exact .truncate hr
  · have hno : hasBits fp.flag FA_WRITE = false := by simpa using hr
    refine ⟨(.denied, fp), w, ?_, returns_pure.2 ⟨cs, .denied hs h (.noTruncate hno)⟩⟩
    rw [fTruncate, bind_apply_of_some (validate_holds hg hs h), if_neg fun hne => hne rfl,
      if_neg fun hne => hne h.err, if_pos (by rw [hno]; rfl)]
    rfl

/-- `f_sync` as a call. -/
theorem fSync_called (hs : Stable g w) (h : fp.Holds g w cs) (hdir : g.InArea fp.dirSect)
    (hout : ∀ c ∈ cs, ¬g.InClust c fp.dirSect) :
    Returns (fp.call .sync) w fun r w' => ∃ cs', Called g w fp cs .sync r w' cs' := by
  rw [FIL.call, returns_bind]
  refine (fSync_store hg hs h hdir).mono fun r w' hpost => returns_pure.2 ⟨cs, ?_⟩
  obtain ⟨res, fp'⟩ := r
  have hres := hpost.res
  have hfil := hpost.fil
  simp only at hres hfil
  subst hres
  have ht := hpost.touches hg cs
  have hcont : g.content w'.logical cs fp.objsize = g.content w.logical cs fp.objsize :=
    hg.content_congr (Nat.le_of_eq h.file.length.symm) fun c hc s hin =>
      hpost.data s (hin.inArea hg (h.file.clust c hc)) fun he => hout c hc (by rw [← he]; exact hin)
  have hholds : fp.Holds g w' cs :=
    h.congr fun c hc => hg.entry_congr hpost.fat (h.file.clust c hc).2
  have hflag : fp' = { fp with flag := fp'.flag } ∧
      (fp'.flag = fp.flag ∨ fp'.flag = fp.flag ||| FA_MODIFIED ∨
        fp'.flag = fp.flag &&& ~~~FA_MODIFIED) := by
    rw [hfil]
    split
    · exact ⟨rfl, .inr (.inr rfl)⟩
    · exact ⟨rfl, .inl rfl⟩
  obtain ⟨hfp, hflag⟩ := hflag
  refine ⟨ht, ?_, by rw [hfp], by rw [hfp], ?_, fun _ => ⟨by rw [hfp], by rw [hfp], fun hm => ?_⟩⟩
  · rw [hfp]
    exact ⟨hholds.file, hholds.size, hholds.fs, hholds.id, hholds.err, hholds.inside, hholds.clust,
      hholds.sect⟩
  · have hdoc : fp'.doc g w'.logical cs = fp.doc g w.logical cs :=
      fp.doc_eq w.logical cs (by rw [hfp]; exact hcont) (by rw [hfp]) hflag
    simp only
    rw [hdoc]
    exact .sync
  · rw [hpost.entry, if_pos hm]

/-- Every call is a call on the abstract file. -/
theorem FIL.call_called (hs : Stable g w) (h : fp.Holds g w cs) (hdir : g.InArea fp.dirSect)
    (hout : ∀ c ∈ cs, ¬g.InClust c fp.dirSect) {op : Op} (hop : op.Fits) :
    Returns (fp.call op) w fun r w' => ∃ cs', Called g w fp cs op r w' cs' := by
  cases op with
  | read btr => exact fRead_called hg hs h btr
  | write buff => exact fWrite_called hg hs h hop
  | lseek ofs => exact fLseek_called hg hs h hop
  | truncate => exact fTruncate_called hg hs h
  | sync => exact fSync_called hg hs h hdir hout

end

/-! ## The family of open files -/

/-- The files are open on the volume. Their chains do not meet; and the sectors of their directory
entries are in no file that is open and in no free cluster. -/
structure OpenFiles {ι : Type} (g : Geometry) (w : State) (files : ι → FIL)
    (chains : ι → List Nat) :
    Prop where
  stable : Stable g w
  holds : ∀ i, (files i).Holds g w (chains i)
  apart : ∀ i j, i ≠ j → (chains i).Disjoint (chains j)
  area : ∀ i, g.InArea (files i).dirSect
  outside : ∀ i j, ∀ c ∈ chains j, ¬g.InClust c (files i).dirSect
  used : ∀ i c, g.IsClust c → g.InClust c (files i).dirSect → g.entry w.logical c ≠ 0

/-- The abstract volume of the open files. -/
def volume {ι : Type} (g : Geometry) (w : State) (files : ι → FIL) (chains : ι → List Nat) :
    Volume ι :=
  { docs := fun i => (files i).doc g w.logical (chains i)
    free := g.free w.logical }

/-- A cluster in use that is of none of the open files. -/
structure Foreign {ι : Type} (g : Geometry) (L : Nat → Sector) (chains : ι → List Nat) (c : Nat) :
    Prop where
  clust : g.IsClust c
  used : g.entry L c ≠ 0
  out : ∀ i, c ∉ chains i

/-- The sector `s` after updates of directory entries of the open files. -/
inductive Updated {ι : Type} (g : Geometry) (files : ι → FIL) (s : Nat) (t : Sector) : Sector → Prop
  | refl : Updated g files s t t
  | sync {t'} (i : ι) (fp : FIL) : Updated g files s t t' → (files i).dirSect = s →
      fp.dirPtr = (files i).dirPtr → Updated g files s t (syncEntry g t' fp.dirPtr fp)

/-- The clusters in use that are of none of the open files stay so and keep their entries. In their
sectors and in those of the root directory only directory entries of the files are updated. -/
structure Spares {ι : Type} (g : Geometry) (w : State) (files : ι → FIL) (chains : ι → List Nat)
    (w' : State) (chains' : ι → List Nat) : Prop where
  foreign : ∀ c, Foreign g w.logical chains c → Foreign g w'.logical chains' c
  entry : ∀ c, Foreign g w.logical chains c → g.entry w'.logical c = g.entry w.logical c
  data : ∀ s, g.InArea s → (∀ c, g.IsClust c → g.InClust c s → Foreign g w.logical chains c) →
    Updated g files s (w.logical s) (w'.logical s)

/-- A run of calls on file objects, call by call. -/
inductive Trace {ι : Type} [DecidableEq ι] (g : Geometry) : State → (ι → FIL) → (ι → List Nat) →
    List (ι × Op) → List Reply → State → (ι → FIL) → (ι → List Nat) → Prop
  | nil {w files chains} : Trace g w files chains [] [] w files chains
  | cons {w w₁ w₂ files files₂ chains chains₂ i op r cs' calls replies} :
      Called g w (files i) (chains i) op r w₁ cs' →
      Trace g w₁ (Function.update files i r.2) (Function.update chains i cs') calls replies
        w₂ files₂
        chains₂ →
      Trace g w files chains ((i, op) :: calls) (r.1 :: replies) w₂ files₂ chains₂

section
variable {ι : Type} [DecidableEq ι] {g : Geometry} {w w' w₂ : State} {files files' : ι → FIL}
  {chains chains' chains₂ : ι → List Nat} {i : ι} {op : Op} {r : Reply × FIL} {cs' : List Nat}

omit [DecidableEq ι] in
theorem Updated.trans {s : Nat} {t t₁ t₂ : Sector} (h : Updated g files s t t₁)
    (hdir : ∀ i, (files' i).dirSect = (files i).dirSect)
    (hptr : ∀ i, (files' i).dirPtr = (files i).dirPtr)
    (h' : Updated g files' s t₁ t₂) : Updated g files s t t₂ := by
  induction h' with
  | refl => exact h
  | sync i fp _ hs hp ih => exact .sync i fp ih ((hdir i).symm.trans hs) (hp.trans (hptr i))

omit [DecidableEq ι] in
/-- A sector without directory entries of the files stays. -/
theorem Updated.eq {s : Nat} {t t' : Sector} (h : Updated g files s t t')
    (hne : ∀ i, (files i).dirSect ≠ s) : t' = t := by
  cases h with
  | refl => rfl
  | sync i fp _ hs _ => exact absurd hs (hne i)

omit [DecidableEq ι] in
theorem Spares.refl : Spares g w files chains w chains :=
  ⟨fun _ h => h, fun _ _ => rfl, fun _ _ _ => .refl⟩

omit [DecidableEq ι] in
theorem Spares.trans (h : Spares g w files chains w' chains')
    (hdir : ∀ i, (files' i).dirSect = (files i).dirSect)
    (hptr : ∀ i, (files' i).dirPtr = (files i).dirPtr)
    (h' : Spares g w' files' chains' w₂ chains₂) : Spares g w files chains w₂ chains₂ := by
  refine ⟨fun c hc => h'.foreign c (h.foreign c hc), fun c hc => ?_, fun s hs hout => ?_⟩
  · rw [h'.entry c (h.foreign c hc), h.entry c hc]
  · exact (h.data s hs hout).trans hdir hptr
      (h'.data s hs fun c hcl hin => h.foreign c (hout c hcl hin))

/-- A call leaves the directory entries where they are. -/
theorem Called.place (hc : Called g w (files i) (chains i) op r w' cs') (j : ι) :
    (Function.update files i r.2 j).dirSect = (files j).dirSect ∧
      (Function.update files i r.2 j).dirPtr = (files j).dirPtr := by
  by_cases hj : j = i
  · subst hj
    rw [Function.update_self]
    exact ⟨hc.dirSect, hc.dirPtr⟩
  · rw [Function.update_of_ne hj]
    exact ⟨rfl, rfl⟩

/-- A call on one of the files spares the clusters of none. -/
theorem Called.spares (hc : Called g w (files i) (chains i) op r w' cs') :
    Spares g w files chains w' (Function.update chains i cs') := by
  have ht := hc.touches
  have hentry : ∀ c, Foreign g w.logical chains c → g.entry w'.logical c = g.entry w.logical c :=
    fun c hf => ht.entry_used hf.clust hf.used (hf.out i)
  refine ⟨fun c hf => ⟨hf.clust, by rw [hentry c hf]; exact hf.used, fun j hm => ?_⟩, hentry,
    fun s hs hout => ?_⟩
  · by_cases hj : j = i
    · subst hj
      rw [Function.update_self] at hm
      exact ht.not_mem hf.used (hf.out j) hm
    · rw [Function.update_of_ne hj] at hm
      exact hf.out j hm
  · have hn : ∀ c ∈ cs', ¬g.InClust c s := fun c hm hin => by
      have hf := hout c (hc.holds.file.clust c hm) hin
      exact ht.not_mem hf.used (hf.out i) hm
    rcases ht.data s hs hn with he | ⟨rfl, he⟩
    · rw [he]
      exact .refl
    · rw [he]
      exact .sync i (files i) .refl rfl rfl

variable (hg : g.Sound)

include hg

/-- A call on one of the files keeps the invariant, and is a step of the abstract volume. -/
theorem OpenFiles.called (h : OpenFiles g w files chains)
    (hc : Called g w (files i) (chains i) op r w' cs') :
    OpenFiles g w' (Function.update files i r.2) (Function.update chains i cs') ∧
      (volume g w files chains).Step (g.csize * SS) i op r.1
        (volume g w' (Function.update files i r.2) (Function.update chains i cs')) := by
  have ht := hc.touches
  have hcl' := hc.holds.file.clust
  have hdir := fun j => (hc.place j).1
  have hother : ∀ j, j ≠ i → (chains j).Disjoint cs' := fun j hj =>
    ht.disjoint (h.holds j).file.toIsChain (h.apart j i hj)
  -- the sectors of directory entries are not in clusters that the file gains
  have hout : ∀ j, ∀ c ∈ cs', ¬g.InClust c (files j).dirSect := by
    intro j c hm hin
    by_cases hold : c ∈ chains i
    · exact h.outside j i c hold hin
    · exact h.used j c (hcl' c hm) hin (ht.came c hm hold).2
  refine ⟨⟨ht.stable, fun j => ?_, fun j k hjk => ?_, fun j => ?_, fun j k c hm => ?_,
    fun j c hcl hin => ?_⟩, ?_⟩
  · by_cases hj : j = i
    · subst hj
      rw [Function.update_self, Function.update_self]
      exact hc.holds
    · rw [Function.update_of_ne hj, Function.update_of_ne hj]
      refine (h.holds j).congr fun c hm => ?_
      have hch := (h.holds j).file.toIsChain
      exact ht.entry_used (hch.clust c hm) (hch.used hm) fun hmi => h.apart j i hj hm hmi
  · by_cases hj : j = i
    · subst hj
      rw [Function.update_self, Function.update_of_ne (Ne.symm hjk)]
      exact (hother k (Ne.symm hjk)).symm
    · rw [Function.update_of_ne hj]
      by_cases hk : k = i
      · subst hk
        rw [Function.update_self]
        exact hother j hj
      · rw [Function.update_of_ne hk]
        exact h.apart j k hjk
  · rw [hdir]
    exact h.area j
  · rw [hdir]
    by_cases hk : k = i
    · subst hk
      rw [Function.update_self] at hm
      exact hout j c hm
    · rw [Function.update_of_ne hk] at hm
      exact h.outside j k c hm
  · rw [hdir] at hin
    rw [ht.entry_used hcl (h.used j c hcl hin) fun hm => h.outside j i c hm hin]
    exact h.used j c hcl hin
  · have hdocs : (volume g w' (Function.update files i r.2) (Function.update chains i cs')).docs =
        Function.update (volume g w files chains).docs i (r.2.doc g w'.logical cs') := by
      funext j
      by_cases hj : j = i
      · subst hj
        simp only [volume, Function.update_self]
      · simp only [volume, Function.update_of_ne hj]
        unfold FIL.doc
        have hh := h.holds j
        rw [ht.content hg hcl' hh.file.toIsChain (h.apart j i hj) (h.outside i j)
          (Nat.le_of_eq hh.file.length.symm)]
    have hfree := ht.free (h.holds i).file.toIsChain hc.holds.file.toIsChain
    have hstep := Volume.Step.call (v := volume g w files chains) hc.does (by
      simp only [volume, FIL.doc, Geometry.content_length]
      rw [hc.holds.file.length, (h.holds i).file.length] at hfree
      exact hfree)
    rw [← hdocs] at hstep
    exact hstep

/-- A run of calls in any order. -/
theorem OpenFiles.trace (h : OpenFiles g w files chains) {calls : List (ι × Op)}
    (hfits : ∀ c ∈ calls, c.2.Fits) :
    Returns (runCalls calls files) w fun r w' => ∃ chains',
      Trace g w files chains calls r.1 w' r.2 chains' := by
  induction calls generalizing w files chains with
  | nil => exact returns_pure.2 ⟨chains, .nil⟩
  | cons call calls ih =>
    obtain ⟨i, op⟩ := call
    rw [runCalls, returns_bind]
    refine ((files i).call_called hg h.stable (h.holds i) (h.area i) (h.outside i i)
      (hfits _ List.mem_cons_self)).mono fun r w₁ hpost => ?_
    obtain ⟨cs', hc⟩ := hpost
    rw [returns_bind]
    refine (ih (h.called hg hc).1 fun c hm => hfits c (List.mem_cons_of_mem _ hm)).mono
      fun rs w₂ hpost => ?_
    obtain ⟨chains₂, ht⟩ := hpost
    exact returns_pure.2 ⟨chains₂, .cons hc ht⟩

section
variable {calls : List (ι × Op)} {replies : List Reply}
  (ht : Trace g w files chains calls replies w' files' chains')

include ht

/-- A run of calls keeps the invariant and is a run of the abstract volume. -/
theorem Trace.refines (h : OpenFiles g w files chains) : OpenFiles g w' files' chains' ∧
    (volume g w files chains).Run (g.csize * SS) calls replies (volume g w' files' chains') := by
  induction ht with
  | nil => exact ⟨h, .nil _⟩
  | cons hc _ ih =>
    obtain ⟨h₁, hstep⟩ := h.called hg hc
    obtain ⟨h₂, hrun⟩ := ih h₁
    exact ⟨h₂, .cons hstep hrun⟩

omit hg in
/-- A run of calls spares the clusters of none of the files. -/
theorem Trace.spares : Spares g w files chains w' chains' := by
  induction ht with
  | nil => exact .refl
  | cons hc _ ih => exact hc.spares.trans (fun j => (hc.place j).1) (fun j => (hc.place j).2) ih

end

end

end FatFs
