import FatFs.Dir.Slots
import FatFs.Store.Entry
import FatFs.Store.Runs

/-!
# The directory tree beside open files

The calls on open files update directory entries, but never a name, an attribute that a lookup asks
for or the start cluster of a directory (`SameTree`). So every path leads to the same place before
and after a run of such calls. The directories of the tree are kept apart from the clusters of the
files by `InTree`.
-/

namespace FatFs

open Run

/-! ## Trees with the same names -/

/-- At the place `p` both contents have the same name, the same attributes but for the archive bit,
the same link and, for a directory, the same start cluster. -/
structure SameNames (g : Geometry) (L L' : Nat → Sector) (p : Pos) : Prop where
  name : p.name L' = p.name L
  vol : hasBits (p.attr L') AM_VOL = hasBits (p.attr L) AM_VOL
  dir : hasBits (p.attr L') AM_DIR = hasBits (p.attr L) AM_DIR
  rdo : hasBits (p.attr L') AM_RDO = hasBits (p.attr L) AM_RDO
  clst : hasBits (p.attr L) AM_DIR = true → p.clst g L' = p.clst g L
  link : g.link L' p.clust = g.link L p.clust

/-- A place in a directory of the tree. -/
def DirPlace (g : Geometry) (L : Nat → Sector) (p : Pos) : Prop :=
  ∃ c, IsDir g L c ∧ Along g L (g.dirStart c) p

/-- The directories of the tree hold the same names in both contents. -/
def SameTree (g : Geometry) (L L' : Nat → Sector) : Prop := ∀ p, DirPlace g L p → SameNames g L L' p

section
variable {g : Geometry} {L L' : Nat → Sector} {p q : Pos} {ps : List Pos}

/-- The first bytes of the entries are the same. -/
theorem SameNames.head (h : SameNames g L L' p) : p.head L' = p.head L := by
  rw [← Pos.name_head, h.name, Pos.name_head]

/-- The entries match the same names. -/
theorem SameNames.fits (h : SameNames g L L' p) (fn : List UInt8) : p.fits L' fn = p.fits L fn := by
  unfold Pos.fits
  rw [h.name, h.vol]

/-- The entries of sub-directories are the same. -/
theorem SameNames.isSubdir (h : SameNames g L L' p) : p.isSubdir L' = p.isSubdir L := by
  unfold Pos.isSubdir
  rw [h.head, h.vol, h.dir]

/-- The entries of a table are places of its directory. -/
theorem Table.along (h : Table g L p ps) (hq : q ∈ ps) : Along g L p q := by
  induction h with
  | terminator => cases hq
  | last =>
    rw [List.mem_singleton.1 hq]
    exact .refl
  | entry _ hn _ ih =>
    rcases List.mem_cons.1 hq with rfl | hq
    · exact .refl
    · exact .next hn (ih hq)

/-- A table in contents with the same names. -/
theorem Table.sameNames (h : Table g L p ps) (hs : ∀ q, Along g L p q → SameNames g L L' q) :
    Table g L' p ps := by
  induction h with
  | terminator h0 => exact .terminator (by rwa [(hs _ .refl).head])
  | last hne hn =>
    exact .last (by rwa [(hs _ .refl).head]) (by rwa [Pos.next_congr (hs _ .refl).link])
  | entry hne hn _ ih =>
    exact .entry (by rwa [(hs _ .refl).head]) (by rwa [Pos.next_congr (hs _ .refl).link])
      (ih fun q hq => hs q (.next hn hq))

/-- A search in a table finds the same place. -/
theorem find_sameNames (hs : ∀ q ∈ ps, SameNames g L L' q) (fn : List UInt8) :
    ps.find? (Pos.fits L' fn) = ps.find? (Pos.fits L fn) := by
  induction ps with
  | nil => rfl
  | cons p ps ih =>
    rw [List.find?_cons, List.find?_cons, (hs p List.mem_cons_self).fits,
      ih fun q hq => hs q (List.mem_cons_of_mem _ hq)]

variable (h : SameTree g L L')

include h

/-- The entries of a directory of the tree have the same names. -/
theorem SameTree.along {c : Nat} (hc : IsDir g L c) : ∀ q, Along g L (g.dirStart c) q →
    SameNames g L L' q := fun q hq => h q ⟨c, hc, hq⟩

/-- The tables of the directories are the same. -/
theorem SameTree.table {c : Nat} (hc : IsDir g L c) (ht : Table g L (g.dirStart c) ps) :
    Table g L' (g.dirStart c) ps := ht.sameNames (h.along hc)

/-- A name is found at the same place. -/
theorem SameTree.find {c : Nat} (hc : IsDir g L c) (ht : Table g L (g.dirStart c) ps)
    (fn : List UInt8) :
    ps.find? (Pos.fits L' fn) = ps.find? (Pos.fits L fn) :=
  find_sameNames (fun q hq => h.along hc q (ht.along hq)) fn

/-- The directories of the tree are the same. -/
theorem SameTree.isDir {c : Nat} (hc : IsDir g L c) : IsDir g L' c := by
  induction hc with
  | root => exact .root
  | @sub c ps p hc ht hp hsub ih =>
    have hs := h.along hc p (ht.along hp)
    have hdir : hasBits (p.attr L) AM_DIR = true := by
      unfold Pos.isSubdir at hsub
      rw [Bool.and_eq_true] at hsub
      exact hsub.2
    rw [← hs.clst hdir]
    exact .sub ih (h.table hc ht) hp (by rw [hs.isSubdir]; exact hsub)

/-- The trees have the same directories. -/
theorem SameTree.isDir_iff (hb : Browsable g L) {c : Nat} : IsDir g L' c ↔ IsDir g L c := by
  refine ⟨fun hc => ?_, h.isDir⟩
  induction hc with
  | root => exact .root
  | @sub c ps p _ ht hp hsub ih =>
    obtain ⟨-, qs, hqs⟩ := hb c ih
    obtain rfl := ht.unique (h.table ih hqs)
    have hs := h.along ih p (hqs.along hp)
    rw [hs.isSubdir] at hsub
    have hdir : hasBits (p.attr L) AM_DIR = true := by
      unfold Pos.isSubdir at hsub
      rw [Bool.and_eq_true] at hsub
      exact hsub.2
    rw [hs.clst hdir]
    exact .sub ih hqs hp hsub

/-- The tables of the directories can still be walked through. -/
theorem SameTree.browsable (hb : Browsable g L) : Browsable g L' := by
  intro c hc
  have hc' := (h.isDir_iff hb).1 hc
  obtain ⟨hstart, ps, ht⟩ := hb c hc'
  exact ⟨hstart, ps, h.table hc' ht⟩

/-- A path leads to the same directory and name. -/
theorem SameTree.leads {signed : Bool} {c par : Nat} {path fn : List UInt8}
    (hl : Leads g L signed c path par fn) (hc : IsDir g L c) : Leads g L' signed c path par fn := by
  induction hl with
  | last hn hlast => exact .last hn hlast
  | @into c par path rest fn d ps p hn hlast ht hf hdir _ ih =>
    have hp := List.mem_of_find?_eq_some hf
    have hs := h.along hc p (ht.along hp)
    have hsub := Pos.isSubdir_of_find hn hf hdir
    have hnext := ih (.sub hc ht hp hsub)
    rw [← hs.clst hdir] at hnext
    exact .into hn hlast (h.table hc ht) (by rw [h.find hc ht]; exact hf)
      (by rw [hs.dir]; exact hdir) hnext

end

/-! ## The directories of the tree and the open files -/

/-- The open files are files of the directory tree. The clusters of directories are in use and of no
open file, every file has an entry of its own that is not the entry of a directory, and the entries
tell where the files are that are not marked as modified. -/
structure InTree {ι : Type} (g : Geometry) (w : State) (files : ι → FIL) (chains : ι → List Nat) :
    Prop
    extends OpenFiles g w files chains where
  browsable : Browsable g w.logical
  dirs : ∀ p, DirPlace g w.logical p → p.clust = 0 ∨ Foreign g w.logical chains p.clust
  slot : ∀ i, (files i).dirPtr % SZDIRE = 0
  plain : ∀ i, hasBits (w.logical (files i).dirSect ((files i).dirPtr + DIR_Attr)) AM_DIR = false
  distinct : ∀ i j, i ≠ j → (files i).dirSect = (files j).dirSect → (files i).dirPtr ≠
    (files j).dirPtr
  record : ∀ i, hasBits (files i).flag FA_MODIFIED = false → Recorded g w.logical (files i)

section
variable {g : Geometry} {L L' : Nat → Sector} {p q : Pos}

/-- The places of a table are at the boundaries of entries. -/
theorem Along.aligned (h : Along g L p q) (hp : p.dptr % SZDIRE = 0) : q.dptr % SZDIRE = 0 := by
  induction h with
  | refl => exact hp
  | next hn _ ih =>
    refine ih ?_
    rw [(Pos.next_dptr hn).1, Nat.add_mod_right, hp]

/-- The places of the tree are at the boundaries of entries. -/
theorem DirPlace.aligned (h : DirPlace g L p) : p.dptr % SS % SZDIRE = 0 := by
  obtain ⟨c, -, ha⟩ := h
  have hz : (g.dirStart c).dptr = 0 := by
    unfold Geometry.dirStart
    split <;> rfl
  have hal := ha.aligned (by rw [hz]; rfl)
  simp only [SZDIRE, SS] at *
  omega

/-- A place of the table is one before the change too. -/
theorem Along.sameNames (h : Along g L' p q) (hs : ∀ r, Along g L p r → SameNames g L L' r) :
    Along g L p q := by
  induction h with
  | refl => exact .refl
  | next hn _ ih =>
    rw [Pos.next_congr (hs _ .refl).link] at hn
    exact .next hn (ih fun r hr => hs r (.next hn hr))

/-- The trees have the same places. -/
theorem SameTree.dirPlace (h : SameTree g L L') (hb : Browsable g L) (hp : DirPlace g L' p) :
    DirPlace g L p := by
  obtain ⟨c, hc, ha⟩ := hp
  have hc' := (h.isDir_iff hb).1 hc
  exact ⟨c, hc', ha.sameNames (h.along hc')⟩

/-- Two volumes with the same tree, the other way round. -/
theorem SameTree.symm (h : SameTree g L L') (hb : Browsable g L) : SameTree g L' L := by
  intro p hp
  have hs := h p (h.dirPlace hb hp)
  exact ⟨hs.name.symm, hs.vol.symm, hs.dir.symm, hs.rdo.symm, fun hd =>
    (hs.clst (hs.dir ▸ hd)).symm, hs.link.symm⟩

variable (hg : g.Sound)

include hg

/-- A place in the static root table or in a cluster is in the sectors that a table may use. -/
theorem Pos.Inside.inArea (h : p.Inside g) : g.InArea p.sect := by
  rcases h with ⟨-, hlo, hhi⟩ | ⟨hc, k, hk, he⟩
  · exact ⟨hlo, by omega⟩
  · rw [he]
    exact hg.inArea_clst hc hk

/-- The cluster of a place. -/
theorem Pos.Inside.clust_eq (h : p.Inside g) {c : Nat} (hc : g.IsClust c)
    (hin : g.InClust c p.sect) :
    g.IsClust p.clust ∧ c = p.clust := by
  rcases h with ⟨-, -, hhi⟩ | ⟨hp, k, hk, he⟩
  · have hlo := hin.1
    rw [hg.clst2sect_eq hc] at hlo
    omega
  · exact ⟨hp, hin.unique hg hc hp ⟨by omega, by omega⟩⟩

end

section
variable {ι : Type} {g : Geometry} (hg : g.Sound) {w w' : State} {files files' : ι → FIL}
  {chains chains' : ι → List Nat} {i : ι} {op : Op} {r : Reply × FIL} {cs' : List Nat} {p : Pos}

/-- The sectors with the entries of the files are only updated. -/
theorem OpenFiles.updated (h : OpenFiles g w files chains)
    (hsp : Spares g w files chains w' chains')
    (i : ι) : Updated g files (files i).dirSect (w.logical (files i).dirSect)
      (w'.logical (files i).dirSect) :=
  hsp.data _ (h.area i) fun c hc hin => ⟨hc, h.used i c hc hin, fun j hm => h.outside i j c hm hin⟩

include hg

/-- The places of the tree are in the root directory or the data area. -/
theorem InTree.inside (h : InTree g w files chains) (hp : DirPlace g w.logical p) : p.Inside g := by
  obtain ⟨c, hc, ha⟩ := hp
  exact ha.inside_dir hg h.stable.dev.on h.stable.dev.inv h.stable.dev.good (h.browsable c hc).1

/-- The sectors of directories are only updated. -/
theorem InTree.updated_dir (h : InTree g w files chains) (hsp : Spares g w files chains w' chains')
    (hp : DirPlace g w.logical p) :
    Updated g files p.sect (w.logical p.sect) (w'.logical p.sect) := by
  have hin := h.inside hg hp
  refine hsp.data _ (hin.inArea hg) fun c hc hs => ?_
  obtain ⟨hcl, rfl⟩ := hin.clust_eq hg hc hs
  rcases h.dirs p hp with h0 | hf
  · have := hcl.1
    omega
  · exact hf

/-- What spares the clusters of none of the files leaves the tree as it is. -/
theorem InTree.sameTree (h : InTree g w files chains) (hsp : Spares g w files chains w' chains') :
    SameTree g w.logical w'.logical := by
  intro p hp
  have hu := h.updated_dir hg hsp hp
  have hal := hp.aligned
  refine ⟨?_, hu.attr h.slot hal (by decide), hu.attr h.slot hal (by decide),
    hu.attr h.slot hal (by decide), fun hdir => ?_, ?_⟩
  · unfold Pos.name Sector.bytes
    refine List.map_congr_left fun k hk => ?_
    exact hu.name h.slot hal (List.mem_range.1 hk)
  · -- the entry of a directory is the entry of no file
    refine ldClust_congr fun k hk => hu.slot h.slot hal (fun i hs hp' => ?_) hk
    have hplain := h.plain i
    rw [hs, hp'] at hplain
    exact absurd (hdir.symm.trans hplain) (by decide)
  · rcases h.dirs p hp with h0 | hf
    · rw [h0]
      unfold Geometry.link
      rw [if_neg (by omega), if_neg (by omega)]
    · rw [g.link_of_clust _ hf.clust, g.link_of_clust _ hf.clust]
      exact hsp.entry _ hf

variable [DecidableEq ι]

/-- The entry of a file that is not marked as modified after a call. -/
theorem InTree.recorded (h : InTree g w files chains)
    (hc : Called g w (files i) (chains i) op r w' cs') (hf : hasBits r.2.flag FA_MODIFIED = false) :
    Recorded g w'.logical r.2 := by
  obtain ⟨hstart, hsize, hsync⟩ := hc.record hf
  have hfile : Recorded g w'.logical (files i) := by
    cases hm : hasBits (files i).flag FA_MODIFIED with
    | true => exact (h.holds i).recorded hg (hsync hm)
    | false =>
      have hout : ∀ c ∈ cs', ¬g.InClust c (files i).dirSect := fun c hm' hin => by
        have ho := (h.toOpenFiles.called hg hc).1.outside i i c
          (by rw [Function.update_self]; exact hm')
        rw [Function.update_self, hc.dirSect] at ho
        exact ho hin
      rcases hc.touches.data _ (h.area i) hout with he | ⟨-, he⟩
      · exact (h.record i hm).congr fun k _ => by rw [he]
      · exact (h.holds i).recorded hg he
  refine ⟨?_, ?_⟩
  · rw [hc.dirSect, hc.dirPtr, hstart]
    exact hfile.clst
  · rw [hc.dirSect, hc.dirPtr, hsize]
    exact hfile.size

/-- A call keeps the entries of the other files. -/
theorem InTree.recorded_other (h : InTree g w files chains)
    (hc : Called g w (files i) (chains i) op r w' cs') {j : ι} (hj : j ≠ i)
    (hr : Recorded g w.logical (files j)) : Recorded g w'.logical (files j) := by
  have hout : ∀ c ∈ cs', ¬g.InClust c (files j).dirSect := fun c hm hin => by
    have ho := (h.toOpenFiles.called hg hc).1.outside j i c (by rw [Function.update_self]; exact hm)
    rw [Function.update_of_ne hj] at ho
    exact ho hin
  refine hr.congr fun k hk => ?_
  rcases hc.touches.data _ (h.area j) hout with he | ⟨hs, he⟩
  · rw [he]
  · rw [he]
    refine syncEntry_of_ne ?_
    rcases slot_eq_or_apart (h.slot i) (h.slot j) with hd | hl | hr'
    · exact absurd hd.symm (h.distinct j i hj hs)
    · exact .inr (by omega)
    · exact .inl (by omega)

/-- A call on one of the files keeps the tree. -/
theorem InTree.called (h : InTree g w files chains)
    (hc : Called g w (files i) (chains i) op r w' cs') :
    InTree g w' (Function.update files i r.2) (Function.update chains i cs') := by
  have hsp := hc.spares
  have hst := h.sameTree hg hsp
  have hplace := hc.place
  refine { toOpenFiles := (h.toOpenFiles.called hg hc).1, browsable := hst.browsable h.browsable,
           dirs := fun p hp => ?_, slot := fun j => ?_, plain := fun j => ?_,
           distinct := fun j k hjk => ?_, record := fun j hf => ?_ }
  · exact (h.dirs p (hst.dirPlace h.browsable hp)).imp_right (hsp.foreign _)
  · rw [(hplace j).2]
    exact h.slot j
  · rw [(hplace j).1, (hplace j).2,
      (h.toOpenFiles.updated hsp j).attr h.slot (h.slot j) (by decide)]
    exact h.plain j
  · rw [(hplace j).1, (hplace j).2, (hplace k).1, (hplace k).2]
    exact h.distinct j k hjk
  · by_cases hj : j = i
    · subst hj
      rw [Function.update_self] at hf ⊢
      exact h.recorded hg hc hf
    · rw [Function.update_of_ne hj] at hf ⊢
      exact h.recorded_other hg hc hj (h.record j hf)

/-- A run of calls keeps the tree. -/
theorem InTree.trace_tree (h : InTree g w files chains) {calls : List (ι × Op)}
    {replies : List Reply} (ht : Trace g w files chains calls replies w' files' chains') :
    InTree g w' files' chains' ∧ SameTree g w.logical w'.logical := by
  refine ⟨?_, h.sameTree hg ht.spares⟩
  induction ht with
  | nil => exact h
  | cons hc _ ih => exact ih (h.called hg hc)

end

end FatFs
