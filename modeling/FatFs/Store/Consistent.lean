import FatFs.Store.Acts

/-!
# Consistent volumes

A volume is consistent when its root directory, its files and its sub-directories have chains that
end with an end mark, no two of them share a cluster, and every other cluster is free
(`Consistent`). The tables of its directories can then be walked through (`Consistent.browsable`),
and files that are not open and that paths lead to are on a shelf (`Consistent.shelved`).
-/

namespace FatFs

open Run

variable {g : Geometry} {L : Nat → Sector} {p q : Pos}

/-! ## Tables on chains -/

/-- A table is there from a place on when the walk from it keeps a property of the places at which
it fails at the end of the table only. -/
theorem Table.ofWalk {P : Pos → Prop}
    (hnext : ∀ {p q}, P p → p.next g L = .ok q → P q)
    (hend : ∀ {p e}, P p → p.next g L = .error e → e = .noFile) (hp : P p) :
    ∃ ps, Table g L p ps := by
  -- by the room that is left up to the size limit
  induction hn : MAX_DIR - p.dptr using Nat.strong_induction_on generalizing p with
  | _ n ih =>
  by_cases h0 : p.head L = 0
  · exact ⟨[], .terminator h0⟩
  cases hq : p.next g L with
  | error e =>
    obtain rfl := hend hp hq
    exact ⟨[p], .last h0 hq⟩
  | ok q =>
    obtain ⟨hd, hlt⟩ := Pos.next_dptr hq
    obtain ⟨ps, ht⟩ := ih (MAX_DIR - q.dptr) (by simp only [SZDIRE] at *; omega) (hnext hp hq) rfl
    exact ⟨p :: ps, .entry h0 hq ht⟩

/-- The place is in the cluster of the chain `cs` that its offset tells. -/
structure Pos.OnChain (g : Geometry) (cs : List Nat) (p : Pos) : Prop where
  slot : p.dptr % SZDIRE = 0
  clust : cs[p.dptr / SS / g.csize]? = some p.clust

section
variable {start : Nat} {cs : List Nat} (hch : IsChain g L start cs)

include hch

/-- A cluster of a chain is followed by the next one, or it is the last one. -/
theorem IsChain.link {k c : Nat} (hk : cs[k]? = some c) :
    cs[k + 1]? = some (g.link L c) ∨ g.nFatent ≤ g.link L c := by
  have hc := hch.clust c (List.mem_of_getElem? hk)
  rw [g.link_of_clust L hc]
  rcases Nat.lt_or_ge (k + 1) cs.length with hlt | hge
  · have hn := List.getElem?_eq_getElem hlt
    rw [hn, hch.chain.link k c _ hk hn]
    exact .inl rfl
  · have hlt := (List.getElem?_eq_some_iff.1 hk).1
    exact .inr (hch.chain.last k c hk (by omega))

/-- The places of a table stay on its chain. -/
theorem Pos.OnChain.next (h : p.OnChain g cs) (hn : p.next g L = .ok q) : q.OnChain g cs := by
  have hslot := h.slot
  have hc := hch.clust _ (List.mem_of_getElem? h.clust)
  have hd := (Pos.next_dptr hn).1
  have hal : q.dptr % SZDIRE = 0 := by
    rw [hd, Nat.add_mod_right, hslot]
  refine ⟨hal, ?_⟩
  rw [hd]
  unfold Pos.next at hn
  rw [if_neg (Nat.not_le_of_lt (Pos.next_dptr hn).2)] at hn
  split at hn
  · rename_i hsec
    -- the next sector, of the same cluster or of the next one
    have hs : (p.dptr + SZDIRE) / SS = p.dptr / SS + 1 := by
      simp only [SZDIRE, SS] at *
      omega
    rw [if_neg (by have := hc.1; omega), hs] at hn
    rw [hs, Nat.succ_div]
    split at hn
    · rename_i hmod
      rw [if_pos (Nat.dvd_of_mod_eq_zero hmod)]
      split at hn
      · cases hn
      split at hn
      · cases hn
      · rename_i hlt
        cases hn
        exact (hch.link h.clust).resolve_right hlt
    · rename_i hmod
      cases hn
      rw [if_neg fun hd => hmod (Nat.mod_eq_zero_of_dvd hd)]
      exact h.clust
  · rename_i hsec
    cases hn
    have hs : (p.dptr + SZDIRE) / SS = p.dptr / SS := by
      simp only [SZDIRE, SS] at *
      omega
    rw [hs]
    exact h.clust

/-- The walk through a table on a chain ends at the end of the table. -/
theorem Pos.OnChain.error {e : FRESULT} (h : p.OnChain g cs) (hn : p.next g L = .error e) :
    e = .noFile := by
  have hc := hch.clust _ (List.mem_of_getElem? h.clust)
  have h2 := hc.1
  have hlt := hc.2
  unfold Pos.next at hn
  split at hn
  · cases hn
    rfl
  · split at hn
    · rw [if_neg (by omega)] at hn
      split at hn
      · have hl : 1 < g.link L p.clust := by
          rcases hch.link h.clust with hk | hge
          · exact (hch.clust _ (List.mem_of_getElem? hk)).1
          · omega
        rw [if_neg (by omega)] at hn
        split at hn
        · cases hn
          rfl
        · cases hn
      · cases hn
    · cases hn

end

/-- The walk through the static root table ends at the end of the table. -/
theorem Pos.error_static {e : FRESULT} (hc : p.clust = 0) (hn : p.next g L = .error e) :
    e = .noFile := by
  unfold Pos.next at hn
  rw [if_pos hc] at hn
  split at hn
  · cases hn
    rfl
  · split at hn
    · split at hn
      · cases hn
        rfl
      · cases hn
    · cases hn

/-! ## Consistent volumes -/

/-- An entry of a directory of the tree. -/
def InTable (g : Geometry) (L : Nat → Sector) (p : Pos) : Prop :=
  ∃ c ps, IsDir g L c ∧ Table g L (g.dirStart c) ps ∧ p ∈ ps

/-- The entry is that of a file. -/
def Pos.isFile (L : Nat → Sector) (p : Pos) : Bool :=
  p.head L != DDEM && !hasBits (p.attr L) AM_VOL && !hasBits (p.attr L) AM_DIR

/-- The size in the entry. -/
def Pos.size (L : Nat → Sector) (p : Pos) : Nat := ldDword (L p.sect) (p.dptr % SS + DIR_FileSize)

/-- The chain of the root directory of a FAT32 volume (`none`), or of the file or sub-directory with
the entry. -/
inductive Owns (g : Geometry) (L : Nat → Sector) : Option Pos → List Nat → Prop
  | root {cs : List Nat} : g.fsType = .fat32 → IsChain g L g.dirbase cs → cs ≠ [] →
      Owns g L none cs
  | file {p : Pos} {cs : List Nat} : InTable g L p → p.isFile L = true →
      IsFile g L (p.clst g L) (p.size L) cs → Owns g L (some p) cs
  | dir {p : Pos} {cs : List Nat} : InTable g L p → p.isSubdir L = true →
      IsChain g L (p.clst g L) cs → cs ≠ [] → Owns g L (some p) cs

/-- The volume is consistent: the root directory, the files and the sub-directories have chains that
end with an end mark, no two of them share a cluster, and every other cluster is free. -/
structure Consistent (g : Geometry) (L : Nat → Sector) : Prop where
  root : g.fsType = .fat32 → ∃ cs, Owns g L none cs
  file : ∀ p, InTable g L p → p.isFile L = true → ∃ cs, Owns g L (some p) cs
  dir : ∀ p, InTable g L p → p.isSubdir L = true → ∃ cs, Owns g L (some p) cs
  apart : ∀ o o' cs cs', Owns g L o cs → Owns g L o' cs' → o ≠ o' → cs.Disjoint cs'
  free : ∀ e, g.IsClust e → (∀ o cs, Owns g L o cs → e ∉ cs) → g.entry L e = 0

/-- The entry of a file is not the entry of a directory. -/
theorem Pos.isFile.not_subdir (h : p.isFile L = true) : p.isSubdir L ≠ true := by
  unfold Pos.isFile at h
  unfold Pos.isSubdir
  intro hs
  simp only [Bool.and_eq_true, Bool.not_eq_true'] at h hs
  rw [h.2] at hs
  cases hs.2

/-- The clusters that are owned are clusters of a chain. -/
theorem Owns.chain {o : Option Pos} {cs : List Nat} (h : Owns g L o cs) :
    ∃ start, IsChain g L start cs := by
  cases h with
  | root _ hc => exact ⟨_, hc⟩
  | file _ _ hf => exact ⟨_, hf.toIsChain⟩
  | dir _ _ hc => exact ⟨_, hc⟩

/-- An owner has one chain. -/
theorem Owns.unique {o : Option Pos} {cs cs' : List Nat} (h : Owns g L o cs)
    (h' : Owns g L o cs') : cs = cs' := by
  cases h with
  | root _ hc =>
    cases h' with
    | root _ hc' => exact hc.unique hc'
  | file _ hf hc =>
    cases h' with
    | file _ _ hc' => exact hc.toIsChain.unique hc'.toIsChain
    | dir _ hs => exact absurd hs (Pos.isFile.not_subdir hf)
  | dir _ hs hc =>
    cases h' with
    | file _ hf => exact absurd hs (Pos.isFile.not_subdir hf)
    | dir _ _ hc' => exact hc.unique hc'

namespace Consistent

variable (h : Consistent g L)

include h

/-- The first cluster of the table of a directory of the tree has a chain of its own, unless the
table is static. -/
theorem tableChain {c : Nat} (hc : IsDir g L c) :
    (c = 0 ∧ g.fsType ≠ .fat32) ∨
    ∃ o cs, Owns g L o cs ∧ IsChain g L (g.tableClust c) cs ∧ cs ≠ [] ∧
      ∀ p, p.isFile L = true → o ≠ some p := by
  cases hc with
  | root =>
    by_cases hf : g.fsType = .fat32
    · obtain ⟨cs, ho⟩ := h.root hf
      refine .inr ⟨none, cs, ho, ?_⟩
      cases ho with
      | root _ hch hne =>
        rw [Geometry.tableClust, if_pos ⟨rfl, hf⟩]
        exact ⟨hch, hne, fun p _ he => by cases he⟩
    · exact .inl ⟨rfl, hf⟩
  | @sub c ps p hc ht hp hsub =>
    obtain ⟨cs, ho⟩ := h.dir p ⟨c, ps, hc, ht, hp⟩ hsub
    refine .inr ⟨some p, cs, ho, ?_⟩
    have hne : ∀ q, q.isFile L = true → some p ≠ some q := fun q hq he => by
      cases he
      exact Pos.isFile.not_subdir hq hsub
    cases ho with
    | file _ hfile => exact absurd hsub (Pos.isFile.not_subdir hfile)
    | dir _ _ hch hcs =>
      rw [Geometry.tableClust, if_neg fun h0 => hcs (hch.nil_iff.2 h0.1)]
      exact ⟨hch, hcs, hne⟩

omit h in
/-- The static root table is in no cluster. -/
theorem dirStart_static (hf : g.fsType ≠ .fat32) : (g.dirStart 0).clust = 0 := by
  have h0 : g.tableClust 0 = 0 := if_neg fun h => hf h.2
  unfold Geometry.dirStart
  rw [if_pos h0]

omit h in
/-- The first place of a table on a chain. -/
theorem dirStart_onChain {c : Nat} {cs : List Nat} (hch : IsChain g L (g.tableClust c) cs)
    (hne : cs ≠ []) : (g.dirStart c).OnChain g cs := by
  have h0 : g.tableClust c ≠ 0 := fun h0 => hne (hch.nil_iff.2 h0)
  unfold Geometry.dirStart
  rw [if_neg h0]
  refine ⟨rfl, ?_⟩
  simp only [Nat.zero_div]
  exact hch.head h0

omit h in
/-- The places of a table on a chain are on it. -/
theorem along_onChain {start : Nat} {cs : List Nat} (hch : IsChain g L start cs)
    (ha : Along g L p q) (hp : p.OnChain g cs) : q.OnChain g cs := by
  induction ha with
  | refl => exact hp
  | next hn _ ih => exact ih (hp.next hch hn)

/-- The tables of the directories can be walked through. -/
theorem browsable : Browsable g L := by
  intro c hc
  rcases h.tableChain hc with ⟨rfl, hf⟩ | ⟨o, cs, -, hch, hne, -⟩
  · exact ⟨.inl ⟨rfl, fun h => absurd h hf⟩, Table.ofWalk (P := fun p => p.clust = 0)
      (fun hp hn => (Along.next hn .refl).clust_zero hp) (fun hp hn => Pos.error_static hp hn)
      (dirStart_static hf)⟩
  · have hcl : g.IsClust (g.tableClust c) := by
      refine hch.clust _ (List.mem_of_getElem? (hch.head fun h0 => ?_))
      exact hne (hch.nil_iff.2 h0)
    refine ⟨?_, Table.ofWalk (fun hp hn => hp.next hch hn) (fun hp hn => hp.error hch hn)
      (dirStart_onChain hch hne)⟩
    by_cases h0 : c = 0
    · refine .inl ⟨h0, fun hf => ?_⟩
      rw [Geometry.tableClust, if_pos ⟨h0, hf⟩] at hcl
      exact hcl
    · rw [Geometry.tableClust, if_neg fun hn => h0 hn.1] at hcl
      exact .inr hcl

/-- A place of a directory is in the static root table, or in a cluster of the chain of a
directory. -/
theorem dirClust (hp : DirPlace g L p) :
    p.clust = 0 ∨ ∃ o cs, Owns g L o cs ∧ p.clust ∈ cs ∧ ∀ q, q.isFile L = true → o ≠ some q := by
  obtain ⟨c, hc, ha⟩ := hp
  rcases h.tableChain hc with ⟨rfl, hf⟩ | ⟨o, cs, ho, hch, hne, hfile⟩
  · exact .inl (ha.clust_zero (dirStart_static hf))
  · have hon := along_onChain hch ha (dirStart_onChain hch hne)
    exact .inr ⟨o, cs, ho, List.mem_of_getElem? hon.clust, hfile⟩

end Consistent

/-! ## Volumes without sub-directories -/

/-- In a tree without sub-directories the entries are those of the root directory. -/
theorem InTable.root {ps : List Pos} (ht : Table g L (g.dirStart 0) ps)
    (hno : ∀ p ∈ ps, p.isSubdir L = false) (h : InTable g L p) : p ∈ ps := by
  have hroot : ∀ c, IsDir g L c → c = 0 := fun c hc => by
    induction hc with
    | root => rfl
    | sub _ ht' hp hsub ih =>
      subst ih
      obtain rfl := ht'.unique ht
      exact absurd ((hno _ hp).symm.trans hsub) Bool.false_ne_true
  obtain ⟨c, qs, hc, hqs, hp⟩ := h
  obtain rfl := hroot c hc
  obtain rfl := ht.unique hqs
  exact hp

/-- The paths lead to files of the volume that may be written to, with a directory entry each. -/
structure FilesAt {ι : Type} (g : Geometry) (w : State) (home : ι → Pos) (paths : ι → List UInt8) :
    Prop where
  path : ∀ i, ∃ rest, getLdnumber w.charSigned (paths i) = (true, rest) ∧
    PathTo g w.logical w.charSigned rest (home i)
  file : ∀ i, (home i).isFile w.logical = true
  writable : ∀ i, hasBits ((home i).attr w.logical) AM_RDO = false
  distinct : ∀ i j, i ≠ j → (home i).sect = (home j).sect →
    (home i).dptr % SS ≠ (home j).dptr % SS

/-- A path leads to an entry of a table of the tree. -/
theorem PathTo.inTable {signed : Bool} {path : List UInt8} (h : PathTo g L signed path q) :
    InTable g L q := by
  obtain ⟨par, fn, ps, hl, ht, hf⟩ := h
  exact ⟨par, ps, hl.isDir .root, ht, List.mem_of_find?_eq_some hf⟩

section
variable (hg : g.Sound) {ι : Type} {w : State} {home : ι → Pos} {paths : ι → List UInt8}
  {files : ι → FIL} {chains : ι → List Nat}

include hg

/-- The files of a consistent volume that are not open are on a shelf. -/
theorem Consistent.shelved (h : Consistent g w.logical) (hs : Stable g w)
    (hreg : w.registered = true) (hf : FilesAt g w home paths)
    (hclosed : ∀ i, (files i).fs = false)
    (hch : ∀ i, IsFile g w.logical ((home i).clst g w.logical) ((home i).size w.logical)
      (chains i)) :
    Shelved g w home paths files chains := by
  have hst : standing g w.logical home files = fun i => .shadow g w.logical (home i) :=
    funext fun i => standing_closed (hclosed i)
  have htab : ∀ i, InTable g w.logical (home i) := fun i => by
    obtain ⟨rest, -, hto⟩ := hf.path i
    exact hto.inTable
  have hplace : ∀ i, DirPlace g w.logical (home i) := fun i => by
    obtain ⟨rest, -, hto⟩ := hf.path i
    exact hto.dirPlace
  have howns : ∀ i, Owns g w.logical (some (home i)) (chains i) := fun i =>
    .file (htab i) (hf.file i) (hch i)
  -- the clusters of directories are in use and of no file
  have hdirs : ∀ p, DirPlace g w.logical p → p.clust = 0 ∨
      Foreign g w.logical chains p.clust := fun p hp => by
    rcases h.dirClust hp with h0 | ⟨o, cs, ho, hm, hno⟩
    · exact .inl h0
    · obtain ⟨start, hc⟩ := ho.chain
      exact .inr ⟨hc.clust _ hm, hc.used hm, fun i hi =>
        h.apart _ _ _ _ ho (howns i) (hno _ (hf.file i)) hm hi⟩
  have hinside : ∀ i, (home i).Inside g := fun i => by
    obtain ⟨c, hc, ha⟩ := hplace i
    exact ha.inside_dir hg hs.dev.on hs.dev.inv hs.dev.good (h.browsable c hc).1
  have hforeign : ∀ i c, g.IsClust c → g.InClust c (home i).sect →
      Foreign g w.logical chains c := by
    intro i c hc hin
    obtain ⟨hcl, rfl⟩ := (hinside i).clust_eq hg hc hin
    rcases hdirs _ (hplace i) with h0 | hfo
    · have := hcl.1
      omega
    · exact hfo
  have hopen : OpenFiles g w (fun i => .shadow g w.logical (home i)) chains := {
    stable := hs
    holds := fun i => .atStart (hch i) ldDword_lt rfl rfl rfl rfl
    apart := fun i j hij => h.apart _ _ _ _ (howns i) (howns j) fun he => by
      have := Option.some_inj.1 he
      exact hf.distinct i j hij (by rw [this]) (by rw [this])
    area := fun i => (hinside i).inArea hg
    outside := fun i j c hm hin => (hforeign i c ((hch j).clust c hm) hin).out j hm
    used := fun i c hc hin => (hforeign i c hc hin).used }
  refine ⟨?_, fun i ho => absurd ((hclosed i).symm.trans ho) Bool.false_ne_true, hf.path, hreg⟩
  rw [hst]
  exact {
    toOpenFiles := hopen
    browsable := h.browsable
    dirs := hdirs
    slot := fun i => (hplace i).aligned
    plain := fun i => by
      have := hf.file i
      unfold Pos.isFile at this
      simp only [Bool.and_eq_true, Bool.not_eq_true'] at this
      exact this.2
    distinct := hf.distinct
    record := fun i _ => ⟨rfl, rfl⟩ }

end

end FatFs
