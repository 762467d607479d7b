import FatFs.Dir.Table
import FatFs.Path.Follow
import FatFs.Path.Names

/-!
# Paths through the directory tables

What a path means on the contents of a volume: the directories of the tree are those that the
entries of the tables lead to (`IsDir`), and a path leads to a directory of the tree and the name
that is looked for in its table (`Leads`). `follow_path` finds out exactly that
(`followPath_leads`), on every volume whose directories can be walked through (`Browsable`).
-/

namespace FatFs

open Run

/-- The first cluster of the table of the directory with the start cluster `c`: 0 is the root, whose
table is static unless the volume is FAT32. -/
def Geometry.tableClust (g : Geometry) (c : Nat) : Nat :=
  if c = 0 ∧ g.fsType = .fat32 then g.dirbase else c

/-- The place of the first entry of the directory with the start cluster `c`. -/
def Geometry.dirStart (g : Geometry) (c : Nat) : Pos :=
  if g.tableClust c = 0 then ⟨0, 0, g.dirbase⟩ else ⟨0, g.tableClust c,
    clst2sect g (g.tableClust c)⟩

/-- A start cluster that a directory can have. -/
def Geometry.IsStart (g : Geometry) (c : Nat) : Prop :=
  (c = 0 ∧ (g.fsType = .fat32 → g.IsClust g.dirbase)) ∨ g.IsClust c

namespace Pos

/-- The start cluster in the entry. -/
def clst (g : Geometry) (L : Nat → Sector) (p : Pos) : Nat := ldClust g (L p.sect) (p.dptr % SS)

/-- The entry is that of a sub-directory; the dot entries are not. -/
def isSubdir (L : Nat → Sector) (p : Pos) : Bool :=
  p.head L != DDEM && p.head L != 0x2E && !hasBits (p.attr L) AM_VOL && hasBits (p.attr L) AM_DIR

end Pos

/-- The directories of the tree, by their start clusters. -/
inductive IsDir (g : Geometry) (L : Nat → Sector) : Nat → Prop
  | root : IsDir g L 0
  | sub {c : Nat} {ps : List Pos} {p : Pos} : IsDir g L c → Table g L (g.dirStart c) ps → p ∈ ps →
      p.isSubdir L = true → IsDir g L (p.clst g L)

/-- The tables of all directories of the tree can be walked through to their ends. -/
def Browsable (g : Geometry) (L : Nat → Sector) : Prop :=
  ∀ c, IsDir g L c → g.IsStart c ∧ ∃ ps, Table g L (g.dirStart c) ps

/-- A path from the directory `c` leads to the directory `par`, where the name `fn` is looked
for. -/
inductive Leads (g : Geometry) (L : Nat → Sector) (signed : Bool) :
    Nat → List UInt8 → Nat → List UInt8 → Prop
  | last {c : Nat} {path rest : List UInt8} {d : DIR} : createName signed {} path = (.ok, d, rest) →
      hasBits d.nsflag NS_LAST = true → Leads g L signed c path c d.fn
  | into {c par : Nat} {path rest fn : List UInt8} {d : DIR} {ps : List Pos} {p : Pos} :
      createName signed {} path = (.ok, d, rest) → hasBits d.nsflag NS_LAST = false →
      Table g L (g.dirStart c) ps → ps.find? (Pos.fits L d.fn) = some p →
      hasBits (p.attr L) AM_DIR = true → Leads g L signed (p.clst g L) rest par fn →
      Leads g L signed c path par fn

/-- The table from a place on is determined. -/
theorem Table.unique {g : Geometry} {L : Nat → Sector} {p : Pos} {ps qs : List Pos}
    (h : Table g L p ps) (h' : Table g L p qs) : ps = qs := by
  induction h generalizing qs with
  | terminator h0 =>
    cases h' with
    | terminator => rfl
    | last hne => exact absurd h0 hne
    | entry hne => exact absurd h0 hne
  | last hne hn =>
    cases h' with
    | terminator h0 => exact absurd h0 hne
    | last => rfl
    | entry _ hn' =>
      rw [hn] at hn'
      cases hn'
  | entry hne hn _ ih =>
    cases h' with
    | terminator h0 => exact absurd h0 hne
    | last _ hn' =>
      rw [hn] at hn'
      cases hn'
    | entry _ hn' ht =>
      rw [hn] at hn'
      cases hn'
      rw [ih ht]

/-- A path leads to one directory and one name. -/
theorem Leads.unique {g : Geometry} {L : Nat → Sector} {signed : Bool} {c par par' : Nat}
    {path fn fn' : List UInt8} (h : Leads g L signed c path par fn)
    (h' : Leads g L signed c path par' fn') : par = par' ∧ fn = fn' := by
  induction h with
  | last hn hlast =>
    cases h' with
    | last hn' =>
      rw [hn] at hn'
      cases hn'
      exact ⟨rfl, rfl⟩
    | into hn' hlast' =>
      rw [hn] at hn'
      cases hn'
      rw [hlast] at hlast'
      cases hlast'
  | into hn hlast ht hf _ _ ih =>
    cases h' with
    | last hn' hlast' =>
      rw [hn] at hn'
      cases hn'
      rw [hlast] at hlast'
      cases hlast'
    | into hn' _ ht' hf' _ h' =>
      rw [hn] at hn'
      cases hn'
      rw [← ht.unique ht', hf] at hf'
      cases hf'
      exact ih h'

/-! ## Names -/

/-- Only the name and its status are set in the directory object. -/
theorem createName_object (signed : Bool) (dp : DIR) (path : List UInt8) :
    (createName signed dp path).1 = (createName signed {} path).1 ∧
    (createName signed dp path).2.2 = (createName signed {} path).2.2 ∧
    ((createName signed {} path).1 = .ok → (createName signed dp path).2.1 =
      { dp with fn := (createName signed {} path).2.1.fn
                nsflag := (createName signed {} path).2.1.nsflag }) := by
  unfold createName
  cases nameLoop path 0 8 (List.replicate 11 0x20) with
  | none => exact ⟨rfl, rfl, nofun⟩
  | some e =>
    dsimp only
    by_cases hi : e.i = 0
    · rw [if_pos hi, if_pos hi]
      exact ⟨rfl, rfl, nofun⟩
    · rw [if_neg hi, if_neg hi]
      exact ⟨rfl, rfl, fun _ => rfl⟩

/-- A name starts with a byte that is no mark, and not with a dot. -/
theorem createName_head {signed : Bool} {d : DIR} {path rest : List UInt8}
    (h : createName signed {} path = (.ok, d, rest)) :
    d.fn.headD 0 ≠ 0 ∧ d.fn.headD 0 ≠ DDEM ∧ d.fn.headD 0 ≠ 0x2E := by
  obtain ⟨h₁, h₂⟩ := createName_segment signed {} path
  have hok : (createName signed {} path).1 = .ok := by rw [h]
  have hfn := (h₂ (h₁.1 hok)).1
  rw [h] at hfn
  rw [hfn]
  exact shortName_head (path_segment path).1 (h₁.1 hok)

/-- A name is made of a path that starts with a byte of a name. -/
theorem createName_peek {signed : Bool} {d : DIR} {path rest : List UInt8}
    (h : createName signed {} path = (.ok, d, rest)) : ¬charUint signed (peek path) < 0x20 := by
  have hok : (createName signed {} path).1 = .ok := by rw [h]
  have hne := ((createName_segment signed {} path).1.1 hok).nonempty
  cases path with
  | nil => exact absurd rfl hne
  | cons c path =>
    have hc : inSegment c = true := by
      by_contra hc
      exact hne (List.takeWhile_cons_of_neg hc)
    rw [charUint_lt_space]
    intro hlt
    have hend := le_space_iff.1 (show c ≤ 0x20 from UInt8.le_of_lt hlt)
    rw [inSegment, hend, Bool.false_and] at hc
    cases hc

theorem Pos.name_head (L : Nat → Sector) (p : Pos) : (p.name L).headD 0 = p.head L := rfl

/-- The entry that a search for a name of a path finds is no dot entry and not deleted. -/
theorem Pos.isSubdir_of_find {signed : Bool} {d : DIR} {path rest : List UInt8} {L : Nat → Sector}
    {ps : List Pos} {p : Pos} (h : createName signed {} path = (.ok, d, rest))
    (hf : ps.find? (Pos.fits L d.fn) = some p) (hd : hasBits (p.attr L) AM_DIR = true) :
    p.isSubdir L = true := by
  have hfit := List.find?_some hf
  unfold Pos.fits at hfit
  rw [Bool.and_eq_true, beq_iff_eq] at hfit
  obtain ⟨-, h₁, h₂⟩ := createName_head h
  rw [← hfit.2, Pos.name_head] at h₁ h₂
  unfold Pos.isSubdir
  rw [hfit.1, hd]
  simp [h₁, h₂]

section
variable {g : Geometry} (hg : g.Sound) {w : State}

include hg

/-! ## Searches -/

/-- A directory object that is set to the start of a directory is there. -/
theorem DIR.start_eq {d : DIR} (hs : g.IsStart d.sclust) :
    d.start g = (.ok, d.moved (g.dirStart d.sclust)) ∧ (d.moved (g.dirStart d.sclust)).At g := by
  -- the start cluster of the table, behind the entry of the FAT32 root
  have hclust : ∀ c, g.IsClust c → g.tableClust d.sclust = c →
      d.start g = (.ok, d.moved (g.dirStart d.sclust)) ∧ (d.moved (g.dirStart d.sclust)).At g := by
    intro c hc he
    have h0 : c ≠ 0 := by
      have := hc.1
      omega
    have hsect := hg.clst2sect_pos hc
    have hlt := hg.inArea_lt (hg.inArea_clst hc hg.csize_pos)
    have hadd := add32_of_lt hlt
    rw [Nat.add_zero] at hadd
    have hstart : g.dirStart d.sclust = ⟨0, c, clst2sect g c⟩ := by
      unfold Geometry.dirStart
      rw [he, if_neg h0]
    have hmoved : d.start g = (.ok, d.moved ⟨0, c, clst2sect g c⟩) := by
      unfold DIR.start DIR.moved
      rw [← Geometry.tableClust, he, if_neg h0, sdiEnd, if_neg hsect, Nat.zero_div, hadd]
    rw [hstart]
    refine ⟨hmoved, .inr ⟨h0, hsect, ?_⟩, rfl, rfl⟩
    dsimp only [DIR.moved]
    rw [Nat.zero_div, Nat.zero_mod, Nat.add_zero]
  rcases hs with ⟨h0, hroot⟩ | hc
  · by_cases hf : g.fsType = .fat32
    · exact hclust g.dirbase (hroot hf) (if_pos ⟨h0, hf⟩)
    · have he : g.tableClust d.sclust = 0 := by
        rw [Geometry.tableClust, if_neg fun h => hf h.2, h0]
      have hn : g.nRootdir ≠ 0 := fun h => hf (hg.rootType.2 h)
      have hdir := hg.dirbase hf
      have hvol := hg.volbase
      have hbase : g.dirbase ≠ 0 := by omega
      have hadd : add32 g.dirbase 0 = g.dirbase := by
        have := hg.database
        have := hg.database_lt
        exact add32_of_lt (by omega)
      have hstart : g.dirStart d.sclust = ⟨0, 0, g.dirbase⟩ := by
        unfold Geometry.dirStart
        rw [he, if_pos rfl]
      unfold DIR.start
      rw [hstart, ← Geometry.tableClust, he, if_pos rfl, if_neg hn, sdiEnd, if_neg hbase,
        Nat.zero_div, hadd]
      refine ⟨rfl, .inl ⟨rfl, hf, ?_, ?_⟩, rfl, rfl⟩
      · show 0 / SZDIRE < g.nRootdir
        rw [Nat.zero_div]
        omega
      · show g.dirbase = g.dirbase + 0 / SS
        rw [Nat.zero_div, Nat.add_zero]
  · refine hclust d.sclust hc (if_neg fun h => ?_)
    have := hc.1
    omega

/-- `dir_find` looks through the table of the directory. -/
theorem dirFind_lookup (hon : g.volEnd ≤ w.disk.sectors) {w₁ : State} (h : Scanned g w w₁) {d : DIR}
    (hs : g.IsStart d.sclust) {ps : List Pos} (ht : Table g w.logical (g.dirStart d.sclust) ps) :
    Returns (dirFind d) w₁ fun r w₂ => Scanned g w w₂ ∧ w₂.charSigned = w₁.charSigned ∧
      r.2.object = d.object ∧
      match ps.find? (Pos.fits w.logical d.fn) with
      | none => r.1 = .noFile
      | some q => r.1 = .ok ∧ r.2 = { d.moved q with attr := q.attr w.logical &&& AM_MASK } ∧
          w₂.win = w.logical q.sect ∧ r.2.At g := by
  obtain ⟨hstart, hat⟩ := DIR.start_eq hg hs
  have hlen : ps.length < MAX_DIR / SZDIRE + 1 := by
    have hzero : (g.dirStart d.sclust).dptr = 0 := by
      unfold Geometry.dirStart
      split <;> rfl
    have := ht.length_le (by rw [hzero]; decide) (by rw [hzero]; decide)
    simp only [MAX_DIR, SZDIRE] at *
    omega
  have hfind : Returns (dirFind d) w₁ fun r w₂ => Scanned g w w₂ ∧
      match ps.find? (Pos.fits w.logical d.fn) with
      | none => r.1 = .noFile
      | some q => r.1 = .ok ∧ r.2 = { d.moved q with attr := q.attr w.logical &&& AM_MASK } ∧
          w₂.win = w.logical q.sect ∧ r.2.At g := by
    rw [dirFind, returns_bind]
    refine ⟨_, _, dirSdi_zero hg h.inv.geo d, ?_⟩
    rw [hstart]
    exact findLoop_table hg hon (hg.fatOn hon) ht hlen h hat rfl
  refine ((hfind.and_ensures (dirFind_charSigned d w₁)).and_ensures (dirFind_object d w₁)).mono
    fun r w₂ hpost => ?_
  obtain ⟨⟨⟨h₂, hm⟩, hc⟩, ho⟩ := hpost
  exact ⟨h₂, hc, ho, hm⟩

omit hg in
/-- What `follow_path` answers for a path from the directory `c`: where the path leads to and
whether the name is there, or that it leads nowhere. -/
def PathAnswer (g : Geometry) (L : Nat → Sector) (signed : Bool) (c : Nat) (path : List UInt8)
    (r : FRESULT × DIR) (w' : State) : Prop :=
  (∃ ps, IsDir g L r.2.sclust ∧ Leads g L signed c path r.2.sclust r.2.fn ∧
    Table g L (g.dirStart r.2.sclust) ps ∧ r.2.nsflag = NS_LAST ∧
    match ps.find? (Pos.fits L r.2.fn) with
    | none => r.1 = .noFile
    | some q => r.1 = .ok ∧ r.2.pos = q ∧ r.2.attr = q.attr L &&& AM_MASK ∧ r.2.At g ∧
        w'.win = L q.sect) ∨
  ((r.1 = .noPath ∨ r.1 = .invalidName) ∧ ∀ par fn, ¬Leads g L signed c path par fn)

omit hg in
theorem hasBits_dir (a : UInt8) : hasBits (a &&& AM_MASK) AM_DIR = hasBits a AM_DIR :=
  forall_byte (P := fun a => hasBits (a &&& AM_MASK) AM_DIR = hasBits a AM_DIR)
  (by decide +kernel) a

omit hg in
/-- A name is marked as the last one of its path, or not at all. -/
theorem createName_nsflag {signed : Bool} {d : DIR} {path rest : List UInt8}
    (h : createName signed {} path = (.ok, d, rest)) :
    d.nsflag = if hasBits d.nsflag NS_LAST then NS_LAST else 0 := by
  unfold createName at h
  split at h
  · cases h
  · rename_i e _
    dsimp only at h
    split at h
    · cases h
    · cases h
      dsimp only
      split <;> rfl

omit hg in
theorem createName_res (signed : Bool) (dp : DIR) (path : List UInt8) :
    (createName signed dp path).1 = .ok ∨ (createName signed dp path).1 = .invalidName := by
  unfold createName
  split
  · exact .inr rfl
  · dsimp only
    split
    · exact .inr rfl
    · exact .inl rfl

omit hg in
/-- A path leads on as its first name says. -/
theorem leads_iff {L : Nat → Sector} {signed : Bool} {c par : Nat} {path rest fn : List UInt8}
    {d : DIR} {ps : List Pos} (h : createName signed {} path = (.ok, d, rest))
    (ht : Table g L (g.dirStart c) ps) : Leads g L signed c path par fn ↔
      if hasBits d.nsflag NS_LAST then par = c ∧ fn = d.fn
      else ∃ p, ps.find? (Pos.fits L d.fn) = some p ∧ hasBits (p.attr L) AM_DIR = true ∧
        Leads g L signed (p.clst g L) rest par fn := by
  constructor
  · intro hl
    cases hl with
    | last h' hlast =>
      rw [h] at h'
      cases h'
      rw [if_pos hlast]
      exact ⟨rfl, rfl⟩
    | into h' hlast ht' hf hd hl =>
      rw [h] at h'
      cases h'
      rw [if_neg (by rw [hlast]; decide)]
      rw [← ht.unique ht'] at hf
      exact ⟨_, hf, hd, hl⟩
  · intro hl
    split at hl
    · rename_i hlast
      obtain ⟨rfl, rfl⟩ := hl
      exact .last h hlast
    · rename_i hlast
      obtain ⟨p, hf, hd, hl⟩ := hl
      exact .into h (by simpa using hlast) ht hf hd hl

omit hg in
/-- The walk ends with the answer for the last name. -/
theorem followFound_last {dp : DIR} (h : hasBits dp.nsflag NS_LAST = true) (path : List UInt8)
    (res : FRESULT) : followFound path res dp = pure (.inr (res, dp)) := by
  unfold followFound
  by_cases hr : res = .ok
  · rw [if_neg (not_not.2 hr), if_pos h, hr]
  · rw [if_pos hr, if_neg (by simp [h])]

omit hg in
/-- A path that leads anywhere begins with a name. -/
theorem Leads.name {L : Nat → Sector} {signed : Bool} {c par : Nat} {path fn : List UInt8}
    (h : Leads g L signed c path par fn) : (createName signed {} path).1 = .ok := by
  cases h with
  | last h => rw [h]
  | into h => rw [h]

omit hg in
/-- A path whose first name is that of no sub-directory leads nowhere. -/
theorem not_leads {L : Nat → Sector} {signed : Bool} {c : Nat} {path rest : List UInt8} {d : DIR}
    {ps : List Pos} (h : createName signed {} path = (.ok, d, rest))
    (hlast : hasBits d.nsflag NS_LAST = false) (ht : Table g L (g.dirStart c) ps)
    (hno : ∀ q, ps.find? (Pos.fits L d.fn) = some q → hasBits (q.attr L) AM_DIR = false)
    (par : Nat) (fn : List UInt8) : ¬Leads g L signed c path par fn := fun hl => by
  rw [leads_iff h ht, hlast, if_neg (by decide)] at hl
  obtain ⟨q, hf, hd, -⟩ := hl
  rw [hno q hf] at hd
  cases hd

omit hg in
/-- What `dir_find` answers for the name `fn` in the table `ps`. -/
def NameAnswer (g : Geometry) (L : Nat → Sector) (ps : List Pos) (fn : List UInt8)
    (r : FRESULT × DIR) (w' : State) : Prop :=
  match ps.find? (Pos.fits L fn) with
  | none => r.1 = .noFile
  | some q => r.1 = .ok ∧ r.2.pos = q ∧ r.2.attr = q.attr L &&& AM_MASK ∧ r.2.At g ∧
      w'.win = L q.sect

omit hg in
/-- The answer for the last name of a path is that of the search. -/
theorem PathAnswer.last {L : Nat → Sector} {signed : Bool} {path rest : List UInt8} {d : DIR}
    {ps : List Pos} {r : FRESULT × DIR} {w' : State}
    (h : createName signed {} path = (.ok, d, rest)) (hlast : hasBits d.nsflag NS_LAST = true)
    (hdir : IsDir g L r.2.sclust) (ht : Table g L (g.dirStart r.2.sclust) ps)
    (hfn : r.2.fn = d.fn) (hflag : r.2.nsflag = d.nsflag)
    (hfound : NameAnswer g L ps d.fn r w') :
    PathAnswer g L signed r.2.sclust path r w' := by
  refine .inl ⟨ps, hdir, ?_, ht, ?_, ?_⟩
  · rw [leads_iff h ht, hlast, if_pos rfl]
    exact ⟨rfl, hfn⟩
  · rw [hflag, createName_nsflag h, hlast]
    rfl
  · rw [hfn]
    exact hfound

omit hg in
/-- The answer for the rest of a path from a sub-directory is that for the path. -/
theorem PathAnswer.into {L : Nat → Sector} {signed : Bool} {c : Nat} {path rest : List UInt8}
    {d : DIR} {ps : List Pos} {q : Pos} {r : FRESULT × DIR} {w' : State}
    (h : createName signed {} path = (.ok, d, rest)) (hlast : hasBits d.nsflag NS_LAST = false)
    (ht : Table g L (g.dirStart c) ps) (hf : ps.find? (Pos.fits L d.fn) = some q)
    (hd : hasBits (q.attr L) AM_DIR = true)
    (ha : PathAnswer g L signed (q.clst g L) rest r w') : PathAnswer g L signed c path r w' := by
  rcases ha with ⟨qs, hdir, hl, hrest⟩ | ⟨hres, hno⟩
  · exact .inl ⟨qs, hdir, .into h hlast ht hf hd hl, hrest⟩
  · refine .inr ⟨hres, fun par fn hl => ?_⟩
    rw [leads_iff h ht, hlast, if_neg (by decide)] at hl
    obtain ⟨q', hf', -, hl'⟩ := hl
    rw [hf] at hf'
    cases hf'
    exact hno par fn hl'

omit hg in
/-- What one round of `follow_path` does with a path from the directory `c`: it has the answer, or
it gets into a sub-directory with the rest of the path, whose answer is that for the path. -/
inductive FollowStep (g : Geometry) (L : Nat → Sector) (signed : Bool) (c : Nat)
    (path : List UInt8) : (DIR × List UInt8) ⊕ (FRESULT × DIR) → State → Prop
  | stop {r : FRESULT × DIR} {w' : State} : PathAnswer g L signed c path r w' →
      FollowStep g L signed c path (.inr r) w'
  | into {dp : DIR} {rest : List UInt8} {w' : State} : rest.length < path.length →
      IsDir g L dp.sclust → (∀ r w₃, PathAnswer g L signed dp.sclust rest r w₃ →
        PathAnswer g L signed c path r w₃) → FollowStep g L signed c path (.inl (dp, rest)) w'

omit hg in
/-- What `follow_path` does after the search for the first name of the path. -/
theorem followFound_leads {signed : Bool} {path rest : List UInt8} {d : DIR} {ps : List Pos}
    {r : FRESULT × DIR} {w₂ : State} (h : Scanned g w w₂)
    (hname : createName signed {} path = (.ok, d, rest)) (hdir : IsDir g w.logical r.2.sclust)
    (ht : Table g w.logical (g.dirStart r.2.sclust) ps) (hfn : r.2.fn = d.fn)
    (hflag : r.2.nsflag = d.nsflag) (hfound : NameAnswer g w.logical ps d.fn r w₂) :
    Returns (followFound rest r.1 r.2) w₂ fun s w₃ => w₃ = w₂ ∧
      FollowStep g w.logical signed r.2.sclust path s w₃ := by
  cases hlast : hasBits d.nsflag NS_LAST with
  | true =>
    rw [followFound_last (by rw [hflag, hlast]) rest r.1]
    exact returns_pure.2 ⟨rfl, .stop (.last hname hlast hdir ht hfn hflag hfound)⟩
  | false =>
    unfold NameAnswer at hfound
    have hnot := not_leads hname hlast ht
    have hflag' : hasBits r.2.nsflag NS_LAST = false := by rw [hflag, hlast]
    cases hf : ps.find? (Pos.fits w.logical d.fn) with
    | none =>
      rw [hf] at hfound
      rw [followFound, if_pos (by rw [hfound]; decide), if_pos ⟨hfound, by rw [hflag']; rfl⟩]
      refine returns_pure.2 ⟨rfl, .stop (.inr ⟨.inl rfl, hnot fun q hq => ?_⟩)⟩
      rw [hf] at hq
      cases hq
    | some q =>
      rw [hf] at hfound
      obtain ⟨hres, hpos, hat, -, hwin⟩ := hfound
      have hattr : hasBits r.2.attr AM_DIR = hasBits (q.attr w.logical) AM_DIR := by
        rw [hat]
        exact hasBits_dir _
      rw [followFound, if_neg (not_not.2 hres), if_neg (by rw [hflag']; decide), hattr]
      cases hd : hasBits (q.attr w.logical) AM_DIR with
      | false =>
        -- the name is that of a file
        refine returns_pure.2 ⟨rfl, .stop (.inr ⟨.inl rfl, hnot fun q' hq => ?_⟩)⟩
        rw [hf] at hq
        cases hq
        exact hd
      | true =>
        have hclst : ldClust w₂.geo w₂.win (r.2.dptr % SS) = q.clst g w.logical := by
          rw [h.inv.geo, hwin, ← hpos]
          rfl
        have hok : (createName signed {} path).1 = .ok := by rw [hname]
        have hlen := createName_length hok
        rw [hname] at hlen
        rw [if_neg (by decide), returns_bind, returns_get, hclst]
        exact returns_pure.2 ⟨rfl, .into hlen
          (.sub hdir ht (List.mem_of_find?_eq_some hf) (Pos.isSubdir_of_find hname hf hd))
          fun _ _ ha => ha.into hname hlast ht hf hd⟩

/-- One round of the loop of `follow_path` from a directory of the tree. -/
theorem followRound_leads (hon : g.volEnd ≤ w.disk.sectors) (hb : Browsable g w.logical)
    {signed : Bool} {dp : DIR} {path : List UInt8} {w₁ : State} (h : Scanned g w w₁)
    (hsig : w₁.charSigned = signed) (hdir : IsDir g w.logical dp.sclust) :
    Returns (followRound (dp, path)) w₁ fun r w₂ => Scanned g w w₂ ∧ w₂.charSigned = signed ∧
      FollowStep g w.logical signed dp.sclust path r w₂ := by
  obtain ⟨hs, ps, ht⟩ := hb dp.sclust hdir
  obtain ⟨ho₁, ho₂, ho₃⟩ := createName_object signed dp path
  rw [followRound, returns_bind, returns_get, hsig]
  rcases hname : createName signed {} path with ⟨res, d, rest⟩
  rw [hname] at ho₁ ho₂ ho₃
  dsimp only at ho₁ ho₂ ho₃
  rcases createName_res signed {} path with hok | hinv
  · obtain rfl : res = .ok := by rw [hname] at hok; exact hok
    have heq : createName signed dp path =
        (.ok, { dp with fn := d.fn, nsflag := d.nsflag }, rest) := by
      rw [← ho₃ rfl, ← ho₁, ← ho₂]
    rw [heq]
    dsimp only
    rw [returns_bind]
    refine (dirFind_lookup hg hon h (d := { dp with fn := d.fn, nsflag := d.nsflag }) hs ht).mono
      fun r w₂ hpost => ?_
    obtain ⟨h₂, hsig₂, hobj, hfound⟩ := hpost
    have hsclust : r.2.object.sclust = dp.sclust := by rw [hobj]; rfl
    have hfn : r.2.object.fn = d.fn := by rw [hobj]; rfl
    have hflag : r.2.object.nsflag = d.nsflag := by rw [hobj]; rfl
    change r.2.sclust = dp.sclust at hsclust
    rw [← hsclust] at hdir ht ⊢
    refine (followFound_leads h₂ hname hdir ht hfn hflag ?_).mono fun s w₃ hpost => ?_
    · unfold NameAnswer
      dsimp only at hfound
      cases hf : ps.find? (Pos.fits w.logical d.fn) with
      | none =>
        rw [hf] at hfound
        exact hfound
      | some q =>
        rw [hf] at hfound
        obtain ⟨hres, hr, hwin, hat⟩ := hfound
        exact ⟨hres, by rw [hr]; rfl, by rw [hr], hat, hwin⟩
    · obtain ⟨rfl, hstep⟩ := hpost
      exact ⟨h₂, hsig₂.trans hsig, hstep⟩
  · -- the name is rejected
    have hres : (createName signed dp path).1 = .invalidName := by
      rw [ho₁, ← hinv, hname]
    rcases hpath : createName signed dp path with ⟨res', d', rest'⟩
    rw [hpath] at hres
    dsimp only at hres
    subst hres
    refine returns_pure.2 ⟨h, hsig, .stop (.inr ⟨.inr rfl, fun par fn hl => ?_⟩)⟩
    have hok := hl.name
    rw [hinv] at hok
    cases hok

/-- The loop of `follow_path` from a directory of the tree. -/
theorem followLoop_leads (hon : g.volEnd ≤ w.disk.sectors) (hb : Browsable g w.logical)
    {signed : Bool} : ∀ {n : Nat} {dp : DIR} {path : List UInt8} {w₁ : State}, path.length < n →
      Scanned g w w₁ → w₁.charSigned = signed → IsDir g w.logical dp.sclust →
      Returns (loop followRound n (dp, path)) w₁ fun r w₂ => Scanned g w w₂ ∧
        w₂.charSigned = signed ∧ PathAnswer g w.logical signed dp.sclust path r w₂
  | n + 1, dp, path, w₁, hn, h, hsig, hdir => by
    rw [loop, returns_bind]
    refine (followRound_leads hg hon hb h hsig hdir).mono fun s w₂ hpost => ?_
    obtain ⟨h₂, hsig₂, hstep⟩ := hpost
    cases hstep with
    | stop ha => exact returns_pure.2 ⟨h₂, hsig₂, ha⟩
    | into hlen hsub hans =>
      refine (followLoop_leads hon hb (Nat.lt_of_lt_of_le hlen (Nat.le_of_lt_succ hn)) h₂ hsig₂
        hsub).mono fun r w₃ hpost => ?_
      obtain ⟨h₃, hsig₃, ha⟩ := hpost
      exact ⟨h₃, hsig₃, hans r w₃ ha⟩

/-- `follow_path` finds out where a path leads to; a path without a name is the root. -/
theorem followPath_leads (hon : g.volEnd ≤ w.disk.sectors) (hb : Browsable g w.logical) {w₁ : State}
    (h : Scanned g w w₁) (dp : DIR) (path : List UInt8) :
    Returns (followPath dp path) w₁ fun r w₂ => Scanned g w w₂ ∧
      ((r.1 = .ok ∧ r.2.nsflag = NS_NONAME ∧
        ∀ par fn, ¬Leads g w.logical w₁.charSigned 0 (path.dropWhile isSeparator) par fn) ∨
      PathAnswer g w.logical w₁.charSigned 0 (path.dropWhile isSeparator) r w₂) := by
  rw [followPath, returns_bind, returns_get]
  dsimp only
  by_cases hpeek : charUint w₁.charSigned (peek (path.dropWhile isSeparator)) < 0x20
  · rw [if_pos hpeek]
    refine ⟨_, _, dirSdi_zero hg h.inv.geo _, h, .inl ?_⟩
    rw [(DIR.start_eq hg (hb 0 .root).1).1]
    refine ⟨rfl, rfl, fun par fn hl => ?_⟩
    cases hl with
    | last h' => exact createName_peek h' hpeek
    | into h' => exact createName_peek h' hpeek
  · rw [if_neg hpeek]
    refine (followLoop_leads hg hon hb (Nat.lt_succ_self _) h rfl .root).mono
      fun r w₂ hpost => ?_
    obtain ⟨h₂, _, hans⟩ := hpost
    exact ⟨h₂, .inr hans⟩

end

end FatFs
