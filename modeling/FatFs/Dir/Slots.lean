import FatFs.Access.ReadOnly
import FatFs.Dir.Lookup

/-!
# Free entries of a directory

`dir_alloc` takes the first entry of a table that is deleted or behind the last one (`Slot`). A
table without such an entry is full up to its last place (`Full`), and the entry is made by
stretching the table, which needs a free cluster and is not possible for the static root directory
and at the size limit (`Crowded`). `dir_register` succeeds exactly on the directories that are not
crowded (`dirRegister_exact`).
-/

namespace FatFs

open Run

namespace Pos

/-- The entry can be taken. -/
def Vacant (L : Nat → Sector) (p : Pos) : Prop := p.head L = DDEM ∨ p.head L = 0

instance (L : Nat → Sector) (p : Pos) : Decidable (p.Vacant L) :=
  inferInstanceAs (Decidable (_ ∨ _))

/-- The table cannot be stretched behind the place: it is at the size limit, or in the static root
directory. -/
def Stuck (p : Pos) : Prop := MAX_DIR ≤ p.dptr + SZDIRE ∨ p.clust = 0

instance (p : Pos) : Decidable p.Stuck := inferInstanceAs (Decidable (_ ∨ _))

end Pos

/-- The first entry from a place on that can be taken. -/
inductive Slot (g : Geometry) (L : Nat → Sector) : Pos → Pos → Prop
  | here {p : Pos} : p.Vacant L → Slot g L p p
  | there {p q r : Pos} : ¬p.Vacant L → p.next g L = .ok q → Slot g L q r → Slot g L p r

/-- From a place on all entries are in use, up to the last place of the table. -/
inductive Full (g : Geometry) (L : Nat → Sector) : Pos → Pos → Prop
  | last {p : Pos} : ¬p.Vacant L → p.next g L = .error .noFile → Full g L p p
  | there {p q r : Pos} : ¬p.Vacant L → p.next g L = .ok q → Full g L q r → Full g L p r

/-- A table has a slot for a new entry, or it is full. -/
theorem Table.slot_or_full {g : Geometry} {L : Nat → Sector} {p : Pos} {ps : List Pos}
    (h : Table g L p ps) : (∃ q, Slot g L p q) ∨ ∃ r, Full g L p r := by
  induction h with
  | terminator h0 => exact .inl ⟨_, .here (.inr h0)⟩
  | @last p _ hn =>
    by_cases hv : p.Vacant L
    · exact .inl ⟨_, .here hv⟩
    · exact .inr ⟨_, .last hv hn⟩
  | @entry p q ps _ hn _ ih =>
    by_cases hv : p.Vacant L
    · exact .inl ⟨_, .here hv⟩
    · rcases ih with ⟨r, hr⟩ | ⟨r, hr⟩
      · exact .inl ⟨r, .there hv hn hr⟩
      · exact .inr ⟨r, .there hv hn hr⟩

/-- A table with a slot is not full. -/
theorem Slot.not_full {g : Geometry} {L : Nat → Sector} {p q r : Pos} (h : Slot g L p q) :
    ¬Full g L p r := by
  induction h with
  | here hv =>
    intro hf
    cases hf with
    | last h => exact h hv
    | there h => exact h hv
  | there hv hn _ ih =>
    intro hf
    cases hf with
    | last _ h =>
      rw [hn] at h
      cases h
    | there _ h hf =>
      rw [hn] at h
      cases h
      exact ih hf

/-- The last place of a full table is determined. -/
theorem Full.unique {g : Geometry} {L : Nat → Sector} {p q r : Pos} (h : Full g L p q)
    (h' : Full g L p r) : q = r := by
  induction h with
  | last _ hn =>
    cases h' with
    | last => rfl
    | there _ hn' =>
      rw [hn] at hn'
      cases hn'
  | there _ hn _ ih =>
    cases h' with
    | last _ hn' =>
      rw [hn] at hn'
      cases hn'
    | there _ hn' h' =>
      rw [hn] at hn'
      cases hn'
      exact ih h'

/-- The places of a table from one on, in the order of `dir_next`. -/
inductive Along (g : Geometry) (L : Nat → Sector) : Pos → Pos → Prop
  | refl {p : Pos} : Along g L p p
  | next {p q r : Pos} : p.next g L = .ok q → Along g L q r → Along g L p r

/-- The contents agree on the places of a table and on the links between them. -/
def AgreeOn (g : Geometry) (L L' : Nat → Sector) (p : Pos) : Prop :=
  ∀ q, Along g L p q → L' q.sect = L q.sect ∧ g.link L' q.clust = g.link L q.clust

section
variable {g : Geometry} {L L' : Nat → Sector} {p q r : Pos}

/-- The next place depends on the link of the cluster. -/
theorem Pos.next_congr (h : g.link L' p.clust = g.link L p.clust) : p.next g L' = p.next g L := by
  unfold Pos.next
  rw [h]

/-- The first byte of an entry depends on its sector. -/
theorem Pos.head_congr (h : L' p.sect = L p.sect) : p.head L' = p.head L := by
  unfold Pos.head
  rw [h]

/-- Volumes that agree from a place on agree from the next one on. -/
theorem AgreeOn.step (h : AgreeOn g L L' p) (hn : p.next g L = .ok q) : AgreeOn g L L' q :=
  fun r hr => h r (.next hn hr)

/-- The same places are vacant. -/
theorem AgreeOn.vacant (h : AgreeOn g L L' p) : p.Vacant L' ↔ p.Vacant L := by
  unfold Pos.Vacant
  rw [Pos.head_congr (h p .refl).1]

/-- A full table is full on a volume that agrees. -/
theorem Full.congr (hf : Full g L p r) (h : AgreeOn g L L' p) : Full g L' p r := by
  induction hf with
  | last hv hn => exact .last (by rwa [h.vacant]) (by rwa [Pos.next_congr (h _ .refl).2])
  | there hv hn _ ih =>
    exact .there (by rwa [h.vacant]) (by rwa [Pos.next_congr (h _ .refl).2]) (ih (h.step hn))

/-- The slot of a table is one on a volume that agrees. -/
theorem Slot.congr (hs : Slot g L p r) (h : AgreeOn g L L' p) : Slot g L' p r := by
  induction hs with
  | here hv => exact .here (by rwa [h.vacant])
  | there hv hn _ ih =>
    exact .there (by rwa [h.vacant]) (by rwa [Pos.next_congr (h _ .refl).2]) (ih (h.step hn))

/-- A table is one on a volume that agrees. -/
theorem Table.congr {ps : List Pos} (ht : Table g L p ps) (h : AgreeOn g L L' p) :
    Table g L' p ps := by
  induction ht with
  | terminator h0 => exact .terminator (by rwa [Pos.head_congr (h _ .refl).1])
  | last hne hn =>
    exact .last (by rwa [Pos.head_congr (h _ .refl).1]) (by rwa [Pos.next_congr (h _ .refl).2])
  | entry hne hn _ ih =>
    exact .entry (by rwa [Pos.head_congr (h _ .refl).1]) (by rwa [Pos.next_congr (h _ .refl).2])
      (ih (h.step hn))

/-- A table with a free entry or without is the same in contents that agree on it. -/
theorem Table.full_congr {ps : List Pos} (ht : Table g L p ps) (h : AgreeOn g L L' p) :
    Full g L' p r ↔ Full g L p r := by
  refine ⟨fun hf => ?_, fun hf => hf.congr h⟩
  rcases ht.slot_or_full with ⟨q, hq⟩ | ⟨q, hq⟩
  · exact absurd hf (hq.congr h).not_full
  · rwa [(hq.congr h).unique hf] at hq

end

/-- The volume has no cluster left to stretch a table by. -/
def Exhausted (g : Geometry) (w : State) : Prop :=
  w.freeClst = 0 ∨ ∀ e, g.IsClust e → g.entry w.logical e ≠ 0

/-- No entry can be made in the directory `c`. -/
def Crowded (g : Geometry) (w : State) (c : Nat) : Prop :=
  ∃ r, Full g w.logical (g.dirStart c) r ∧ (r.Stuck ∨ Exhausted g w)

/-- `dir_next` that may stretch the table does so where the other one is at the end of a chain. -/
theorem dirNext_true (d : DIR) : dirNext d true = (do
    let r ← dirNext d false
    if r.1 = .noFile ∧ d.sect ≠ 0 ∧ ¬d.pos.Stuck then
      dirStretch { d with sect := add32 d.sect 1 } (d.dptr + SZDIRE)
    else pure r) := by
  funext w
  unfold dirNext
  rw [bind_assoc, get_bind_apply, get_bind_apply]
  dsimp only
  by_cases hmax : MAX_DIR ≤ d.dptr + SZDIRE
  · rw [if_pos hmax, if_pos rfl, if_pos rfl, pure_bind, if_neg fun h => h.2.2 (.inl hmax)]
  rw [if_neg hmax]
  by_cases hs : d.sect = 0
  · rw [if_pos hs, if_pos hs, pure_bind, if_neg fun h => h.2.1 hs]
  rw [if_neg hs, if_neg hs]
  by_cases hsec : (d.dptr + SZDIRE) % SS = 0
  · rw [if_pos hsec, if_pos hsec]
    by_cases hc : d.clust = 0
    · rw [if_pos hc, if_pos hc]
      split
      · rw [pure_bind, if_neg fun h => h.2.2 (.inr hc)]
      · rw [pure_bind, if_neg fun h => nomatch h.1]
    · rw [if_neg hc, if_neg hc]
      split
      · rw [bind_assoc]
        refine bind_congr_of fun c w₁ _ => congrFun (a := w₁) ?_
        by_cases hone : c ≤ 1
        · rw [if_pos hone, if_pos hone, pure_bind, if_neg fun h => nomatch h.1]
        by_cases hdisk : c = DISKERR
        · rw [if_neg hone, if_pos hdisk, if_neg hone, if_pos hdisk, pure_bind,
            if_neg fun h => nomatch h.1]
        rw [if_neg hone, if_neg hdisk, if_neg hone, if_neg hdisk]
        by_cases hout : w.geo.nFatent ≤ c
        · rw [if_pos hout, if_pos hout, if_pos rfl, if_neg (by decide), pure_bind,
            if_pos ⟨rfl, hs, fun h => h.elim hmax hc⟩]
        · rw [if_neg hout, if_neg hout, pure_bind, if_neg fun h => nomatch h.1]
      · rw [pure_bind, if_neg fun h => nomatch h.1]
  · rw [if_neg hsec, if_neg hsec, pure_bind, if_neg fun h => nomatch h.1]

section
variable {g : Geometry} (hg : g.Sound) {w : State} (hon : g.volEnd ≤ w.disk.sectors)

include hg hon

/-! ## The places of a table -/

omit hg hon in
/-- The place is in the static root directory, or in a cluster. -/
def Pos.Inside (g : Geometry) (p : Pos) : Prop :=
  (p.clust = 0 ∧ g.fatbase + g.nFats * g.fsize ≤ p.sect ∧ p.sect < g.database) ∨
  (g.IsClust p.clust ∧ ∃ k < g.csize, p.sect = clst2sect g p.clust + k)

omit hon in
/-- A directory object stands in the static root table or in a cluster. -/
theorem DIR.At.inside {d : DIR} (h : d.At g) (hc : d.clust = 0 ∨ g.IsClust d.clust) :
    d.pos.Inside g := by
  rcases h.sect with ⟨h0, hf, hn, hs⟩ | ⟨h0, -, hs⟩
  · refine .inl ⟨h0, ?_⟩
    have hdir := hg.dirbase hf
    have hdb := hg.database
    have h16 := hg.rootSize
    show g.fatbase + g.nFats * g.fsize ≤ d.sect ∧ d.sect < g.database
    simp only [SZDIRE, SS] at hn hs
    omega
  · exact .inr ⟨hc.resolve_left h0, _, Nat.mod_lt _ hg.csize_pos, hs⟩

omit hg hon in
/-- The next place is in a valid cluster if the place is. -/
theorem Pos.next_clust {L : Nat → Sector} {p q : Pos} (h : p.next g L = .ok q)
    (hc : p.clust = 0 ∨ g.IsClust p.clust) : q.clust = 0 ∨ g.IsClust q.clust := by
  unfold Pos.next at h
  split at h
  · cases h
  · split at h
    · split at h
      · split at h
        · cases h
        · cases h
          exact hc
      · split at h
        · split at h
          · cases h
          · split at h
            · cases h
            · rename_i h1 h2
              cases h
              exact .inr ⟨Nat.lt_of_not_le h1, Nat.lt_of_not_le h2⟩
        · cases h
          exact hc
    · cases h
      exact hc

/-- The places of a table are inside the volume. -/
theorem Along.inside (hw : Inv g w) (hf : w.Flushable) {p q : Pos} (h : Along g w.logical p q) :
    ∀ {d : DIR}, d.At g → d.pos = p → (p.clust = 0 ∨ g.IsClust p.clust) → q.Inside g := by
  induction h with
  | refl =>
    intro d hd hp hc
    subst hp
    exact hd.inside hg hc
  | @next p q r hn _ ih =>
    intro d hd hp hc
    subst hp
    obtain ⟨res, w₁, -, -, hr⟩ := dirNext_table hg ⟨hw, hf, .refl g w, rfl⟩ (hg.fatOn hon) hd
    rw [hn] at hr
    exact ih hr.2 rfl (Pos.next_clust hn hc)

/-- The places of a directory are in the static root table or in clusters. -/
theorem Along.inside_dir (hw : Inv g w) (hf : w.Flushable) {c : Nat} (hs : g.IsStart c) {q : Pos}
    (h : Along g w.logical (g.dirStart c) q) : q.Inside g := by
  obtain ⟨-, hat⟩ := DIR.start_eq hg (d := { sclust := c }) hs
  refine h.inside hg hon hw hf hat rfl ?_
  have hclust : (g.dirStart c).clust = g.tableClust c := by
    unfold Geometry.dirStart
    split
    · exact Eq.symm ‹_›
    · rfl
  rw [hclust, Geometry.tableClust]
  rcases hs with ⟨h0, hroot⟩ | hc
  · by_cases hf : g.fsType = .fat32
    · rw [if_pos ⟨h0, hf⟩]
      exact .inr (hroot hf)
    · rw [if_neg fun h => hf h.2]
      exact .inl h0
  · rw [if_neg fun h => absurd hc.1 (by omega)]
    exact .inr hc

/-! ## Stretching a table -/

/-- A table is stretched behind the last cluster of its chain unless the volume is exhausted. -/
theorem dirStretch_exact (hw : Inv g w) (hf : w.Flushable)
    (hone : ∀ e, g.IsClust e → g.entry w.logical e ≠ 1) {d : DIR} (hc : g.IsClust d.clust)
    (hend : g.nFatent ≤ g.entry w.logical d.clust) (ofs : Nat) :
    Returns (dirStretch d ofs) w fun r w' => (Exhausted g w → r.1 = .denied) ∧
      (¬Exhausted g w → r.1 = .ok ∧ w'.winsect = r.2.sect ∧ w'.win = Sector.zero) := by
  have hn := hg.entries
  rw [dirStretch, returns_bind]
  refine (createChain_inv hg hw d.clust).mono fun c w₁ h₁ => ?_
  have hfull := h₁.full hf (hg.fatOn hon) hone (.inr ⟨hc, by omega⟩)
  simp only [returns_ite, returns_pure, returns_bind, returns_get]
  refine ⟨fun h0 => ⟨fun _ => trivial, fun hex => absurd (h₁.none h0).2.2 hex⟩, fun h0 =>
    ⟨fun h => absurd h hfull.1, fun h1 => ⟨fun h => absurd h hfull.2, fun hd => ?_⟩⟩⟩
  have hcl := h₁.isClust h0 h1 hd
  -- the cluster was free
  have hfree : g.entry w.logical c = 0 ∧ w.freeClst ≠ 0 := by
    rcases h₁.out with h | h | h | h | h
    · exact absurd h h0
    · exact absurd h h1
    · exact absurd h hd
    · have := h.1.2
      have := h.2.2.1
      omega
    · exact ⟨h.2.1, h.2.2.2.1⟩
  have hex : ¬Exhausted g w := fun h => h.elim hfree.2 fun h => h c hcl hfree.1
  have hon₁ : clst2sect g c + g.csize ≤ w₁.disk.sectors := by
    rw [h₁.fat.sectors]
    refine Nat.le_trans ?_ hon
    have hlast := (hg.inArea_clst hcl (show g.csize - 1 < g.csize by have := hg.csize_pos; omega)).2
    have := hg.csize_pos
    unfold Geometry.volEnd
    omega
  refine (dirClear_inv hg h₁.fat.inv hcl).mono fun r w₂ h₂ => ?_
  obtain ⟨hok, -⟩ := h₂.full (h₁.fat.good hf) hon₁
  refine ⟨fun hne => absurd hok hne, fun _ => ⟨fun h => absurd h hex, fun _ => ⟨trivial, ?_, ?_⟩⟩⟩
  · dsimp only [DIR.enter]
    rw [h₂.inv.geo]
    exact (h₂.ok hok).1
  · exact (h₂.ok hok).2.1

/-! ## `dir_alloc` -/

omit hg hon in
/-- `move_window` does not change the count of free clusters. -/
theorem moveWindow_freeClst (n s : Nat) : Keeps (fun w => w.freeClst = n) (moveWindow s) :=
  fun w h => (moveWindow_spec w s).ensures.mono fun _ _ h' => h'.kept.freeClst.trans h

/-- The state of a scan that also knows the number of free clusters. -/
def Scouted (g : Geometry) (w w' : State) : Prop := Scanned g w w' ∧ w'.freeClst = w.freeClst

/-- The search for a slot ends at a vacant place. -/
theorem allocRound_vacant {w₁ : State} (h : Scouted g w w₁) {d : DIR} (hd : d.At g)
    (hv : d.pos.Vacant w.logical) : Returns (allocRound 1 (d, 0)) w₁ fun r w₂ =>
      r = .inr (.ok, d) ∧ w₂.winsect = d.sect := by
  rw [allocRound, returns_bind]
  refine ((hd.show hg h.1 hon).and (moveWindow_inv hg h.1.inv d.sect)).mono
    fun res w₂ hpost => ?_
  obtain ⟨⟨hr, _, _, hb, _⟩, hmove⟩ := hpost
  subst hr
  have hv' : w₂.win d.dir = DDEM ∨ w₂.win d.dir = 0 := by
    rw [hb]
    exact hv
  simp only [ne_eq, not_true_eq_false, if_false, returns_bind, returns_get]
  rw [if_pos ⟨hv', if_pos hv'⟩]
  exact returns_pure.2 ⟨rfl, hmove.winsect rfl⟩

/-- At an entry in use the search goes on with `dir_next`. -/
theorem allocRound_used {w₁ : State} (h : Scouted g w w₁) {d : DIR} (hd : d.At g)
    (hv : ¬d.pos.Vacant w.logical) {Q : (DIR × Nat) ⊕ (FRESULT × DIR) → State → Prop}
    (hnext : ∀ w₂, Scouted g w w₂ → Returns (dirNext d true) w₂ fun r w₃ =>
      Q (if r.1 = .ok then .inl (r.2, 0) else .inr r) w₃) : Returns (allocRound 1 (d, 0)) w₁ Q := by
  rw [allocRound, returns_bind]
  refine ((hd.show hg h.1 hon).and_ensures (moveWindow_freeClst w.freeClst d.sect w₁ h.2)).mono
    fun res w₂ hpost => ?_
  obtain ⟨⟨hr, h₂, _, hb, _⟩, hk⟩ := hpost
  subst hr
  have hv' : ¬(w₂.win d.dir = DDEM ∨ w₂.win d.dir = 0) := by
    rw [hb]
    exact hv
  simp only [ne_eq, not_true_eq_false, if_false, returns_bind, returns_get]
  rw [if_neg fun h => hv' h.1, if_neg hv', returns_bind]
  refine (hnext w₂ ⟨h₂, hk⟩).mono fun r w₃ hq => ?_
  simp only [returns_ite, returns_pure]
  exact ⟨fun hok => by rwa [if_pos hok] at hq, fun hne => by rwa [if_neg hne] at hq⟩

/-- `dir_next` goes to the place behind the entry if there is one. -/
theorem dirNext_ok {w₁ : State} (h : Scouted g w w₁) {d : DIR} (hd : d.At g) {q : Pos}
    (hn : d.pos.next g w.logical = .ok q) : Returns (dirNext d true) w₁ fun r w₂ =>
      Scouted g w w₂ ∧ r = (.ok, d.moved q) ∧ (d.moved q).At g := by
  rw [dirNext_true, returns_bind]
  refine ((dirNext_table hg h.1 (hg.fatOn hon) hd).and_ensures
    (dirNext_of_move (moveWindow_freeClst w.freeClst) d w₁ h.2)).mono fun r w₂ ⟨⟨h₂, hr⟩, hk⟩ => ?_
  rw [hn] at hr
  obtain ⟨rfl, hat⟩ := hr
  rw [if_neg fun h => nomatch h.1]
  exact returns_pure.2 ⟨⟨h₂, hk⟩, rfl, hat⟩

omit hg hon in
/-- The chain of a table ends behind its last place, unless that is stuck. -/
theorem Pos.next_tail {L : Nat → Sector} {p : Pos} (hs : ¬p.Stuck)
    (hn : p.next g L = .error .noFile) : g.IsClust p.clust ∧ g.nFatent ≤ g.entry L p.clust := by
  unfold Pos.Stuck at hs
  unfold Pos.next at hn
  rw [if_neg fun h => hs (.inl h)] at hn
  split at hn
  · rw [if_neg fun h => hs (.inr h)] at hn
    split at hn
    · split at hn
      · cases hn
      · rename_i hone
        split at hn
        · rename_i hend
          have hc : g.IsClust p.clust := by
            by_contra hc
            exact hone (Nat.le_of_eq (if_neg hc))
          rw [g.link_of_clust L hc] at hend
          exact ⟨hc, hend⟩
        · cases hn
    · cases hn
  · cases hn

/-- At the last place of a full table `dir_next` stretches the table if that is possible. -/
theorem dirNext_last (hone : ∀ e, g.IsClust e → g.entry w.logical e ≠ 1)
    {w₁ : State} (h : Scouted g w w₁) {d : DIR} (hd : d.At g)
    (hn : d.pos.next g w.logical = .error .noFile) :
    Returns (dirNext d true) w₁ fun r w₂ =>
      (d.pos.Stuck ∨ Exhausted g w → r.1 = .noFile ∨ r.1 = .denied) ∧
      (¬(d.pos.Stuck ∨ Exhausted g w) → r.1 = .ok ∧ w₂.winsect = r.2.sect ∧
      w₂.win = Sector.zero) := by
  rw [dirNext_true, returns_bind]
  refine ((dirNext_table hg h.1 (hg.fatOn hon) hd).and_ensures
    (dirNext_of_move (moveWindow_freeClst w.freeClst) d w₁ h.2)).mono fun r w₂ ⟨⟨h₂, hr⟩, hk⟩ => ?_
  rw [hn] at hr
  by_cases hs : d.pos.Stuck
  · rw [if_neg fun h => h.2.2 hs]
    exact returns_pure.2 ⟨fun _ => .inl hr.1, fun h => absurd (.inl hs) h⟩
  · obtain ⟨hc, hend⟩ : g.IsClust d.clust ∧ g.nFatent ≤ g.entry w.logical d.clust :=
      Pos.next_tail hs hn
    rw [if_pos ⟨hr.1, hd.sect_ne hg, hs⟩]
    have hent : ∀ e, g.IsClust e → g.entry w₂.logical e = g.entry w.logical e := fun e he =>
      h₂.entry hg he.2
    have hex : Exhausted g w₂ ↔ Exhausted g w := by
      unfold Exhausted
      rw [hk]
      exact or_congr_right (forall₂_congr fun e he => by rw [hent e he])
    have hon₂ : g.volEnd ≤ w₂.disk.sectors := by
      rw [h₂.sectors]
      exact hon
    refine (dirStretch_exact hg hon₂ h₂.inv h₂.good (fun e he => by rw [hent e he]; exact hone e he)
      (d := { d with sect := add32 d.sect 1 }) hc
        (Nat.le_trans hend (Nat.le_of_eq (hent _ hc).symm)) _).mono
        fun s w₃ ⟨hden, hok⟩ => ⟨fun h => ?_, fun h => ?_⟩
    · exact .inr (hden (hex.2 (h.resolve_left hs)))
    · exact hok fun h' => h (.inr (hex.1 h'))

omit hg hon in
/-- A round for every entry up to the size limit is left behind the entry. -/
theorem allocFuel {L : Nat → Sector} {d : DIR} {q : Pos} {n : Nat} (hn : d.pos.next g L = .ok q)
    (hle : MAX_DIR ≤ d.dptr + SZDIRE * (n + 1)) :
    (d.moved q).dptr < MAX_DIR ∧ MAX_DIR ≤ (d.moved q).dptr + SZDIRE * n := by
  obtain ⟨hq, hmax⟩ := Pos.next_dptr hn
  have hpos : d.pos.dptr = d.dptr := rfl
  have hmoved : (d.moved q).dptr = q.dptr := rfl
  rw [Nat.mul_succ] at hle
  omega

/-- The loop of `dir_alloc` from a place before an entry that can be taken. -/
theorem allocLoop_slot {p q : Pos} (hs : Slot g w.logical p q) : ∀ {n : Nat} {d : DIR} {w₁ : State},
    d.dptr < MAX_DIR → MAX_DIR ≤ d.dptr + SZDIRE * n → Scouted g w w₁ → d.At g → d.pos = p →
    Returns (loop (allocRound 1) (n + 1) (d, 0)) w₁ fun r w₂ =>
      r.1 = .ok ∧ w₂.winsect = r.2.sect := by
  induction hs with
  | here hv =>
    intro n d w₁ _ _ h hd hp
    subst hp
    rw [loop, returns_bind]
    refine (allocRound_vacant hg hon h hd hv).mono fun r w₂ hpost => ?_
    obtain ⟨hr, hs⟩ := hpost
    subst hr
    exact returns_pure.2 ⟨rfl, hs⟩
  | there hv hn _ ih =>
    intro n d w₁ hlt hle h hd hp
    subst hp
    obtain ⟨n, rfl⟩ : ∃ m, n = m + 1 := ⟨n - 1, by simp only [SZDIRE] at *; omega⟩
    rw [loop, returns_bind]
    refine allocRound_used hg hon h hd hv fun w₂ h₂ => (dirNext_ok hg hon h₂ hd hn).mono
      fun r w₃ hpost => ?_
    obtain ⟨h₃, hr, hat⟩ := hpost
    subst hr
    exact ih (allocFuel hn hle).1 (allocFuel hn hle).2 h₃ hat rfl

/-- The loop of `dir_alloc` through a full table. -/
theorem allocLoop_full (hone : ∀ e, g.IsClust e → g.entry w.logical e ≠ 1) {p q : Pos}
    (hs : Full g w.logical p q) : ∀ {n : Nat} {d : DIR} {w₁ : State},
    d.dptr < MAX_DIR → MAX_DIR ≤ d.dptr + SZDIRE * n → Scouted g w w₁ → d.At g → d.pos = p →
    Returns (loop (allocRound 1) (n + 1) (d, 0)) w₁ fun r w₂ =>
      (q.Stuck ∨ Exhausted g w → r.1 = .noFile ∨ r.1 = .denied) ∧
      (¬(q.Stuck ∨ Exhausted g w) → r.1 = .ok ∧ w₂.winsect = r.2.sect) := by
  induction hs with
  | last hv hn =>
    intro n d w₁ hlt hle h hd hp
    subst hp
    obtain ⟨n, rfl⟩ : ∃ m, n = m + 1 := ⟨n - 1, by simp only [SZDIRE] at *; omega⟩
    rw [loop, returns_bind]
    refine allocRound_used hg hon h hd hv fun w₂ h₂ => (dirNext_last hg hon hone h₂ hd hn).mono
      fun r w₃ hpost => ?_
    obtain ⟨hden, hok⟩ := hpost
    by_cases hs : d.pos.Stuck ∨ Exhausted g w
    · have hne : r.1 ≠ .ok := fun h => by
        have := hden hs
        rw [h] at this
        simp at this
      rw [if_neg hne]
      exact returns_pure.2 ⟨hden, fun h => absurd hs h⟩
    · -- the first entry of the cleared table is taken
      obtain ⟨hr, hsect, hz⟩ := hok hs
      rw [if_pos hr]
      show Returns (loop (allocRound 1) (n + 1) (r.2, 0)) w₃ _
      rw [loop, returns_bind]
      exact ⟨_, _, allocRound_cleared hsect hz, returns_pure.2 ⟨fun h => absurd h hs,
        fun _ => ⟨rfl, hsect⟩⟩⟩
  | there hv hn _ ih =>
    intro n d w₁ hlt hle h hd hp
    subst hp
    obtain ⟨n, rfl⟩ : ∃ m, n = m + 1 := ⟨n - 1, by simp only [SZDIRE] at *; omega⟩
    rw [loop, returns_bind]
    refine allocRound_used hg hon h hd hv fun w₂ h₂ => (dirNext_ok hg hon h₂ hd hn).mono
      fun r w₃ hpost => ?_
    obtain ⟨h₃, hr, hat⟩ := hpost
    subst hr
    exact ih (allocFuel hn hle).1 (allocFuel hn hle).2 h₃ hat rfl

/-- `dir_alloc` is denied exactly in a full table that cannot grow. -/
theorem dirAlloc_exact (hw : Inv g w) (hf : w.Flushable)
    (hone : ∀ e, g.IsClust e → g.entry w.logical e ≠ 1) {dp : DIR} (hs : g.IsStart dp.sclust)
    {ps : List Pos} (ht : Table g w.logical (g.dirStart dp.sclust) ps) :
    Returns (dirAlloc dp 1) w fun r w' => (Crowded g w dp.sclust → r.1 = .denied) ∧
      (¬Crowded g w dp.sclust → r.1 = .ok ∧ w'.winsect = r.2.sect) := by
  obtain ⟨hstart, hat⟩ := DIR.start_eq hg hs
  have hscout : Scouted g w w := ⟨⟨hw, hf, .refl g w, rfl⟩, rfl⟩
  have hzero : (dp.moved (g.dirStart dp.sclust)).dptr = 0 := by
    show (g.dirStart dp.sclust).dptr = 0
    unfold Geometry.dirStart
    split <;> rfl
  have hlt : (dp.moved (g.dirStart dp.sclust)).dptr < MAX_DIR := by
    rw [hzero]
    decide
  have hle : MAX_DIR ≤ (dp.moved (g.dirStart dp.sclust)).dptr + SZDIRE * (MAX_DIR / SZDIRE) := by
    rw [hzero]
    decide
  rw [dirAlloc, returns_bind]
  refine ⟨_, _, dirSdi_zero hg hw.geo dp, ?_⟩
  rw [hstart]
  dsimp only
  rw [if_pos rfl, returns_bind]
  rcases ht.slot_or_full with ⟨q, hq⟩ | ⟨q, hq⟩
  · refine (allocLoop_slot hg hon hq hlt hle hscout hat rfl).mono fun r w₁ hpost => ?_
    obtain ⟨hok, hsect⟩ := hpost
    rw [returns_pure, hok, if_neg (by decide)]
    refine ⟨fun hcrowd => ?_, fun _ => ⟨rfl, hsect⟩⟩
    obtain ⟨r, hfull, _⟩ := hcrowd
    exact absurd hfull hq.not_full
  · refine (allocLoop_full hg hon hone hq hlt hle hscout hat rfl).mono fun r w₁ hpost => ?_
    obtain ⟨hden, hok⟩ := hpost
    rw [returns_pure]
    refine ⟨fun hcrowd => ?_, fun hn => ?_⟩
    · obtain ⟨q', hq', hcrowd⟩ := hcrowd
      rw [hq'.unique hq] at hcrowd
      rcases hden hcrowd with h | h
      · rw [h, if_pos rfl]
      · rw [h, if_neg (by decide)]
    · obtain ⟨h, hsect⟩ := hok fun h => hn ⟨q, hq, h⟩
      rw [h, if_neg (by decide)]
      exact ⟨rfl, hsect⟩

/-- `dir_register` succeeds exactly where an entry can be made. -/
theorem dirRegister_exact (hw : Inv g w) (hf : w.Flushable)
    (hone : ∀ e, g.IsClust e → g.entry w.logical e ≠ 1) {dp : DIR} (hs : g.IsStart dp.sclust)
    {ps : List Pos} (ht : Table g w.logical (g.dirStart dp.sclust) ps) :
    Returns (dirRegister dp) w fun r _ => (Crowded g w dp.sclust → r.1 = .denied) ∧
      (¬Crowded g w dp.sclust → r.1 = .ok) := by
  rw [dirRegister, returns_bind]
  refine (dirAlloc_exact hg hon hw hf hone hs ht).mono fun r w₁ hpost => ?_
  obtain ⟨res, d⟩ := r
  obtain ⟨hden, hok⟩ := hpost
  dsimp only at hden hok ⊢
  by_cases hcrowd : Crowded g w dp.sclust
  · rw [if_neg (by rw [hden hcrowd]; decide)]
    exact returns_pure.2 ⟨hden, fun h => absurd hcrowd h⟩
  · obtain ⟨hr, hsect⟩ := hok hcrowd
    have hmove : moveWindow d.sect w₁ = some (.ok, w₁) := by
      rw [moveWindow, get_bind_apply, if_neg (not_not.2 hsect.symm)]
      rfl
    rw [if_pos hr, returns_bind]
    refine ⟨_, _, hmove, ?_⟩
    beta_reduce
    rw [if_pos rfl, returns_bind, returns_modWin]
    exact returns_pure.2 ⟨fun h => absurd h hcrowd, fun _ => rfl⟩

end

end FatFs
