import FatFs.Fat.Scan

/-!
# The table of a directory

A directory table as what it is for: the list of its entries up to the terminator or the end of the
chain (`Table`), in the order in which `dir_next` walks through it. `dir_next` goes from one entry
to the next one (`dirNext_table`), `dir_read` stops at the first entry that it takes
(`dirRead_table`), and `dir_find` at the first one with the name (`dirFind_table`). The walks only
read, so they see the same table however often it is walked through.
-/

namespace FatFs

open Run

/-- A place in a directory table: the offset, and the cluster and the sector it is in. -/
structure Pos where
  dptr : Nat
  clust : Nat
  sect : Nat
  deriving DecidableEq, Repr

/-- The place of a directory object. -/
def DIR.pos (d : DIR) : Pos := ⟨d.dptr, d.clust, d.sect⟩

/-- The directory object at another place. -/
def DIR.moved (d : DIR) (p : Pos) : DIR :=
  { d with dptr := p.dptr, clust := p.clust, sect := p.sect, dir := p.dptr % SS }

namespace Pos

/-- The place behind the entry, in the FAT of the logical content `L`. -/
def next (g : Geometry) (L : Nat → Sector) (p : Pos) : Except FRESULT Pos :=
  if MAX_DIR ≤ p.dptr + SZDIRE then .error .noFile
  else if (p.dptr + SZDIRE) % SS = 0 then
    if p.clust = 0 then
      if g.nRootdir ≤ (p.dptr + SZDIRE) / SZDIRE then .error .noFile
      else .ok ⟨p.dptr + SZDIRE, p.clust, add32 p.sect 1⟩
    else if (p.dptr + SZDIRE) / SS % g.csize = 0 then
      if g.link L p.clust ≤ 1 then .error .intErr
      else if g.nFatent ≤ g.link L p.clust then .error .noFile
      else .ok ⟨p.dptr + SZDIRE, g.link L p.clust, clst2sect g (g.link L p.clust)⟩
    else .ok ⟨p.dptr + SZDIRE, p.clust, add32 p.sect 1⟩
  else .ok ⟨p.dptr + SZDIRE, p.clust, p.sect⟩

/-- The first byte of the entry: 0 is the terminator. -/
def head (L : Nat → Sector) (p : Pos) : UInt8 := L p.sect (p.dptr % SS)

/-- The attribute byte of the entry. -/
def attr (L : Nat → Sector) (p : Pos) : UInt8 := L p.sect (p.dptr % SS + DIR_Attr)

/-- The name of the entry in directory form. -/
def name (L : Nat → Sector) (p : Pos) : List UInt8 := (L p.sect).bytes (p.dptr % SS) 11

/-- The information of the entry. -/
def info (L : Nat → Sector) (p : Pos) : FILINFO :=
  { fname := sfnName (L p.sect) (p.dptr % SS)
    fattrib := p.attr L &&& AM_MASK
    fsize := ldDword (L p.sect) (p.dptr % SS + DIR_FileSize)
    ftime := ldWord (L p.sect) (p.dptr % SS + DIR_ModTime)
    fdate := ldWord (L p.sect) (p.dptr % SS + DIR_ModTime + 2) }

/-- `f_readdir` delivers the entry. -/
def listed (L : Nat → Sector) (p : Pos) : Bool := readable (p.head L) (p.attr L &&& AM_MASK) false

/-- `dir_find` stops at the entry when it looks for the name `fn`. -/
def fits (L : Nat → Sector) (fn : List UInt8) (p : Pos) : Bool :=
  !hasBits (p.attr L) AM_VOL && p.name L == fn

end Pos

/-- The entries of a directory table from a place on, up to the terminator or the end of the
table. -/
inductive Table (g : Geometry) (L : Nat → Sector) : Pos → List Pos → Prop
  | terminator {p : Pos} : p.head L = 0 → Table g L p []
  | last {p : Pos} : p.head L ≠ 0 → p.next g L = .error .noFile → Table g L p [p]
  | entry {p q : Pos} {ps : List Pos} : p.head L ≠ 0 → p.next g L = .ok q → Table g L q ps →
      Table g L p (p :: ps)

theorem DIR.moved_pos {d : DIR} (h : d.dir = d.dptr % SS) : d.moved d.pos = d := by
  unfold DIR.moved DIR.pos
  rw [← h]

@[simp] theorem DIR.pos_moved (d : DIR) (p : Pos) : (d.moved p).pos = p := rfl

@[simp] theorem DIR.pos_attr (d : DIR) (a : UInt8) : DIR.pos { d with attr := a } = d.pos := rfl

theorem DIR.At.attr {g : Geometry} {d : DIR} (h : d.At g) (a : UInt8) :
    DIR.At g { d with attr := a } :=
  ⟨h.sect, h.dir, h.aligned⟩

section
variable {g : Geometry} (hg : g.Sound) {w : State}

include hg

/-- Moving the window to a sector of the volume shows its content. -/
theorem Scanned.move {w₁ : State} (h : Scanned g w w₁) {s : Nat} (hs : g.InArea s)
    (hon : s < w.disk.sectors) :
    Returns (moveWindow s) w₁ fun r w₂ => r = .ok ∧ Scanned g w w₂ ∧ w₂.win = w.logical s := by
  refine (moveWindow_inv hg h.inv s).mono fun r w₂ h₂ => ?_
  have hon₁ : s < w₁.disk.sectors := by
    rw [h.sectors]
    exact hon
  obtain rfl : r = .ok := (h₂.good h.good).2 hon₁
  refine ⟨rfl, ⟨h₂.inv, (h₂.good h.good).1, h.same.trans h₂.same,
    h₂.kept.sectors.trans h.sectors⟩, ?_⟩
  rw [h₂.win rfl hon₁, h₂.same s hs.not_inFat2, h.same s hs.not_inFat2]

/-- `dir_next` goes to the place behind the entry. -/
theorem dirNext_table {w₁ : State} (h : Scanned g w w₁) (ho : g.FatOn w) {d : DIR} (hd : d.At g) :
    Returns (dirNext d false) w₁ fun r w₂ => Scanned g w w₂ ∧
      match d.pos.next g w.logical with
      | .ok p => r = (.ok, d.moved p) ∧ (d.moved p).At g
      | .error e => r.1 = e ∧ (e = .noFile → r.2.sect = 0) ∧ r.2.fs = d.fs ∧ r.2.id = d.id := by
  have hne := hd.sect_ne hg
  have hal : (d.dptr + SZDIRE) % SZDIRE = 0 := by
    rw [Nat.add_mod_right]
    exact hd.aligned
  rw [dirNext, returns_bind, returns_get, h.inv.geo]
  unfold Pos.next DIR.pos
  by_cases hmax : MAX_DIR ≤ d.dptr + SZDIRE
  · simp only [hmax, if_true, returns_pure]
    exact ⟨h, trivial, fun _ => trivial, trivial, trivial⟩
  simp only [hmax, hne, if_false]
  by_cases hsec : (d.dptr + SZDIRE) % SS = 0
  · simp only [hsec, if_true, hg.and_csize]
    by_cases hroot : d.clust = 0
    · simp only [hroot, if_true]
      by_cases hend : g.nRootdir ≤ (d.dptr + SZDIRE) / SZDIRE
      · simp only [hend, if_true, returns_pure]
        exact ⟨h, trivial, fun _ => trivial, trivial, trivial⟩
      · simp only [hend, if_false, returns_pure]
        have hat := hd.nextSect hg hsec (fun _ => by omega) fun hc => absurd hroot hc
        rw [hroot] at hat
        rw [DIR.moved, hsec]
        rw [hsec] at hat
        exact ⟨h, rfl, hat⟩
    · simp only [hroot, if_false]
      by_cases hcl : (d.dptr + SZDIRE) / SS % g.csize = 0
      · simp only [hcl, if_true, returns_bind]
        refine (h.link hg ho d.clust).mono fun c w₂ hpost => ?_
        obtain ⟨h₂, hc⟩ := hpost
        subst hc
        have hlink := g.link_lt w.logical d.clust
        have hdisk : g.link w.logical d.clust ≠ DISKERR := by omega
        by_cases hone : g.link w.logical d.clust ≤ 1
        · simp only [hone, if_true, returns_pure]
          exact ⟨h₂, trivial, by simp, trivial, trivial⟩
        simp only [hone, hdisk, if_false]
        by_cases hout : g.nFatent ≤ g.link w.logical d.clust
        · simp only [hout, if_true, Bool.false_eq_true, if_false, returns_pure]
          exact ⟨h₂, trivial, fun _ => trivial, trivial, trivial⟩
        · simp only [hout, if_false, returns_pure]
          have hclust : g.IsClust (g.link w.logical d.clust) := ⟨by omega, by omega⟩
          have hat := DIR.enter_at hg d hclust hcl hal
          simp only [DIR.enter, DIR.moved, hsec] at hat ⊢
          exact ⟨h₂, trivial, hat⟩
      · simp only [hcl, if_false, returns_pure]
        have hat := hd.nextSect hg hsec (fun hc => absurd hc hroot) fun _ => hcl
        rw [DIR.moved, hsec]
        rw [hsec] at hat
        exact ⟨h, rfl, hat⟩
  · simp only [hsec, if_false, returns_pure]
    exact ⟨h, rfl, hd.next hg hsec⟩

omit hg in
theorem Pos.next_dptr {L : Nat → Sector} {p q : Pos} (h : p.next g L = .ok q) :
    q.dptr = p.dptr + SZDIRE ∧ p.dptr + SZDIRE < MAX_DIR := by
  unfold Pos.next at h
  split at h
  · cases h
  · rename_i hlt
    refine ⟨?_, Nat.lt_of_not_le hlt⟩
    split at h
    · split at h
      · split at h
        · cases h
        · cases h
          rfl
      · split at h
        · split at h
          · cases h
          · split at h
            · cases h
            · cases h
              rfl
        · cases h
          rfl
    · cases h
      rfl

omit hg in
/-- The table ends at the limit of a directory. -/
theorem Table.length_le {L : Nat → Sector} {p : Pos} {ps : List Pos} (h : Table g L p ps)
    (hal : p.dptr % SZDIRE = 0) (hp : p.dptr < MAX_DIR) :
    p.dptr + SZDIRE * ps.length ≤ MAX_DIR := by
  induction h with
  | terminator =>
    rw [List.length_nil]
    omega
  | last =>
    simp only [List.length_cons, List.length_nil, SZDIRE, MAX_DIR] at *
    omega
  | entry _ hn _ ih =>
    obtain ⟨h₁, h₂⟩ := Pos.next_dptr hn
    have := ih (by rw [h₁, Nat.add_mod_right]; exact hal) (by omega)
    rw [List.length_cons, Nat.mul_succ]
    omega

/-! ## `dir_read` -/

omit hg in
/-- The state after the entry `q` was reached: the window shows it, and `qs` is behind it. -/
structure Reached (g : Geometry) (w : State) (d : DIR) (q : Pos) (qs : List Pos) (r : DIR)
    (w' : State) : Prop where
  scanned : Scanned g w w'
  dir : r = { d.moved q with attr := q.attr w.logical &&& AM_MASK }
  at_ : r.At g
  win : w'.win = w.logical q.sect
  table : Table g w.logical q (q :: qs)

/-- The window on the entry that a directory object stands on. -/
theorem DIR.At.show {w₁ : State} (h : Scanned g w w₁) (hon : g.volEnd ≤ w.disk.sectors) {d : DIR}
    (hd : d.At g) : Returns (moveWindow d.sect) w₁ fun r w₂ =>
      r = .ok ∧ Scanned g w w₂ ∧ w₂.win = w.logical d.pos.sect ∧
        w₂.win d.dir = d.pos.head w.logical ∧ w₂.win (d.dir + DIR_Attr) = d.pos.attr w.logical := by
  have harea := hd.inArea hg
  refine (h.move hg harea (Nat.lt_of_lt_of_le harea.2 hon)).mono fun r w₂ ⟨hr, h₂, hw₂⟩ => ?_
  refine ⟨hr, h₂, hw₂, ?_, ?_⟩
  · rw [hw₂, hd.dir]
    rfl
  · rw [hw₂, hd.dir]
    rfl

/-- One round of `dir_read` at an entry: it stops there, or goes to the place behind it. -/
theorem readRound_entry (hon : g.volEnd ≤ w.disk.sectors) (ho : g.FatOn w) {w₁ : State}
    (h : Scanned g w w₁) {d : DIR} (hd : d.At g) (hh : d.pos.head w.logical ≠ 0) (res : FRESULT) :
    Returns (readRound false (res, d)) w₁ fun r w₂ => Scanned g w w₂ ∧
      if d.pos.listed w.logical then
        r = .inr (.ok, { d with attr := d.pos.attr w.logical &&& AM_MASK }) ∧
          w₂.win = w.logical d.pos.sect
      else match d.pos.next g w.logical with
        | .ok q => ∃ a, r = .inl (.ok, { d.moved q with attr := a }) ∧ (d.moved q).At g
        | .error e => e ≠ .ok → ∃ d', r = .inr (e, d') := by
  rw [readRound, if_neg (hd.sect_ne hg), returns_bind]
  refine (hd.show hg h hon).mono fun r w₂ hpost => ?_
  obtain ⟨hr, h₂, hwin, hb, ha⟩ := hpost
  subst hr
  simp only [ne_eq, not_true_eq_false, if_false, returns_bind, returns_get, hb, ha, hh, returns_ite,
    returns_pure]
  refine ⟨False.elim, fun _ => ⟨fun hl => ⟨h₂, ?_⟩, fun hl => ?_⟩⟩
  · rw [if_pos (show d.pos.listed w.logical = true from hl)]
    exact ⟨trivial, hwin⟩
  · simp only [show ¬d.pos.listed w.logical = true from hl]
    refine (dirNext_table hg h₂ ho (hd.attr (d.pos.attr w.logical &&& AM_MASK))).mono
      fun r w₃ hpost => ?_
    obtain ⟨h₃, hnext⟩ := hpost
    rw [DIR.pos_attr] at hnext
    cases hn : d.pos.next g w.logical with
    | ok q =>
      rw [hn] at hnext
      obtain ⟨rfl, hat⟩ := hnext
      exact ⟨fun _ => ⟨h₃, _, rfl, ⟨hat.sect, hat.dir, hat.aligned⟩⟩, by simp⟩
    | error e =>
      rw [hn] at hnext
      obtain ⟨rfl, -⟩ := hnext
      exact ⟨fun hok => ⟨h₃, fun hne => absurd hok hne⟩, fun _ => ⟨h₃, fun _ => ⟨_, rfl⟩⟩⟩

/-- At the terminator `dir_read` stops. -/
theorem readRound_terminator (hon : g.volEnd ≤ w.disk.sectors) {w₁ : State} (h : Scanned g w w₁)
    {d : DIR} (hd : d.At g) (hh : d.pos.head w.logical = 0) (res : FRESULT) :
    Returns (readRound false (res, d)) w₁ fun r w₂ => Scanned g w w₂ ∧ r = .inr (.noFile, d) := by
  rw [readRound, if_neg (hd.sect_ne hg), returns_bind]
  refine (hd.show hg h hon).mono fun r w₂ hpost => ?_
  obtain ⟨hr, h₂, _, hb, _⟩ := hpost
  subst hr
  simp only [ne_eq, not_true_eq_false, if_false, returns_bind, returns_get, hb, hh, if_true,
    returns_pure]
  exact ⟨h₂, trivial⟩

/-- The loop of `dir_read` stops at the first entry that is listed. -/
theorem readLoop_table (hon : g.volEnd ≤ w.disk.sectors) (ho : g.FatOn w) {p : Pos} {ps : List Pos}
    (ht : Table g w.logical p ps) : ∀ {n : Nat} {res : FRESULT} {d : DIR} {w₁ : State},
    ps.length < n → Scanned g w w₁ → d.At g → d.pos = p →
    Returns (loop (readRound false) n (res, d)) w₁ fun r w₂ => Scanned g w w₂ ∧
      match ps.dropWhile (!Pos.listed w.logical ·) with
      | [] => r.1 = .noFile
      | q :: qs => r.1 = .ok ∧ Reached g w d q qs r.2 w₂ := by
  induction ht with
  | terminator hh =>
    intro n res d w₁ hn hs hd hp
    obtain ⟨n, rfl⟩ : ∃ m, n = m + 1 := ⟨n - 1, by omega⟩
    subst hp
    rw [loop, returns_bind]
    refine (readRound_terminator hg hon hs hd hh res).mono fun r w₂ hpost => ?_
    obtain ⟨h₂, hr⟩ := hpost
    subst hr
    exact returns_pure.2 ⟨h₂, rfl⟩
  | @last p hh hnext =>
    intro n res d w₁ hn hs hd hp
    obtain ⟨n, rfl⟩ : ∃ m, n = m + 1 := ⟨n - 1, by omega⟩
    subst hp
    rw [loop, returns_bind]
    refine (readRound_entry hg hon ho hs hd hh res).mono fun r w₂ hpost => ?_
    obtain ⟨h₂, hr⟩ := hpost
    cases hl : d.pos.listed w.logical with
    | true =>
      rw [hl, if_pos rfl] at hr
      obtain ⟨rfl, hwin⟩ := hr
      rw [List.dropWhile_cons_of_neg (by simp [hl])]
      exact returns_pure.2 ⟨h₂, rfl,
        ⟨h₂, by rw [DIR.moved_pos hd.dir], hd.attr _, hwin, .last hh hnext⟩⟩
    | false =>
      rw [hl, if_neg (by simp), hnext] at hr
      obtain ⟨d', rfl⟩ := hr (by simp)
      rw [List.dropWhile_cons_of_pos (by simp [hl])]
      exact returns_pure.2 ⟨h₂, rfl⟩
  | @entry p q ps hh hnext ht ih =>
    intro n res d w₁ hn hs hd hp
    obtain ⟨n, rfl⟩ : ∃ m, n = m + 1 := ⟨n - 1, by omega⟩
    subst hp
    rw [loop, returns_bind]
    refine (readRound_entry hg hon ho hs hd hh res).mono fun r w₂ hpost => ?_
    obtain ⟨h₂, hr⟩ := hpost
    cases hl : d.pos.listed w.logical with
    | true =>
      rw [hl, if_pos rfl] at hr
      obtain ⟨rfl, hwin⟩ := hr
      rw [List.dropWhile_cons_of_neg (by simp [hl])]
      exact returns_pure.2 ⟨h₂, rfl, ⟨h₂, by rw [DIR.moved_pos hd.dir], hd.attr _, hwin,
        .entry hh hnext ht⟩⟩
    | false =>
      rw [hl, if_neg (by simp), hnext] at hr
      obtain ⟨a, rfl, hat⟩ := hr
      rw [List.dropWhile_cons_of_pos (by simp [hl])]
      refine (ih (by rw [List.length_cons] at hn; omega) h₂ (hat.attr a) rfl).mono
        fun r w₃ hpost => ?_
      obtain ⟨h₃, hr⟩ := hpost
      refine ⟨h₃, ?_⟩
      cases hd' : ps.dropWhile (!Pos.listed w.logical ·) with
      | nil =>
        rw [hd'] at hr
        exact hr
      | cons q' qs =>
        rw [hd'] at hr
        exact ⟨hr.1, ⟨hr.2.scanned, hr.2.dir, hr.2.at_, hr.2.win, hr.2.table⟩⟩

/-- `dir_read` from a place in the table. -/
theorem dirRead_table (hon : g.volEnd ≤ w.disk.sectors) (ho : g.FatOn w) {w₁ : State}
    (h : Scanned g w w₁) {d : DIR} (hd : d.At g) (hmax : d.dptr < MAX_DIR) {ps : List Pos}
    (ht : Table g w.logical d.pos ps) :
    Returns (dirRead d false) w₁ fun r w₂ => Scanned g w w₂ ∧
      match ps.dropWhile (!Pos.listed w.logical ·) with
      | [] => r.1 = .noFile ∧ r.2.sect = 0
      | q :: qs => r.1 = .ok ∧ Reached g w d q qs r.2 w₂ := by
  have hlen : ps.length < MAX_DIR / SZDIRE + 1 := by
    have := ht.length_le hd.aligned hmax
    simp only [MAX_DIR, SZDIRE] at *
    omega
  rw [dirRead, returns_bind]
  refine (readLoop_table hg hon ho ht hlen h hd rfl).mono
    fun r w₂ hpost => ?_
  obtain ⟨h₂, hr⟩ := hpost
  refine returns_pure.2 ⟨h₂, ?_⟩
  cases hps : ps.dropWhile (!Pos.listed w.logical ·) with
  | nil =>
    rw [hps] at hr
    simp [hr]
  | cons q qs =>
    rw [hps] at hr
    rw [hr.1]
    exact ⟨rfl, hr.2⟩

/-! ## `dir_find` -/

omit hg in
/-- The directory object at the start of its table. -/
def DIR.start (g : Geometry) (d : DIR) : FRESULT × DIR :=
  let clst := if d.sclust = 0 ∧ g.fsType = .fat32 then g.dirbase else d.sclust
  if clst = 0 then
    if g.nRootdir = 0 then (.intErr, { d with dptr := 0 })
    else sdiEnd { d with dptr := 0 } clst g.dirbase 0
  else sdiEnd { d with dptr := 0 } clst (clst2sect g clst) 0

theorem dirSdi_zero {w₁ : State} (hw : w₁.geo = g) (d : DIR) :
    dirSdi d 0 w₁ = some (d.start g, w₁) := by
  have hlt : ¬g.csize * SS ≤ 0 := by
    have := hg.csize_pos
    simp only [SS]
    omega
  have hr : Returns (dirSdi d 0) w₁ fun r w₂ => r = d.start g ∧ w₂ = w₁ := by
    have hofs : ¬(MAX_DIR ≤ 0 ∨ 0 % SZDIRE ≠ 0) := by decide
    rw [dirSdi, returns_bind, returns_get, hw, if_neg hofs]
    unfold DIR.start
    simp only [Nat.zero_div, Nat.le_zero, returns_ite]
    refine ⟨fun hc => ?_, fun hc => ?_⟩
    · rw [if_pos hc]
      refine ⟨fun h0 => ?_, fun h0 => ?_⟩
      · rw [if_pos h0]
        exact returns_pure.2 ⟨rfl, rfl⟩
      · rw [if_neg h0]
        exact returns_pure.2 ⟨rfl, rfl⟩
    · rw [if_neg hc, returns_bind, loop, returns_bind, sdiRound, if_neg hlt]
      simp only [returns_pure]
      exact ⟨trivial, trivial⟩
  obtain ⟨r, w₂, hm, rfl, rfl⟩ := hr
  exact hm

omit hg in
/-- What a directory object at the start of its table is. -/
theorem DIR.start_ok {d e : DIR} (h : d.start g = (.ok, e)) : e.sclust = d.sclust ∧ e.fs = d.fs ∧
    e.id = d.id ∧ e.dptr = 0 ∧ ∀ fn, DIR.start g { e with fn := fn } =
    (.ok, { e with fn := fn }) := by
  have hend : ∀ {clst sect : Nat}, sdiEnd { d with dptr := 0 } clst sect 0 = (.ok, e) →
      sect ≠ 0 ∧ e = { d with dptr := 0, clust := clst, sect := add32 sect 0, dir := 0 } := by
    intro clst sect he
    unfold sdiEnd at he
    split at he
    · cases he
    · exact ⟨‹_›, (Prod.mk.inj he).2.symm⟩
  unfold DIR.start at h
  by_cases hc : (if d.sclust = 0 ∧ g.fsType = .fat32 then g.dirbase else d.sclust) = 0
  · rw [if_pos hc] at h
    by_cases hn : g.nRootdir = 0
    · rw [if_pos hn] at h
      cases h
    · rw [if_neg hn] at h
      obtain ⟨hs, rfl⟩ := hend h
      refine ⟨rfl, rfl, rfl, rfl, fun fn => ?_⟩
      unfold DIR.start
      simp only [hc, hn, if_true, if_false, sdiEnd, hs]
      rfl
  · rw [if_neg hc] at h
    obtain ⟨hs, rfl⟩ := hend h
    refine ⟨rfl, rfl, rfl, rfl, fun fn => ?_⟩
    unfold DIR.start
    simp only [hc, if_false, sdiEnd, hs]
    rfl

/-- One round of `dir_find` at an entry: it stops there, or goes to the place behind it. -/
theorem findEntRound_entry (hon : g.volEnd ≤ w.disk.sectors) (ho : g.FatOn w) {w₁ : State}
    (h : Scanned g w w₁) {d : DIR} (hd : d.At g) (hh : d.pos.head w.logical ≠ 0) :
    Returns (findEntRound d) w₁ fun r w₂ => Scanned g w w₂ ∧
      if d.pos.fits w.logical d.fn then
        r = .inr (.ok, { d with attr := d.pos.attr w.logical &&& AM_MASK }) ∧
          w₂.win = w.logical d.pos.sect
      else match d.pos.next g w.logical with
        | .ok q => ∃ a, r = .inl { d.moved q with attr := a } ∧ (d.moved q).At g
        | .error e => e ≠ .ok → ∃ d', r = .inr (e, d') := by
  rw [findEntRound, returns_bind]
  refine (hd.show hg h hon).mono fun r w₂ hpost => ?_
  obtain ⟨hr, h₂, hwin, hb, ha⟩ := hpost
  subst hr
  have hname : w₂.win.bytes d.dir 11 = d.pos.name w.logical := by
    rw [hwin, hd.dir]
    rfl
  simp only [ne_eq, not_true_eq_false, if_false, returns_bind, returns_get, hb, ha, hh, hname,
    returns_ite, returns_pure]
  refine ⟨False.elim, fun _ => ⟨fun hl => ⟨h₂, ?_⟩, fun hl => ?_⟩⟩
  · rw [if_pos (show d.pos.fits w.logical d.fn = true from hl)]
    exact ⟨trivial, hwin⟩
  · simp only [show ¬d.pos.fits w.logical d.fn = true from hl]
    refine (dirNext_table hg h₂ ho (hd.attr (d.pos.attr w.logical &&& AM_MASK))).mono
      fun r w₃ hpost => ?_
    obtain ⟨h₃, hnext⟩ := hpost
    rw [DIR.pos_attr] at hnext
    cases hn : d.pos.next g w.logical with
    | ok q =>
      rw [hn] at hnext
      obtain ⟨rfl, hat⟩ := hnext
      exact ⟨fun _ => ⟨h₃, _, rfl, ⟨hat.sect, hat.dir, hat.aligned⟩⟩, by simp⟩
    | error e =>
      rw [hn] at hnext
      obtain ⟨rfl, -⟩ := hnext
      exact ⟨fun hok => ⟨h₃, fun hne => absurd hok hne⟩, fun _ => ⟨h₃, fun _ => ⟨_, rfl⟩⟩⟩

/-- The loop of `dir_find` stops at the first entry with the name. -/
theorem findLoop_table (hon : g.volEnd ≤ w.disk.sectors) (ho : g.FatOn w) {p : Pos} {ps : List Pos}
    (ht : Table g w.logical p ps) : ∀ {n : Nat} {d : DIR} {w₁ : State},
    ps.length < n → Scanned g w w₁ → d.At g → d.pos = p →
    Returns (loop findEntRound n d) w₁ fun r w₂ => Scanned g w w₂ ∧
      match ps.find? (Pos.fits w.logical d.fn) with
      | none => r.1 = .noFile
      | some q => r.1 = .ok ∧ r.2 = { d.moved q with attr := q.attr w.logical &&& AM_MASK } ∧
          w₂.win = w.logical q.sect ∧ r.2.At g := by
  induction ht with
  | @terminator p hh =>
    intro n d w₁ hn hs hd hp
    obtain ⟨n, rfl⟩ : ∃ m, n = m + 1 := ⟨n - 1, by omega⟩
    subst hp
    rw [loop, returns_bind, findEntRound, returns_bind]
    refine (hd.show hg hs hon).mono fun r w₂ hpost => ?_
    obtain ⟨hr, h₂, _, hb, _⟩ := hpost
    subst hr
    simp only [ne_eq, not_true_eq_false, if_false, returns_bind, returns_get, hb, hh, if_true,
      returns_pure]
    exact ⟨h₂, trivial⟩
  | @last p hh hnext =>
    intro n d w₁ hn hs hd hp
    obtain ⟨n, rfl⟩ : ∃ m, n = m + 1 := ⟨n - 1, by omega⟩
    subst hp
    rw [loop, returns_bind]
    refine (findEntRound_entry hg hon ho hs hd hh).mono fun r w₂ hpost => ?_
    obtain ⟨h₂, hr⟩ := hpost
    cases hl : d.pos.fits w.logical d.fn with
    | true =>
      rw [hl, if_pos rfl] at hr
      obtain ⟨rfl, hwin⟩ := hr
      rw [List.find?_cons_of_pos hl]
      exact returns_pure.2 ⟨h₂, rfl, by rw [DIR.moved_pos hd.dir], hwin, hd.attr _⟩
    | false =>
      rw [hl, if_neg (by simp), hnext] at hr
      obtain ⟨d', rfl⟩ := hr (by simp)
      rw [List.find?_cons_of_neg (by simp [hl])]
      exact returns_pure.2 ⟨h₂, rfl⟩
  | @entry p q ps hh hnext ht ih =>
    intro n d w₁ hn hs hd hp
    obtain ⟨n, rfl⟩ : ∃ m, n = m + 1 := ⟨n - 1, by omega⟩
    subst hp
    rw [loop, returns_bind]
    refine (findEntRound_entry hg hon ho hs hd hh).mono fun r w₂ hpost => ?_
    obtain ⟨h₂, hr⟩ := hpost
    cases hl : d.pos.fits w.logical d.fn with
    | true =>
      rw [hl, if_pos rfl] at hr
      obtain ⟨rfl, hwin⟩ := hr
      rw [List.find?_cons_of_pos hl]
      exact returns_pure.2 ⟨h₂, rfl, by rw [DIR.moved_pos hd.dir], hwin, hd.attr _⟩
    | false =>
      rw [hl, if_neg (by simp), hnext] at hr
      obtain ⟨a, rfl, hat⟩ := hr
      rw [List.find?_cons_of_neg (by simp [hl])]
      exact ih (by rw [List.length_cons] at hn; omega) h₂ (hat.attr a) rfl

/-- `dir_find` from a directory object that is at the start of its table. -/
theorem dirFind_table (hon : g.volEnd ≤ w.disk.sectors) (ho : g.FatOn w) {w₁ : State}
    (h : Scanned g w w₁) {d : DIR} (hd : d.At g) (hstart : d.start g = (.ok, d)) {ps : List Pos}
    (ht : Table g w.logical d.pos ps) :
    Returns (dirFind d) w₁ fun r w₂ => Scanned g w w₂ ∧
      match ps.find? (Pos.fits w.logical d.fn) with
      | none => r.1 = .noFile
      | some q => r.1 = .ok ∧ r.2 = { d.moved q with attr := q.attr w.logical &&& AM_MASK } ∧
          w₂.win = w.logical q.sect ∧ r.2.At g := by
  have hmax : d.dptr < MAX_DIR := by
    rw [(DIR.start_ok hstart).2.2.2.1]
    decide
  have hlen : ps.length < MAX_DIR / SZDIRE + 1 := by
    have := ht.length_le hd.aligned hmax
    simp only [MAX_DIR, SZDIRE] at *
    omega
  rw [dirFind, returns_bind]
  refine ⟨_, _, dirSdi_zero hg h.inv.geo d, ?_⟩
  rw [hstart]
  show Returns (loop findEntRound (MAX_DIR / SZDIRE + 1) d) w₁ _
  exact findLoop_table hg hon ho ht hlen h hd rfl

end

end FatFs
