import FatFs.Dir.Table
import FatFs.Handle.Stale
import FatFs.Path.Names

/-!
# Listing and lookup

`f_readdir` and `dir_find` decide on their own which entries of a table are objects: the first
leaves out the entries whose attribute is that of a volume label, up to the archive bit, and of a
part of a long name; the second every entry with the volume bit. `listing_lookup_iff` says on which
attributes they agree: then the entries that are listed are those that are found, with the same
information.
-/

namespace FatFs

open Run

/-! ## `f_readdir` -/

/-- What `f_readdir` has before it: nothing after the end of the table. -/
def DIR.Cursor (g : Geometry) (L : Nat → Sector) (d : DIR) (ps : List Pos) : Prop :=
  (d.sect = 0 ∧ ps = []) ∨ (d.At g ∧ d.dptr < MAX_DIR ∧ Table g L d.pos ps)

theorem dirNext_ended {d : DIR} (h : d.sect = 0) (w : State) :
    Returns (dirNext d false) w fun r w' => w' = w ∧ r.1 = .noFile := by
  rw [dirNext, returns_bind, returns_get]
  have hs : (if MAX_DIR ≤ d.dptr + SZDIRE then { d with sect := 0 } else d).sect = 0 := by
    split
    · rfl
    · exact h
  rw [if_pos hs]
  exact returns_pure.2 ⟨rfl, rfl⟩

theorem dirRead_ended {d : DIR} (h : d.sect = 0) (w : State) :
    Returns (dirRead d false) w fun r w' => w' = w ∧ r.1 = .noFile ∧ r.2.sect = 0 := by
  rw [dirRead, returns_bind, loop, returns_bind, readRound, if_pos h]
  simp

section
variable {g : Geometry} (hg : g.Sound) {w : State}

include hg

theorem validate_mounted {w₁ : State} (h : Scanned g w w₁) :
    Returns (validate true g.id) w₁ fun r w₂ => r = .ok ∧ w₂ = w₁ := by
  rw [validate, returns_bind, returns_get, h.inv.geo]
  refine returns_pure.2 ⟨if_pos ⟨rfl, hg.fsType, rfl, by decide⟩, rfl⟩

/-- The information of the entry that a directory object stands on. -/
theorem getFileinfo_pos {L : Nat → Sector} {d r : DIR} {q : Pos} {a : UInt8} {win : Sector}
    (hr : r = { d.moved q with attr := a }) (hat : r.At g) (hwin : win = L q.sect) (fno : FILINFO) :
    getFileinfo win r fno = q.info L := by
  have hs : q.sect ≠ 0 := by
    have := hat.sect_ne hg
    rw [hr] at this
    exact this
  rw [hwin, hr]
  unfold getFileinfo DIR.moved
  rw [if_neg hs]
  rfl

/-- `f_readdir` delivers the first entry that is listed, and stands behind it then. -/
theorem fReaddir_table (hon : g.volEnd ≤ w.disk.sectors) (ho : g.FatOn w) {w₁ : State}
    (h : Scanned g w w₁) {d : DIR} (hfs : d.fs = true) (hid : d.id = g.id) {ps : List Pos}
    (hc : d.Cursor g w.logical ps) (fno : FILINFO) :
    Returns (fReaddir d fno) w₁ fun r w₂ => Scanned g w w₂ ∧ r.1 = .ok ∧
      match ps.dropWhile (!Pos.listed w.logical ·) with
      | [] => r.2.2.fname = []
      | q :: qs => r.2.2 = q.info w.logical ∧ r.2.1.fs = true ∧ r.2.1.id = g.id ∧
          r.2.1.Cursor g w.logical qs := by
  rw [fReaddir, hfs, hid, returns_bind]
  refine (validate_mounted hg h).mono fun r w₂ hpost => ?_
  obtain ⟨hr, hw₂⟩ := hpost
  subst hr hw₂
  simp only [if_true, returns_bind, returns_ite, returns_pure, returns_get]
  -- at the end of the table there is no information
  have hend : ∀ {d' : DIR} {w' : State}, Scanned g w w' → d'.sect = 0 →
      Returns (dirNext d' false) w' fun r w₂ => Scanned g w w₂ ∧
        (if r.1 = .noFile then FRESULT.ok else r.1) = .ok ∧
        (getFileinfo w'.win d' fno).fname = [] := fun {d' w'} h' hs => by
    refine (dirNext_ended hs w').mono fun r w₂ hpost => ?_
    obtain ⟨hw, hr⟩ := hpost
    subst hw
    refine ⟨h', if_pos hr, ?_⟩
    simp [getFileinfo, hs]
  rcases hc with ⟨hs, rfl⟩ | ⟨hat, hmax, ht⟩
  · refine (dirRead_ended hs w₂).mono fun r w₃ hpost => ?_
    obtain ⟨hw₃, hr, hs'⟩ := hpost
    refine ⟨fun _ => ?_, fun hn =>
      absurd (.inl hr) hn⟩
    subst hw₃
    exact hend h hs'
  · refine (dirRead_table hg hon ho h hat hmax ht).mono fun r w₃ hpost => ?_
    obtain ⟨h₃, hr⟩ := hpost
    cases hps : ps.dropWhile (!Pos.listed w.logical ·) with
    | nil =>
      rw [hps] at hr
      exact ⟨fun _ => hend h₃ hr.2, fun hn => absurd (.inl hr.1) hn⟩
    | cons q qs =>
      rw [hps] at hr
      obtain ⟨hok, hq⟩ := hr
      refine ⟨fun _ => ?_, fun hn => absurd (.inr hok) hn⟩
      have hinfo := getFileinfo_pos hg hq.dir hq.at_ hq.win fno
      have hpos : r.2.pos = q := by
        rw [hq.dir]
        rfl
      have hd : r.2.fs = true ∧ r.2.id = g.id := by
        rw [hq.dir]
        exact ⟨hfs, hid⟩
      refine (dirNext_table hg h₃ ho hq.at_).mono fun s w₄ hpost => ?_
      obtain ⟨h₄, hn⟩ := hpost
      refine ⟨h₄, ?_⟩
      rw [hpos] at hn
      simp only
      rw [hinfo]
      cases hq.table with
      | last _ hlast =>
        rw [hlast] at hn
        obtain ⟨hres, hs, hf, hi⟩ := hn
        exact ⟨if_pos hres, rfl, hf.trans hd.1, hi.trans hd.2, .inl ⟨hs rfl, rfl⟩⟩
      | entry _ hnext ht' =>
        rw [hnext] at hn
        obtain ⟨rfl, hat'⟩ := hn
        refine ⟨by simp, rfl, hd.1, hd.2, .inr ⟨hat', ?_, ht'⟩⟩
        obtain ⟨h₁, h₂⟩ := Pos.next_dptr hnext
        exact h₁.trans_lt h₂

/-! ## The listing -/

omit hg in
/-- One round of a listing, on the directory object, the information and the entries so far: the
loop goes on while `f_readdir` delivers an entry. Source: the conditions of `harness.c:30` and
`harness_stat.c:26`. -/
def listRound (p : DIR × FILINFO × List FILINFO) :
    M ((DIR × FILINFO × List FILINFO) ⊕ List FILINFO) := do
  let (res, d, fno) ← fReaddir p.1 p.2.1
  if res = .ok ∧ fno.fname.headD 0 ≠ 0 then return .inl (d, fno, p.2.2 ++ [fno])
  else return .inr p.2.2

omit hg in
/-- The entries that a walk through an open directory obtains. -/
def listDir (rounds : Nat) (d : DIR) : M (List FILINFO) := loop listRound rounds (d, {}, [])

omit hg in
/-- The elements with a property: the first of them, and the others behind it. -/
theorem filter_eq_of_dropWhile {α : Type} (p : α → Bool) (l : List α) :
    match l.dropWhile (!p ·) with
    | [] => l.filter p = []
    | a :: m => l.filter p = a :: m.filter p ∧ p a = true ∧ m.length < l.length ∧ a ∈ l ∧
        m ⊆ l := by
  induction l with
  | nil => simp
  | cons b l ih =>
    cases hb : p b with
    | true => simp [hb]
    | false =>
      rw [List.dropWhile_cons_of_pos (by simp [hb]), List.filter_cons_of_neg (by simp [hb])]
      cases hd : l.dropWhile (!p ·) with
      | nil =>
        rw [hd] at ih
        exact ih
      | cons a m =>
        rw [hd] at ih
        obtain ⟨h₁, h₂, h₃, h₄, h₅⟩ := ih
        exact ⟨h₁, h₂, Nat.lt_succ_of_lt h₃, List.mem_cons_of_mem b h₄,
          List.subset_cons_of_subset b h₅⟩

/-- The listing has the entries that are listed, in the order of the table. -/
theorem listLoop_table (hon : g.volEnd ≤ w.disk.sectors) (ho : g.FatOn w) :
    ∀ {ps : List Pos} {n : Nat} {d : DIR} {w₁ : State} (fno : FILINFO) (acc : List FILINFO),
    ps.length < n → Scanned g w w₁ → d.fs = true → d.id = g.id → d.Cursor g w.logical ps →
    (∀ q ∈ ps, q.listed w.logical = true → (q.info w.logical).fname.headD 0 ≠ 0) →
    Returns (loop listRound n (d, fno, acc)) w₁ fun r w₂ => Scanned g w w₂ ∧
      r = acc ++ (ps.filter (Pos.listed w.logical)).map (Pos.info w.logical) := by
  intro ps n
  induction n generalizing ps with
  | zero => exact fun _ _ hn => absurd hn (Nat.not_lt_zero _)
  | succ n ih =>
    intro d w₁ fno acc hn hs hfs hid hc hne
    rw [loop, returns_bind, listRound, returns_bind]
    refine (fReaddir_table hg hon ho hs hfs hid hc fno).mono fun r w₂ hpost => ?_
    obtain ⟨h₂, hok, hr⟩ := hpost
    have hsplit := filter_eq_of_dropWhile (Pos.listed w.logical) ps
    cases hd : ps.dropWhile (!Pos.listed w.logical ·) with
    | nil =>
      rw [hd] at hr hsplit
      simp only [hok, hr, hsplit, returns_ite, returns_pure]
      exact ⟨fun h => absurd rfl h.2, fun _ => ⟨h₂, by simp⟩⟩
    | cons q qs =>
      rw [hd] at hr hsplit
      obtain ⟨hinfo, hfs', hid', hc'⟩ := hr
      obtain ⟨hfilter, hq, hlen, hmem, hsub⟩ := hsplit
      have hname := hne q hmem hq
      rw [← hinfo] at hname
      simp only [returns_ite, returns_pure]
      refine ⟨fun _ => ?_, fun hno => absurd ⟨hok, hname⟩ hno⟩
      refine (ih r.2.2 (acc ++ [r.2.2]) (by omega) h₂ hfs' hid'
        hc' fun q' hq' => hne q' (hsub hq')).mono
        fun l w₃ hpost => ?_
      obtain ⟨h₃, hl⟩ := hpost
      refine ⟨h₃, ?_⟩
      rw [hl, hfilter, hinfo, List.map_cons, List.append_assoc]
      rfl

/-- An open directory is at the start of its table. -/
theorem fOpendir_opened {w₀ : State} (hw : OnDevice g w₀) (dp : DIR) (path : List UInt8) :
    Ensures (fOpendir dp path) w₀ fun r w' => OnDevice g w' ∧ (r.1 = .ok →
      r.2.fs = true ∧ r.2.id = g.id ∧ r.2.At g ∧ r.2.start g = (.ok, r.2)) := by
  have hstart : Ensures (fOpendir dp path) w₀ fun r w' => r.1 = .ok →
      r.2.At g ∧ r.2.start g = (.ok, r.2) := by
    have hI := onDevice_closed hg
    unfold fOpendir
    rw [ensures_bind]
    refine (mountVolume_keeps hg hI path 0 w₀ hw).mono fun r w₁ h₁ => ?_
    simp only [ensures_ite, ensures_pure, ensures_bind, ensures_get]
    refine ⟨fun _ => ?_, fun hne hok => absurd hok hne⟩
    refine (followPath_keeps hg hI _ _ w₁ h₁).mono fun s w₂ h₂ => ?_
    refine ⟨fun _ => ⟨fun _ => by simp, fun _ => ?_⟩, fun hne hok => ?_⟩
    · generalize hd : DIR.mk _ _ _ _ _ _ _ _ _ _ = d
      refine ((dirSdi_closed hg hI h₂ d 0).and (fun a s' h' => ?_ :
        Ensures (dirSdi d 0) w₂ fun r _ => r = d.start g)).mono fun r w₃ hpost hok => ?_
      · rw [dirSdi_zero hg h₂.inv.geo d] at h'
        cases h'
        rfl
      · obtain ⟨⟨h₃, hat⟩, hr⟩ := hpost
        have hok' : r.1 = .ok := by
          split at hok
          · cases hok
          · exact hok
        simp only [hok', ne_eq, not_true_eq_false, if_false]
        have hself : d.start g = (.ok, r.2) := by rw [← hr, ← hok']
        exact ⟨hat hok', (DIR.start_ok hself).2.2.2.2 r.2.fn⟩
    · split at hok
      · cases hok
      · exact absurd hok hne
  refine ((fOpendir_keeps hg (onDevice_closed hg) dp path w₀ hw).and
    ((fOpendir_host dp path w₀).and hstart)).mono fun r w' hpost => ?_
  obtain ⟨h, ⟨_, hh⟩, hs⟩ := hpost
  refine ⟨h, fun hok => ?_⟩
  obtain ⟨hhandle, -⟩ := hh hok
  have hid : r.2.id = w'.geo.id := congrArg Handle.id hhandle
  exact ⟨congrArg Handle.fs hhandle, by rw [hid, h.inv.geo], hs hok⟩

end

/-! ## Agreement -/

/-- The live entries of the table have names that `create_name` produces: not blank, and no two the
same. -/
structure WellNamed (L : Nat → Sector) (ps : List Pos) : Prop where
  form : ∀ q ∈ ps, q.head L ≠ DDEM → ∃ (signed : Bool) (dp : DIR) (path : List UInt8),
    (createName signed dp path).1 = .ok ∧ (createName signed dp path).2.1.fn = q.name L
  nonblank : ∀ q ∈ ps, q.head L ≠ DDEM → q.name L ≠ List.replicate 11 0x20
  distinct : ((ps.filter (Pos.head L · ≠ DDEM)).map (Pos.name L)).Nodup

/-- Looking up the name of the entry in the open directory stops at this entry, with its
information. -/
def Found (d : DIR) (w : State) (q : Pos) : Prop :=
  Returns (dirFind { d with fn := q.name w.logical }) w fun r w' =>
    r.1 = .ok ∧ r.2.pos = q ∧ ∀ fno, getFileinfo w'.win r.2 fno = q.info w.logical

/-- An attribute byte on which listing and lookup agree: without the volume bit, or with it only as
a volume label (and the archive bit) or as a part of a long name. -/
def agrees (a : UInt8) : Bool :=
  !hasBits a AM_VOL || (a &&& AM_MASK) == AM_LFN || (a &&& AM_MASK &&& ~~~AM_ARC) == AM_VOL

/-- What is known of a name that `create_name` produces and that is not blank. -/
theorem name_rendered {s : Sector} {dir : Nat} {signed : Bool} {dp : DIR} {path : List UInt8}
    (hok : (createName signed dp path).1 = .ok)
    (hfn : (createName signed dp path).2.1.fn = s.bytes dir 11)
    (hne : s.bytes dir 11 ≠ List.replicate 11 0x20) :
    (sfnName s dir).headD 0 ≠ 0 ∧ shortName (sfnName s dir) = s.bytes dir 11 ∧ s dir ≠ 0x2E := by
  obtain ⟨hiff, hform⟩ := createName_segment signed dp path
  have hname := hiff.1 hok
  have hseg := (path_segment path).1
  have hbytes : s.bytes dir 11 = shortName (path.takeWhile inSegment) := by
    rw [← hfn, (hform hname).1]
  have hdot : path.takeWhile inSegment ≠ [0x2E] := fun h => by
    rw [hbytes, h] at hne
    exact hne (by decide)
  have hnil := fun h => hdot ((rendered_eq_nil hname).1 h)
  have hshow := sfnName_shortName hseg hname hbytes
  obtain ⟨-, -, -, hcb, hce⟩ := (shortName_iff hseg).1 hname
  refine ⟨?_, ?_, ?_⟩
  · rw [hshow]
    cases hr : rendered (nameBody (path.takeWhile inSegment))
      (nameExt (path.takeWhile inSegment)) with
    | nil => exact absurd hr hnil
    | cons c l =>
      have hc := rendered_inSegment hcb hce c (by rw [hr]; simp)
      rintro (rfl : c = 0)
      exact absurd hc (by decide)
  · rw [hshow, (rendered_shortName hseg hname hnil).2, hbytes]
  · have hhead := (shortName_head hseg hname).2.2
    rw [← hbytes] at hhead
    exact hhead

/-- `f_readdir` and `dir_find` take an entry on the same conditions if its attribute is one on which
they agree. -/
theorem listed_iff_agrees (b a : UInt8) (hb : b ≠ DDEM) (hd : b ≠ 0x2E) :
    (readable b (a &&& AM_MASK) false = !hasBits a AM_VOL) ↔ agrees a = true := by
  have hread : readable b (a &&& AM_MASK) false =
      ((a &&& AM_MASK) != AM_LFN && (a &&& AM_MASK &&& ~~~AM_ARC) != AM_VOL) := by
    have hb' : (b != DDEM) = true := by simpa using hb
    have hd' : (b != 0x2E) = true := by simpa using hd
    unfold readable
    rw [hb', hd', Bool.true_and, Bool.true_and]
    cases h : (a &&& AM_MASK &&& ~~~AM_ARC) == AM_VOL <;> simp [bne, h]
  rw [hread]
  exact forall_byte (P := fun a => (((a &&& AM_MASK) != AM_LFN &&
    (a &&& AM_MASK &&& ~~~AM_ARC) != AM_VOL) = !hasBits a AM_VOL) ↔ agrees a = true)
    (by decide +kernel) a

section
variable {g : Geometry} (hg : g.Sound) {w : State} (hw : OnDevice g w) {d : DIR} (hd : d.At g)
  (hstart : d.start g = (.ok, d)) {ps : List Pos} (ht : Table g w.logical d.pos ps)
  (hn : WellNamed w.logical ps)

include hn

theorem WellNamed.rendered {q : Pos} (hq : q ∈ ps) (hlive : q.head w.logical ≠ DDEM) :
    (q.info w.logical).fname.headD 0 ≠ 0 ∧
    shortName (q.info w.logical).fname = q.name w.logical ∧ q.head w.logical ≠ 0x2E := by
  obtain ⟨signed, dp, path, hok, hfn⟩ := hn.form q hq hlive
  exact name_rendered hok hfn (hn.nonblank q hq hlive)

/-- Two entries with one name are the same. -/
theorem WellNamed.inj {p q : Pos} (hp : p ∈ ps) (hq : q ∈ ps) (hlp : p.head w.logical ≠ DDEM)
    (hlq : q.head w.logical ≠ DDEM) (h : p.name w.logical = q.name w.logical) : p = q :=
  List.inj_on_of_nodup_map hn.distinct (by simp [hp, hlp]) (by simp [hq, hlq]) h

include hg hw hd hstart ht

/-- A live entry is found if it has not the volume bit. -/
theorem found_iff {q : Pos} (hq : q ∈ ps) (hlive : q.head w.logical ≠ DDEM) :
    Found d w q ↔ hasBits (q.attr w.logical) AM_VOL = false := by
  have hself : Scanned g w w := ⟨hw.inv, hw.good, .refl g w, rfl⟩
  have hfind := dirFind_table hg hw.on (hw.fatOn hg) hself
    (d := { d with fn := q.name w.logical }) ⟨hd.sect, hd.dir, hd.aligned⟩
    ((DIR.start_ok hstart).2.2.2.2 _) ht
  have hhead : ∀ p : Pos, p.name w.logical = q.name w.logical → p.head w.logical ≠ DDEM :=
    fun p h => by
      have : p.head w.logical = q.head w.logical := (List.cons.inj h).1
      rwa [this]
  constructor
  · intro h
    obtain ⟨r, w', hm, hok, hpos, -⟩ := h
    obtain ⟨-, hr⟩ := hfind.of_eq hm
    cases hps : ps.find? (Pos.fits w.logical (q.name w.logical)) with
    | none =>
      rw [hps, hok] at hr
      cases hr
    | some q' =>
      rw [hps] at hr
      have hq' : q' = q := by
        rw [← hpos, hr.2.1]
        rfl
      have hfits := List.find?_some hps
      rw [hq', Pos.fits, Bool.and_eq_true] at hfits
      simpa using hfits.1
  · intro hvol
    have hfits : q.fits w.logical (q.name w.logical) = true := by simp [Pos.fits, hvol]
    refine hfind.mono fun r w' ⟨_, hr⟩ => ?_
    cases hps : ps.find? (Pos.fits w.logical (q.name w.logical)) with
    | none => exact absurd hfits (List.find?_eq_none.1 hps q hq)
    | some q' =>
      rw [hps] at hr
      obtain ⟨hok, hdir, hwin, hat⟩ := hr
      have hfits' := List.find?_some hps
      rw [Pos.fits, Bool.and_eq_true, beq_iff_eq] at hfits'
      obtain rfl := hn.inj (List.mem_of_find?_eq_some hps) hq (hhead q' hfits'.2) hlive hfits'.2
      exact ⟨hok, by rw [hdir]; rfl, fun fno => getFileinfo_pos hg hdir hat hwin fno⟩

end

/-- Listing and lookup take the same entries exactly where they agree on the attribute. -/
theorem listing_lookup_iff {w₀ : State} {s t : Session} (hs : s.OnMedium w₀)
    (ht : Reaches (fun _ c => c.OnVolume) s t) {dp d : DIR} {path : List UInt8} {w : State}
    (hopen : fOpendir dp path t.w = some ((.ok, d), w)) {ps : List Pos}
    (htable : Table s.w.geo w.logical d.pos ps) (hn : WellNamed w.logical ps) {rounds : Nat}
    (hrounds : MAX_DIR / SZDIRE < rounds) :
    Returns (listDir rounds d) w fun l _ => ∀ q ∈ ps, q.head w.logical ≠ DDEM →
      ((q.info w.logical ∈ l ↔ Found d w q) ↔ agrees (q.attr w.logical) = true) := by
  have hg := hs.onDevice.1
  obtain ⟨hw, hopened⟩ := fOpendir_opened hg (ht.onDevice hs).inv dp path _ _ hopen
  obtain ⟨hfs, hid, hat, hstart⟩ := hopened rfl
  have hself : Scanned s.w.geo w w := ⟨hw.inv, hw.good, .refl s.w.geo w, rfl⟩
  have hmax : d.dptr < MAX_DIR := by
    rw [(DIR.start_ok hstart).2.2.2.1]
    decide
  have hlive : ∀ q : Pos, q.listed w.logical = true → q.head w.logical ≠ DDEM := fun q h => by
    simp only [Pos.listed, readable, Bool.and_eq_true, bne_iff_ne] at h
    exact h.1.1.1
  have hlen : ps.length < rounds := by
    have := htable.length_le hat.aligned hmax
    simp only [MAX_DIR, SZDIRE] at *
    omega
  refine (listLoop_table hg hw.on (hw.fatOn hg) {} [] hlen hself hfs hid (.inr ⟨hat, hmax, htable⟩)
    fun q hq hl => (hn.rendered hq (hlive q hl)).1).mono fun l _ ⟨_, hl⟩ q hq hq' => ?_
  have hmem : q.info w.logical ∈ l ↔ q.listed w.logical = true := by
    rw [hl, List.nil_append, List.mem_map]
    constructor
    · rintro ⟨p, hp, he⟩
      obtain ⟨hp, hpl⟩ := List.mem_filter.1 hp
      have hname : p.name w.logical = q.name w.logical := by
        rw [← (hn.rendered hp (hlive p hpl)).2.1, he, (hn.rendered hq hq').2.1]
      rwa [← hn.inj hp hq (hlive p hpl) hq' hname]
    · exact fun h => ⟨q, List.mem_filter.2 ⟨hq, h⟩, rfl⟩
  rw [hmem, found_iff hg hw hat hstart htable hn hq hq',
    ← listed_iff_agrees _ (q.attr w.logical) hq' (hn.rendered hq hq').2.2]
  show (readable (q.head w.logical) _ false = true ↔ _) ↔ _
  cases readable (q.head w.logical) (q.attr w.logical &&& AM_MASK) false <;>
    cases hasBits (q.attr w.logical) AM_VOL <;> simp

/-- The name `A` in directory form. -/
def nameA : List UInt8 := 0x41 :: List.replicate 10 0x20

/-- An image of the plain volume with the file `A` in the root directory, with the attribute `a`. -/
def entryImage (a : UInt8) : List UInt8 := plainImage ++ List.replicate 1024 0 ++ nameA ++ [a]

/-- A directory entry with a name and an attribute. -/
def entryBytes (c a : UInt8) : List UInt8 := c :: List.replicate 10 0x20 ++ a :: List.replicate 20 0

/-- An image of the plain volume with a volume label, a deleted entry, the file `A` and the
directory `B` in the root directory. -/
def rootImage : List UInt8 :=
  plainImage ++ List.replicate 1024 0 ++ entryBytes 0x56 AM_VOL ++ entryBytes DDEM AM_ARC ++
    entryBytes 0x41 AM_ARC ++ entryBytes 0x42 AM_DIR

/-- The places of these entries. -/
def rootPlaces : List Pos := [⟨0, 0, 3⟩, ⟨32, 0, 3⟩, ⟨64, 0, 3⟩, ⟨96, 0, 3⟩]

/-- The hypotheses are met by an open root directory with a label, a deleted entry, a file and a
directory: the file and the directory are listed and found, and the label is neither. -/
theorem listing_lookup_file : ∃ w₁ d w, mountVolume [] 0 (registeredOn (fuzzDisk rootImage)) =
      some ((.ok, []), w₁) ∧ fOpendir {} [] w₁ = some ((.ok, d), w) ∧
    Returns (listDir (MAX_DIR / SZDIRE + 1) d) w fun l _ =>
      ∀ q ∈ [(⟨0, 0, 3⟩ : Pos), ⟨64, 0, 3⟩, ⟨96, 0, 3⟩], q.info w.logical ∈ l ↔ Found d w q := by
  have hmount : (mountVolume [] 0 (registeredOn (fuzzDisk rootImage))).map
      (fun r => (r.1, r.2.geo, r.2.fsiFlag, r.2.disk.sectors)) =
      some ((.ok, []), ⟨.fat12, 2, 16, 1, 126, 1, 0, 1, 3, 4, 1⟩, 0x80, 128) := by
    decide +kernel
  have hroot : ((mountVolume [] 0 (registeredOn (fuzzDisk rootImage))).bind fun r =>
      (fOpendir {} [] r.2).map fun p => ((p.1.1, p.1.2.pos, Pos.head p.2.logical ⟨128, 0, 3⟩),
        rootPlaces.map (Pos.name p.2.logical), rootPlaces.map (Pos.attr p.2.logical))) =
      some ((.ok, ⟨0, 0, 3⟩, 0), [0x56, DDEM, 0x41, 0x42].map (· :: List.replicate 10 0x20),
        [AM_VOL, AM_ARC, AM_ARC, AM_DIR]) := by
    decide +kernel
  obtain ⟨⟨r, w₁⟩, hm, h⟩ := Option.map_eq_some_iff.1 hmount
  simp only [Prod.mk.injEq] at h
  obtain ⟨rfl, hgeo, hfsi, hsec⟩ := h
  rw [hm, Option.bind_some] at hroot
  obtain ⟨⟨⟨res, d⟩, w⟩, hopen, h⟩ := Option.map_eq_some_iff.1 hroot
  simp only [Prod.mk.injEq, rootPlaces, List.map_cons, List.map_nil, List.cons.injEq, and_true] at h
  obtain ⟨⟨rfl, hpos, hend⟩, ⟨hn₀, hn₁, hn₂, hn₃⟩, ha₀, ha₁, ha₂, ha₃⟩ := h
  have hsound : (fuzzDisk rootImage).MountsSound :=
    Disk.mountsSound_of (b := 0) (by decide +kernel) (by decide +kernel) (by decide +kernel)
  have hs : Session.OnMedium (registeredOn (fuzzDisk rootImage))
      ⟨w₁, fun _ => {}, fun _ => {}⟩ := by
    refine ⟨⟨fun _ => rfl, show 128 < W32 by decide, hsound, rfl, ⟨[], 0, [], hm⟩,
      fun _ h => by cases h⟩, .inl ?_, ?_⟩
    · unfold State.InfoOff
      rw [hfsi]
      decide
    · show w₁.geo.volEnd ≤ w₁.disk.sectors
      rw [hgeo, hsec]
      decide
  -- the first bytes of the names
  have hh₀ : Pos.head w.logical ⟨0, 0, 3⟩ = 0x56 := (List.cons.inj hn₀).1
  have hh₁ : Pos.head w.logical ⟨32, 0, 3⟩ = DDEM := (List.cons.inj hn₁).1
  have hh₂ : Pos.head w.logical ⟨64, 0, 3⟩ = 0x41 := (List.cons.inj hn₂).1
  have hh₃ : Pos.head w.logical ⟨96, 0, 3⟩ = 0x42 := (List.cons.inj hn₃).1
  have hz₀ : Pos.head w.logical ⟨0, 0, 3⟩ ≠ 0 := by rw [hh₀]; decide
  have hz₁ : Pos.head w.logical ⟨32, 0, 3⟩ ≠ 0 := by rw [hh₁]; decide
  have hz₂ : Pos.head w.logical ⟨64, 0, 3⟩ ≠ 0 := by rw [hh₂]; decide
  have hz₃ : Pos.head w.logical ⟨96, 0, 3⟩ ≠ 0 := by rw [hh₃]; decide
  have htable : Table w₁.geo w.logical d.pos rootPlaces := by
    rw [hpos, hgeo]
    exact .entry hz₀ rfl (.entry hz₁ rfl (.entry hz₂ rfl (.entry hz₃ rfl (.terminator hend))))
  have hcases : ∀ q ∈ rootPlaces, q.head w.logical ≠ DDEM →
      q = ⟨0, 0, 3⟩ ∨ q = ⟨64, 0, 3⟩ ∨ q = ⟨96, 0, 3⟩ := by
    intro q hq hne
    simp only [rootPlaces, List.mem_cons, List.not_mem_nil, or_false] at hq
    rcases hq with rfl | rfl | rfl | rfl
    · exact .inl rfl
    · exact absurd hh₁ hne
    · exact .inr (.inl rfl)
    · exact .inr (.inr rfl)
  have hn : WellNamed w.logical rootPlaces := by
    refine ⟨fun q hq hne => ?_, fun q hq hne => ?_, ?_⟩
    · rcases hcases q hq hne with rfl | rfl | rfl
      · exact ⟨true, {}, [0x56], by decide, by rw [hn₀]; decide⟩
      · exact ⟨true, {}, [0x41], by decide, by rw [hn₂]; decide⟩
      · exact ⟨true, {}, [0x42], by decide, by rw [hn₃]; decide⟩
    · rcases hcases q hq hne with rfl | rfl | rfl
      · rw [hn₀]; decide
      · rw [hn₂]; decide
      · rw [hn₃]; decide
    · simp [rootPlaces, hh₀, hh₁, hh₂, hh₃, hn₀, hn₂, hn₃, DDEM]
  refine ⟨w₁, d, w, hm, hopen,
    (listing_lookup_iff hs .refl hopen htable hn (Nat.lt_succ_self _)).mono
    fun l _ hl q hq => ?_⟩
  have hlive : q ∈ rootPlaces ∧ q.head w.logical ≠ DDEM ∧ agrees (q.attr w.logical) = true := by
    simp only [List.mem_cons, List.not_mem_nil, or_false] at hq
    rcases hq with rfl | rfl | rfl
    · exact ⟨by decide, by rw [hh₀]; decide, by rw [ha₀]; decide⟩
    · exact ⟨by decide, by rw [hh₂]; decide, by rw [ha₂]; decide⟩
    · exact ⟨by decide, by rw [hh₃]; decide, by rw [ha₃]; decide⟩
  exact (hl q hlive.1 hlive.2.1).2 hlive.2.2

/-- With the attribute of a read-only volume label the file `A` is listed, but not found. -/
theorem listing_lookup_label :
    ((mountVolume [] 0 (registeredOn (fuzzDisk (entryImage 0x09)))).bind fun r =>
      (fOpendir {} [] r.2).bind fun p => (listDir (MAX_DIR / SZDIRE + 1) p.1.2 p.2).bind fun l =>
        (dirFind { p.1.2 with fn := nameA } p.2).map fun q =>
          (r.1, p.1.1, l.1.map FILINFO.fname, q.1.1)) =
      some ((.ok, []), .ok, [[0x41]], .noFile) := by
  decide +kernel

end FatFs
