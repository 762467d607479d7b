import FatFs.Path.Segments

/-!
# Path resolution

`resolve` walks the directories along a list of segments and is what a path denotes on a volume.
`follow_path` does that exactly for the paths without a segment that starts with a byte from `0x80`
on behind a segment with a valid name (`PlainSegments`), or when `char` is unsigned:
`followPath_segments_iff`. The source compares the byte behind a separator as a plain `char`
(`ff.c:3060`), so a signed `char` takes such a byte for the end of the path.
-/

namespace FatFs

open Run

/-! ## Directory functions do not look at the signedness of `char` -/

/-- The state on a target where plain `char` is signed or not. -/
def State.build (signed : Bool) (w : State) : State := { w with charSigned := signed }

section
variable (b : Bool)

/-- `disk_read` does not depend on the signedness of `char`. -/
theorem diskRead_build (s c : Nat) : Commutes (State.build b) (diskRead s c) := by
  unfold diskRead
  refine .get (fun w => .bind (.modify fun _ => rfl) fun _ => .ite (.pure _) (.pure _)) fun w => ?_
  rfl

/-- `disk_write` does not depend on the signedness of `char`. -/
theorem diskWrite_build (buff : Nat → Sector) (s c : Nat) :
    Commutes (State.build b) (diskWrite buff s c) := by
  unfold diskWrite
  refine .get (fun w => .bind (.modify fun _ => rfl) fun _ =>
    .ite (.bind (.modify fun _ => rfl) fun _ => .pure _) (.pure _)) fun w => rfl

/-- `sync_window` does not depend on the signedness of `char`. -/
theorem syncWindow_build : Commutes (State.build b) syncWindow := by
  unfold syncWindow
  refine .get (fun w => .ite (.bind (diskWrite_build b _ _ _) fun r => .ite
    (.bind (.modify fun _ => rfl) fun _ => .ite
      (.bind (diskWrite_build b _ _ _) fun _ => .pure _) (.pure _)) (.pure _)) (.pure _))
    fun w => rfl

/-- `move_window` does not depend on the signedness of `char`. -/
theorem moveWindow_build (s : Nat) : Commutes (State.build b) (moveWindow s) := by
  unfold moveWindow
  refine .get (fun w => .ite (.bind (syncWindow_build b) fun r => .ite
    (.bind (diskRead_build b _ _) fun r => ?_) (.pure _)) (.pure _)) fun w => rfl
  cases r with
  | none => exact .bind (.modify fun _ => rfl) fun _ => .pure _
  | some buff => exact .bind (.modify fun _ => rfl) fun _ => .pure _

/-- `get_fat` does not depend on the signedness of `char`. -/
theorem getFat_build (clst : Nat) : Commutes (State.build b) (getFat clst) := by
  unfold getFat
  refine .get (fun w => .ite (.pure _) ?_) fun w => rfl
  cases w.geo.fsType with
  | none => exact .pure _
  | fat12 =>
    exact .bind (moveWindow_build b _) fun r => .ite (.pure _)
      (.get (fun w => .bind (moveWindow_build b _) fun r => .ite (.pure _)
        (.get (fun w => .pure _) fun w => rfl)) fun w => rfl)
  | fat16 =>
    exact .bind (moveWindow_build b _) fun r => .ite (.pure _) (.get
      (fun w => .pure _) fun w => rfl)
  | fat32 =>
    exact .bind (moveWindow_build b _) fun r => .ite (.pure _) (.get
      (fun w => .pure _) fun w => rfl)

/-- `dir_sdi` does not depend on the signedness of `char`. -/
theorem dirSdi_build (dp : DIR) (ofs : Nat) : Commutes (State.build b) (dirSdi dp ofs) := by
  unfold dirSdi
  refine .get (fun w => .ite (.pure _) (.ite (.ite (.pure _) (.pure _))
    (.bind (.loop (fun p => ?_) _ _) fun r => ?_))) fun w => rfl
  · exact .ite (.bind (getFat_build b _) fun c => .ite (.pure _)
      (.get (fun w => .ite (.pure _) (.pure _)) fun w => rfl)) (.pure _)
  · cases r <;> exact .pure _

/-- `dir_next` does not depend on the signedness of `char`. -/
theorem dirNext_build (dp : DIR) : Commutes (State.build b) (dirNext dp false) := by
  unfold dirNext
  simp only [Bool.false_eq_true, if_false]
  exact .get (fun w => .ite (.pure _) (.ite (.ite (.ite (.pure _) (.pure _))
    (.ite (.bind (getFat_build b _) fun c => .ite (.pure _) (.ite (.pure _)
      (.ite (.pure _) (.pure _)))) (.pure _))) (.pure _))) fun w => rfl

/-- `dir_find` compares bytes, which have no sign. -/
theorem dirFind_build (dp : DIR) : Commutes (State.build b) (dirFind dp) := by
  unfold dirFind
  refine .bind (dirSdi_build b dp 0) fun r => .ite (.pure _) (.loop (fun d => ?_) _ _)
  unfold findEntRound
  exact .bind (moveWindow_build b _) fun r => .ite (.pure _) (.get (fun w => .ite (.pure _)
    (.ite (.pure _) (.bind (dirNext_build b _) fun r => .ite (.pure _) (.pure _)))) fun w => rfl)

end

/-- A directory search keeps the signedness of `char`. -/
theorem dirFind_charSigned (dp : DIR) (w : State) :
    Ensures (dirFind dp) w fun _ w' => w'.charSigned = w.charSigned := by
  intro r w' h
  have hb : State.build w.charSigned w = w := rfl
  have hc := dirFind_build w.charSigned dp w
  rw [hb, h, Option.map_some, Option.some.injEq] at hc
  rw [(Prod.mk.inj hc).2]
  rfl

/-! ## A search keeps the name it looks for -/

/-- The members of a directory object that a walk through its table does not change. -/
def DIR.object (d : DIR) : DIR := { d with attr := 0, dptr := 0, clust := 0, sect := 0, dir := 0 }

/-- `dir_sdi` sets the place in the table only. -/
theorem dirSdi_object (dp : DIR) (ofs : Nat) (w : State) :
    Ensures (dirSdi dp ofs) w fun r _ => r.2.object = dp.object := by
  have hend : ∀ c s o, (sdiEnd { dp with dptr := ofs } c s o).2.object =
      dp.object := fun c s o => by
    unfold sdiEnd
    split <;> rfl
  simp only [dirSdi, ensures_bind, ensures_get, ensures_ite, ensures_pure]
  refine ⟨fun _ => trivial, fun _ =>
    ⟨fun _ => ⟨fun _ => rfl, fun _ => hend _ _ _⟩, fun _ r w' _ => ?_⟩⟩
  cases r with
  | error res => exact ensures_pure.2 rfl
  | ok p => exact ensures_pure.2 (hend _ _ _)

/-- `dir_next` sets the place in the table only. -/
theorem dirNext_object (dp : DIR) (w : State) :
    Ensures (dirNext dp false) w fun r _ => r.2.object = dp.object := by
  have hdp : ∀ ofs, (if MAX_DIR ≤ ofs then { dp with sect := 0 } else dp).object = dp.object :=
    fun ofs => by
      split <;> rfl
  have hd := hdp (dp.dptr + SZDIRE)
  simp only [dirNext, ensures_bind, ensures_get]
  generalize (if MAX_DIR ≤ dp.dptr + SZDIRE then { dp with sect := 0 } else dp) = d at hd
  simp only [Bool.false_eq_true, if_false, ensures_ite, ensures_pure, ensures_bind]
  exact ⟨fun _ => hd, fun _ => ⟨fun _ => ⟨fun _ => ⟨fun _ => hd, fun _ => hd⟩,
    fun _ => ⟨fun _ => fun _ _ _ => ⟨fun _ => hd, fun _ => ⟨fun _ => hd, fun _ => ⟨fun _ => hd,
      fun _ => hd⟩⟩⟩, fun _ => hd⟩⟩, fun _ => hd⟩⟩

/-- `dir_find` sets the place in the table and the attribute. -/
theorem dirFind_object (dp : DIR) (w : State) :
    Ensures (dirFind dp) w fun r _ => r.2.object = dp.object := by
  rw [dirFind, ensures_bind]
  refine (dirSdi_object dp 0 w).mono fun r w₁ h₁ => ?_
  rw [ensures_ite]
  refine ⟨fun _ => ensures_pure.2 h₁, fun _ => Ensures.loop (I := fun d _ => d.object = dp.object)
    (fun d w hd => ?_) _ h₁⟩
  simp only [findEntRound, ensures_bind, ensures_ite, ensures_pure, ensures_get]
  refine fun res w' _ => ⟨fun _ => hd, fun _ => ⟨fun _ => hd, fun _ => ⟨fun _ => hd, fun _ => ?_⟩⟩⟩
  refine (dirNext_object _ w').mono fun r w₂ h₂ => ?_
  exact ⟨fun _ => h₂.trans hd, fun _ => h₂.trans hd⟩

/-- The directory object looks for the same name. -/
def SameName (dp d : DIR) : Prop := d.fn = dp.fn ∧ d.nsflag = dp.nsflag

/-- The name and its flags are part of the object. -/
theorem SameName.of_object {dp d : DIR} (h : d.object = dp.object) : SameName dp d := by
  have h₁ : d.object.fn = dp.object.fn := by rw [h]
  have h₂ : d.object.nsflag = dp.object.nsflag := by rw [h]
  exact ⟨h₁, h₂⟩

/-- `dir_sdi` keeps the name that is looked for. -/
theorem dirSdi_sameName (dp : DIR) (ofs : Nat) (w : State) :
    Ensures (dirSdi dp ofs) w fun r _ => SameName dp r.2 :=
  (dirSdi_object dp ofs w).mono fun _ _ h => .of_object h

/-- `dir_find` keeps the name that is looked for. -/
theorem dirFind_sameName (dp : DIR) (w : State) :
    Ensures (dirFind dp) w fun r _ => SameName dp r.2 :=
  (dirFind_object dp w).mono fun _ _ h => .of_object h

/-! ## Walking along the segments -/

/-- Walk the directories along a list of segments: every segment but the last must be found as a
directory, the last one is looked for in the directory reached. -/
def resolve (dp : DIR) : List (List UInt8) → M (FRESULT × DIR)
  | [] => return (.invalidName, { dp with fn := List.replicate 11 0x20 })
  | seg :: rest => do
    match nameSegment dp seg rest.isEmpty with
    | (.ok, dp) =>
      let (res, dp) ← dirFind dp
      if res ≠ .ok then return (if res = .noFile ∧ rest ≠ [] then .noPath else res, dp)
      else if rest = [] then return (.ok, dp)
      else if !hasBits dp.attr AM_DIR then return (.noPath, dp)
      else
        let w ← get
        resolve { dp with sclust := ldClust w.geo w.win (dp.dptr % SS) } rest
    | (res, dp) => return (res, dp)

/-- What a path denotes: the root directory when it ends at once with a byte below a space, else
what its segments lead to. -/
def resolvePath (dp : DIR) (path : List UInt8) : M (FRESULT × DIR) :=
  if peek (path.dropWhile isSeparator) < 0x20 then
    dirSdi { dp with sclust := 0, nsflag := NS_NONAME } 0
  else resolve { dp with sclust := 0 } (segments path)

/-- Every segment but the last was found as a directory, and the search for the last one in the
directory reached gave `res`. -/
inductive Resolved (res : FRESULT) (dp' : DIR) (w' : State) : State → DIR → List (List UInt8) → Prop
  | last {w : State} {dp d : DIR} {seg : List UInt8} : nameSegment dp seg true = (.ok, d) →
      dirFind d w = some ((res, dp'), w') → Resolved res dp' w' w dp [seg]
  | into {w w₁ : State} {dp d d₁ : DIR} {seg : List UInt8} {rest : List (List UInt8)} :
      nameSegment dp seg false = (.ok, d) → dirFind d w = some ((.ok, d₁), w₁) →
      hasBits d₁.attr AM_DIR = true → rest ≠ [] →
      Resolved res dp' w' w₁ { d₁ with sclust := ldClust w₁.geo w₁.win (d₁.dptr % SS) } rest →
      Resolved res dp' w' w dp (seg :: rest)

/-- A valid segment is looked up, and the rest of the path is resolved from what was found. -/
theorem resolve_cons {seg fn : List UInt8} (h : segmentName seg = some fn) (dp : DIR)
    (rest : List (List UInt8)) :
    resolve dp (seg :: rest) = (do
      let (res, d) ← dirFind { dp with fn := fn, nsflag := if rest.isEmpty then NS_LAST else 0 }
      if res ≠ .ok then return (if res = .noFile ∧ rest ≠ [] then .noPath else res, d)
      else if rest = [] then return (.ok, d)
      else if !hasBits d.attr AM_DIR then return (.noPath, d)
      else
        let w ← get
        resolve { d with sclust := ldClust w.geo w.win (d.dptr % SS) } rest) := by
  rw [resolve, nameSegment_some h]

/-- An invalid segment ends the resolution. -/
theorem resolve_invalid {seg : List UInt8} (h : segmentName seg = none) (dp : DIR)
    (rest : List (List UInt8)) :
    resolve dp (seg :: rest) = pure (nameSegment dp seg rest.isEmpty) := by
  obtain ⟨d, hd⟩ := nameSegment_none h dp
  rw [resolve, hd]

/-- A walk that finds the object, or only its directory, went through all segments. -/
theorem resolve_resolved {res : FRESULT} (hres : res = .ok ∨ res = .noFile) {dp' : DIR}
    {w' : State} : ∀ {segs : List (List UInt8)} {dp : DIR} {w : State},
      resolve dp segs w = some ((res, dp'), w') → Resolved res dp' w' w dp segs
  | [], dp, w, h => by
    cases h
    simp at hres
  | seg :: rest, dp, w, h => by
    have hspec : Ensures (resolve dp (seg :: rest)) w fun r w' => r = (res, dp') →
        Resolved res dp' w' w dp (seg :: rest) := by
      cases hn : segmentName seg with
      | none =>
        rw [resolve_invalid hn, ensures_pure]
        intro he
        obtain ⟨d, hd⟩ := nameSegment_none hn dp
        rw [hd] at he
        simp [← (Prod.mk.inj he).1] at hres
      | some fn =>
        rw [resolve_cons hn]
        simp only [ensures_bind, ensures_ite, ensures_pure, ensures_get]
        rintro ⟨r, d⟩ w₁ hfind
        have hname := nameSegment_some hn dp rest.isEmpty
        refine ⟨fun hne he => ?_, fun hok => ⟨fun hlast he => ?_, fun hgo => ⟨fun _ he => ?_,
          fun hdir => ?_⟩⟩⟩
        · -- the search failed: not found is reported as such at the last segment only
          obtain ⟨he₁, rfl⟩ := Prod.mk.inj he
          simp only at hne he₁
          split at he₁
          · simp [← he₁] at hres
          · rename_i hlast
            subst he₁
            have hnil : rest = [] := by
              by_contra hne'
              exact hlast ⟨hres.resolve_left hne, hne'⟩
            subst hnil
            exact .last hname hfind
        · obtain ⟨rfl, rfl⟩ := Prod.mk.inj he
          have hok' : r = .ok := by simpa using hok
          subst hok' hlast
          exact .last hname hfind
        · obtain ⟨rfl, -⟩ := Prod.mk.inj he
          simp at hres
        · intro a w₂ hrec he
          subst he
          have hok' : r = .ok := by simpa using hok
          subst hok'
          have hemp : rest.isEmpty = false := by simpa using hgo
          rw [hemp] at hname hfind
          exact .into hname hfind (by simpa using hdir) hgo (resolve_resolved hres hrec)
    exact hspec _ _ h rfl

/-- The resolution of segments does not depend on the signedness of `char`. -/
theorem resolve_build (b : Bool) : ∀ (segs : List (List UInt8)) (dp : DIR),
    Commutes (State.build b) (resolve dp segs)
  | [], dp => .pure _
  | seg :: rest, dp => by
    cases hn : segmentName seg with
    | none =>
      rw [resolve_invalid hn]
      exact .pure _
    | some fn =>
      rw [resolve_cons hn]
      exact .bind (dirFind_build b _) fun r => .ite (.pure _) (.ite (.pure _) (.ite (.pure _)
        (.get (fun w => resolve_build b rest _) fun w => rfl)))

/-- The resolution of a path does not depend on the signedness of `char`. -/
theorem resolvePath_build (b : Bool) (dp : DIR) (path : List UInt8) :
    Commutes (State.build b) (resolvePath dp path) :=
  .ite (dirSdi_build b _ _) (resolve_build b _ _)

/-! ## The walk of `follow_path` -/

/-- No segment starts with a byte from `0x80` on directly behind a segment that the walk can get to,
one that has a valid name like all segments before it. -/
def PlainSegments : List (List UInt8) → Prop
  | seg :: next :: rest => (segmentName seg).isSome → peek next < 0x80 ∧
    PlainSegments (next :: rest)
  | _ => True

/-- The names that the loop of `follow_path` takes from a path, as long as its searches find
directories, each with its last mark. -/
def takenNames (signed : Bool) : Nat → List UInt8 → List (List UInt8 × Bool)
  | 0, _ => []
  | n + 1, p =>
    match createName signed {} p with
    | (.ok, d, p') => (d.fn, hasBits d.nsflag NS_LAST) ::
        if hasBits d.nsflag NS_LAST then [] else takenNames signed n p'
    | _ => []

/-- The names of the segments up to an invalid one; the mark says that no segment follows. -/
def segmentNames : List (List UInt8) → List (List UInt8 × Bool)
  | [] => []
  | seg :: rest =>
    match segmentName seg with
    | some fn => (fn, rest.isEmpty) :: segmentNames rest
    | none => []

/-- The flag of the last segment is set exactly on the last segment. -/
theorem hasBits_last (b : Bool) : hasBits (if b then NS_LAST else 0) NS_LAST = b := by
  cases b <;> rfl

/-- A stripped path with segments starts with a byte of one. -/
theorem head_of_segments {p : List UInt8} (hp : ∀ c ∈ p.head?, isSeparator c = false)
    (hne : segments p ≠ []) : ∃ c ∈ p.head?, inSegment c = true := by
  rw [Ne, segments_eq_nil hp] at hne
  push Not at hne
  obtain ⟨c, hc, hin⟩ := hne
  refine ⟨c, hc, ?_⟩
  simp only [inSegment, hp c hc, Bool.not_false, Bool.and_true]
  simpa using hin

/-- The loop takes the names of the segments with the right marks exactly from a plain path. -/
theorem takenNames_iff (signed : Bool) : ∀ {n : Nat} {p : List UInt8}, p.length < n →
    (∃ c ∈ p.head?, inSegment c = true) →
      (takenNames signed n p = segmentNames (segments p) ↔
        (signed = true → PlainSegments (segments p)))
  | n + 1, p, hn, hp => by
    obtain ⟨seg, p', he, -, hlt, hstrip, hcut⟩ := createName_cut hp
    obtain ⟨h₁, h₂, h₃⟩ := hcut signed {}
    rw [he]
    rcases hc : createName signed {} p with ⟨r, d, q⟩
    rw [hc] at h₁ h₂ h₃
    simp only at h₁ h₂ h₃
    cases hname : segmentName seg with
    | none =>
      -- an invalid name ends the walk
      obtain ⟨d', hd'⟩ := nameSegment_none hname {}
      rw [hd'] at h₁
      subst h₁
      have hplain : PlainSegments (seg :: segments p') := by
        cases segments p' with
        | nil => trivial
        | cons next rest => simp [PlainSegments, hname]
      simp [takenNames, hc, segmentNames, hname, hplain]
    | some fn =>
      rw [nameSegment_some hname] at h₁ h₂
      subst h₁ h₂
      simp only [takenNames, hc, segmentNames, hname, hasBits_last]
      cases hsegs : segments p' with
      | nil => simp [PlainSegments, segmentNames]
      | cons next rest =>
        obtain ⟨seg', p'', he', hpeek, -⟩ :=
          createName_cut (head_of_segments hstrip (by simp [hsegs]))
        have hnext : peek p' = peek next := by
          rw [hsegs] at he'
          rw [← hpeek, (List.cons.inj he').1]
        have hq := h₃ (by simp [hsegs]) rfl
        subst hq
        by_cases hbad : signed = true ∧ 0x80 ≤ peek q
        · -- the next segment is taken for the end of the path
          have : ¬PlainSegments (seg :: next :: rest) := by
            simp only [PlainSegments, hname, Option.isSome_some, forall_const, not_and]
            intro hlt'
            rw [← hnext] at hlt'
            exact absurd hbad.2 (UInt8.not_le.2 hlt')
          simp [hbad, this]
        · have ih := takenNames_iff signed (n := n) (p := q) (by omega)
            (head_of_segments hstrip (by simp [hsegs]))
          have hlt' : signed = true → peek next < 0x80 := fun hs => by
            rw [← hnext, ← UInt8.not_le]
            exact fun h => hbad ⟨hs, h⟩
          rw [hsegs] at ih
          simp only [hbad, or_false, reduceCtorEq, decide_false, Bool.false_eq_true, if_false,
            List.isEmpty_cons, List.cons.injEq, true_and, ih]
          refine forall_congr' fun hs => ?_
          simp [PlainSegments, hname, hlt' hs]

/-- A round of `follow_path` with a valid name. -/
theorem followRound_ok {w : State} {dp d : DIR} {p q : List UInt8}
    (h : createName w.charSigned dp p = (.ok, d, q)) :
    followRound (dp, p) w = (dirFind d >>= fun r => followFound q r.1 r.2) w := by
  rw [followRound, get_bind_apply]
  simp only [h]

/-- A round of `follow_path` with an invalid name. -/
theorem followRound_invalid {w : State} {dp d : DIR} {p q : List UInt8}
    (h : createName w.charSigned dp p = (.invalidName, d, q)) :
    followRound (dp, p) w = (pure (.inr (.invalidName, d)) : M _) w := by
  rw [followRound, get_bind_apply]
  simp only [h]

/-- On a plain path the loop of `follow_path` walks along the segments. -/
theorem loop_followRound : ∀ {n : Nat} {p : List UInt8} {dp : DIR} {w : State}, p.length < n →
    (∃ c ∈ p.head?, inSegment c = true) →
      (w.charSigned = true → PlainSegments (segments p)) →
        loop followRound n (dp, p) w = resolve dp (segments p) w
  | n + 1, p, dp, w, hn, hp, hplain => by
    obtain ⟨seg, p', he, -, hlt, hstrip, hcut⟩ := createName_cut hp
    obtain ⟨h₁, h₂, h₃⟩ := hcut w.charSigned dp
    rw [he] at hplain ⊢
    rw [Run.loop]
    rcases hc : createName w.charSigned dp p with ⟨r, d, q⟩
    rw [hc] at h₁ h₂ h₃
    simp only at h₁ h₂ h₃
    cases hname : segmentName seg with
    | none =>
      obtain ⟨d', hd'⟩ := nameSegment_none hname dp
      rw [hd'] at h₁ h₂
      subst h₁ h₂
      rw [bind_congr_left (followRound_invalid hc), resolve_invalid hname, pure_bind, hd']
    | some fn =>
      rw [nameSegment_some hname] at h₁ h₂
      -- on a plain path the mark says that no segment follows
      have hmark : decide (segments p' = [] ∨ (w.charSigned = true ∧ 0x80 ≤ peek p')) =
          (segments p').isEmpty := by
        cases hsegs : segments p' with
        | nil => simp
        | cons next rest =>
          obtain ⟨seg', p'', he', hpeek, -⟩ :=
            createName_cut (head_of_segments hstrip (by simp [hsegs]))
          rw [hsegs] at he' hplain
          have hnext : ¬(w.charSigned = true ∧ 0x80 ≤ peek p') := by
            rintro ⟨hs, hge⟩
            have hlt' := (hplain hs (by simp [hname])).1
            rw [(List.cons.inj he').1, hpeek] at hlt'
            exact absurd hge (UInt8.not_le.2 hlt')
          simpa using hnext
      rw [hmark] at h₁ h₂
      subst h₁ h₂
      rw [bind_congr_left (followRound_ok hc), resolve_cons hname, bind_assoc]
      refine bind_congr_of fun r w' hfind => ?_
      obtain ⟨res, d⟩ := r
      have hns := (dirFind_sameName _ w _ _ hfind).2
      have hchar := dirFind_charSigned _ w _ _ hfind
      have hbit : hasBits d.nsflag NS_LAST = (segments p').isEmpty := by
        simp only at hns
        rw [hns, hasBits_last]
      simp only [followFound, hbit]
      by_cases hres : res = .ok
      · subst hres
        cases hsegs : segments p' with
        | nil => rfl
        | cons next rest =>
          by_cases hdir : hasBits d.attr AM_DIR = true
          · have hq := h₃ (by simp [hsegs]) rfl
            subst hq
            have ih := @loop_followRound n q
              { d with sclust := ldClust w'.geo w'.win (d.dptr % SS) } w' (by omega)
              (head_of_segments hstrip (by simp [hsegs])) (fun hs => by
                rw [hchar] at hs
                have := hplain hs
                rw [hsegs] at this ⊢
                exact (this (by simp [hname])).2)
            rw [hsegs] at ih
            simp [hdir, get_bind_apply]
            exact ih
          · simp [hdir]
      · cases hsegs : segments p' with
        | nil => simp [hres]
        | cons next rest =>
          by_cases hnf : res = .noFile
          · simp [hnf]
          · simp [hres, hnf]

/-! ## `follow_path` -/

/-- A byte from `0x80` on is no terminator with either signedness: a negative `char` is converted to
a large number. -/
theorem charUint_lt_space (signed : Bool) (c : UInt8) :
    charUint signed c < 0x20 ↔ c < 0x20 := by
  have hlt := c.toNat_lt
  rw [UInt8.lt_iff_toNat_lt]
  change _ ↔ c.toNat < 32
  simp only [charUint, charInt, W32]
  split <;> omega

/-- What ends a path does not depend on the signedness of `char`. -/
theorem isTerminator_build (signed : Bool) (c : UInt8) :
    isTerminator signed c = isTerminator false c := by
  have hlt := c.toNat_lt
  rw [isTerminator, isTerminator, decide_eq_decide]
  simp only [charUint, charInt, W32, Bool.false_eq_true, false_and, if_false]
  split <;> omega

/-- The drive number does not depend on the signedness of `char`. -/
theorem getLdnumber_build (signed : Bool) (path : List UInt8) :
    getLdnumber signed path = getLdnumber false path := by
  have hsplit : ∀ p, splitColon signed p = splitColon false p := fun p => by
    induction p with
    | nil => rfl
    | cons c p ih => simp [splitColon, isTerminator_build signed c, ih]
  simp [getLdnumber, hsplit]

/-- The part of a path after its volume prefix. -/
def afterVolume (path : List UInt8) : List UInt8 := (getLdnumber false path).2

/-- On a target with the given signedness of `char`, on every volume, the path is resolved along its
segments. -/
structure FollowsSegments (signed : Bool) (path : List UInt8) : Prop where
  /-- The volume prefix is recognised alike. -/
  volume : getLdnumber signed path = getLdnumber false path
  /-- A segment is marked as the last one iff no segment follows. -/
  marks : takenNames signed (afterVolume path).length.succ
    ((afterVolume path).dropWhile isSeparator) = segmentNames (segments (afterVolume path))
  /-- `follow_path` walks along the segments. -/
  walk : ∀ (w : State) (dp : DIR), w.charSigned = signed →
    followPath dp (afterVolume path) w = resolvePath dp (afterVolume path) w
  /-- The object or its directory is found only after every earlier segment was found as a
  directory, and the name looked for is the last segment's. -/
  found : ∀ (w w' : State) (dp dp' : DIR) (res : FRESULT), w.charSigned = signed →
    res = .ok ∨ res = .noFile → followPath dp (afterVolume path) w = some ((res, dp'), w') →
    peek ((afterVolume path).dropWhile isSeparator) < 0x20 ∨
      Resolved res dp' w' w { dp with sclust := 0 } (segments (afterVolume path))
  /-- The build with unsigned `char` resolves the path alike. -/
  alike : ∀ (w : State) (dp : DIR), w.charSigned = signed →
    followPath dp (afterVolume path) w =
      (followPath dp (afterVolume path) (w.build false)).map (Prod.map id (State.build signed))

/-- The stripped path does not begin with a separator. -/
theorem strip_head (p : List UInt8) :
    ∀ c ∈ (p.dropWhile isSeparator).head?, isSeparator c = false := fun c hc => by
  have := List.head?_dropWhile_not isSeparator p
  rw [hc] at this
  simpa using this

/-- `create_name` rejects a path that ends at once. -/
theorem createName_blank {p : List UInt8} (hp : ∀ c ∈ p.head?, isSeparator c = false)
    (h : segments p = []) (signed : Bool) (dp : DIR) :
    ∃ q, createName signed dp p = (.invalidName, { dp with fn := List.replicate 11 0x20 }, q) := by
  rw [segments_eq_nil hp] at h
  cases p with
  | nil => exact ⟨[], rfl⟩
  | cons c p =>
    have hc : c ≤ 0x20 := le_space_iff.2 (h c (by simp))
    refine ⟨p, ?_⟩
    simp [createName, nameLoop, hc]

/-- `follow_path` walks along the segments of a plain path. -/
theorem followPath_resolve {w : State} {dp : DIR} {path : List UInt8}
    (hplain : w.charSigned = true → PlainSegments (segments path)) :
    followPath dp path w = resolvePath dp path w := by
  rw [followPath, get_bind_apply, resolvePath]
  simp only [charUint_lt_space]
  by_cases hroot : peek (path.dropWhile isSeparator) < 0x20
  · rw [if_pos hroot, if_pos hroot]
  rw [if_neg hroot, if_neg hroot, ← segments_strip]
  rw [← segments_strip] at hplain
  by_cases hsegs : segments (path.dropWhile isSeparator) = []
  · obtain ⟨q, hq⟩ := createName_blank (strip_head path) hsegs w.charSigned { dp with sclust := 0 }
    rw [Run.loop, bind_congr_left (followRound_invalid hq), pure_bind, hsegs]
    rfl
  · exact loop_followRound (by omega) (head_of_segments (strip_head path) hsegs) hplain

/-- The marks are right exactly on the plain paths. -/
theorem takenNames_path_iff (signed : Bool) (path : List UInt8) :
    takenNames signed path.length.succ (path.dropWhile isSeparator) = segmentNames (segments path) ↔
      (signed = true → PlainSegments (segments path)) := by
  rw [← segments_strip]
  by_cases hsegs : segments (path.dropWhile isSeparator) = []
  · obtain ⟨q, hq⟩ := createName_blank (strip_head path) hsegs signed {}
    simp [takenNames, hq, hsegs, segmentNames, PlainSegments]
  · refine takenNames_iff signed ?_ (head_of_segments (strip_head path) hsegs)
    have := (List.dropWhile_sublist (l := path) isSeparator).length_le
    omega

/-- A path is resolved along its segments exactly when `char` is unsigned, or no segment starts with
a byte from `0x80` on behind segments with valid names. -/
theorem followPath_segments_iff (signed : Bool) (path : List UInt8) :
    FollowsSegments signed path ↔
      (signed = true → PlainSegments (segments (afterVolume path))) := by
  refine ⟨fun h => (takenNames_path_iff _ _).1 h.marks, fun hplain => ?_⟩
  have hwalk : ∀ (w : State) (dp : DIR), w.charSigned = signed →
      followPath dp (afterVolume path) w = resolvePath dp (afterVolume path) w :=
    fun w dp hs => followPath_resolve fun h => hplain (hs.symm.trans h)
  refine
    { volume := getLdnumber_build signed path
      marks := (takenNames_path_iff _ _).2 hplain
      walk := hwalk
      found := fun w w' dp dp' res hs hres h => ?_
      alike := fun w dp hs => ?_ }
  · rw [hwalk w dp hs, resolvePath] at h
    by_cases hroot : peek ((afterVolume path).dropWhile isSeparator) < 0x20
    · exact .inl hroot
    · rw [if_neg hroot] at h
      exact .inr (resolve_resolved hres h)
  · have hf : followPath dp (afterVolume path) (w.build false) =
        resolvePath dp (afterVolume path) (w.build false) :=
        followPath_resolve (by simp [State.build])
    have hw : State.build signed (w.build false) = w := by rw [← hs]; rfl
    rw [hwalk w dp hs, hf, ← resolvePath_build signed dp _ (w.build false), hw]

/-- A mounted FAT12 volume whose root directory holds the one file `A`. -/
def volumeWithA : State :=
  { State.initial ⟨16, fun _ => Sector.zero, 1, fun _ => false, []⟩ true with
    geo := ⟨.fat12, 1, 16, 1, 12, 1, 0, 1, 2, 3, 1⟩
    winsect := 2
    win := (Sector.zero.fill 0 11 0x20).set 0 0x41
    registered := true
    fsid := 1 }

/-- Where `char` is signed, `follow_path` stops at `A` on the path `A/\x80` and finds the file. -/
theorem followPath_signed_prefix :
    ((followPath {} (afterVolume [0x41, 0x2F, 0x80]) volumeWithA).map fun r => (r.1.1, r.1.2.fn)) =
        some (.ok, 0x41 :: List.replicate 10 0x20) ∧
      ((followPath {} (afterVolume [0x41, 0x2F, 0x80]) (volumeWithA.build false)).map fun r =>
        r.1.1) = some .noPath ∧
      segments (afterVolume [0x41, 0x2F, 0x80]) = [[0x41], [0x80]] ∧
      ¬FollowsSegments true [0x41, 0x2F, 0x80] := by
  have hsegs : segments (afterVolume [0x41, 0x2F, 0x80]) = [[0x41], [0x80]] := by decide +kernel
  refine ⟨by decide +kernel, by decide +kernel, hsegs, fun h => ?_⟩
  have hp := (takenNames_path_iff _ _).1 h.marks rfl
  rw [hsegs] at hp
  exact absurd (hp (by decide +kernel)).1 (by decide)

end FatFs
