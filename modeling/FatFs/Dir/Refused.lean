import FatFs.Access.ReadOnly
import FatFs.Placed.Device

/-!
# Refused operations on the name space

`f_open`, `f_mkdir`, `f_unlink` and `f_rename` refuse a request by one of the codes of `Refused`.
Most refusals come before anything is stored, and the functions up to there only move the window
(`Seen`). `dir_register` refuses when it can neither find nor add a slot: a table that was stretched
has a free slot, so a refusal means that it was not stretched (`dirRegister_refused`). `f_mkdir`
registers the new directory after it has allocated and cleared its table, and frees the cluster
again on a refusal: the cluster was free before, so nothing that was in use has changed
(`Untouched`).
-/

namespace FatFs

open Run

/-- The codes by which an operation on the name space is refused. -/
def Refused (r : FRESULT) : Prop :=
  r = .denied ∨ r = .exist ∨ r = .noFile ∨ r = .noPath ∨ r = .invalidName

instance (r : FRESULT) : Decidable (Refused r) := inferInstanceAs (Decidable (_ ∨ _))

/-- A state in a run from `w` that changed nothing of the volume. -/
structure Seen (g : Geometry) (w w' : State) : Prop where
  inv : Inv g w'
  same : Same g w w'
  sectors : w'.disk.sectors = w.disk.sectors
  good : w.Flushable → w'.Flushable
  freeClst : w'.freeClst = w.freeClst

/-- A state has seen itself. -/
theorem Seen.refl {g : Geometry} {w : State} (h : Inv g w) : Seen g w w :=
  ⟨h, .refl g w, rfl, id, rfl⟩

/-- Two runs that change nothing change nothing one after the other. -/
theorem Seen.trans {g : Geometry} {w₁ w₂ w₃ : State} (h : Seen g w₁ w₂) (h' : Seen g w₂ w₃) :
    Seen g w₁ w₃ :=
  ⟨h'.inv, h.same.trans h'.same, h'.sectors.trans h.sectors, fun hf => h'.good (h.good hf),
    h'.freeClst.trans h.freeClst⟩

/-- Nothing of the volume that is in use has changed: every FAT entry, the root directory area,
every sector of every allocated cluster, and the number of free clusters if it is known. -/
structure Untouched (g : Geometry) (w w' : State) : Prop where
  entries : ∀ c < g.nFatent, g.entry w'.logical c = g.entry w.logical c
  root : ∀ s, g.fatbase + g.nFats * g.fsize ≤ s → s < g.database → w'.logical s = w.logical s
  clusters : ∀ c, g.IsClust c → g.entry w.logical c ≠ 0 → ∀ k < g.csize,
    w'.logical (clst2sect g c + k) = w.logical (clst2sect g c + k)
  freeClst : w.freeClst ≤ g.nFatent - 2 → w'.freeClst = w.freeClst

section
variable {g : Geometry} (hg : g.Sound)

include hg

/-- A run that changes nothing of the volume leaves what is in use. -/
theorem Seen.untouched {w w' : State} (h : Seen g w w') : Untouched g w w' where
  entries c hc := hg.entry_same h.same hc
  root s hs hlt := h.same s fun hs₂ => by
    have h₁ := hs₂.2.2
    omega
  clusters c hc _ k hk := h.same _ (hg.inArea_clst hc hk).not_inFat2
  freeClst _ := h.freeClst

/-! ## Functions that change nothing -/

/-- `move_window` changes nothing of the volume; the window may be flushed. -/
theorem moveWindow_seen (w : State) (s : Nat) : Keeps (Seen g w) (moveWindow s) :=
  fun _ h => (moveWindow_inv hg h.inv s).ensures.mono fun _ _ h' => h.trans
    ⟨h'.inv, h'.same, h'.kept.sectors, fun hf => (h'.good hf).1, h'.kept.freeClst⟩

end

/-! ## Functions that are not refused -/

/-- A run whose result is no refusal. -/
abbrev Unrefused (m : M FRESULT) : Prop := Yields (fun _ => True) (fun r => ¬Refused r) m

/-- A success is no refusal. -/
theorem refused_ok : ¬Refused .ok := by decide

/-- A failure of the device is no refusal. -/
theorem refused_diskErr : ¬Refused .diskErr := by decide

/-- An internal error is no refusal. -/
theorem refused_intErr : ¬Refused .intErr := by decide

/-- `sync_window` answers `FR_OK` or `FR_DISK_ERR`. -/
theorem syncWindow_unrefused : Unrefused syncWindow := by
  unfold syncWindow
  exact .get fun w _ => .ite (fun _ => (keeps_true _).then fun r => .ite (fun _ =>
    (keeps_true _).then fun _ => .ite (fun _ => (keeps_true _).then fun _ => .pure refused_ok)
      fun _ => .pure refused_ok) fun _ => .pure refused_diskErr) fun _ => .pure refused_ok

/-- `move_window` answers `FR_OK` or `FR_DISK_ERR`. -/
theorem moveWindow_unrefused (s : Nat) : Unrefused (moveWindow s) := by
  unfold moveWindow
  refine .get fun w _ => .ite (fun _ => .bind syncWindow_unrefused fun r hr => .ite (fun _ =>
    (keeps_true _).then fun b => ?_) fun _ => .pure hr) fun _ => .pure refused_ok
  cases b with
  | some buff => exact (keeps_true _).then fun _ => .pure refused_ok
  | none => exact (keeps_true _).then fun _ => .pure refused_diskErr

/-- `sync_fs` answers `FR_OK` or `FR_DISK_ERR`. -/
theorem syncFs_unrefused : Unrefused syncFs := by
  have hsync : Unrefused (do return if (← diskSync) = .ok then .ok else .diskErr) :=
    (keeps_true _).then fun r => .pure (by split <;> decide)
  unfold syncFs
  exact .bind syncWindow_unrefused fun r hr => .ite (fun _ => .get fun w _ => .ite (fun _ =>
    (keeps_true _).then fun _ => .ite (fun _ => (keeps_true _).then fun _ => (keeps_true _).then
      fun _ => hsync) fun _ => hsync) fun _ => hsync) fun _ => .pure hr

/-- `put_fat` does not refuse: a number that is no cluster is an internal error. -/
theorem putFat_unrefused (c v : Nat) : Unrefused (putFat c v) := by
  unfold putFat
  refine .get fun w _ => .ite (fun _ => ?_) fun _ => .pure refused_intErr
  cases w.geo.fsType with
  | none => exact .pure refused_intErr
  | fat12 =>
    exact .bind (moveWindow_unrefused _) fun r hr => .ite (fun _ => .pure hr) fun _ =>
      (keeps_true _).then fun _ => .bind (moveWindow_unrefused _) fun r hr => .ite
        (fun _ => .pure hr) fun _ => (keeps_true _).then fun _ => .pure refused_ok
  | fat16 =>
    exact .bind (moveWindow_unrefused _) fun r hr => .ite (fun _ => .pure hr) fun _ =>
      (keeps_true _).then fun _ => .pure refused_ok
  | fat32 =>
    exact .bind (moveWindow_unrefused _) fun r hr => .ite (fun _ => .pure hr) fun _ =>
      (keeps_true _).then fun _ => .pure refused_ok

/-- `remove_chain` does not refuse: a broken chain is an internal error. -/
theorem removeChain_unrefused (c p : Nat) : Unrefused (removeChain c p) := by
  have hround : ∀ c, Yields (fun _ => True) (Sum.elim (fun _ => True) fun r => ¬Refused r)
      (removeRound c) := fun c => by
    unfold removeRound
    exact (keeps_true _).then fun n => .ite (fun _ => .pure refused_ok) fun _ => .ite
      (fun _ => .pure refused_intErr) fun _ => .ite (fun _ => .pure refused_diskErr) fun _ => .bind
        (putFat_unrefused _ _) fun r hr => .ite (fun _ => .pure hr) fun _ => (keeps_true _).then
          fun _ => .get fun _ _ => .ite (fun _ => .pure trivial) fun _ => .pure refused_ok
  have hloop : ∀ n, Unrefused (loop removeRound n c) := fun n =>
    .loop (fun c _ => hround c) n trivial
  unfold removeChain
  exact .get fun w _ => .ite (fun _ => .pure refused_intErr) fun _ => .ite (fun _ => .bind
    (putFat_unrefused _ _) fun r hr => .ite (fun _ => .pure hr) fun _ => hloop _) fun _ => hloop _

/-- `dir_remove` does not refuse. -/
theorem dirRemove_unrefused (dp : DIR) : Unrefused (dirRemove dp) := by
  unfold dirRemove
  exact .bind (moveWindow_unrefused _) fun r hr => .ite (fun _ => (keeps_true _).then fun _ =>
    .pure refused_ok) fun _ => .pure hr

/-- The emptying of an existing file does not refuse. -/
theorem truncEntry_unrefused (dj : DIR) : Unrefused (truncEntry dj) := by
  unfold truncEntry
  exact .get fun w _ => (keeps_true _).then fun _ => .ite (fun _ => .bind
    (removeChain_unrefused _ _) fun r hr => .ite (fun _ => .bind (moveWindow_unrefused _)
      fun r hr => (keeps_true _).then fun _ => .pure hr) fun _ => .pure hr) fun _ =>
        .pure refused_ok

/-- The filling of the file object does not refuse. -/
theorem openFil_unrefused (fp : FIL) (dj : DIR) (mode : UInt8) :
    Yields (fun _ => True) (fun r => ¬Refused r.1) (openFil fp dj mode) := by
  have hround : ∀ bcs p, Yields (fun _ => True)
      (Sum.elim (fun _ => True) fun r => ¬Refused r.1) (appendRound bcs p) := fun bcs p => by
    unfold appendRound
    exact .ite (fun _ => (keeps_true _).then fun _ => .ite (fun _ => .pure refused_diskErr) fun _ =>
      .ite (fun _ => .pure refused_intErr) fun _ => .pure trivial) fun _ => .pure refused_ok
  unfold openFil appendSeek
  refine .get fun w _ => .ite (fun _ => .get fun w _ => .bind (R := fun r => ¬Refused r.1) (.loop
    (fun p _ => hround _ p) _ trivial) fun r hr => .ite (fun _ => .ite (fun _ => .pure
      refused_intErr) fun _ => .pure refused_ok) fun _ => .pure hr) fun _ => .pure refused_ok

/-- The rewriting of the `..` entry does not refuse. -/
theorem renameDotDot_unrefused (c p : Nat) : Unrefused (renameDotDot c p) := by
  unfold renameDotDot
  exact .get fun w _ => .ite (fun _ => .pure refused_intErr) fun _ => .bind (moveWindow_unrefused _)
    fun r hr => .get fun _ _ => .ite (fun _ => (keeps_true _).then fun _ => .pure refused_ok)
      fun _ => .pure hr

/-! ## Registering an entry -/

/-- The outcomes of a step through a table that may stretch it: nothing was written, a cleared table
is entered, or an error that is no refusal. -/
def Stretched (I : State → Prop) (r : FRESULT × DIR) (w' : State) : Prop :=
  I w' ∨ (r.1 = .ok ∧ w'.winsect = r.2.sect ∧ w'.win = Sector.zero) ∨ (r.1 ≠ .ok ∧ ¬Refused r.1)

section
variable {g : Geometry} (hg : g.Sound) {I : State → Prop} (hinv : ∀ w, I w → Inv g w)
  (hmove : ∀ s, Keeps I (moveWindow s))

include hg hinv hmove

/-- The stretching of a table refuses only when no cluster is free, and then stores nothing. -/
theorem dirStretch_refused {w₁ : State} (h : I w₁) (dp : DIR) (ofs : Nat) :
    Ensures (dirStretch dp ofs) w₁ (Stretched I) := by
  have herr : ∀ {res : FRESULT} {w' : State}, res ≠ .ok → ¬Refused res →
      Stretched I (res, dp) w' := fun h₁ h₂ => .inr (.inr ⟨h₁, h₂⟩)
  rw [dirStretch, ensures_bind]
  refine ((createChain_inv hg (hinv w₁ h) dp.clust).ensures.and
    (createChain_full_keeps (getFat_keeps hmove) h dp.clust)).mono fun c w₂ hpost => ?_
  obtain ⟨hc, hs⟩ := hpost
  simp only [ensures_ite, ensures_pure, ensures_bind, ensures_get]
  refine ⟨fun h0 => .inl (hs h0), fun h0 => ⟨fun _ => herr (by decide) (by decide), fun h1 =>
    ⟨fun _ => herr (by decide) (by decide), fun hd => ?_⟩⟩⟩
  have hcl := hc.isClust h0 h1 hd
  refine (dirClear_inv hg hc.fat.inv hcl).ensures.mono fun r w₃ h₃ =>
    ⟨fun _ => herr (by decide) (by decide), fun hok => .inr (.inl ⟨rfl, ?_, ?_⟩)⟩
  · dsimp only [DIR.enter]
    rw [h₃.inv.geo]
    exact (h₃.ok (not_not.1 hok)).1
  · exact (h₃.ok (not_not.1 hok)).2.1

/-- The step to the next entry refuses only where the table cannot be stretched. -/
theorem dirNext_refused {w₁ : State} (h : I w₁) (dp : DIR) :
    Ensures (dirNext dp true) w₁ (Stretched I) := by
  rw [dirNext, ensures_bind, ensures_get]
  simp only [ensures_ite, ensures_pure, ensures_bind]
  refine ⟨fun _ => .inl h, fun _ => ⟨fun _ => ⟨fun _ => ⟨fun _ => .inl h, fun _ => .inl h⟩, fun _ =>
    ⟨fun _ => ?_, fun _ => .inl h⟩⟩, fun _ => .inl h⟩⟩
  refine (getFat_keeps hmove _ w₁ h).mono fun c w₂ h₂ => ⟨fun _ => .inl h₂,
    fun _ => ⟨fun _ => .inl h₂, fun _ => ⟨fun _ => ?_, fun _ => .inl h₂⟩⟩⟩
  exact ⟨fun _ => dirStretch_refused hg hinv hmove h₂ _ _, fun hne => absurd trivial hne⟩

/-- A round of the search for one free entry: a table that was just cleared has it. -/
theorem allocRound_refused {w₁ : State} {p : DIR × Nat} (hp : p.2 = 0)
    (h : I w₁ ∨ (w₁.winsect = p.1.sect ∧ w₁.win = Sector.zero)) :
    Ensures (allocRound 1 p) w₁ fun r w₂ => Sum.elim
      (fun q => q.2 = 0 ∧ (I w₂ ∨ (w₂.winsect = q.1.sect ∧ w₂.win = Sector.zero)))
      (fun q => Refused q.1 → I w₂) r := by
  obtain ⟨d, n⟩ := p
  dsimp only at hp h
  subst hp
  rcases h with h | ⟨hs, hz⟩
  · rw [allocRound, ensures_bind]
    refine ((hmove _ w₁ h).and (moveWindow_unrefused _ w₁ trivial)).mono
      fun res w₂ hpost => ?_
    obtain ⟨h₂, hr⟩ := hpost
    simp only [ensures_ite, ensures_pure, ensures_bind, ensures_get]
    refine ⟨fun _ _ => h₂, fun _ => ⟨fun _ _ => h₂, fun hfree => ?_⟩⟩
    refine (dirNext_refused hg hinv hmove h₂ _).mono fun q w₃ h₃ =>
      ⟨fun hok => ?_, fun hne href => ?_⟩
    · refine ⟨?_, ?_⟩
      · show (if w₂.win d.dir = DDEM ∨ w₂.win d.dir = 0 then 0 + 1 else 0) = 0
        refine if_neg fun hb => hfree ⟨hb, ?_⟩
        rw [if_pos hb]
      · rcases h₃ with h₃ | ⟨_, hw⟩ | ⟨hne, _⟩
        · exact .inl h₃
        · exact .inr hw
        · exact absurd hok hne
    · rcases h₃ with h₃ | ⟨hok, _⟩ | ⟨_, hnr⟩
      · exact h₃
      · exact absurd hok hne
      · exact absurd href hnr
  · intro r w₂ hm
    rw [allocRound_cleared hs hz] at hm
    cases hm
    exact fun href => absurd href refused_ok

/-- A refusal to register an entry writes nothing. -/
theorem dirRegister_refused {w₁ : State} (h : I w₁) (dp : DIR) :
    Ensures (dirRegister dp) w₁ fun r w₂ => Refused r.1 → I w₂ := by
  have hloop : ∀ {d : DIR} {w₂ : State}, I w₂ →
      Ensures (loop (allocRound 1) (MAX_DIR / SZDIRE + 1) (d, 0)) w₂ fun r w₃ =>
        Refused r.1 → I w₃ := fun h₂ =>
    Ensures.loop (I := fun p w' => p.2 = 0 ∧ (I w' ∨
      (w'.winsect = p.1.sect ∧ w'.win = Sector.zero)))
      (fun p w' hp => allocRound_refused hg hinv hmove hp.1 hp.2) _ ⟨rfl, .inl h₂⟩
  have hdenied : ∀ {res : FRESULT}, Refused (if res = .noFile then .denied else res) →
      Refused res := by
    intro res href
    split at href
    · rename_i hn
      rw [hn]
      decide
    · exact href
  have halloc : Ensures (dirAlloc dp 1) w₁ fun r w₂ => Refused r.1 → I w₂ := by
    rw [dirAlloc, ensures_bind]
    refine (dirSdi_of_move hmove dp 0 w₁ h).mono fun r w₂ h₂ => ?_
    simp only [ensures_ite, ensures_pure, ensures_bind]
    exact ⟨fun _ => (hloop h₂).mono fun q w₃ h₃ href => h₃ (hdenied href), fun _ _ => h₂⟩
  rw [dirRegister, ensures_bind]
  refine halloc.mono fun r w₂ h₂ => ?_
  simp only [ensures_ite, ensures_pure, ensures_bind]
  refine ⟨fun _ => ?_, fun _ => h₂⟩
  refine (moveWindow_unrefused r.2.sect w₂ trivial).mono fun res w₃ hr =>
      ⟨fun _ => ?_, fun _ href =>
    absurd href hr.2⟩
  exact (keeps_true _ w₃ trivial).mono fun _ _ _ href => absurd href refused_ok

end

/-! ## The calls -/

/-- Mounting does nothing to a mounted volume. -/
theorem mountVolume_still {w : State} (hf : w.geo.fsType ≠ .none) (path : List UInt8)
    (mode : UInt8) :
    Ensures (mountVolume path mode) w fun _ w' => w' = w := by
  rw [mountVolume, ensures_bind, ensures_get]
  obtain ⟨known, rest⟩ := getLdnumber w.charSigned path
  cases known with
  | false => exact ensures_pure.2 rfl
  | true =>
    simp only [ensures_ite, ensures_pure]
    exact ⟨fun _ => trivial, fun _ => ⟨fun _ => ⟨fun _ => trivial, fun _ => trivial⟩, fun hm =>
      absurd ⟨hf, rfl⟩ hm⟩⟩

section
variable {g : Geometry} (hg : g.Sound) {w : State} (hw : Inv g w)

include hg hw

/-- A function that mounts the volume first, on a mounted volume. -/
theorem mountThen_refused {α : Type} {f : α → FRESULT} {Q : State → Prop}
    {k : FRESULT × List UInt8 → M α} (path : List UInt8) (mode : UInt8)
    (hk : ∀ r, Ensures (k r) w fun a w' => Refused (f a) → Q w') :
    Ensures (mountVolume path mode >>= k) w fun a w' => Refused (f a) → Q w' := by
  rw [ensures_bind]
  refine (mountVolume_still (by rw [hw.geo]; exact hg.fsType) path mode).mono fun r w₁ h₁ => ?_
  rw [h₁]
  exact hk r

/-- `follow_path` changes nothing of the volume. -/
theorem followPath_seen (dp : DIR) (path : List UInt8) :
    Ensures (followPath dp path) w fun _ w' => Seen g w w' :=
  followPath_of_move (moveWindow_seen hg w) dp path w (.refl hw)

omit hw in
/-- `f_open` with a creating mode refuses before anything is stored. -/
theorem openCreate_refused {w₁ : State} (h : Seen g w w₁) (res : FRESULT) (dj : DIR)
    (mode : UInt8) :
    Ensures (openCreate res dj mode) w₁ fun r w₂ => Refused r.1 → Seen g w w₂ := by
  have htrunc : ∀ (dj : DIR) (mode : UInt8) (w₂ : State),
      Ensures (do return (← truncEntry dj, dj, mode)) w₂ fun r w₃ => Refused r.1 → Seen g w w₃ :=
    fun dj mode w₂ => by
      rw [ensures_bind]
      exact (truncEntry_unrefused dj w₂ trivial).mono fun r w₃ hr => ensures_pure.2 fun href =>
        absurd href hr.2
  unfold openCreate
  simp only [ensures_ite, ensures_pure]
  refine ⟨fun _ => ⟨fun _ => ?_, fun _ _ => h⟩, fun _ => ⟨fun _ _ => h, fun _ => ⟨fun _ _ => h,
    fun _ => ⟨fun _ => htrunc _ _ _, fun _ _ => h⟩⟩⟩⟩
  rw [ensures_bind]
  refine (dirRegister_refused hg (fun _ => Seen.inv)
    (moveWindow_seen hg w) h dj).mono fun r w₂ h₂ => ?_
  rw [ensures_ite]
  exact ⟨fun _ => htrunc _ _ _, fun _ => ensures_pure.2 h₂⟩

/-- `f_open` refuses before anything is stored. -/
theorem fOpen_refused (fp : FIL) (path : List UInt8) (mode : UInt8) :
    Ensures (fOpen fp path mode) w fun r w' => Refused r.1 → Seen g w w' := by
  unfold fOpen
  refine mountThen_refused hg hw _ _ fun r => ?_
  rw [ensures_ite]
  refine ⟨fun _ => ?_, fun _ => ensures_pure.2 fun _ => .refl hw⟩
  rw [ensures_bind]
  refine (followPath_seen hg hw _ _).mono fun q w₁ h₁ => ?_
  rw [ensures_bind]
  refine Ensures.mono (Q := fun o w₂ => Refused o.1 → Seen g w w₂) (ensures_ite.2
    ⟨fun _ => openCreate_refused hg h₁ _ _ _, fun _ => ensures_pure.2 fun _ => h₁⟩)
    fun o w₂ h₂ => ?_
  rw [ensures_ite]
  refine ⟨fun _ => ?_, fun _ => ensures_pure.2 h₂⟩
  rw [ensures_bind]
  exact (openFil_unrefused _ _ _ w₂ trivial).mono fun s w₃ hs => ensures_pure.2 fun href =>
    absurd href hs.2

/-- `f_unlink` refuses before anything is stored. -/
theorem fUnlink_refused (path : List UInt8) :
    Ensures (fUnlink path) w fun r w' => Refused r → Seen g w w' := by
  unfold fUnlink
  refine mountThen_refused (f := id) hg hw _ _ fun r => ?_
  rw [ensures_ite]
  refine ⟨fun _ => ?_, fun _ => ensures_pure.2 fun _ => .refl hw⟩
  rw [ensures_bind]
  refine (followPath_seen hg hw _ _).mono fun q w₁ h₁ => ?_
  simp only [ensures_ite, ensures_pure, ensures_get, ensures_bind (m := get)]
  refine ⟨fun _ => ⟨fun _ _ => h₁, fun _ => ⟨fun _ _ => h₁, fun _ => ?_⟩⟩, fun _ _ => h₁⟩
  rw [ensures_bind]
  -- the test for an empty directory only reads
  have hempty : Keeps (Seen g w) (if hasBits q.2.attr AM_DIR then
      dirEmpty (ldClust w₁.geo w₁.win q.2.dir) else pure .ok) := by
    unfold dirEmpty
    exact .ite (fun _ => .bind (dirSdi_of_move (moveWindow_seen hg w) _ 0) fun _ => .ite (fun _ =>
      .bind (dirRead_of_move (moveWindow_seen hg w) _ _) fun _ => .pure _) fun _ => .pure _)
      fun _ => .pure _
  refine (hempty w₁ h₁).mono fun res w₂ h₂ => ensures_ite.2 ⟨fun _ => ?_, fun _ =>
    ensures_pure.2 fun _ => h₂⟩
  have hrest : Unrefused (do
      let res ← dirRemove q.2
      if res = .ok then
        let res ← (if ldClust w₁.geo w₁.win q.2.dir ≠ 0 then
          removeChain (ldClust w₁.geo w₁.win q.2.dir) 0 else pure .ok)
        if res = .ok then syncFs else return res
      else return res) :=
    .bind (dirRemove_unrefused _) fun r hr => .ite (fun _ => .bind (R := fun r => ¬Refused r) (.ite
      (fun _ => removeChain_unrefused _ _) fun _ => .pure refused_ok) fun r hr => .ite
        (fun _ => syncFs_unrefused) fun _ => .pure hr) fun _ => .pure hr
  exact (hrest w₂ trivial).mono fun r w₃ hr href => absurd href hr.2

omit hw in
/-- The registration of the new name refuses before anything is stored. -/
theorem renameEnter_refused {w₁ : State} (h : Seen g w w₁) (djo djn : DIR) (buf : List UInt8) :
    Ensures (renameEnter djo djn buf) w₁ fun r w₂ => Refused r → Seen g w w₂ := by
  rw [renameEnter, ensures_bind]
  refine (dirRegister_refused hg (fun _ => Seen.inv) (moveWindow_seen hg w) h djn).mono
    fun r w₂ h₂ => ensures_ite.2 ⟨fun _ => ?_, fun _ => ensures_pure.2 h₂⟩
  have hrest : Unrefused (do
      modWin fun s => renameEntry s r.2.dir buf
      let w ← get
      if hasBits (w.win (r.2.dir + DIR_Attr)) AM_DIR ∧ djo.sclust ≠ r.2.sclust then
        renameDotDot (ldClust w.geo w.win r.2.dir) r.2.sclust
      else return .ok) :=
    (keeps_true _).then fun _ => .get fun _ _ => .ite (fun _ => renameDotDot_unrefused _ _) fun _ =>
      .pure refused_ok
  exact (hrest w₂ trivial).mono fun r w₃ hr href => absurd href hr.2

/-- `f_rename` refuses before anything is stored. -/
theorem fRename_refused (pathOld pathNew : List UInt8) :
    Ensures (fRename pathOld pathNew) w fun r w' => Refused r → Seen g w w' := by
  rw [fRename, ensures_bind, ensures_get]
  refine mountThen_refused (f := id) hg hw _ _ fun r => ?_
  rw [ensures_ite]
  refine ⟨fun _ => ?_, fun _ => ensures_pure.2 fun _ => .refl hw⟩
  rw [renameObject, ensures_bind]
  refine (followPath_seen hg hw _ _).mono fun o w₁ h₁ => ?_
  simp only [ensures_ite, ensures_pure, ensures_get, ensures_bind (m := get)]
  refine ⟨fun _ => ⟨fun _ _ => h₁, fun _ => ?_⟩, fun _ _ => h₁⟩
  rw [ensures_bind]
  refine (followPath_of_move (moveWindow_seen hg w) _ _ w₁ h₁).mono fun n w₂ h₂ => ?_
  rw [ensures_bind]
  refine Ensures.mono (Q := fun res w₃ => Refused res → Seen g w w₃) (ensures_ite.2
    ⟨fun _ => renameEnter_refused hg h₂ _ _ _, fun _ => ensures_pure.2 fun _ => h₂⟩)
    fun res w₃ h₃ => ensures_ite.2 ⟨fun _ => ?_, fun _ => ensures_pure.2 h₃⟩
  have hrest : Unrefused (do
      let res ← dirRemove o.2
      if res = .ok then syncFs else return res) :=
    .bind (dirRemove_unrefused _) fun r hr => .ite (fun _ => syncFs_unrefused) fun _ => .pure hr
  exact (hrest w₃ trivial).mono fun r w₄ hr href => absurd href hr.2

end

/-! ## The undo of `f_mkdir` -/

/-- What removing a chain of one cluster does. -/
structure Released (g : Geometry) (w : State) (c : Nat) (w' : State) : Prop where
  fat : FatOnly g w w'
  entry_self : g.entry w'.logical c = 0
  entry_other : ∀ e < g.nFatent, e ≠ c → g.entry w'.logical e = g.entry w.logical e
  freeClst : w'.freeClst = if w.freeClst < g.nFatent - 2 then w.freeClst + 1 else w.freeClst

/-- Nothing is removed when no cluster was allocated. -/
theorem removeChain_zero (w : State) : removeChain 0 0 w = some (.intErr, w) := rfl

section
variable {g : Geometry} (hg : g.Sound)

include hg

/-- Removing a chain of one cluster reads its entry, clears it and counts the cluster. -/
theorem removeChain_once {w : State} (hw : Inv g w) (hf : w.Flushable) (ho : g.FatOn w) {c : Nat}
    (hc : g.IsClust c) (hend : g.nFatent ≤ g.entry w.logical c) :
    ∃ w₁ w₂, getFat c w = some (g.entry w.logical c, w₁) ∧ FatRead g w c (g.entry w.logical c) w₁ ∧
      putFat c 0 w₁ = some (.ok, w₂) ∧ FatWrite g w₁ c 0 .ok w₂ ∧
      removeChain c 0 w = some (.ok, w₂.freed) := by
  have h2 := hc.1
  have hlt := hc.2
  have hmod : g.entry w.logical c < DISKERR :=
    Nat.lt_of_lt_of_le (g.entry_lt _ _) (Nat.le_trans g.entryMod_le (by decide))
  have hn := hg.entries
  obtain ⟨nxt, w₁, hget, h₁⟩ := getFat_inv hg hw c
  obtain rfl := h₁.full hf ho hc
  obtain ⟨res, w₂, hput, h₂⟩ := putFat_inv hg h₁.inv c 0
  obtain rfl : res = .ok := h₂.full (h₁.good hf) (ho.kept h₁.kept.sectors) hc
  have hrun : Returns (removeChain c 0) w fun r w' => r = .ok ∧ w' = w₂.freed := by
    rw [removeChain, returns_bind, returns_get, hw.geo, if_neg (by omega), if_neg (by decide), loop,
      returns_bind, removeRound, returns_bind]
    refine ⟨_, _, hget, ?_⟩
    beta_reduce
    rw [if_neg (by omega), if_neg (by omega), if_neg (by omega), returns_bind]
    refine ⟨_, _, hput, ?_⟩
    beta_reduce
    rw [if_neg (not_not.2 rfl), returns_bind, returns_modify, returns_bind, returns_get,
      State.freed_geo, h₂.inv.geo, if_neg (by omega), returns_pure]
    exact returns_pure.2 ⟨rfl, rfl⟩
  obtain ⟨r, w', hm, rfl, rfl⟩ := hrun
  exact ⟨w₁, w₂, hget, h₁, hput, h₂, hm⟩

/-- `remove_chain` on a chain of one cluster clears its entry and counts it as free. -/
theorem removeChain_released {w : State} (hw : Inv g w) (hf : w.Flushable) (ho : g.FatOn w)
    {c : Nat} (hc : g.IsClust c) (hend : g.nFatent ≤ g.entry w.logical c) :
    Returns (removeChain c 0) w fun _ w' => Released g w c w' := by
  obtain ⟨w₁, w₂, -, h₁, -, h₂, hm⟩ := removeChain_once hg hw hf ho hc hend
  have hon : g.fatbase < w₂.disk.sectors := by
    rw [h₂.kept.sectors]
    exact h₂.onDevice rfl
  refine ⟨_, _, hm, (h₁.fatOnly.trans h₂.fatOnly).trans (.freed h₂.inv hon),
    ?_, fun e he hne => ?_, ?_⟩
  · rw [State.freed_logical, h₂.entry_self hg, Nat.zero_mod]
  · rw [State.freed_logical, h₂.entry_other hg he hne, hg.entry_same h₁.same he]
  · rw [State.freed_freeClst, h₂.inv.geo, h₂.kept.freeClst, h₁.kept.freeClst]

/-- What a refusal leaves of the new directory: its cluster is written, and everything outside it is
kept. -/
structure Drafted (g : Geometry) (w : State) (c : Nat) (w' : State) : Prop where
  inv : Inv g w'
  good : w'.Flushable
  sectors : w'.disk.sectors = w.disk.sectors
  frame : ∀ s, ¬g.InFat2 s → (s < clst2sect g c ∨ clst2sect g c + g.csize ≤ s) →
    w'.logical s = w.logical s
  freeClst : w'.freeClst = w.freeClst

/-- `f_mkdir` refuses with nothing stored but the table in the new cluster. -/
theorem mkdirTable_refused {w : State} (hw : Inv g w) (dj : DIR) {c : Nat} (hc : g.IsClust c) :
    Ensures (mkdirTable dj c) w fun r w' => Refused r.1 → Drafted g w c w' := by
  rw [mkdirTable, ensures_bind]
  refine (dirClear_inv hg hw hc).ensures.mono fun res w₁ h₁ => ?_
  rw [ensures_ite]
  refine ⟨fun hok => ?_, fun _ => ensures_pure.2 fun href => ?_⟩
  · obtain ⟨hs, -, hon, -⟩ := h₁.ok hok
    rw [ensures_bind, ensures_get, ensures_bind, modWin, ensures_modify]
    refine (dirRegister_refused hg (fun _ => Seen.inv) (moveWindow_seen hg _)
      (.refl (h₁.inv.store _)) dj).mono fun r w₂ h₂ href => ?_
    have hseen := h₂ href
    refine ⟨hseen.inv, hseen.good fun _ => ?_, hseen.sectors.trans h₁.kept.sectors,
      fun s hs₂ hout => ?_, hseen.freeClst.trans h₁.kept.freeClst⟩
    · show w₁.winsect < w₁.disk.sectors
      rw [hs, h₁.kept.sectors]
      exact hon
    · have hcs := hg.csize_pos
      rw [hseen.same s hs₂, logical_store, if_neg (by omega), h₁.frame s hs₂ hout]
  · rcases h₁.res with rfl | rfl
    · exact absurd href refused_ok
    · exact absurd href refused_diskErr

/-- A cluster that `create_chain` gives to a new chain was free, and ends it. -/
theorem Created.taken {w w₁ : State} {c : Nat} (h : Created g w 0 c w₁) (hc : g.IsClust c) :
    g.entry w.logical c = 0 ∧ Linked g w 0 c w₁ ∧ w.freeClst ≠ 0 ∧
      w₁.freeClst = if w.freeClst ≤ g.nFatent - 2 then w.freeClst - 1 else w.freeClst := by
  have hpos := hc.1
  rcases h.out with h | h | h | h | h
  · omega
  · omega
  · have := hc.2
    have := hg.nFatent_lt
    omega
  · exact absurd rfl h.2.1
  · exact h.2

/-- The drafted table is in the data area, so the FAT is as before. -/
theorem Drafted.entry {w w' : State} {c e : Nat} (h : Drafted g w c w') (hc : g.IsClust c)
    (he : e < g.nFatent) : g.entry w'.logical e = g.entry w.logical e := by
  refine hg.entry_congr (fun s hs => h.frame s hs.not_inFat2 (.inl ?_)) he
  have := hg.inFat_lt hs
  rw [hg.clst2sect_eq hc]
  omega

/-- A cluster that was taken for a new directory and released again leaves nothing behind. -/
theorem Released.untouched {w w₁ w₂ w₃ : State} {c : Nat} (h₁ : Created g w 0 c w₁)
    (hc : g.IsClust c) (h₂ : Drafted g w₁ c w₂) (h₃ : Released g w₂ c w₃) : Untouched g w w₃ := by
  obtain ⟨hfree, hlink, hne, hcount⟩ := h₁.taken hg hc
  have hout : ∀ s, ¬g.InFat s → ¬g.InFat2 s → (s < clst2sect g c ∨ clst2sect g c + g.csize ≤ s) →
      w₃.logical s = w.logical s := fun s hs hs₂ hcl => by
    rw [h₃.fat.frame s hs hs₂, h₂.frame s hs₂ hcl, h₁.fat.frame s hs hs₂]
  have hbase : g.database ≤ clst2sect g c := by
    rw [hg.clst2sect_eq hc]
    exact Nat.le_add_right _ _
  have harea : ∀ s, g.InArea s → ¬g.InFat s := fun s hs hf => hg.not_inArea_of_inFat hf hs
  refine ⟨fun e he => ?_, fun s hs hlt => ?_, fun e he hused k hk => ?_, fun hle => ?_⟩
  · by_cases hec : e = c
    · rw [hec, h₃.entry_self, hfree]
    · rw [h₃.entry_other e he hec, h₂.entry hg hc he, hlink e he, if_neg (fun h => h.2 rfl),
        if_neg hec]
  · refine hout s (hg.not_inFat_of_ge hs) (fun hf => ?_) (.inl (by omega))
    have := hf.2.2
    omega
  · have hin := hg.inArea_clst he hk
    refine hout _ (harea _ hin) hin.not_inFat2 ?_
    by_contra hn
    obtain ⟨rfl, -⟩ := hg.clst2sect_inj he hc hk
      (show clst2sect g e + k - clst2sect g c < g.csize by omega) (by omega)
    exact hused hfree
  · rw [h₃.freeClst, h₂.freeClst, hcount, if_pos hle, if_pos (by omega)]
    omega

/-- What is in use stays when nothing is changed first. -/
theorem Seen.then_untouched {w w₁ w' : State} (h : Seen g w w₁) (h' : Untouched g w₁ w') :
    Untouched g w w' where
  entries c hc := (h'.entries c hc).trans ((h.untouched hg).entries c hc)
  root s hs hlt := (h'.root s hs hlt).trans ((h.untouched hg).root s hs hlt)
  clusters c hc hu k hk := by
    rw [h'.clusters c hc (by rwa [hg.entry_same h.same hc.2]) k hk,
      (h.untouched hg).clusters c hc hu k hk]
  freeClst hle := by
    rw [h'.freeClst (by rwa [h.freeClst]), h.freeClst]

/-- `f_mkdir` refuses with the new cluster freed again. -/
theorem fMkdir_refused {w : State} (hw : Inv g w) (hf : w.Flushable) (ho : g.FatOn w)
    (path : List UInt8) : Ensures (fMkdir path) w fun r w' => Refused r → Untouched g w w' := by
  unfold fMkdir
  refine mountThen_refused (f := id) hg hw _ _ fun r => ?_
  rw [ensures_ite]
  refine ⟨fun _ => ?_, fun _ => ensures_pure.2 fun _ => (Seen.refl hw).untouched hg⟩
  rw [ensures_bind]
  refine (followPath_seen hg hw _ _).mono fun q w₁ h₁ => ?_
  simp only [ensures_ite, ensures_pure]
  refine ⟨fun _ _ => h₁.untouched hg, fun _ => ⟨fun _ => ?_, fun _ _ => h₁.untouched hg⟩⟩
  have hf₁ := h₁.good hf
  have ho₁ : g.FatOn w₁ := ho.kept h₁.sectors
  rw [ensures_bind]
  refine (createChain_inv hg h₁.inv 0).ensures.mono fun c w₂ h₂ => ?_
  rw [ensures_bind]
  refine Ensures.mono (Q := fun d w₃ => Refused d.1 → (c = 0 ∧ w₃ = w₂) ∨
    (g.IsClust c ∧ Drafted g w₂ c w₃)) ?_ fun d w₃ h₃ => ensures_ite.2 ⟨fun _ => ?_, fun _ => ?_⟩
  · simp only [ensures_ite, ensures_pure]
    refine ⟨fun h0 _ => .inl ⟨h0, trivial⟩, fun h0 => ⟨fun _ href =>
        absurd href refused_intErr, fun h1 =>
      ⟨fun _ href => absurd href refused_diskErr, fun hd => ?_⟩⟩⟩
    have hc := h₂.isClust h0 h1 hd
    exact (mkdirTable_refused hg h₂.fat.inv _ hc).mono fun d w₃ h₃ href => .inr ⟨hc, h₃ href⟩
  · have hsync : Unrefused (do
        let g := (← get).geo
        modWin fun s => mkdirEntry g s d.2.dir c
        syncFs) := .get fun _ _ => (keeps_true _).then fun _ => syncFs_unrefused
    exact (hsync w₃ trivial).mono fun r w₄ hr href => absurd href hr.2
  · rw [ensures_bind]
    by_cases href : Refused d.1
    · rcases h₃ href with ⟨h0, rfl⟩ | ⟨hc, h₃⟩
      · intro res w₄ hm
        rw [h0, removeChain_zero] at hm
        cases hm
        refine ensures_pure.2 fun _ => h₁.then_untouched hg ?_
        exact Seen.untouched hg ⟨h₂.fat.inv, (h₂.none h0).1, h₂.fat.sectors, h₂.fat.good,
          (h₂.none h0).2.1⟩
      · have hend : g.nFatent ≤ g.entry w₃.logical c := by
          rw [h₃.entry hg hc hc.2, (h₂.taken hg hc).2.1 c hc.2,
            if_neg (fun h => h.2 rfl), if_pos rfl]
          exact hg.endMark_ge
        refine (removeChain_released hg h₃.inv h₃.good
          (ho₁.kept (h₃.sectors.trans h₂.fat.sectors)) hc hend).ensures.mono
          fun res w₄ h₄ => ensures_pure.2 fun _ => ?_
        exact h₁.then_untouched hg (h₄.untouched hg h₂ hc h₃)
    · exact (keeps_true _ w₃ trivial).mono fun _ _ _ => ensures_pure.2 fun hr => absurd hr href

/-- A refused operation on the name space changes nothing that is in use. -/
theorem refused_untouched {w : State} (hw : Inv g w) (hf : w.Flushable)
    (hon : g.volEnd ≤ w.disk.sectors) :
    (∀ fp path mode, Returns (fOpen fp path mode) w fun r w' => Refused r.1 → Untouched g w w') ∧
    (∀ path, Returns (fMkdir path) w fun r w' => Refused r → Untouched g w w') ∧
    (∀ path, Returns (fUnlink path) w fun r w' => Refused r → Untouched g w w') ∧
    ∀ pathOld pathNew, Returns (fRename pathOld pathNew) w fun r w' => Refused r →
      Untouched g w w' := by
  have ho : g.FatOn w := hg.fatOn hon
  refine ⟨fun fp path mode => ?_, fun path => ?_, fun path => ?_, fun pathOld pathNew => ?_⟩
  · exact (((fOpen_serves fp path mode).keeps g hg w hw).and_ensures
      (fOpen_refused hg hw fp path mode)).mono fun r w' h href => (h.2 href).untouched hg
  · exact (((fMkdir_serves path).keeps g hg w hw).and_ensures
      (fMkdir_refused hg hw hf ho path)).mono fun r w' h => h.2
  · exact (((fUnlink_serves path).keeps g hg w hw).and_ensures
      (fUnlink_refused hg hw path)).mono fun r w' h href => (h.2 href).untouched hg
  · exact (((fRename_serves pathOld pathNew).keeps g hg w hw).and_ensures
      (fRename_refused hg hw pathOld pathNew)).mono fun r w' h href => (h.2 href).untouched hg

end

/-- A volume whose root directory, of 16 entries, is full of empty files. -/
def fullRoot : Disk :=
  { bootImage 128 plainBoot with
    data := fun s => if s = 3 then fun i => if i % 32 = 0 then UInt8.ofNat (0x41 + i / 32)
      else if i % 32 ≤ 11 then 0x20 else 0 else (bootImage 128 plainBoot).data s }

/-- The volume whose root directory is full, mounted. -/
theorem fullRoot_mounted : ∃ w, mountVolume [] 0 (registeredOn fullRoot) = some ((.ok, []), w) ∧
    w.geo.Sound ∧ Inv w.geo w ∧ w.Flushable ∧ w.geo.volEnd ≤ w.disk.sectors := by
  have h : (mountVolume [] 0 (registeredOn fullRoot)).map (fun r =>
      (r.1, r.2.geo, r.2.disk.sectors)) =
      some ((.ok, []), ⟨.fat12, 2, 16, 1, 126, 1, 0, 1, 3, 4, 1⟩, 128) := by
    decide +kernel
  obtain ⟨⟨r, w⟩, hm, h⟩ := Option.map_eq_some_iff.1 h
  simp only [Prod.mk.injEq] at h
  obtain ⟨rfl, hgeo, hsec⟩ := h
  have hsound : fullRoot.MountsSound :=
    Disk.mountsSound_of (b := 0) (by decide +kernel) (by decide +kernel) (by decide +kernel)
  obtain ⟨hg, hi, hf⟩ := registeredOn_mounted (fun _ => rfl) (show 128 < W32 by decide) hsound hm
  refine ⟨w, hm, hg, hi, hf, ?_⟩
  rw [hgeo, hsec]
  decide

/-- The hypotheses are met by the full root directory, where `f_mkdir` is refused after it has
allocated and cleared a table. -/
theorem refused_untouched_full : ∃ w w', mountVolume [] 0 (registeredOn fullRoot) =
      some ((.ok, []), w) ∧ fMkdir [0x5A] w = some (.denied, w') ∧ w'.wflag = true ∧
    Untouched w.geo w w' := by
  obtain ⟨w, hm, hg, hi, hf, hon⟩ := fullRoot_mounted
  have h : (mountVolume [] 0 (registeredOn fullRoot)).bind (fun r => (fMkdir [0x5A] r.2).map
      fun q => (q.1, q.2.wflag)) = some (.denied, true) := by
    decide +kernel
  rw [hm, Option.bind_some] at h
  obtain ⟨⟨r, w'⟩, hr, h⟩ := Option.map_eq_some_iff.1 h
  simp only [Prod.mk.injEq] at h
  obtain ⟨rfl, hd⟩ := h
  exact ⟨w, w', hm, hr, hd,
    ((refused_untouched hg hi hf hon).2.1 [0x5A]).ensures _ _ hr (by decide)⟩

end FatFs
