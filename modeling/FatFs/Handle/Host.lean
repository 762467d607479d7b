import FatFs.Fat.Chain
import FatFs.Model.Api
import FatFs.Model.Mkfs
import FatFs.Mount.Layout

/-!
# What only a mount changes

The mounted layout, the mount counter `Fsid`, the registration and the signedness of `char` are the
host of the functions on a mounted volume: none of them changes it (`OnHost`), on any device and any
image. The functions on an open object also keep the handle of the object, its `fs` member and the
mount ID in it, except that closing clears `fs`.
-/

namespace FatFs

open Run

/-- The members of the state that the functions on a mounted volume do not change. -/
structure Host where
  geo : Geometry
  fsid : Nat
  registered : Bool
  charSigned : Bool
  deriving DecidableEq

/-- The host of the functions on a mounted volume. -/
abbrev State.host (w : State) : Host := ⟨w.geo, w.fsid, w.registered, w.charSigned⟩

/-- The state has the host `h`. -/
def OnHost (h : Host) (w : State) : Prop := w.host = h

/-- A state with the same host is on the same host. -/
theorem OnHost.of_eq {h : Host} {w w' : State} (hw : OnHost h w) (he : w'.host = w.host) :
    OnHost h w' := he.trans hw

/-- The window is not part of the host. -/
theorem OnHost.window {h : Host} {w : State} (hw : OnHost h w) (s : Nat) (t : Sector) :
    OnHost h { w with winsect := s, win := t } := hw.of_eq rfl

/-- What keeps the layout and the mount keeps the host. -/
theorem Kept.host {w w' : State} (h : Kept w w') : w'.host = w.host := by
  unfold State.host
  rw [h.geo, h.fsid, h.registered, h.charSigned]

/-- The `fs` member and the mount ID of an object. -/
structure Handle where
  fs : Bool
  id : Nat
  deriving DecidableEq

/-- The handle of a file object. -/
abbrev FIL.handle (fp : FIL) : Handle := ⟨fp.fs, fp.id⟩

/-- The handle of a directory object. -/
abbrev DIR.handle (dp : DIR) : Handle := ⟨dp.fs, dp.id⟩

section
variable {h : Host}

/-- A read of the device is noted in its log only. -/
theorem diskRead_host (s c : Nat) : Keeps (OnHost h) (diskRead s c) := by
  unfold diskRead
  exact .get fun _ _ => .bind (.modify fun _ h => h) fun _ =>
    .ite (fun _ => .pure _) fun _ => .pure _

/-- A write to the device changes its sectors and its log only. -/
theorem diskWrite_host (buff : Nat → Sector) (s c : Nat) :
    Keeps (OnHost h) (diskWrite buff s c) := by
  unfold diskWrite
  exact .get fun _ _ => .bind (.modify fun _ h => h) fun _ => .ite (fun _ => .bind
    (.modify fun _ h => h) fun _ => .pure _) fun _ => .pure _

/-- A change of the window keeps the host. -/
theorem modWin_host (f : Sector → Sector) : Keeps (OnHost h) (modWin f) := .modify fun _ h => h

/-- `sync_window` keeps the host. -/
theorem syncWindow_host : Keeps (OnHost h) syncWindow :=
  fun w hw => (syncWindow_spec w).ensures.mono fun _ _ hp => hp.kept.host.trans hw

/-- `move_window` keeps the host. -/
theorem moveWindow_host (s : Nat) : Keeps (OnHost h) (moveWindow s) := by
  intro w hw
  refine (moveWindow_spec w s).ensures.mono fun _ _ hp => ?_
  cases hp with
  | same => exact hw
  | moved hk => exact hk.host.trans hw
  | stuck hk => exact hk.host.trans hw
  | lost hk => exact hk.host.trans hw

/-! ## The FAT -/

/-- `get_fat` keeps the host. -/
theorem getFat_host (c : Nat) : Keeps (OnHost h) (getFat c) := getFat_keeps moveWindow_host c

/-- `put_fat` keeps the host. -/
theorem putFat_host (c v : Nat) : Keeps (OnHost h) (putFat c v) :=
  putFat_keeps moveWindow_host modWin_host c v

/-- `create_chain` changes the allocation information, which is not part of the host. -/
theorem createChain_host (c : Nat) : Keeps (OnHost h) (createChain c) := by
  refine createChain_keeps getFat_host putFat_host (fun w n hw => ?_) c
  unfold State.allocated
  split
  · exact hw
  · exact hw

/-- `remove_chain` changes the allocation information, which is not part of the host. -/
theorem removeChain_host (c p : Nat) : Keeps (OnHost h) (removeChain c p) := by
  refine removeChain_keeps getFat_host putFat_host (fun w hw => ?_) c p
  unfold State.freed
  split
  · exact hw
  · exact hw

/-- `sync_fs` keeps the host. -/
theorem syncFs_host : Keeps (OnHost h) syncFs := by
  unfold syncFs
  exact .bind syncWindow_host fun _ => .ite (fun _ => .get fun _ _ => .ite (fun _ => .bind
    (.modify fun _ h => h) fun _ => .ite (fun _ => .bind (.modify fun _ h => h) fun _ => .bind
      (diskWrite_host _ _ _) fun _ => .bind (.pure _) fun _ => .pure _) fun _ => .bind (.pure _)
        fun _ => .pure _) fun _ => .bind (.pure _) fun _ => .pure _) fun _ => .pure _

/-- `validate` only reads the state. -/
theorem validate_host (fs : Bool) (id : Nat) : Keeps (OnHost h) (validate fs id) := by
  unfold validate
  exact .get fun _ _ => .pure _

/-! ## Directories -/

/-- `dir_clear` keeps the host. -/
theorem dirClear_host (c : Nat) : Keeps (OnHost h) (dirClear c) := by
  have hround : ∀ sect csize n, Keeps (OnHost h) (clearRound sect csize n) := fun _ _ _ => by
    unfold clearRound
    exact .ite (fun _ => .get fun _ _ => .bind (diskWrite_host _ _ _) fun _ => .ite
      (fun _ => .pure _) fun _ => .pure _) fun _ => .pure _
  unfold dirClear
  exact .bind syncWindow_host fun _ => .ite (fun _ => .pure _) fun _ => .get fun _ _ => .bind
    (.modify fun _ hw => hw.window _ _) fun _ => .bind (.loop (hround _ _) _ _)
      fun _ => .pure _

/-- The directory object of a result has the handle `k`. -/
abbrev HasDir (k : Handle) (r : FRESULT × DIR) : Prop := r.2.handle = k

/-- The end of `dir_sdi` sets the place in the table only. -/
theorem sdiEnd_handle (dp : DIR) (clst sect ofs : Nat) :
    (sdiEnd dp clst sect ofs).2.handle = dp.handle := by
  unfold sdiEnd
  split <;> rfl

/-- `dir_sdi` keeps the host and the handle. -/
theorem dirSdi_host (dp : DIR) (ofs : Nat) :
    Yields (OnHost h) (HasDir dp.handle) (dirSdi dp ofs) := by
  have hround : ∀ csz p, Keeps (OnHost h) (sdiRound csz p) := fun _ _ => by
    unfold sdiRound
    exact .ite (fun _ => .bind (getFat_host _) fun _ => .ite (fun _ => .pure _) fun _ =>
        .get fun _ _ =>
      .ite (fun _ => .pure _) fun _ => .pure _) fun _ => .pure _
  unfold dirSdi
  refine .get fun w _ => .ite (fun _ => .pure rfl) fun _ => .ite (fun _ => .ite (fun _ => .pure rfl)
    fun _ => .pure (sdiEnd_handle _ _ _ _)) fun _ => (Keeps.loop (hround _) _ _).then fun r => ?_
  cases r with
  | error res => exact .pure rfl
  | ok p => exact .pure (sdiEnd_handle _ _ _ _)

/-- The stretching of a table keeps the host and the handle. -/
theorem dirStretch_host (dp : DIR) (ofs : Nat) :
    Yields (OnHost h) (HasDir dp.handle) (dirStretch dp ofs) := by
  unfold dirStretch
  exact (createChain_host _).then fun _ => .ite (fun _ => .pure rfl) fun _ =>
    .ite (fun _ => .pure rfl)
    fun _ => .ite (fun _ => .pure rfl) fun _ => (dirClear_host _).then fun _ => .ite
      (fun _ => .pure rfl) fun _ => .get fun _ _ => .pure rfl

/-- `dir_next` keeps the host and the handle. -/
theorem dirNext_host (dp : DIR) (stretch : Bool) :
    Yields (OnHost h) (HasDir dp.handle) (dirNext dp stretch) := by
  -- the directory object before its sector is advanced
  have hstart : ∀ dp' : DIR, dp' =
      (if MAX_DIR ≤ dp.dptr + SZDIRE then { dp with sect := 0 } else dp) →
      dp'.handle = dp.handle := by
    rintro _ rfl
    split <;> rfl
  have hk := hstart _ rfl
  unfold dirNext
  refine .get fun w _ => ?_
  dsimp only
  generalize (if MAX_DIR ≤ dp.dptr + SZDIRE then { dp with sect := 0 } else dp) = dp' at hk ⊢
  rw [← hk]
  exact .ite (fun _ => .pure rfl) fun _ => .ite (fun _ => .ite (fun _ => .ite (fun _ => .pure rfl)
    fun _ => .pure rfl) fun _ => .ite (fun _ =>
      (getFat_host _).then fun _ => .ite (fun _ => .pure rfl)
      fun _ => .ite (fun _ => .pure rfl) fun _ => .ite (fun _ => .ite
        (fun _ => dirStretch_host { dp' with sect := add32 dp'.sect 1 } _) fun _ => .pure rfl)
          fun _ => .pure rfl) fun _ => .pure rfl) fun _ => .pure rfl

/-- `dir_read` keeps the host and the handle. -/
theorem dirRead_host (dp : DIR) (vol : Bool) :
    Yields (OnHost h) (HasDir dp.handle) (dirRead dp vol) := by
  have hround : ∀ p : FRESULT × DIR, HasDir dp.handle p → Yields (OnHost h)
      (Sum.elim (HasDir dp.handle) (HasDir dp.handle)) (readRound vol p) := by
    intro p hp
    unfold readRound
    refine .ite (fun _ => .pure hp) fun _ => (moveWindow_host _).then fun _ => .ite
      (fun _ => .pure hp) fun _ => .get fun w _ => .ite (fun _ => .pure hp) fun _ => .ite
        (fun _ => .pure hp) fun _ => .bind (dirNext_host _ _) fun r hr => .ite
          (fun _ => .pure (hr.trans hp)) fun _ => .pure (hr.trans hp)
  unfold dirRead
  refine .bind (.loop hround _ (b := (.noFile, dp)) rfl) fun r hr => .pure ?_
  unfold HasDir
  split
  · exact hr
  · exact hr

/-- `dir_alloc` keeps the host and the handle. -/
theorem dirAlloc_host (dp : DIR) (nEnt : Nat) :
    Yields (OnHost h) (HasDir dp.handle) (dirAlloc dp nEnt) := by
  have hround : ∀ p : DIR × Nat, p.1.handle = dp.handle → Yields (OnHost h)
      (Sum.elim (fun p : DIR × Nat => p.1.handle = dp.handle) (HasDir dp.handle))
      (allocRound nEnt p) := by
    intro p hp
    unfold allocRound
    exact (moveWindow_host _).then fun _ => .ite (fun _ => .pure hp) fun _ => .get fun w _ => .ite
      (fun _ => .pure hp) fun _ => .bind (dirNext_host _ _) fun r hr => .ite
        (fun _ => .pure (hr.trans hp)) fun _ => .pure (hr.trans hp)
  unfold dirAlloc
  exact .bind (dirSdi_host _ _) fun r hr => .ite (fun _ => .bind (.loop hround _ (b := (r.2, 0)) hr)
    fun q hq => .pure hq) fun _ => .pure hr

/-- `dir_find` keeps the host and the handle. -/
theorem dirFind_host (dp : DIR) : Yields (OnHost h) (HasDir dp.handle) (dirFind dp) := by
  have hround : ∀ p : DIR, p.handle = dp.handle → Yields (OnHost h)
      (Sum.elim (fun p : DIR => p.handle = dp.handle) (HasDir dp.handle)) (findEntRound p) := by
    intro p hp
    unfold findEntRound
    exact (moveWindow_host _).then fun _ => .ite (fun _ => .pure hp) fun _ => .get fun w _ => .ite
      (fun _ => .pure hp) fun _ => .ite (fun _ => .pure hp) fun _ => .bind (dirNext_host _ _)
        fun r hr => .ite (fun _ => .pure (hr.trans hp)) fun _ => .pure (hr.trans hp)
  unfold dirFind
  exact .bind (dirSdi_host _ _) fun r hr => .ite (fun _ => .pure hr) fun _ => .loop hround _ hr

/-- `dir_register` keeps the host and the handle. -/
theorem dirRegister_host (dp : DIR) : Yields (OnHost h) (HasDir dp.handle) (dirRegister dp) := by
  unfold dirRegister
  exact .bind (dirAlloc_host _ _) fun r hr => .ite (fun _ => (moveWindow_host _).then fun _ => .ite
    (fun _ => (modWin_host _).then fun _ => .pure hr) fun _ => .pure hr) fun _ => .pure hr

/-- `dir_remove` keeps the host. -/
theorem dirRemove_host (dp : DIR) : Keeps (OnHost h) (dirRemove dp) := by
  unfold dirRemove
  exact .bind (moveWindow_host _) fun _ => .ite (fun _ => .bind (modWin_host _) fun _ => .pure _)
    fun _ => .pure _

/-- `create_name` sets the name in the directory object only. -/
theorem createName_handle (cs : Bool) (dp : DIR) (path : List UInt8) :
    (createName cs dp path).2.1.handle = dp.handle := by
  unfold createName
  cases nameLoop path 0 8 (List.replicate 11 0x20) with
  | none => rfl
  | some e =>
    dsimp only
    split <;> rfl

/-- `follow_path` keeps the host and the handle of the object it starts with. -/
theorem followPath_host (dp : DIR) (path : List UInt8) :
    Yields (OnHost h) (HasDir dp.handle) (followPath dp path) := by
  have hfound : ∀ path res (p : DIR), p.handle = dp.handle → Yields (OnHost h)
      (Sum.elim (fun p : DIR × List UInt8 => p.1.handle = dp.handle) (HasDir dp.handle))
      (followFound path res p) := by
    intro path res p hp
    unfold followFound
    exact .ite (fun _ => .ite (fun _ => .pure hp) fun _ => .pure hp) fun _ =>
      .ite (fun _ => .pure hp)
      fun _ => .ite (fun _ => .pure hp) fun _ => .get fun _ _ => .pure hp
  have hround : ∀ p : DIR × List UInt8, p.1.handle = dp.handle → Yields (OnHost h)
      (Sum.elim (fun p : DIR × List UInt8 => p.1.handle = dp.handle) (HasDir dp.handle))
      (followRound p) := by
    intro p hp
    unfold followRound
    refine .get fun w _ => ?_
    have hn := createName_handle w.charSigned p.1 p.2
    generalize createName w.charSigned p.1 p.2 = n at hn ⊢
    obtain ⟨res, dp', path'⟩ := n
    cases res with
    | ok => exact .bind (dirFind_host _) fun r hr => hfound _ _ _ (hr.trans (hn.trans hp))
    | _ => exact .pure (hn.trans hp)
  unfold followPath
  exact .get fun w _ => .ite (fun _ => dirSdi_host { dp with sclust := 0, nsflag := NS_NONAME } 0)
    fun _ => .loop hround _ (b := ({ dp with sclust := 0 }, path.dropWhile isSeparator)) rfl

/-! ## Files -/

/-- The file object of a result has the handle `k`. -/
abbrev HasFil {α : Type} (k : Handle) (r : FRESULT × FIL × α) : Prop := r.2.1.handle = k

/-- The file object of a round has the handle `k`. -/
abbrev RoundFil {α β : Type} (k : Handle) : (FIL × α) ⊕ (FRESULT × FIL × β) → Prop :=
  Sum.elim (fun p => p.1.handle = k) (HasFil k)

/-- The step of `f_read` to the next cluster keeps the host and the handle. -/
theorem readClust_host (fp : FIL) (csect : Nat) :
    Yields (OnHost h) (fun r => ∀ fp', r = .ok fp' → fp'.handle = fp.handle)
    (readClust fp csect) := by
  unfold readClust
  refine .ite (fun _ => ?_) fun _ => .pure (by rintro _ ⟨⟩; rfl)
  refine (Keeps.ite (fun _ => .pure _) fun _ => getFat_host _).then fun _ => .ite
    (fun _ => .pure (by rintro _ ⟨⟩)) fun _ => .ite (fun _ => .pure (by rintro _ ⟨⟩)) fun _ =>
      .pure (by rintro _ ⟨⟩; rfl)

/-- The read of a part of a sector keeps the host and the handle. -/
theorem readWindow_host {k : Handle} (fp : FIL) (btr : Nat) (acc : List UInt8)
    (hk : fp.handle = k) :
    Yields (OnHost h) (RoundFil k) (readWindow fp btr acc) := by
  unfold readWindow
  exact (moveWindow_host _).then fun _ => .ite (fun _ => .pure hk) fun _ => .get fun _ _ => .pure hk

/-- One round of `f_read` keeps the host and the handle. -/
theorem fReadRound_host (p : FIL × Nat × List UInt8) :
    Yields (OnHost h) (RoundFil p.1.handle) (fReadRound p) := by
  obtain ⟨fp, btr, acc⟩ := p
  unfold fReadRound
  refine .ite (fun _ => .pure rfl) fun _ => .ite (fun _ => .get fun w _ => ?_)
    fun _ => readWindow_host _ _ _ rfl
  refine .bind (readClust_host fp _) fun r hr => ?_
  cases r with
  | error res => exact .pure rfl
  | ok fp' =>
    have hk : fp'.handle = fp.handle := hr fp' rfl
    refine .ite (fun _ => .pure hk) fun _ => .ite (fun _ => (diskRead_host _ _).then fun b => ?_)
      fun _ => readWindow_host _ _ _ hk
    cases b with
    | none => exact .pure hk
    | some buff => exact .get fun _ _ => .pure hk

/-- `f_read` keeps the host and the handle. -/
theorem fRead_host (fp : FIL) (btr : Nat) :
    Yields (OnHost h) (HasFil fp.handle) (fRead fp btr) := by
  unfold fRead
  refine (validate_host _ _).then fun _ => .ite (fun _ => .pure rfl) fun _ => .ite
    (fun _ => .pure rfl) fun _ => .ite (fun _ => .pure rfl) fun _ => ?_
  refine .loop (B := fun p => p.1.handle = fp.handle) (fun p hp => ?_) _ rfl
  have := fReadRound_host (h := h) p
  rw [hp] at this
  exact this

/-- The step of `f_write` to the next cluster keeps the host and the handle. -/
theorem writeClust_host (fp : FIL) (csect : Nat) :
    Yields (OnHost h) (fun r => ∀ fp', r = .ok (some fp') → fp'.handle = fp.handle)
      (writeClust fp csect) := by
  unfold writeClust
  refine .ite (fun _ => ?_) fun _ => .pure (by rintro _ ⟨⟩; rfl)
  refine (Keeps.ite (fun _ => .ite (fun _ => createChain_host _) fun _ => .pure _)
    fun _ => createChain_host _).then fun _ => .ite (fun _ => .pure (by rintro _ ⟨⟩)) fun _ => .ite
      (fun _ => .pure (by rintro _ ⟨⟩)) fun _ => .ite (fun _ => .pure (by rintro _ ⟨⟩)) fun _ =>
        .pure (by rintro _ ⟨⟩; rfl)

/-- The write of a part of a sector keeps the host and the handle. -/
theorem writeWindow_host {k : Handle} (fp : FIL) (buff : List UInt8) (bw : Nat)
    (hk : fp.handle = k) :
    Yields (OnHost h) (RoundFil k) (writeWindow fp buff bw) := by
  unfold writeWindow
  exact (moveWindow_host _).then fun _ => .ite (fun _ => .pure hk) fun _ => (modWin_host _).then
    fun _ => .pure hk

/-- The direct write of `f_write` keeps the host. -/
theorem writeDirect_host (buff : List UInt8) (sect cc : Nat) :
    Keeps (OnHost h) (writeDirect buff sect cc) := by
  unfold writeDirect
  refine .bind (diskWrite_host _ _ _) fun _ => .ite (fun _ => .bind (.modify fun w hw => ?_)
    fun _ => .pure _) fun _ => .pure _
  split
  · exact hw.of_eq rfl
  · exact hw

/-- The first access behind the end of the file only moves the window. -/
theorem growEdge_host (fp : FIL) (sect : Nat) : Keeps (OnHost h) (growEdge fp sect) := by
  unfold growEdge
  exact .ite (fun _ => .bind syncWindow_host fun _ => .ite (fun _ => .pure _) fun _ => .bind
    (.modify fun w hw => hw.window sect w.win) fun _ => .pure _) fun _ => .pure _

/-- One round of `f_write` keeps the host and the handle. -/
theorem fWriteRound_host (p : FIL × List UInt8 × Nat) :
    Yields (OnHost h) (RoundFil p.1.handle) (fWriteRound p) := by
  obtain ⟨fp, buff, bw⟩ := p
  unfold fWriteRound
  refine .ite (fun _ => .pure rfl) fun _ => .ite (fun _ => .get fun w _ => ?_)
    fun _ => writeWindow_host _ _ _ rfl
  refine .bind (writeClust_host fp _) fun r hr => ?_
  match r with
  | .error res => exact .pure rfl
  | .ok none => exact .pure rfl
  | .ok (some fp') =>
    have hk : fp'.handle = fp.handle := hr fp' rfl
    exact .get fun _ _ => (Keeps.ite (fun _ => syncWindow_host) fun _ => .pure _).then fun _ => .ite
      (fun _ => .pure hk) fun _ => .ite (fun _ => .pure hk) fun _ => .ite
        (fun _ => (writeDirect_host _ _ _).then fun _ => .ite (fun _ => .pure hk) fun _ => .pure hk)
          fun _ => (growEdge_host _ _).then fun _ => .ite (fun _ => .pure hk) fun _ =>
            writeWindow_host _ _ _ hk

/-- `f_write` keeps the host and the handle. -/
theorem fWrite_host (fp : FIL) (buff : List UInt8) :
    Yields (OnHost h) (HasFil fp.handle) (fWrite fp buff) := by
  unfold fWrite
  refine (validate_host _ _).then fun _ => .ite (fun _ => .pure rfl) fun _ => .ite
    (fun _ => .pure rfl) fun _ => .ite (fun _ => .pure rfl) fun _ => ?_
  refine .bind (R := HasFil fp.handle) (.loop (B := fun p => p.1.handle = fp.handle)
    (fun p hp => ?_) _ rfl)
    fun r hr => .pure ?_
  · have := fWriteRound_host (h := h) p
    rw [hp] at this
    exact this
  · unfold HasFil
    split
    · exact hr
    · exact hr

/-- The file object of a result without data has the handle `k`. -/
abbrev HasFil' (k : Handle) (r : FRESULT × FIL) : Prop := r.2.handle = k

/-- `f_sync` keeps the host and the handle. -/
theorem fSync_host (fp : FIL) : Yields (OnHost h) (HasFil' fp.handle) (fSync fp) := by
  unfold fSync
  exact (validate_host _ _).then fun _ => .ite (fun _ => (moveWindow_host _).then fun _ => .ite
    (fun _ => .get fun _ _ => (modWin_host _).then fun _ => syncFs_host.then fun _ => .pure rfl)
      fun _ => .pure rfl) fun _ => .pure rfl

/-- Closing clears the `fs` member of the object and keeps its mount ID. -/
theorem fClose_host (fp : FIL) : Yields (OnHost h) (fun r => r.2.id = fp.id) (fClose fp) := by
  unfold fClose
  refine .bind (fSync_host fp) fun r hr => ?_
  have hid : r.2.id = fp.id := congrArg Handle.id hr
  refine .ite (fun _ => (validate_host _ _).then fun _ => .pure ?_) fun _ => .pure hid
  split
  · exact hid
  · exact hid

/-- The end of `f_lseek` sets the size and the sector only. -/
theorem seekEnd_handle (fp : FIL) (nsect : Nat) : (seekEnd fp nsect).handle = fp.handle := by
  unfold seekEnd
  dsimp only
  split <;> split <;> rfl

/-- The file object that the walk of a seek leaves, broken off or not, carries the handle `k`. -/
def SoughtFil (k : Handle) : Except (FRESULT × FIL) (FIL × Nat × Nat) → Prop
  | .error e => HasFil' k e
  | .ok q => q.1.handle = k

/-- The walk of `f_lseek` keeps the host and the handle. -/
theorem seekFollow_host (fp : FIL) (clst ofs : Nat) :
    Yields (OnHost h) (HasFil' fp.handle) (seekFollow fp clst ofs) := by
  have hround : ∀ bcs (p : FIL × Nat × Nat), p.1.handle = fp.handle → Yields (OnHost h)
      (Sum.elim (fun p : FIL × Nat × Nat => p.1.handle = fp.handle) (SoughtFil fp.handle))
      (seekRound bcs p) := by
    intro bcs p hp
    obtain ⟨fp', c, o⟩ := p
    unfold seekRound
    refine .ite (fun _ => .get fun _ _ => .ite (fun _ => (createChain_host _).then fun _ => ?_)
      fun _ => (getFat_host _).then fun _ => ?_) fun _ => .pure hp
    · exact .ite (fun _ => .pure hp) fun _ => .ite (fun _ => .pure hp) fun _ => .ite
        (fun _ => .pure hp) fun _ => .pure hp
    · exact .ite (fun _ => .pure hp) fun _ => .ite (fun _ => .pure hp) fun _ => .pure hp
  unfold seekFollow
  refine .ite (fun _ => .get fun w _ => ?_) fun _ => .pure (seekEnd_handle _ _)
  refine .bind (.loop (hround _) _ rfl) fun r hr => ?_
  cases r with
  | error e => exact .pure hr
  | ok q =>
    obtain ⟨fp', c, o⟩ := q
    exact .ite (fun _ => .ite (fun _ => .pure hr) fun _ => .pure ((seekEnd_handle _ _).trans hr))
      fun _ => .pure ((seekEnd_handle _ _).trans hr)

/-- `f_lseek` keeps the host and the handle. -/
theorem fLseek_host (fp : FIL) (ofs : Nat) :
    Yields (OnHost h) (HasFil' fp.handle) (fLseek fp ofs) := by
  unfold fLseek
  refine (validate_host _ _).then fun _ => .ite (fun _ => .pure rfl) fun _ => .ite
    (fun _ => .pure rfl) fun _ => .get fun w _ => ?_
  refine .ite (fun _ => .ite (fun _ => seekFollow_host { fp with fptr := _ } _ _) fun _ => .ite
    (fun _ => (createChain_host _).then fun c => .ite (fun _ => .pure rfl) fun _ => .ite
      (fun _ => .pure rfl) fun _ =>
        seekFollow_host { fp with fptr := 0, sclust := c, clust := c } _ _)
        fun _ => seekFollow_host { fp with fptr := 0, clust := fp.sclust } _ _) fun _ =>
          .pure (seekEnd_handle _ _)

/-- `f_truncate` keeps the host and the handle. -/
theorem fTruncate_host (fp : FIL) : Yields (OnHost h) (HasFil' fp.handle) (fTruncate fp) := by
  have hchain : Yields (OnHost h) (HasFil' fp.handle) (truncChain fp) := by
    unfold truncChain
    exact .ite (fun _ => (removeChain_host _ _).then fun _ => .pure rfl) fun _ =>
      (getFat_host _).then fun _ => .ite (fun _ => .pure rfl) fun _ => .ite (fun _ => .pure rfl)
        fun _ => .get fun _ _ => .ite (fun _ => (removeChain_host _ _).then fun _ => .pure rfl)
          fun _ => .pure rfl
  unfold fTruncate
  refine (validate_host _ _).then fun _ => .ite (fun _ => .pure rfl) fun _ => .ite
    (fun _ => .pure rfl) fun _ => .ite (fun _ => .pure rfl) fun _ => .ite (fun _ => ?_)
      fun _ => .pure rfl
  refine .bind hchain fun r hr => .pure ?_
  unfold HasFil'
  split
  · exact hr
  · exact hr

end

end FatFs
