import FatFs.Model.Api
import FatFs.Mount.Layout

/-!
# Read-side calls

A call that only reads keeps a clean window and the content of the device (`Quiet`), whatever is on
the device: `exec_quiet` for one call and `reaches_logical` for runs. The exception is `f_lseek` on
a file whose directory entry has a size but no start cluster: `f_lseek` then creates a cluster
chain, without a look at the access mode of the file (`ff.c:4545-4549`). The calls in a run of
`reaches_logical` do not do that (`Call.SeeksNoChain`).
-/

namespace FatFs

open Run

/-- The window is clean and the device holds `d`. The cluster size of a mounted volume is a power of
two. -/
def Quiet (d : Nat → Sector) (w : State) : Prop :=
  w.wflag = false ∧ w.disk.data = d ∧ (w.geo.fsType ≠ .none → ∃ k, w.geo.csize = 2 ^ k)

/-! ## The functions that only move the window

They keep what moving the window keeps.
-/

section
variable {I : State → Prop} (hmove : ∀ s, Keeps I (moveWindow s))

include hmove

/-- `dir_sdi` reads the FAT. -/
theorem dirSdi_of_move (dp : DIR) (ofs : Nat) : Keeps I (dirSdi dp ofs) := by
  unfold dirSdi
  refine .get fun w _ => .ite (fun _ => .pure _) fun _ => .ite
    (fun _ => .ite (fun _ => .pure _) fun _ => .pure _)
    fun _ => .bind (.loop (fun p => ?_) _ _) fun r => ?_
  · exact .ite (fun _ => .bind (getFat_keeps hmove _) fun c => .ite (fun _ => .pure _)
      fun _ => .get fun w _ => .ite (fun _ => .pure _) fun _ => .pure _) fun _ => .pure _
  · cases r <;> exact .pure _

/-- `dir_next` without stretching reads the FAT. -/
theorem dirNext_of_move (dp : DIR) : Keeps I (dirNext dp false) := by
  unfold dirNext
  simp only [Bool.false_eq_true, if_false]
  exact .get fun w _ => .ite (fun _ => .pure _) fun _ => .ite (fun _ => .ite
    (fun _ => .ite (fun _ => .pure _) fun _ => .pure _) fun _ => .ite
      (fun _ => .bind (getFat_keeps hmove _) fun c => .ite (fun _ => .pure _) fun _ => .ite
        (fun _ => .pure _) fun _ => .ite (fun _ => .pure _) fun _ => .pure _) fun _ => .pure _)
    fun _ => .pure _

/-- `dir_read` reads the table and the FAT. -/
theorem dirRead_of_move (dp : DIR) (vol : Bool) : Keeps I (dirRead dp vol) := by
  unfold dirRead
  refine .bind (.loop (fun p => ?_) _ _) fun r => .pure _
  unfold readRound
  exact .ite (fun _ => .pure _) fun _ => .bind (hmove _) fun r => .ite
    (fun _ => .pure _) fun _ => .get fun w _ => .ite (fun _ => .pure _) fun _ => .ite
      (fun _ => .pure _) fun _ => .bind (dirNext_of_move hmove _) fun r => .ite (fun _ => .pure _)
        fun _ => .pure _

/-- `dir_find` reads the table and the FAT. -/
theorem dirFind_of_move (dp : DIR) : Keeps I (dirFind dp) := by
  unfold dirFind
  refine .bind (dirSdi_of_move hmove _ _) fun r => .ite (fun _ => .pure _) fun _ =>
    .loop (fun d => ?_) _ _
  unfold findEntRound
  exact .bind (hmove _) fun r => .ite (fun _ => .pure _) fun _ => .get fun w _ => .ite
    (fun _ => .pure _) fun _ => .ite (fun _ => .pure _) fun _ =>
    .bind (dirNext_of_move hmove _) fun r =>
      .ite (fun _ => .pure _) fun _ => .pure _

/-- `follow_path` reads the tables and the FAT. -/
theorem followPath_of_move (dp : DIR) (path : List UInt8) : Keeps I (followPath dp path) := by
  unfold followPath
  refine .get fun w _ => .ite (fun _ => dirSdi_of_move hmove _ _) fun _ => .loop (fun p => ?_) _ _
  unfold followRound
  refine .get fun w _ => ?_
  rcases createName w.charSigned p.1 p.2 with ⟨r, dp, path⟩
  cases r with
  | ok =>
    refine .bind (dirFind_of_move hmove _) fun r => ?_
    unfold followFound
    exact .ite (fun _ => .ite (fun _ => .pure _) fun _ => .pure _) fun _ => .ite (fun _ => .pure _)
      fun _ => .ite (fun _ => .pure _) fun _ => .get fun w _ => .pure _
  | _ => exact .pure _

end

/-! ## The functions that only read -/

section
variable {d : Nat → Sector}

/-- A clean window is moved without a flush. -/
theorem moveWindow_quiet (s : Nat) : Keeps (Quiet d) (moveWindow s) := fun w hw =>
  (moveWindow_spec w s).ensures.mono fun r w' h => by
    cases h with
    | same => exact hw
    | moved hk _ hc _ _ _ hf =>
      exact ⟨hc, (hf.of_clean hw.1).trans hw.2.1, by rw [hk.geo]; exact hw.2.2⟩
    | stuck _ _ hd => exact absurd hd (by simp [hw.1])
    | lost hk _ hc _ _ hf _ =>
      exact ⟨hc, (hf.of_clean hw.1).trans hw.2.1, by rw [hk.geo]; exact hw.2.2⟩

/-- A read of the device does not change it. -/
theorem diskRead_quiet (s c : Nat) : Keeps (Quiet d) (diskRead s c) := by
  unfold diskRead
  exact .get fun w _ => .bind (.modify fun w hw => hw) fun _ =>
    .ite (fun _ => .pure _) fun _ => .pure _

/-- `get_fat` reads the window only. -/
theorem getFat_quiet (clst : Nat) : Keeps (Quiet d) (getFat clst) :=
  getFat_keeps moveWindow_quiet clst

/-- `follow_path` keeps a clean window and the device. -/
theorem followPath_quiet (dp : DIR) (path : List UInt8) : Keeps (Quiet d) (followPath dp path) :=
  followPath_of_move moveWindow_quiet dp path

/-- `check_fs` moves the window to the boot sector. -/
theorem checkFs_quiet (s : Nat) : Keeps (Quiet d) (checkFs s) := by
  unfold checkFs
  exact .bind (.modify fun w hw => ⟨rfl, hw.2⟩) fun _ => .bind (moveWindow_quiet _) fun r => .ite
    (fun _ => .pure _) fun _ => .get fun w _ => .pure _

/-- The search through the partitions only reads boot sectors. -/
theorem tryParts_quiet : ∀ pts : List Nat, Keeps (Quiet d) (tryParts pts)
  | [] => .pure _
  | _ :: pts => .bind (.ite (fun _ => checkFs_quiet _) fun _ => .pure _) fun _ =>
      .ite (fun _ => tryParts_quiet pts) fun _ => .pure _

/-- A mount reads the boot sector and the FSInfo sector, and writes nothing. -/
theorem mountVolume_quiet (path : List UInt8) (mode : UInt8) :
    Keeps (Quiet d) (mountVolume path mode) := by
  unfold mountVolume
  refine .get fun w _ => ?_
  rcases getLdnumber w.charSigned path with ⟨known, path⟩
  cases known with
  | false => exact .pure _
  | true =>
    refine .ite (fun _ => .pure _) fun _ => .ite (fun _ => .ite (fun _ => .pure _) fun _ => .pure _)
      fun _ => .bind (.modify fun w hw => ⟨hw.1, hw.2.1, fun h => absurd rfl h⟩) fun _ => .ite
        (fun _ => .pure _) fun _ => .ite (fun _ => .pure _) fun _ => .bind ?_ fun res => .pure _
    unfold mountDrive findVolume
    refine .bind (.bind (checkFs_quiet _) fun r => .ite (fun _ => .pure _) fun _ => .get fun w _ =>
      tryParts_quiet _) fun fmt => .ite (fun _ => .pure _) fun _ => .ite (fun _ => .pure _)
        fun _ => .get fun w _ => ?_
    cases hg : readBPB w.win w.winsect with
    | none => exact .pure _
    | some g =>
      obtain ⟨k, _, hk⟩ := (readBPB_some hg).csize_pow
      unfold loadFsInfo
      refine .bind (.bind (.modify fun w hw => hw) fun _ => .ite (fun _ => .bind
        (moveWindow_quiet _) fun r => .ite (fun _ => .modify fun w hw => ?_) fun _ => .pure _)
          fun _ => .pure _) fun _ => .bind (.modify fun w hw => ⟨hw.1, hw.2.1, fun _ => ⟨k, hk⟩⟩)
            fun _ => .pure _
      split <;> exact hw

/-! ## File objects -/

/-- A file object that is in use was not opened for writing, and has nothing to write back. -/
def FIL.ReadOnly (fp : FIL) : Prop :=
  fp.fs = true → hasBits fp.flag FA_WRITE = false ∧ hasBits fp.flag FA_MODIFIED = false

/-- The window is clean, the device holds `d`, and the file object is read-only. -/
abbrev QuietFile (d : Nat → Sector) (fp : FIL) (w : State) : Prop := Quiet d w ∧ fp.ReadOnly

/-- The access mode is in the flags of the file object. -/
theorem FIL.ReadOnly.congr {fp fp' : FIL} (h : fp.ReadOnly) (hfs : fp'.fs = fp.fs)
    (hflag : fp'.flag = fp.flag) : fp'.ReadOnly := by
  intro hf
  rw [hflag]
  exact h (hfs.symm.trans hf)

/-- A closed file object allows no access at all. -/
theorem readOnly_of_closed {fp : FIL} (h : fp.fs = false) : fp.ReadOnly := fun hf => by
  rw [h] at hf
  cases hf

/-- An object passes the check of `validate` if it is in use and belongs to the mounted volume. -/
theorem validate_ensures (fs : Bool) (id : Nat) (w : State) :
    Ensures (validate fs id) w fun r w' => w' = w ∧
      (r = .ok → fs = true ∧ w.geo.fsType ≠ .none ∧ id = w.geo.id) := by
  simp only [validate, ensures_bind, ensures_get, ensures_pure]
  refine ⟨trivial, fun h => ?_⟩
  split at h
  · rename_i hv
    exact ⟨hv.1, hv.2.1, hv.2.2.1⟩
  · cases h

/-- `f_open` with `FA_READ` alone creates nothing and empties nothing. -/
theorem fOpen_quiet {fp : FIL} {path : List UInt8} {w : State} (hw : Quiet d w) :
    Ensures (fOpen fp path FA_READ) w fun r w' => QuietFile d r.2 w' := by
  have hmode : FA_READ &&& (FA_READ ||| FA_WRITE ||| FA_CREATE_ALWAYS ||| FA_CREATE_NEW |||
      FA_OPEN_ALWAYS ||| FA_OPEN_APPEND) = FA_READ := by decide
  have hcreate : hasBits FA_READ (FA_CREATE_ALWAYS ||| FA_OPEN_ALWAYS ||| FA_CREATE_NEW) =
      false := by
    decide
  have hseek : hasBits FA_READ FA_SEEKEND = false := by decide
  have halways : hasBits FA_READ FA_CREATE_ALWAYS = false := by decide
  have hwrite : hasBits FA_READ FA_WRITE = false := by decide
  have hmodified : hasBits FA_READ FA_MODIFIED = false := by decide
  simp only [fOpen, hmode, ensures_bind, ensures_ite, ensures_pure, hcreate, Bool.false_eq_true,
    if_false]
  refine (mountVolume_quiet _ _ w hw).mono fun r w₁ h₁ => ⟨fun _ => ?_,
    fun _ => ⟨h₁, readOnly_of_closed rfl⟩⟩
  refine (followPath_quiet _ _ w₁ h₁).mono fun r w₂ h₂ => ⟨fun _ => ?_,
    fun _ => ⟨h₂, readOnly_of_closed rfl⟩⟩
  simp only [openFil, halways, hseek, ensures_bind, ensures_get, Bool.false_eq_true, false_and,
    if_false, ensures_pure, ne_eq, not_true_eq_false]
  exact ⟨h₂, fun _ => ⟨hwrite, hmodified⟩⟩

/-- One round of `f_read` flushes the window only if it is dirty, and it is not. -/
theorem fReadRound_quiet (p : FIL × Nat × List UInt8) (w : State) (hw : QuietFile d p.1 w) :
    Ensures (fReadRound p) w fun r w' =>
      Sum.elim (fun q => QuietFile d q.1 w') (fun q => QuietFile d q.2.1 w') r := by
  obtain ⟨fp, btr, acc⟩ := p
  have hro : fp.ReadOnly := hw.2
  have hwin : ∀ (fp' : FIL) w, QuietFile d fp' w → Ensures (readWindow fp' btr acc) w fun r w' =>
      Sum.elim (fun q => QuietFile d q.1 w') (fun q => QuietFile d q.2.1 w') r := by
    intro fp' w hw'
    simp only [readWindow, ensures_bind, ensures_ite, ensures_pure, ensures_get]
    exact (moveWindow_quiet _ w hw'.1).mono fun r w₁ h₁ =>
      ⟨fun _ => ⟨h₁, hw'.2.congr rfl rfl⟩, fun _ => ⟨h₁, hw'.2.congr rfl rfl⟩⟩
  simp only [fReadRound, ensures_ite, ensures_pure, ensures_bind, ensures_get]
  refine ⟨fun _ => hw, fun _ => ⟨fun _ => ?_, fun _ => hwin fp w hw⟩⟩
  have hclust : Ensures (readClust fp (fp.fptr / SS &&& (w.geo.csize - 1))) w fun r w' =>
      Quiet d w' ∧ ∀ fp', r = .ok fp' → fp'.ReadOnly := by
    have hcl : ∀ (c : Nat) (w' : State), Quiet d w' →
        Ensures (if c < 2 then pure (.error .intErr) else if c = DISKERR then
          pure (.error .diskErr) else pure (.ok { fp with clust := c }) : M (Except FRESULT FIL)) w'
          fun r w' => Quiet d w' ∧ ∀ fp', r = .ok fp' → fp'.ReadOnly := by
      intro c w' hw'
      simp only [ensures_ite, ensures_pure]
      exact ⟨fun _ => ⟨hw', fun _ he => by cases he⟩, fun _ => ⟨fun _ => ⟨hw',
        fun _ he => by cases he⟩, fun _ => ⟨hw', fun _ he => by cases he; exact hro.congr rfl rfl⟩⟩⟩
    simp only [readClust]
    rw [ensures_ite, ensures_bind, ensures_ite, ensures_pure, ensures_pure]
    exact ⟨fun _ => ⟨fun _ => hcl _ w hw.1, fun _ => (getFat_quiet _ w hw.1).mono hcl⟩,
      fun _ => ⟨hw.1, fun fp' he => by cases he; exact hro⟩⟩
  refine hclust.mono fun r w₁ hpost => ?_
  obtain ⟨h₁, hr⟩ := hpost
  cases r with
  | error res => exact ensures_pure.2 ⟨h₁, hro.congr rfl rfl⟩
  | ok fp' =>
    have hfp := hr fp' rfl
    simp only [ensures_ite, ensures_pure, ensures_bind]
    refine ⟨fun _ => ⟨h₁, hfp.congr rfl rfl⟩, fun _ => ⟨fun _ => ?_,
      fun _ => hwin _ w₁ ⟨h₁, hfp.congr rfl rfl⟩⟩⟩
    refine (diskRead_quiet _ _ w₁ h₁).mono fun b w₂ h₂ => ?_
    cases b with
    | none => exact ensures_pure.2 ⟨h₂, hfp.congr rfl rfl⟩
    | some buff =>
      simp only [ensures_bind, ensures_get, ensures_pure]
      exact ⟨h₂, hfp.congr rfl rfl⟩

/-- `f_read` keeps a clean window and the device. -/
theorem fRead_quiet {fp : FIL} {btr : Nat} {w : State} (hw : QuietFile d fp w) :
    Ensures (fRead fp btr) w fun r w' => QuietFile d r.2.1 w' := by
  simp only [fRead, ensures_bind, ensures_ite, ensures_pure]
  refine (validate_ensures _ _ w).mono fun r w₁ hpost => ?_
  obtain ⟨he, _⟩ := hpost
  subst he
  exact ⟨fun _ => hw, fun _ => ⟨fun _ => hw, fun _ => ⟨fun _ => hw, fun _ => Ensures.loop
    (I := fun q w => QuietFile d q.1 w) (fun q w hq => fReadRound_quiet q w hq) _ hw⟩⟩⟩

/-- A read-only file has nothing to write back. -/
theorem fSync_quiet {fp : FIL} {w : State} (hw : QuietFile d fp w) :
    Ensures (fSync fp) w fun r w' => QuietFile d r.2 w' := by
  simp only [fSync, ensures_bind, ensures_ite, ensures_pure]
  refine (validate_ensures _ _ w).mono fun r w₁ hpost => ?_
  obtain ⟨he, hfs⟩ := hpost
  subst he
  refine ⟨fun hsync => ?_, fun _ => hw⟩
  obtain ⟨hok, hmod⟩ := hsync
  rw [(hw.2 (hfs hok).1).2] at hmod
  cases hmod

/-- `f_close` of an unmodified file has nothing to store. -/
theorem fClose_quiet {fp : FIL} {w : State} (hw : QuietFile d fp w) :
    Ensures (fClose fp) w fun r w' => QuietFile d r.2 w' := by
  simp only [fClose, ensures_bind, ensures_ite, ensures_pure]
  refine (fSync_quiet hw).mono fun r w₁ h₁ => ⟨fun _ => ?_, fun _ => h₁⟩
  refine (validate_ensures _ _ w₁).mono fun res w₂ hpost => ?_
  obtain ⟨he, _⟩ := hpost
  subst he
  refine ⟨h₁.1, ?_⟩
  split
  · exact readOnly_of_closed rfl
  · exact h₁.2

/-! ## Seeking -/

/-- A seek of a read-only file that does not pass its end. -/
structure Seeking (d : Nat → Sector) (fp₀ fp : FIL) (ofs : Nat) (w : State) : Prop where
  quiet : Quiet d w
  fs : fp.fs = fp₀.fs
  flag : fp.flag = fp₀.flag
  inside : fp.fptr + ofs ≤ fp.objsize

/-- One round of the walk of `f_lseek` only reads the FAT when the file is not open for writing. -/
theorem seekRound_quiet {fp₀ : FIL} (hno : hasBits fp₀.flag FA_WRITE = false) (bcs : Nat)
    (p : FIL × Nat × Nat) (w : State) (hp : Seeking d fp₀ p.1 p.2.2 w) :
    Ensures (seekRound bcs p) w fun r w' => Sum.elim (fun q => Seeking d fp₀ q.1 q.2.2 w')
      (fun q => match q with
        | .error e => Seeking d fp₀ e.2 0 w'
        | .ok q => Seeking d fp₀ q.1 q.2.2 w') r := by
  obtain ⟨fp, clst, ofs⟩ := p
  have hin := hp.inside
  simp only at hin hp
  have hw : hasBits fp.flag FA_WRITE = false := by rw [hp.flag, hno]
  simp only [seekRound, ensures_ite, ensures_pure, ensures_bind, ensures_get, hw,
    Bool.false_eq_true, if_false]
  refine ⟨fun hlt => (getFat_quiet _ w hp.quiet).mono fun c w₁ h₁ => ?_, fun _ => hp⟩
  have hle : add32 fp.fptr bcs ≤ fp.fptr + bcs := Nat.mod_le _ _
  exact ⟨fun _ => ⟨h₁, hp.fs, hp.flag, by simp only [FIL.abort]; omega⟩,
    fun _ => ⟨fun _ => ⟨h₁, hp.fs, hp.flag, by simp only [FIL.abort]; omega⟩,
      fun _ => ⟨h₁, hp.fs, hp.flag, by simp only; omega⟩⟩⟩

/-- The end of a seek inside the file changes no flag. -/
theorem seekEnd_flags (fp : FIL) (h : fp.fptr ≤ fp.objsize) (nsect : Nat) :
    (seekEnd fp nsect).fs = fp.fs ∧ (seekEnd fp nsect).flag = fp.flag := by
  have hn : ¬fp.objsize < fp.fptr := by omega
  simp only [seekEnd, hn, if_false]
  split <;> exact ⟨rfl, rfl⟩

/-- The walk of `f_lseek` keeps a clean window and the device. -/
theorem seekFollow_quiet {fp₀ : FIL} (hro : hasBits fp₀.flag FA_WRITE = false) (fp : FIL)
    (clst ofs : Nat) {w : State} (hp : Seeking d fp₀ fp ofs w) :
    Ensures (seekFollow fp clst ofs) w fun r w' =>
      Quiet d w' ∧ r.2.fs = fp₀.fs ∧ r.2.flag = fp₀.flag := by
  have hend : ∀ (fp' : FIL) (n : Nat) (w' : State), Seeking d fp₀ fp' 0 w' →
      Quiet d w' ∧ (seekEnd fp' n).fs = fp₀.fs ∧ (seekEnd fp' n).flag = fp₀.flag := by
    intro fp' n w' h
    obtain ⟨h₁, h₂⟩ := seekEnd_flags fp' h.inside n
    exact ⟨h.quiet, h₁.trans h.fs, h₂.trans h.flag⟩
  have hin := hp.inside
  simp only [seekFollow, ensures_ite, ensures_pure, ensures_bind, ensures_get]
  refine ⟨fun _ => ?_, fun _ => hend fp 0 w ⟨hp.quiet, hp.fs, hp.flag, by omega⟩⟩
  refine (Ensures.loop (I := fun q w => Seeking d fp₀ q.1 q.2.2 w)
    (Q := fun q w' => match q with
      | .error e => Seeking d fp₀ e.2 0 w'
      | .ok q => Seeking d fp₀ q.1 q.2.2 w')
    (fun q w hq => seekRound_quiet hro _ q w hq) _ hp).mono fun r w' hr => ?_
  cases r with
  | error e => exact ensures_pure.2 ⟨hr.quiet, hr.fs, hr.flag⟩
  | ok q =>
    obtain ⟨fp', clst', ofs'⟩ := q
    have hin' := hr.inside
    simp only at hin' hr
    have hle : add32 fp'.fptr ofs' ≤ fp'.fptr + ofs' := Nat.mod_le _ _
    have hr' : Seeking d fp₀ { fp' with fptr := add32 fp'.fptr ofs' } 0 w' :=
      ⟨hr.quiet, hr.fs, hr.flag, by simp only; omega⟩
    simp only [ensures_ite, ensures_pure]
    exact ⟨fun _ => ⟨fun _ => ⟨hr.quiet, hr.fs, hr.flag⟩, fun _ => hend _ _ w' hr'⟩,
      fun _ => hend _ _ w' hr'⟩

/-- `f_lseek` goes on with the file object: it is in use, belongs to the mounted volume and was not
aborted. -/
def FIL.Usable (w : State) (fp : FIL) : Prop :=
  fp.fs = true ∧ w.geo.fsType ≠ .none ∧ fp.id = w.geo.id ∧ fp.err = .ok

/-- The file has a size but no cluster chain, and the seek goes into it. -/
def FIL.SeeksNoChain (w : State) (fp : FIL) (ofs : Nat) : Prop :=
  fp.Usable w ∧ fp.sclust = 0 ∧ 0 < fp.objsize ∧ 0 < ofs

/-- The start of the cluster of the offset `a`, for a seek to the same or a later cluster. -/
theorem clusterStart_le {k a b : Nat} (hb : 0 < b) (h : a / 2 ^ k ≤ (b - 1) / 2 ^ k) :
    a - (a &&& (2 ^ k - 1)) ≤ b := by
  rw [Nat.and_two_pow_sub_one_eq_mod]
  have h₁ := Nat.div_add_mod a (2 ^ k)
  have h₂ := Nat.div_add_mod (b - 1) (2 ^ k)
  have h₃ := Nat.mul_le_mul_left (2 ^ k) h
  omega

/-- `f_lseek` on a file that is not open for writing stores nothing, unless it has to create a
chain. -/
theorem fLseek_quiet {fp : FIL} {ofs : Nat} {w : State} (hw : QuietFile d fp w)
    (hseek : ¬fp.SeeksNoChain w ofs) :
    Ensures (fLseek fp ofs) w fun r w' => QuietFile d r.2 w' := by
  simp only [fLseek, ensures_bind, ensures_ite, ensures_pure, ensures_get]
  refine (validate_ensures _ _ w).mono fun r w₁ hpost => ?_
  obtain ⟨he, hfs⟩ := hpost
  subst he
  refine ⟨fun _ => hw, fun hok => ⟨fun _ => hw, fun herr => ?_⟩⟩
  obtain ⟨hopen, hmounted, hid⟩ := hfs (by simpa using hok)
  have huse : fp.Usable w₁ := ⟨hopen, hmounted, hid, by simpa using herr⟩
  have hro := hw.2 hopen
  obtain ⟨k, hk⟩ := hw.1.2.2 hmounted
  -- the offset is clipped to the size of the file
  have hclip : (if fp.objsize < ofs ∧ (!hasBits fp.flag FA_WRITE) = true then fp.objsize else ofs) =
      min fp.objsize ofs := by
    rw [hro.1]
    simp only [Bool.not_false, and_true]
    split <;> omega
  simp only [hclip]
  have hdone : ∀ (r : FRESULT × FIL) (w' : State),
      Quiet d w' ∧ r.2.fs = fp.fs ∧ r.2.flag = fp.flag → QuietFile d r.2 w' := by
    rintro r w' ⟨hq, hf, hg⟩
    exact ⟨hq, hw.2.congr hf hg⟩
  refine ⟨fun hpos => ⟨fun hcur => ?_, fun _ => ⟨fun hnone => ?_, fun _ => ?_⟩⟩, fun _ => ?_⟩
  · refine (seekFollow_quiet hro.1 _ _ _ ?_).mono hdone
    have hbcs : w₁.geo.csize * SS = 2 ^ (k + 9) := by
      rw [hk, Nat.pow_add]
    rw [hbcs] at hcur ⊢
    have := clusterStart_le hpos hcur.2
    exact ⟨hw.1, rfl, rfl, by simp only; omega⟩
  · exact absurd ⟨huse, hnone, by omega, by omega⟩ hseek
  · refine (seekFollow_quiet hro.1 _ _ _ ?_).mono hdone
    exact ⟨hw.1, rfl, rfl, by simp only; omega⟩
  · obtain ⟨h₂, h₃⟩ := seekEnd_flags { fp with fptr := 0 } (Nat.zero_le _) 0
    exact ⟨hw.1, hw.2.congr h₂ h₃⟩

/-- `f_stat` keeps a clean window and the device. -/
theorem fStat_quiet (path : List UInt8) (fno : FILINFO) : Keeps (Quiet d) (fStat path fno) := by
  unfold fStat
  exact .bind (mountVolume_quiet _ _) fun r => .ite (fun _ => .bind (followPath_quiet _ _) fun r =>
    .ite (fun _ => .ite (fun _ => .pure _) fun _ => .get fun w _ => .pure _) fun _ => .pure _)
    fun _ => .pure _

/-- `f_opendir` keeps a clean window and the device. -/
theorem fOpendir_quiet (dp : DIR) (path : List UInt8) : Keeps (Quiet d) (fOpendir dp path) := by
  unfold fOpendir
  exact .bind (mountVolume_quiet _ _) fun r => .ite (fun _ => .bind (followPath_quiet _ _) fun r =>
    .ite (fun _ => .get fun w _ => .ite (fun _ => .pure _) fun _ =>
    .bind (dirSdi_of_move moveWindow_quiet _ _) fun r =>
      .pure _) fun _ => .pure _) fun _ => .pure _

/-- `validate` only reads the state. -/
theorem validate_quiet (fs : Bool) (id : Nat) : Keeps (Quiet d) (validate fs id) := by
  unfold validate
  exact .get fun w _ => .pure _

/-- `f_readdir` keeps a clean window and the device. -/
theorem fReaddir_quiet (dp : DIR) (fno : FILINFO) : Keeps (Quiet d) (fReaddir dp fno) := by
  unfold fReaddir
  exact .bind (validate_quiet _ _) fun r => .ite (fun _ =>
    .bind (dirRead_of_move moveWindow_quiet _ _) fun r => .ite
      (fun _ => .get fun w _ => .bind (dirNext_of_move moveWindow_quiet _) fun r => .pure _)
      fun _ => .pure _)
    fun _ => .pure _

/-- The rewinding of a directory keeps a clean window and the device. -/
theorem fRewinddir_quiet (dp : DIR) : Keeps (Quiet d) (fRewinddir dp) := by
  unfold fRewinddir
  exact .bind (validate_quiet _ _) fun r => .ite (fun _ =>
    dirSdi_of_move moveWindow_quiet _ _) fun _ => .pure _

/-- `f_closedir` only clears the directory object. -/
theorem fClosedir_quiet (dp : DIR) : Keeps (Quiet d) (fClosedir dp) := by
  unfold fClosedir
  exact .bind (validate_quiet _ _) fun r => .pure _

end

/-! ## Runs -/

/-- The calls that only read: status, directory listing, opening for reading, reading, seeking,
synchronising and closing. -/
def Call.isRead : Call → Bool
  | .stat _ _ | .opendir _ _ | .readdir _ _ | .rewinddir _ | .closedir _ | .read _ _ | .lseek _ _
  | .sync _ | .close _ => true
  | .open _ _ mode => mode == FA_READ
  | _ => false

/-- The call seeks into an open file that has a size but no cluster chain. -/
def Call.SeeksNoChain (s : Session) : Call → Prop
  | .lseek f ofs => (s.files f).SeeksNoChain s.w ofs.toNat
  | _ => False

/-- The module is quiet and every file object is read-only. -/
structure Session.QuietOn (s : Session) (d : Nat → Sector) : Prop where
  quiet : Quiet d s.w
  files : ∀ f, (s.files f).ReadOnly

/-- A file object that is not open for writing is put in the table of the session. -/
theorem Session.QuietOn.setFile {s : Session} {d : Nat → Sector} (h : s.QuietOn d) {w : State}
    {f : Nat} {fp : FIL} (hq : QuietFile d fp w) : ((s.step w).setFile f fp).QuietOn d := by
  refine ⟨hq.1, fun i => ?_⟩
  by_cases hi : i = f
  · simp only [Session.setFile, hi, if_true]
    exact hq.2
  · simp only [Session.setFile, hi, if_false]
    exact h.files i

/-- A read-side call keeps the content of the device and the file objects read-only. -/
theorem exec_quiet {d : Nat → Sector} {s t : Session} {c : Call} {r : FRESULT}
    (hc : c.isRead = true)
    (hseek : ¬c.SeeksNoChain s) (h : s.QuietOn d) (he : exec s c = some (r, t)) : t.QuietOn d := by
  -- a directory call changes no file object
  have hdir : ∀ {w : State} {i : Nat} {dp : DIR}, Quiet d w → ((s.step w).setDir i dp).QuietOn d :=
    fun hq => ⟨hq, h.files⟩
  cases c with
  | stat path fno =>
    rw [exec] at he
    obtain ⟨a, w, ⟨⟩, hw⟩ := Session.run_ensures (fStat_quiet path fno _ h.quiet) he
    exact ⟨hw, h.files⟩
  | opendir i path =>
    rw [exec] at he
    obtain ⟨a, w, ⟨⟩, hw⟩ := Session.run_ensures (fOpendir_quiet _ path _ h.quiet) he
    exact hdir hw
  | readdir i fno =>
    rw [exec] at he
    obtain ⟨a, w, ⟨⟩, hw⟩ := Session.run_ensures (fReaddir_quiet _ fno _ h.quiet) he
    exact hdir hw
  | rewinddir i =>
    rw [exec] at he
    obtain ⟨a, w, ⟨⟩, hw⟩ := Session.run_ensures (fRewinddir_quiet _ _ h.quiet) he
    exact hdir hw
  | closedir i =>
    rw [exec] at he
    obtain ⟨a, w, ⟨⟩, hw⟩ := Session.run_ensures (fClosedir_quiet _ _ h.quiet) he
    exact hdir hw
  | «open» f path mode =>
    have hmode : mode = FA_READ := by simpa [Call.isRead] using hc
    subst hmode
    rw [exec] at he
    obtain ⟨a, w, ⟨⟩, hw⟩ := Session.run_ensures (fOpen_quiet h.quiet) he
    exact h.setFile hw
  | read f btr =>
    rw [exec] at he
    obtain ⟨a, w, ⟨⟩, hw⟩ := Session.run_ensures (fRead_quiet ⟨h.quiet, h.files f⟩) he
    exact h.setFile hw
  | lseek f ofs =>
    rw [exec] at he
    obtain ⟨a, w, ⟨⟩, hw⟩ := Session.run_ensures (fLseek_quiet ⟨h.quiet, h.files f⟩ hseek) he
    exact h.setFile hw
  | sync f =>
    rw [exec] at he
    obtain ⟨a, w, ⟨⟩, hw⟩ := Session.run_ensures (fSync_quiet ⟨h.quiet, h.files f⟩) he
    exact h.setFile hw
  | close f =>
    rw [exec] at he
    obtain ⟨a, w, ⟨⟩, hw⟩ := Session.run_ensures (fClose_quiet ⟨h.quiet, h.files f⟩) he
    exact h.setFile hw
  | _ => cases hc

/-- A session in which nothing is open: the window is clean, and no volume is mounted or its cluster
size is a power of two, as a mount leaves it. -/
structure Session.Fresh (s : Session) : Prop where
  clean : s.w.wflag = false
  geometry : s.w.geo.fsType ≠ .none → ∃ k, s.w.geo.csize = 2 ^ k
  closed : ∀ f, (s.files f).fs = false

/-- Read-side calls that do not seek into a file without a cluster chain never change the logical
content of a sector. -/
theorem reaches_logical {s t : Session} (hs : s.Fresh)
    (h : Reaches (fun u c => c.isRead = true ∧ ¬c.SeeksNoChain u) s t) (n : Nat) :
    t.w.logical n = s.w.logical n := by
  have hquiet : t.QuietOn s.w.disk.data := by
    induction h with
    | refl => exact ⟨⟨hs.clean, rfl, hs.geometry⟩, fun f => readOnly_of_closed (hs.closed f)⟩
    | call _ hc he ih => exact exec_quiet hc.1 hc.2 ih he
  rw [logical_of_clean hquiet.quiet.1, logical_of_clean hs.clean, hquiet.quiet.2.1]

/-- A volume of 128 sectors with one file `A` in its root directory, of size 1 and without a start
cluster. -/
def emptyChain : Disk :=
  let root := (Sector.zero.fill 0 11 0x20).set 0 0x41
  { bootImage 128 plainBoot with
    data := fun s => if s = 3 then root.set DIR_FileSize 1 else (bootImage 128 plainBoot).data s }

/-- The session of an application that starts on a device. -/
def Session.initial (d : Disk) : Session := ⟨registeredOn d, fun _ => {}, fun _ => {}⟩

/-- The volume of `emptyChain`, where the file has 1000 bytes in the clusters 2 and 3. -/
def twoClusters : Disk :=
  { emptyChain with
    data := fun s =>
      if s = 1 then ((Sector.zero.set 3 0x03).set 4 0xF0).set 5 0xFF else
      if s = 3 then stDword ((emptyChain.data 3).set DIR_FstClusLO 2) DIR_FileSize 1000
      else emptyChain.data s }

/-- A session is fresh before the first call. From there the file `A` of two clusters is opened for
reading, and a seek into its second cluster and a read of its last 100 bytes follow. -/
theorem reaches_logical_read : ∃ t, execAll [.open 0 [0x41] FA_READ, .lseek 0 900, .read 0 200,
      .close 0] (Session.initial twoClusters) = some t ∧
    (t.files 0).fptr = 1000 ∧ t.w.logical 1 = (Session.initial twoClusters).w.logical 1 := by
  have h : ((exec (Session.initial twoClusters) (.open 0 [0x41] FA_READ)).bind fun p =>
      (exec p.2 (.lseek 0 900)).bind fun q => (exec q.2 (.read 0 200)).bind fun r =>
      (exec r.2 (.close 0)).map fun t => ((p.2.files 0).sclust, (t.2.files 0).fptr)) =
      some (2, 1000) := by decide +kernel
  obtain ⟨⟨_, s₁⟩, h₁, h⟩ := Option.bind_eq_some_iff.1 h
  obtain ⟨⟨_, s₂⟩, h₂, h⟩ := Option.bind_eq_some_iff.1 h
  obtain ⟨⟨_, s₃⟩, h₃, h⟩ := Option.bind_eq_some_iff.1 h
  obtain ⟨⟨_, s₄⟩, h₄, h⟩ := Option.map_eq_some_iff.1 h
  simp only [Prod.mk.injEq] at h
  obtain ⟨hchain, hptr⟩ := h
  have hs : (Session.initial twoClusters).Fresh := ⟨rfl, fun h => absurd rfl h, fun _ => rfl⟩
  -- the seek finds the start cluster 2
  have hseek : ¬(Call.lseek 0 900).SeeksNoChain s₁ := fun h => by
    have := h.2.1
    omega
  refine ⟨s₄, ?_, hptr, reaches_logical hs (.call (.call (.call (.call .refl ⟨rfl, id⟩ h₁)
    ⟨rfl, hseek⟩ h₂) ⟨rfl, id⟩ h₃) ⟨rfl, id⟩ h₄) 1⟩
  simp only [execAll, h₁, h₂, h₃, h₄, Option.bind_some]

/-- Opening the file for reading and seeking to offset 1 allocates a cluster: the FAT entry of
cluster 2 is free before and in use after. -/
theorem lseek_allocates :
    (∀ c ∈ [Call.open 0 [0x41] FA_READ, .lseek 0 1], c.isRead = true) ∧
    ∃ t, execAll [.open 0 [0x41] FA_READ, .lseek 0 1] (Session.initial emptyChain) = some t ∧
      (Session.initial emptyChain).w.logical 1 3 = 0 ∧ t.w.logical 1 3 = 0xFF ∧
      (t.files 0).flag = FA_READ := by
  refine ⟨by decide, ?_⟩
  have h : (execAll [.open 0 [0x41] FA_READ, .lseek 0 1] (Session.initial emptyChain)).map
      (fun t => (t.w.logical 1 3, (t.files 0).flag)) = some (0xFF, FA_READ) := by decide +kernel
  obtain ⟨t, he, ht⟩ := Option.map_eq_some_iff.1 h
  obtain ⟨h₁, h₂⟩ := Prod.mk.inj ht
  exact ⟨t, he, by decide +kernel, h₁, h₂⟩

end FatFs
