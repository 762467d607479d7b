import FatFs.Placed.File
import FatFs.Total.Calls

/-!
# Invariants of whole runs

Every call on a mounted volume keeps a closed property and places the file objects it opens, so a
property that is closed for the sectors of the root directory and the data area holds in every
session that a run reaches (`Reaches.closed`). Directory objects are never stored through.
-/

namespace FatFs

open Run

section
variable {g : Geometry} {A : Nat → Prop} {I : State → Prop} (hg : g.Sound) (hI : Closed g A I)

include hg hI

/-- While a volume is mounted, a call does not mount again. -/
theorem mountVolume_closed {w : State} (hw : I w) (path : List UInt8) (mode : UInt8) :
    Ensures (mountVolume path mode) w fun _ w' => w' = w := by
  rw [mountVolume, ensures_bind, ensures_get]
  obtain ⟨known, rest⟩ := getLdnumber w.charSigned path
  cases known with
  | false => exact ensures_pure.2 rfl
  | true =>
    rw [ensures_ite, ensures_ite, ensures_ite]
    refine ⟨fun _ => ensures_pure.2 rfl, fun _ => ⟨fun _ => ⟨fun _ => ensures_pure.2 rfl, fun _ =>
      ensures_pure.2 rfl⟩, fun hm => absurd ⟨?_, rfl⟩ hm⟩⟩
    rw [(hI.inv hw).geo]
    exact hg.fsType

/-- On a mounted volume `mount_volume` has nothing to do. -/
theorem mountVolume_keeps (path : List UInt8) (mode : UInt8) : Keeps I (mountVolume path mode) :=
  fun _ hw => (mountVolume_closed hg hI hw path mode).mono fun _ _ h => h ▸ hw

/-! ## Opening -/

/-- The entry of the file is set to its initial state, and shown in the window again if its chain
was removed. -/
theorem truncEntry_closed {w : State} {dj : DIR} (hw : Shown I dj w) (hd : dj.At g) :
    Ensures (truncEntry dj) w fun r w' => I w' ∧ (r = .ok → w'.winsect = dj.sect) := by
  rw [truncEntry]
  simp only [ensures_bind, ensures_get, modWin, ensures_modify, ensures_ite, ensures_pure]
  have h₁ := Shown.store hg hI hw hd (initEntry w.geo w.win dj.dir)
  refine ⟨fun _ => ?_, fun _ => ⟨h₁, fun _ => hw.2⟩⟩
  refine (hI.remove _ 0 h₁ fun h => absurd rfl h).mono fun r w₂ h₂ => ⟨fun _ => ?_, fun hne =>
    ⟨h₂, fun h => absurd h hne⟩⟩
  refine (moveWindow_closed hg hI h₂ _).mono fun r w₃ hpost => ?_
  obtain ⟨h₃, hws⟩ := hpost
  exact ⟨hI.last _ (sub32_lt _ _) h₃, fun hr =>
    (hws hr).trans hw.2⟩

/-- `f_open` with a creating mode leaves the window on the sector of the entry. -/
theorem openCreate_closed {w : State} (hw : I w) {res : FRESULT} {dj : DIR} (mode : UInt8)
    (hd : res = .ok → dj.At g ∧ w.winsect = dj.sect) :
    Ensures (openCreate res dj mode) w fun r w' => I w' ∧
      (r.1 = .ok → r.2.1.At g ∧ w'.winsect = r.2.1.sect) := by
  have htrunc : ∀ {w₁ : State} {d : DIR} (m : UInt8), I w₁ → d.At g → w₁.winsect = d.sect →
      Ensures (truncEntry d >>= fun res => pure (res, d, m)) w₁ fun r w' => I w' ∧
        (r.1 = .ok → r.2.1.At g ∧ w'.winsect = r.2.1.sect) := fun m h₁ hat hws => by
    simp only [ensures_bind, ensures_pure]
    exact (truncEntry_closed hg hI ⟨h₁, hws⟩ hat).mono fun r w₂ h₂ =>
      ⟨h₂.1, fun hr => ⟨hat, h₂.2 hr⟩⟩
  rw [openCreate, ensures_ite]
  refine ⟨fun hne => ?_, fun hok => ?_⟩
  · rw [ensures_ite, ensures_pure, ensures_bind]
    refine ⟨fun _ => ?_, fun _ => ⟨hw, fun h => absurd h hne⟩⟩
    refine (dirRegister_closed hg hI hw dj).mono fun r w₁ hpost => ?_
    obtain ⟨h₁, hr⟩ := hpost
    rw [ensures_ite, ensures_pure]
    exact ⟨fun hok => htrunc _ h₁ (hr hok).1 (hr hok).2, fun hne => ⟨h₁, fun h => absurd h hne⟩⟩
  · obtain ⟨hat, hws⟩ := hd (by simpa using hok)
    rw [ensures_ite, ensures_ite, ensures_ite]
    simp only [ensures_pure]
    exact ⟨fun _ => ⟨hw, by simp⟩, fun _ => ⟨fun _ => ⟨hw, by simp⟩, fun _ =>
      ⟨fun _ => htrunc _ hw hat hws, fun _ => ⟨hw, fun _ => ⟨hat, hws⟩⟩⟩⟩⟩

/-- The walk to the end of the file keeps the place of its entry. -/
theorem appendSeek_closed {w : State} (hw : I w) {fp : FIL} (hd : A fp.dirSect) :
    Ensures (appendSeek fp) w fun r w' => I w' ∧ (r.1 = .ok → r.2.Placed A) := by
  have hround : ∀ p w₁, I w₁ ∧ p.2 % SS = fp.objsize % SS →
      Ensures (appendRound (g.csize * SS) p) w₁ fun r w' =>
        Sum.elim (fun q => I w' ∧ q.2 % SS = fp.objsize % SS) (fun r => I w' ∧
          (r.1 = .ok → r.2.2 % SS = fp.objsize % SS ∧ r.2.2 ≤ g.csize * SS)) r := by
    rintro p w₁ ⟨h₁, hm⟩
    rw [appendRound]
    simp only [ensures_ite, ensures_bind, ensures_pure]
    refine ⟨fun hlt => ?_, fun hle => ⟨h₁, fun _ => ⟨hm, Nat.le_of_not_lt hle⟩⟩⟩
    refine (getFat_keeps hI.move _ _ h₁).mono fun c w₂ h₂ => ⟨fun _ => ⟨h₂, by simp⟩, fun _ =>
      ⟨fun _ => ⟨h₂, by simp⟩, fun _ => ⟨h₂, ?_⟩⟩⟩
    rw [← hm]
    simp only [SS] at hlt ⊢
    omega
  rw [appendSeek, ensures_bind, ensures_get, (hI.inv hw).geo, ensures_bind]
  refine (Ensures.loop hround _ ⟨hw, rfl⟩).mono fun r w₁ hpost => ?_
  obtain ⟨h₁, hr⟩ := hpost
  simp only [ensures_ite, ensures_pure]
  refine ⟨fun hin => ⟨fun _ => ⟨h₁, by simp⟩, fun hs => ⟨h₁, fun _ => ⟨hd, fun _ _ => ?_⟩⟩⟩,
    fun hno => ⟨h₁, fun hok => ⟨hd, fun _ hm => absurd ⟨hok, ?_⟩ hno⟩⟩⟩
  · obtain ⟨hok, ho⟩ := hin
    have hlt : r.2.2 / SS < g.csize := by
      refine Nat.div_lt_of_lt_mul ?_
      rw [Nat.mul_comm]
      refine Nat.lt_of_le_of_ne (hr hok).2 fun he => ho ?_
      rw [he, Nat.mul_mod_left]
    have harea := hg.inArea_clst2sect hs hlt
    show A (add32 (clst2sect g r.2.1) (r.2.2 / SS))
    rw [add32_of_lt (hg.inArea_lt harea)]
    exact hI.area harea
  · rw [(hr hok).1]
    exact hm

/-- The file object takes the sector of its entry from the window. -/
theorem openFil_closed {w : State} (hw : I w) (hs : A w.winsect) (fp : FIL) (dj : DIR)
    (mode : UInt8) : Ensures (openFil fp dj mode) w fun r w' => I w' ∧
      (r.1 = .ok → r.2.Placed A) := by
  rw [openFil]
  simp only [ensures_bind, ensures_get, ensures_ite, ensures_pure]
  refine ⟨fun _ => appendSeek_closed hg hI hw hs, fun _ => ⟨hw, fun _ => ⟨hs, fun _ hm => ?_⟩⟩⟩
  exact absurd (Nat.zero_mod SS) hm

omit hg hI in
/-- An existing object is opened only if it was found. -/
theorem openExisting_ok {res : FRESULT} {dj : DIR} {mode : UInt8}
    (h : openExisting res dj mode = .ok) : res = .ok := by
  unfold openExisting at h
  split at h
  · assumption
  · exact h

/-- A file that `f_open` opens has its entry in a sector that may be written. -/
theorem fOpen_closed {w : State} (hw : I w) (fp : FIL) (path : List UInt8) (mode : UInt8) :
    Ensures (fOpen fp path mode) w fun r w' => I w' ∧ r.2.Safe g A := by
  have hnone : ∀ q : FIL, FIL.Safe g A { q with fs := false } := fun _ h => by cases h
  rw [fOpen, ensures_bind]
  refine (mountVolume_closed hg hI hw path _).mono fun r w₁ he => ?_
  subst he
  rw [ensures_ite, ensures_pure, ensures_bind]
  refine ⟨fun _ => ?_, fun _ => ⟨hw, hnone _⟩⟩
  refine (followPath_closed hg hI hw {} _).mono fun r w₁ ⟨h₁, hf⟩ => ?_
  have hd : (if r.1 = .ok ∧ hasBits r.2.nsflag NS_NONAME = true then .invalidName else r.1) =
      FRESULT.ok → r.2.At g ∧ w₁.winsect = r.2.sect := by
    intro h
    split at h
    · cases h
    · next hn =>
      refine ⟨(hf h).at_, (hf h).shown ?_⟩
      rw [Bool.eq_false_iff]
      exact fun hb => hn ⟨h, hb⟩
  rw [ensures_bind]
  refine Ensures.mono
    (Q := fun q w' => I w' ∧ (q.1 = .ok → q.2.1.At g ∧ w'.winsect = q.2.1.sect)) ?_
    fun q w₂ ⟨h₂, hq⟩ => ?_
  · rw [ensures_ite, ensures_pure]
    exact ⟨fun _ => openCreate_closed hg hI h₁ _ hd, fun _ => ⟨h₁, fun hr =>
      hd (openExisting_ok hr)⟩⟩
  · rw [ensures_ite, ensures_pure, ensures_bind]
    refine ⟨fun hok => ?_, fun _ => ⟨h₂, hnone _⟩⟩
    have hA : A w₂.winsect := by
      rw [(hq hok).2]
      exact hI.area ((hq hok).1.inArea hg)
    refine (openFil_closed hg hI h₂ hA fp _ _).mono fun r w₃ ⟨h₃, hr⟩ => ensures_pure.2 ⟨h₃, ?_⟩
    rcases r with ⟨res, q⟩
    cases res with
    | ok => exact fun _ _ => hr rfl
    | _ => exact hnone q

/-! ## Directories -/

/-- `f_opendir` keeps a closed property. -/
theorem fOpendir_keeps (dp : DIR) (path : List UInt8) : Keeps I (fOpendir dp path) := by
  unfold fOpendir
  exact .bind (mountVolume_keeps hg hI _ _) fun _ => .ite (fun _ =>
    .bind (followPath_keeps hg hI _ _)
    fun _ => .ite (fun _ => .get fun _ _ => .ite (fun _ => .pure _) fun _ => .bind
      (dirSdi_keeps hg hI _ _) fun _ => .pure _) fun _ => .pure _) fun _ => .pure _

/-- `f_readdir` keeps a closed property. -/
theorem fReaddir_keeps (dp : DIR) (fno : FILINFO) : Keeps I (fReaddir dp fno) := by
  unfold fReaddir
  exact .bind (.get fun _ _ => .pure _) fun _ => .ite (fun _ => .bind (dirRead_keeps hg hI _ _)
    fun _ => .ite (fun _ => .get fun _ _ => .bind (dirNext_keeps hg hI _ _) fun _ => .pure _)
      fun _ => .pure _) fun _ => .pure _

/-- The rewinding of a directory keeps a closed property. -/
theorem fRewinddir_keeps (dp : DIR) : Keeps I (fRewinddir dp) := by
  unfold fRewinddir
  exact .bind (.get fun _ _ => .pure _) fun _ => .ite (fun _ => dirSdi_keeps hg hI _ _)
    fun _ => .pure _

omit hg hI in
/-- `f_closedir` does not change the state of the volume. -/
theorem fClosedir_keeps (dp : DIR) : Keeps I (fClosedir dp) := by
  unfold fClosedir
  exact .bind (.get fun _ _ => .pure _) fun _ => .pure _

/-- `f_stat` keeps a closed property. -/
theorem fStat_keeps (path : List UInt8) (fno : FILINFO) : Keeps I (fStat path fno) := by
  unfold fStat
  exact .bind (mountVolume_keeps hg hI _ _) fun _ => .ite
    (fun _ => .bind (followPath_keeps hg hI _ _) fun _ => .ite
      (fun _ => .ite (fun _ => .pure _) fun _ => .get fun _ _ => .pure _) fun _ => .pure _)
    fun _ => .pure _

/-- The scan of `f_getfree` leaves the number of free clusters alone. -/
theorem freeScan_keeps (n : Nat) : Keeps (fun w => I w ∧ w.freeClst = n)
    (if g.fsType = .fat12 then loop free12Round g.nFatent (2, 0)
      else loop freeRound (g.nFatent + 1) ⟨g.nFatent, g.fatbase, 0, 0⟩) := by
  have hget : ∀ c, Keeps (fun w => I w ∧ w.freeClst = n) (getFat c) := fun c w hw =>
    (getFat_closed hg hI hw.1 c).mono fun _ _ h => ⟨h.1, h.2.kept.freeClst.trans hw.2⟩
  have hmove : ∀ s, Keeps (fun w => I w ∧ w.freeClst = n) (moveWindow s) := fun s w hw =>
    ((hI.move s w hw.1).and (moveWindow_inv hg (hI.inv hw.1) s).ensures).mono fun _ _ h =>
      ⟨h.1, h.2.kept.freeClst.trans hw.2⟩
  refine .ite (fun _ => .loop (fun p => ?_) _ _) fun _ => .loop (fun p => ?_) _ _
  · unfold free12Round
    exact .bind (hget _) fun _ => .ite (fun _ => .pure _) fun _ => .ite (fun _ => .pure _) fun _ =>
      .get fun _ _ => .ite (fun _ => .pure _) fun _ => .pure _
  · unfold freeRound
    exact .bind (.ite (fun _ => hmove _) fun _ => .pure _) fun _ => .ite (fun _ => .pure _) fun _ =>
      .get fun _ _ => .ite (fun _ => .pure _) fun _ => .pure _

/-- The free clusters are counted only when their number is not known. -/
theorem fGetfree_keeps (path : List UInt8) : Keeps I (fGetfree path) := by
  unfold fGetfree
  refine .bind (mountVolume_keeps hg hI _ _) fun _ => .ite (fun _ => ?_) fun _ => .pure _
  intro w hw
  rw [ensures_bind, ensures_get, ensures_ite, ensures_pure, (hI.inv hw).geo, ensures_bind]
  refine ⟨fun _ => hw, fun hun => ?_⟩
  have hscan : Ensures (if g.fsType = .fat12 then loop free12Round g.nFatent (2, 0)
      else loop freeRound (g.nFatent + 1) ⟨g.nFatent, g.fatbase, 0, 0⟩) w fun r w' => (I w' ∧
        w'.freeClst = w.freeClst) ∧ (Inv g w' ∧ ∀ n, r = .ok n → g.fatbase < w'.disk.sectors ∧ n ≤
        g.nFatent) := by
    refine (freeScan_keeps hg hI w.freeClst w ⟨hw, rfl⟩).and
      (ensures_ite.2 ⟨fun _ => ?_, fun _ => ?_⟩)
    · exact (free12_inv hg (hI.inv hw)).ensures
    · exact (free_inv hg (hI.inv hw)).ensures
  refine hscan.mono fun r w₁ ⟨⟨h₁, hfr⟩, _, hon⟩ => ?_
  cases r with
  | error res => exact ensures_pure.2 h₁
  | ok n =>
    simp only [ensures_bind, ensures_modify, ensures_pure]
    refine hI.count n (hon n rfl).2 h₁ ?_ (hon n rfl).1
    rw [hfr]
    exact Nat.lt_of_not_le hun

/-! ## The name space -/

/-- The test whether a directory is empty keeps a closed property. -/
theorem dirEmpty_keeps (dclst : Nat) : Keeps I (dirEmpty dclst) := by
  unfold dirEmpty
  exact .bind (dirSdi_keeps hg hI _ _) fun _ => .ite (fun _ => .bind (dirRead_keeps hg hI _ _)
    fun _ => .pure _) fun _ => .pure _

/-- `f_unlink` stores in the directory tables and in the FAT, so it keeps a closed property. -/
theorem fUnlink_keeps (path : List UInt8) : Keeps I (fUnlink path) := by
  unfold fUnlink
  refine .bind (mountVolume_keeps hg hI _ _) fun _ => .ite (fun _ => ?_) fun _ => .pure _
  intro w hw
  rw [ensures_bind]
  refine (followPath_closed hg hI hw {} _).mono fun r w₁ ⟨h₁, hf⟩ => ?_
  have hrest : Keeps I (do
      let res ← (if ldClust w₁.geo w₁.win r.2.dir ≠ 0 then
        removeChain (ldClust w₁.geo w₁.win r.2.dir) 0 else pure .ok)
      if res = .ok then syncFs else return res : M FRESULT) :=
    .bind (.ite (fun _ w₂ h₂ => hI.remove _ 0 h₂ fun h => absurd rfl h) fun _ => .pure _)
      fun _ => .ite (fun _ => hI.info) fun _ => .pure _
  rw [ensures_ite, ensures_pure, ensures_ite, ensures_pure, ensures_ite, ensures_pure]
  refine ⟨fun hok => ⟨fun _ => h₁, fun _ => ⟨fun _ => h₁, fun _ => ?_⟩⟩, fun _ => h₁⟩
  rw [ensures_bind, ensures_get, ensures_bind]
  have hempty : Keeps I (if hasBits r.2.attr AM_DIR = true then
      dirEmpty (ldClust w₁.geo w₁.win r.2.dir) else pure .ok) :=
    .ite (fun _ => dirEmpty_keeps hg hI _) fun _ => .pure _
  refine (hempty w₁ h₁).mono fun res w₂ h₂ => ?_
  rw [ensures_ite, ensures_pure, ensures_bind]
  refine ⟨fun _ => (dirRemove_closed hg hI h₂ (hf hok).at_).mono fun res w₃ h₃ => ?_, fun _ => h₂⟩
  rw [ensures_ite, ensures_pure]
  exact ⟨fun _ => hrest w₃ h₃, fun _ => h₃⟩

/-- The table of a new directory is cleared and filled before it is registered. -/
theorem mkdirTable_closed {w : State} (hw : I w) (dj : DIR) {dcl : Nat} (hc : g.IsClust dcl) :
    Ensures (mkdirTable dj dcl) w fun r w' => I w' ∧
      (r.1 = .ok → r.2.At g ∧ w'.winsect = r.2.sect) := by
  have harea : g.InArea (clst2sect g dcl) := by simpa using hg.inArea_clst hc hg.csize_pos
  rw [mkdirTable, ensures_bind]
  refine ((hI.clear dcl hc w hw).and (dirClear_inv hg (hI.inv hw) hc).ensures).mono
    fun r w₁ ⟨h₁, hcl⟩ => ?_
  simp only [ensures_ite, ensures_pure, ensures_bind, ensures_get, modWin, ensures_modify]
  refine ⟨fun hok => dirRegister_closed hg hI (hI.store _ h₁ ?_) dj, fun hne =>
    ⟨h₁, fun h => absurd h hne⟩⟩
  rw [(hcl.ok hok).1]
  exact hI.area harea

/-- `f_mkdir` stores in the directory tables, in the FAT and in the cluster of the new table. -/
theorem fMkdir_keeps (path : List UInt8) : Keeps I (fMkdir path) := by
  unfold fMkdir
  refine .bind (mountVolume_keeps hg hI _ _) fun _ => .ite (fun _ =>
    .bind (followPath_keeps hg hI _ _)
    fun r => .ite (fun _ => .pure _) fun _ => .ite (fun _ => ?_) fun _ => .pure _) fun _ => .pure _
  intro w hw
  rw [ensures_bind]
  refine ((hI.create 0 w hw).and (createChain_inv hg (hI.inv hw) 0).ensures).mono
    fun dcl w₁ ⟨h₁, hcr⟩ => ?_
  rw [ensures_bind]
  refine Ensures.mono (Q := fun q w' => I w' ∧ (q.1 = .ok → q.2.At g ∧ w'.winsect = q.2.sect)) ?_
    fun q w₂ ⟨h₂, hq⟩ => ?_
  · simp only [ensures_ite, ensures_pure]
    exact ⟨fun _ => ⟨h₁, by simp⟩, fun h0 => ⟨fun _ => ⟨h₁, by simp⟩, fun h1 => ⟨fun _ =>
      ⟨h₁, by simp⟩, fun hd => mkdirTable_closed hg hI h₁ _ (hcr.isClust h0 h1 hd)⟩⟩⟩
  · simp only [ensures_ite, ensures_pure, ensures_bind, ensures_get, modWin, ensures_modify]
    refine ⟨fun hok => hI.info _ ?_, fun _ => hI.remove _ 0 h₂ fun h => absurd rfl h⟩
    exact Shown.store hg hI ⟨h₂, (hq hok).2⟩ (hq hok).1 _

/-- `f_rename` of a directory stores the `..` entry in its table. -/
theorem renameDotDot_keeps (clst pcl : Nat) : Keeps I (renameDotDot clst pcl) := by
  intro w hw
  rw [renameDotDot]
  simp only [ensures_bind, ensures_get, ensures_ite, ensures_pure, (hI.inv hw).geo]
  refine ⟨fun _ => hw, fun hs => ?_⟩
  refine (moveWindow_closed hg hI hw _).mono fun r w₁ hpost => ?_
  obtain ⟨h₁, hws⟩ := hpost
  refine ⟨fun hdot => ?_, fun _ => h₁⟩
  rw [modWin, ensures_modify]
  refine hI.store _ h₁ ?_
  rw [hws hdot.1]
  exact hI.area (by simpa using hg.inArea_clst2sect hs hg.csize_pos)

/-- `f_rename` stores the new entry in its table. -/
theorem renameEnter_keeps (djo djn : DIR) (buf : List UInt8) :
    Keeps I (renameEnter djo djn buf) := by
  intro w hw
  rw [renameEnter, ensures_bind]
  refine (dirRegister_closed hg hI hw djn).mono fun r w₁ ⟨h₁, hr⟩ => ?_
  simp only [ensures_bind, ensures_get, ensures_ite, ensures_pure, modWin, ensures_modify]
  refine ⟨fun hok => ?_, fun _ => h₁⟩
  have h₂ := Shown.store hg hI ⟨h₁, (hr hok).2⟩ (hr hok).1 (renameEntry w₁.win r.2.dir buf)
  exact ⟨fun _ => renameDotDot_keeps hg hI _ _ _ h₂, fun _ => h₂⟩

/-- `f_rename` on a mounted volume keeps a closed property. -/
theorem renameObject_keeps (pathOld pathNew : List UInt8) :
    Keeps I (renameObject pathOld pathNew) := by
  intro w hw
  rw [renameObject, ensures_bind]
  refine (followPath_closed hg hI hw {} _).mono fun r w₁ ⟨h₁, hf⟩ => ?_
  rw [ensures_ite, ensures_pure, ensures_ite, ensures_pure, ensures_bind, ensures_get, ensures_bind]
  refine ⟨fun hok => ⟨fun _ => h₁, fun _ => ?_⟩, fun _ => h₁⟩
  refine (followPath_keeps hg hI r.2 _ w₁ h₁).mono fun q w₂ h₂ => ?_
  rw [ensures_bind]
  refine Ensures.mono (Q := fun _ w' => I w') ?_ fun res w₃ h₃ => ?_
  · rw [ensures_ite, ensures_pure]
    exact ⟨fun _ => renameEnter_keeps hg hI _ _ _ w₂ h₂, fun _ => h₂⟩
  · rw [ensures_ite, ensures_pure, ensures_bind]
    refine ⟨fun _ => (dirRemove_closed hg hI h₃ (hf hok).at_).mono fun res w₄ h₄ => ?_, fun _ => h₃⟩
    rw [ensures_ite, ensures_pure]
    exact ⟨fun _ => hI.info w₄ h₄, fun _ => h₄⟩

/-- `f_rename` keeps a closed property. -/
theorem fRename_keeps (pathOld pathNew : List UInt8) : Keeps I (fRename pathOld pathNew) := by
  unfold fRename
  exact .get fun w _ => .bind (mountVolume_keeps hg hI _ _) fun _ => .ite
    (fun _ => renameObject_keeps hg hI _ _) fun _ => .pure _

end

/-! ## Runs -/

/-- A call on the mounted volume: everything but `f_mount`. -/
def Call.OnVolume : Call → Prop
  | .mount .. => False
  | _ => True

/-- A session with a closed property and placed file objects. -/
structure Session.Placed (g : Geometry) (A : Nat → Prop) (I : State → Prop) (s : Session) :
    Prop where
  inv : I s.w
  files : ∀ f, (s.files f).Safe g A

/-- No file is open on the mounted volume. -/
def Session.NoneOpen (s : Session) : Prop :=
  ∀ f, (s.files f).fs = true → (s.files f).id ≠ s.w.geo.id

/-- With no file open there is nothing that could be in a wrong place. -/
theorem Session.NoneOpen.placed {s : Session} (h : s.NoneOpen) {A : Nat → Prop} {I : State → Prop}
    (hi : I s.w) : s.Placed s.w.geo A I :=
  ⟨hi, fun f hf hid => absurd hid (h f hf)⟩

/-- The session of a program that has just mounted the volume of a reliable device, with a sound
layout, from the state `w₀`: by `f_mount`, or by the first call on a registered object. No file is
open on it. -/
structure Session.JustMounted (w₀ : State) (s : Session) : Prop where
  reliable : w₀.disk.Reliable
  size : w₀.disk.sectors < W32
  sound : w₀.disk.MountsSound
  blank : w₀.geo.fsType = .none
  mount : ∃ path mode p, mountVolume path mode w₀ = some ((.ok, p), s.w)
  noneOpen : s.NoneOpen

/-- What a mount establishes. -/
theorem Session.JustMounted.inv {w₀ : State} {s : Session} (h : s.JustMounted w₀) :
    s.w.geo.Sound ∧ Inv s.w.geo s.w ∧ s.w.wflag = false ∧ s.w.disk.data = w₀.disk.data := by
  obtain ⟨path, mode, p, hm⟩ := h.mount
  have hready : w₀.Ready := ⟨h.reliable, h.size, fun hne => absurd h.blank hne⟩
  obtain ⟨hr, hf⟩ := (mountVolume_ready hready (fun _ => h.sound) path mode).of_eq hm
  obtain ⟨hg, hi⟩ := hr.mounted (hf rfl)
  obtain ⟨_, _, _, _, _, hd⟩ := mountVolume_blank h.reliable h.blank hm
  exact ⟨hg, hi, mountVolume_clean h.blank path mode _ _ hm rfl, hd⟩

/-- A file object that may be used is put in the table of the session. -/
theorem Session.Placed.setFile {g : Geometry} {A : Nat → Prop} {I : State → Prop} {s : Session}
    (hs : s.Placed g A I) {w : State} (hw : I w) (f : Nat) {fp : FIL} (hp : fp.Safe g A) :
    ((s.step w).setFile f fp).Placed g A I := by
  refine ⟨hw, fun i => ?_⟩
  show FIL.Safe g A (if i = f then fp else s.files i)
  split
  · exact hp
  · exact hs.files i

section
variable {g : Geometry} {A : Nat → Prop} {I : State → Prop} (hg : g.Sound) (hI : Closed g A I)

include hg hI

/-- One call of a run. -/
theorem exec_closed {s t : Session} {c : Call} {r : FRESULT} (hs : s.Placed g A I) (hc : c.OnVolume)
    (he : exec s c = some (r, t)) : t.Placed g A I := by
  -- a function that returns no file object
  have hkeep : ∀ {α : Type} {m : M α} {out : Session → α → FRESULT × Session},
      (∀ u a, (out u a).2.w = u.w ∧ (out u a).2.files = u.files) → Keeps I m →
      s.run m out = some (r, t) → t.Placed g A I := by
    intro α m out hout hm hrun
    obtain ⟨a, w, hp, hw⟩ := Session.run_ensures (hm s.w hs.inv) hrun
    obtain ⟨h₁, h₂⟩ := hout (s.step w) a
    rw [← hp] at h₁ h₂
    refine ⟨?_, fun f => ?_⟩
    · rw [show t.w = w from h₁]
      exact hw
    · rw [show t.files = s.files from h₂]
      exact hs.files f
  -- a function that returns the file object of a slot
  have hfile : ∀ {α : Type} {m : M α} {f : Nat} {fp : α → FIL} {res : α → FRESULT},
      Ensures m s.w (fun a w' => I w' ∧ (fp a).Safe g A) →
      s.run m (fun u a => (res a, u.setFile f (fp a))) = some (r, t) → t.Placed g A I := by
    intro α m f fp res hm hrun
    obtain ⟨a, w, hp, hw, hsafe⟩ := Session.run_ensures hm hrun
    cases hp
    exact hs.setFile hw f hsafe
  cases c with
  | mount fs path opt => exact absurd hc id
  | opendir d path =>
    rw [exec] at he
    exact hkeep (fun _ _ => ⟨rfl, rfl⟩) (fOpendir_keeps hg hI _ path) he
  | readdir d fno =>
    rw [exec] at he
    exact hkeep (fun _ _ => ⟨rfl, rfl⟩) (fReaddir_keeps hg hI _ fno) he
  | rewinddir d =>
    rw [exec] at he
    exact hkeep (fun _ _ => ⟨rfl, rfl⟩) (fRewinddir_keeps hg hI _) he
  | closedir d =>
    rw [exec] at he
    exact hkeep (fun _ _ => ⟨rfl, rfl⟩) (fClosedir_keeps _) he
  | stat path fno =>
    rw [exec] at he
    exact hkeep (fun _ _ => ⟨rfl, rfl⟩) (fStat_keeps hg hI path fno) he
  | «open» f path mode =>
    rw [exec] at he
    exact hfile (fOpen_closed hg hI hs.inv _ path mode) he
  | read f btr =>
    rw [exec] at he
    exact hfile (fRead_closed hg hI hs.inv (hs.files f) _) he
  | write f buff =>
    rw [exec] at he
    exact hfile (fWrite_closed hg hI hs.inv (hs.files f) buff) he
  | lseek f ofs =>
    rw [exec] at he
    exact hfile (fLseek_closed hg hI hs.inv (hs.files f) _) he
  | truncate f =>
    rw [exec] at he
    exact hfile (fTruncate_closed hg hI hs.inv (hs.files f)) he
  | sync f =>
    rw [exec] at he
    exact hfile (fSync_closed hg hI hs.inv (hs.files f)) he
  | close f =>
    rw [exec] at he
    exact hfile (fClose_closed hg hI hs.inv (hs.files f)) he
  | unlink path =>
    rw [exec] at he
    exact hkeep (fun _ _ => ⟨rfl, rfl⟩) (fUnlink_keeps hg hI path) he
  | mkdir path =>
    rw [exec] at he
    exact hkeep (fun _ _ => ⟨rfl, rfl⟩) (fMkdir_keeps hg hI path) he
  | rename pathOld pathNew =>
    rw [exec] at he
    exact hkeep (fun _ _ => ⟨rfl, rfl⟩) (fRename_keeps hg hI _ _) he
  | getfree path =>
    rw [exec] at he
    exact hkeep (fun _ _ => ⟨rfl, rfl⟩) (fGetfree_keeps hg hI path) he

/-- A closed property is an invariant of every run on the mounted volume. -/
theorem Reaches.closed {s t : Session} (hs : s.Placed g A I)
    (h : Reaches (fun _ c => c.OnVolume) s t) : t.Placed g A I := by
  induction h with
  | refl => exact hs
  | call _ hc he ih => exact exec_closed hg hI ih hc he

end

/-! ## Calls on a blank filesystem object

A call on a blank filesystem object mounts the volume first. What it does then is what the same call
does on the mounted volume.
-/

/-- What the search for a volume and the mount leave alone. -/
structure SameHost (w w' : State) : Prop where
  registered : w'.registered = w.registered
  charSigned : w'.charSigned = w.charSigned

/-- `move_window` keeps the layout and the mount. -/
theorem MovePost.kept {w w' : State} {s : Nat} {r : FRESULT} (h : MovePost w s r w') :
    Kept w w' := by
  cases h with
  | same => exact Kept.refl w
  | moved hk => exact hk
  | stuck hk => exact hk
  | lost hk => exact hk

section
variable {w : State}

/-- `move_window` keeps the registration and the signedness of `char`. -/
theorem moveWindow_sameHost (s : Nat) : Keeps (SameHost w) (moveWindow s) := fun w₁ h =>
  (moveWindow_spec w₁ s).ensures.mono fun _ _ hp =>
    ⟨hp.kept.registered.trans h.registered, hp.kept.charSigned.trans h.charSigned⟩

/-- `check_fs` keeps the registration and the signedness of `char`. -/
theorem checkFs_sameHost (s : Nat) : Keeps (SameHost w) (checkFs s) := by
  unfold checkFs
  exact .bind (.modify fun _ h => ⟨h.registered, h.charSigned⟩) fun _ =>
    .bind (moveWindow_sameHost s)
    fun _ => .ite (fun _ => .pure _) fun _ => .get fun _ _ => .pure _

/-- The search through the partitions keeps the registration and the signedness. -/
theorem tryParts_sameHost : ∀ pts, Keeps (SameHost w) (tryParts pts)
  | [] => .pure _
  | pt :: pts => .bind (.ite (fun _ => checkFs_sameHost pt) fun _ => .pure _) fun _ => .ite
      (fun _ => tryParts_sameHost pts) fun _ => .pure _

/-- The search for a volume keeps the registration and the signedness. -/
theorem mountDrive_sameHost : Keeps (SameHost w) mountDrive := by
  have hfind : Keeps (SameHost w) findVolume := by
    unfold findVolume
    exact .bind (checkFs_sameHost 0) fun _ => .ite (fun _ => .pure _) fun _ => .get fun _ _ =>
      tryParts_sameHost _
  have hload : ∀ fmt s b, Keeps (SameHost w) (loadFsInfo fmt s b) := fun fmt s b => by
    unfold loadFsInfo
    refine .bind (.modify fun _ h => ⟨h.registered, h.charSigned⟩) fun _ => .ite (fun _ => .bind
      (moveWindow_sameHost _) fun _ => .ite (fun _ => .modify fun w h => ?_) fun _ => .pure _)
      fun _ => .pure _
    split
    · exact ⟨h.registered, h.charSigned⟩
    · exact ⟨h.registered, h.charSigned⟩
  unfold mountDrive
  refine .bind hfind fun _ => .ite (fun _ => .pure _) fun _ => .ite (fun _ => .pure _) fun _ => .get
    fun w₁ _ => ?_
  cases readBPB w₁.win w₁.winsect with
  | none => exact .pure _
  | some g => exact .bind (hload _ _ _) fun _ => .bind (.modify fun _ h =>
      ⟨h.registered, h.charSigned⟩) fun _ => .pure _

end

/-- `mount_volume` on a mounted volume only reads the drive number. -/
theorem mountVolume_mounted {w : State} {path rest : List UInt8} (mode : UInt8)
    (hl : getLdnumber w.charSigned path = (true, rest)) (hr : w.registered = true)
    (hf : w.geo.fsType ≠ .none) : mountVolume path mode w = some ((.ok, rest), w) := by
  have h : Returns (mountVolume path mode) w fun r w' => r = (.ok, rest) ∧ w' = w := by
    rw [mountVolume, returns_bind, returns_get, hl]
    simp [hr, hf, diskStatus]
  obtain ⟨r, w', he, rfl, rfl⟩ := h
  exact he

/-- `mount_volume` keeps the registration, and succeeds on the registered drive only. -/
theorem mountVolume_host (w : State) (path : List UInt8) (mode : UInt8) :
    Ensures (mountVolume path mode) w fun r w' => SameHost w w' ∧
      (r.1 = .ok → getLdnumber w.charSigned path = (true, r.2) ∧ w.registered = true) := by
  have hself : SameHost w w := ⟨rfl, rfl⟩
  rw [mountVolume, ensures_bind, ensures_get]
  obtain ⟨known, rest⟩ := getLdnumber w.charSigned path
  cases known with
  | false => exact ensures_pure.2 ⟨hself, by simp⟩
  | true =>
    rw [ensures_ite]
    refine ⟨fun _ => ensures_pure.2 ⟨hself, by simp⟩, fun hreg => ?_⟩
    have hreg : w.registered = true := by simpa using hreg
    simp only [ensures_ite, ensures_pure, ensures_bind, ensures_modify]
    refine ⟨fun _ => ⟨fun _ => ⟨hself, by simp⟩, fun _ =>
        ⟨hself, fun _ => ⟨trivial, hreg⟩⟩⟩, fun _ =>
      ⟨fun _ => ⟨⟨rfl, rfl⟩, by simp⟩, fun _ => ⟨fun _ => ⟨⟨rfl, rfl⟩, by simp⟩, fun _ => ?_⟩⟩⟩
    refine Ensures.mono (mountDrive_sameHost (w := w) _ ?_) fun r w' h => ⟨h, fun _ =>
      ⟨trivial, hreg⟩⟩
    exact ⟨rfl, rfl⟩

/-- Mounting a mounted volume again does nothing. -/
theorem mountVolume_again (w : State) (path : List UInt8) (mode : UInt8) :
    Ensures (mountVolume path mode) w fun r w' => SameHost w w' ∧
      (r.1 = .ok → w'.geo.fsType ≠ .none → mountVolume path mode w' = some (r, w')) := by
  refine (mountVolume_host w path mode).mono fun r w' ⟨h, hl⟩ => ⟨h, fun hok hf => ?_⟩
  obtain ⟨hl, hreg⟩ := hl hok
  have hr : r = (.ok, r.2) := by rw [← hok]
  rw [hr]
  exact mountVolume_mounted mode (by rw [h.charSigned]; exact hl) (h.registered.trans hreg) hf

/-- What a call that mounts the volume first does: the mount fails, and nothing follows, or it
succeeds, and the call does what it does on the mounted volume. -/
theorem mountThen_again {α : Type} {m : M α} {k : FRESULT × List UInt8 → M α} {path : List UInt8}
    {mode : UInt8} {w w' : State} {a : α} (hm : m = mountVolume path mode >>= k)
    (herr : ∀ r p, r ≠ .ok → ∃ a, k (r, p) = pure a) (h : m w = some (a, w')) :
    ∃ r p w₁, mountVolume path mode w = some ((r, p), w₁) ∧ SameHost w w₁ ∧
      ((r ≠ .ok ∧ w' = w₁) ∨ (r = .ok ∧ (w₁.geo.fsType ≠ .none → m w₁ = some (a, w')))) := by
  subst hm
  obtain ⟨⟨⟨r, p⟩, w₁⟩, h₁, h₂⟩ := Option.bind_eq_some_iff.1 h
  obtain ⟨hs, hagain⟩ := mountVolume_again w path mode _ _ h₁
  refine ⟨r, p, w₁, h₁, hs, ?_⟩
  by_cases hr : r = .ok
  · refine .inr ⟨hr, fun hf => ?_⟩
    show (mountVolume path mode w₁).bind _ = _
    rw [hagain hr hf]
    exact h₂
  · obtain ⟨b, hb⟩ := herr r p hr
    simp only [hb] at h₂
    cases h₂
    exact .inl ⟨hr, rfl⟩

/-- What a call on a blank filesystem object does: nothing to the state, or a mount that fails, or a
mount and then the same call on the mounted volume. -/
def FromBlank (s : Session) (c : Call) (r : FRESULT) (t : Session) : Prop :=
  t.w = s.w ∨ ∃ path mode res p w₁, mountVolume path mode s.w = some ((res, p), w₁) ∧
    ((res ≠ .ok ∧ t.w = w₁) ∨
      (res = .ok ∧ (w₁.geo.fsType ≠ .none → exec (s.step w₁) c = some (r, t))))

/-- With no volume mounted every object is refused. -/
theorem validate_blank {α : Type} {w : State} (hb : w.geo.fsType = .none) {k : FRESULT → M α}
    (fs : Bool) (id : Nat) (ha : ∃ a, k .invalidObject = pure a) :
    Ensures (validate fs id >>= k) w fun _ w' => w' = w := by
  obtain ⟨a, ha⟩ := ha
  simp only [validate, ensures_bind, ensures_get, ensures_pure, hb]
  simp [ha]

/-- With no volume mounted `f_close` does nothing. -/
theorem fClose_blank {w : State} (hb : w.geo.fsType = .none) (fp : FIL) :
    Ensures (fClose fp) w fun _ w' => w' = w := by
  rw [fClose, ensures_bind]
  refine (validate_blank hb fp.fs fp.id ⟨_, rfl⟩ : Ensures (fSync fp) w fun _ w' => w' = w).mono
    fun r w₁ h₁ => ?_
  subst h₁
  rw [ensures_ite]
  exact ⟨fun _ => validate_blank hb _ _ ⟨_, rfl⟩, fun _ => ensures_pure.2 rfl⟩

/-- A call with no volume mounted: it mounts one, or it does nothing. -/
theorem exec_blank {s t : Session} {c : Call} {r : FRESULT} (hb : s.w.geo.fsType = .none)
    (hc : c.OnVolume) (he : exec s c = some (r, t)) : FromBlank s c r t := by
  -- a function that validates its object first returns at once
  have hvalid : ∀ {α : Type} {m : M α} {out : Session → α → FRESULT × Session},
      s.run m out = some (r, t) → (∀ u a, (out u a).2.w = u.w) →
      Ensures m s.w (fun _ w' => w' = s.w) → FromBlank s c r t := by
    intro α m out hrun hout hm
    obtain ⟨b, w, hp, rfl⟩ := Session.run_ensures hm hrun
    refine .inl ?_
    rw [show t = (out (s.step s.w) b).2 from congrArg Prod.snd hp, hout]
    rfl
  -- a function that mounts first
  have hmount : ∀ {α : Type} {m : M α} {k : FRESULT × List UInt8 → M α}
      {out : Session → α → FRESULT × Session} {path : List UInt8} {mode : UInt8},
      s.run m out = some (r, t) → (∀ u a, (out u a).2.w = u.w) →
      (∀ w₁, SameHost s.w w₁ → exec (s.step w₁) c = (s.step w₁).run m out) →
      m = mountVolume path mode >>= k →
      (∀ r p, r ≠ .ok → ∃ a, k (r, p) = pure a) → FromBlank s c r t := by
    intro α m k out path mode hrun hout hagain hm herr
    obtain ⟨⟨a, w⟩, hmw, hp⟩ := Option.map_eq_some_iff.1 hrun
    obtain ⟨res, p, w₁, h₁, hs, hor⟩ := mountThen_again hm herr hmw
    refine .inr ⟨path, mode, res, p, w₁, h₁, hor.imp (And.imp_right fun h => ?_) (And.imp_right
      fun h hf => ?_)⟩
    · rw [show t = (out (s.step w) a).2 from congrArg Prod.snd hp.symm, hout]
      exact h
    · rw [hagain w₁ hs]
      show (m w₁).map _ = _
      rw [h hf]
      exact congrArg some hp
  cases c with
  | mount fs path opt => exact absurd hc id
  | opendir d path =>
    rw [exec] at he
    exact hmount he (fun _ _ => rfl) (fun _ _ => by rw [exec]; rfl) rfl fun r p h => ⟨_, if_neg h⟩
  | stat path fno =>
    rw [exec] at he
    exact hmount he (fun _ _ => rfl) (fun _ _ => by rw [exec]) rfl fun r p h => ⟨_, if_neg h⟩
  | «open» f path mode =>
    rw [exec] at he
    exact hmount he (fun _ _ => rfl) (fun _ _ => by rw [exec]; rfl) rfl fun r p h => ⟨_, if_neg h⟩
  | unlink path =>
    rw [exec] at he
    exact hmount he (fun _ _ => rfl) (fun _ _ => by rw [exec]) rfl fun r p h => ⟨_, if_neg h⟩
  | mkdir path =>
    rw [exec] at he
    exact hmount he (fun _ _ => rfl) (fun _ _ => by rw [exec]) rfl fun r p h => ⟨_, if_neg h⟩
  | getfree path =>
    rw [exec] at he
    exact hmount he (fun _ _ => rfl) (fun _ _ => by rw [exec]) rfl fun r p h => ⟨_, if_neg h⟩
  | rename pathOld pathNew =>
    -- the new path is analysed before the mount
    have heq : ∀ w₁, SameHost s.w w₁ → fRename pathOld pathNew w₁ =
        (mountVolume pathOld FA_WRITE >>= fun r => if r.1 = .ok then
          renameObject r.2 (getLdnumber s.w.charSigned pathNew).2 else pure r.1)
          w₁ := fun w₁ h => by
      rw [fRename, get_bind_apply, h.charSigned]
    have hrun : ∀ w₁, SameHost s.w w₁ → ∀ out, (s.step w₁).run (fRename pathOld pathNew) out =
        (s.step w₁).run (mountVolume pathOld FA_WRITE >>= fun r => if r.1 = .ok then
          renameObject r.2 (getLdnumber s.w.charSigned pathNew).2 else pure r.1) out :=
      fun w₁ h out => congrArg (Option.map _) (heq w₁ h)
    rw [exec, show s = s.step s.w from rfl, hrun s.w ⟨rfl, rfl⟩] at he
    exact hmount he (fun _ _ => rfl) (fun w₁ h => by rw [exec]; exact hrun w₁ h _) rfl
      fun r p h => ⟨_, if_neg h⟩
  | readdir d fno =>
    rw [exec] at he
    exact hvalid he (fun _ _ => rfl) (validate_blank hb _ _ ⟨_, rfl⟩)
  | rewinddir d =>
    rw [exec] at he
    exact hvalid he (fun _ _ => rfl) (validate_blank hb _ _ ⟨_, rfl⟩)
  | closedir d =>
    rw [exec] at he
    exact hvalid he (fun _ _ => rfl) (validate_blank hb _ _ ⟨_, rfl⟩)
  | read f btr =>
    rw [exec] at he
    exact hvalid he (fun _ _ => rfl) (validate_blank hb _ _ ⟨_, rfl⟩)
  | write f buff =>
    rw [exec] at he
    exact hvalid he (fun _ _ => rfl) (validate_blank hb _ _ ⟨_, rfl⟩)
  | lseek f ofs =>
    rw [exec] at he
    exact hvalid he (fun _ _ => rfl) (validate_blank hb _ _ ⟨_, rfl⟩)
  | truncate f =>
    rw [exec] at he
    exact hvalid he (fun _ _ => rfl) (validate_blank hb _ _ ⟨_, rfl⟩)
  | sync f =>
    rw [exec] at he
    exact hvalid he (fun _ _ => rfl) (validate_blank hb _ _ ⟨_, rfl⟩)
  | close f =>
    rw [exec] at he
    exact hvalid he (fun _ _ => rfl) (fClose_blank hb _)

end FatFs
