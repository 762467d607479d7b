import FatFs.Handle.Host
import FatFs.Placed.Calls
import FatFs.Total.Runs

/-!
# Stale handles

An object carries the mount ID of its volume, and every function on it compares this with the ID of
the mounted volume. The ID comes from the 16-bit counter `Fsid`, which every successful mount
advances, so an object that was opened before the last mount is refused (`stale_refused`) unless the
number of mounts since it was opened is a multiple of 65536: then it is accepted again
(`stale_accepted`). A run here may also call `f_mkfs`.
-/

namespace FatFs

open Run

/-! ## Mounting -/

/-- The volume was mounted: the counter is advanced and the layout has its value. -/
structure MountHost (w w' : State) : Prop where
  fsid : w'.fsid = (w.fsid + 1) % 65536
  id : w'.geo.id = w'.fsid
  mounted : w'.geo.fsType ≠ .none
  registered : w'.registered = true

/-- No volume was mounted: the counter and the mount ID are kept, and the registration of a volume
that is still mounted. -/
structure StillHost (w w' : State) : Prop where
  fsid : w'.fsid = w.fsid
  id : w'.geo.id = w.geo.id
  mounted : w'.geo.fsType ≠ .none → w.geo.fsType ≠ .none
  registered : w'.geo.fsType ≠ .none → w'.registered = w.registered

/-- With the same host no volume was mounted. -/
theorem StillHost.of_host {w w' : State} (h : w'.host = w.host) : StillHost w w' := by
  have hg : w'.geo = w.geo := congrArg Host.geo h
  have hn : w'.fsid = w.fsid := congrArg Host.fsid h
  exact ⟨hn, by rw [hg], by rw [hg]; exact fun hne => hne, fun _ => congrArg Host.registered h⟩

/-- Two steps without a mount. -/
theorem StillHost.trans {w w₁ w' : State} (h : StillHost w w₁) (h' : StillHost w₁ w') :
    StillHost w w' :=
  ⟨h'.fsid.trans h.fsid, h'.id.trans h.id, fun hne => h.mounted (h'.mounted hne),
    fun hne => (h'.registered hne).trans (h.registered (h'.mounted hne))⟩

/-- What a function that may mount the volume does to the host. -/
def StepHost (w w' : State) : Prop :=
  w'.host = w.host ∨ (w.geo.fsType = .none ∧ MountHost w w')

section
variable {h : Host}

/-- `check_fs` keeps the host. -/
theorem checkFs_host (s : Nat) : Keeps (OnHost h) (checkFs s) := by
  unfold checkFs
  exact .bind (.modify fun _ h => h) fun _ => .bind (moveWindow_host _) fun _ => .ite
    (fun _ => .pure _) fun _ => .get fun _ _ => .pure _

/-- The search through the partitions keeps the host. -/
theorem tryParts_host : ∀ pts, Keeps (OnHost h) (tryParts pts)
  | [] => .pure _
  | _ :: pts => by
    unfold tryParts
    exact .bind (.ite (fun _ => checkFs_host _) fun _ => .pure _) fun _ => .ite
      (fun _ => tryParts_host pts) fun _ => .pure _

/-- The search for a volume keeps the host. -/
theorem findVolume_host : Keeps (OnHost h) findVolume := by
  unfold findVolume
  exact .bind (checkFs_host _) fun _ => .ite (fun _ => .pure _) fun _ => .get fun _ _ =>
    tryParts_host _

/-- The reading of the FSInfo record keeps the host. -/
theorem loadFsInfo_host (fmt : FsType) (s : Sector) (b : Nat) :
    Keeps (OnHost h) (loadFsInfo fmt s b) := by
  unfold loadFsInfo
  refine .bind (.modify fun _ h => h) fun _ => .ite (fun _ =>
    .bind (moveWindow_host _) fun _ => .ite
    (fun _ => .modify fun w hw => ?_) fun _ => .pure _) fun _ => .pure _
  split
  · exact hw
  · exact hw

end

/-- Mounting the drive fails without a trace in the host, or advances the counter. -/
theorem mountDrive_host (w : State) (hreg : w.registered = true) : Ensures mountDrive w fun r w' =>
    (r ≠ .ok ∧ w'.host = w.host) ∨ (r = .ok ∧ MountHost w w') := by
  rw [mountDrive, ensures_bind]
  refine (findVolume_host w rfl).mono fun r w₁ h₁ => ?_
  simp only [ensures_ite, ensures_pure, ensures_bind, ensures_get]
  refine ⟨fun _ => .inl ⟨by simp, h₁⟩, fun _ => ⟨fun _ => .inl ⟨by simp, h₁⟩, fun _ => ?_⟩⟩
  cases hg : readBPB w₁.win w₁.winsect with
  | none => exact ensures_pure.2 (.inl ⟨by simp, h₁⟩)
  | some g =>
    simp only [ensures_bind, ensures_modify, ensures_pure]
    refine (loadFsInfo_host g.fsType w₁.win w₁.winsect w₁ h₁).mono fun _ w₂ h₂ => .inr ⟨trivial, ?_⟩
    have hn : w₁.fsid = w.fsid := congrArg Host.fsid h₁
    refine ⟨by rw [hn], rfl, ?_, (congrArg Host.registered h₂).trans hreg⟩
    show g.fsType ≠ .none
    unfold readBPB at hg
    split at hg
    · rename_i hv
      cases hg
      exact hv.2.2.2.2.2.2.2.1
    · cases hg

/-- `mount_volume` mounts a volume if none is mounted, and succeeds only with one mounted. -/
theorem mountVolume_stepHost (path : List UInt8) (mode : UInt8) (w : State) :
    Ensures (mountVolume path mode) w fun r w' =>
      StepHost w w' ∧ (r.1 = .ok → w'.geo.fsType ≠ .none) ∧
        (r.1 = .ok → w.geo.fsType = .none → MountHost w w') ∧
        (r.1 ≠ .ok → w'.host = w.host) := by
  rw [mountVolume, ensures_bind, ensures_get]
  obtain ⟨known, rest⟩ := getLdnumber w.charSigned path
  cases known with
  | false => exact ensures_pure.2 ⟨.inl rfl, by simp, by simp, fun _ => rfl⟩
  | true =>
    simp only [ensures_ite, ensures_pure, ensures_bind, ensures_modify]
    refine ⟨fun _ => ⟨.inl rfl, by simp, by simp, fun _ => trivial⟩, fun hreg => ⟨fun hm =>
      ⟨fun _ => ⟨.inl rfl, by simp, by simp, fun _ => trivial⟩, fun _ => ⟨.inl rfl, fun _ => hm.1,
        fun _ hb => absurd hb hm.1, fun _ => trivial⟩⟩, fun hm => ?_⟩⟩
    have hb : w.geo.fsType = .none := by
      by_contra hne
      exact hm ⟨hne, rfl⟩
    have hgeo : { w.geo with fsType := .none } = w.geo := by rw [← hb]
    rw [hgeo]
    refine ⟨by simp [diskInitialize], fun _ => ⟨by simp [diskInitialize], fun _ => ?_⟩⟩
    refine (mountDrive_host w (by simpa using hreg)).mono fun r w' h => ?_
    rcases h with ⟨hne, hh⟩ | ⟨hok, hh⟩
    · exact ⟨.inl hh, fun h => absurd h hne, fun h => absurd h hne, fun _ => hh⟩
    · exact ⟨.inr ⟨hb, hh⟩, fun _ => hh.mounted, fun _ _ => hh, fun h => absurd hok h⟩

/-- A function that mounts the volume first. Its result has the property `R` of the host. -/
theorem mountThen_host {α : Type} {R : Host → α → Prop} {k : FRESULT × List UInt8 → M α}
    (path : List UInt8) (mode : UInt8) (w : State)
    (hk : ∀ p h, h.geo.fsType ≠ .none → Yields (OnHost h) (R h) (k (.ok, p)))
    (herr : ∀ res p, res ≠ .ok → ∃ a, k (res, p) = pure a ∧ ∀ h, R h a) :
    Ensures (mountVolume path mode >>= k) w fun a w' => StepHost w w' ∧ R w'.host a := by
  rw [ensures_bind]
  refine (mountVolume_stepHost path mode w).mono fun r w₁ ⟨h₁, hm, _, _⟩ => ?_
  obtain ⟨res, p⟩ := r
  by_cases hok : res = .ok
  · subst hok
    refine (hk p w₁.host (hm rfl) w₁ rfl).mono fun a w₂ ⟨h₂, ha⟩ => ?_
    have he : w₂.host = w₁.host := h₂
    refine ⟨?_, by rw [he]; exact ha⟩
    rcases h₁ with h₁ | ⟨hb, h₁⟩
    · exact .inl (he.trans h₁)
    · have hg : w₂.geo = w₁.geo := congrArg Host.geo he
      have hn : w₂.fsid = w₁.fsid := congrArg Host.fsid he
      exact .inr ⟨hb, by rw [hn]; exact h₁.fsid, by rw [hg, hn]; exact h₁.id, by
        rw [hg]
        exact h₁.mounted, (congrArg Host.registered he).trans h₁.registered⟩
  · obtain ⟨a, ha, hR⟩ := herr res p hok
    rw [ha]
    exact ensures_pure.2 ⟨h₁, hR _⟩

/-- The same for a function whose result does not matter. -/
theorem mountThen_step {α : Type} {k : FRESULT × List UInt8 → M α} (path : List UInt8)
    (mode : UInt8) (w : State) (hk : ∀ p h, Keeps (OnHost h) (k (.ok, p)))
    (herr : ∀ res p, res ≠ .ok → ∃ a, k (res, p) = pure a) :
    Ensures (mountVolume path mode >>= k) w fun _ w' => StepHost w w' := by
  refine (mountThen_host (R := fun _ _ => True) path mode w
    (fun p h _ => ?_) fun res p hne => ?_).mono
    fun _ _ h => h.1
  · exact fun u hu => (hk p h u hu).mono fun _ _ h' => ⟨h', trivial⟩
  · obtain ⟨a, ha⟩ := herr res p hne
    exact ⟨a, ha, fun _ => trivial⟩

/-! ## The calls -/

section
variable {h : Host}

/-- The emptying of an existing file keeps the host. -/
theorem truncEntry_host (dj : DIR) : Keeps (OnHost h) (truncEntry dj) := by
  unfold truncEntry
  exact .get fun _ _ => .bind (modWin_host _) fun _ => .ite (fun _ => .bind (removeChain_host _ _)
    fun _ => .ite (fun _ => .bind (moveWindow_host _) fun _ => .bind
      (.modify fun _ hw => hw.of_eq rfl) fun _ => .pure _) fun _ => .pure _) fun _ => .pure _

/-- `f_open` with a creating mode keeps the host after the mount. -/
theorem openCreate_host (res : FRESULT) (dj : DIR) (mode : UInt8) :
    Keeps (OnHost h) (openCreate res dj mode) := by
  unfold openCreate
  exact .ite (fun _ => .ite (fun _ => .bind (dirRegister_host _).keeps fun _ => .ite (fun _ => .bind
    (truncEntry_host _) fun _ => .pure _) fun _ => .pure _) fun _ => .pure _) fun _ => .ite
      (fun _ => .pure _) fun _ => .ite (fun _ => .pure _) fun _ => .ite (fun _ => .bind
        (truncEntry_host _) fun _ => .pure _) fun _ => .pure _

/-- The walk to the end of the file keeps the host and the handle. -/
theorem appendSeek_host (fp : FIL) : Yields (OnHost h) (HasFil' fp.handle) (appendSeek fp) := by
  have hround : ∀ bcs p, Keeps (OnHost h) (appendRound bcs p) := fun _ _ => by
    unfold appendRound
    exact .ite (fun _ => .bind (getFat_host _) fun _ => .ite (fun _ => .pure _) fun _ => .ite
      (fun _ => .pure _) fun _ => .pure _) fun _ => .pure _
  unfold appendSeek
  exact .get fun _ _ => (Keeps.loop (hround _) _ _).then fun _ => .ite (fun _ => .ite
    (fun _ => .pure rfl) fun _ => .pure rfl) fun _ => .pure rfl

/-- A file object that was opened has the ID of the mounted volume. -/
theorem openFil_host (fp : FIL) (dj : DIR) (mode : UInt8) :
    Yields (OnHost h) (HasFil' ⟨true, h.geo.id⟩) (openFil fp dj mode) := by
  unfold openFil
  refine .get fun w hw => ?_
  have hg : w.geo = h.geo := congrArg Host.geo hw
  rw [← hg]
  exact .ite (fun _ => appendSeek_host _) fun _ => .pure rfl

/-- `f_open` may mount the volume, and gives the file object the mount ID. -/
theorem fOpen_host (fp : FIL) (path : List UInt8) (mode : UInt8) (w : State) :
    Ensures (fOpen fp path mode) w fun r w' => StepHost w w' ∧
      (r.1 = .ok → r.2.handle = ⟨true, w'.geo.id⟩ ∧ w'.geo.fsType ≠ .none) := by
  unfold fOpen
  refine mountThen_host (R := fun h r => r.1 = .ok → r.2.handle = ⟨true, h.geo.id⟩ ∧
    h.geo.fsType ≠ .none) path _ w (fun p h hm => ?_) fun res p hne =>
      ⟨(res, { fp with fs := false }), ?_, fun _ hok => absurd hok hne⟩
  · refine .ite (fun _ => (followPath_host _ _).keeps.then fun r => ?_) fun h => absurd rfl h
    refine (Keeps.ite (fun _ => openCreate_host _ _ _) fun _ => .pure _).then fun q => .ite
      (fun _ => .bind (openFil_host fp q.2.1 q.2.2) fun o ho => .pure fun hok => ?_) fun hne =>
        .pure fun hok => absurd hok hne
    refine ⟨?_, hm⟩
    rw [if_neg (not_not.2 hok)]
    exact ho
  · exact if_neg hne

/-- `f_opendir` may mount the volume, and gives the directory object the mount ID. -/
theorem fOpendir_host (dp : DIR) (path : List UInt8) (w : State) :
    Ensures (fOpendir dp path) w fun r w' => StepHost w w' ∧
      (r.1 = .ok → r.2.handle = ⟨true, w'.geo.id⟩ ∧ w'.geo.fsType ≠ .none) := by
  unfold fOpendir
  refine mountThen_host (R := fun h r => r.1 = .ok → r.2.handle = ⟨true, h.geo.id⟩ ∧
    h.geo.fsType ≠ .none) path _ w (fun p h hm => ?_) fun res p hne =>
      ⟨(res, { dp with fs := false }), ?_, fun _ hok => absurd hok hne⟩
  · refine .ite (fun _ => .bind (followPath_host { dp with fs := true } p) fun r hr => ?_) fun h =>
      absurd rfl h
    refine .ite (fun _ => .get fun w hw => ?_) fun hne => .pure fun hok => ?_
    · have hg : w.geo = h.geo := congrArg Host.geo hw
      have hfs : r.2.fs = true := congrArg Handle.fs hr
      refine .ite (fun _ => .pure fun hok => by cases hok) fun _ => ?_
      refine .bind (R := HasDir ⟨true, h.geo.id⟩) ?_ fun q hq => .pure fun hok => ⟨?_, hm⟩
      · have hdir : ∀ dp' : DIR, dp'.handle = ⟨true, h.geo.id⟩ →
            Yields (OnHost h) (HasDir ⟨true, h.geo.id⟩) (dirSdi dp' 0) := fun dp' h' => by
          rw [← h']
          exact dirSdi_host dp' 0
        refine hdir _ ?_
        split
        · rw [DIR.handle, hfs, hg]
        · rw [DIR.handle, hfs, hg]
      · have hq1 : q.1 = .ok := by
          by_contra hne
          by_cases hnf : q.1 = .noFile
          · simp [hnf] at hok
          · exact hne (by simpa [hnf] using hok)
        rw [if_neg (not_not.2 hq1)]
        exact hq
    · by_cases hnf : r.1 = .noFile
      · simp [hnf] at hok
      · exact absurd (by simpa [hnf] using hok) hne
  · exact if_neg hne

/-- A function that mounts first and then works on the volume. -/
theorem fStat_host (path : List UInt8) (fno : FILINFO) (w : State) :
    Ensures (fStat path fno) w fun _ w' => StepHost w w' := by
  unfold fStat
  refine mountThen_step path _ w (fun p h => ?_) fun res p hne => ⟨_, if_neg hne⟩
  exact .ite (fun _ =>
    .bind (followPath_host _ _).keeps fun _ => .ite (fun _ => .ite (fun _ => .pure _)
    fun _ => .get fun _ _ => .pure _) fun _ => .pure _) fun _ => .pure _

/-- `f_getfree` may mount the volume. -/
theorem fGetfree_host (path : List UInt8) (w : State) :
    Ensures (fGetfree path) w fun _ w' => StepHost w w' := by
  have h12 : ∀ {h : Host} p, Keeps (OnHost h) (free12Round p) := fun _ => by
    unfold free12Round
    exact .bind (getFat_host _) fun _ => .ite (fun _ => .pure _) fun _ => .ite (fun _ => .pure _)
      fun _ => .get fun _ _ => .ite (fun _ => .pure _) fun _ => .pure _
  have hscan : ∀ {h : Host} p, Keeps (OnHost h) (freeRound p) := fun _ => by
    unfold freeRound
    exact .bind (.ite (fun _ => moveWindow_host _) fun _ => .pure _) fun _ =>
      .ite (fun _ => .pure _)
      fun _ => .get fun _ _ => .ite (fun _ => .pure _) fun _ => .pure _
  unfold fGetfree
  refine mountThen_step path _ w (fun p h => ?_) fun res p hne => ⟨_, if_neg hne⟩
  refine .ite (fun _ => .get fun _ _ => .ite (fun _ => .pure _) fun _ => .bind (.ite
    (fun _ => .loop h12 _ _) fun _ => .loop hscan _ _) fun r => ?_) fun _ => .pure _
  cases r with
  | error res => exact .pure _
  | ok nfree => exact .bind (.modify fun _ hw => hw.of_eq rfl) fun _ => .pure _

/-- The test whether a directory is empty keeps the host. -/
theorem dirEmpty_host (dclst : Nat) : Keeps (OnHost h) (dirEmpty dclst) := by
  unfold dirEmpty
  exact .bind (dirSdi_host _ _).keeps fun _ => .ite (fun _ => .bind (dirRead_host _ _).keeps
    fun _ => .pure _) fun _ => .pure _

/-- `f_unlink` may mount the volume. -/
theorem fUnlink_host (path : List UInt8) (w : State) :
    Ensures (fUnlink path) w fun _ w' => StepHost w w' := by
  unfold fUnlink
  refine mountThen_step path _ w (fun p h => ?_) fun res p hne => ⟨_, if_neg hne⟩
  exact .ite (fun _ =>
    .bind (followPath_host _ _).keeps fun _ => .ite (fun _ => .ite (fun _ => .pure _)
    fun _ => .ite (fun _ => .pure _) fun _ => .get fun _ _ => .bind (.ite (fun _ => dirEmpty_host _)
      fun _ => .pure _) fun _ => .ite (fun _ =>
        .bind (dirRemove_host _) fun _ => .ite (fun _ => .bind
        (.ite (fun _ => removeChain_host _ _) fun _ => .pure _) fun _ => .ite (fun _ => syncFs_host)
          fun _ => .pure _) fun _ => .pure _) fun _ => .pure _) fun _ => .pure _) fun _ => .pure _

/-- The building of the new table keeps the host. -/
theorem mkdirTable_host (dj : DIR) (dcl : Nat) : Keeps (OnHost h) (mkdirTable dj dcl) := by
  unfold mkdirTable
  exact .bind (dirClear_host _) fun _ => .ite (fun _ => .get fun _ _ => .bind (modWin_host _)
    fun _ => (dirRegister_host _).keeps) fun _ => .pure _

/-- `f_mkdir` may mount the volume. -/
theorem fMkdir_host (path : List UInt8) (w : State) :
    Ensures (fMkdir path) w fun _ w' => StepHost w w' := by
  unfold fMkdir
  refine mountThen_step path _ w (fun p h => ?_) fun res p hne => ⟨_, if_neg hne⟩
  exact .ite (fun _ =>
    .bind (followPath_host _ _).keeps fun _ => .ite (fun _ => .pure _) fun _ => .ite
    (fun _ => .bind (createChain_host _) fun _ => .bind (.ite (fun _ => .pure _) fun _ => .ite
      (fun _ => .pure _) fun _ => .ite (fun _ => .pure _) fun _ =>
        mkdirTable_host _ _) fun _ => .ite
        (fun _ => .get fun _ _ => .bind (modWin_host _) fun _ => syncFs_host) fun _ => .bind
          (removeChain_host _ _) fun _ => .pure _) fun _ => .pure _) fun _ => .pure _

/-- The rewriting of the `..` entry keeps the host. -/
theorem renameDotDot_host (clst pcl : Nat) : Keeps (OnHost h) (renameDotDot clst pcl) := by
  unfold renameDotDot
  exact .get fun _ _ => .ite (fun _ => .pure _) fun _ => .bind (moveWindow_host _) fun _ => .get
    fun _ _ => .ite (fun _ => .bind (modWin_host _) fun _ => .pure _) fun _ => .pure _

/-- The registration of the new name keeps the host. -/
theorem renameEnter_host (djo djn : DIR) (buf : List UInt8) :
    Keeps (OnHost h) (renameEnter djo djn buf) := by
  unfold renameEnter
  exact .bind (dirRegister_host _).keeps fun _ => .ite (fun _ => .bind (modWin_host _) fun _ => .get
    fun _ _ => .ite (fun _ => renameDotDot_host _ _) fun _ => .pure _) fun _ => .pure _

/-- `f_rename` may mount the volume. -/
theorem fRename_host (pathOld pathNew : List UInt8) (w : State) :
    Ensures (fRename pathOld pathNew) w fun _ w' => StepHost w w' := by
  unfold fRename
  rw [ensures_bind, ensures_get]
  refine mountThen_step pathOld _ w (fun p h => ?_) fun res p hne => ⟨_, if_neg hne⟩
  refine .ite (fun _ => ?_) fun _ => .pure _
  unfold renameObject
  exact .bind (followPath_host _ _).keeps fun _ =>
    .ite (fun _ => .ite (fun _ => .pure _) fun _ => .get
    fun _ _ => .bind (followPath_host _ _).keeps fun _ =>
      .bind (.ite (fun _ => renameEnter_host _ _ _)
      fun _ => .pure _) fun _ => .ite (fun _ => .bind (dirRemove_host _) fun _ => .ite
        (fun _ => syncFs_host) fun _ => .pure _) fun _ => .pure _) fun _ => .pure _

/-! ## Registering, unregistering and formatting -/

/-- `f_mount` mounts a volume exactly when it is forced to and succeeds. -/
theorem fMount_host (fs : Bool) (path : List UInt8) (opt : Nat) (w : State) :
    Ensures (fMount fs path opt) w fun r w' =>
      (opt ≠ 0 ∧ r = .ok → MountHost w w') ∧ (¬(opt ≠ 0 ∧ r = .ok) → StillHost w w') := by
  have hstill : StillHost w w := .of_host rfl
  rw [fMount, ensures_bind, ensures_get]
  obtain ⟨known, rest⟩ := getLdnumber w.charSigned path
  cases known with
  | false => exact ensures_pure.2 ⟨by simp, fun _ => hstill⟩
  | true =>
    simp only [ensures_bind, ensures_modify, ensures_ite, ensures_pure]
    generalize hu : (if w.registered = true ∨ fs = true then
      { w with registered := fs, geo := { w.geo with fsType := .none } } else w) = u
    have hblank : StillHost w u ∧ (u.registered = true → u.geo.fsType = .none) := by
      subst hu
      split
      · exact ⟨⟨rfl, rfl, fun h => absurd rfl h, fun h => absurd rfl h⟩, fun _ => rfl⟩
      · rename_i hr
        exact ⟨hstill, fun h => absurd (.inl h) hr⟩
    refine ⟨fun h0 => ⟨fun h => absurd h0 h.1, fun _ => hblank.1⟩, fun h0 => ?_⟩
    refine ((mountVolume_stepHost path 0 u).and (mountVolume_host u path 0)).mono
      fun r w' hpost => ?_
    obtain ⟨⟨_, _, hm, he⟩, _, hreg⟩ := hpost
    refine ⟨fun h => ?_, fun h => ?_⟩
    · have hm := hm h.2 (hblank.2 (hreg h.2).2)
      exact ⟨by rw [hm.fsid, hblank.1.fsid], hm.id, hm.mounted, hm.registered⟩
    · exact hblank.1.trans (.of_host (he fun hok => h ⟨h0, hok⟩))

end

section
variable {I : State → Prop} (hwrite : ∀ buff s c, Keeps I (diskWrite buff s c))

include hwrite

/-! The functions of `f_mkfs` keep what a write to the device keeps. -/

/-- The filling of an area writes to the device only. -/
theorem fillArea_keeps (szBuf sect nsect : Nat) (hd : Sector) :
    Keeps I (fillArea szBuf sect nsect hd) := by
  unfold fillArea
  refine .loop (fun p => ?_) _ _
  unfold fillRound
  exact .bind (hwrite _ _ _) fun _ => .ite (fun _ => .pure _) fun _ => .ite (fun _ => .pure _)
    fun _ => .pure _

/-- The filling of the FATs writes to the device only. -/
theorem fillFats_keeps (szBuf : Nat) (l : MkfsLayout) : ∀ k sect, Keeps I (fillFats szBuf l k sect)
  | 0, _ => .pure _
  | k + 1, sect => by
    unfold fillFats
    refine .bind (fillArea_keeps hwrite _ _ _ _) fun r => ?_
    cases r with
    | error res => exact .pure _
    | ok sect => exact fillFats_keeps szBuf l k sect

/-- The writing of the volume writes to the device only. -/
theorem writeVolume_keeps (szBuf : Nat) (e : MkfsEnv) (l : MkfsLayout) :
    Keeps I (writeVolume szBuf e l) := by
  have hinfo : Keeps I (writeFat32Info e l) := by
    unfold writeFat32Info
    exact .bind (hwrite _ _ _) fun _ => .bind (hwrite _ _ _) fun _ =>
      .bind (hwrite _ _ _) fun _ => .pure _
  unfold writeVolume
  refine .bind (hwrite _ _ _) fun _ => .ite (fun _ => .pure _) fun _ => .ite
    (fun _ => .bind hinfo fun _ => ?_) fun _ => ?_
  -- the FATs and the root directory are filled in the same way on every volume
  all_goals
    refine .bind (fillFats_keeps hwrite _ _ _ _) fun r => ?_
    cases r with
    | error res => exact .pure _
    | ok sect =>
      refine .bind (fillArea_keeps hwrite _ _ _ _) fun r => ?_
      cases r with
      | error res => exact .pure _
      | ok _ => exact .pure _

/-- The writing of the partition table writes to the device only. -/
theorem createPartition_keeps (plst : List Nat) (sys : Nat) :
    Keeps I (createPartition plst sys) := by
  unfold createPartition
  exact .get fun _ _ => .bind (hwrite _ _ _) fun _ => .pure _

/-- The state in which `f_mkfs` starts to write: a registered filesystem object has no volume
mounted. -/
def State.unmounted (w : State) : State :=
  if w.registered = true then { w with geo := { w.geo with fsType := .none } } else w

/-- `f_mkfs` does nothing, or it only writes to the device after it has unmounted the volume. -/
theorem fMkfs_keeps (path : List UInt8) (opt : Option MKFS_PARM) (len : Option Nat) {w : State}
    (hw : I w.unmounted) : Ensures (fMkfs path opt len) w fun _ w' => w' = w ∨ I w' := by
  rw [fMkfs, ensures_bind, ensures_get]
  obtain ⟨known, rest⟩ := getLdnumber w.charSigned path
  cases known with
  | false => exact ensures_pure.2 (.inl rfl)
  | true =>
    simp only [ensures_bind, ensures_modify]
    have hrest : ∀ {m : M FRESULT}, Keeps I m →
        Ensures m w.unmounted fun _ w' => w' = w ∨ I w' := fun hm =>
      (hm _ hw).mono fun _ _ h => .inr h
    refine hrest (.ite (fun _ => .pure _) fun _ => .ite (fun _ => .pure _) fun _ => .ite
      (fun _ => .pure _) fun _ => .ite (fun _ => .pure _) fun _ => .ite (fun _ => .pure _) fun _ =>
        .bind (.loop (fun _ => .pure _) _ _) fun r => ?_)
    cases r with
    | error res => exact .pure _
    | ok l =>
      exact .bind (writeVolume_keeps hwrite _ _ _) fun _ => .ite (fun _ => .pure _) fun _ =>
        .bind (.ite (fun _ => .pure _) fun _ => createPartition_keeps hwrite _ _) fun _ =>
          .ite (fun _ => .pure _) fun _ => .bind (.pure _) fun _ => .pure _

end

/-- An unmounted volume keeps the counter and the mount ID. -/
theorem State.unmounted_still (w : State) : StillHost w w.unmounted := by
  unfold State.unmounted
  split
  · exact ⟨rfl, rfl, fun h => absurd rfl h, fun h => absurd rfl h⟩
  · exact .of_host rfl

/-- `f_mkfs` unmounts the volume and mounts none. -/
theorem fMkfs_host (path : List UInt8) (opt : Option MKFS_PARM) (len : Option Nat) (w : State) :
    Ensures (fMkfs path opt len) w fun _ w' => StillHost w w' := by
  refine (fMkfs_keeps (I := OnHost w.unmounted.host) diskWrite_host path opt len rfl).mono
    fun _ w' h => ?_
  rcases h with rfl | h
  · exact .of_host rfl
  · exact w.unmounted_still.trans (.of_host h)

/-! ## Runs with mounts -/

/-- A step of a program: a call of the interface, or `f_mkfs`. -/
inductive Act
  | call (c : Call)
  | mkfs (path : List UInt8) (opt : Option MKFS_PARM) (len : Option Nat)

/-- Make the step; `none` when it does not return. -/
def Act.exec (s : Session) : Act → Option (FRESULT × Session)
  | .call c => FatFs.exec s c
  | .mkfs path opt len => s.run (fMkfs path opt len) fun t r => (r, t)

/-- The step mounted the volume: `f_mount` was asked to do so and succeeded, or another function
found the filesystem object blank and left a volume mounted. -/
def Act.Mounts (s : Session) (a : Act) (r : FRESULT) (t : Session) : Prop :=
  match a with
  | .call (.mount _ _ opt) => opt ≠ 0 ∧ r = .ok
  | .call _ => s.w.geo.fsType = .none ∧ t.w.geo.fsType ≠ .none
  | .mkfs _ _ _ => False

/-- A file or directory object of the application. -/
inductive Obj
  | file (f : Nat)
  | dir (d : Nat)
  deriving DecidableEq

/-- The handle in the object. -/
def Obj.handle (s : Session) : Obj → Handle
  | .file f => (s.files f).handle
  | .dir d => (s.dirs d).handle

/-- The step opens the object. -/
def Act.Opens (o : Obj) : Act → Prop
  | .call (.open f _ _) => o = .file f
  | .call (.opendir d _) => o = .dir d
  | _ => False

/-- The functions on an open object. -/
def Call.Uses (o : Obj) : Call → Prop
  | .read f _ => o = .file f
  | .write f _ => o = .file f
  | .lseek f _ => o = .file f
  | .truncate f => o = .file f
  | .sync f => o = .file f
  | .close f => o = .file f
  | .readdir d _ => o = .dir d
  | .rewinddir d => o = .dir d
  | .closedir d => o = .dir d
  | _ => False

/-- `Steps P s n t`: a run of steps with `P` leads from `s` to `t` and mounts the volume `n`
times. -/
inductive Steps (P : Act → Prop) (s : Session) : Nat → Session → Prop
  | refl : Steps P s 0 s
  | still {n : Nat} {t u : Session} {a : Act} {r : FRESULT} : Steps P s n t → P a →
      a.exec t = some (r, u) → ¬a.Mounts t r u → Steps P s n u
  | mount {n : Nat} {t u : Session} {a : Act} {r : FRESULT} : Steps P s n t → P a →
      a.exec t = some (r, u) → a.Mounts t r u → Steps P s (n + 1) u

/-- The sessions that a run of steps reaches from `s` when every step satisfies `P` in the session
it is made in. -/
inductive Visits (P : Session → Act → Prop) (s : Session) : Session → Prop
  | refl : Visits P s s
  | step {t u : Session} {a : Act} {r : FRESULT} : Visits P s t → P t a → a.exec t = some (r, u) →
      Visits P s u

/-- A run that goes on with a call. -/
theorem Visits.call {P : Session → Act → Prop} {s t u : Session} {c : Call} {r : FRESULT}
    (h : Visits P s t) (hc : P t (.call c)) (he : exec t c = some (r, u)) : Visits P s u :=
  .step (a := .call c) h hc he

/-- What one step does to the host. -/
structure StepSpec (s : Session) (a : Act) (r : FRESULT) (t : Session) : Prop where
  mount : a.Mounts s r t → MountHost s.w t.w
  still : ¬a.Mounts s r t → StillHost s.w t.w
  /-- The mount ID in an object is kept unless the step opens it. -/
  id : ∀ o, ¬a.Opens o → (o.handle t).id = (o.handle s).id

/-- A function that mounts the volume if needed. -/
theorem StepHost.spec {w w' : State} (h : StepHost w w') :
    ((w.geo.fsType = .none ∧ w'.geo.fsType ≠ .none) → MountHost w w') ∧
      (¬(w.geo.fsType = .none ∧ w'.geo.fsType ≠ .none) → StillHost w w') := by
  rcases h with h | ⟨hb, h⟩
  · have hs := StillHost.of_host h
    exact ⟨fun hm => absurd hm.1 (hs.mounted hm.2), fun _ => hs⟩
  · exact ⟨fun _ => h, fun hn => absurd ⟨hb, h.mounted⟩ hn⟩

/-- A file object that is put in the table replaces its own handle only. -/
theorem Obj.handle_setFile (s : Session) (f : Nat) (fp : FIL) (o : Obj) :
    o.handle (s.setFile f fp) = if o = .file f then fp.handle else o.handle s := by
  cases o with
  | file i =>
    simp only [Obj.file.injEq]
    show FIL.handle (if i = f then fp else s.files i) = _
    split <;> rfl
  | dir i =>
    rw [if_neg (by simp)]
    rfl

/-- A directory object that is put in the table replaces its own handle only. -/
theorem Obj.handle_setDir (s : Session) (d : Nat) (dp : DIR) (o : Obj) :
    o.handle (s.setDir d dp) = if o = .dir d then dp.handle else o.handle s := by
  cases o with
  | dir i =>
    simp only [Obj.dir.injEq]
    show DIR.handle (if i = d then dp else s.dirs i) = _
    split <;> rfl
  | file i =>
    rw [if_neg (by simp)]
    rfl

section
variable {s t : Session} {r : FRESULT} {α : Type} {m : M α}

/-- A call that stores nothing to an object. -/
theorem run_plain {res : α → FRESULT} (hm : Ensures m s.w fun _ w' => StepHost s.w w')
    (he : s.run m (fun u a => (res a, u)) = some (r, t)) :
    StepHost s.w t.w ∧ ∀ o : Obj, (o.handle t).id = (o.handle s).id := by
  obtain ⟨a, w, hp, hw⟩ := Session.run_ensures hm he
  cases hp
  exact ⟨hw, fun o => by cases o <;> rfl⟩

/-- A call that stores a file object. -/
theorem run_file {res : α → FRESULT} {fp : α → FIL} {f : Nat} {Q : α → State → Prop}
    (hm : Ensures m s.w fun a w' => StepHost s.w w' ∧ Q a w')
    (he : s.run m (fun u a => (res a, u.setFile f (fp a))) = some (r, t)) :
    StepHost s.w t.w ∧ (∀ o : Obj, o ≠ .file f → (o.handle t).id = (o.handle s).id) ∧
      ∃ a, r = res a ∧ Q a t.w ∧ t.files f = fp a := by
  obtain ⟨a, w, hp, hw, hq⟩ := Session.run_ensures hm he
  cases hp
  refine ⟨hw, fun o ho => ?_, a, rfl, hq, if_pos rfl⟩
  rw [Obj.handle_setFile, if_neg ho]
  cases o <;> rfl

/-- A call that stores a directory object. -/
theorem run_dir {res : α → FRESULT} {dp : α → DIR} {d : Nat} {Q : α → State → Prop}
    (hm : Ensures m s.w fun a w' => StepHost s.w w' ∧ Q a w')
    (he : s.run m (fun u a => (res a, u.setDir d (dp a))) = some (r, t)) :
    StepHost s.w t.w ∧ (∀ o : Obj, o ≠ .dir d → (o.handle t).id = (o.handle s).id) ∧
      ∃ a, r = res a ∧ Q a t.w ∧ t.dirs d = dp a := by
  obtain ⟨a, w, hp, hw, hq⟩ := Session.run_ensures hm he
  cases hp
  refine ⟨hw, fun o ho => ?_, a, rfl, hq, if_pos rfl⟩
  rw [Obj.handle_setDir, if_neg ho]
  cases o <;> rfl

/-- A function on an open file keeps the mount ID of the object. -/
theorem run_fil {res : α → FRESULT} {fp : α → FIL} {f : Nat}
    (hm : ∀ h, Yields (OnHost h) (fun a => (fp a).id = (s.files f).id) m)
    (he : s.run m (fun u a => (res a, u.setFile f (fp a))) = some (r, t)) :
    StepHost s.w t.w ∧ ∀ o : Obj, (o.handle t).id = (o.handle s).id := by
  have hm' : Ensures m s.w fun a w' => StepHost s.w w' ∧ (fp a).id = (s.files f).id :=
    (hm s.w.host s.w rfl).mono fun a w' h => ⟨.inl h.1, h.2⟩
  obtain ⟨hw, ho, a, -, hid, hf⟩ := run_file hm' he
  refine ⟨hw, fun o => ?_⟩
  by_cases h : o = .file f
  · subst h
    show (t.files f).id = (s.files f).id
    rw [hf]
    exact hid
  · exact ho o h

/-- A function on an open directory keeps the mount ID of the object. -/
theorem run_dp {res : α → FRESULT} {dp : α → DIR} {d : Nat}
    (hm : ∀ h, Yields (OnHost h) (fun a => (dp a).id = (s.dirs d).id) m)
    (he : s.run m (fun u a => (res a, u.setDir d (dp a))) = some (r, t)) :
    StepHost s.w t.w ∧ ∀ o : Obj, (o.handle t).id = (o.handle s).id := by
  have hm' : Ensures m s.w fun a w' => StepHost s.w w' ∧ (dp a).id = (s.dirs d).id :=
    (hm s.w.host s.w rfl).mono fun a w' h => ⟨.inl h.1, h.2⟩
  obtain ⟨hw, ho, a, -, hid, hf⟩ := run_dir hm' he
  refine ⟨hw, fun o => ?_⟩
  by_cases h : o = .dir d
  · subst h
    show (t.dirs d).id = (s.dirs d).id
    rw [hf]
    exact hid
  · exact ho o h

end

/-- What keeps the handle keeps the mount ID in it. -/
theorem Yields.ids {α : Type} {I : State → Prop} {k : Handle} {f : α → Handle} {m : M α}
    (h : Yields I (fun a => f a = k) m) : Yields I (fun a => (f a).id = k.id) m :=
  fun w hw => (h w hw).mono fun _ _ h' => ⟨h'.1, congrArg Handle.id h'.2⟩

/-- `f_readdir` keeps the host and the handle. -/
theorem fReaddir_host {h : Host} (dp : DIR) (fno : FILINFO) :
    Yields (OnHost h) (fun r => r.2.1.handle = dp.handle) (fReaddir dp fno) := by
  unfold fReaddir
  exact (validate_host _ _).then fun _ => .ite (fun _ =>
    .bind (dirRead_host dp false) fun r hr => .ite
    (fun _ => .get fun _ _ => .bind (dirNext_host r.2 false) fun q hq => .pure (hq.trans hr))
      fun _ => .pure hr) fun _ => .pure rfl

/-- The rewinding of a directory keeps the host and the handle. -/
theorem fRewinddir_host {h : Host} (dp : DIR) :
    Yields (OnHost h) (HasDir dp.handle) (fRewinddir dp) := by
  unfold fRewinddir
  exact (validate_host _ _).then fun _ => .ite (fun _ => dirSdi_host dp 0) fun _ => .pure rfl

/-- `f_closedir` clears the `fs` member and leaves the mount ID. -/
theorem fClosedir_host {h : Host} (dp : DIR) :
    Yields (OnHost h) (fun r => r.2.id = dp.id) (fClosedir dp) := by
  unfold fClosedir
  refine (validate_host _ _).then fun res => .pure ?_
  split <;> rfl

/-- What one step does. -/
theorem exec_stepSpec {s t : Session} {a : Act} {r : FRESULT} (he : a.exec s = some (r, t)) :
    StepSpec s a r t := by
  cases a with
  | mkfs path opt len =>
    rw [Act.exec] at he
    obtain ⟨b, w, hp, hw⟩ := Session.run_ensures (fMkfs_host path opt len s.w) he
    cases hp
    exact ⟨fun h => h.elim, fun _ => hw, fun o _ => by cases o <;> rfl⟩
  | call c =>
    change exec s c = some (r, t) at he
    cases c with
    | mount fs path opt =>
      rw [exec] at he
      obtain ⟨b, w, hp, hm, hn⟩ := Session.run_ensures (fMount_host fs path opt s.w) he
      cases hp
      exact ⟨hm, hn, fun o _ => by cases o <;> rfl⟩
    | opendir d path =>
      rw [exec] at he
      obtain ⟨hw, ho, -⟩ := run_dir (fOpendir_host (s.dirs d) path s.w) he
      exact ⟨hw.spec.1, hw.spec.2, ho⟩
    | readdir d fno =>
      rw [exec] at he
      obtain ⟨hw, ho⟩ := run_dp (fun _ => Yields.ids (fReaddir_host (s.dirs d) fno)) he
      exact ⟨hw.spec.1, hw.spec.2, fun o _ => ho o⟩
    | rewinddir d =>
      rw [exec] at he
      obtain ⟨hw, ho⟩ := run_dp (fun _ => Yields.ids (fRewinddir_host (s.dirs d))) he
      exact ⟨hw.spec.1, hw.spec.2, fun o _ => ho o⟩
    | closedir d =>
      rw [exec] at he
      obtain ⟨hw, ho⟩ := run_dp (fun _ => fClosedir_host (s.dirs d)) he
      exact ⟨hw.spec.1, hw.spec.2, fun o _ => ho o⟩
    | stat path fno =>
      rw [exec] at he
      obtain ⟨hw, ho⟩ := run_plain (fStat_host path fno s.w) he
      exact ⟨hw.spec.1, hw.spec.2, fun o _ => ho o⟩
    | «open» f path mode =>
      rw [exec] at he
      obtain ⟨hw, ho, -⟩ := run_file (fOpen_host (s.files f) path mode s.w) he
      exact ⟨hw.spec.1, hw.spec.2, ho⟩
    | read f btr =>
      rw [exec] at he
      obtain ⟨hw, ho⟩ := run_fil (fun _ => Yields.ids (fRead_host (s.files f) _)) he
      exact ⟨hw.spec.1, hw.spec.2, fun o _ => ho o⟩
    | write f buff =>
      rw [exec] at he
      obtain ⟨hw, ho⟩ := run_fil (fun _ => Yields.ids (fWrite_host (s.files f) buff)) he
      exact ⟨hw.spec.1, hw.spec.2, fun o _ => ho o⟩
    | lseek f ofs =>
      rw [exec] at he
      obtain ⟨hw, ho⟩ := run_fil (fun _ => Yields.ids (fLseek_host (s.files f) _)) he
      exact ⟨hw.spec.1, hw.spec.2, fun o _ => ho o⟩
    | truncate f =>
      rw [exec] at he
      obtain ⟨hw, ho⟩ := run_fil (fun _ => Yields.ids (fTruncate_host (s.files f))) he
      exact ⟨hw.spec.1, hw.spec.2, fun o _ => ho o⟩
    | sync f =>
      rw [exec] at he
      obtain ⟨hw, ho⟩ := run_fil (fun _ => Yields.ids (fSync_host (s.files f))) he
      exact ⟨hw.spec.1, hw.spec.2, fun o _ => ho o⟩
    | close f =>
      rw [exec] at he
      obtain ⟨hw, ho⟩ := run_fil (fun _ => fClose_host (s.files f)) he
      exact ⟨hw.spec.1, hw.spec.2, fun o _ => ho o⟩
    | unlink path =>
      rw [exec] at he
      obtain ⟨hw, ho⟩ := run_plain (fUnlink_host path s.w) he
      exact ⟨hw.spec.1, hw.spec.2, fun o _ => ho o⟩
    | mkdir path =>
      rw [exec] at he
      obtain ⟨hw, ho⟩ := run_plain (fMkdir_host path s.w) he
      exact ⟨hw.spec.1, hw.spec.2, fun o _ => ho o⟩
    | rename pathOld pathNew =>
      rw [exec] at he
      obtain ⟨hw, ho⟩ := run_plain (fRename_host pathOld pathNew s.w) he
      exact ⟨hw.spec.1, hw.spec.2, fun o _ => ho o⟩
    | getfree path =>
      rw [exec] at he
      obtain ⟨hw, ho⟩ := run_plain (fGetfree_host path s.w) he
      exact ⟨hw.spec.1, hw.spec.2, fun o _ => ho o⟩

/-- What holds between the steps of a program: the mounted volume has the last mount ID. -/
structure Session.Ided (s : Session) : Prop where
  lt : s.w.fsid < 65536
  id : s.w.geo.fsType ≠ .none → s.w.geo.id = s.w.fsid

/-- Mount IDs are values of the counter. -/
theorem StepSpec.ided {s t : Session} {a : Act} {r : FRESULT} (h : StepSpec s a r t) (hs : s.Ided) :
    t.Ided := by
  by_cases hm : a.Mounts s r t
  · have h' := h.mount hm
    exact ⟨by rw [h'.fsid]; exact Nat.mod_lt _ (by decide), fun _ => h'.id⟩
  · have h' := h.still hm
    exact ⟨by rw [h'.fsid]; exact hs.lt, fun hne => by
      rw [h'.id, h'.fsid]
      exact hs.id (h'.mounted hne)⟩

/-- A step leaves only the volume of a registered filesystem object mounted. -/
theorem StepSpec.registered {s t : Session} {a : Act} {r : FRESULT} (h : StepSpec s a r t)
    (hs : s.w.geo.fsType ≠ .none → s.w.registered = true) (hne : t.w.geo.fsType ≠ .none) :
    t.w.registered = true := by
  by_cases hm : a.Mounts s r t
  · exact (h.mount hm).registered
  · have h' := h.still hm
    exact (h'.registered hne).trans (hs (h'.mounted hne))

/-- A run of `n` mounts advances the counter by `n`. -/
theorem Steps.fsid {P : Act → Prop} {s t : Session} {n : Nat} (h : Steps P s n t) (hs : s.Ided) :
    t.Ided ∧ t.w.fsid = (s.w.fsid + n) % 65536 := by
  induction h with
  | refl => exact ⟨hs, (Nat.mod_eq_of_lt hs.lt).symm⟩
  | still _ _ he hm ih =>
    have hspec := exec_stepSpec he
    exact ⟨hspec.ided ih.1, (hspec.still hm).fsid.trans ih.2⟩
  | mount _ _ he hm ih =>
    have hspec := exec_stepSpec he
    refine ⟨hspec.ided ih.1, ?_⟩
    rw [(hspec.mount hm).fsid, ih.2]
    omega

/-- A run that does not open the object keeps its mount ID. -/
theorem Steps.handle_id {o : Obj} {s t : Session} {n : Nat}
    (h : Steps (fun a => ¬a.Opens o) s n t) : (o.handle t).id = (o.handle s).id := by
  induction h with
  | refl => rfl
  | still _ ho he _ ih => exact ((exec_stepSpec he).id o ho).trans ih
  | mount _ ho he _ ih => exact ((exec_stepSpec he).id o ho).trans ih

/-! ## Refused calls -/

/-- An object with another mount ID is refused, and nothing is done. -/
theorem validate_refuses {w : State} {id : Nat} (fs : Bool)
    (h : w.geo.fsType ≠ .none → id ≠ w.geo.id) :
    Returns (validate fs id) w fun r w' => r = .invalidObject ∧ w' = w := by
  rw [validate, returns_bind, returns_get, returns_pure, if_neg fun hv => h hv.2.1 hv.2.2.1]
  exact ⟨rfl, rfl⟩

/-- A file object that is put back changes nothing. -/
theorem Session.setFile_self (s : Session) (f : Nat) : (s.step s.w).setFile f (s.files f) = s := by
  have h : (fun i => if i = f then s.files f else s.files i) = s.files := by
    funext i
    split
    · rename_i hi
      rw [hi]
    · rfl
  show Session.mk s.w (fun i => if i = f then s.files f else s.files i) s.dirs = s
  rw [h]

/-- A directory object that is put back changes nothing. -/
theorem Session.setDir_self (s : Session) (d : Nat) : (s.step s.w).setDir d (s.dirs d) = s := by
  have h : (fun i => if i = d then s.dirs d else s.dirs i) = s.dirs := by
    funext i
    split
    · rename_i hi
      rw [hi]
    · rfl
  show Session.mk s.w s.files (fun i => if i = d then s.dirs d else s.dirs i) = s
  rw [h]

/-- A call on an object whose mount ID is not that of the mounted volume is refused, and nothing
changes. -/
theorem exec_refuses {s : Session} {o : Obj} {c : Call} (hc : c.Uses o)
    (h : s.w.geo.fsType ≠ .none → (o.handle s).id ≠ s.w.geo.id) :
    exec s c = some (.invalidObject, s) := by
  -- the functions return at once with the object as it is
  have hfile : ∀ {α : Type} {m : M α} {res : α → FRESULT} {fp : α → FIL} {f : Nat},
      Returns m s.w (fun a w' => (res a = .invalidObject ∧ fp a = s.files f) ∧ w' = s.w) →
      s.run m (fun u a => (res a, u.setFile f (fp a))) = some (.invalidObject, s) := by
    intro α m res fp f hm
    obtain ⟨a, w, he, ⟨hr, hf⟩, rfl⟩ := Session.run_returns hm fun u a =>
      (res a, u.setFile f (fp a))
    rw [he, hr, hf, Session.setFile_self]
  have hdir : ∀ {α : Type} {m : M α} {res : α → FRESULT} {dp : α → DIR} {d : Nat},
      Returns m s.w (fun a w' => (res a = .invalidObject ∧ dp a = s.dirs d) ∧ w' = s.w) →
      s.run m (fun u a => (res a, u.setDir d (dp a))) = some (.invalidObject, s) := by
    intro α m res dp d hm
    obtain ⟨a, w, he, ⟨hr, hf⟩, rfl⟩ := Session.run_returns hm fun u a =>
      (res a, u.setDir d (dp a))
    rw [he, hr, hf, Session.setDir_self]
  have hv : ∀ {α : Type} {k : FRESULT → M α} {Q : α → State → Prop},
      Returns (k .invalidObject) s.w Q →
      Returns (validate (o.handle s).fs (o.handle s).id >>= k) s.w Q := by
    intro α k Q hk
    rw [returns_bind]
    refine (validate_refuses (o.handle s).fs h).mono fun r w' ⟨hr, hw'⟩ => ?_
    rw [hr, hw']
    exact hk
  cases c with
  | read f btr =>
    cases hc
    rw [exec]
    refine hfile ?_
    rw [fRead]
    exact hv (returns_pure.2 ⟨⟨rfl, rfl⟩, rfl⟩)
  | write f buff =>
    cases hc
    rw [exec]
    refine hfile ?_
    rw [fWrite]
    exact hv (returns_pure.2 ⟨⟨rfl, rfl⟩, rfl⟩)
  | lseek f ofs =>
    cases hc
    rw [exec]
    refine hfile ?_
    rw [fLseek]
    exact hv (returns_pure.2 ⟨⟨rfl, rfl⟩, rfl⟩)
  | truncate f =>
    cases hc
    rw [exec]
    refine hfile ?_
    rw [fTruncate]
    exact hv (returns_pure.2 ⟨⟨rfl, rfl⟩, rfl⟩)
  | sync f =>
    cases hc
    rw [exec]
    refine hfile ?_
    rw [fSync]
    exact hv (returns_pure.2 ⟨⟨rfl, rfl⟩, rfl⟩)
  | close f =>
    cases hc
    rw [exec]
    refine hfile ?_
    rw [fClose, returns_bind, fSync]
    exact hv (returns_pure.2 (returns_pure.2 ⟨⟨rfl, rfl⟩, rfl⟩))
  | readdir d fno =>
    cases hc
    rw [exec]
    refine hdir ?_
    rw [fReaddir]
    exact hv (returns_pure.2 ⟨⟨rfl, rfl⟩, rfl⟩)
  | rewinddir d =>
    cases hc
    rw [exec]
    refine hdir ?_
    rw [fRewinddir]
    exact hv (returns_pure.2 ⟨⟨rfl, rfl⟩, rfl⟩)
  | closedir d =>
    cases hc
    rw [exec]
    refine hdir ?_
    rw [fClosedir]
    exact hv (returns_pure.2 ⟨⟨rfl, rfl⟩, rfl⟩)
  | mount _ _ _ => cases hc
  | opendir _ _ => cases hc
  | stat _ _ => cases hc
  | «open» _ _ _ => cases hc
  | unlink _ => cases hc
  | mkdir _ => cases hc
  | rename _ _ => cases hc
  | getfree _ => cases hc

/-! ## Runs -/

/-- The object was opened by the step from `u` to `s`. -/
def Opened (o : Obj) (u s : Session) : Prop := ∃ a : Act, a.Opens o ∧ a.exec u = some (.ok, s)

/-- An object that was just opened has the ID of the mounted volume. -/
theorem Opened.handle {o : Obj} {u s : Session} (h : Opened o u s) :
    (o.handle s).id = s.w.geo.id ∧ s.w.geo.fsType ≠ .none := by
  obtain ⟨a, ho, he⟩ := h
  cases a with
  | mkfs _ _ _ => cases ho
  | call c =>
    cases c with
    | «open» f path mode =>
      cases ho
      rw [Act.exec, exec] at he
      obtain ⟨-, -, a, hr, hq, hf⟩ := run_file (fOpen_host (u.files f) path mode u.w) he
      obtain ⟨hh, hm⟩ := hq hr.symm
      refine ⟨?_, hm⟩
      show (s.files f).id = s.w.geo.id
      rw [hf]
      exact congrArg Handle.id hh
    | opendir d path =>
      cases ho
      rw [Act.exec, exec] at he
      obtain ⟨-, -, a, hr, hq, hf⟩ := run_dir (fOpendir_host (u.dirs d) path u.w) he
      obtain ⟨hh, hm⟩ := hq hr.symm
      refine ⟨?_, hm⟩
      show (s.dirs d).id = s.w.geo.id
      rw [hf]
      exact congrArg Handle.id hh
    | _ => cases ho

/-- In every run, an object that was opened before the last mount is refused by every function on it
and nothing changes, if the number of mounts since it was opened is not a multiple of 65536. -/
theorem stale_refused {d : Disk} {charSigned : Bool} {files : Nat → FIL} {dirs : Nat → DIR}
    {u s t : Session} {k n : Nat} {o : Obj}
    (hu : Steps (fun _ => True) (Session.start d charSigned files dirs) k u) (ho : Opened o u s)
    (ht : Steps (fun a => ¬a.Opens o) s n t) (hn : n % 65536 ≠ 0) {c : Call} (hc : c.Uses o) :
    exec t c = some (.invalidObject, t) := by
  obtain ⟨hid, hm⟩ := ho.handle
  have hstart : (Session.start d charSigned files dirs).Ided :=
    ⟨show 0 < 65536 by decide, fun h => absurd rfl h⟩
  obtain ⟨a, -, he⟩ := ho
  have hs : s.Ided := (exec_stepSpec he).ided (hu.fsid hstart).1
  obtain ⟨hti, htn⟩ := ht.fsid hs
  refine exec_refuses hc fun htm => ?_
  rw [ht.handle_id, hid, hs.id hm, hti.id htm, htn]
  have := hs.lt
  omega

/-- A file that was opened before a remount of a plain volume is refused. -/
theorem stale_refused_plain : ∃ u s t, exec plainStart (.mount true [] 1) = some (.ok, u) ∧
    exec u (.open 0 [0x41] (FA_WRITE ||| FA_CREATE_ALWAYS)) = some (.ok, s) ∧
    exec s (.mount true [] 1) = some (.ok, t) ∧
      exec t (.write 0 [0x42]) = some (.invalidObject, t) := by
  have h : ((exec plainStart (.mount true [] 1)).bind fun p =>
      (exec p.2 (.open 0 [0x41] (FA_WRITE ||| FA_CREATE_ALWAYS))).bind fun q =>
        (exec q.2 (.mount true [] 1)).map fun r => (p.1, q.1, r.1)) = some (.ok, .ok, .ok) := by
    decide +kernel
  obtain ⟨⟨p, u⟩, hu, h⟩ := Option.bind_eq_some_iff.1 h
  obtain ⟨⟨q, s⟩, hs, h⟩ := Option.bind_eq_some_iff.1 h
  obtain ⟨⟨r, t⟩, ht, h⟩ := Option.map_eq_some_iff.1 h
  simp only [Prod.mk.injEq] at h
  obtain ⟨rfl, rfl, rfl⟩ := h
  have hmount : ∀ {P : Act → Prop} {s t : Session}, P (.call (.mount true [] 1)) →
      exec s (.mount true [] 1) = some (.ok, t) → Steps P s 1 t := fun hP he =>
    .mount (a := .call (.mount true [] 1)) .refl hP he ⟨by decide, rfl⟩
  exact ⟨u, s, t, hu, hs, ht, stale_refused (o := .file 0) (hmount trivial hu)
    ⟨.call (.open 0 [0x41] (FA_WRITE ||| FA_CREATE_ALWAYS)), rfl, hs⟩ (hmount (fun h => h) ht)
    (by decide) rfl⟩

/-! ## The counter wraps -/

/-- A device whose volume a mount accepts. -/
structure Disk.Accepted (d : Disk) : Prop where
  reliable : d.Reliable
  size : d.sectors < W32
  sound : d.MountsSound
  volume : (d.volumeSector.bind fun b => readBPB (d.data b) b).isSome = true

/-- Whether a mount accepts the device depends on its contents and its size. -/
theorem Disk.Accepted.congr {d d' : Disk} (h : d.Accepted) (hr : d'.Reliable)
    (hd : d'.data = d.data) (hs : d'.sectors = d.sectors) : d'.Accepted := by
  have hv : d'.volumeSector = d.volumeSector := by
    unfold Disk.volumeSector Disk.partitions Disk.isVBR
    rw [hd, hs]
  refine ⟨hr, by rw [hs]; exact h.size, fun b g hb hg => ?_, by rw [hv, hd]; exact h.volume⟩
  rw [hv] at hb
  rw [hd] at hg
  exact h.sound b g hb hg

/-- Mounting an accepted device again succeeds and changes no object. -/
theorem exec_remount {s : Session} (h : s.w.disk.Accepted) :
    ∃ t, exec s (.mount true [] 1) = some (.ok, t) ∧ t.w.disk.Accepted ∧ t.files = s.files := by
  have hl : ∀ b, getLdnumber b [] = (true, []) := by decide
  have hmount : Returns (fMount true [] 1) s.w fun r w' => r = .ok ∧ w'.disk.Accepted := by
    rw [fMount, returns_bind, returns_get, hl]
    simp only [returns_bind, returns_modify, returns_ite, returns_pure]
    refine ⟨by simp, fun _ => ?_⟩
    rw [if_pos (.inr trivial), mountVolume, returns_bind, returns_get, hl]
    simp only [returns_ite, returns_pure, returns_bind, returns_modify]
    refine ⟨by simp, fun _ => ⟨by simp, fun _ => ⟨by simp [diskInitialize], fun _ =>
      ⟨by simp [diskInitialize], fun _ => ?_⟩⟩⟩⟩
    generalize hu : ({ s.w with
      registered := true, geo := { s.w.geo with fsType := .none } } : State) = u
    have hd : u.disk = s.w.disk := by rw [← hu]
    rw [← hd] at h
    refine ((mountDrive_spec h.reliable).and (mountDrive_inv h.reliable h.size h.sound)).mono
      fun r w' hpost => ?_
    obtain ⟨⟨hdata, hsec, hg⟩, hrel, _⟩ := hpost
    obtain ⟨g, he⟩ := Option.isSome_iff_exists.1 h.volume
    rw [he] at hg
    exact ⟨hg.1, h.congr hrel hdata hsec⟩
  obtain ⟨r, w', he, hr, hw⟩ := Session.run_returns hmount fun t r => (r, t)
  refine ⟨s.step w', ?_, hw, rfl⟩
  rw [exec, he, hr]

/-- Mounting any number of times. -/
theorem steps_remount {s : Session} (h : s.w.disk.Accepted) (f n : Nat) :
    ∃ t, Steps (fun a => ¬a.Opens (.file f)) s n t ∧ t.files = s.files ∧ t.w.disk.Accepted ∧
      (0 < n → t.w.geo.fsType ≠ .none) := by
  induction n with
  | zero => exact ⟨s, .refl, rfl, h, fun h => absurd h (Nat.lt_irrefl 0)⟩
  | succ n ih =>
    obtain ⟨t, ht, hf, ha, -⟩ := ih
    obtain ⟨u, hu, ha', hf'⟩ := exec_remount ha
    have hm : (Act.call (.mount true [] 1)).Mounts t .ok u := ⟨by decide, rfl⟩
    exact ⟨u, .mount (a := .call (.mount true [] 1)) ht (fun h => h) hu hm, hf'.trans hf,
        ha', fun _ =>
      ((exec_stepSpec (a := .call (.mount true [] 1)) hu).mount hm).mounted⟩

/-- `f_lseek` to the start of a file with a valid object succeeds. -/
theorem exec_lseek_start {s : Session} {f : Nat} (hfs : (s.files f).fs = true)
    (hm : s.w.geo.fsType ≠ .none) (hid : (s.files f).id = s.w.geo.id)
    (herr : (s.files f).err = .ok) :
    ∃ t, exec s (.lseek f 0) = some (.ok, t) := by
  have hret : Returns (fLseek (s.files f) 0) s.w fun r _ => r.1 = .ok := by
    rw [fLseek, returns_bind, validate]
    simp only [returns_bind, returns_get, returns_pure, returns_ite]
    rw [if_pos ⟨hfs, hm, hid, by decide⟩]
    refine ⟨fun h => absurd rfl h, fun _ => ⟨fun h =>
      absurd herr h, fun _ => ⟨fun hpos => ?_, fun _ => ?_⟩⟩⟩
    · rw [if_neg fun h => Nat.not_lt_zero _ h.1] at hpos
      exact absurd hpos (Nat.lt_irrefl 0)
    · trivial
  obtain ⟨a, w, he, ha⟩ := Session.run_returns hret fun t r => (r.1, t.setFile f r.2)
  refine ⟨(s.step w).setFile f a.2, ?_⟩
  rw [exec]
  show s.run (fLseek (s.files f) 0) _ = _
  rw [he, ha]

/-- After 65536 mounts the counter has its old value, and a file that was opened before them is
accepted: `f_lseek` on it succeeds. -/
theorem stale_accepted : ∃ u s t t', Steps (fun _ => True) plainStart 1 u ∧
    Opened (.file 0) u s ∧ Steps (fun a => ¬a.Opens (.file 0)) s 65536 t ∧
      exec t (.lseek 0 0) = some (.ok, t') := by
  have h : ((exec plainStart (.mount true [] 1)).bind fun p =>
      (exec p.2 (.open 0 [0x41] (FA_WRITE ||| FA_CREATE_ALWAYS))).map fun q =>
        ((p.1, p.2.w.geo.fsType), q.1, (q.2.files 0).fs, (q.2.files 0).err)) =
      some ((.ok, .fat12), .ok, true, .ok) := by
    decide +kernel
  have hvol : ((exec plainStart (.mount true [] 1)).bind fun p =>
      (exec p.2 (.open 0 [0x41] (FA_WRITE ||| FA_CREATE_ALWAYS))).map fun q =>
        (q.2.w.disk.sectors, q.2.w.disk.volumeSector, bpbSystem (q.2.w.disk.data 0),
          bpbTotSec (q.2.w.disk.data 0), (readBPB (q.2.w.disk.data 0) 0).isSome)) =
      some (128, some 0, 4, 128, true) := by
    decide +kernel
  obtain ⟨⟨p, u⟩, hu, h⟩ := Option.bind_eq_some_iff.1 h
  obtain ⟨⟨q, s⟩, hs, h⟩ := Option.map_eq_some_iff.1 h
  rw [hu, Option.bind_some, hs, Option.map_some] at hvol
  simp only [Prod.mk.injEq, Option.some.injEq] at h hvol
  obtain ⟨⟨rfl, hut⟩, rfl, hfs, herr⟩ := h
  obtain ⟨hsec, hv, hsys, htot, hbpb⟩ := hvol
  -- the device is still reliable and accepted
  have hopen : Call.MountsSound u (.open 0 [0x41] (FA_WRITE ||| FA_CREATE_ALWAYS)) := by
    rintro (hm | ⟨_, _, _, hm, _⟩)
    · rw [hut] at hm
      cases hm
    · cases hm
  have hready : s.w.Ready :=
    Reaches.ready (Session.start_ready (d := fuzzDisk plainImage) (fun _ => rfl)
    (show 128 < W32 by decide) true (fun _ => {}) fun _ => {})
    (.call (.call .refl (fun _ => plainImage_mountsSound) hu) hopen hs)
  have hacc : s.w.disk.Accepted := by
    exact ⟨hready.reliable, hready.size, Disk.mountsSound_of hv (by rw [hsys]; decide)
      (by rw [htot]; decide), by rw [hv]; exact hbpb⟩
  obtain ⟨t, ht, hf, -, hm⟩ := steps_remount hacc 0 65536
  have hu1 : Steps (fun _ => True) plainStart 1 u :=
    .mount (a := .call (.mount true [] 1)) .refl trivial hu ⟨by decide, rfl⟩
  have ho : Opened (.file 0) u s :=
    ⟨.call (.open 0 [0x41] (FA_WRITE ||| FA_CREATE_ALWAYS)), rfl, hs⟩
  -- the mount ID of the object is that of the mounted volume again
  have hsi : s.Ided := (exec_stepSpec (a := .call (.open 0 [0x41] (FA_WRITE ||| FA_CREATE_ALWAYS)))
    hs).ided (hu1.fsid ⟨show 0 < 65536 by decide, fun h => absurd rfl h⟩).1
  obtain ⟨hti, htn⟩ := ht.fsid hsi
  have hmt := hm (by decide)
  obtain ⟨hid, hsm⟩ := ho.handle
  have hidt : (t.files 0).id = t.w.geo.id := by
    have hsid : (s.files 0).id = s.w.geo.id := hid
    rw [hf, hsid, hti.id hmt, htn, hsi.id hsm]
    have := hsi.lt
    omega
  obtain ⟨t', ht'⟩ := exec_lseek_start (f := 0) (by rw [hf]; exact hfs) hmt hidt
    (by rw [hf]; exact herr)
  exact ⟨u, s, t, t', hu1, ho, ht, ht'⟩

end FatFs
