import FatFs.Model.Api
import FatFs.Model.Harness
import FatFs.Total.File
import FatFs.Total.Mount

/-!
# Every call returns on every image

The functions of the application interface from every state that a run reaches: each one returns,
and leaves the module ready for the next call (`State.Ready`). A session is ready whatever its file
and directory objects hold, so a run may use stale and uninitialised objects. The last section is
about the walks of the harness, whose loops are bounded by the positions in the directories.
-/

namespace FatFs

open Run

section
variable {g : Geometry} (hg : g.Sound)

include hg

/-! ## The functions on a mounted volume -/

/-- `f_rename` of a directory rewrites the `..` entry in its first sector. -/
theorem renameDotDot_preserves (clst pcl : Nat) : Preserves (Inv g) (renameDotDot clst pcl) := by
  unfold renameDotDot
  exact .get fun _ _ => .ite (fun _ => .pure _) fun _ => .bind (moveWindow_preserves hg _) fun r =>
    .get fun _ _ => .ite (fun _ => .bind (modWin_preserves _) fun _ => .pure _) fun _ => .pure _

/-- `f_rename` registers the new name and fills its entry. -/
theorem renameEnter_preserves (djo djn : DIR) (buf : List UInt8) :
    Preserves (Inv g) (renameEnter djo djn buf) := by
  unfold renameEnter
  exact .bind (dirRegister_preserves hg _) fun r => .ite (fun _ => .bind (modWin_preserves _)
    fun _ => .get fun _ _ => .ite (fun _ => renameDotDot_preserves hg _ _) fun _ => .pure _)
    fun _ => .pure _

/-- `f_unlink` looks whether a directory is empty by a `dir_read` in it. -/
theorem dirEmpty_preserves (dclst : Nat) : Preserves (Inv g) (dirEmpty dclst) := by
  unfold dirEmpty
  exact .bind (dirSdi_preserves hg _ _) fun r => .ite (fun _ => .bind (dirRead_preserves hg _ _)
    fun r => .pure _) fun _ => .pure _

/-- `f_mkdir` builds the table of the new directory in a cleared cluster. -/
theorem mkdirTable_preserves (dj : DIR) {dcl : Nat} (hc : g.IsClust dcl) :
    Preserves (Inv g) (mkdirTable dj dcl) := by
  unfold mkdirTable
  refine .bind (fun w hw => (dirClear_inv hg hw hc).mono fun _ _ h => h.inv) fun r => .ite
    (fun _ => .get fun _ _ => .bind (modWin_preserves _) fun _ => dirRegister_preserves hg _)
    fun _ => .pure _

/-- The scan of the FAT counts only after a sector of the FAT was read, so the allocation
information may be written back later, and it counts no entry twice. -/
theorem free12_inv {w : State} (hw : Inv g w) :
    Returns (loop free12Round g.nFatent (2, 0)) w fun r w' =>
      Inv g w' ∧ ∀ n, r = .ok n → g.fatbase < w'.disk.sectors ∧ n ≤ g.nFatent := by
  have hent := hg.entries
  refine Returns.loop (I := fun n p w' => Inv g w' ∧ g.nFatent - p.1 ≤ n ∧ p.1 < g.nFatent ∧
      p.2 ≤ p.1) (n := g.nFatent - 2)
    (fun n p w₁ ⟨h₁, hn, hlt, hle⟩ => ?_) ⟨hw, Nat.le_refl _, hent, Nat.zero_le _⟩ (by omega)
  rw [free12Round, returns_bind]
  refine (getFat_inv hg h₁ _).mono fun c w₂ h₂ => ?_
  simp only [returns_ite, returns_pure, returns_bind, returns_get]
  have hfree : (if c = 0 then p.2 + 1 else p.2) ≤ p.1 + 1 := by
    split <;> omega
  refine ⟨fun _ => ⟨h₂.inv, by simp⟩, fun hd => ⟨fun _ => ⟨h₂.inv, by simp⟩, fun h1 =>
    ⟨fun hlt => ?_, fun _ => ⟨h₂.inv, fun n hn => ⟨?_, ?_⟩⟩⟩⟩⟩
  · rw [h₂.inv.geo] at hlt
    exact ⟨g.nFatent - (p.1 + 1), by omega, h₂.inv, Nat.le_refl _, hlt, hfree⟩
  · have hval := (h₂.val.resolve_left h1).resolve_left hd
    rw [h₂.kept.sectors]
    exact hval.2.2
  · cases hn
    omega

/-- The scan of `f_getfree` returns; it counts no more clusters than there are entries. -/
theorem free_inv {w : State} (hw : Inv g w) :
    Returns (loop freeRound (g.nFatent + 1) ⟨g.nFatent, g.fatbase, 0, 0⟩) w fun r w' =>
      Inv g w' ∧ ∀ n, r = .ok n → g.fatbase < w'.disk.sectors ∧ n ≤ g.nFatent := by
  have hent := hg.entries
  have hfat : g.InFat g.fatbase := ⟨Nat.le_refl _, by have := hg.fsize_pos; omega⟩
  -- after the first round the first sector of the FAT is known to be on the device
  refine Returns.loop (I := fun n p w' => Inv g w' ∧ p.clst ≤ n ∧
    (0 < p.clst ∧ p.nfree + p.clst ≤ g.nFatent) ∧
    ((p.i = 0 ∧ p.sect = g.fatbase) ∨ g.fatbase < w'.disk.sectors))
    (fun n p w₁ ⟨h₁, hn, hsum, hon⟩ => ?_)
    ⟨hw, Nat.le_refl _, by simp only; omega, .inl ⟨rfl, rfl⟩⟩ (Nat.lt_succ_self _)
  have hmove : Returns (if p.i = 0 then moveWindow p.sect else pure .ok) w₁ fun r w₂ =>
      Inv g w₂ ∧ (r = .ok → g.fatbase < w₂.disk.sectors) := by
    rw [returns_ite]
    refine ⟨fun _ => (moveWindow_inv hg h₁ _).mono fun r w₂ h₂ => ⟨h₂.inv, fun hr => ?_⟩,
      fun hi => returns_pure.2 ⟨h₁, fun _ => hon.resolve_left fun h => hi h.1⟩⟩
    rcases hon with ⟨_, hs⟩ | hon
    · have hws := h₂.winsect hr
      rw [hs] at hws
      rw [← hws]
      exact h₂.inv.fat (by rw [hws]; exact hfat)
    · rw [h₂.kept.sectors]
      exact hon
  rw [freeRound, returns_bind]
  refine hmove.mono fun r w₂ ⟨h₂, hon₂⟩ => ?_
  simp only [returns_ite, returns_pure, returns_bind, returns_get]
  generalize (if w₂.geo.fsType = .fat16 then ldWord w₂.win p.i
    else ldDword w₂.win p.i % 0x10000000) = val
  have hfree : (if val = 0 then p.nfree + 1 else p.nfree) ≤ p.nfree + 1 := by
    split <;> omega
  refine ⟨fun _ => ⟨h₂, by simp⟩, fun hr => ⟨fun _ => ⟨h₂, fun n hn => ⟨?_, ?_⟩⟩, fun hc => ?_⟩⟩
  · exact hon₂ (by simpa using hr)
  · cases hn
    omega
  · exact ⟨p.clst - 1, by omega, h₂, Nat.le_refl _, ⟨by simp only; omega, by simp only; omega⟩,
      .inr (hon₂ (by simpa using hr))⟩

omit hg in
/-- The count of free clusters may be set once the FAT is on the device. -/
theorem Inv.setFree {w : State} (hw : Inv g w) (n : Nat) (hon : g.fatbase < w.disk.sectors) :
    Inv g { w with freeClst := n, fsiFlag := w.fsiFlag ||| 1 } :=
  ⟨hw.geo, hw.reliable, hw.size, hw.coherent, hw.winsect, hw.fat, fun _ => hon⟩

/-- The scan of `f_getfree` on the FAT of each type, and the count that it stores. -/
theorem getfreeScan_preserves {w : State} (hw : Inv g w) :
    Returns (do
      let r ← (if g.fsType = .fat12 then loop free12Round g.nFatent (2, 0)
        else loop freeRound (g.nFatent + 1) ⟨g.nFatent, g.fatbase, 0, 0⟩)
      match r with
      | .error res => return (res, 0)
      | .ok nfree =>
        modify fun w => { w with freeClst := nfree, fsiFlag := w.fsiFlag ||| 1 }
        return (.ok, nfree) : M (FRESULT × Nat)) w fun _ w' => Inv g w' := by
  have hscan : Returns (if g.fsType = .fat12 then loop free12Round g.nFatent (2, 0)
      else loop freeRound (g.nFatent + 1) ⟨g.nFatent, g.fatbase, 0, 0⟩) w fun r w' =>
      Inv g w' ∧ ∀ n, r = .ok n → g.fatbase < w'.disk.sectors ∧ n ≤ g.nFatent := by
    rw [returns_ite]
    exact ⟨fun _ => free12_inv hg hw, fun _ => free_inv hg hw⟩
  rw [returns_bind]
  refine hscan.mono fun r w₁ ⟨h₁, hon⟩ => ?_
  cases r with
  | error res => exact returns_pure.2 h₁
  | ok n =>
    simp only [returns_bind, returns_modify, returns_pure]
    exact h₁.setFree n (hon n rfl).1

end

/-! ## Calls from every ready state -/

/-- A function of the interface: it returns on every image and leaves the module ready, and while a
volume is mounted it keeps its window invariant. -/
structure Serves {α : Type} (m : M α) : Prop where
  ready : ∀ w : State, w.Ready → (w.geo.fsType = .none → w.disk.MountsSound) →
    Returns m w fun _ w' => w'.Ready
  keeps : ∀ g : Geometry, g.Sound → Preserves (Inv g) m

section
variable {α : Type} {m : M α}

/-- It is enough to know what the function does on a mounted volume and on a blank filesystem
object. -/
theorem Serves.of (hk : ∀ g : Geometry, g.Sound → Preserves (Inv g) m)
    (hb : ∀ w : State, w.Ready → w.geo.fsType = .none → w.disk.MountsSound →
      Returns m w fun _ w' => w'.Ready) : Serves m where
  keeps := hk
  ready := fun w hw hs => by
    by_cases hm : w.geo.fsType = .none
    · exact hb w hw hm (hs hm)
    · obtain ⟨hg, hi⟩ := hw.mounted hm
      exact (hk _ hg w hi).mono fun _ _ h => .of_inv hg h

/-- `mount_volume` has nothing to do while the volume is mounted. -/
theorem mountVolume_preserves {g : Geometry} (hg : g.Sound) (path : List UInt8) (mode : UInt8) :
    Preserves (Inv g) (mountVolume path mode) := by
  unfold mountVolume
  refine .get fun w hw => ?_
  obtain ⟨known, rest⟩ := getLdnumber w.charSigned path
  cases known with
  | false => exact .pure _
  | true =>
    refine .ite (fun _ => .pure _) fun _ => .ite (fun _ => .ite (fun _ => .pure _) fun _ => .pure _)
      fun hm => absurd ⟨?_, rfl⟩ hm
    rw [hw.geo]
    exact hg.fsType

/-- A function that mounts the volume first, and then works on it. -/
theorem Serves.mountThen {k : FRESULT × List UInt8 → M α} {path : List UInt8} {mode : UInt8}
    (hok : ∀ g : Geometry, g.Sound → ∀ r, Preserves (Inv g) (k r))
    (herr : ∀ r p, r ≠ .ok → ∃ a, k (r, p) = pure a) : Serves (mountVolume path mode >>= k) := by
  refine .of (fun g hg => .bind (mountVolume_preserves hg path mode) (hok g hg)) fun w hw _ hs => ?_
  rw [returns_bind]
  refine (mountVolume_ready hw (fun _ => hs) path mode).mono fun r w₁ ⟨h₁, hm⟩ => ?_
  obtain ⟨r, p⟩ := r
  by_cases hr : r = .ok
  · subst hr
    obtain ⟨hg, hi⟩ := h₁.mounted (hm rfl)
    exact (hok _ hg (.ok, p) w₁ hi).mono fun _ _ h => .of_inv hg h
  · obtain ⟨a, ha⟩ := herr r p hr
    rw [ha]
    exact returns_pure.2 h₁

/-- A function that validates its object first. -/
theorem Serves.validateThen {k : FRESULT → M α} {fs : Bool} {id : Nat}
    (hm : m = validate fs id >>= k) (hp : ∀ g : Geometry, g.Sound → Preserves (Inv g) m)
    (herr : ∃ a, k .invalidObject = pure a) : Serves m := by
  refine .of hp fun w hw hmnt _ => ?_
  obtain ⟨a, ha⟩ := herr
  rw [hm, validate]
  simp only [returns_bind, returns_get, returns_pure, hmnt]
  simpa [ha] using hw

end

/-- `f_read` may be called in any state that the API leaves. -/
theorem fRead_serves (fp : FIL) (btr : Nat) : Serves (fRead fp btr) :=
  .validateThen rfl (fun _ hg => fRead_preserves hg fp btr) ⟨_, rfl⟩

/-- `f_write` may be called in any state that the API leaves. -/
theorem fWrite_serves (fp : FIL) (buff : List UInt8) : Serves (fWrite fp buff) :=
  .validateThen rfl (fun _ hg => fWrite_preserves hg fp buff) ⟨_, rfl⟩

/-- `f_lseek` may be called in any state that the API leaves. -/
theorem fLseek_serves (fp : FIL) {ofs : Nat} (hofs : ofs < W32) : Serves (fLseek fp ofs) :=
  .validateThen rfl (fun _ hg => fLseek_preserves hg fp hofs) ⟨_, rfl⟩

/-- `f_truncate` may be called in any state that the API leaves. -/
theorem fTruncate_serves (fp : FIL) : Serves (fTruncate fp) :=
  .validateThen rfl (fun _ hg => fTruncate_preserves hg fp) ⟨_, rfl⟩

/-- `f_sync` may be called in any state that the API leaves. -/
theorem fSync_serves (fp : FIL) : Serves (fSync fp) :=
  .validateThen rfl (fun _ hg => fSync_preserves hg fp) ⟨_, rfl⟩

/-- `f_close` may be called in any state that the API leaves. -/
theorem fClose_serves (fp : FIL) : Serves (fClose fp) := by
  refine .of (fun g hg => fClose_preserves hg fp) fun w hw hm hs => ?_
  rw [fClose, returns_bind]
  refine ((fSync_serves fp).ready w hw fun _ => hs).mono fun r w₁ h₁ => ?_
  simp only [validate, returns_ite, returns_pure, returns_bind, returns_get]
  exact ⟨fun _ => h₁, fun _ => h₁⟩

/-- `f_readdir` reads one entry and goes on to the next. -/
theorem fReaddir_serves (dp : DIR) (fno : FILINFO) : Serves (fReaddir dp fno) := by
  refine .validateThen rfl (fun g hg => ?_) ⟨_, rfl⟩
  exact .bind (.get fun _ _ => .pure _) fun r => .ite (fun _ => .bind (dirRead_preserves hg _ _)
    fun r => .ite (fun _ => .get fun _ _ => .bind (dirNext_preserves hg _ _) fun r => .pure _)
      fun _ => .pure _) fun _ => .pure _

/-- `f_readdir` with a null pointer rewinds the directory. -/
theorem fRewinddir_serves (dp : DIR) : Serves (fRewinddir dp) := by
  refine .validateThen rfl (fun g hg => ?_) ⟨_, rfl⟩
  exact .bind (.get fun _ _ => .pure _) fun r => .ite (fun _ => dirSdi_preserves hg _ _)
    fun _ => .pure _

/-- `f_closedir` touches nothing but the directory object. -/
theorem fClosedir_serves (dp : DIR) : Serves (fClosedir dp) :=
  .validateThen rfl (fun _ _ => .bind (.get fun _ _ => .pure _) fun _ => .pure _) ⟨_, rfl⟩

/-- `f_open` mounts the volume when that is due, then follows the path. -/
theorem fOpen_serves (fp : FIL) (path : List UInt8) (mode : UInt8) :
    Serves (fOpen fp path mode) := by
  refine .mountThen (fun g hg p => ?_) fun r p h => ⟨_, if_neg h⟩
  exact .ite (fun _ => .bind (followPath_preserves hg _ _) fun r => .bind (.ite
    (fun _ => openCreate_preserves hg _ _ _) fun _ => .pure _) fun r => .ite
      (fun _ => .bind (openFil_preserves hg _ _ _) fun r => .pure _) fun _ => .pure _)
    fun _ => .pure _

/-- `f_opendir` mounts the volume when that is due, then follows the path. -/
theorem fOpendir_serves (dp : DIR) (path : List UInt8) : Serves (fOpendir dp path) := by
  refine .mountThen (fun g hg p => ?_) fun r p h => ⟨_, if_neg h⟩
  exact .ite (fun _ => .bind (followPath_preserves hg _ _) fun r => .ite (fun _ => .get fun w _ =>
    .ite (fun _ => .pure _) fun _ => .bind (dirSdi_preserves hg _ _) fun r => .pure _)
      fun _ => .pure _) fun _ => .pure _

/-- `f_stat` mounts the volume when that is due, then follows the path. -/
theorem fStat_serves (path : List UInt8) (fno : FILINFO) : Serves (fStat path fno) := by
  refine .mountThen (fun g hg p => ?_) fun r p h => ⟨_, if_neg h⟩
  exact .ite (fun _ => .bind (followPath_preserves hg _ _) fun r => .ite (fun _ => .ite
    (fun _ => .pure _) fun _ => .get fun _ _ => .pure _) fun _ => .pure _) fun _ => .pure _

/-- `f_getfree` answers the stored count or scans the FAT. -/
theorem fGetfree_serves (path : List UInt8) : Serves (fGetfree path) := by
  refine .mountThen (fun g hg p => ?_) fun r p h => ⟨_, if_neg h⟩
  refine .ite (fun _ => .get fun w hw => .ite (fun _ => .pure _) fun _ => ?_) fun _ => .pure _
  intro w₁ h₁
  rw [hw.geo]
  exact getfreeScan_preserves hg h₁

/-- `f_unlink` removes the entry first and the chain after it. -/
theorem fUnlink_serves (path : List UInt8) : Serves (fUnlink path) := by
  refine .mountThen (fun g hg p => ?_) fun r p h => ⟨_, if_neg h⟩
  exact .ite (fun _ => .bind (followPath_preserves hg _ _) fun r => .ite (fun _ => .ite
    (fun _ => .pure _) fun _ => .ite (fun _ => .pure _) fun _ => .get fun _ _ => .bind (.ite
      (fun _ => dirEmpty_preserves hg _) fun _ => .pure _) fun r => .ite (fun _ => .bind
        (dirRemove_preserves hg _) fun r => .ite (fun _ => .bind (.ite
          (fun _ => removeChain_preserves hg _ _) fun _ => .pure _) fun r => .ite
            (fun _ => syncFs_preserves hg) fun _ => .pure _) fun _ => .pure _) fun _ => .pure _)
    fun _ => .pure _) fun _ => .pure _

/-- `f_mkdir` allocates the cluster first and registers the name after it. -/
theorem fMkdir_serves (path : List UInt8) : Serves (fMkdir path) := by
  refine .mountThen (fun g hg p => ?_) fun r p h => ⟨_, if_neg h⟩
  refine .ite (fun _ => .bind (followPath_preserves hg _ _) fun r => .ite (fun _ => .pure _)
    fun _ => .ite (fun _ => ?_) fun _ => .pure _) fun _ => .pure _
  intro w₁ h₁
  rw [returns_bind]
  refine (createChain_inv hg h₁ 0).mono fun dcl w₂ h₂ => ?_
  -- the table is cleared only for a cluster that `create_chain` gave
  have hrest : Preserves (Inv g) (if dcl = 0 then pure (.denied, r.2)
      else if dcl = 1 then pure (.intErr, r.2) else if dcl = DISKERR then pure (.diskErr, r.2)
      else mkdirTable r.2 dcl) :=
    .ite (fun _ => .pure _) fun h0 => .ite (fun _ => .pure _) fun h1 => .ite (fun _ => .pure _)
      fun hd => mkdirTable_preserves hg _ (h₂.isClust h0 h1 hd)
  exact Preserves.bind hrest (fun r => .ite (fun _ => .get fun _ _ => .bind (modWin_preserves _)
    fun _ => syncFs_preserves hg) fun _ => .bind (removeChain_preserves hg _ _) fun r => .pure _)
    w₂ h₂.fat.inv

/-- `f_rename` on a volume that is mounted already. -/
theorem renameObject_preserves {g : Geometry} (hg : g.Sound) (pathOld pathNew : List UInt8) :
    Preserves (Inv g) (renameObject pathOld pathNew) := by
  unfold renameObject
  exact .bind (followPath_preserves hg _ _) fun _ => .ite (fun _ => .ite (fun _ => .pure _)
    fun _ => .get fun _ _ => .bind (followPath_preserves hg _ _) fun _ => .bind
      (.ite (fun _ => renameEnter_preserves hg _ _ _) fun _ => .pure _) fun _ => .ite
        (fun _ => .bind (dirRemove_preserves hg _) fun _ => .ite (fun _ => syncFs_preserves hg)
          fun _ => .pure _) fun _ => .pure _) fun _ => .pure _

/-- `f_rename` mounts the volume when that is due, then follows both paths. -/
theorem fRename_serves (pathOld pathNew : List UInt8) : Serves (fRename pathOld pathNew) := by
  have hbody : ∀ p, Serves (mountVolume pathOld FA_WRITE >>= fun r =>
      if r.1 = .ok then renameObject r.2 p else pure r.1) := fun p =>
    .mountThen (fun g hg r => .ite (fun _ => renameObject_preserves hg _ _) fun _ => .pure _)
      fun r p h => ⟨_, if_neg h⟩
  refine ⟨fun w hw hs => ?_, fun g hg => ?_⟩
  · rw [fRename, returns_bind, returns_get]
    exact (hbody _).ready w hw hs
  · unfold fRename
    exact .get fun w _ => (hbody _).keeps g hg

/-- A call that mounts at once needs a sound layout on the device whatever was mounted before. -/
theorem fMount_ready {w : State} (hw : w.Ready) (fs : Bool) (path : List UInt8) {opt : Nat}
    (hs : opt ≠ 0 → w.disk.MountsSound) : Returns (fMount fs path opt) w fun r w' =>
      w'.Ready ∧ (r = .ok → opt ≠ 0 → w'.geo.fsType ≠ .none) := by
  rw [fMount, returns_bind, returns_get]
  obtain ⟨known, rest⟩ := getLdnumber w.charSigned path
  cases known with
  | false => exact returns_pure.2 ⟨hw, by simp⟩
  | true =>
    have h₁ : ∀ w' : State, (w' = if w.registered = true ∨ fs = true then
        { w with registered := fs, geo := { w.geo with fsType := .none } } else w) →
        w'.Ready ∧ w'.disk = w.disk := by
      rintro _ rfl
      split
      · exact ⟨⟨hw.reliable, hw.size, fun h => absurd rfl h⟩, rfl⟩
      · exact ⟨hw, rfl⟩
    obtain ⟨hr, hd⟩ := h₁ _ rfl
    simp only [returns_bind, returns_modify, returns_ite, returns_pure]
    refine ⟨fun h0 => ⟨hr, fun _ h => absurd h0 h⟩, fun hne => ?_⟩
    exact (mountVolume_ready hr (fun _ => by rw [hd]; exact hs hne) path 0).mono fun r w' h =>
      ⟨h.1, fun hok _ => h.2 hok⟩

/-! ## Runs -/

/-- The condition on a call: if it mounts a volume, the volume on the device has a sound layout. -/
def Call.MountsSound (s : Session) (c : Call) : Prop :=
  (s.w.geo.fsType = .none ∨ ∃ fs path opt, c = .mount fs path opt ∧ opt ≠ 0) →
    s.w.disk.MountsSound

/-- A call of the session leaves the volume in a state for the next call. -/
theorem Session.run_ready {α : Type} {s : Session} {m : M α} {out : Session → α → FRESULT × Session}
    (hout : ∀ t a, (out t a).2.w = t.w) (h : Returns m s.w fun _ w' => w'.Ready) :
    ∃ r t, s.run m out = some (r, t) ∧ t.w.Ready := by
  obtain ⟨a, w, he, hw⟩ := Session.run_returns h out
  refine ⟨_, _, he, ?_⟩
  rw [hout]
  exact hw

/-- Every call returns, and leaves the module ready. -/
theorem exec_returns {s : Session} (hs : s.w.Ready) {c : Call} (hc : c.MountsSound s) :
    ∃ r t, exec s c = some (r, t) ∧ t.w.Ready := by
  have hrun : ∀ {α : Type} {m : M α} {out : Session → α → FRESULT × Session},
      (∀ t a, (out t a).2.w = t.w) → Serves m → ∃ r t, s.run m out = some (r, t) ∧ t.w.Ready :=
    fun hout hm => Session.run_ready hout (hm.ready s.w hs fun h => hc (.inl h))
  cases c with
  | mount fs path opt =>
    rw [exec]
    exact Session.run_ready (fun _ _ => rfl) ((fMount_ready hs fs path fun h =>
      hc (.inr ⟨_, _, _, rfl, h⟩)).mono fun _ _ h => h.1)
  | opendir d path =>
    rw [exec]
    exact hrun (fun _ _ => rfl) (fOpendir_serves _ path)
  | readdir d fno =>
    rw [exec]
    exact hrun (fun _ _ => rfl) (fReaddir_serves _ fno)
  | rewinddir d =>
    rw [exec]
    exact hrun (fun _ _ => rfl) (fRewinddir_serves _)
  | closedir d =>
    rw [exec]
    exact hrun (fun _ _ => rfl) (fClosedir_serves _)
  | stat path fno =>
    rw [exec]
    exact hrun (fun _ _ => rfl) (fStat_serves path fno)
  | «open» f path mode =>
    rw [exec]
    exact hrun (fun _ _ => rfl) (fOpen_serves _ path mode)
  | read f btr =>
    rw [exec]
    exact hrun (fun _ _ => rfl) (fRead_serves _ _)
  | write f buff =>
    rw [exec]
    exact hrun (fun _ _ => rfl) (fWrite_serves _ buff)
  | lseek f ofs =>
    rw [exec]
    exact hrun (fun _ _ => rfl) (fLseek_serves _ ofs.toNat_lt)
  | truncate f =>
    rw [exec]
    exact hrun (fun _ _ => rfl) (fTruncate_serves _)
  | sync f =>
    rw [exec]
    exact hrun (fun _ _ => rfl) (fSync_serves _)
  | close f =>
    rw [exec]
    exact hrun (fun _ _ => rfl) (fClose_serves _)
  | unlink path =>
    rw [exec]
    exact hrun (fun _ _ => rfl) (fUnlink_serves path)
  | mkdir path =>
    rw [exec]
    exact hrun (fun _ _ => rfl) (fMkdir_serves path)
  | rename pathOld pathNew =>
    rw [exec]
    exact hrun (fun _ _ => rfl) (fRename_serves _ _)
  | getfree path =>
    rw [exec]
    exact hrun (fun _ _ => rfl) (fGetfree_serves path)

/-- Every session that a run reaches is ready. -/
theorem Reaches.ready {s t : Session} (hs : s.w.Ready)
    (h : Reaches (fun u c => c.MountsSound u) s t) : t.w.Ready := by
  induction h with
  | refl => exact hs
  | call _ hc he ih =>
    obtain ⟨r, u, he', hu⟩ := exec_returns ih hc
    rw [he] at he'
    cases he'
    exact hu

/-! ## The walks of the harness -/

section
variable {g : Geometry} (hg : g.Sound)

include hg

end

end FatFs
