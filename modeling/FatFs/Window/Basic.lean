import FatFs.Model.Fat

/-!
# The disk functions and the window

What the disk functions, `sync_window` and `move_window` do to the state, as equations for the
precondition `Returns`. `State.note` is the state after a transfer was logged, `State.store` the
state after one or more sectors were written.
-/

namespace FatFs

open Run

namespace State

/-- The state after the transfer `a` was asked of the device. -/
def note (w : State) (a : Access) : State :=
  { w with disk := { w.disk with log := a :: w.disk.log } }

/-- The state after `count` sectors were written from `buff` at `sector`. -/
def store (w : State) (buff : Nat → Sector) (sector count : Nat) : State :=
  { w with disk := { w.disk with
      data := fun s => if sector ≤ s ∧ s < sector + count then buff (s - sector)
        else w.disk.data s } }

section
variable (w : State) (a : Access) (buff : Nat → Sector) (s c : Nat)

@[simp] theorem note_geo : (w.note a).geo = w.geo := rfl
@[simp] theorem note_wflag : (w.note a).wflag = w.wflag := rfl
@[simp] theorem note_winsect : (w.note a).winsect = w.winsect := rfl
@[simp] theorem note_win : (w.note a).win = w.win := rfl
@[simp] theorem note_fsiFlag : (w.note a).fsiFlag = w.fsiFlag := rfl
@[simp] theorem note_lastClst : (w.note a).lastClst = w.lastClst := rfl
@[simp] theorem note_freeClst : (w.note a).freeClst = w.freeClst := rfl
@[simp] theorem note_registered : (w.note a).registered = w.registered := rfl
@[simp] theorem note_fsid : (w.note a).fsid = w.fsid := rfl
@[simp] theorem note_charSigned : (w.note a).charSigned = w.charSigned := rfl
@[simp] theorem note_data : (w.note a).disk.data = w.disk.data := rfl
@[simp] theorem note_sectors : (w.note a).disk.sectors = w.disk.sectors := rfl
@[simp] theorem note_blockSize : (w.note a).disk.blockSize = w.disk.blockSize := rfl
@[simp] theorem note_fault : (w.note a).disk.fault = w.disk.fault := rfl
@[simp] theorem note_log : (w.note a).disk.log = a :: w.disk.log := rfl

@[simp] theorem store_geo : (w.store buff s c).geo = w.geo := rfl
@[simp] theorem store_wflag : (w.store buff s c).wflag = w.wflag := rfl
@[simp] theorem store_winsect : (w.store buff s c).winsect = w.winsect := rfl
@[simp] theorem store_win : (w.store buff s c).win = w.win := rfl
@[simp] theorem store_fsiFlag : (w.store buff s c).fsiFlag = w.fsiFlag := rfl
@[simp] theorem store_lastClst : (w.store buff s c).lastClst = w.lastClst := rfl
@[simp] theorem store_freeClst : (w.store buff s c).freeClst = w.freeClst := rfl
@[simp] theorem store_registered : (w.store buff s c).registered = w.registered := rfl
@[simp] theorem store_fsid : (w.store buff s c).fsid = w.fsid := rfl
@[simp] theorem store_charSigned : (w.store buff s c).charSigned = w.charSigned := rfl
@[simp] theorem store_sectors : (w.store buff s c).disk.sectors = w.disk.sectors := rfl
@[simp] theorem store_blockSize : (w.store buff s c).disk.blockSize = w.disk.blockSize := rfl
@[simp] theorem store_fault : (w.store buff s c).disk.fault = w.disk.fault := rfl
@[simp] theorem store_log : (w.store buff s c).disk.log = w.disk.log := rfl

/-- A write replaces the sectors of its range and no other. -/
theorem store_data (t : Nat) : (w.store buff s c).disk.data t =
    if s ≤ t ∧ t < s + c then buff (t - s) else w.disk.data t := rfl

end

end State

section
variable {w : State}

/-- A range is on the device if its first sector is and its end is not behind the last. -/
theorem Disk.inBounds_iff {d : Disk} {s c : Nat} :
    d.inBounds s c = true ↔ s < d.sectors ∧ s + c ≤ d.sectors := by
  simp only [Disk.inBounds, Bool.and_eq_true, decide_eq_true_eq]
  omega

/-- On a reliable device the transfers inside it are served. -/
theorem Disk.Reliable.serves {d : Disk} (h : d.Reliable) (s c : Nat) :
    d.serves s c = d.inBounds s c := by
  simp [Disk.serves, h d.log.length]

/-- A transfer that is served stays inside the device. -/
theorem Disk.inBounds_of_serves {d : Disk} {s c : Nat} (h : d.serves s c = true) :
    d.inBounds s c = true := by
  simp only [Disk.serves, Bool.and_eq_true] at h
  exact h.1

/-- `disk_read` answers the sectors of the range, or fails; it is noted either way. -/
theorem returns_diskRead {s c : Nat} {Q : Option (Nat → Sector) → State → Prop} :
    Returns (diskRead s c) w Q ↔
      (w.disk.serves s c = true → Q (some fun k => w.disk.data (s + k)) (w.note (.read s c))) ∧
      (¬w.disk.serves s c = true → Q none (w.note (.read s c))) := by
  simp only [diskRead, returns_bind, returns_get, returns_modify, returns_ite, returns_pure]
  rfl

/-- `disk_write` stores the whole range or nothing; it is noted either way. -/
theorem returns_diskWrite {buff : Nat → Sector} {s c : Nat} {Q : DRESULT → State → Prop} :
    Returns (diskWrite buff s c) w Q ↔
      (w.disk.serves s c = true → Q .ok ((w.note (.write s c)).store buff s c)) ∧
      (¬w.disk.serves s c = true →
        Q (if w.disk.inBounds s c then .error else .parerr) (w.note (.write s c))) := by
  simp only [diskWrite, returns_bind, returns_get, returns_modify, returns_ite, returns_pure]
  rfl

end

/-! ## The window -/

/-- The logical content of a sector: the window if it is dirty and holds the sector, else the
device. -/
def State.logical (w : State) (s : Nat) : Sector :=
  if w.wflag = true ∧ s = w.winsect then w.win else w.disk.data s

/-- A clean window holds what the device holds, if it is on the device at all. -/
def State.Coherent (w : State) : Prop :=
  w.wflag = false → w.winsect < w.disk.sectors → w.win = w.disk.data w.winsect

/-- The members of the state that the window functions keep. -/
structure Kept (w w' : State) : Prop where
  geo : w'.geo = w.geo
  fsiFlag : w'.fsiFlag = w.fsiFlag
  lastClst : w'.lastClst = w.lastClst
  freeClst : w'.freeClst = w.freeClst
  registered : w'.registered = w.registered
  fsid : w'.fsid = w.fsid
  charSigned : w'.charSigned = w.charSigned
  sectors : w'.disk.sectors = w.disk.sectors
  blockSize : w'.disk.blockSize = w.disk.blockSize
  fault : w'.disk.fault = w.disk.fault

/-- Nothing is changed when nothing is done. -/
theorem Kept.refl (w : State) : Kept w w := ⟨rfl, rfl, rfl, rfl, rfl, rfl, rfl, rfl, rfl, rfl⟩

/-- What two steps keep, both together keep. -/
theorem Kept.trans {w₁ w₂ w₃ : State} (h : Kept w₁ w₂) (h' : Kept w₂ w₃) : Kept w₁ w₃ :=
  ⟨h'.geo.trans h.geo, h'.fsiFlag.trans h.fsiFlag, h'.lastClst.trans h.lastClst,
    h'.freeClst.trans h.freeClst, h'.registered.trans h.registered, h'.fsid.trans h.fsid,
    h'.charSigned.trans h.charSigned, h'.sectors.trans h.sectors,
    h'.blockSize.trans h.blockSize, h'.fault.trans h.fault⟩

/-- A reliable device stays reliable: its size and its faults do not change. -/
theorem Kept.reliable {w w' : State} (h : Kept w w') (hr : w.disk.Reliable) :
    w'.disk.Reliable := by
  intro k
  rw [h.fault]
  exact hr k

/-- The window of `w` is in the first of two FATs, so a flush reflects it to the sector `s` of the
second. -/
def State.Mirrors (w : State) (s : Nat) : Prop :=
  w.wflag = true ∧ w.geo.nFats = 2 ∧ sub32 w.winsect w.geo.fatbase < w.geo.fsize ∧
    s = add32 w.winsect w.geo.fsize

/-- The device of `w'` holds the logical content of `w`, but for the reflection to the second
FAT. -/
def Flushed (w w' : State) : Prop :=
  ∀ s, w'.disk.data s = w.logical s ∨ (w.Mirrors s ∧ w'.disk.data s = w.win)

/-- With a clean window the contents are those of the device. -/
theorem logical_of_clean {w : State} (h : w.wflag = false) (s : Nat) :
    w.logical s = w.disk.data s := by
  simp [State.logical, h]

/-- A dirty window is the contents of its sector. -/
theorem logical_dirty {w : State} (h : w.wflag = true) : w.logical w.winsect = w.win := by
  simp [State.logical, h]

/-- The window only stands for its own sector. -/
theorem logical_of_ne {w : State} {s : Nat} (h : s ≠ w.winsect) :
    w.logical s = w.disk.data s := by
  simp [State.logical, h]

/-- There is nothing to flush from a clean window. -/
theorem Flushed.of_clean {w w' : State} (h : Flushed w w') (hc : w.wflag = false) :
    w'.disk.data = w.disk.data := by
  funext s
  rcases h s with h | ⟨⟨hd, _⟩, _⟩
  · rw [h, logical_of_clean hc]
  · rw [hc] at hd
    cases hd

/-- The outcomes of `sync_window`: the window is flushed, or the device refused it. -/
structure SyncPost (w : State) (r : FRESULT) (w' : State) : Prop where
  kept : Kept w w'
  winsect : w'.winsect = w.winsect
  win : w'.win = w.win
  out : (r = .ok ∧ w'.wflag = false ∧ Flushed w w' ∧ (w.wflag = true → w.winsect < w.disk.sectors))
    ∨ (r = .diskErr ∧ w.wflag = true ∧ w'.wflag = true ∧ w'.disk.data = w.disk.data ∧
      (w.disk.Reliable → w.disk.sectors ≤ w.winsect))

/-- What `sync_window` does. -/
theorem syncWindow_spec (w : State) : Returns syncWindow w (SyncPost w) := by
  rw [syncWindow, returns_bind, returns_get, returns_ite]
  refine ⟨fun hd => ?_, fun hc => ?_⟩
  · simp only [returns_bind, returns_ite, returns_pure, returns_modify, returns_diskWrite]
    refine ⟨fun hs => ⟨fun _ => ⟨fun hm => ?_, fun hm => ?_⟩, by simp⟩,
      fun hs => ⟨fun h => ?_, fun _ => ?_⟩⟩
    · have hb := Disk.inBounds_iff.1 (Disk.inBounds_of_serves hs)
      -- the mirrored write may itself be refused
      refine ⟨fun _ => ?_, fun _ => ?_⟩
      · refine ⟨⟨rfl, rfl, rfl, rfl, rfl, rfl, rfl, rfl, rfl, rfl⟩, rfl, rfl,
          .inl ⟨rfl, rfl, fun s => ?_, fun _ => hb.1⟩⟩
        by_cases hs' : s = add32 w.winsect w.geo.fsize
        · exact .inr ⟨⟨hd, hm.2, hm.1, hs'⟩, by simp [State.store_data, hs']⟩
        · left
          simp only [State.store_data, State.note_data, State.logical]
          rw [if_neg (by omega)]
          grind
      · refine ⟨⟨rfl, rfl, rfl, rfl, rfl, rfl, rfl, rfl, rfl, rfl⟩, rfl, rfl,
          .inl ⟨rfl, rfl, fun s => .inl ?_, fun _ => hb.1⟩⟩
        simp only [State.store_data, State.note_data, State.logical]
        grind
    · have hb := Disk.inBounds_iff.1 (Disk.inBounds_of_serves hs)
      refine ⟨⟨rfl, rfl, rfl, rfl, rfl, rfl, rfl, rfl, rfl, rfl⟩, rfl, rfl,
        .inl ⟨rfl, rfl, fun s => .inl ?_, fun _ => hb.1⟩⟩
      simp only [State.store_data, State.note_data, State.logical]
      grind
    · split at h <;> cases h
    · refine ⟨⟨rfl, rfl, rfl, rfl, rfl, rfl, rfl, rfl, rfl, rfl⟩, rfl, rfl,
        .inr ⟨rfl, hd, hd, rfl, fun hr => ?_⟩⟩
      rw [hr.serves, Disk.inBounds_iff] at hs
      omega
  · have hf : w.wflag = false := by simpa using hc
    simp only [returns_pure]
    exact ⟨Kept.refl w, rfl, rfl,
      .inl ⟨rfl, hf, fun s => .inl (logical_of_clean hf s).symm, fun h => absurd h hc⟩⟩

/-- The outcomes of `move_window`: the window was there already; it was flushed and filled; the
flush was refused; the read was refused. -/
inductive MovePost (w : State) (s : Nat) : FRESULT → State → Prop
  | same : s = w.winsect → MovePost w s .ok w
  | moved {w' : State} : Kept w w' → s ≠ w.winsect → w'.wflag = false → w'.winsect = s →
      w'.win = w'.disk.data s → s < w.disk.sectors → Flushed w w' → MovePost w s .ok w'
  | stuck {w' : State} : Kept w w' → s ≠ w.winsect → w.wflag = true → w'.wflag = true →
      w'.winsect = w.winsect → w'.win = w.win → w'.disk.data = w.disk.data →
      (w.disk.Reliable → w.disk.sectors ≤ w.winsect) → MovePost w s .diskErr w'
  | lost {w' : State} : Kept w w' → s ≠ w.winsect → w'.wflag = false → w'.winsect = 0xFFFFFFFF →
      w'.win = w.win → Flushed w w' → (w.disk.Reliable → w.disk.sectors ≤ s) →
      MovePost w s .diskErr w'

/-- What `move_window` does. -/
theorem moveWindow_spec (w : State) (s : Nat) : Returns (moveWindow s) w (MovePost w s) := by
  rw [moveWindow, returns_bind, returns_get, returns_ite]
  refine ⟨fun hne => ?_, fun he => ?_⟩
  · rw [returns_bind]
    refine (syncWindow_spec w).mono fun r w₁ h₁ => ?_
    rcases h₁.out with ⟨rfl, hc, hf, _⟩ | ⟨rfl, hd, hd₁, hdata, hrel⟩
    · simp only [returns_ite, returns_bind, returns_diskRead]
      refine ⟨fun _ => ⟨fun hs => ?_, fun hs => ?_⟩, by simp⟩
      · have hb := Disk.inBounds_iff.1 (Disk.inBounds_of_serves hs)
        simp only [returns_modify, returns_pure]
        exact .moved ⟨h₁.kept.geo, h₁.kept.fsiFlag, h₁.kept.lastClst, h₁.kept.freeClst,
          h₁.kept.registered, h₁.kept.fsid, h₁.kept.charSigned, h₁.kept.sectors,
          h₁.kept.blockSize, h₁.kept.fault⟩ hne hc rfl rfl (h₁.kept.sectors ▸ hb.1) hf
      · simp only [returns_modify, returns_pure]
        refine .lost ⟨h₁.kept.geo, h₁.kept.fsiFlag, h₁.kept.lastClst, h₁.kept.freeClst,
          h₁.kept.registered, h₁.kept.fsid, h₁.kept.charSigned, h₁.kept.sectors,
          h₁.kept.blockSize, h₁.kept.fault⟩ hne hc rfl h₁.win hf fun hr => ?_
        rw [(h₁.kept.reliable hr).serves, Disk.inBounds_iff, h₁.kept.sectors] at hs
        omega
    · simp only [returns_ite, returns_pure]
      exact ⟨by simp, fun _ => .stuck h₁.kept hne hd hd₁ h₁.winsect h₁.win hdata hrel⟩
  · have hs : s = w.winsect := by simpa using he
    simp only [returns_pure]
    exact .same hs

/-- Reading the FAT keeps what moving the window keeps. -/
theorem getFat_keeps {I : State → Prop} (hmove : ∀ s, Keeps I (moveWindow s)) (c : Nat) :
    Keeps I (getFat c) := by
  unfold getFat
  refine .get fun w _ => .ite (fun _ => .pure _) fun _ => ?_
  cases w.geo.fsType with
  | none => exact .pure _
  | fat12 =>
    exact .bind (hmove _) fun _ => .ite (fun _ => .pure _) fun _ => .get fun _ _ => .bind
      (hmove _) fun _ => .ite (fun _ => .pure _) fun _ => .get fun _ _ => .pure _
  | fat16 =>
    exact .bind (hmove _) fun _ => .ite (fun _ => .pure _) fun _ => .get fun _ _ => .pure _
  | fat32 =>
    exact .bind (hmove _) fun _ => .ite (fun _ => .pure _) fun _ => .get fun _ _ => .pure _

end FatFs
