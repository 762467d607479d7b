import FatFs.Model.Tree

/-!
# Runs of the application interface

An application holds file and directory objects and calls the functions of `ff.h` on them, as the
harnesses do. A `Session` is the state of the module with these objects, a `Call` one call with its
arguments, and `exec` makes the call. A slot that was never opened holds whatever memory it has.
-/

namespace FatFs

/-- The state of the module and the objects of the application. -/
structure Session where
  /-- The state of the module and the device. -/
  w : State
  /-- The file objects. -/
  files : Nat → FIL
  /-- The directory objects. -/
  dirs : Nat → DIR

/-- A call of the application interface. -/
inductive Call
  | mount (fs : Bool) (path : List UInt8) (opt : Nat)
  | opendir (d : Nat) (path : List UInt8)
  | readdir (d : Nat) (fno : FILINFO)
  | rewinddir (d : Nat)
  | closedir (d : Nat)
  | stat (path : List UInt8) (fno : FILINFO)
  | open (f : Nat) (path : List UInt8) (mode : UInt8)
  | read (f : Nat) (btr : UInt32)
  | write (f : Nat) (buff : List UInt8)
  | lseek (f : Nat) (ofs : UInt32)
  | truncate (f : Nat)
  | sync (f : Nat)
  | close (f : Nat)
  | unlink (path : List UInt8)
  | mkdir (path : List UInt8)
  | rename (pathOld pathNew : List UInt8)
  | getfree (path : List UInt8)

namespace Session

/-- The session after a call left the module in the state `w`. -/
def step (s : Session) (w : State) : Session := { s with w := w }

/-- The session with another file object in a slot. -/
def setFile (s : Session) (f : Nat) (fp : FIL) : Session :=
  { s with files := fun i => if i = f then fp else s.files i }

/-- The session with another directory object in a slot. -/
def setDir (s : Session) (d : Nat) (dp : DIR) : Session :=
  { s with dirs := fun i => if i = d then dp else s.dirs i }

/-- Run a function of the module; `out` stores its result. `none` when it does not return. -/
def run {α : Type} (s : Session) (m : M α) (out : Session → α → FRESULT × Session) :
    Option (FRESULT × Session) :=
  (m s.w).map fun r => out (s.step r.2) r.1

end Session

/-- Make a call; `none` when it does not return. -/
def exec (s : Session) : Call → Option (FRESULT × Session)
  | .mount fs path opt => s.run (fMount fs path opt) fun t r => (r, t)
  | .opendir d path => s.run (fOpendir (s.dirs d) path) fun t r => (r.1, t.setDir d r.2)
  | .readdir d fno => s.run (fReaddir (s.dirs d) fno) fun t r => (r.1, t.setDir d r.2.1)
  | .rewinddir d => s.run (fRewinddir (s.dirs d)) fun t r => (r.1, t.setDir d r.2)
  | .closedir d => s.run (fClosedir (s.dirs d)) fun t r => (r.1, t.setDir d r.2)
  | .stat path fno => s.run (fStat path fno) fun t r => (r.1, t)
  | .open f path mode => s.run (fOpen (s.files f) path mode) fun t r => (r.1, t.setFile f r.2)
  | .read f btr => s.run (fRead (s.files f) btr.toNat) fun t r => (r.1, t.setFile f r.2.1)
  | .write f buff => s.run (fWrite (s.files f) buff) fun t r => (r.1, t.setFile f r.2.1)
  | .lseek f ofs => s.run (fLseek (s.files f) ofs.toNat) fun t r => (r.1, t.setFile f r.2)
  | .truncate f => s.run (fTruncate (s.files f)) fun t r => (r.1, t.setFile f r.2)
  | .sync f => s.run (fSync (s.files f)) fun t r => (r.1, t.setFile f r.2)
  | .close f => s.run (fClose (s.files f)) fun t r => (r.1, t.setFile f r.2)
  | .unlink path => s.run (fUnlink path) fun t r => (r, t)
  | .mkdir path => s.run (fMkdir path) fun t r => (r, t)
  | .rename pathOld pathNew => s.run (fRename pathOld pathNew) fun t r => (r, t)
  | .getfree path => s.run (fGetfree path) fun t r => (r.1, t)

section
variable {α : Type} {s : Session} {m : M α}

open Run

theorem Session.run_ensures {out : Session → α → FRESULT × Session} {Q : α → State → Prop}
    {p : FRESULT × Session} (h : Ensures m s.w Q) (he : s.run m out = some p) :
    ∃ a w, p = out (s.step w) a ∧ Q a w := by
  obtain ⟨⟨a, w⟩, hm, rfl⟩ := Option.map_eq_some_iff.1 he
  exact ⟨a, w, rfl, h a w hm⟩

theorem Session.run_returns {Q : α → State → Prop} (h : Returns m s.w Q)
    (out : Session → α → FRESULT × Session) :
    ∃ a w, s.run m out = some (out (s.step w) a) ∧ Q a w := by
  obtain ⟨a, w, hm, hq⟩ := h
  refine ⟨a, w, ?_, hq⟩
  rw [Session.run, hm]
  rfl

end

/-- The sessions that a run reaches from `s` when every call satisfies `P` in the session it is made
in. -/
inductive Reaches (P : Session → Call → Prop) (s : Session) : Session → Prop
  | refl : Reaches P s s
  | call {t u : Session} {c : Call} {r : FRESULT} : Reaches P s t → P t c →
      exec t c = some (r, u) → Reaches P s u

/-- Make a list of calls one after the other. -/
def execAll : List Call → Session → Option Session
  | [], s => some s
  | c :: cs, s => (exec s c).bind fun r => execAll cs r.2

end FatFs
