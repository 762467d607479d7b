import FatFs.File.Append
import FatFs.Store.Volume

/-!
# Files that are opened and closed, as their user sees them

A `Shelf` has all files of a volume, open or closed. An application opens a file, makes calls on it
and closes it; the bytes stay in between. A file is not opened while it is open (`Orderly`): the
module has no locks for that in this configuration.
-/

namespace FatFs

open Run

/-- What an application does with a file. -/
inductive FileAct
  | op (op : Op)
  | open (mode : UInt8)
  | close

/-- The arguments are 32-bit words, and files are opened for reading and writing only. -/
def FileAct.Fits : FileAct → Prop
  | .op o => o.Fits
  | .open mode => mode ∈ accessModes
  | .close => True

/-- The files that are open after an act on the file `i`, of the files `held` before it. A file of
`readOnly` is not opened for writing. -/
def FileAct.after {ι : Type} [DecidableEq ι] (readOnly held : ι → Bool) (i : ι) : FileAct → ι → Bool
  | .op _ => held
  | .open mode =>
    if readOnly i = true ∧ hasBits mode FA_WRITE = true then held else Function.update held i true
  | .close => Function.update held i false

/-- The acts open no file that is open; the files `held` are open before the first. -/
def Orderly {ι : Type} [DecidableEq ι] (readOnly : ι → Bool) :
    (ι → Bool) → List (ι × FileAct) → Prop
  | _, [] => True
  | held, (i, act) :: acts => (∀ mode, act = .open mode → held i = false) ∧
      Orderly readOnly (act.after readOnly held i) acts

/-! ## The shelf -/

/-- The files of a volume. Those that are closed have their cursor at the start and no modes. -/
structure Shelf (ι : Type) extends Volume ι where
  isOpen : ι → Bool

section
variable {ι : Type} [DecidableEq ι]

/-- The file `i` with its cursor at the start and other modes. -/
def Volume.rewind (v : Volume ι) (i : ι) (canRead canWrite : Bool) : Volume ι :=
  { v with docs := Function.update v.docs i { v.docs i with pos := 0, canRead, canWrite } }

/-- An act on the file `i`; the files of `readOnly` are not opened for writing. -/
inductive Shelf.Step (b : Nat) (readOnly : ι → Bool) (v : Shelf ι) (i : ι) :
    FileAct → Reply → Shelf ι → Prop
  | op {op r u} (ho : v.isOpen i = true) (hs : v.toVolume.Step b i op r u) :
      Shelf.Step b readOnly v i (.op op) r { v with toVolume := u }
  | noOp {op} (ho : v.isOpen i = false) :
      Shelf.Step b readOnly v i (.op op) { res := .invalidObject } v
  | open {mode} (ho : v.isOpen i = false) (hm : readOnly i = true → hasBits mode FA_WRITE = false) :
      Shelf.Step b readOnly v i (.open mode) { res := .ok }
        { v.rewind i (hasBits mode FA_READ) (hasBits mode FA_WRITE) with
          isOpen := Function.update v.isOpen i true }
  | noOpen {mode} (ho : v.isOpen i = false) (hr : readOnly i = true)
      (hm : hasBits mode FA_WRITE = true) :
      Shelf.Step b readOnly v i (.open mode) { res := .denied } v
  | close (ho : v.isOpen i = true) :
      Shelf.Step b readOnly v i .close { res := .ok }
        { v.rewind i false false with isOpen := Function.update v.isOpen i false }
  | noClose (ho : v.isOpen i = false) :
      Shelf.Step b readOnly v i .close { res := .invalidObject } v

/-- A run of acts on the files, with the replies. -/
inductive Shelf.Run (b : Nat) (readOnly : ι → Bool) :
    Shelf ι → List (ι × FileAct) → List Reply → Shelf ι → Prop
  | nil (v) : Shelf.Run b readOnly v [] [] v
  | cons {v v₁ v₂ i act r acts replies} (hstep : v.Step b readOnly i act r v₁)
      (hrun : Shelf.Run b readOnly v₁ acts replies v₂) :
      Shelf.Run b readOnly v ((i, act) :: acts) (r :: replies) v₂

variable {b : Nat} {readOnly : ι → Bool} {v v' : Shelf ι} {i : ι}

/-- The files that are open after an act. -/
theorem Shelf.Step.isOpen_eq {act : FileAct} {r : Reply} (h : v.Step b readOnly i act r v') :
    v'.isOpen = act.after readOnly v.isOpen i := by
  cases h with
  | op => rfl
  | noOp => rfl
  | «open» _ hm =>
    rw [FileAct.after, if_neg fun hr => absurd ((hm hr.1).symm.trans hr.2) (by decide)]
  | noOpen _ hr hm => rw [FileAct.after, if_pos ⟨hr, hm⟩]
  | close => rfl
  | noClose ho =>
    rw [FileAct.after, ← ho]
    exact (Function.update_eq_self i v.isOpen).symm

/-- An act on another file. -/
theorem Shelf.Step.other {j : ι} {act : FileAct} {r : Reply} (h : v.Step b readOnly j act r v')
    (hj : i ≠ j) : v'.docs i = v.docs i ∧ v'.isOpen i = v.isOpen i := by
  cases h with
  | op _ hs =>
    obtain ⟨hdo, hfree⟩ := hs
    exact ⟨Function.update_of_ne hj _ _, rfl⟩
  | noOp => exact ⟨rfl, rfl⟩
  | «open» => exact ⟨Function.update_of_ne hj _ _, Function.update_of_ne hj _ _⟩
  | noOpen => exact ⟨rfl, rfl⟩
  | close => exact ⟨Function.update_of_ne hj _ _, Function.update_of_ne hj _ _⟩
  | noClose => exact ⟨rfl, rfl⟩

/-- The acts on other files leave a file as it is. -/
theorem Shelf.Run.other {acts : List (ι × FileAct)} {replies : List Reply}
    (h : v.Run b readOnly acts replies v') (hi : ∀ a ∈ acts, a.1 ≠ i) :
    v'.docs i = v.docs i ∧ v'.isOpen i = v.isOpen i := by
  induction h with
  | nil => exact ⟨rfl, rfl⟩
  | cons hstep _ ih =>
    obtain ⟨hd, ho⟩ := ih fun a ha => hi a (List.mem_cons_of_mem _ ha)
    obtain ⟨hd', ho'⟩ := hstep.other (hi _ List.mem_cons_self).symm
    exact ⟨hd.trans hd', ho.trans ho'⟩

/-- A run of two lists of acts is two runs. -/
theorem Shelf.Run.append {acts₁ acts₂ : List (ι × FileAct)} {replies : List Reply}
    (h : v.Run b readOnly (acts₁ ++ acts₂) replies v') : ∃ r₁ r₂ u, replies = r₁ ++ r₂ ∧
      v.Run b readOnly acts₁ r₁ u ∧ u.Run b readOnly acts₂ r₂ v' := by
  induction acts₁ generalizing v replies with
  | nil => exact ⟨[], replies, v, rfl, .nil v, h⟩
  | cons a acts₁ ih =>
    cases h with
    | cons hstep hrun =>
      obtain ⟨r₁, r₂, u, rfl, h₁, h₂⟩ := ih hrun
      exact ⟨_ :: r₁, r₂, u, rfl, .cons hstep h₁, h₂⟩

/-- A run begins with its first act. -/
theorem Shelf.Run.cons_inv {act : FileAct} {acts : List (ι × FileAct)} {replies : List Reply}
    (h : v.Run b readOnly ((i, act) :: acts) replies v') : ∃ r rs, ∃ u : Shelf ι,
      replies = r :: rs ∧ v.Step b readOnly i act r u ∧ u.Run b readOnly acts rs v' := by
  cases h with
  | cons hstep hrun => exact ⟨_, _, _, rfl, hstep, hrun⟩

/-- Opening a closed file that may be opened so. -/
theorem Shelf.Step.open_inv {mode : UInt8} {r : Reply} (h : v.Step b readOnly i (.open mode) r v')
    (hr : readOnly i = true → hasBits mode FA_WRITE = false) : r.res = .ok ∧ v'.isOpen i = true ∧
      v'.docs i = { v.docs i with pos := 0, canRead := hasBits mode FA_READ,
                                  canWrite := hasBits mode FA_WRITE } := by
  cases h with
  | «open» => exact ⟨rfl, Function.update_self .., Function.update_self ..⟩
  | noOpen _ hro hw => exact absurd ((hr hro).symm.trans hw) (by decide)

/-- An operation on an open file. -/
theorem Shelf.Step.op_inv {op : Op} {r : Reply} (h : v.Step b readOnly i (.op op) r v')
    (ho : v.isOpen i = true) : (v.docs i).Does b v.free op r (v'.docs i) ∧ v'.isOpen i = true := by
  cases h with
  | op _ hs => exact ⟨hs.does, ho⟩
  | noOp hn => exact absurd (hn.symm.trans ho) (by decide)

/-- The closing of an open file. -/
theorem Shelf.Step.close_inv {r : Reply} (h : v.Step b readOnly i .close r v')
    (ho : v.isOpen i = true) : r.res = .ok ∧
      v'.docs i = { v.docs i with pos := 0, canRead := false, canWrite := false } := by
  cases h with
  | close => exact ⟨rfl, Function.update_self ..⟩
  | noClose hn => exact absurd (hn.symm.trans ho) (by decide)

/-- What was written to a file before it was closed is read when it is opened again, whatever is
done with the other files in between. -/
theorem Shelf.Run.persists {m₁ m₂ : UInt8} {buff : List UInt8} {mid : List (ι × FileAct)}
    {replies : List Reply} (hro : readOnly i = false) (hm₁ : hasBits m₁ FA_WRITE = true)
    (hm₂ : hasBits m₂ FA_READ = true) (hmid : ∀ a ∈ mid, a.1 ≠ i)
    (h : v.Run b readOnly ((i, .open m₁) :: (i, .op (.write buff)) :: (i, .close) ::
      (mid ++ [(i, .open m₂), (i, .op (.read buff.length))])) replies v') :
    ∃ opened written closed rest last, replies = opened :: written :: closed :: rest ∧
      rest.getLast? = some last ∧ opened.res = .ok ∧ written.res = .ok ∧ closed.res = .ok ∧
      last.res = .ok ∧ buff.take written.count <+: last.data := by
  have hno : ∀ m, readOnly i = true → hasBits m FA_WRITE = false := fun m hr =>
    absurd (hro.symm.trans hr) (by decide)
  obtain ⟨r₁, rs₁, v₁, rfl, hstep₁, hrun₁⟩ := h.cons_inv
  obtain ⟨hok₁, hopen₁, hdoc₁⟩ := hstep₁.open_inv (hno m₁)
  obtain ⟨r₂, rs₂, v₂, rfl, hstep₂, hrun₂⟩ := hrun₁.cons_inv
  obtain ⟨hdo₂, hopen₂⟩ := hstep₂.op_inv hopen₁
  rw [hdoc₁] at hdo₂
  obtain ⟨rfl, hdoc₂⟩ := hdo₂.write_inv hm₁
  obtain ⟨r₃, rs₃, v₃, rfl, hstep₃, hrun₃⟩ := hrun₂.cons_inv
  obtain ⟨hok₃, hdoc₃⟩ := hstep₃.close_inv hopen₂
  obtain ⟨q₁, q₂, u, rfl, hothers, hback⟩ := hrun₃.append
  obtain ⟨r₄, rs₄, v₄, rfl, hstep₄, hrun₄⟩ := hback.cons_inv
  obtain ⟨-, hopen₄, hdoc₄⟩ := hstep₄.open_inv (hno m₂)
  obtain ⟨r₅, rs₅, v₅, rfl, hstep₅, hrun₅⟩ := hrun₄.cons_inv
  obtain ⟨hdo₅, -⟩ := hstep₅.op_inv hopen₄
  cases hrun₅
  -- the bytes of the file when it is opened again
  have hbytes : (v₄.docs i).bytes = (v₂.docs i).bytes := by
    rw [hdoc₄, (hothers.other hmid).1, hdoc₃]
  have hpos : (v₄.docs i).pos = 0 := by rw [hdoc₄]
  have hread : (v₄.docs i).canRead = true := by rw [hdoc₄]; exact hm₂
  have hlast := hdo₅.read_inv hread
  refine ⟨r₁, _, r₃, _, r₅, rfl, by simp, hok₁, rfl, hok₃, by rw [hlast], ?_⟩
  rw [hlast, hpos, hbytes, hdoc₂]
  simp only
  generalize hn : Doc.stores b v₁.free _ buff = n
  have hle : n ≤ buff.length := by
    rw [← hn]
    exact Nat.min_le_left _ _
  have hlen : (buff.take n).length = n := by
    rw [List.length_take]
    omega
  have hsplice := Splice.splice_read (x := buff.take n) (Nat.zero_le (v.docs i).bytes.length)
  rw [hlen] at hsplice
  calc buff.take n = ((Splice.splice (v.docs i).bytes 0 (buff.take n)).drop 0).take n :=
    hsplice.symm
    _ <+: _ := List.take_prefix_take_left hle

end

end FatFs
