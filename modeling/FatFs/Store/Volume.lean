import FatFs.Lib.Splice
import FatFs.Model.File
import Mathlib.Algebra.BigOperators.Group.Finset.Basic

/-!
# Open files as their user sees them

A `Doc` is an array of bytes with a cursor, opened for reading, for writing or for both. The open
files of a volume share a pool of free blocks: a file of `n` bytes takes `blocks b n` blocks of `b`
bytes. `Doc.Does` says what a call does to its file with `free` blocks in the pool, and `Volume.Run`
what a run of calls on any of the files does, in any order. A call changes its own file only, and no
block is lost or invented (`Volume.Run.conserved`).

A seek behind the end of a file gives it bytes that may have any value. Everything else is
determined, the number of bytes that a write stores on a volume that runs full included.
-/

namespace FatFs

open Splice

/-- An open file. -/
structure Doc where
  bytes : List UInt8
  pos : Nat
  canRead : Bool
  canWrite : Bool

/-- A call on an open file. -/
inductive Op
  | read (btr : Nat)
  | write (buff : List UInt8)
  | lseek (ofs : Nat)
  | truncate
  | sync

/-- The arguments of the call are 32-bit words. -/
def Op.Fits : Op → Prop
  | .write buff => buff.length < W32
  | .lseek ofs => ofs < W32
  | _ => True

/-- The answer to a call: its result code, the bytes that `f_read` has read and the number of bytes
that `f_write` has written. -/
structure Reply where
  res : FRESULT
  data : List UInt8 := []
  count : Nat := 0

/-- The blocks of `b` bytes for `n` bytes. -/
def blocks (b n : Nat) : Nat := (n + b - 1) / b

/-- The bytes that the file can take when it gets all of the free blocks. -/
def Doc.room (b free : Nat) (d : Doc) : Nat := (blocks b d.bytes.length + free) * b

/-- The bytes of `buff` that a write stores: the file cannot pass 4 GiB nor its room. -/
def Doc.stores (b free : Nat) (d : Doc) (buff : List UInt8) : Nat :=
  min buff.length (min (0xFFFFFFFF - d.pos) (d.room b free - d.pos))

/-- The place that a seek goes to. -/
def Doc.seeks (b free : Nat) (d : Doc) (ofs : Nat) : Nat :=
  if d.canWrite then min ofs (d.room b free) else min ofs d.bytes.length

/-- What a call does to its file, with `free` blocks in the pool. -/
inductive Doc.Does (b free : Nat) (d : Doc) : Op → Reply → Doc → Prop
  | read {btr} (hr : d.canRead = true) :
      d.Does b free (.read btr) { res := .ok, data := (d.bytes.drop d.pos).take btr }
        { d with pos := d.pos + ((d.bytes.drop d.pos).take btr).length }
  | noRead {btr} (hr : d.canRead = false) : d.Does b free (.read btr) { res := .denied } d
  | write {buff} (hw : d.canWrite = true) :
      d.Does b free (.write buff) { res := .ok, count := d.stores b free buff }
        { d with
          bytes := splice d.bytes d.pos (buff.take (d.stores b free buff))
          pos := d.pos + d.stores b free buff }
  | noWrite {buff} (hw : d.canWrite = false) : d.Does b free (.write buff) { res := .denied } d
  | lseek {ofs bytes} (hlen : bytes.length = max d.bytes.length (d.seeks b free ofs))
      (hold : bytes.take d.bytes.length = d.bytes) :
      d.Does b free (.lseek ofs) { res := .ok } { d with bytes, pos := d.seeks b free ofs }
  | truncate (hw : d.canWrite = true) :
      d.Does b free .truncate { res := .ok } { d with bytes := d.bytes.take d.pos }
  | noTruncate (hw : d.canWrite = false) : d.Does b free .truncate { res := .denied } d
  | sync : d.Does b free .sync { res := .ok } d

/-- The open files of a volume and the number of free blocks. -/
structure Volume (ι : Type) where
  docs : ι → Doc
  free : Nat

section
variable {ι : Type} [DecidableEq ι] {b : Nat}

/-- A call on the file `i`. The blocks that the file gains are taken from the pool. -/
inductive Volume.Step (b : Nat) (v : Volume ι) (i : ι) (op : Op) (r : Reply) : Volume ι → Prop
  | call {d free} (hdo : (v.docs i).Does b v.free op r d)
      (hfree : free + blocks b d.bytes.length = v.free + blocks b (v.docs i).bytes.length) :
      Volume.Step b v i op r { docs := Function.update v.docs i d, free }

/-- A run of calls on the files, with the replies. -/
inductive Volume.Run (b : Nat) : Volume ι → List (ι × Op) → List Reply → Volume ι → Prop
  | nil (v) : Volume.Run b v [] [] v
  | cons {v v₁ v₂ i op r calls replies} (hstep : v.Step b i op r v₁)
      (hrun : Volume.Run b v₁ calls replies v₂) :
      Volume.Run b v ((i, op) :: calls) (r :: replies) v₂

/-- A file that is not called stays as it is. -/
theorem Volume.Run.other {v v' : Volume ι} {calls : List (ι × Op)} {replies : List Reply}
    (h : v.Run b calls replies v') {i : ι} (hi : ∀ c ∈ calls, c.1 ≠ i) : v'.docs i = v.docs i := by
  induction h with
  | nil v => rfl
  | cons hstep hrun ih =>
    obtain ⟨hdo, hfree⟩ := hstep
    rw [ih fun c hc => hi c (List.mem_cons_of_mem _ hc)]
    exact Function.update_of_ne (hi _ List.mem_cons_self).symm _ _

/-- The blocks of the files and of the pool are conserved. -/
theorem Volume.Run.conserved [Fintype ι] {v v' : Volume ι} {calls : List (ι × Op)}
    {replies : List Reply} (h : v.Run b calls replies v') :
    v'.free + ∑ i, blocks b (v'.docs i).bytes.length =
      v.free + ∑ i, blocks b (v.docs i).bytes.length := by
  induction h with
  | nil v => rfl
  | @cons v v₁ v₂ i op r calls replies hstep hrun ih =>
    rw [ih]
    obtain ⟨hdo, hfree⟩ := hstep
    have hrest : ∀ u : ι → Doc, ∑ j, blocks b (u j).bytes.length =
        blocks b (u i).bytes.length + ∑ j ∈ Finset.univ.erase i,
        blocks b (u j).bytes.length := fun u =>
      (Finset.add_sum_erase _ (fun j => blocks b (u j).bytes.length) (Finset.mem_univ i)).symm
    rw [hrest, hrest v.docs]
    simp only [Function.update_self]
    rw [← Nat.add_assoc, hfree, ← Nat.add_assoc]
    congr 1
    refine Finset.sum_congr rfl fun j hj => ?_
    rw [Function.update_of_ne (Finset.ne_of_mem_erase hj)]

/-- A run of two parts. -/
theorem Volume.Run.append {v v' : Volume ι} {calls₁ calls₂ : List (ι × Op)} {replies : List Reply}
    (h : v.Run b (calls₁ ++ calls₂) replies v') : ∃ r₁ r₂ u, replies = r₁ ++ r₂ ∧
      v.Run b calls₁ r₁ u ∧ u.Run b calls₂ r₂ v' := by
  induction calls₁ generalizing v replies with
  | nil => exact ⟨[], replies, v, rfl, .nil v, h⟩
  | cons call calls₁ ih =>
    cases h with
    | cons hstep hrun =>
      obtain ⟨r₁, r₂, u, rfl, h₁, h₂⟩ := ih hrun
      exact ⟨_ :: r₁, r₂, u, rfl, .cons hstep h₁, h₂⟩

/-- The room of a file covers its bytes. -/
theorem Doc.le_room (hb : 0 < b) (d : Doc) (free : Nat) : d.bytes.length ≤ d.room b free := by
  have h₁ := Nat.div_add_mod (d.bytes.length + b - 1) b
  have h₂ := Nat.mod_lt (d.bytes.length + b - 1) hb
  unfold Doc.room blocks
  rw [Nat.add_mul, Nat.mul_comm]
  omega

theorem Volume.Step.does {v v' : Volume ι} {i : ι} {op : Op} {r : Reply} (h : v.Step b i op r v') :
    (v.docs i).Does b v.free op r (v'.docs i) := by
  obtain ⟨hdo, -⟩ := h
  simp only [Function.update_self]
  exact hdo

theorem Volume.Run.cons_inv {v v' : Volume ι} {i : ι} {op : Op} {calls : List (ι × Op)}
    {replies : List Reply} (h : v.Run b ((i, op) :: calls) replies v') :
    ∃ r rs, ∃ u : Volume ι, replies = r :: rs ∧ (v.docs i).Does b v.free op r (u.docs i) ∧
      u.Run b calls rs v' := by
  cases h with
  | cons hstep hrun => exact ⟨_, _, _, rfl, hstep.does, hrun⟩

theorem Doc.Does.write_inv {d d' : Doc} {free : Nat} {buff : List UInt8} {r : Reply}
    (h : d.Does b free (.write buff) r d') (hw : d.canWrite = true) :
    r = { res := .ok, count := d.stores b free buff } ∧
    d' = { d with
      bytes := splice d.bytes d.pos (buff.take (d.stores b free buff))
      pos := d.pos + d.stores b free buff } := by
  cases h with
  | write _ => exact ⟨rfl, rfl⟩
  | noWrite hno => exact absurd (hno.symm.trans hw) (by decide)

/-- A seek inside the file moves the cursor only. -/
theorem Doc.Does.lseek_inv {d d' : Doc} {free ofs : Nat} {r : Reply} (hb : 0 < b)
    (h : d.Does b free (.lseek ofs) r d') (hin : ofs ≤ d.bytes.length) :
    d' = { d with pos := ofs } := by
  have hseek : d.seeks b free ofs = ofs := by
    have := d.le_room hb free
    unfold Doc.seeks
    split <;> omega
  cases h with
  | lseek hlen hold =>
    rw [hseek, Nat.max_eq_left hin] at hlen
    rw [List.take_of_length_le (Nat.le_of_eq hlen)] at hold
    rw [hold, hseek]

theorem Doc.Does.read_inv {d d' : Doc} {free btr : Nat} {r : Reply}
    (h : d.Does b free (.read btr) r d') (hr : d.canRead = true) :
    r = { res := .ok, data := (d.bytes.drop d.pos).take btr } := by
  cases h with
  | read _ => rfl
  | noRead hno => exact absurd (hno.symm.trans hr) (by decide)

/-- What a write has stored is read back, whatever is done with the other files in between. -/
theorem Volume.Run.readBack {v v' : Volume ι} {i : ι} {buff : List UInt8} {mid : List (ι × Op)}
    {replies : List Reply} (hb : 0 < b) (hw : (v.docs i).canWrite = true)
    (hr : (v.docs i).canRead = true) (hpos : (v.docs i).pos ≤ (v.docs i).bytes.length)
    (hmid : ∀ c ∈ mid, c.1 ≠ i)
    (h : v.Run b ((i, .write buff) :: (mid ++ [(i, .lseek (v.docs i).pos), (i, .read buff.length)]))
      replies v') :
    ∃ first rest, replies = first :: rest ∧ first.res = .ok ∧
      ∃ last, rest.getLast? = some last ∧ last.res = .ok ∧ buff.take first.count <+: last.data := by
  obtain ⟨r₀, rs, v₁, rfl, hdo, hrun⟩ := h.cons_inv
  obtain ⟨rfl, hv₁⟩ := hdo.write_inv hw
  obtain ⟨r₁, r₂, u, rfl, hothers, hback⟩ := hrun.append
  obtain ⟨q₁, qs, u₁, rfl, hdo₁, hrun₁⟩ := hback.cons_inv
  obtain ⟨q₂, qs', u₂, rfl, hdo₂, hrun₂⟩ := hrun₁.cons_inv
  cases hrun₂
  generalize hn : (v.docs i).stores b v.free buff = n at hv₁
  have hlen : (buff.take n).length = n := by
    rw [List.length_take, ← hn]
    exact Nat.min_eq_left (Nat.min_le_left _ _)
  have hu : u.docs i = v₁.docs i := hothers.other hmid
  rw [hu, hv₁] at hdo₁
  -- the cursor goes back to where the write began
  have hu₁ := hdo₁.lseek_inv hb (by rw [splice_length hpos]; omega)
  rw [hu₁] at hdo₂
  have hq₂ := hdo₂.read_inv hr
  refine ⟨_, _, rfl, rfl, q₂, by simp, by rw [hq₂], ?_⟩
  rw [hq₂]
  have hread := splice_read (x := buff.take n) hpos
  rw [hlen] at hread
  simp only
  calc buff.take n = ((splice (v.docs i).bytes (v.docs i).pos (buff.take n)).drop
      (v.docs i).pos).take n :=
        hread.symm
    _ <+: _ := List.take_prefix_take_left (by rw [List.length_take] at hlen; omega)

end

end FatFs
