import FatFs.File.Read
import FatFs.Handle.Stale

/-!
# The cursor of a file

`f_read`, `f_write` and `f_lseek` compute the read/write pointer, the file size, the counts that
they report and the offset that is left in 32 bits. `Arith` is the arithmetic of these computations
as a parameter, and `fReadWith`, `fWriteWith` and `fLseekWith` are the functions over it. An
arithmetic that is right wherever the result is a 32-bit number may do anything else elsewhere, and
no call on an opened file depends on that (`cursor_exact`): nothing wraps. The pointer stays inside
the file as long as the file object is not aborted, on every device and after every sequence of
calls.
-/

namespace FatFs

open Run

/-- The additions and subtractions of the cursor. -/
structure Arith where
  add : Nat → Nat → Nat
  sub : Nat → Nat → Nat

/-- The arithmetic is right wherever the result is a 32-bit number. -/
structure Arith.Right (a : Arith) : Prop where
  add : ∀ {x y}, x + y < W32 → a.add x y = x + y
  sub : ∀ {x y}, y ≤ x → x < W32 → a.sub x y = x - y

/-! ## The functions over an arithmetic -/

/-- `readWindow` over the arithmetic `a`. -/
def readWindowWith (a : Arith) (fp : FIL) (btr : Nat) (acc : List UInt8) :
    M ((FIL × Nat × List UInt8) ⊕ (FRESULT × FIL × List UInt8)) := do
  let rcnt := min (SS - fp.fptr % SS) btr
  if (← moveWindow fp.sect) ≠ .ok then return .inr (.diskErr, fp.abort .diskErr, acc)
  else
    let w ← get
    return .inl ({ fp with fptr := a.add fp.fptr rcnt }, a.sub btr rcnt,
      acc ++ w.win.bytes (fp.fptr % SS) rcnt)

/-- `fReadRound` over the arithmetic `a`. -/
def fReadRoundWith (a : Arith) (p : FIL × Nat × List UInt8) :
    M ((FIL × Nat × List UInt8) ⊕ (FRESULT × FIL × List UInt8)) := do
  let (fp, btr, acc) := p
  if btr = 0 then return .inr (.ok, fp, acc)
  else if fp.fptr % SS = 0 then
    let w ← get
    let csect := fp.fptr / SS &&& (w.geo.csize - 1)
    match ← readClust fp csect with
    | .error res => return .inr (res, fp.abort res, acc)
    | .ok fp =>
      let sect := clst2sect w.geo fp.clust
      if sect = 0 then return .inr (.intErr, fp.abort .intErr, acc)
      else
        let sect := add32 sect csect
        let cc := btr / SS
        if 0 < cc then
          let cc := if w.geo.csize < csect + cc then w.geo.csize - csect else cc
          match ← diskRead sect cc with
          | none => return .inr (.diskErr, fp.abort .diskErr, acc)
          | some buff =>
            let w ← get
            let rcnt := SS * cc
            return .inl ({ fp with fptr := a.add fp.fptr rcnt }, a.sub btr rcnt,
              acc ++ overlay buff w.wflag w.win (sub32 w.winsect sect) cc)
        else readWindowWith a { fp with sect := sect } btr acc
  else readWindowWith a fp btr acc

/-- `fRead` over the arithmetic `a`. -/
def fReadWith (a : Arith) (fp : FIL) (btr : Nat) : M (FRESULT × FIL × List UInt8) := do
  let res ← validate fp.fs fp.id
  if res ≠ .ok then return (res, fp, [])
  else if fp.err ≠ .ok then return (fp.err, fp, [])
  else if !hasBits fp.flag FA_READ then return (.denied, fp, [])
  else
    let remain := a.sub fp.objsize fp.fptr
    let btr := if remain < btr then remain else btr
    loop (fReadRoundWith a) (btr + 1) (fp, btr, [])

/-- `FIL.advance` over the arithmetic `a`. -/
def FIL.advanceWith (a : Arith) (fp : FIL) (wcnt : Nat) : FIL :=
  let fptr := a.add fp.fptr wcnt
  { fp with fptr := fptr, objsize := if fp.objsize < fptr then fptr else fp.objsize }

/-- `writeWindow` over the arithmetic `a`. -/
def writeWindowWith (a : Arith) (fp : FIL) (buff : List UInt8) (bw : Nat) :
    M ((FIL × List UInt8 × Nat) ⊕ (FRESULT × FIL × Nat)) := do
  let wcnt := min (SS - fp.fptr % SS) buff.length
  if (← moveWindow fp.sect) ≠ .ok then return .inr (.diskErr, fp.abort .diskErr, bw)
  else
    modWin fun s => s.copy (fp.fptr % SS) (buff.take wcnt)
    return .inl (fp.advanceWith a wcnt, buff.drop wcnt, a.add bw wcnt)

/-- `fWriteRound` over the arithmetic `a`. -/
def fWriteRoundWith (a : Arith) (p : FIL × List UInt8 × Nat) :
    M ((FIL × List UInt8 × Nat) ⊕ (FRESULT × FIL × Nat)) := do
  let (fp, buff, bw) := p
  if buff = [] then return .inr (.ok, fp, bw)
  else if fp.fptr % SS = 0 then
    let w ← get
    let csect := fp.fptr / SS &&& (w.geo.csize - 1)
    match ← writeClust fp csect with
    | .error res => return .inr (res, fp.abort res, bw)
    | .ok none => return .inr (.ok, fp, bw)
    | .ok (some fp) =>
      let res ← (if (← get).winsect = fp.sect then syncWindow else pure .ok)
      if res ≠ .ok then return .inr (.diskErr, fp.abort .diskErr, bw)
      else
        let sect := clst2sect w.geo fp.clust
        if sect = 0 then return .inr (.intErr, fp.abort .intErr, bw)
        else
          let sect := add32 sect csect
          let cc := buff.length / SS
          if 0 < cc then
            let cc := if w.geo.csize < csect + cc then w.geo.csize - csect else cc
            if (← writeDirect buff sect cc) ≠ .ok then
              return .inr (.diskErr, fp.abort .diskErr, bw)
            else return .inl (fp.advanceWith a (SS * cc), buff.drop (SS * cc), a.add bw (SS * cc))
          else if (← growEdge fp sect) ≠ .ok then
            return .inr (.diskErr, fp.abort .diskErr, bw)
          else writeWindowWith a { fp with sect := sect } buff bw
  else writeWindowWith a fp buff bw

/-- `fWrite` over the arithmetic `a`. The test for a wrap-around of the size is left as it is. -/
def fWriteWith (a : Arith) (fp : FIL) (buff : List UInt8) : M (FRESULT × FIL × Nat) := do
  let res ← validate fp.fs fp.id
  if res ≠ .ok then return (res, fp, 0)
  else if fp.err ≠ .ok then return (fp.err, fp, 0)
  else if !hasBits fp.flag FA_WRITE then return (.denied, fp, 0)
  else
    let btw := if add32 fp.fptr buff.length < fp.fptr then a.sub 0xFFFFFFFF fp.fptr else buff.length
    let (res, fp, bw) ← loop (fWriteRoundWith a) (buff.length + 1) (fp, buff.take btw, 0)
    return (res, if res = .ok then { fp with flag := fp.flag ||| FA_MODIFIED } else fp, bw)

/-- `seekRound` over the arithmetic `a`. -/
def seekRoundWith (a : Arith) (bcs : Nat) (p : FIL × Nat × Nat) :
    M ((FIL × Nat × Nat) ⊕ Except (FRESULT × FIL) (FIL × Nat × Nat)) := do
  let (fp, clst, ofs) := p
  if bcs < ofs then
    let ofs := a.sub ofs bcs
    let fp := { fp with fptr := a.add fp.fptr bcs }
    let w ← get
    if hasBits fp.flag FA_WRITE then
      let clst ← createChain clst
      if clst = 0 then return .inr (.ok (fp, 0, 0))
      else if clst = DISKERR then return .inr (.error (.diskErr, fp.abort .diskErr))
      else if clst ≤ 1 ∨ w.geo.nFatent ≤ clst then
        return .inr (.error (.intErr, fp.abort .intErr))
      else return .inl ({ fp with clust := clst }, clst, ofs)
    else
      let clst ← getFat clst
      if clst = DISKERR then return .inr (.error (.diskErr, fp.abort .diskErr))
      else if clst ≤ 1 ∨ w.geo.nFatent ≤ clst then
        return .inr (.error (.intErr, fp.abort .intErr))
      else return .inl ({ fp with clust := clst }, clst, ofs)
  else return .inr (.ok (fp, clst, ofs))

/-- `seekFollow` over the arithmetic `a`. -/
def seekFollowWith (a : Arith) (fp : FIL) (clst ofs : Nat) : M (FRESULT × FIL) := do
  if clst ≠ 0 then
    let w ← get
    match ← loop (seekRoundWith a (w.geo.csize * SS)) (W32 / SS + 1) (fp, clst, ofs) with
    | .error (res, fp) => return (res, fp)
    | .ok (fp, clst, ofs) =>
      let fp := { fp with fptr := a.add fp.fptr ofs }
      if ofs % SS ≠ 0 then
        let nsect := clst2sect w.geo clst
        if nsect = 0 then return (.intErr, fp.abort .intErr)
        else return (.ok, seekEnd fp (add32 nsect (ofs / SS)))
      else return (.ok, seekEnd fp 0)
  else return (.ok, seekEnd fp 0)

/-- `fLseek` over the arithmetic `a`. -/
def fLseekWith (a : Arith) (fp : FIL) (ofs : Nat) : M (FRESULT × FIL) := do
  let res ← validate fp.fs fp.id
  if res ≠ .ok then return (res, fp)
  else if fp.err ≠ .ok then return (fp.err, fp)
  else
    let w ← get
    let ofs := if fp.objsize < ofs ∧ !hasBits fp.flag FA_WRITE then fp.objsize else ofs
    let ifptr := fp.fptr
    let fp := { fp with fptr := 0 }
    if 0 < ofs then
      let bcs := w.geo.csize * SS
      if 0 < ifptr ∧ (ifptr - 1) / bcs ≤ (ofs - 1) / bcs then
        let fptr := (ifptr - 1) - ((ifptr - 1) &&& (bcs - 1))
        seekFollowWith a { fp with fptr := fptr } fp.clust (a.sub ofs fptr)
      else if fp.sclust = 0 then
        let clst ← createChain 0
        if clst = 1 then return (.intErr, fp.abort .intErr)
        else if clst = DISKERR then return (.diskErr, fp.abort .diskErr)
        else seekFollowWith a { fp with sclust := clst, clust := clst } clst ofs
      else seekFollowWith a { fp with clust := fp.sclust } fp.sclust ofs
    else return (.ok, seekEnd fp 0)

/-! ## Calls -/

/-- A call on an open file. -/
inductive FileCall
  | read (btr : UInt32)
  | write (buff : List UInt8) (h : buff.length < W32)
  | lseek (ofs : UInt32)
  | truncate
  | sync

namespace FileCall

/-- Make the call. The result comes with the file object and the count `*br` or `*bw`. -/
def run (fp : FIL) : FileCall → M (FRESULT × FIL × Nat)
  | read btr => do
    let (res, fp, out) ← fRead fp btr.toNat
    return (res, fp, out.length)
  | write buff _ => fWrite fp buff
  | lseek ofs => do
    let (res, fp) ← fLseek fp ofs.toNat
    return (res, fp, 0)
  | truncate => do
    let (res, fp) ← fTruncate fp
    return (res, fp, 0)
  | sync => do
    let (res, fp) ← fSync fp
    return (res, fp, 0)

/-- Make the call over the arithmetic `a`. -/
def runWith (a : Arith) (fp : FIL) : FileCall → M (FRESULT × FIL × Nat)
  | read btr => do
    let (res, fp, out) ← fReadWith a fp btr.toNat
    return (res, fp, out.length)
  | write buff _ => fWriteWith a fp buff
  | lseek ofs => do
    let (res, fp) ← fLseekWith a fp ofs.toNat
    return (res, fp, 0)
  | truncate => run fp truncate
  | sync => run fp sync

/-- The number of bytes that the call is asked to transfer. -/
def asked : FileCall → Option Nat
  | read btr => some btr.toNat
  | write buff _ => some buff.length
  | _ => none

end FileCall

/-! ## Reading -/

/-- The pointer of the file object is inside the file, unless the object is aborted. -/
structure FIL.Inside (fp : FIL) : Prop where
  live : fp.err = .ok → fp.fptr ≤ fp.objsize
  size : fp.objsize < W32

/-- The end of a transfer of at most `n` bytes from `fptr`: the pointer moved by the count. -/
structure Transferred32 (fptr n : Nat) (fp : FIL) (count : Nat) : Prop where
  fptr : fp.fptr = fptr + count
  count : count ≤ n

/-- The pointer, the size and the abort flag of a file object. -/
abbrev FIL.cursor (fp : FIL) : Nat × Nat × FRESULT := (fp.fptr, fp.objsize, fp.err)

/-- The step of `f_read` to the next cluster keeps the cursor. -/
theorem readClust_cursor (fp : FIL) (csect : Nat) :
    Yields (fun _ => True) (fun r => ∀ fp', r = .ok fp' → fp'.cursor = fp.cursor)
      (readClust fp csect) := by
  unfold readClust
  refine .ite (fun _ => (keeps_true _).then fun c => .ite (fun _ => .pure nofun) fun _ => .ite
    (fun _ => .pure nofun) fun _ => .pure ?_) fun _ => .pure ?_
  · rintro _ ⟨⟩
    rfl
  · rintro _ ⟨⟩
    rfl

section
variable {a : Arith} (ha : a.Right)

include ha

/-- The read of a part of a sector adds within 32 bits. -/
theorem readWindow_with {fp : FIL} {btr : Nat} (h : fp.fptr + btr < W32) (acc : List UInt8) :
    readWindow fp btr acc = readWindowWith a fp btr acc := by
  have hadd : a.add fp.fptr (min (SS - fp.fptr % SS) btr) =
      add32 fp.fptr (min (SS - fp.fptr % SS) btr) := by
    rw [ha.add (by omega), add32_of_lt (by omega)]
  have hsub : a.sub btr (min (SS - fp.fptr % SS) btr) = btr - min (SS - fp.fptr % SS) btr :=
    ha.sub (by omega) (by omega)
  rw [readWindow, readWindowWith, hadd, hsub]

omit ha in
/-- The sectors of a direct transfer are sectors that were asked for. -/
theorem clipped_le (n csize csect : Nat) :
    SS * (if csize < csect + n / SS then csize - csect else n / SS) ≤ n := by
  have hmul : SS * (n / SS) ≤ n := Nat.mul_div_le n SS
  generalize n / SS = q at hmul ⊢
  split
  · have hle : SS * (csize - csect) ≤ SS * q := Nat.mul_le_mul_left SS (by omega)
    omega
  · exact hmul

/-- A round of the loop of `f_read` does not depend on the arithmetic. -/
theorem fReadRound_with {fp : FIL} {btr : Nat} (h : fp.fptr + btr < W32) (acc : List UInt8)
    (w : State) : fReadRound (fp, btr, acc) w = fReadRoundWith a (fp, btr, acc) w := by
  unfold fReadRound fReadRoundWith
  dsimp only
  rw [← readWindow_with ha h]
  by_cases h0 : btr = 0
  · rw [if_pos h0, if_pos h0]
  rw [if_neg h0, if_neg h0]
  by_cases hs : fp.fptr % SS = 0
  · rw [if_pos hs, if_pos hs, get_bind_apply, get_bind_apply]
    refine bind_congr_of ((readClust_cursor fp _ w trivial).mono fun r w₁ hr => ?_)
    cases r with
    | error res => rfl
    | ok fp' =>
      have hc := hr.2 fp' rfl
      have hp : fp'.fptr = fp.fptr := congrArg Prod.fst hc
      dsimp only
      have hcc := clipped_le btr w.geo.csize (fp.fptr / SS &&& (w.geo.csize - 1))
      generalize (if w.geo.csize < (fp.fptr / SS &&& (w.geo.csize - 1)) + btr / SS then
        w.geo.csize - (fp.fptr / SS &&& (w.geo.csize - 1)) else btr / SS) = cc at hcc ⊢
      have hadd : a.add fp'.fptr (SS * cc) = add32 fp'.fptr (SS * cc) := by
        rw [ha.add (by omega), add32_of_lt (by omega)]
      have hsub : a.sub btr (SS * cc) = btr - SS * cc := ha.sub hcc (by omega)
      have hwin : ∀ s, readWindow { fp' with sect := s } btr acc =
          readWindowWith a { fp' with sect := s } btr acc := fun s => by
        refine readWindow_with ha ?_ acc
        dsimp only
        omega
      by_cases hz : clst2sect w.geo fp'.clust = 0
      · rw [if_pos hz, if_pos hz]
      rw [if_neg hz, if_neg hz]
      by_cases hq : 0 < btr / SS
      · rw [if_pos hq, if_pos hq]
        refine congrFun (bind_congr fun b => ?_) w₁
        cases b with
        | none => rfl
        | some buff => rw [hadd, hsub]
      · rw [if_neg hq, if_neg hq, hwin]
  · rw [if_neg hs, if_neg hs]

end

/-- The state of the loop of `f_read` for `n` bytes from the cursor of `fp₀`: the bytes left to read
are missing from the pointer and from the count. -/
structure ReadInv (fp₀ : FIL) (n : Nat) (p : FIL × Nat × List UInt8) : Prop where
  fptr : p.1.fptr + p.2.1 = fp₀.fptr + n
  count : p.2.2.length + p.2.1 = n
  objsize : p.1.objsize = fp₀.objsize

section
variable {fp₀ : FIL} {n : Nat} (hn : fp₀.fptr + n < W32)

/-- What `f_read` leaves. -/
def ReadPost (fp₀ : FIL) (n : Nat) (r : FRESULT × FIL × List UInt8) : Prop :=
  Transferred32 fp₀.fptr n r.2.1 r.2.2.length ∧ r.2.1.objsize = fp₀.objsize

/-- A round of `f_read` that ends with an answer. -/
theorem ReadInv.stop {fp fp' : FIL} {btr : Nat} {acc : List UInt8}
    (h : ReadInv fp₀ n (fp, btr, acc)) (hc : fp'.fptr = fp.fptr) (ho : fp'.objsize = fp.objsize)
    (res : FRESULT) : ReadPost fp₀ n (res, fp', acc) := by
  have h₁ := h.fptr
  have h₂ := h.count
  dsimp only at h₁ h₂
  exact ⟨⟨by dsimp only; omega, by dsimp only; omega⟩, ho.trans h.objsize⟩

/-- A round of `f_read` that aborts the file object. -/
theorem ReadInv.abort {fp fp' : FIL} {btr : Nat} {acc : List UInt8}
    (h : ReadInv fp₀ n (fp, btr, acc)) (hc : fp'.fptr = fp.fptr) (ho : fp'.objsize = fp.objsize)
    (res : FRESULT) : ReadPost fp₀ n (res, fp'.abort res, acc) := by
  obtain ⟨hm, hs⟩ := h.stop hc ho res
  exact ⟨⟨hm.fptr, hm.count⟩, hs⟩

include hn

/-- A round of `f_read` that has read `k` bytes. -/
theorem ReadInv.step {fp fp' : FIL} {btr k : Nat} {acc bytes : List UInt8}
    (h : ReadInv fp₀ n (fp, btr, acc)) (hc : fp'.fptr = fp.fptr) (ho : fp'.objsize = fp.objsize)
    (hk : k ≤ btr) (hb : bytes.length = k) :
    ReadInv fp₀ n ({ fp' with fptr := add32 fp'.fptr k }, btr - k, acc ++ bytes) := by
  have h₁ := h.fptr
  have h₂ := h.count
  dsimp only at h₁ h₂
  refine ⟨?_, ?_, ho.trans h.objsize⟩
  · dsimp only
    rw [add32_of_lt (by omega)]
    omega
  · dsimp only
    rw [List.length_append]
    omega

/-- The read of a part of a sector moves the pointer by what it has read. -/
theorem readWindow_count {fp fp' : FIL} {btr : Nat} {acc : List UInt8}
    (h : ReadInv fp₀ n (fp, btr, acc)) (hc : fp'.fptr = fp.fptr) (ho : fp'.objsize = fp.objsize) :
    Yields (fun _ => True) (Sum.elim (ReadInv fp₀ n) (ReadPost fp₀ n))
    (readWindow fp' btr acc) := by
  unfold readWindow
  exact (keeps_true _).then fun _ => .ite (fun _ =>
      .pure (h.abort hc ho _)) fun _ => .get fun w _ =>
    .pure (h.step hn hc ho (Nat.min_le_right _ _) (by simp [Sector.bytes]))

/-- One round of `f_read` moves the pointer by what it has read. -/
theorem fReadRound_count {p : FIL × Nat × List UInt8} (h : ReadInv fp₀ n p) :
    Yields (fun _ => True) (Sum.elim (ReadInv fp₀ n) (ReadPost fp₀ n)) (fReadRound p) := by
  obtain ⟨fp, btr, acc⟩ := p
  unfold fReadRound
  refine .ite (fun _ => .pure (h.stop rfl rfl _)) fun _ => .ite (fun _ => .get fun w _ => .bind
    (readClust_cursor fp _) fun r hr => ?_) fun _ => readWindow_count hn h rfl rfl
  cases r with
  | error res => exact .pure (h.abort rfl rfl _)
  | ok fp' =>
    have hc : fp'.cursor = fp.cursor := hr fp' rfl
    have hp : fp'.fptr = fp.fptr := congrArg Prod.fst hc
    have ho : fp'.objsize = fp.objsize := congrArg (fun c => c.2.1) hc
    refine .ite (fun _ => .pure (h.abort hp ho _)) fun _ => .ite (fun _ => (keeps_true _).then
      fun b => ?_) fun _ => readWindow_count hn h hp ho
    cases b with
    | none => exact .pure (h.abort hp ho _)
    | some buff =>
      exact .get fun _ _ => .pure (h.step hn hp ho (clipped_le _ _ _) (by simp [overlay]))

end

/-- `f_read` does not depend on the arithmetic. -/
theorem fRead_with {a : Arith} (ha : a.Right) {fp : FIL} (hfp : fp.Inside) (btr : Nat) :
    fRead fp btr = fReadWith a fp btr := by
  unfold fRead fReadWith
  refine bind_congr fun res => ?_
  split
  · rfl
  split
  · rfl
  rename_i herr
  have hle := hfp.live (not_not.1 herr)
  have hsz := hfp.size
  split
  · rfl
  have hsub : a.sub fp.objsize fp.fptr = fp.objsize - fp.fptr := ha.sub hle hsz
  have hsub' : sub32 fp.objsize fp.fptr = fp.objsize - fp.fptr := sub32_of_le hsz hle
  rw [hsub, hsub']
  dsimp only
  generalize hn : (if fp.objsize - fp.fptr < btr then fp.objsize - fp.fptr else btr) = n
  have hn' : fp.fptr + n < W32 := by
    rw [← hn]
    split <;> omega
  funext w
  refine loop_congr_of (I := fun p _ => ReadInv fp n p) (fun p w₁ h => ?_) (fun p w₁ h => ?_) _
    ⟨rfl, Nat.zero_add _, rfl⟩
  · obtain ⟨fp', left, acc⟩ := p
    have h₁ : fp'.fptr + left = fp.fptr + n := h.fptr
    exact fReadRound_with ha (by omega) acc w₁
  · refine (fReadRound_count hn' h w₁ trivial).mono fun r _ hr b hb => ?_
    subst hb
    exact hr.2

/-- `f_read` moves the pointer by the count that it answers, and stays in the file. -/
theorem fRead_cursor {fp : FIL} (hfp : fp.Inside) (btr : Nat) (w : State) :
    Ensures (fRead fp btr) w fun r _ =>
      Transferred32 fp.fptr btr r.2.1 r.2.2.length ∧ r.2.1.Inside := by
  have hstay : Transferred32 fp.fptr btr fp ([] : List UInt8).length ∧ fp.Inside :=
    ⟨⟨rfl, Nat.zero_le _⟩, hfp⟩
  unfold fRead
  simp only [ensures_bind, ensures_ite, ensures_pure]
  refine (keeps_true _ w trivial).mono fun res w₁ _ => ⟨fun _ => hstay, fun _ => ⟨fun _ => hstay,
    fun herr => ⟨fun _ => hstay, fun _ => ?_⟩⟩⟩
  have hle := hfp.live (not_not.1 herr)
  have hsz := hfp.size
  rw [sub32_of_le hsz hle]
  generalize hn : (if fp.objsize - fp.fptr < btr then fp.objsize - fp.fptr else btr) = n
  have hn' : n ≤ btr ∧ fp.fptr + n ≤ fp.objsize := by
    rw [← hn]
    split <;> omega
  have hread : Yields (fun _ => True) (ReadPost fp n) (loop fReadRound (n + 1) (fp, n, [])) :=
    .loop (fun p h => fReadRound_count (by omega) h) _ ⟨rfl, Nat.zero_add _, rfl⟩
  refine (hread w₁ trivial).mono fun r _ hpost => ?_
  obtain ⟨_, hm, ho⟩ := hpost
  have h₁ := hm.fptr
  have h₂ := hm.count
  exact ⟨⟨h₁, by omega⟩, fun _ => by omega, by omega⟩

/-! ## Writing -/

/-- The step of `f_write` to the next cluster keeps the cursor. -/
theorem writeClust_cursor (fp : FIL) (csect : Nat) :
    Yields (fun _ => True) (fun r => ∀ fp', r = .ok (some fp') → fp'.cursor = fp.cursor)
      (writeClust fp csect) := by
  unfold writeClust
  refine .ite (fun _ => (keeps_true _).then fun c => .ite (fun _ => .pure nofun) fun _ => .ite
    (fun _ => .pure nofun) fun _ => .ite (fun _ => .pure nofun) fun _ => .pure ?_) fun _ => .pure ?_
  · rintro _ ⟨⟩
    rfl
  · rintro _ ⟨⟩
    rfl

section
variable {a : Arith} (ha : a.Right)

include ha

/-- The pointer moves on within 32 bits. -/
theorem FIL.advance_with {fp : FIL} {k : Nat} (h : fp.fptr + k < W32) :
    fp.advance k = fp.advanceWith a k := by
  unfold advance advanceWith
  rw [ha.add h, add32_of_lt h]

/-- The write of a part of a sector adds within 32 bits. -/
theorem writeWindow_with {fp : FIL} {buff : List UInt8} {bw : Nat}
    (h : fp.fptr + buff.length < W32) (hb : bw + buff.length < W32) :
    writeWindow fp buff bw = writeWindowWith a fp buff bw := by
  have hk := Nat.min_le_right (SS - fp.fptr % SS) buff.length
  unfold writeWindow writeWindowWith
  dsimp only
  rw [FIL.advance_with ha (by omega), ha.add (by omega)]

/-- A round of the loop of `f_write` does not depend on the arithmetic. -/
theorem fWriteRound_with {fp : FIL} {buff : List UInt8} {bw : Nat}
    (h : fp.fptr + buff.length < W32) (hb : bw + buff.length < W32) (w : State) :
    fWriteRound (fp, buff, bw) w = fWriteRoundWith a (fp, buff, bw) w := by
  unfold fWriteRound fWriteRoundWith
  dsimp only
  rw [← writeWindow_with ha h hb]
  by_cases h0 : buff = []
  · rw [if_pos h0, if_pos h0]
  rw [if_neg h0, if_neg h0]
  by_cases hs : fp.fptr % SS = 0
  · rw [if_pos hs, if_pos hs, get_bind_apply, get_bind_apply]
    refine bind_congr_of ((writeClust_cursor fp _ w trivial).mono fun r w₁ hr => ?_)
    rcases r with res | _ | fp'
    · rfl
    · rfl
    · have hc := hr.2 fp' rfl
      have hp : fp'.fptr = fp.fptr := congrArg Prod.fst hc
      dsimp only
      have hcc := clipped_le buff.length w.geo.csize (fp.fptr / SS &&& (w.geo.csize - 1))
      generalize (if w.geo.csize < (fp.fptr / SS &&& (w.geo.csize - 1)) + buff.length / SS then
        w.geo.csize - (fp.fptr / SS &&& (w.geo.csize - 1)) else buff.length / SS) = cc at hcc ⊢
      have hwin : ∀ s, writeWindow { fp' with sect := s } buff bw =
          writeWindowWith a { fp' with sect := s } buff bw := fun s => by
        refine writeWindow_with ha ?_ hb
        dsimp only
        omega
      rw [← FIL.advance_with ha (by omega), ha.add (by omega), ← hwin]
  · rw [if_neg hs, if_neg hs]

end

/-- The state of the loop of `f_write` for `n` bytes from the cursor of `fp₀`. -/
structure WriteInv (fp₀ : FIL) (n : Nat) (p : FIL × List UInt8 × Nat) : Prop where
  fptr : p.1.fptr + p.2.1.length = fp₀.fptr + n
  count : p.2.2 + p.2.1.length = n
  inside : p.1.fptr ≤ p.1.objsize
  size : p.1.objsize < W32

/-- What the loop of `f_write` leaves. -/
def WritePost (fp₀ : FIL) (n : Nat) (r : FRESULT × FIL × Nat) : Prop :=
  Transferred32 fp₀.fptr n r.2.1 r.2.2 ∧ r.2.1.fptr ≤ r.2.1.objsize ∧ r.2.1.objsize < W32

section
variable {fp₀ : FIL} {n : Nat} (hn : fp₀.fptr + n < W32)

/-- A round of `f_write` that ends with an answer. -/
theorem WriteInv.stop {fp fp' : FIL} {buff : List UInt8} {bw : Nat}
    (h : WriteInv fp₀ n (fp, buff, bw)) (hc : fp'.fptr = fp.fptr) (ho : fp'.objsize = fp.objsize)
    (res : FRESULT) : WritePost fp₀ n (res, fp', bw) := by
  have h₁ := h.fptr
  have h₂ := h.count
  have h₃ := h.inside
  have h₄ := h.size
  dsimp only at h₁ h₂ h₃ h₄
  refine ⟨⟨?_, ?_⟩, ?_, ?_⟩ <;> dsimp only <;> omega

/-- A round of `f_write` that aborts the file object. -/
theorem WriteInv.abort {fp fp' : FIL} {buff : List UInt8} {bw : Nat}
    (h : WriteInv fp₀ n (fp, buff, bw)) (hc : fp'.fptr = fp.fptr) (ho : fp'.objsize = fp.objsize)
    (res : FRESULT) : WritePost fp₀ n (res, fp'.abort res, bw) := by
  obtain ⟨hm, hi, hs⟩ := h.stop hc ho res
  exact ⟨⟨hm.fptr, hm.count⟩, hi, hs⟩

include hn

/-- A round of `f_write` that has written `k` bytes. -/
theorem WriteInv.step {fp fp' : FIL} {buff : List UInt8} {bw k : Nat}
    (h : WriteInv fp₀ n (fp, buff, bw)) (hc : fp'.fptr = fp.fptr) (ho : fp'.objsize = fp.objsize)
    (hk : k ≤ buff.length) : WriteInv fp₀ n (fp'.advance k, buff.drop k, bw + k) := by
  have h₁ := h.fptr
  have h₂ := h.count
  have h₃ := h.inside
  have h₄ := h.size
  dsimp only at h₁ h₂ h₃ h₄
  have hadd : add32 fp'.fptr k = fp.fptr + k := by rw [hc, add32_of_lt (by omega)]
  refine ⟨?_, ?_, ?_, ?_⟩
  · simp only [FIL.advance, hadd, List.length_drop]
    omega
  · simp only [List.length_drop]
    omega
  · simp only [FIL.advance, hadd]
    split <;> omega
  · simp only [FIL.advance, hadd]
    split <;> omega

/-- The write of a part of a sector moves the pointer by what it has written. -/
theorem writeWindow_count {fp fp' : FIL} {buff : List UInt8} {bw : Nat}
    (h : WriteInv fp₀ n (fp, buff, bw)) (hc : fp'.fptr = fp.fptr) (ho : fp'.objsize = fp.objsize) :
    Yields (fun _ => True) (Sum.elim (WriteInv fp₀ n) (WritePost fp₀ n))
      (writeWindow fp' buff bw) := by
  unfold writeWindow
  exact (keeps_true _).then fun _ => .ite (fun _ => .pure (h.abort hc ho _)) fun _ =>
    (keeps_true _).then fun _ => .pure (h.step hn hc ho (Nat.min_le_right _ _))

/-- One round of `f_write` moves the pointer by what it has written. -/
theorem fWriteRound_count {p : FIL × List UInt8 × Nat} (h : WriteInv fp₀ n p) :
    Yields (fun _ => True) (Sum.elim (WriteInv fp₀ n) (WritePost fp₀ n)) (fWriteRound p) := by
  obtain ⟨fp, buff, bw⟩ := p
  unfold fWriteRound
  refine .ite (fun _ => .pure (h.stop rfl rfl _)) fun _ => .ite (fun _ => .get fun w _ => .bind
    (writeClust_cursor fp _) fun r hr => ?_) fun _ => writeWindow_count hn h rfl rfl
  rcases r with res | _ | fp'
  · exact .pure (h.abort rfl rfl _)
  · exact .pure (h.stop rfl rfl _)
  · have hc : fp'.cursor = fp.cursor := hr fp' rfl
    have hp : fp'.fptr = fp.fptr := congrArg Prod.fst hc
    have ho : fp'.objsize = fp.objsize := congrArg (fun c => c.2.1) hc
    refine .get fun _ _ => (keeps_true _).then fun _ => .ite (fun _ => .pure (h.abort hp ho _))
      fun _ => .ite (fun _ => .pure (h.abort hp ho _)) fun _ => .ite (fun _ => ?_) fun _ => ?_
    · exact (keeps_true _).then fun _ => .ite (fun _ => .pure (h.abort hp ho _)) fun _ =>
        .pure (h.step hn hp ho (clipped_le _ _ _))
    · exact (keeps_true _).then fun _ => .ite (fun _ => .pure (h.abort hp ho _)) fun _ =>
        writeWindow_count hn h hp ho

end

/-- The number of bytes that `f_write` sets out to write: the size cannot reach 4 GiB. -/
theorem FIL.btw_le {fp : FIL} (hp : fp.fptr < W32) {buff : List UInt8} (hb : buff.length < W32) :
    fp.fptr + (buff.take (if add32 fp.fptr buff.length < fp.fptr then 0xFFFFFFFF - fp.fptr
      else buff.length)).length < W32 := by
  rw [List.length_take]
  by_cases hw : add32 fp.fptr buff.length < fp.fptr
  · rw [if_pos hw]
    simp only [W32] at *
    omega
  · rw [if_neg hw, Nat.min_self]
    simp only [add32, W32] at *
    omega

/-- `f_write` clips the count first, so its arithmetic does not wrap around. -/
theorem fWrite_with {a : Arith} (ha : a.Right) {fp : FIL} (hfp : fp.Inside) {buff : List UInt8}
    (hb : buff.length < W32) : fWrite fp buff = fWriteWith a fp buff := by
  unfold fWrite fWriteWith
  refine bind_congr fun res => ?_
  split
  · rfl
  split
  · rfl
  rename_i herr
  have hle := hfp.live (not_not.1 herr)
  have hsz := hfp.size
  split
  · rfl
  have hsub : a.sub 0xFFFFFFFF fp.fptr = 0xFFFFFFFF - fp.fptr :=
    ha.sub (by simp only [W32] at hsz; omega) (by decide)
  rw [hsub]
  dsimp only
  have hlt := FIL.btw_le (Nat.lt_of_le_of_lt hle hsz) hb
  have hle' := List.length_take_le'
    (if add32 fp.fptr buff.length < fp.fptr then 0xFFFFFFFF - fp.fptr else buff.length) buff
  generalize buff.take (if add32 fp.fptr buff.length < fp.fptr then 0xFFFFFFFF - fp.fptr
      else buff.length) = data at hlt hle' ⊢
  funext w
  refine bind_congr_left (loop_congr_of (I := fun p _ => WriteInv fp data.length p)
    (fun p w₁ h => ?_) (fun p w₁ h => ?_) _ ⟨rfl, Nat.zero_add _, hle, hsz⟩)
  · obtain ⟨fp', left, bw⟩ := p
    have h₁ : fp'.fptr + left.length = fp.fptr + data.length := h.fptr
    have h₂ : bw + left.length = data.length := h.count
    exact fWriteRound_with ha (by omega) (by omega) w₁
  · refine (fWriteRound_count hlt h w₁ trivial).mono fun r _ hr b hb => ?_
    subst hb
    exact hr.2

/-- `f_write` moves the pointer by the count that it answers, and stays in the file. -/
theorem fWrite_cursor {fp : FIL} (hfp : fp.Inside) {buff : List UInt8} (hb : buff.length < W32)
    (w : State) : Ensures (fWrite fp buff) w fun r _ =>
      Transferred32 fp.fptr buff.length r.2.1 r.2.2 ∧ r.2.1.Inside := by
  have hstay : Transferred32 fp.fptr buff.length fp 0 ∧ fp.Inside := ⟨⟨rfl, Nat.zero_le _⟩, hfp⟩
  unfold fWrite
  simp only [ensures_bind, ensures_ite, ensures_pure]
  refine (keeps_true _ w trivial).mono fun res w₁ _ => ⟨fun _ => hstay, fun _ => ⟨fun _ => hstay,
    fun herr => ⟨fun _ => hstay, fun _ => ?_⟩⟩⟩
  have hle := hfp.live (not_not.1 herr)
  have hsz := hfp.size
  have hlt := FIL.btw_le (Nat.lt_of_le_of_lt hle hsz) hb
  have hle' := List.length_take_le'
    (if add32 fp.fptr buff.length < fp.fptr then 0xFFFFFFFF - fp.fptr else buff.length) buff
  generalize buff.take (if add32 fp.fptr buff.length < fp.fptr then 0xFFFFFFFF - fp.fptr
      else buff.length) = data at hlt hle' ⊢
  have hwrite : Yields (fun _ => True) (WritePost fp data.length)
      (loop fWriteRound (buff.length + 1) (fp, data, 0)) :=
    .loop (fun p h => fWriteRound_count hlt h) _ ⟨rfl, Nat.zero_add _, hle, hsz⟩
  refine (hwrite w₁ trivial).mono fun r _ hpost => ?_
  obtain ⟨_, hm, hi, hs⟩ := hpost
  obtain ⟨res, fp', bw⟩ := r
  have hm' : Transferred32 fp.fptr buff.length fp' bw := ⟨hm.fptr, Nat.le_trans hm.count hle'⟩
  dsimp only
  split
  · exact ⟨⟨hm'.fptr, hm'.count⟩, fun _ => hi, hs⟩
  · exact ⟨hm', fun _ => hi, hs⟩

/-! ## Seeking -/

/-- A volume that is mounted is one that the BPB analysis accepts. -/
def State.Usable (w : State) : Prop := w.geo.fsType ≠ .none → w.geo.Accepted

/-- The state of the cluster following loop of `f_lseek` to the offset `target`. -/
structure SeekInv (fp₀ : FIL) (target : Nat) (p : FIL × Nat × Nat) : Prop where
  fptr : p.1.fptr + p.2.2 = target
  objsize : p.1.objsize = fp₀.objsize

/-- The end of the loop: an abort, or the pointer and the offset that is left. The offset is dropped
when the volume is full. -/
def SeekPost (fp₀ : FIL) (target : Nat) : Except (FRESULT × FIL) (FIL × Nat × Nat) → Prop
  | .error (_, fp) => fp.err ≠ .ok ∧ fp.objsize = fp₀.objsize
  | .ok (fp, _, ofs) => fp.fptr + ofs ≤ target ∧ fp.objsize = fp₀.objsize

section
variable {a : Arith} (ha : a.Right)

include ha

/-- One round of the walk of `f_lseek` adds within 32 bits. -/
theorem seekRound_with {fp : FIL} {ofs : Nat} (h : fp.fptr + ofs < W32) (bcs clst : Nat) :
    seekRound bcs (fp, clst, ofs) = seekRoundWith a bcs (fp, clst, ofs) := by
  simp only [seekRound, seekRoundWith]
  split
  · rw [ha.sub (by omega) (by omega), ha.add (by omega), add32_of_lt (by omega)]
  · rfl

end

section
variable {fp₀ : FIL} {target : Nat} (ht : target < W32)

include ht

/-- One round of the walk of `f_lseek` moves a cluster from the offset to the pointer. -/
theorem seekRound_count (bcs : Nat) {p : FIL × Nat × Nat} (h : SeekInv fp₀ target p) :
    Yields (fun _ => True) (Sum.elim (SeekInv fp₀ target) (SeekPost fp₀ target))
      (seekRound bcs p) := by
  obtain ⟨fp, clst, ofs⟩ := p
  have hp : fp.fptr + ofs = target := h.fptr
  have ho : fp.objsize = fp₀.objsize := h.objsize
  unfold seekRound
  refine .ite (fun hlt => .get fun w _ => ?_) fun _ => .pure ⟨Nat.le_of_eq hp, ho⟩
  have hadd : add32 fp.fptr bcs = fp.fptr + bcs := add32_of_lt (by omega)
  rw [hadd]
  have hstep : ∀ c, SeekInv fp₀ target
      ({ fp with fptr := fp.fptr + bcs, clust := c }, c, ofs - bcs) := fun c =>
    ⟨by dsimp only; omega, ho⟩
  refine .ite (fun _ => (keeps_true _).then fun c => .ite (fun _ => .pure ⟨?_, ho⟩) fun _ => .ite
      (fun _ => .pure ⟨nofun, ho⟩) fun _ => .ite (fun _ => .pure ⟨nofun, ho⟩) fun _ =>
      .pure (hstep c))
    fun _ => (keeps_true _).then fun c => .ite (fun _ => .pure ⟨nofun, ho⟩) fun _ => .ite
      (fun _ => .pure ⟨nofun, ho⟩) fun _ => .pure (hstep c)
  dsimp only
  omega

end

/-- The end of a seek extends the size to the pointer. -/
theorem seekEnd_cursor {fp : FIL} (hp : fp.fptr < W32) (ho : fp.objsize < W32) (nsect : Nat) :
    (seekEnd fp nsect).Inside := by
  have hcur : (seekEnd fp nsect).fptr = fp.fptr ∧
      (seekEnd fp nsect).objsize = max fp.objsize fp.fptr := by
    unfold seekEnd
    dsimp only
    split
    · rename_i hlt
      have hmax : max fp.objsize fp.fptr = fp.fptr := by omega
      rw [hmax]
      split <;> exact ⟨rfl, rfl⟩
    · rename_i hge
      have hmax : max fp.objsize fp.fptr = fp.objsize := by omega
      rw [hmax]
      split <;> exact ⟨rfl, rfl⟩
  exact ⟨fun _ => by omega, by omega⟩

/-- The walk of `f_lseek` adds within 32 bits. -/
theorem seekFollow_with {a : Arith} (ha : a.Right) {fp : FIL} {ofs : Nat}
    (h : fp.fptr + ofs < W32) (clst : Nat) :
    seekFollow fp clst ofs = seekFollowWith a fp clst ofs := by
  unfold seekFollow seekFollowWith
  split
  · refine bind_congr fun w => ?_
    funext w₁
    have hloop : loop (seekRound (w.geo.csize * SS)) (W32 / SS + 1) (fp, clst, ofs) w₁ =
        loop (seekRoundWith a (w.geo.csize * SS)) (W32 / SS + 1) (fp, clst, ofs) w₁ := by
      refine loop_congr_of (I := fun p _ => SeekInv fp (fp.fptr + ofs) p) (fun p w₂ hi => ?_)
        (fun p w₂ hi => ?_) _ ⟨rfl, rfl⟩
      · obtain ⟨fp', c, left⟩ := p
        have hp : fp'.fptr + left = fp.fptr + ofs := hi.fptr
        rw [seekRound_with ha (by omega)]
      · refine (seekRound_count h _ hi w₂ trivial).mono fun r _ hr b hb => ?_
        subst hb
        exact hr.2
    have hrun : Yields (fun _ => True) (SeekPost fp (fp.fptr + ofs))
        (loop (seekRound (w.geo.csize * SS)) (W32 / SS + 1) (fp, clst, ofs)) :=
      .loop (fun p hi => seekRound_count h _ hi) _ ⟨rfl, rfl⟩
    rw [← bind_congr_left hloop]
    refine bind_congr_of ((hrun w₁ trivial).mono fun r w₂ ⟨_, hr⟩ => ?_)
    rcases r with ⟨res, fp'⟩ | ⟨fp', c, left⟩
    · rfl
    · have hle : fp'.fptr + left ≤ fp.fptr + ofs := hr.1
      dsimp only
      rw [ha.add (by omega), add32_of_lt (by omega)]
  · rfl

/-- The walk of `f_lseek` ends in the file, which may have grown. -/
theorem seekFollow_cursor {fp : FIL} (ho : fp.objsize < W32) (clst : Nat) {ofs : Nat}
    (h : fp.fptr + ofs < W32) : Yields (fun _ => True) (fun r => r.2.Inside)
      (seekFollow fp clst ofs) := by
  unfold seekFollow
  refine .ite (fun _ => .get fun w _ => .bind (R := SeekPost fp (fp.fptr + ofs))
    (.loop (fun p hi => seekRound_count h _ hi) _ ⟨rfl, rfl⟩) fun r hr => ?_) fun _ =>
    .pure (seekEnd_cursor (by omega) ho 0)
  rcases r with ⟨res, fp'⟩ | ⟨fp', c, left⟩
  · have hsz : fp'.objsize = fp.objsize := hr.2
    exact .pure ⟨fun he => absurd he hr.1, by dsimp only; omega⟩
  · have hle : fp'.fptr + left ≤ fp.fptr + ofs := hr.1
    have hsz : fp'.objsize = fp.objsize := hr.2
    have hend : ∀ n, (seekEnd { fp' with fptr := fp'.fptr + left } n).Inside := fun n =>
      seekEnd_cursor (by dsimp only; omega) (by dsimp only; omega) n
    dsimp only
    rw [add32_of_lt (by omega)]
    exact .ite (fun _ => .ite (fun _ => .pure ⟨nofun, by dsimp only [FIL.abort]; omega⟩) fun _ =>
      .pure (hend _)) fun _ => .pure (hend _)

/-- A valid object belongs to a mounted volume. -/
theorem validate_usable (fs : Bool) (id : Nat) (w : State) : Ensures (validate fs id) w
    fun r w' => w' = w ∧ (r = .ok → w.geo.fsType ≠ .none) := by
  simp only [validate, ensures_bind, ensures_get, ensures_pure]
  refine ⟨trivial, fun hr => ?_⟩
  split at hr
  · rename_i h
    exact h.2.1
  · cases hr

section
variable {g : Geometry} (hg : g.Accepted) {p ofs : Nat}
  (h : 0 < p ∧ (p - 1) / (g.csize * SS) ≤ (ofs - 1) / (g.csize * SS))

include hg h

/-- A seek from the current cluster begins before its target. -/
theorem seekStart_le : (p - 1) - ((p - 1) &&& (g.csize * SS - 1)) ≤ ofs := by
  have h₁ := Nat.mul_le_mul_right (g.csize * SS) h.2
  have h₂ := Nat.div_mul_le_self (ofs - 1) (g.csize * SS)
  rw [hg.clusterStart]
  omega

end

section
variable {fp : FIL} (hfp : fp.Inside) {ofs : Nat} (ho : ofs < W32) {w : State} (hw : w.Usable)

include hfp ho hw

/-- `f_lseek` does not depend on the arithmetic. -/
theorem fLseek_with {a : Arith} (ha : a.Right) : fLseek fp ofs w = fLseekWith a fp ofs w := by
  unfold fLseek fLseekWith
  refine bind_congr_of ((validate_usable fp.fs fp.id w).mono fun res w' ⟨he, hm⟩ => ?_)
  subst he
  split
  · rfl
  rename_i hres
  split
  · rfl
  have hacc := hw (hm (not_not.1 hres))
  have hsz := hfp.size
  rw [get_bind_apply, get_bind_apply]
  dsimp only
  have hlt : (if fp.objsize < ofs ∧ (!hasBits fp.flag FA_WRITE) = true then fp.objsize
      else ofs) < W32 := by
    split <;> omega
  generalize (if fp.objsize < ofs ∧ (!hasBits fp.flag FA_WRITE) = true then fp.objsize
    else ofs) = t at hlt ⊢
  split
  · split
    · rename_i hstart
      have hle := seekStart_le hacc hstart
      rw [ha.sub hle hlt, seekFollow_with ha (by dsimp only; omega)]
    · split
      · refine congrFun (bind_congr fun c => ?_) _
        split
        · rfl
        split
        · rfl
        · exact seekFollow_with ha (by dsimp only; omega) c
      · rw [seekFollow_with ha (by dsimp only; omega)]
  · rfl

/-- `f_lseek` leaves the pointer in the file. -/
theorem fLseek_cursor : Ensures (fLseek fp ofs) w fun r _ => r.2.Inside := by
  have hsz := hfp.size
  unfold fLseek
  rw [ensures_bind]
  refine (validate_usable fp.fs fp.id w).mono fun res w' hpost => ?_
  obtain ⟨he, hm⟩ := hpost
  subst he
  rw [ensures_ite]
  refine ⟨fun _ => ensures_pure.2 hfp, fun hres => ?_⟩
  rw [ensures_ite]
  refine ⟨fun _ => ensures_pure.2 hfp, fun _ => ?_⟩
  have hacc := hw (hm (not_not.1 hres))
  rw [ensures_bind, ensures_get]
  dsimp only
  have hlt : (if fp.objsize < ofs ∧ (!hasBits fp.flag FA_WRITE) = true then fp.objsize
      else ofs) < W32 := by
    split <;> omega
  generalize (if fp.objsize < ofs ∧ (!hasBits fp.flag FA_WRITE) = true then fp.objsize
    else ofs) = t at hlt ⊢
  simp only [ensures_ite, ensures_bind, ensures_pure]
  refine ⟨fun _ => ⟨fun hstart => ?_, fun _ => ⟨fun _ => ?_, fun _ => ?_⟩⟩, fun _ => ?_⟩
  · have hle := seekStart_le hacc hstart
    exact (seekFollow_cursor (by dsimp only; omega) _ (by dsimp only; omega) w' trivial).mono
      fun _ _ h => h.2
  · refine (keeps_true _ w' trivial).mono fun c w₁ _ => ⟨fun _ => ⟨fun _ => Nat.zero_le _, hsz⟩,
      fun _ => ⟨fun _ => ⟨fun _ => Nat.zero_le _, hsz⟩, fun _ => ?_⟩⟩
    exact (seekFollow_cursor (by dsimp only; omega) _ (by dsimp only; omega) w₁ trivial).mono
      fun _ _ h => h.2
  · exact (seekFollow_cursor (by dsimp only; omega) _ (by dsimp only; omega) w' trivial).mono
      fun _ _ h => h.2
  · refine seekEnd_cursor ?_ ?_ 0
    · exact (by decide : 0 < W32)
    · exact hsz

end

/-! ## Truncating and synchronising -/

/-- The removal of the rest of the chain keeps the cursor. -/
theorem truncChain_cursor (fp : FIL) :
    Yields (fun _ => True) (fun r => r.2.cursor = fp.cursor) (truncChain fp) := by
  unfold truncChain
  exact .ite (fun _ => (keeps_true _).then fun _ => .pure rfl) fun _ => (keeps_true _).then fun _ =>
    .ite (fun _ => .pure rfl) fun _ => .ite (fun _ => .pure rfl) fun _ => .get fun _ _ => .ite
      (fun _ => (keeps_true _).then fun _ => .pure rfl) fun _ => .pure rfl

/-- `f_truncate` leaves the pointer at the end of the file. -/
theorem fTruncate_cursor {fp : FIL} (hfp : fp.Inside) :
    Yields (fun _ => True) (fun r => r.2.Inside) (fTruncate fp) := by
  unfold fTruncate
  refine (keeps_true _).then fun _ => .ite (fun _ => .pure hfp) fun _ => .ite (fun _ => .pure hfp)
    fun _ => .ite (fun _ => .pure hfp) fun _ => .ite (fun hlt => .bind (truncChain_cursor fp)
      fun r hr => .pure ?_) fun _ => .pure hfp
  have hp : r.2.fptr = fp.fptr := congrArg Prod.fst hr
  have hsz : r.2.fptr < W32 := by
    have := hfp.size
    omega
  dsimp only
  split
  · exact ⟨fun _ => Nat.le_refl _, hsz⟩
  · exact ⟨fun _ => Nat.le_refl _, hsz⟩

/-- `f_sync` keeps the cursor. -/
theorem fSync_cursor {fp : FIL} (hfp : fp.Inside) :
    Yields (fun _ => True) (fun r => r.2.Inside) (fSync fp) := by
  unfold fSync
  exact (keeps_true _).then fun _ => .ite (fun _ => (keeps_true _).then fun _ => .ite (fun _ =>
    .get fun _ _ => (keeps_true _).then fun _ => (keeps_true _).then fun _ =>
      .pure ⟨hfp.live, hfp.size⟩) fun _ => .pure hfp) fun _ => .pure hfp

/-! ## Opening -/

/-- What keeps the host keeps an accepted layout. -/
theorem Keeps.usable {α : Type} {m : M α} (h : ∀ k, Keeps (OnHost k) m) : Keeps State.Usable m := by
  intro w hw
  refine (h w.host w rfl).mono fun _ w' h' => ?_
  have hgeo : w'.geo = w.geo := congrArg Host.geo h'
  unfold State.Usable
  rw [hgeo]
  exact hw

/-- A mount accepts the layout. -/
theorem mountDrive_usable {w : State} (hb : w.geo.fsType = .none) :
    Ensures mountDrive w fun _ w' => w'.Usable := by
  rw [mountDrive, ensures_bind]
  refine (findVolume_host w rfl).mono fun r w₁ h₁ => ?_
  have hgeo : w₁.geo = w.geo := congrArg Host.geo h₁
  have hblank : w₁.Usable := fun hne => absurd (by rw [hgeo]; exact hb) hne
  simp only [ensures_ite, ensures_pure, ensures_bind, ensures_get]
  refine ⟨fun _ => hblank, fun _ => ⟨fun _ => hblank, fun _ => ?_⟩⟩
  cases hg : readBPB w₁.win w₁.winsect with
  | none => exact ensures_pure.2 hblank
  | some g =>
    simp only [ensures_bind, ensures_modify, ensures_pure]
    have hacc := (readBPB_some hg).accepted
    exact (keeps_true _ w₁ trivial).mono fun _ _ _ _ =>
      ⟨hacc.fsType, hacc.csize, hacc.entries, hacc.limit⟩

/-- `mount_volume` keeps an accepted layout, or makes one. -/
theorem mountVolume_usable (path : List UInt8) (mode : UInt8) :
    Keeps State.Usable (mountVolume path mode) := by
  intro w hw
  rw [mountVolume, ensures_bind, ensures_get]
  obtain ⟨known, rest⟩ := getLdnumber w.charSigned path
  cases known with
  | false => exact ensures_pure.2 hw
  | true =>
    have hblank : State.Usable { w with geo := { w.geo with fsType := .none } } := fun h =>
      absurd rfl h
    simp only [ensures_ite, ensures_pure, ensures_bind, ensures_modify]
    exact ⟨fun _ => hw, fun _ => ⟨fun _ => ⟨fun _ => hw, fun _ => hw⟩, fun _ => ⟨fun _ => hblank,
      fun _ => ⟨fun _ => hblank, fun _ => mountDrive_usable rfl⟩⟩⟩⟩

/-- The append seek sets the pointer to the size. -/
theorem appendSeek_inside {fp : FIL} (hsz : fp.objsize < W32) :
    Yields State.Usable (fun r => r.2.Inside) (appendSeek fp) := by
  have hround : ∀ bcs p, Keeps State.Usable (appendRound bcs p) := fun bcs p => by
    unfold appendRound
    exact .ite (fun _ => .bind (Keeps.usable fun _ =>
      getFat_host _) fun _ => .ite (fun _ => .pure _)
      fun _ => .ite (fun _ => .pure _) fun _ => .pure _) fun _ => .pure _
  unfold appendSeek
  exact .get fun _ _ => (Keeps.loop (hround _) _ _).then fun _ => .ite (fun _ => .ite
    (fun _ => .pure ⟨fun _ => Nat.le_refl _, hsz⟩) fun _ => .pure ⟨fun _ => Nat.le_refl _, hsz⟩)
      fun _ => .pure ⟨fun _ => Nat.le_refl _, hsz⟩

/-- A file is opened with its pointer at the start or at the end. -/
theorem openFil_inside (fp : FIL) (dj : DIR) (mode : UInt8) :
    Yields State.Usable (fun r => r.2.Inside) (openFil fp dj mode) := by
  unfold openFil
  exact .get fun w _ => .ite (fun _ => appendSeek_inside ldDword_lt) fun _ =>
    .pure ⟨fun _ => Nat.zero_le _, ldDword_lt⟩

/-- `f_open` gives the file object a pointer in the file. -/
theorem fOpen_inside (fp : FIL) (path : List UInt8) (mode : UInt8) :
    Yields State.Usable (fun r => r.1 = .ok → r.2.Inside) (fOpen fp path mode) := by
  unfold fOpen
  refine (mountVolume_usable _ _).then fun r => .ite (fun _ => ?_) fun hne =>
    .pure fun h => absurd h hne
  refine (Keeps.usable fun _ => (followPath_host _ _).keeps).then fun q => ?_
  refine (Keeps.usable fun _ => .ite (fun _ => openCreate_host _ _ _) fun _ => .pure _).then
    fun o => ?_
  refine .ite (fun _ => .bind (openFil_inside _ _ _) fun s hs => .pure fun hok => ?_) fun hne =>
    .pure fun h => absurd h hne
  rw [if_neg (not_not.2 hok)]
  exact hs

/-! ## Runs -/

/-- The file objects and states that calls on the file object `fp₁` in `w₁` lead to. -/
inductive HandleRun (fp₁ : FIL) (w₁ : State) : FIL → State → Prop
  | refl : HandleRun fp₁ w₁ fp₁ w₁
  | call {fp fp' : FIL} {w w' : State} {res : FRESULT} {n : Nat} (c : FileCall) :
      HandleRun fp₁ w₁ fp w → c.run fp w = some ((res, fp', n), w') → HandleRun fp₁ w₁ fp' w'

namespace FileCall

/-- The calls on a file object keep an accepted layout. -/
theorem run_usable (fp : FIL) (c : FileCall) : Keeps State.Usable (c.run fp) := by
  cases c with
  | read btr =>
    exact .bind (Keeps.usable fun _ => (fRead_host fp btr.toNat).keeps) fun _ => .pure _
  | write buff h => exact Keeps.usable fun _ => (fWrite_host fp buff).keeps
  | lseek ofs =>
    exact .bind (Keeps.usable fun _ => (fLseek_host fp ofs.toNat).keeps) fun _ => .pure _
  | truncate => exact .bind (Keeps.usable fun _ => (fTruncate_host fp).keeps) fun _ => .pure _
  | sync => exact .bind (Keeps.usable fun _ => (fSync_host fp).keeps) fun _ => .pure _

section
variable {fp : FIL} (hfp : fp.Inside) {w : State} (hw : w.Usable) (c : FileCall)

include hfp hw

/-- No call depends on what the arithmetic does when a result is not a 32-bit number. -/
theorem run_with {a : Arith} (ha : a.Right) : c.run fp w = c.runWith a fp w := by
  cases c with
  | read btr => exact bind_congr_left (congrFun (fRead_with ha hfp btr.toNat) w)
  | write buff h => exact congrFun (fWrite_with ha hfp h) w
  | lseek ofs => exact bind_congr_left (fLseek_with hfp ofs.toNat_lt hw ha)
  | truncate => rfl
  | sync => rfl

/-- A call keeps the pointer inside the file, and a transfer moves it by its count. -/
theorem run_cursor : Ensures (c.run fp) w fun r _ => r.2.1.Inside ∧
    ∀ n, c.asked = some n → Transferred32 fp.fptr n r.2.1 r.2.2 := by
  cases c with
  | read btr =>
    simp only [run, ensures_bind, ensures_pure]
    refine (fRead_cursor hfp btr.toNat w).mono fun r _ hpost => ?_
    obtain ⟨hm, hi⟩ := hpost
    refine ⟨hi, ?_⟩
    rintro _ ⟨⟩
    exact hm
  | write buff h =>
    refine (fWrite_cursor hfp h w).mono fun r _ hpost => ?_
    obtain ⟨hm, hi⟩ := hpost
    refine ⟨hi, ?_⟩
    rintro _ ⟨⟩
    exact hm
  | lseek ofs =>
    simp only [run, ensures_bind, ensures_pure]
    exact (fLseek_cursor hfp ofs.toNat_lt hw).mono fun r _ hi => ⟨hi, fun n hn => by cases hn⟩
  | truncate =>
    simp only [run, ensures_bind, ensures_pure]
    exact (fTruncate_cursor hfp w trivial).mono fun r _ hi => ⟨hi.2, fun n hn => by cases hn⟩
  | sync =>
    simp only [run, ensures_bind, ensures_pure]
    exact (fSync_cursor hfp w trivial).mono fun r _ hi => ⟨hi.2, fun n hn => by cases hn⟩

end

end FileCall

/-- The pointer stays in the file over any run of calls. -/
theorem HandleRun.inside {fp₁ fp : FIL} {w₁ w : State} (h : HandleRun fp₁ w₁ fp w)
    (hfp : fp₁.Inside) (hw : w₁.Usable) : fp.Inside ∧ w.Usable := by
  induction h with
  | refl => exact ⟨hfp, hw⟩
  | call c _ hc ih =>
    exact ⟨(c.run_cursor ih.1 ih.2 _ _ hc).1, c.run_usable _ _ ih.2 _ _ hc⟩

/-- The cursor of an opened file never leaves the file and never wraps: after every sequence of
calls on every device, the pointer is inside the file unless the object is aborted, the size is a
32-bit number, and the next call computes the same with every arithmetic that is right on 32-bit
numbers, and moves the pointer by the number of bytes it reports, which is at most what it was asked
for. -/
theorem cursor_exact {w₀ w₁ w : State} {fp₀ fp₁ fp : FIL} {path : List UInt8} {mode : UInt8}
    (hw : w₀.Usable) (ho : fOpen fp₀ path mode w₀ = some ((.ok, fp₁), w₁))
    (h : HandleRun fp₁ w₁ fp w) :
    (fp.err = .ok → fp.fptr ≤ fp.objsize) ∧ fp.objsize < W32 ∧
    ∀ c : FileCall, (∀ a : Arith, a.Right → c.run fp w = c.runWith a fp w) ∧
      ∀ res fp' n w', c.run fp w = some ((res, fp', n), w') →
        ∀ asked, c.asked = some asked → n ≤ asked ∧ fp'.fptr = fp.fptr + n := by
  obtain ⟨hw₁, hfp₁⟩ := fOpen_inside fp₀ path mode w₀ hw _ _ ho
  obtain ⟨hfp, hw⟩ := h.inside (hfp₁ rfl) hw₁
  refine ⟨hfp.live, hfp.size, fun c => ⟨fun a ha => c.run_with hfp hw ha, ?_⟩⟩
  intro res fp' n w' hc asked hn
  have hm := (c.run_cursor hfp hw _ _ hc).2 asked hn
  exact ⟨hm.count, hm.fptr⟩

/-- The hypotheses are met by a file of two clusters after a seek to the last 32-bit offset, which
is clipped with the size. -/
theorem cursor_exact_seek : ∃ fp₁ w₁ fp w,
    fOpen {} [0x41] FA_READ (registeredOn twoClusters) = some ((.ok, fp₁), w₁) ∧
    HandleRun fp₁ w₁ fp w ∧ (fp.err, fp.fptr) = (.ok, 1000) ∧ fp.fptr ≤ fp.objsize ∧
    ∀ a : Arith, a.Right →
      (FileCall.read 0xFFFFFFFF).run fp w = (FileCall.read 0xFFFFFFFF).runWith a fp w := by
  have h : ((fOpen {} [0x41] FA_READ (registeredOn twoClusters)).bind fun o =>
      ((FileCall.lseek 0xFFFFFFFF).run o.1.2 o.2).map fun r =>
        ((o.1.1, r.1.1), r.1.2.1.err, r.1.2.1.fptr)) = some ((.ok, .ok), .ok, 1000) := by
    decide +kernel
  obtain ⟨⟨⟨res, fp₁⟩, w₁⟩, ho, h⟩ := Option.bind_eq_some_iff.1 h
  obtain ⟨⟨⟨res', fp, n⟩, w⟩, hc, h⟩ := Option.map_eq_some_iff.1 h
  simp only [Prod.mk.injEq] at h
  obtain ⟨⟨rfl, rfl⟩, he, hp⟩ := h
  have hrun : HandleRun fp₁ w₁ fp w := .call _ .refl hc
  have hw : (registeredOn twoClusters).Usable := fun h => absurd rfl h
  obtain ⟨hle, -, hcall⟩ := cursor_exact hw ho hrun
  exact ⟨fp₁, w₁, fp, w, ho, hrun, by rw [he, hp], hle he, (hcall _).1⟩

end FatFs
