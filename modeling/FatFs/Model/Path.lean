import FatFs.Model.Dir

/-!
# Path names

The functions of `ff.c:3001-3224`. A path is the list of its bytes; the byte after the last is the
terminating NUL, so a pointer into the path is a suffix of the list. `TCHAR` is plain `char`, which
is signed on some targets: where the source compares through `char`, the comparison is made on
`charInt` or `charUint`.
-/

namespace FatFs

open Run

/-- The byte at the head of a path pointer. -/
def peek (p : List UInt8) : UInt8 := p.headD 0

/-- The value of a plain `char` that holds the byte `b`. -/
def charInt (charSigned : Bool) (b : UInt8) : Int :=
  if charSigned ∧ 128 ≤ b.toNat then (b.toNat : Int) - 256 else b.toNat

/-- A plain `char` converted to `UINT`. -/
def charUint (charSigned : Bool) (b : UInt8) : Nat := (charInt charSigned b % (W32 : Int)).toNat

/-- Source: `IsSeparator` (`ff.c:51`). -/
def isSeparator (c : UInt8) : Bool := c == 0x2F || c == 0x5C

/-- Source: `IsTerminator` (`ff.c:52`), without LFN. -/
def isTerminator (charSigned : Bool) (c : UInt8) : Bool := decide (charUint charSigned c < 0x21)

/-- To upper for the letters `a` to `z`. Source: `IsLower` (`ff.c:49`). -/
def toUpper (c : UInt8) : UInt8 := if 0x61 ≤ c ∧ c ≤ 0x7A then c - 0x20 else c

/-- The up-case table of code page 437, for `0x80` to `0xFF`. Source: `TBL_CT437` (`ff.c:296`),
`ExCvt` (`ff.c:598`). -/
def exCvt : List UInt8 :=
  [0x80, 0x9A, 0x45, 0x41, 0x8E, 0x41, 0x8F, 0x80, 0x45, 0x45, 0x45, 0x49, 0x49, 0x49, 0x8E, 0x8F,
   0x90, 0x92, 0x92, 0x4F, 0x99, 0x4F, 0x55, 0x55, 0x59, 0x99, 0x9A, 0x9B, 0x9C, 0x9D, 0x9E, 0x9F,
   0x41, 0x49, 0x4F, 0x55, 0xA5, 0xA5, 0xA6, 0xA7, 0xA8, 0xA9, 0xAA, 0xAB, 0xAC, 0xAD, 0xAE, 0xAF,
   0xB0, 0xB1, 0xB2, 0xB3, 0xB4, 0xB5, 0xB6, 0xB7, 0xB8, 0xB9, 0xBA, 0xBB, 0xBC, 0xBD, 0xBE, 0xBF,
   0xC0, 0xC1, 0xC2, 0xC3, 0xC4, 0xC5, 0xC6, 0xC7, 0xC8, 0xC9, 0xCA, 0xCB, 0xCC, 0xCD, 0xCE, 0xCF,
   0xD0, 0xD1, 0xD2, 0xD3, 0xD4, 0xD5, 0xD6, 0xD7, 0xD8, 0xD9, 0xDA, 0xDB, 0xDC, 0xDD, 0xDE, 0xDF,
   0xE0, 0xE1, 0xE2, 0xE3, 0xE4, 0xE5, 0xE6, 0xE7, 0xE8, 0xE9, 0xEA, 0xEB, 0xEC, 0xED, 0xEE, 0xEF,
   0xF0, 0xF1, 0xF2, 0xF3, 0xF4, 0xF5, 0xF6, 0xF7, 0xF8, 0xF9, 0xFA, 0xFB, 0xFC, 0xFD, 0xFE, 0xFF]

/-- The bytes that a short name cannot hold. Source: `ff.c:3051`. -/
def illegalChars : List UInt8 :=
  [0x2A, 0x2B, 0x2C, 0x3A, 0x3B, 0x3C, 0x3D, 0x3E, 0x5B, 0x5D, 0x7C, 0x22, 0x3F, 0x7F]

/-- A byte of a name through the up-case table of the code page (`ff.c:3041-3043`). -/
def cvtChar (c : UInt8) : UInt8 := if 0x80 ≤ c then exCvt.getD (c &&& 0x7F).toNat 0 else c

/-- What the loop of `create_name` leaves: the byte it stopped at, the path after it, the index of
the next byte of the name, and the name. -/
structure NameEnd where
  c : UInt8
  path : List UInt8
  i : Nat
  sfn : List UInt8
  deriving DecidableEq, Repr

/-- The loop of `create_name` (`ff.c:3024-3055`); `none` rejects the name. `dbc_1st` is constantly
false in code page 437. -/
def nameLoop : List UInt8 → Nat → Nat → List UInt8 → Option NameEnd
  | [], i, _, sfn => some ⟨0, [], i, sfn⟩
  | c :: p, i, ni, sfn =>
    if c ≤ 0x20 then some ⟨c, p, i, sfn⟩
    else if isSeparator c then some ⟨c, p.dropWhile isSeparator, i, sfn⟩
    else if c = 0x2E ∨ ni ≤ i then
      if ni = 11 ∨ c ≠ 0x2E then none
      else nameLoop p 8 11 sfn
    else if cvtChar c ∈ illegalChars then none
    else nameLoop p (i + 1) ni (sfn.set i (toUpper (cvtChar c)))

/-- Pick a top segment of the path and create the name in directory form; returns the path after
it. Source: `create_name` (`ff.c:2869`, the branch `ff.c:3001-3063`). -/
def createName (charSigned : Bool) (dp : DIR) (path : List UInt8) :
    FRESULT × DIR × List UInt8 :=
  match nameLoop path 0 8 (List.replicate 11 0x20) with
  | none => (.invalidName, dp, path)
  | some e =>
    if e.i = 0 then (.invalidName, { dp with fn := e.sfn }, e.path)
    else
      let sfn := if e.sfn.headD 0 = DDEM then e.sfn.set 0 RDDEM else e.sfn
      let last := e.c ≤ 0x20 ∨ charInt charSigned (peek e.path) ≤ 0x20
      (.ok, { dp with fn := sfn, nsflag := if last then NS_LAST else 0 }, e.path)

/-- What `follow_path` does after the search for a segment (`ff.c:3118-3146`): stop, or get into the
sub-directory with the rest of the path. -/
def followFound (path : List UInt8) (res : FRESULT) (dp : DIR) :
    M ((DIR × List UInt8) ⊕ (FRESULT × DIR)) := do
  if res ≠ .ok then
    if res = .noFile ∧ !hasBits dp.nsflag NS_LAST then return .inr (.noPath, dp)
    else return .inr (res, dp)
  else if hasBits dp.nsflag NS_LAST then return .inr (.ok, dp)
  else if !hasBits dp.attr AM_DIR then return .inr (.noPath, dp)
  else
    let w ← get
    return .inl ({ dp with sclust := ldClust w.geo w.win (dp.dptr % SS) }, path)

/-- One round of the loop of `follow_path` (`ff.c:3114-3147`). -/
def followRound (p : DIR × List UInt8) : M ((DIR × List UInt8) ⊕ (FRESULT × DIR)) := do
  let w ← get
  match createName w.charSigned p.1 p.2 with
  | (.ok, dp, path) =>
    let (res, dp) ← dirFind dp
    followFound path res dp
  | (res, dp, _) => return .inr (res, dp)

/-- Follow a file path. Source: `follow_path` (`ff.c:3073`). -/
def followPath (dp : DIR) (path : List UInt8) : M (FRESULT × DIR) := do
  let w ← get
  let path := path.dropWhile isSeparator
  let dp := { dp with sclust := 0 }
  if charUint w.charSigned (peek path) < 0x20 then
    dirSdi { dp with nsflag := NS_NONAME } 0
  else loop followRound (path.length + 1) (dp, path)

/-- The bytes before the first terminator or colon, if that is a colon, and the path after it.
Source: `ff.c:3175-3177`. -/
def splitColon (charSigned : Bool) : List UInt8 → Option (List UInt8)
  | [] => none
  | c :: p =>
    if c = 0x3A then some p
    else if isTerminator charSigned c then none
    else splitColon charSigned p

/-- Compare a volume ID with the path, case-insensitively; the path after the comparison when the
whole ID matched. Source: `ff.c:3189-3193`. -/
def matchVol : List UInt8 → List UInt8 → Option (List UInt8)
  | [], p => some p.tail
  | v :: vs, p => if toUpper v = toUpper (peek p) then matchVol vs p.tail else none

/-- The pre-defined volume ID `RAM`. Source: `VolumeStr` (`ff.c:482`). -/
def volumeStr : List UInt8 := [0x52, 0x41, 0x4D]

/-- Get the logical drive number from the path name: `true` for drive 0, the only one, and the path
without the prefix. Source: `get_ldnumber` (`ff.c:3160`). -/
def getLdnumber (charSigned : Bool) (path : List UInt8) : Bool × List UInt8 :=
  match splitColon charSigned path with
  | none => (true, path)
  | some tt =>
    if 0x30 ≤ peek path ∧ peek path ≤ 0x39 ∧ path.length = tt.length + 2 then
      if peek path = 0x30 then (true, tt) else (false, path)
    else
      match matchVol volumeStr path with
      | some tp => if tp.length = tt.length then (true, tt) else (false, path)
      | none => (false, path)

end FatFs
