import FatFs.Model.Mount

/-!
# Files

The functions of `ff.c:3732-4603` and `ff.c:4927-4968`: opening, reading, writing, synchronising,
closing, seeking and truncating a file. A function takes the file object and returns it beside its
result. `FIL.abort` is the macro `ABORT` (`ff.c:235`).
-/

namespace FatFs

open Run

/-- Post process on a fatal error. Source: `ABORT` (`ff.c:235`). -/
def FIL.abort (fp : FIL) (res : FRESULT) : FIL := { fp with err := res }

/-! ## Opening -/

/-- The directory entry at `dir` of a file just created or overwritten. Source: `ff.c:3809-3815`. -/
def initEntry (g : Geometry) (s : Sector) (dir : Nat) : Sector :=
  let s := stDword s (dir + DIR_CrtTime) GET_FATTIME
  let s := stDword s (dir + DIR_ModTime) GET_FATTIME
  let s := s.set (dir + DIR_Attr) AM_ARC
  let s := stClust g s dir 0
  stDword s (dir + DIR_FileSize) 0

/-- Set the directory entry of the file to its initial state, and remove its cluster chain. Source:
`ff.c:3807-3825`. -/
def truncEntry (dj : DIR) : M FRESULT := do
  let w ← get
  let cl := ldClust w.geo w.win dj.dir
  modWin fun s => initEntry w.geo s dj.dir
  if cl ≠ 0 then
    let res ← removeChain cl 0
    if res = .ok then
      let res ← moveWindow w.winsect
      -- reuse the cluster hole
      modify fun w => { w with lastClst := sub32 cl 1 }
      return res
    else return res
  else return .ok

/-- The branch of `f_open` that may create or overwrite a file, from the result of `follow_path`.
Source: `ff.c:3771-3826`. -/
def openCreate (res : FRESULT) (dj : DIR) (mode : UInt8) : M (FRESULT × DIR × UInt8) := do
  if res ≠ .ok then
    let mode := mode ||| FA_CREATE_ALWAYS
    if res = .noFile then
      let (res, dj) ← dirRegister dj
      if res = .ok then return (← truncEntry dj, dj, mode) else return (res, dj, mode)
    else return (res, dj, mode)
  else if hasBits dj.attr (AM_RDO ||| AM_DIR) then return (.denied, dj, mode)
  else if hasBits mode FA_CREATE_NEW then return (.exist, dj, mode)
  else if hasBits mode FA_CREATE_ALWAYS then return (← truncEntry dj, dj, mode)
  else return (.ok, dj, mode)

/-- The branch of `f_open` that opens an existing file. Source: `ff.c:3829-3837`. -/
def openExisting (res : FRESULT) (dj : DIR) (mode : UInt8) : FRESULT :=
  if res = .ok then
    if hasBits dj.attr AM_DIR then .noFile
    else if hasBits mode FA_WRITE ∧ hasBits dj.attr AM_RDO then .denied
    else .ok
  else res

/-- One round of the loop of the append seek (`ff.c:3890-3894`), on the cluster and the offset that
is left. -/
def appendRound (bcs : Nat) (p : Nat × Nat) : M ((Nat × Nat) ⊕ (FRESULT × Nat × Nat)) := do
  if bcs < p.2 then
    let clst ← getFat p.1
    if clst = DISKERR then return .inr (.diskErr, clst, p.2 - bcs)
    else if clst ≤ 1 then return .inr (.intErr, clst, p.2 - bcs)
    else return .inl (clst, p.2 - bcs)
  else return .inr (.ok, p)

/-- Seek to the end of the file. Source: `ff.c:3886-3910`. -/
def appendSeek (fp : FIL) : M (FRESULT × FIL) := do
  let w ← get
  let fp := { fp with fptr := fp.objsize }
  let bcs := w.geo.csize * SS
  let (res, clst, ofs) ← loop (appendRound bcs) (W32 / SS + 1) (fp.sclust, fp.objsize)
  let fp := { fp with clust := clst }
  if res = .ok ∧ ofs % SS ≠ 0 then
    let sc := clst2sect w.geo clst
    if sc = 0 then return (.intErr, fp)
    else return (.ok, { fp with sect := add32 sc (ofs / SS) })
  else return (res, fp)

/-- Set up the file object for the directory entry in the window. Source: `ff.c:3839-3910`. -/
def openFil (fp : FIL) (dj : DIR) (mode : UInt8) : M (FRESULT × FIL) := do
  let w ← get
  let mode := if hasBits mode FA_CREATE_ALWAYS then mode ||| FA_MODIFIED else mode
  let fp := { fp with
    dirSect := w.winsect
    dirPtr := dj.dir
    sclust := ldClust w.geo w.win dj.dir
    objsize := ldDword w.win (dj.dir + DIR_FileSize)
    fs := true
    id := w.geo.id
    flag := mode
    err := .ok
    sect := 0
    fptr := 0 }
  if hasBits mode FA_SEEKEND ∧ 0 < fp.objsize then appendSeek fp
  else return (.ok, fp)

/-- Open or create a file. Source: `f_open` (`ff.c:3732`). -/
def fOpen (fp : FIL) (path : List UInt8) (mode : UInt8) : M (FRESULT × FIL) := do
  let mode := mode &&&
    (FA_READ ||| FA_WRITE ||| FA_CREATE_ALWAYS ||| FA_CREATE_NEW ||| FA_OPEN_ALWAYS |||
      FA_OPEN_APPEND)
  let (res, path) ← mountVolume path mode
  if res = .ok then
    let (res, dj) ← followPath {} path
    let res := if res = .ok ∧ hasBits dj.nsflag NS_NONAME then .invalidName else res
    let (res, dj, mode) ←
      (if hasBits mode (FA_CREATE_ALWAYS ||| FA_OPEN_ALWAYS ||| FA_CREATE_NEW) then
        openCreate res dj mode
      else pure (openExisting res dj mode, dj, mode))
    if res = .ok then
      let (res, fp) ← openFil fp dj mode
      return (res, if res ≠ .ok then { fp with fs := false } else fp)
    else return (res, { fp with fs := false })
  else return (res, { fp with fs := false })

/-! ## Reading -/

/-- The current cluster for a read on a sector boundary. Source: `ff.c:3955-3971`. -/
def readClust (fp : FIL) (csect : Nat) : M (Except FRESULT FIL) := do
  if csect = 0 then
    let clst ← (if fp.fptr = 0 then pure fp.sclust else getFat fp.clust)
    if clst < 2 then return .error .intErr
    else if clst = DISKERR then return .error .diskErr
    else return .ok { fp with clust := clst }
  else return .ok fp

/-- The bytes of `cc` sectors read from the device, with the dirty window `win` over the sector `k`
of them if it is one. Source: `ff.c:3980-3985`. -/
def overlay (buff : Nat → Sector) (wflag : Bool) (win : Sector) (k cc : Nat) : List UInt8 :=
  (List.range (SS * cc)).map fun i =>
    (if wflag ∧ k < cc ∧ i / SS = k then win else buff (i / SS)) (i % SS)

/-- Copy the rest of the current sector, at most `btr` bytes, from the window. Source:
`ff.c:4008-4012`. -/
def readWindow (fp : FIL) (btr : Nat) (acc : List UInt8) :
    M ((FIL × Nat × List UInt8) ⊕ (FRESULT × FIL × List UInt8)) := do
  let rcnt := min (SS - fp.fptr % SS) btr
  if (← moveWindow fp.sect) ≠ .ok then return .inr (.diskErr, fp.abort .diskErr, acc)
  else
    let w ← get
    return .inl ({ fp with fptr := add32 fp.fptr rcnt }, btr - rcnt,
      acc ++ w.win.bytes (fp.fptr % SS) rcnt)

/-- One round of the loop of `f_read` (`ff.c:3952-4016`), on the file object, the number of bytes
left to read and the bytes read. -/
def fReadRound (p : FIL × Nat × List UInt8) :
    M ((FIL × Nat × List UInt8) ⊕ (FRESULT × FIL × List UInt8)) := do
  let (fp, btr, acc) := p
  if btr = 0 then return .inr (.ok, fp, acc)
  else if fp.fptr % SS = 0 then
    let w ← get
    let csect := fp.fptr / SS &&& (w.geo.csize - 1)
    match ← readClust fp csect with
    | .error res => return .inr (res, fp.abort res, acc)
    | .ok fp =>
      let sect := clst2sect w.geo fp.clust
      if sect = 0 then return .inr (.intErr, fp.abort .intErr, acc)
      else
        let sect := add32 sect csect
        let cc := btr / SS
        if 0 < cc then
          -- whole sectors, clipped at the cluster boundary, are read directly
          let cc := if w.geo.csize < csect + cc then w.geo.csize - csect else cc
          match ← diskRead sect cc with
          | none => return .inr (.diskErr, fp.abort .diskErr, acc)
          | some buff =>
            let w ← get
            let rcnt := SS * cc
            return .inl ({ fp with fptr := add32 fp.fptr rcnt }, btr - rcnt,
              acc ++ overlay buff w.wflag w.win (sub32 w.winsect sect) cc)
        else readWindow { fp with sect := sect } btr acc
  else readWindow fp btr acc

/-- Read up to `btr` bytes from the file; the bytes read are returned. Source: `f_read`
(`ff.c:3929`). -/
def fRead (fp : FIL) (btr : Nat) : M (FRESULT × FIL × List UInt8) := do
  let res ← validate fp.fs fp.id
  if res ≠ .ok then return (res, fp, [])
  else if fp.err ≠ .ok then return (fp.err, fp, [])
  else if !hasBits fp.flag FA_READ then return (.denied, fp, [])
  else
    let remain := sub32 fp.objsize fp.fptr
    let btr := if remain < btr then remain else btr
    loop fReadRound (btr + 1) (fp, btr, [])

/-! ## Writing -/

/-- The current cluster for a write on a sector boundary, stretching the chain when needed; `none`
when the volume is full. Source: `ff.c:4057-4078`. -/
def writeClust (fp : FIL) (csect : Nat) : M (Except FRESULT (Option FIL)) := do
  if csect = 0 then
    let clst ←
      (if fp.fptr = 0 then if fp.sclust = 0 then createChain 0 else pure fp.sclust
      else createChain fp.clust)
    if clst = 0 then return .ok none
    else if clst = 1 then return .error .intErr
    else if clst = DISKERR then return .error .diskErr
    else return .ok (some { fp with
      clust := clst
      sclust := if fp.sclust = 0 then clst else fp.sclust })
  else return .ok (some fp)

/-- The file object after `wcnt` more bytes were written (`ff.c:4054`). -/
def FIL.advance (fp : FIL) (wcnt : Nat) : FIL :=
  let fptr := add32 fp.fptr wcnt
  { fp with fptr := fptr, objsize := if fp.objsize < fptr then fptr else fp.objsize }

/-- Store to the rest of the current sector through the window. Source: `ff.c:4126-4131`. -/
def writeWindow (fp : FIL) (buff : List UInt8) (bw : Nat) :
    M ((FIL × List UInt8 × Nat) ⊕ (FRESULT × FIL × Nat)) := do
  let wcnt := min (SS - fp.fptr % SS) buff.length
  if (← moveWindow fp.sect) ≠ .ok then return .inr (.diskErr, fp.abort .diskErr, bw)
  else
    modWin fun s => s.copy (fp.fptr % SS) (buff.take wcnt)
    return .inl (fp.advance wcnt, buff.drop wcnt, bw + wcnt)

/-- Re-point the window to the data sector on the growing edge without filling it. Source:
`ff.c:4113-4116`. -/
def growEdge (fp : FIL) (sect : Nat) : M FRESULT := do
  if fp.objsize ≤ fp.fptr then
    let res ← syncWindow
    if res ≠ .ok then return .diskErr
    else
      modify fun w => { w with winsect := sect }
      return .ok
  else return .ok

/-- The direct write of `cc` whole sectors and the refill of the window they invalidate. Source:
`ff.c:4095-4101`. -/
def writeDirect (buff : List UInt8) (sect cc : Nat) : M DRESULT := do
  let r ← diskWrite (fun k => Sector.ofList (buff.drop (SS * k))) sect cc
  if r = .ok then
    modify fun w =>
      if sub32 w.winsect sect < cc then
        { w with
          win := Sector.ofList (buff.drop (SS * sub32 w.winsect sect))
          wflag := false }
      else w
    return .ok
  else return r

/-- One round of the loop of `f_write` (`ff.c:4054-4136`), on the file object, the data left to
write and the number of bytes written. -/
def fWriteRound (p : FIL × List UInt8 × Nat) :
    M ((FIL × List UInt8 × Nat) ⊕ (FRESULT × FIL × Nat)) := do
  let (fp, buff, bw) := p
  if buff = [] then return .inr (.ok, fp, bw)
  else if fp.fptr % SS = 0 then
    let w ← get
    let csect := fp.fptr / SS &&& (w.geo.csize - 1)
    match ← writeClust fp csect with
    | .error res => return .inr (res, fp.abort res, bw)
    | .ok none => return .inr (.ok, fp, bw)
    | .ok (some fp) =>
      let res ← (if (← get).winsect = fp.sect then syncWindow else pure .ok)
      if res ≠ .ok then return .inr (.diskErr, fp.abort .diskErr, bw)
      else
        let sect := clst2sect w.geo fp.clust
        if sect = 0 then return .inr (.intErr, fp.abort .intErr, bw)
        else
          let sect := add32 sect csect
          let cc := buff.length / SS
          if 0 < cc then
            -- whole sectors, clipped at the cluster boundary, are written directly
            let cc := if w.geo.csize < csect + cc then w.geo.csize - csect else cc
            if (← writeDirect buff sect cc) ≠ .ok then
              return .inr (.diskErr, fp.abort .diskErr, bw)
            else return .inl (fp.advance (SS * cc), buff.drop (SS * cc), bw + SS * cc)
          else if (← growEdge fp sect) ≠ .ok then
            return .inr (.diskErr, fp.abort .diskErr, bw)
          else writeWindow { fp with sect := sect } buff bw
  else writeWindow fp buff bw

/-- Write `buff` to the file; the number of bytes written is returned. Source: `f_write`
(`ff.c:4029`). -/
def fWrite (fp : FIL) (buff : List UInt8) : M (FRESULT × FIL × Nat) := do
  let res ← validate fp.fs fp.id
  if res ≠ .ok then return (res, fp, 0)
  else if fp.err ≠ .ok then return (fp.err, fp, 0)
  else if !hasBits fp.flag FA_WRITE then return (.denied, fp, 0)
  else
    -- the file size cannot reach 4 GiB
    let btw := if add32 fp.fptr buff.length < fp.fptr then 0xFFFFFFFF - fp.fptr else buff.length
    let (res, fp, bw) ← loop fWriteRound (buff.length + 1) (fp, buff.take btw, 0)
    return (res, if res = .ok then { fp with flag := fp.flag ||| FA_MODIFIED } else fp, bw)

/-! ## Synchronising and closing -/

/-- The directory entry at `dir` updated from the file object. Source: `ff.c:4206-4210`. -/
def syncEntry (g : Geometry) (s : Sector) (dir : Nat) (fp : FIL) : Sector :=
  let s := s.set (dir + DIR_Attr) (s (dir + DIR_Attr) ||| AM_ARC)
  let s := stClust g s dir fp.sclust
  let s := stDword s (dir + DIR_FileSize) fp.objsize
  let s := stDword s (dir + DIR_ModTime) GET_FATTIME
  stWord s (dir + DIR_LstAccDate) 0

/-- Flush the cached data of the file. Source: `f_sync` (`ff.c:4150`). -/
def fSync (fp : FIL) : M (FRESULT × FIL) := do
  let res ← validate fp.fs fp.id
  if res = .ok ∧ hasBits fp.flag FA_MODIFIED then
    let res ← moveWindow fp.dirSect
    if res = .ok then
      let g := (← get).geo
      modWin fun s => syncEntry g s fp.dirPtr fp
      let res ← syncFs
      return (res, { fp with flag := fp.flag &&& ~~~FA_MODIFIED })
    else return (res, fp)
  else return (res, fp)

/-- Close the file. Source: `f_close` (`ff.c:4231`). -/
def fClose (fp : FIL) : M (FRESULT × FIL) := do
  let (res, fp) ← fSync fp
  if res = .ok then
    let res ← validate fp.fs fp.id
    return (res, if res = .ok then { fp with fs := false } else fp)
  else return (res, fp)

/-! ## Seeking and truncating -/

/-- One round of the cluster following loop of `f_lseek` (`ff.c:4555-4575`), on the file object, the
cluster and the offset that is left. `Except.error` is an abort. -/
def seekRound (bcs : Nat) (p : FIL × Nat × Nat) :
    M ((FIL × Nat × Nat) ⊕ Except (FRESULT × FIL) (FIL × Nat × Nat)) := do
  let (fp, clst, ofs) := p
  if bcs < ofs then
    let ofs := ofs - bcs
    let fp := { fp with fptr := add32 fp.fptr bcs }
    let w ← get
    if hasBits fp.flag FA_WRITE then
      let clst ← createChain clst
      -- the file size is clipped in case of disk full
      if clst = 0 then return .inr (.ok (fp, 0, 0))
      else if clst = DISKERR then return .inr (.error (.diskErr, fp.abort .diskErr))
      else if clst ≤ 1 ∨ w.geo.nFatent ≤ clst then
        return .inr (.error (.intErr, fp.abort .intErr))
      else return .inl ({ fp with clust := clst }, clst, ofs)
    else
      let clst ← getFat clst
      if clst = DISKERR then return .inr (.error (.diskErr, fp.abort .diskErr))
      else if clst ≤ 1 ∨ w.geo.nFatent ≤ clst then
        return .inr (.error (.intErr, fp.abort .intErr))
      else return .inl ({ fp with clust := clst }, clst, ofs)
  else return .inr (.ok (fp, clst, ofs))

/-- The end of `f_lseek`: extend the size to the pointer and set the current sector. Source:
`ff.c:4584-4599`. -/
def seekEnd (fp : FIL) (nsect : Nat) : FIL :=
  let fp := if fp.objsize < fp.fptr then
      { fp with objsize := fp.fptr, flag := fp.flag ||| FA_MODIFIED } else fp
  if fp.fptr % SS ≠ 0 ∧ nsect ≠ fp.sect then { fp with sect := nsect } else fp

/-- Follow the chain from `clst` to the offset `ofs` from it, and end the seek. Source:
`ff.c:4554-4599`. -/
def seekFollow (fp : FIL) (clst ofs : Nat) : M (FRESULT × FIL) := do
  if clst ≠ 0 then
    let w ← get
    match ← loop (seekRound (w.geo.csize * SS)) (W32 / SS + 1) (fp, clst, ofs) with
    | .error (res, fp) => return (res, fp)
    | .ok (fp, clst, ofs) =>
      let fp := { fp with fptr := add32 fp.fptr ofs }
      if ofs % SS ≠ 0 then
        let nsect := clst2sect w.geo clst
        if nsect = 0 then return (.intErr, fp.abort .intErr)
        else return (.ok, seekEnd fp (add32 nsect (ofs / SS)))
      else return (.ok, seekEnd fp 0)
  else return (.ok, seekEnd fp 0)

/-- Move the read/write pointer of the file. Source: `f_lseek` (`ff.c:4448`). -/
def fLseek (fp : FIL) (ofs : Nat) : M (FRESULT × FIL) := do
  let res ← validate fp.fs fp.id
  if res ≠ .ok then return (res, fp)
  else if fp.err ≠ .ok then return (fp.err, fp)
  else
    let w ← get
    -- in read-only mode the offset is clipped with the file size
    let ofs := if fp.objsize < ofs ∧ !hasBits fp.flag FA_WRITE then fp.objsize else ofs
    let ifptr := fp.fptr
    let fp := { fp with fptr := 0 }
    if 0 < ofs then
      let bcs := w.geo.csize * SS
      if 0 < ifptr ∧ (ifptr - 1) / bcs ≤ (ofs - 1) / bcs then
        -- start from the current cluster
        let fptr := (ifptr - 1) - ((ifptr - 1) &&& (bcs - 1))
        seekFollow { fp with fptr := fptr } fp.clust (ofs - fptr)
      else if fp.sclust = 0 then
        -- no cluster chain, create a new one
        let clst ← createChain 0
        if clst = 1 then return (.intErr, fp.abort .intErr)
        else if clst = DISKERR then return (.diskErr, fp.abort .diskErr)
        else seekFollow { fp with sclust := clst, clust := clst } clst ofs
      else seekFollow { fp with clust := fp.sclust } fp.sclust ofs
    else return (.ok, seekEnd fp 0)

/-- Cut the chain of the file at the pointer. Source: `ff.c:4942-4957`. -/
def truncChain (fp : FIL) : M (FRESULT × FIL) := do
  if fp.fptr = 0 then
    let res ← removeChain fp.sclust 0
    return (res, { fp with sclust := 0 })
  else
    let ncl ← getFat fp.clust
    if ncl = DISKERR then return (.diskErr, fp)
    else if ncl = 1 then return (.intErr, fp)
    else if ncl < (← get).geo.nFatent then
      let res ← removeChain ncl fp.clust
      return (res, fp)
    else return (.ok, fp)

/-- Truncate the file at the pointer. Source: `f_truncate` (`ff.c:4927`). -/
def fTruncate (fp : FIL) : M (FRESULT × FIL) := do
  let res ← validate fp.fs fp.id
  if res ≠ .ok then return (res, fp)
  else if fp.err ≠ .ok then return (fp.err, fp)
  else if !hasBits fp.flag FA_WRITE then return (.denied, fp)
  else if fp.fptr < fp.objsize then
    let (res, fp) ← truncChain fp
    let fp := { fp with objsize := fp.fptr, flag := fp.flag ||| FA_MODIFIED }
    return (res, if res ≠ .ok then fp.abort res else fp)
  else return (.ok, fp)

end FatFs
