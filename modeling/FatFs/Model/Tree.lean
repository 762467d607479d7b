import FatFs.Model.File

/-!
# Directories and the name space

The functions of `ff.c:4612-4918` and `ff.c:4977-5251`: opening and reading directories, file
status, the free cluster count, and removing, creating and renaming objects.
-/

namespace FatFs

open Run

/-- Create a directory object. Source: `f_opendir` (`ff.c:4612`). -/
def fOpendir (dp : DIR) (path : List UInt8) : M (FRESULT × DIR) := do
  let (res, path) ← mountVolume path 0
  if res = .ok then
    let (res, dp) ← followPath { dp with fs := true } path
    if res = .ok then
      let w ← get
      if !hasBits dp.nsflag NS_NONAME ∧ !hasBits dp.attr AM_DIR then
        return (.noPath, { dp with fs := false })
      else
        let dp := if hasBits dp.nsflag NS_NONAME then dp
          else { dp with sclust := ldClust w.geo w.win dp.dir }
        let (res, dp) ← dirSdi { dp with id := w.geo.id } 0
        return (if res = .noFile then .noPath else res,
          if res ≠ .ok then { dp with fs := false } else dp)
    else return (if res = .noFile then .noPath else res, { dp with fs := false })
  else return (res, { dp with fs := false })

/-- Close a directory. Source: `f_closedir` (`ff.c:4678`). -/
def fClosedir (dp : DIR) : M (FRESULT × DIR) := do
  let res ← validate dp.fs dp.id
  return (res, if res = .ok then { dp with fs := false } else dp)

/-- Read directory entries in sequence. Source: `f_readdir` (`ff.c:4708`) with a place for the
information. -/
def fReaddir (dp : DIR) (fno : FILINFO) : M (FRESULT × DIR × FILINFO) := do
  let res ← validate dp.fs dp.id
  if res = .ok then
    let (res, dp) ← dirRead dp false
    if res = .noFile ∨ res = .ok then
      let fno := getFileinfo (← get).win dp fno
      let (res, dp) ← dirNext dp false
      return (if res = .noFile then .ok else res, dp, fno)
    else return (res, dp, fno)
  else return (res, dp, fno)

/-- Rewind the directory object. Source: `f_readdir` (`ff.c:4720`) with a null pointer. -/
def fRewinddir (dp : DIR) : M (FRESULT × DIR) := do
  let res ← validate dp.fs dp.id
  if res = .ok then dirSdi dp 0 else return (res, dp)

/-- Get the file status. Source: `f_stat` (`ff.c:4796`). -/
def fStat (path : List UInt8) (fno : FILINFO) : M (FRESULT × FILINFO) := do
  let (res, path) ← mountVolume path 0
  if res = .ok then
    let (res, dj) ← followPath {} path
    if res = .ok then
      if hasBits dj.nsflag NS_NONAME then return (.invalidName, fno)
      else return (.ok, getFileinfo (← get).win dj fno)
    else return (res, fno)
  else return (res, fno)

/-! ## Free clusters -/

/-- One round of the FAT12 scan of `f_getfree` (`ff.c:4857-4866`), on the cluster and the count. -/
def free12Round (p : Nat × Nat) : M ((Nat × Nat) ⊕ Except FRESULT Nat) := do
  let stat ← getFat p.1
  if stat = DISKERR then return .inr (.error .diskErr)
  else if stat = 1 then return .inr (.error .intErr)
  else
    let nfree := if stat = 0 then p.2 + 1 else p.2
    if p.1 + 1 < (← get).geo.nFatent then return .inl (p.1 + 1, nfree)
    else return .inr (.ok nfree)

/-- The state of the FAT16/32 scan of `f_getfree`: entries left, sector, offset in it, count. -/
structure FreeScan where
  clst : Nat
  sect : Nat
  i : Nat
  nfree : Nat

/-- One round of the FAT16/32 scan of `f_getfree` (`ff.c:4893-4906`). -/
def freeRound (p : FreeScan) : M (FreeScan ⊕ Except FRESULT Nat) := do
  let res ← (if p.i = 0 then moveWindow p.sect else pure .ok)
  if res ≠ .ok then return .inr (.error res)
  else
    let sect := if p.i = 0 then add32 p.sect 1 else p.sect
    let w ← get
    let sz := if w.geo.fsType = .fat16 then 2 else 4
    let val := if w.geo.fsType = .fat16 then ldWord w.win p.i
      else ldDword w.win p.i % 0x10000000
    let nfree := if val = 0 then p.nfree + 1 else p.nfree
    if p.clst - 1 = 0 then return .inr (.ok nfree)
    else return .inl ⟨p.clst - 1, sect, (p.i + sz) % SS, nfree⟩

/-- Get the number of free clusters. Source: `f_getfree` (`ff.c:4831`). -/
def fGetfree (path : List UInt8) : M (FRESULT × Nat) := do
  let (res, _) ← mountVolume path 0
  if res = .ok then
    let w ← get
    if w.freeClst ≤ w.geo.nFatent - 2 then return (.ok, w.freeClst)
    else
      let r ← (if w.geo.fsType = .fat12 then loop free12Round w.geo.nFatent (2, 0)
        else loop freeRound (w.geo.nFatent + 1) ⟨w.geo.nFatent, w.geo.fatbase, 0, 0⟩)
      match r with
      | .error res => return (res, 0)
      | .ok nfree =>
        modify fun w => { w with freeClst := nfree, fsiFlag := w.fsiFlag ||| 1 }
        return (.ok, nfree)
  else return (res, 0)

/-! ## Removing, creating and renaming -/

/-- Test if the directory at `dclst` is empty, `FR_OK` if it is. Source: `ff.c:5029-5042`. -/
def dirEmpty (dclst : Nat) : M FRESULT := do
  let (res, sdj) ← dirSdi { fs := true, sclust := dclst } 0
  if res = .ok then
    let (res, _) ← dirRead sdj false
    return if res = .ok then .denied else if res = .noFile then .ok else res
  else return res

/-- Delete a file or a directory. Source: `f_unlink` (`ff.c:4977`). -/
def fUnlink (path : List UInt8) : M FRESULT := do
  let (res, path) ← mountVolume path FA_WRITE
  if res = .ok then
    let (res, dj) ← followPath {} path
    if res = .ok then
      if hasBits dj.nsflag NS_NONAME then return .invalidName
      else if hasBits dj.attr AM_RDO then return .denied
      else
        let w ← get
        let dclst := ldClust w.geo w.win dj.dir
        let res ← (if hasBits dj.attr AM_DIR then dirEmpty dclst else pure .ok)
        if res = .ok then
          let res ← dirRemove dj
          if res = .ok then
            let res ← (if dclst ≠ 0 then removeChain dclst 0 else pure .ok)
            if res = .ok then syncFs else return res
          else return res
        else return res
    else return res
  else return res

/-- The dot entries of a new directory at `dcl` with parent `pcl`, in a cleared window. Source:
`ff.c:5104-5111`. -/
def dotEntries (g : Geometry) (s : Sector) (dcl pcl : Nat) : Sector :=
  let s := s.fill 0 11 0x20
  let s := s.set 0 0x2E
  let s := s.set DIR_Attr AM_DIR
  let s := stDword s DIR_ModTime GET_FATTIME
  let s := stClust g s 0 dcl
  let s := s.copy SZDIRE (s.bytes 0 SZDIRE)
  let s := s.set (SZDIRE + 1) 0x2E
  stClust g s SZDIRE pcl

/-- The directory entry at `dir` of a new directory at `dcl`. Source: `ff.c:5130-5132`. -/
def mkdirEntry (g : Geometry) (s : Sector) (dir dcl : Nat) : Sector :=
  let s := stDword s (dir + DIR_ModTime) GET_FATTIME
  let s := stClust g s dir dcl
  s.set (dir + DIR_Attr) AM_DIR

/-- Clear the table of a new directory, create its dot entries and register it. Source:
`ff.c:5101-5115`. -/
def mkdirTable (dj : DIR) (dcl : Nat) : M (FRESULT × DIR) := do
  let res ← dirClear dcl
  if res = .ok then
    let g := (← get).geo
    modWin fun s => dotEntries g s dcl dj.sclust
    dirRegister dj
  else return (res, dj)

/-- Create a directory. Source: `f_mkdir` (`ff.c:5071`). -/
def fMkdir (path : List UInt8) : M FRESULT := do
  let (res, path) ← mountVolume path FA_WRITE
  if res = .ok then
    let (res, dj) ← followPath {} path
    if res = .ok then return .exist
    else if res = .noFile then
      let dcl ← createChain 0
      let (res, dj) ←
        (if dcl = 0 then pure (.denied, dj)
        else if dcl = 1 then pure (.intErr, dj)
        else if dcl = DISKERR then pure (.diskErr, dj)
        else mkdirTable dj dcl)
      if res = .ok then
        let g := (← get).geo
        modWin fun s => mkdirEntry g s dj.dir dcl
        syncFs
      else
        -- could not register, remove the allocated cluster
        let _ ← removeChain dcl 0
        return res
    else return res
  else return res

/-- The new directory entry at `dir` after `f_rename` copied the old entry `buf` except its name.
Source: `ff.c:5218-5220`. -/
def renameEntry (s : Sector) (dir : Nat) (buf : List UInt8) : Sector :=
  let s := s.copy (dir + 13) (buf.drop 13)
  let a := buf.getD DIR_Attr 0
  s.set (dir + DIR_Attr) (if hasBits a AM_DIR then a else a ||| AM_ARC)

/-- Let the `..` entry of the moved directory at `clst` hold the new parent `pcl`. Source:
`ff.c:5223-5234`. -/
def renameDotDot (clst pcl : Nat) : M FRESULT := do
  let g := (← get).geo
  let sect := clst2sect g clst
  if sect = 0 then return .intErr
  else
    let res ← moveWindow sect
    if res = .ok ∧ (← get).win (SZDIRE + 1) = 0x2E then
      modWin fun s => stClust g s SZDIRE pcl
      return .ok
    else return res

/-- Register the new name of the object whose entry is `buf`. Source: `ff.c:5215-5236`. -/
def renameEnter (djo djn : DIR) (buf : List UInt8) : M FRESULT := do
  let (res, djn) ← dirRegister djn
  if res = .ok then
    modWin fun s => renameEntry s djn.dir buf
    let w ← get
    if hasBits (w.win (djn.dir + DIR_Attr)) AM_DIR ∧ djo.sclust ≠ djn.sclust then
      renameDotDot (ldClust w.geo w.win djn.dir) djn.sclust
    else return .ok
  else return res

/-- Rename or move the object `pathOld` of the mounted volume. Source: `ff.c:5174-5246`. -/
def renameObject (pathOld pathNew : List UInt8) : M FRESULT := do
  let (res, djo) ← followPath {} pathOld
  if res = .ok then
    if hasBits djo.nsflag (NS_DOT ||| NS_NONAME) then return .invalidName
    else
      let w ← get
      let buf := w.win.bytes djo.dir SZDIRE
      let (res, djn) ← followPath djo pathNew
      let res := if res = .ok then
          if djn.sclust = djo.sclust ∧ djn.dptr = djo.dptr then .noFile else .exist
        else res
      let res ← (if res = .noFile then renameEnter djo djn buf else pure res)
      if res = .ok then
        let res ← dirRemove djo
        if res = .ok then syncFs else return res
      else return res
  else return res

/-- Rename or move a file or a directory. Source: `f_rename` (`ff.c:5155`). -/
def fRename (pathOld pathNew : List UInt8) : M FRESULT := do
  let w ← get
  let (_, pathNew) := getLdnumber w.charSigned pathNew
  let (res, pathOld) ← mountVolume pathOld FA_WRITE
  if res = .ok then renameObject pathOld pathNew else return res

end FatFs
