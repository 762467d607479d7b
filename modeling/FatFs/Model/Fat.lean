import FatFs.Model.State

/-!
# The disk access window and the FAT

The functions of `ff.c:1058-1633`: flushing and moving the one-sector window, synchronising the
volume, reading and changing FAT entries, and removing and stretching cluster chains. The `obj`
argument of the source only leads to the filesystem object, which here is the state.

The in-band values of the source are kept: `getFat` answers `1` for an internal error and
`0xFFFFFFFF` for a disk error, `createChain` in addition `0` for a full volume.
-/

namespace FatFs

open Run

/-- Write back the window, and reflect it to the second FAT when it is in the first. Source:
`sync_window` (`ff.c:1058`). -/
def syncWindow : M FRESULT := do
  let w ← get
  if w.wflag then
    let r ← diskWrite (fun _ => w.win) w.winsect 1
    if r = .ok then
      modify fun w => { w with wflag := false }
      if sub32 w.winsect w.geo.fatbase < w.geo.fsize ∧ w.geo.nFats = 2 then
        let _ ← diskWrite (fun _ => w.win) (add32 w.winsect w.geo.fsize) 1
        return .ok
      else
        return .ok
    else
      return .diskErr
  else
    return .ok

/-- Make the sector `sect` appear in the window. Source: `move_window` (`ff.c:1080`). -/
def moveWindow (sect : Nat) : M FRESULT := do
  let w ← get
  if sect ≠ w.winsect then
    let res ← syncWindow
    if res = .ok then
      match ← diskRead sect 1 with
      | some buff =>
        modify fun w => { w with win := buff 0, winsect := sect }
        return .ok
      | none =>
        -- the window is invalidated when the read data is not valid
        modify fun w => { w with winsect := 0xFFFFFFFF }
        return .diskErr
    else
      return res
  else
    return .ok

/-- The FSInfo record of the volume. Source: `sync_fs` (`ff.c:1124-1129`). -/
def fsInfo (freeClst lastClst : Nat) : Sector :=
  stDword (stDword (stDword (stDword (stDword Sector.zero FSI_LeadSig 0x41615252)
    FSI_StrucSig 0x61417272) FSI_Free_Count freeClst) FSI_Nxt_Free lastClst)
    FSI_TrailSig 0xAA550000

/-- Flush the window, update the FSInfo sector and synchronise the device. Source: `sync_fs`
(`ff.c:1111`). -/
def syncFs : M FRESULT := do
  let res ← syncWindow
  if res = .ok then
    let w ← get
    if w.fsiFlag = 1 then
      modify fun w => { w with fsiFlag := 0 }
      if w.geo.fsType = .fat32 then
        let sect := add32 w.geo.volbase 1
        modify fun w => { w with win := fsInfo w.freeClst w.lastClst, winsect := sect }
        let _ ← diskWrite (fun _ => fsInfo w.freeClst w.lastClst) sect 1
        return if (← diskSync) = .ok then .ok else .diskErr
      else
        return if (← diskSync) = .ok then .ok else .diskErr
    else
      return if (← diskSync) = .ok then .ok else .diskErr
  else
    return res

/-- The first sector of a cluster, 0 for an invalid cluster number. Source: `clst2sect`
(`ff.c:1160`). -/
def clst2sect (g : Geometry) (clst : Nat) : Nat :=
  if sub32 g.nFatent 2 ≤ sub32 clst 2 then 0
  else add32 g.database (g.csize * sub32 clst 2)

/-- Read a FAT entry. Source: `get_fat` (`ff.c:1177`). -/
def getFat (clst : Nat) : M Nat := do
  let w ← get
  if clst < 2 ∨ w.geo.nFatent ≤ clst then
    return 1
  else
    match w.geo.fsType with
    | .fat12 =>
      let bc := clst + clst / 2
      if (← moveWindow (add32 w.geo.fatbase (bc / SS))) ≠ .ok then return DISKERR
      else
        let lo := ((← get).win (bc % SS)).toNat
        if (← moveWindow (add32 w.geo.fatbase ((bc + 1) / SS))) ≠ .ok then return DISKERR
        else
          let wc := lo + ((← get).win ((bc + 1) % SS)).toNat * 256
          return if clst % 2 = 1 then wc / 16 else wc % 4096
    | .fat16 =>
      if (← moveWindow (add32 w.geo.fatbase (clst / (SS / 2)))) ≠ .ok then return DISKERR
      else return ldWord (← get).win (clst * 2 % SS)
    | .fat32 =>
      if (← moveWindow (add32 w.geo.fatbase (clst / (SS / 4)))) ≠ .ok then return DISKERR
      else return ldDword (← get).win (clst * 4 % SS) % 0x10000000
    | .none => return 1

/-- Store to the window and mark it dirty. -/
def modWin (f : Sector → Sector) : M PUnit :=
  modify fun w => { w with win := f w.win, wflag := true }

/-- The first byte of a FAT12 entry after the update. Source: `ff.c:1273`. -/
def fat12Lo (clst val : Nat) (p : UInt8) : UInt8 :=
  if clst % 2 = 1 then UInt8.ofNat (p.toNat % 16 + val % 16 * 16) else UInt8.ofNat val

/-- The second byte of a FAT12 entry after the update. Source: `ff.c:1278`. -/
def fat12Hi (clst val : Nat) (p : UInt8) : UInt8 :=
  if clst % 2 = 1 then UInt8.ofNat (val / 16)
  else UInt8.ofNat (p.toNat / 16 * 16 + val / 256 % 16)

/-- Change a FAT entry. Source: `put_fat` (`ff.c:1255`). -/
def putFat (clst val : Nat) : M FRESULT := do
  let w ← get
  if 2 ≤ clst ∧ clst < w.geo.nFatent then
    match w.geo.fsType with
    | .fat12 =>
      let bc := clst + clst / 2
      let res ← moveWindow (add32 w.geo.fatbase (bc / SS))
      if res ≠ .ok then return res
      else
        modWin fun s => s.set (bc % SS) (fat12Lo clst val (s (bc % SS)))
        let res ← moveWindow (add32 w.geo.fatbase ((bc + 1) / SS))
        if res ≠ .ok then return res
        else
          modWin fun s => s.set ((bc + 1) % SS) (fat12Hi clst val (s ((bc + 1) % SS)))
          return .ok
    | .fat16 =>
      let res ← moveWindow (add32 w.geo.fatbase (clst / (SS / 2)))
      if res ≠ .ok then return res
      else
        modWin fun s => stWord s (clst * 2 % SS) val
        return .ok
    | .fat32 =>
      let res ← moveWindow (add32 w.geo.fatbase (clst / (SS / 4)))
      if res ≠ .ok then return res
      else
        -- the upper 4 bits of the entry are kept
        modWin fun s => stDword s (clst * 4 % SS)
          (val % 0x10000000 + ldDword s (clst * 4 % SS) / 0x10000000 * 0x10000000)
        return .ok
    | .none => return .intErr
  else
    return .intErr

/-- The allocation information after a cluster was freed. Source: `ff.c:1479-1482`. -/
def State.freed (w : State) : State :=
  if w.freeClst < w.geo.nFatent - 2 then
    { w with freeClst := w.freeClst + 1, fsiFlag := w.fsiFlag ||| 1 }
  else w

/-- One round of the loop of `remove_chain` (`ff.c:1470-1502`). -/
def removeRound (clst : Nat) : M (Nat ⊕ FRESULT) := do
  let nxt ← getFat clst
  if nxt = 0 then return .inr .ok
  else if nxt = 1 then return .inr .intErr
  else if nxt = DISKERR then return .inr .diskErr
  else
    let res ← putFat clst 0
    if res ≠ .ok then return .inr res
    else
      modify State.freed
      if nxt < (← get).geo.nFatent then return .inl nxt else return .inr .ok

/-- Remove a cluster chain from `clst` on, and end the chain of `pclst` there. Source:
`remove_chain` (`ff.c:1445`). -/
def removeChain (clst pclst : Nat) : M FRESULT := do
  let w ← get
  if clst < 2 ∨ w.geo.nFatent ≤ clst then return .intErr
  else if pclst ≠ 0 then
    let res ← putFat pclst 0xFFFFFFFF
    if res ≠ .ok then return res
    else loop removeRound (w.geo.nFatent + 1) clst
  else loop removeRound (w.geo.nFatent + 1) clst

/-- One round of the search of `create_chain` for a free cluster, from the cluster before the one
to test. `Except.ok` is the cluster found, `Except.error` a value the function returns at once.
Source: `ff.c:1604-1614`. -/
def findRound (scl ncl : Nat) : M (Nat ⊕ Except Nat Nat) := do
  let w ← get
  if w.geo.nFatent ≤ ncl + 1 ∧ scl < 2 then return .inr (.error 0)
  else
    let ncl := if w.geo.nFatent ≤ ncl + 1 then 2 else ncl + 1
    let cs ← getFat ncl
    if cs = 0 then return .inr (.ok ncl)
    else if cs = 1 ∨ cs = DISKERR then return .inr (.error cs)
    else if ncl = scl then return .inr (.error 0)
    else return .inl ncl

/-- The search for a free cluster that starts after `scl`. Source: `ff.c:1602-1615`. -/
def findFree (scl : Nat) : M (Except Nat Nat) := do
  let w ← get
  loop (findRound scl) (w.geo.nFatent + 1) scl

/-- The allocation information after the cluster `ncl` was allocated. Source: `ff.c:1623-1627`. -/
def State.allocated (ncl : Nat) (w : State) : State :=
  if 0 < w.freeClst ∧ w.freeClst ≤ w.geo.nFatent - 2 then
    { w with lastClst := ncl, freeClst := w.freeClst - 1, fsiFlag := w.fsiFlag ||| 1 }
  else { w with lastClst := ncl }

/-- Mark `ncl` as the end of a chain, link it from `clst` unless that is 0, and update the
allocation information. Source: `ff.c:1616-1632`. -/
def linkClust (clst ncl : Nat) : M Nat := do
  let res ← putFat ncl 0xFFFFFFFF
  let res ← (if res = .ok ∧ clst ≠ 0 then putFat clst ncl else pure res)
  if res = .ok then
    modify (State.allocated ncl)
    return ncl
  else
    return if res = .diskErr then DISKERR else 1

/-- Search from `scl` and link what is found to `clst`. -/
def findAndLink (clst scl : Nat) : M Nat := do
  match ← findFree scl with
  | .ok ncl => linkClust clst ncl
  | .error v => return v

/-- The part of `create_chain` after its start cluster is known (`ff.c:1561-1632`). -/
def createFrom (clst scl : Nat) : M Nat := do
  let w ← get
  if w.freeClst = 0 then return 0
  else if scl = clst then
    -- stretching an existing chain: test if the next cluster is free
    let ncl := if w.geo.nFatent ≤ scl + 1 then 2 else scl + 1
    let cs ← getFat ncl
    if cs = 1 ∨ cs = DISKERR then return cs
    else if cs ≠ 0 then
      let cs := (← get).lastClst
      findAndLink clst (if 2 ≤ cs ∧ cs < w.geo.nFatent then cs else scl)
    else linkClust clst ncl
  else findAndLink clst scl

/-- Stretch a chain, or create a new one when `clst` is 0. Source: `create_chain` (`ff.c:1540`). -/
def createChain (clst : Nat) : M Nat := do
  let w ← get
  if clst = 0 then
    let scl := w.lastClst
    createFrom clst (if scl = 0 ∨ w.geo.nFatent ≤ scl then 1 else scl)
  else
    let cs ← getFat clst
    if cs < 2 then return 1
    else if cs = DISKERR then return cs
    else if cs < w.geo.nFatent then return cs
    else createFrom clst clst

end FatFs
