import FatFs.Model.Fat

/-!
# Directory tables

The functions of `ff.c:1676-2770`: clearing a table, positioning in it, reserving, reading, finding,
registering and removing an entry. A function that works on a directory object takes it and returns
it beside its result. `dp->dir` is the offset of the current entry in the window.
-/

namespace FatFs

open Run

/-- One round of the loop of `dir_clear` (`ff.c:1702`). -/
def clearRound (sect csize n : Nat) : M (Nat ⊕ Nat) := do
  if n < csize then
    let w ← get
    let r ← diskWrite (fun _ => w.win) (add32 sect n) 1
    if r = .ok then return .inl (n + 1) else return .inr n
  else return .inr n

/-- Fill a directory table with zeros. Source: `dir_clear` (`ff.c:1676`). -/
def dirClear (clst : Nat) : M FRESULT := do
  if (← syncWindow) ≠ .ok then return .diskErr
  else
    let w ← get
    let sect := clst2sect w.geo clst
    modify fun w => { w with winsect := sect, win := Sector.zero }
    let n ← loop (clearRound sect w.geo.csize) (w.geo.csize + 1) 0
    return if n = w.geo.csize then .ok else .diskErr

/-- One round of the loop of `dir_sdi` (`ff.c:1740-1745`), on the cluster and the offset that is
left. -/
def sdiRound (csz : Nat) (p : Nat × Nat) : M ((Nat × Nat) ⊕ Except FRESULT (Nat × Nat)) := do
  if csz ≤ p.2 then
    let clst ← getFat p.1
    if clst = DISKERR then return .inr (.error .diskErr)
    else if clst < 2 ∨ (← get).geo.nFatent ≤ clst then return .inr (.error .intErr)
    else return .inl (clst, p.2 - csz)
  else return .inr (.ok p)

/-- The end of `dir_sdi` (`ff.c:1748-1753`): the table sector `sect` of the cluster `clst` is known,
and `ofs` is the offset from it. -/
def sdiEnd (dp : DIR) (clst sect ofs : Nat) : FRESULT × DIR :=
  if sect = 0 then (.intErr, { dp with clust := clst, sect := sect })
  else (.ok, { dp with clust := clst, sect := add32 sect (ofs / SS), dir := ofs % SS })

/-- Set the directory index. Source: `dir_sdi` (`ff.c:1715`). -/
def dirSdi (dp : DIR) (ofs : Nat) : M (FRESULT × DIR) := do
  let w ← get
  if MAX_DIR ≤ ofs ∨ ofs % SZDIRE ≠ 0 then return (.intErr, dp)
  else
    let dp := { dp with dptr := ofs }
    let clst := if dp.sclust = 0 ∧ w.geo.fsType = .fat32 then w.geo.dirbase else dp.sclust
    if clst = 0 then
      -- static table
      if w.geo.nRootdir ≤ ofs / SZDIRE then return (.intErr, dp)
      else return sdiEnd dp clst w.geo.dirbase ofs
    else
      -- dynamic table: follow the cluster chain
      match ← loop (sdiRound (w.geo.csize * SS)) (MAX_DIR / SS + 1) (clst, ofs) with
      | .error res => return (res, dp)
      | .ok (clst, ofs) => return sdiEnd dp clst (clst2sect w.geo clst) ofs

/-- The directory object after `dir_next` entered the cluster `clst` (`ff.c:1805-1811`). -/
def DIR.enter (dp : DIR) (g : Geometry) (clst ofs : Nat) : DIR :=
  { dp with clust := clst, sect := clst2sect g clst, dptr := ofs, dir := ofs % SS }

/-- Stretch the table by a cleared cluster and enter it (`ff.c:1794-1811`). -/
def dirStretch (dp : DIR) (ofs : Nat) : M (FRESULT × DIR) := do
  let clst ← createChain dp.clust
  if clst = 0 then return (.denied, dp)
  else if clst = 1 then return (.intErr, dp)
  else if clst = DISKERR then return (.diskErr, dp)
  else if (← dirClear clst) ≠ .ok then return (.diskErr, dp)
  else return (.ok, dp.enter (← get).geo clst ofs)

/-- Move the directory index next. Source: `dir_next` (`ff.c:1763`). -/
def dirNext (dp : DIR) (stretch : Bool) : M (FRESULT × DIR) := do
  let w ← get
  let ofs := dp.dptr + SZDIRE
  let dp := if MAX_DIR ≤ ofs then { dp with sect := 0 } else dp
  if dp.sect = 0 then return (.noFile, dp)
  else if ofs % SS = 0 then
    let dp := { dp with sect := add32 dp.sect 1 }
    if dp.clust = 0 then
      -- static table
      if w.geo.nRootdir ≤ ofs / SZDIRE then return (.noFile, { dp with sect := 0 })
      else return (.ok, { dp with dptr := ofs, dir := ofs % SS })
    else if ofs / SS &&& (w.geo.csize - 1) = 0 then
      -- dynamic table, cluster changed
      let clst ← getFat dp.clust
      if clst ≤ 1 then return (.intErr, dp)
      else if clst = DISKERR then return (.diskErr, dp)
      else if w.geo.nFatent ≤ clst then
        if stretch then dirStretch dp ofs
        else return (.noFile, { dp with sect := 0 })
      else return (.ok, dp.enter w.geo clst ofs)
    else return (.ok, { dp with dptr := ofs, dir := ofs % SS })
  else return (.ok, { dp with dptr := ofs, dir := ofs % SS })

/-- One round of the loop of `dir_alloc` (`ff.c:1837-1850`), on the directory object and the number
of free entries in a row. -/
def allocRound (nEnt : Nat) (p : DIR × Nat) : M ((DIR × Nat) ⊕ (FRESULT × DIR)) := do
  let dp := p.1
  let res ← moveWindow dp.sect
  if res ≠ .ok then return .inr (res, dp)
  else
    let b := (← get).win dp.dir
    let n := if b = DDEM ∨ b = 0 then p.2 + 1 else 0
    if (b = DDEM ∨ b = 0) ∧ n = nEnt then return .inr (.ok, dp)
    else
      let (res, dp) ← dirNext dp true
      if res = .ok then return .inl (dp, n) else return .inr (res, dp)

/-- Reserve a block of `nEnt` directory entries. Source: `dir_alloc` (`ff.c:1824`). -/
def dirAlloc (dp : DIR) (nEnt : Nat) : M (FRESULT × DIR) := do
  let (res, dp) ← dirSdi dp 0
  if res = .ok then
    let (res, dp) ← loop (allocRound nEnt) (MAX_DIR / SZDIRE + 1) (dp, 0)
    return (if res = .noFile then .denied else res, dp)
  else return (if res = .noFile then .denied else res, dp)

/-- The start cluster in the directory entry at offset `dir`. Source: `ld_clust` (`ff.c:1866`). -/
def ldClust (g : Geometry) (s : Sector) (dir : Nat) : Nat :=
  if g.fsType = .fat32 then ldWord s (dir + DIR_FstClusLO) + ldWord s (dir + DIR_FstClusHI) * 65536
  else ldWord s (dir + DIR_FstClusLO)

/-- Store the start cluster to the directory entry at offset `dir`. Source: `st_clust`
(`ff.c:1883`). -/
def stClust (g : Geometry) (s : Sector) (dir cl : Nat) : Sector :=
  if g.fsType = .fat32 then
    stWord (stWord s (dir + DIR_FstClusLO) cl) (dir + DIR_FstClusHI) (cl / 65536)
  else stWord s (dir + DIR_FstClusLO) cl

/-- `dir_read` stops at an entry with name byte `b` and attribute `attr` (`ff.c:2384`). -/
def readable (b attr : UInt8) (vol : Bool) : Bool :=
  b != DDEM && b != 0x2E && attr != AM_LFN && ((attr &&& ~~~AM_ARC) == AM_VOL) == vol

/-- One round of the loop of `dir_read` (`ff.c:2339-2391`). -/
def readRound (vol : Bool) (p : FRESULT × DIR) : M ((FRESULT × DIR) ⊕ (FRESULT × DIR)) := do
  let dp := p.2
  if dp.sect = 0 then return .inr p
  else
    let res ← moveWindow dp.sect
    if res ≠ .ok then return .inr (res, dp)
    else
      let win := (← get).win
      let b := win dp.dir
      if b = 0 then return .inr (.noFile, dp)
      else
        let dp := { dp with attr := win (dp.dir + DIR_Attr) &&& AM_MASK }
        if readable b dp.attr vol then return .inr (.ok, dp)
        else
          let (res, dp) ← dirNext dp false
          if res = .ok then return .inl (res, dp) else return .inr (res, dp)

/-- Read an object from the directory. Source: `dir_read` (`ff.c:2327`). -/
def dirRead (dp : DIR) (vol : Bool) : M (FRESULT × DIR) := do
  let (res, dp) ← loop (readRound vol) (MAX_DIR / SZDIRE + 1) (.noFile, dp)
  return (res, if res ≠ .ok then { dp with sect := 0 } else dp)

/-- One round of the loop of `dir_find` (`ff.c:2442-2474`). -/
def findEntRound (dp : DIR) : M (DIR ⊕ (FRESULT × DIR)) := do
  let res ← moveWindow dp.sect
  if res ≠ .ok then return .inr (res, dp)
  else
    let win := (← get).win
    if win dp.dir = 0 then return .inr (.noFile, dp)
    else
      let a := win (dp.dir + DIR_Attr)
      let dp := { dp with attr := a &&& AM_MASK }
      if !hasBits a AM_VOL && win.bytes dp.dir 11 == dp.fn then return .inr (.ok, dp)
      else
        let (res, dp) ← dirNext dp false
        if res = .ok then return .inl dp else return .inr (res, dp)

/-- Find the object `dp->fn` in the directory. Source: `dir_find` (`ff.c:2405`). -/
def dirFind (dp : DIR) : M (FRESULT × DIR) := do
  let (res, dp) ← dirSdi dp 0
  if res ≠ .ok then return (res, dp)
  else loop findEntRound (MAX_DIR / SZDIRE + 1) dp

/-- Register the object `dp->fn` to the directory. Source: `dir_register` (`ff.c:2487`). -/
def dirRegister (dp : DIR) : M (FRESULT × DIR) := do
  let (res, dp) ← dirAlloc dp 1
  if res = .ok then
    let res ← moveWindow dp.sect
    if res = .ok then
      modWin fun s => (s.fill dp.dir SZDIRE 0).copy dp.dir dp.fn
      return (.ok, dp)
    else return (res, dp)
  else return (res, dp)

/-- Remove the object from the directory. Source: `dir_remove` (`ff.c:2593`). -/
def dirRemove (dp : DIR) : M FRESULT := do
  let res ← moveWindow dp.sect
  if res = .ok then
    modWin fun s => s.set dp.dir DDEM
    return .ok
  else return res

/-- The name of a directory entry in path form. Source: the loop of `get_fileinfo`
(`ff.c:2755-2763`). -/
def sfnName (s : Sector) (dir : Nat) : List UInt8 :=
  (List.range 11).flatMap fun si =>
    let c := s (dir + si)
    if c = 0x20 then []
    else
      let c := if c = RDDEM then DDEM else c
      if si = 8 then [0x2E, c] else [c]

/-- File information from the directory entry in the window. Source: `get_fileinfo`
(`ff.c:2639`). -/
def getFileinfo (win : Sector) (dp : DIR) (fno : FILINFO) : FILINFO :=
  if dp.sect = 0 then { fno with fname := [] }
  else
    { fname := sfnName win dp.dir
      fattrib := win (dp.dir + DIR_Attr) &&& AM_MASK
      fsize := ldDword win (dp.dir + DIR_FileSize)
      ftime := ldWord win (dp.dir + DIR_ModTime)
      fdate := ldWord win (dp.dir + DIR_ModTime + 2) }

end FatFs
