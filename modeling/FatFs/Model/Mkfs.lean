import FatFs.Model.Mount

/-!
# Creating a volume

`f_mkfs` and `create_partition` (`ff.c:5757-6395`) for FAT volumes. The working buffer of `len`
bytes is written to before it is read, so only its number of sectors is modelled.
-/

namespace FatFs

open Run

/-- Format parameters. Source: `MKFS_PARM` (`ff.h:263`). -/
structure MKFS_PARM where
  /-- Format option (`FM_FAT`, `FM_FAT32`, `FM_EXFAT` and `FM_SFD`). -/
  fmt : UInt8
  /-- Number of FATs. -/
  nFat : UInt8
  /-- Data area alignment in sectors. -/
  align : Nat
  /-- Number of root directory entries. -/
  nRoot : Nat
  /-- Cluster size in bytes. -/
  auSize : Nat
  deriving DecidableEq, Repr

/-! Format options (`ff.h:406`). -/
abbrev FM_FAT : UInt8 := 0x01
abbrev FM_FAT32 : UInt8 := 0x02
abbrev FM_ANY : UInt8 := 0x07
abbrev FM_SFD : UInt8 := 0x08

/-- Source: `defopt` (`ff.c:5909`). -/
def defopt : MKFS_PARM := ⟨FM_ANY, 0, 0, 0, 0⟩

/-- Sectors per track. Source: `N_SEC_TRACK` (`ff.c:5750`). -/
abbrev N_SEC_TRACK : Nat := 63

/-- Source: `cst` (`ff.c:5907`). -/
def cst : List Nat := [1, 4, 16, 64, 256, 512, 0]

/-- Source: `cst32` (`ff.c:5908`). -/
def cst32 : List Nat := [1, 2, 4, 8, 16, 32, 0]

/-- The cluster size for a volume of size `n` from a table of boundaries (`ff.c:6211`,
`ff.c:6221`). -/
def autoAu (n : Nat) : List Nat → Nat
  | [] => 1
  | c :: cs => if c ≠ 0 ∧ c ≤ n then 2 * autoAu n cs else 1

/-- The parameters of a format that are fixed before the layout is chosen. -/
structure MkfsEnv where
  /-- `fsopt`, the options. -/
  fsopt : UInt8
  /-- `sz_vol`, the volume size. -/
  szVol : Nat
  /-- `b_vol`, the base of the volume. -/
  bVol : Nat
  /-- `sz_blk`, the erase block size. -/
  szBlk : Nat
  /-- `n_fat`, the number of FATs. -/
  nFat : Nat
  /-- `n_root`, the number of root directory entries. -/
  nRoot : Nat
  deriving DecidableEq, Repr

/-- The layout of a FAT volume. -/
structure MkfsLayout where
  /-- `fsty`, the FAT sub-type. -/
  fsty : FsType
  /-- `pau`, the cluster size in sectors. -/
  pau : Nat
  /-- `n_clst`, the number of clusters. -/
  nClst : Nat
  /-- `sz_rsv`, the size of the reserved area. -/
  szRsv : Nat
  /-- `sz_fat`, the size of a FAT. -/
  szFat : Nat
  /-- `sz_dir`, the size of the static root directory. -/
  szDir : Nat
  /-- `b_fat`, the base of the FAT area. -/
  bFat : Nat
  deriving DecidableEq, Repr

/-- The layout before the data area is aligned, from a cluster size `pau`: the sub-type, the number
of clusters, and the sizes of the FAT, the reserved area and the root directory. Source:
`ff.c:6208-6233`. -/
def preLayout (e : MkfsEnv) (fsty : FsType) (pau : Nat) : MkfsLayout :=
  let nClst := e.szVol / pau
  if fsty = .fat32 then
    { fsty := .fat32, pau := pau, nClst := nClst
      szFat := (nClst * 4 + 8 + SS - 1) % W32 / SS
      szRsv := 32, szDir := 0, bFat := add32 e.bVol 32 }
  else
    { fsty := if MAX_FAT12 < nClst then fsty else .fat12
      pau := pau
      nClst := nClst
      szFat := ((if MAX_FAT12 < nClst then (nClst * 2 + 4) % W32 else (nClst * 3 + 1) / 2 + 3)
        + SS - 1) % W32 / SS
      szRsv := 1
      szDir := e.nRoot * SZDIRE / SS
      bFat := add32 e.bVol 1 }

/-- The base of the data area of a layout. Source: `ff.c:6235`. -/
def MkfsLayout.bData (l : MkfsLayout) (nFat : Nat) : Nat :=
  (l.bFat + l.szFat * nFat + l.szDir) % W32

/-- Align the data area to the erase block: move the FAT of a FAT32 volume, expand the FAT of
another one. Source: `ff.c:6238-6246`. -/
def MkfsLayout.align (l : MkfsLayout) (e : MkfsEnv) : MkfsLayout :=
  let bData := l.bData e.nFat
  -- `x & ~(sz_blk - 1)` is `x` less its bits below the block size
  let up := add32 bData (e.szBlk - 1)
  let n := sub32 (up - (up &&& (e.szBlk - 1))) bData
  if l.fsty = .fat32 then { l with szRsv := l.szRsv + n, bFat := add32 l.bFat n }
  else if n % e.nFat ≠ 0 then
    { l with szRsv := l.szRsv + 1, bFat := add32 l.bFat 1, szFat := l.szFat + (n - 1) / e.nFat }
  else { l with szFat := l.szFat + n / e.nFat }

/-- The number of clusters that is left for the data area. Source: `ff.c:6250`. -/
def MkfsLayout.clusters (l : MkfsLayout) (e : MkfsEnv) : Nat :=
  sub32 e.szVol ((l.szRsv + l.szFat * e.nFat + l.szDir) % W32) / l.pau

/-- One round of the loop of `f_mkfs` that chooses the cluster size and the sub-type, from a
sub-type and a cluster size (0: automatic). Source: `ff.c:6205-6277`. -/
def layoutRound (e : MkfsEnv) (p : FsType × Nat) : (FsType × Nat) ⊕ Except FRESULT MkfsLayout :=
  let (fsty, szAu) := p
  let pau := if szAu ≠ 0 then szAu
    else if fsty = .fat32 then autoAu (e.szVol / 0x20000) cst32 else autoAu (e.szVol / 0x1000) cst
  let pre := preLayout e fsty pau
  if pre.fsty = .fat32 ∧ (pre.nClst ≤ MAX_FAT16 ∨ MAX_FAT32 < pre.nClst) then
    .inr (.error .mkfsAborted)
  else
    let l := pre.align e
    if e.szVol < sub32 (add32 (pre.bData e.nFat) (pau * 16)) e.bVol then .inr (.error .mkfsAborted)
    else
      let nClst := l.clusters e
      let done : (FsType × Nat) ⊕ Except FRESULT MkfsLayout := .inr (.ok { l with nClst := nClst })
      match l.fsty with
      | .fat32 =>
        if nClst ≤ MAX_FAT16 then
          if szAu = 0 ∧ pau / 2 ≠ 0 then .inl (.fat32, pau / 2) else .inr (.error .mkfsAborted)
        else done
      | .fat16 =>
        if MAX_FAT16 < nClst then
          if szAu = 0 ∧ pau * 2 ≤ 64 then .inl (.fat16, pau * 2)
          else if hasBits e.fsopt FM_FAT32 then .inl (.fat32, szAu)
          else if szAu = 0 ∧ pau * 2 ≤ 128 then .inl (.fat16, pau * 2)
          else .inr (.error .mkfsAborted)
        else if nClst ≤ MAX_FAT12 then
          if szAu = 0 ∧ pau * 2 ≤ 128 then .inl (.fat16, pau * 2) else .inr (.error .mkfsAborted)
        else done
      | _ => if MAX_FAT12 < nClst then .inr (.error .mkfsAborted) else done

/-- The string `\xEB\xFE\x90MSDOS5.0`. -/
def strJmpOem : List UInt8 :=
  [0xEB, 0xFE, 0x90, 0x4D, 0x53, 0x44, 0x4F, 0x53, 0x35, 0x2E, 0x30]

/-- The string `NO NAME    `. -/
def strNoName : List UInt8 :=
  [0x4E, 0x4F, 0x20, 0x4E, 0x41, 0x4D, 0x45, 0x20, 0x20, 0x20, 0x20]

/-- The string `FAT     `. -/
def strFAT : List UInt8 := [0x46, 0x41, 0x54, 0x20, 0x20, 0x20, 0x20, 0x20]

/-- The boot sector of the volume. Source: `ff.c:6284-6316`. -/
def makeVBR (e : MkfsEnv) (l : MkfsLayout) : Sector :=
  let vsn := add32 e.szVol GET_FATTIME
  let s := Sector.zero.copy BS_JmpBoot strJmpOem
  let s := stWord s BPB_BytsPerSec SS
  let s := s.set BPB_SecPerClus (UInt8.ofNat l.pau)
  let s := stWord s BPB_RsvdSecCnt l.szRsv
  let s := s.set BPB_NumFATs (UInt8.ofNat e.nFat)
  let s := stWord s BPB_RootEntCnt (if l.fsty = .fat32 then 0 else e.nRoot)
  let s := if e.szVol < 0x10000 then stWord s BPB_TotSec16 e.szVol
    else stDword s BPB_TotSec32 e.szVol
  let s := s.set 21 0xF8
  let s := stWord s 24 63
  let s := stWord s 26 255
  let s := stDword s 28 e.bVol
  let s := if l.fsty = .fat32 then
      let s := stDword s 67 vsn
      let s := stDword s BPB_FATSz32 l.szFat
      let s := stDword s BPB_RootClus32 2
      let s := stWord s BPB_FSInfo32 1
      let s := stWord s 50 6
      let s := s.set 64 0x80
      let s := s.set 66 0x29
      s.copy 71 (strNoName ++ strFAT32)
    else
      let s := stDword s 39 vsn
      let s := stWord s BPB_FATSz16 l.szFat
      let s := s.set 36 0x80
      let s := s.set 38 0x29
      s.copy 43 (strNoName ++ strFAT)
  stWord s BS_55AA 0xAA55

/-- The FSInfo record that `f_mkfs` writes. Source: `ff.c:6322-6327`. -/
def makeFsInfo (nClst : Nat) : Sector :=
  let s := stDword Sector.zero FSI_LeadSig 0x41615252
  let s := stDword s FSI_StrucSig 0x61417272
  let s := stDword s FSI_Free_Count (nClst - 1)
  let s := stDword s FSI_Nxt_Free 2
  stWord s BS_55AA 0xAA55

/-- The first sector of a FAT. Source: `ff.c:6336-6342`. -/
def makeFatHead (fsty : FsType) : Sector :=
  match fsty with
  | .fat32 => stDword (stDword (stDword Sector.zero 0 0xFFFFFFF8) 4 0xFFFFFFFF) 8 0x0FFFFFFF
  | .fat12 => stDword Sector.zero 0 0xFFFFF8
  | _ => stDword Sector.zero 0 0xFFFFFFF8

/-- One round of a fill loop of `f_mkfs` (`ff.c:6344-6349`, `ff.c:6354-6358`): the buffer of `szBuf`
sectors is zero but for its first sector `hd`. The state is the sector, the number of sectors left
and `hd`. -/
def fillRound (szBuf : Nat) (p : Nat × Nat × Sector) :
    M ((Nat × Nat × Sector) ⊕ Except FRESULT Nat) := do
  let (sect, nsect, hd) := p
  let n := if szBuf < nsect then szBuf else nsect
  let r ← diskWrite (fun k => if k = 0 then hd else Sector.zero) sect n
  if r ≠ .ok then return .inr (.error .diskErr)
  else if nsect - n = 0 then return .inr (.ok (add32 sect n))
  else return .inl (add32 sect n, nsect - n, Sector.zero)

/-- Fill `nsect` sectors from `sect` on; returns the sector after them. -/
def fillArea (szBuf sect nsect : Nat) (hd : Sector) : M (Except FRESULT Nat) :=
  loop (fillRound szBuf) (nsect + 1) (sect, nsect, hd)

/-- Initialise `k` FATs. Source: `ff.c:6335-6350`. -/
def fillFats (szBuf : Nat) (l : MkfsLayout) : Nat → Nat → M (Except FRESULT Nat)
  | 0, sect => return .ok sect
  | k + 1, sect => do
    match ← fillArea szBuf sect l.szFat (makeFatHead l.fsty) with
    | .error res => return .error res
    | .ok sect => fillFats szBuf l k sect

/-- Write the FAT32 copies of the boot sector and the FSInfo records. Source: `ff.c:6320-6330`. -/
def writeFat32Info (e : MkfsEnv) (l : MkfsLayout) : M PUnit := do
  let _ ← diskWrite (fun _ => makeVBR e l) (add32 e.bVol 6) 1
  let _ ← diskWrite (fun _ => makeFsInfo l.nClst) (add32 e.bVol 7) 1
  let _ ← diskWrite (fun _ => makeFsInfo l.nClst) (add32 e.bVol 1) 1

/-- Write the boot sector, the FSInfo records, the FATs and the root directory of the volume.
Source: `ff.c:6283-6358`. -/
def writeVolume (szBuf : Nat) (e : MkfsEnv) (l : MkfsLayout) : M FRESULT := do
  let r ← diskWrite (fun _ => makeVBR e l) e.bVol 1
  if r ≠ .ok then return .diskErr
  else
    if l.fsty = .fat32 then writeFat32Info e l else pure ()
    match ← fillFats szBuf l e.nFat l.bFat with
    | .error res => return res
    | .ok sect =>
      match ← fillArea szBuf sect (if l.fsty = .fat32 then l.pau else l.szDir) Sector.zero with
      | .error res => return res
      | .ok _ => return .ok

/-- The number of heads of the drive (`ff.c:5859-5860`), a `BYTE` doubled from 8. -/
def nHeads (szDrv : Nat) : List Nat → Nat
  | [] => 255
  | h :: hs => if 1024 < szDrv / h / N_SEC_TRACK then nHeads szDrv hs else h

/-- A partition table entry at `pte`. Source: `ff.c:5870-5886`. -/
def makePTE (s : Sector) (pte sys nHd nxt szPart : Nat) : Sector :=
  let chs (s : Sector) (o lba : Nat) : Sector :=
    let cy := lba / N_SEC_TRACK / nHd
    let s := s.set (pte + o) (UInt8.ofNat (lba / N_SEC_TRACK % nHd))
    let s := s.set (pte + o + 1) (UInt8.ofNat ((cy / 4) &&& 0xC0 ||| (lba % N_SEC_TRACK + 1)))
    s.set (pte + o + 2) (UInt8.ofNat cy)
  let s := stDword s (pte + PTE_StLba) nxt
  let s := stDword s (pte + 12) szPart
  let s := s.set (pte + 4) (UInt8.ofNat sys)
  let s := chs s 1 nxt
  chs s 5 (nxt + szPart - 1)

/-- The loop of `create_partition` over the partition list (`ff.c:5864-5889`). -/
def partLoop (szDrv sys nHd : Nat) : List Nat → Nat → Nat → Sector → Sector
  | [], _, _, s => s
  | p :: ps, pte, nxt, s =>
    if nxt ≠ 0 ∧ nxt < szDrv then
      let sz := if p ≤ 100 then (if p = 100 then szDrv else szDrv / 100 * p) else p
      let sz := if szDrv < add32 nxt sz ∨ add32 nxt sz < nxt then szDrv - nxt else sz
      if sz = 0 then s
      else partLoop szDrv sys nHd ps (pte + SZ_PTE) (add32 nxt sz)
        (makePTE s pte sys nHd nxt sz)
    else s

/-- Create partitions on the drive in MBR format. Source: `create_partition` (`ff.c:5757`). -/
def createPartition (plst : List Nat) (sys : Nat) : M FRESULT := do
  let szDrv := (← get).disk.sectors
  let nHd := nHeads szDrv [8, 16, 32, 64, 128]
  let s := partLoop szDrv sys nHd plst MBR_Table N_SEC_TRACK Sector.zero
  let r ← diskWrite (fun _ => stWord s BS_55AA 0xAA55) 0 1
  return if r ≠ .ok then .diskErr else .ok

/-- The system ID in the partition table. Source: `ff.c:6364-6374`. -/
def systemId (fsty : FsType) (szVol : Nat) : Nat :=
  if fsty = .fat32 then 0x0C
  else if 0x10000 ≤ szVol then 0x06
  else if fsty = .fat16 then 0x04 else 0x01

/-- The parameters of the format, from the options and the drive. Source: `ff.c:5937-6016`. -/
def mkfsEnv (opt : MKFS_PARM) (sectors blockSize : Nat) : MkfsEnv :=
  let blk := if opt.align = 0 then blockSize else opt.align
  let fsopt := opt.fmt &&& (FM_ANY ||| FM_SFD)
  let part := !hasBits fsopt FM_SFD ∧ N_SEC_TRACK < sectors
  { fsopt := fsopt
    szBlk := if blk = 0 ∨ 0x8000 < blk ∨ blk &&& (blk - 1) ≠ 0 then 1 else blk
    nFat := if 1 ≤ opt.nFat.toNat ∧ opt.nFat.toNat ≤ 2 then opt.nFat.toNat else 1
    nRoot := if 1 ≤ opt.nRoot ∧ opt.nRoot ≤ 32768 ∧ opt.nRoot % (SS / SZDIRE) = 0 then opt.nRoot
      else 512
    bVol := if part then N_SEC_TRACK else 0
    szVol := if part then sectors - N_SEC_TRACK else sectors }

/-- The cluster size in sectors that the options ask for, 0 for automatic. Source: `ff.c:5952-5953`,
`ff.c:6030`. -/
def mkfsAu (opt : MKFS_PARM) : Nat :=
  let au := if opt.auSize ≤ 0x1000000 ∧ opt.auSize &&& (opt.auSize - 1) = 0 then opt.auSize else 0
  if 128 < au / SS then 128 else au / SS

/-- Create a FAT volume on the drive; `len` is the size of the working buffer in bytes, `none` for a
null pointer. Source: `f_mkfs` (`ff.c:5900`). -/
def fMkfs (path : List UInt8) (opt : Option MKFS_PARM) (len : Option Nat) : M FRESULT := do
  let w ← get
  match getLdnumber w.charSigned path with
  | (false, _) => return .invalidDrive
  | (true, _) =>
    modify fun w => if w.registered then { w with geo := { w.geo with fsType := .none } } else w
    if hasBits diskInitialize STA_NOINIT then return .notReady
    else if hasBits diskInitialize STA_PROTECT then return .writeProtected
    else
      let opt := opt.getD defopt
      let e := mkfsEnv opt w.disk.sectors w.disk.blockSize
      let szBuf := len.getD 0 / SS
      if szBuf = 0 then return .notEnoughCore
      else if e.szVol < 128 then return .mkfsAborted
      else if !hasBits e.fsopt FM_FAT ∧ !hasBits e.fsopt FM_FAT32 then return .invalidParameter
      else
        let fsty : FsType := if hasBits e.fsopt FM_FAT then .fat16 else .fat32
        match ← loop (fun p => pure (layoutRound e p)) 8 (fsty, mkfsAu opt) with
        | .error res => return res
        | .ok l =>
          let res ← writeVolume szBuf e l
          if res ≠ .ok then return res
          else
            let res ← (if hasBits e.fsopt FM_SFD then pure .ok
              else createPartition [e.szVol, 0] (systemId l.fsty e.szVol))
            if res ≠ .ok then return res
            else return if (← diskSync) ≠ .ok then .diskErr else .ok

end FatFs
