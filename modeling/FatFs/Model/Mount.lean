import FatFs.Model.Path

/-!
# Mounting a volume

The functions of `ff.c:3307-3723`: recognising a boot sector, finding the volume on the drive,
analysing its BPB, and registering and mounting the filesystem object. There is one drive and one
filesystem object, so `FatFs[0]` is the flag `State.registered`.
-/

namespace FatFs

open Run

/-! Offsets in the boot sector (`ff.c:95-123`, `ff.c:199-209`). -/
abbrev BS_JmpBoot : Nat := 0
abbrev BPB_BytsPerSec : Nat := 11
abbrev BPB_SecPerClus : Nat := 13
abbrev BPB_RsvdSecCnt : Nat := 14
abbrev BPB_NumFATs : Nat := 16
abbrev BPB_RootEntCnt : Nat := 17
abbrev BPB_TotSec16 : Nat := 19
abbrev BPB_FATSz16 : Nat := 22
abbrev BPB_TotSec32 : Nat := 32
abbrev BPB_FATSz32 : Nat := 36
abbrev BPB_FSVer32 : Nat := 42
abbrev BPB_RootClus32 : Nat := 44
abbrev BPB_FSInfo32 : Nat := 48
abbrev BS_FilSysType32 : Nat := 82
abbrev BS_55AA : Nat := 510
abbrev MBR_Table : Nat := 446
abbrev SZ_PTE : Nat := 16
abbrev PTE_StLba : Nat := 8

/-- The string `FAT32   `. -/
def strFAT32 : List UInt8 := [0x46, 0x41, 0x54, 0x33, 0x32, 0x20, 0x20, 0x20]

/-- What `check_fs` makes of the sector in the window: 0 for a FAT VBR, 2 or 3 for another sector
with a valid or an invalid boot signature. Source: `ff.c:3318-3340`. -/
def classify (s : Sector) : Nat :=
  let sign := ldWord s BS_55AA
  let j := s BS_JmpBoot
  let w := ldWord s BPB_BytsPerSec
  let b := (s BPB_SecPerClus).toNat
  if (j = 0xEB ∨ j = 0xE9 ∨ j = 0xE8) ∧
      ((sign = 0xAA55 ∧ s.bytes BS_FilSysType32 8 = strFAT32) ∨
        (w &&& (w - 1) = 0 ∧ SS ≤ w ∧ w ≤ SS ∧ b ≠ 0 ∧ b &&& (b - 1) = 0 ∧
          ldWord s BPB_RsvdSecCnt ≠ 0 ∧ sub32 (s BPB_NumFATs).toNat 1 ≤ 1 ∧
          ldWord s BPB_RootEntCnt ≠ 0 ∧
          (128 ≤ ldWord s BPB_TotSec16 ∨ 0x10000 ≤ ldDword s BPB_TotSec32) ∧
          ldWord s BPB_FATSz16 ≠ 0)) then 0
  else if sign = 0xAA55 then 2 else 3

/-- Load a sector and check if it is a FAT VBR: 0 yes, 2 or 3 no, 4 disk error. Source: `check_fs`
(`ff.c:3307`). -/
def checkFs (sect : Nat) : M Nat := do
  modify fun w => { w with wflag := false, winsect := 0xFFFFFFFF }
  if (← moveWindow sect) ≠ .ok then return 4
  else return classify (← get).win

/-- The loop of `find_volume` over the partitions (`ff.c:3388-3390`). -/
def tryParts : List Nat → M Nat
  | [] => return 3
  | pt :: pts => do
    let fmt ← (if pt ≠ 0 then checkFs pt else pure 3)
    if 2 ≤ fmt ∧ pts ≠ [] then tryParts pts else return fmt

/-- Find a FAT volume, as SFD and in the partitions. Source: `find_volume` (`ff.c:3347`) with
`part = 0`. -/
def findVolume : M Nat := do
  let fmt ← checkFs 0
  if fmt ≠ 2 then return fmt
  else
    let win := (← get).win
    tryParts ((List.range 4).map fun i => ldDword win (MBR_Table + i * SZ_PTE + PTE_StLba))

/-- Sectors per FAT (`ff.c:3531-3532`). -/
def bpbFatSz (s : Sector) : Nat :=
  if ldWord s BPB_FATSz16 = 0 then ldDword s BPB_FATSz32 else ldWord s BPB_FATSz16

/-- Sectors on the volume, `tsect` (`ff.c:3545-3546`). -/
def bpbTotSec (s : Sector) : Nat :=
  if ldWord s BPB_TotSec16 = 0 then ldDword s BPB_TotSec32 else ldWord s BPB_TotSec16

/-- Sectors for the FAT area, `fasize` (`ff.c:3537`). -/
def bpbFatArea (s : Sector) : Nat := bpbFatSz s * (s BPB_NumFATs).toNat % W32

/-- Sectors for the reserved area, the FATs and the root directory, `sysect` (`ff.c:3552`). -/
def bpbSysect (s : Sector) : Nat :=
  (ldWord s BPB_RsvdSecCnt + bpbFatArea s + ldWord s BPB_RootEntCnt / (SS / SZDIRE)) % W32

/-- Number of clusters, `nclst` (`ff.c:3554`). -/
def bpbClusters (s : Sector) : Nat := (bpbTotSec s - bpbSysect s) / (s BPB_SecPerClus).toNat

/-- The FAT sub-type for a number of clusters (`ff.c:3556-3559`). -/
def subType (nclst : Nat) : FsType :=
  if nclst ≤ MAX_FAT12 then .fat12 else if nclst ≤ MAX_FAT16 then .fat16
  else if nclst ≤ MAX_FAT32 then .fat32 else .none

/-- The bytes that a FAT of a sub-type with `n` entries needs, `szbfat` (`ff.c:3571-3576`). -/
def neededFat (fmt : FsType) (n : Nat) : Nat :=
  match fmt with
  | .fat32 => n * 4
  | .fat16 => n * 2
  | _ => n * 3 / 2 + n % 2

/-- The checks of the BPB analysis, in the order of the source (`ff.c:3529-3578`). -/
def bpbValid (s : Sector) : Prop :=
  let nFats := (s BPB_NumFATs).toNat
  let csize := (s BPB_SecPerClus).toNat
  let nRootdir := ldWord s BPB_RootEntCnt
  let fmt := subType (bpbClusters s)
  ldWord s BPB_BytsPerSec = SS ∧
  (nFats = 1 ∨ nFats = 2) ∧
  (csize ≠ 0 ∧ csize &&& (csize - 1) = 0) ∧
  nRootdir % (SS / SZDIRE) = 0 ∧
  ldWord s BPB_RsvdSecCnt ≠ 0 ∧
  bpbSysect s ≤ bpbTotSec s ∧
  bpbClusters s ≠ 0 ∧
  fmt ≠ .none ∧
  (fmt = .fat32 → ldWord s BPB_FSVer32 = 0 ∧ nRootdir = 0) ∧
  (fmt ≠ .fat32 → nRootdir ≠ 0) ∧
  (neededFat fmt (bpbClusters s + 2) + (SS - 1)) / SS ≤ bpbFatSz s

instance (s : Sector) : Decidable (bpbValid s) := by unfold bpbValid; infer_instance

/-- Analyse the BPB in the boot sector `s` of the volume at `bsect`; `none` is `FR_NO_FILESYSTEM`.
The source stores the members as it goes. On a failing exit the filesystem object is blank, and
nothing reads them before the next mount sets them. Source: `ff.c:3529-3578`. -/
def readBPB (s : Sector) (bsect : Nat) : Option Geometry :=
  if bpbValid s then
    let fmt := subType (bpbClusters s)
    let fatbase := add32 bsect (ldWord s BPB_RsvdSecCnt)
    some
      { fsType := fmt
        nFats := (s BPB_NumFATs).toNat
        nRootdir := ldWord s BPB_RootEntCnt
        csize := (s BPB_SecPerClus).toNat
        nFatent := bpbClusters s + 2
        fsize := bpbFatSz s
        volbase := bsect
        fatbase := fatbase
        dirbase := if fmt = .fat32 then ldDword s BPB_RootClus32
          else add32 fatbase (bpbFatArea s)
        database := add32 bsect (bpbSysect s)
        id := 0 }
  else none

/-- Get the FSInfo if it is available. Source: `ff.c:3582-3600`. -/
def loadFsInfo (fmt : FsType) (s : Sector) (bsect : Nat) : M PUnit := do
  modify fun w => { w with lastClst := 0xFFFFFFFF, freeClst := 0xFFFFFFFF, fsiFlag := 0x80 }
  if fmt = .fat32 ∧ ldWord s BPB_FSInfo32 = 1 then
    if (← moveWindow (add32 bsect 1)) = .ok then
      modify fun w =>
        if ldDword w.win FSI_LeadSig = 0x41615252 ∧ ldDword w.win FSI_StrucSig = 0x61417272 ∧
            ldDword w.win FSI_TrailSig = 0xAA550000 then
          { w with
            fsiFlag := 0
            freeClst := ldDword w.win FSI_Free_Count
            lastClst := ldDword w.win FSI_Nxt_Free }
        else { w with fsiFlag := 0 }
    else return
  else return

/-- Mount the volume on the drive: find it, analyse it and initialise the filesystem object.
Source: `ff.c:3457-3618`. -/
def mountDrive : M FRESULT := do
  let fmt ← findVolume
  if fmt = 4 then return .diskErr
  else if 2 ≤ fmt then return .noFilesystem
  else
    let w ← get
    match readBPB w.win w.winsect with
    | none => return .noFilesystem
    | some g =>
      loadFsInfo g.fsType w.win w.winsect
      let fsid := (w.fsid + 1) % 65536
      modify fun w => { w with geo := { g with id := fsid }, fsid := fsid }
      return .ok

/-- Determine the logical drive number and mount the volume if needed; returns the path without
its drive prefix. Source: `mount_volume` (`ff.c:3401`). -/
def mountVolume (path : List UInt8) (mode : UInt8) : M (FRESULT × List UInt8) := do
  let w ← get
  match getLdnumber w.charSigned path with
  | (false, path) => return (.invalidDrive, path)
  | (true, path) =>
    if !w.registered then return (.notEnabled, path)
    else
      let mode := mode &&& ~~~FA_READ
      if w.geo.fsType ≠ .none ∧ !hasBits diskStatus STA_NOINIT then
        if mode ≠ 0 ∧ hasBits diskStatus STA_PROTECT then return (.writeProtected, path)
        else return (.ok, path)
      else
        modify fun w => { w with geo := { w.geo with fsType := .none } }
        if hasBits diskInitialize STA_NOINIT then return (.notReady, path)
        else if mode ≠ 0 ∧ hasBits diskInitialize STA_PROTECT then return (.writeProtected, path)
        else
          let res ← mountDrive
          return (res, path)

/-- Check if the file or directory object is valid. Source: `validate` (`ff.c:3628`). -/
def validate (fs : Bool) (id : Nat) : M FRESULT := do
  let w ← get
  return if fs ∧ w.geo.fsType ≠ .none ∧ id = w.geo.id ∧ !hasBits diskStatus STA_NOINIT then .ok
    else .invalidObject

/-- Register (`fs`) or unregister the filesystem object, and mount it now unless `opt` is 0.
Source: `f_mount` (`ff.c:3672`). -/
def fMount (fs : Bool) (path : List UInt8) (opt : Nat) : M FRESULT := do
  let w ← get
  match getLdnumber w.charSigned path with
  | (false, _) => return .invalidDrive
  | (true, _) =>
    modify fun w =>
      if w.registered ∨ fs then
        { w with registered := fs, geo := { w.geo with fsType := .none } }
      else w
    if opt = 0 then return .ok
    else
      let (res, _) ← mountVolume path 0
      return res

end FatFs
