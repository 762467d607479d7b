import FatFs.Lib.Run
import FatFs.Model.Bytes

/-!
# The state of the filesystem module

The objects of `ff.h` in the harness configuration (`ffconf_fuzz_override.h`: `FF_FS_TINY = 1`, one
volume, no LFN, no exFAT, no locks): the volume object `FATFS`, the file object `FIL`, the directory
object `DIR`, and the block device below them. A `State` is the device, the one `FATFS` object and
the module's private work area. The members of `FATFS` that a mount sets and nothing changes until
the next one are grouped in `Geometry`.

The device is the array of `diskio_fuzz.c`: it refuses exactly the transfers that leave its sectors,
and it keeps a log of the transfers. For the results about failing media it may in addition refuse
the `k`-th transfer (`Disk.fault`); `Disk.Reliable` says that it does not.
-/

namespace FatFs

open Run

/-- File function return code. Source: `FRESULT` (`ff.h:271`). -/
inductive FRESULT
  | ok | diskErr | intErr | notReady | noFile | noPath | invalidName | denied | exist
  | invalidObject | writeProtected | invalidDrive | notEnabled | noFilesystem | mkfsAborted
  | timeout | locked | notEnoughCore | tooManyOpenFiles | invalidParameter
  deriving DecidableEq, Repr

/-- Result of the disk functions. Source: `DRESULT` (`diskio.h:16`). -/
inductive DRESULT
  | ok | error | wrprt | notrdy | parerr
  deriving DecidableEq, Repr

/-- Filesystem type, `none` for a blank filesystem object. Source: `FATFS.fs_type` (`ff.h:413`). -/
inductive FsType
  | none | fat12 | fat16 | fat32
  deriving DecidableEq, Repr

/-! ## Constants -/

/-- Source: `MAX_DIR` (`ff.c:39`). -/
abbrev MAX_DIR : Nat := 0x200000
/-- Source: `MAX_FAT12` (`ff.c:41`). -/
abbrev MAX_FAT12 : Nat := 0xFF5
/-- Source: `MAX_FAT16` (`ff.c:42`). -/
abbrev MAX_FAT16 : Nat := 0xFFF5
/-- Source: `MAX_FAT32` (`ff.c:43`). -/
abbrev MAX_FAT32 : Nat := 0x0FFFFFF5
/-- The size of a directory entry. Source: `SZDIRE` (`ff.c:188`). -/
abbrev SZDIRE : Nat := 32
/-- The deleted mark. Source: `DDEM` (`ff.c:189`). -/
abbrev DDEM : UInt8 := 0xE5
/-- The replacement of a name byte that collides with the deleted mark. Source: `ff.c:190`. -/
abbrev RDDEM : UInt8 := 0x05
/-- The in-band value for a disk error, `0xFFFFFFFF`. -/
abbrev DISKERR : Nat := 0xFFFFFFFF

/-! Attribute bits (`ff.h:418`, `ff.c:65`). -/
abbrev AM_RDO : UInt8 := 0x01
abbrev AM_VOL : UInt8 := 0x08
abbrev AM_LFN : UInt8 := 0x0F
abbrev AM_DIR : UInt8 := 0x10
abbrev AM_ARC : UInt8 := 0x20
abbrev AM_MASK : UInt8 := 0x3F

/-! Access modes and file status flags (`ff.h:391`, `ff.c:59`). -/
abbrev FA_READ : UInt8 := 0x01
abbrev FA_WRITE : UInt8 := 0x02
abbrev FA_CREATE_NEW : UInt8 := 0x04
abbrev FA_CREATE_ALWAYS : UInt8 := 0x08
abbrev FA_OPEN_ALWAYS : UInt8 := 0x10
abbrev FA_SEEKEND : UInt8 := 0x20
abbrev FA_OPEN_APPEND : UInt8 := 0x30
abbrev FA_MODIFIED : UInt8 := 0x40

/-! Name status flags (`ff.c:75`). -/
abbrev NS_LAST : UInt8 := 0x04
abbrev NS_DOT : UInt8 := 0x20
abbrev NS_NONAME : UInt8 := 0x80

/-! Offsets in a directory entry (`ff.c:151`). -/
abbrev DIR_Attr : Nat := 11
abbrev DIR_CrtTime : Nat := 14
abbrev DIR_LstAccDate : Nat := 18
abbrev DIR_FstClusHI : Nat := 20
abbrev DIR_ModTime : Nat := 22
abbrev DIR_FstClusLO : Nat := 26
abbrev DIR_FileSize : Nat := 28

/-! Offsets in the FSInfo sector (`ff.c:193`). -/
abbrev FSI_LeadSig : Nat := 0
abbrev FSI_StrucSig : Nat := 484
abbrev FSI_Free_Count : Nat := 488
abbrev FSI_Nxt_Free : Nat := 492
abbrev FSI_TrailSig : Nat := 498

/-- The fixed timestamp of `FF_FS_NORTC`, 2024-11-01. Source: `GET_FATTIME` (`ff.c:275`). -/
abbrev GET_FATTIME : Nat := (2024 - 1980) * 33554432 + 11 * 2097152 + 1 * 65536

/-- A byte has one of the bits of a mask. -/
abbrev hasBits (b mask : UInt8) : Bool := b &&& mask != 0

/-! ## The device -/

/-- A transfer asked of the device: its first sector and its number of sectors. -/
inductive Access
  | read (sector count : Nat)
  | write (sector count : Nat)
  deriving DecidableEq, Repr

/-- The block device. Source: `disk`, `DISK_SECTORS`, `disk_ioctl` (`diskio_fuzz.c:7-50`). -/
structure Disk where
  /-- The number of sectors. -/
  sectors : Nat
  /-- The contents. -/
  data : Nat → Sector
  /-- The erase block size that `GET_BLOCK_SIZE` reports. -/
  blockSize : Nat
  /-- The `k`-th transfer is refused by the medium. -/
  fault : Nat → Bool
  /-- The transfers so far, the last one first. -/
  log : List Access

/-- The medium refuses no transfer. -/
def Disk.Reliable (d : Disk) : Prop := ∀ k, d.fault k = false

/-- Source: `in_bounds` (`diskio_fuzz.c:23`). -/
def Disk.inBounds (d : Disk) (sector count : Nat) : Bool :=
  decide (sector < d.sectors) && decide (count ≤ d.sectors - sector)

/-! ## The objects -/

/-- The members of the filesystem object that a mount sets. Source: `FATFS` (`ff.h:132`). -/
structure Geometry where
  /-- Filesystem type. -/
  fsType : FsType
  /-- Number of FATs (1 or 2). -/
  nFats : Nat
  /-- Number of root directory entries (FAT12/16). -/
  nRootdir : Nat
  /-- Cluster size in sectors. -/
  csize : Nat
  /-- Number of FAT entries (number of clusters + 2). -/
  nFatent : Nat
  /-- Number of sectors per FAT. -/
  fsize : Nat
  /-- Volume base sector. -/
  volbase : Nat
  /-- FAT base sector. -/
  fatbase : Nat
  /-- Root directory base sector (FAT12/16) or cluster (FAT32). -/
  dirbase : Nat
  /-- Data base sector. -/
  database : Nat
  /-- Volume mount ID. -/
  id : Nat
  deriving DecidableEq, Repr

/-- The state: the filesystem object, the device and the module's private work area. -/
structure State where
  /-- The members of the filesystem object that a mount sets. -/
  geo : Geometry
  /-- `win[]` is dirty. -/
  wflag : Bool
  /-- The sector appearing in `win[]`. -/
  winsect : Nat
  /-- The disk access window. -/
  win : Sector
  /-- Allocation information control (b7: disabled, b0: dirty). -/
  fsiFlag : UInt8
  /-- Last allocated cluster (unknown if not below `nFatent`). -/
  lastClst : Nat
  /-- Number of free clusters (unknown if above `nFatent - 2`). -/
  freeClst : Nat
  /-- The hosting physical drive. -/
  disk : Disk
  /-- `FatFs[0]` points to the filesystem object. Source: `ff.c:465`. -/
  registered : Bool
  /-- The mount ID counter `Fsid`, a `WORD`. Source: `ff.c:466`. -/
  fsid : Nat
  /-- Plain `char` is signed on the target. -/
  charSigned : Bool

/-- The state when the program starts on a device: the static objects are zero. -/
def State.initial (disk : Disk) (charSigned : Bool) : State :=
  { geo := ⟨.none, 0, 0, 0, 0, 0, 0, 0, 0, 0, 0⟩
    wflag := false
    winsect := 0
    win := Sector.zero
    fsiFlag := 0
    lastClst := 0
    freeClst := 0
    disk := disk
    registered := false
    fsid := 0
    charSigned := charSigned }

/-- A function of the module. -/
abbrev M := Prog State

/-- The directory object. Source: `DIR` (`ff.h:226`), with the members of `obj` inlined. -/
structure DIR where
  /-- `obj.fs` is not null. -/
  fs : Bool := false
  /-- `obj.id`, the mount ID of the hosting volume. -/
  id : Nat := 0
  /-- `obj.attr`, the object attribute. -/
  attr : UInt8 := 0
  /-- `obj.sclust`, the table start cluster (0: root). -/
  sclust : Nat := 0
  /-- Current read/write offset. -/
  dptr : Nat := 0
  /-- Current cluster. -/
  clust : Nat := 0
  /-- Current sector (0: read operation has terminated). -/
  sect : Nat := 0
  /-- Offset of the directory item in `win[]`. -/
  dir : Nat := 0
  /-- The name in directory form, `fn[0..10]`. -/
  fn : List UInt8 := []
  /-- The name status byte, `fn[NSFLAG]`. -/
  nsflag : UInt8 := 0
  deriving DecidableEq, Repr

/-- The file object. Source: `FIL` (`ff.h:204`), with the members of `obj` inlined. -/
structure FIL where
  /-- `obj.fs` is not null. -/
  fs : Bool := false
  /-- `obj.id`, the mount ID of the hosting volume. -/
  id : Nat := 0
  /-- `obj.sclust`, the start cluster. -/
  sclust : Nat := 0
  /-- `obj.objsize`, the file size. -/
  objsize : Nat := 0
  /-- File status flags. -/
  flag : UInt8 := 0
  /-- Abort flag (error code). -/
  err : FRESULT := .ok
  /-- File read/write pointer. -/
  fptr : Nat := 0
  /-- Current cluster of `fptr` (invalid when `fptr` is 0). -/
  clust : Nat := 0
  /-- Current data sector (0: invalid). -/
  sect : Nat := 0
  /-- Sector that contains the directory entry. -/
  dirSect : Nat := 0
  /-- Offset of the directory entry in `win[]`. -/
  dirPtr : Nat := 0
  deriving DecidableEq, Repr

/-- The file information. Source: `FILINFO` (`ff.h:245`). -/
structure FILINFO where
  fsize : Nat := 0
  fdate : Nat := 0
  ftime : Nat := 0
  fattrib : UInt8 := 0
  fname : List UInt8 := []
  deriving DecidableEq, Repr

/-! ## Disk functions -/

/-- Source: `disk_status` (`diskio_fuzz.c:18`). -/
def diskStatus : UInt8 := 0

/-- Source: `disk_initialize` (`diskio_fuzz.c:19`). -/
def diskInitialize : UInt8 := 0

/-! Disk status bits (`diskio.h:38`). -/
abbrev STA_NOINIT : UInt8 := 0x01
abbrev STA_PROTECT : UInt8 := 0x04

/-- The device serves a transfer: it stays inside the device and the medium does not refuse it. -/
def Disk.serves (d : Disk) (sector count : Nat) : Bool :=
  d.inBounds sector count && !d.fault d.log.length

/-- Read `count` sectors; `none` when the transfer is refused. Source: `disk_read`
(`diskio_fuzz.c:31`). -/
def diskRead (sector count : Nat) : M (Option (Nat → Sector)) := do
  let w ← get
  modify fun w => { w with disk := { w.disk with log := .read sector count :: w.disk.log } }
  if w.disk.serves sector count then
    return some fun k => w.disk.data (sector + k)
  else
    return none

/-- Write `count` sectors from `buff`. Source: `disk_write` (`diskio_fuzz.c:37`). -/
def diskWrite (buff : Nat → Sector) (sector count : Nat) : M DRESULT := do
  let w ← get
  modify fun w => { w with disk := { w.disk with log := .write sector count :: w.disk.log } }
  if w.disk.serves sector count then
    modify fun w => { w with disk := { w.disk with
      data := fun s => if sector ≤ s ∧ s < sector + count then buff (s - sector)
        else w.disk.data s } }
    return .ok
  else
    return if w.disk.inBounds sector count then .error else .parerr

/-- `disk_ioctl(pdrv, CTRL_SYNC, 0)`. Source: `disk_ioctl` (`diskio_fuzz.c:43`). -/
def diskSync : M DRESULT := return .ok

end FatFs
