import FatFs.Lib.Run

/-!
# The replay protocol

The host script `send_packet.py` encodes a packet, and the firmware (`main.c`) reads packets from
its UART in a loop until the termination packet. The state of the firmware is the input that has not
arrived yet. A run without a result waits for input for ever or has left a buffer: every store to a
buffer has the bound of the buffer. The file system calls that a packet asks for neither read the
UART nor write these buffers, and are left out.
-/

namespace FatFs.Replay

open Run

/-! ## The host -/

/-- The arguments of the script. -/
structure Packet where
  /-- The operation byte. -/
  op : UInt8
  /-- The encoded file name. -/
  name : List UInt8
  /-- The contents of the data file. -/
  data : List UInt8
  deriving DecidableEq, Repr

/-- `sys.argv[2].encode()[:32]`. Source: `send_packet.py:11`. -/
def Packet.sentName (p : Packet) : List UInt8 := p.name.take 32

/-- `open(sys.argv[3], 'rb').read()[:4096]`. Source: `send_packet.py:12`. -/
def Packet.sentData (p : Packet) : List UInt8 := p.data.take 4096

/-- `struct.pack('>H', n)`. -/
def packH (n : Nat) : List UInt8 := [UInt8.ofNat (n / 256), UInt8.ofNat n]

/-- The main packet. Source: `send_packet.py:15-18`. -/
def Packet.encode (p : Packet) : List UInt8 :=
  [p.op, UInt8.ofNat p.sentName.length] ++ packH p.sentData.length ++ p.sentName ++ p.sentData

/-- The termination packet. Source: `send_packet.py:21`. -/
def term : List UInt8 := [0xFF, 0, 0, 0]

/-! ## The firmware -/

/-- Source: `MAX_DATA` (`main.c:27`). -/
abbrev MAX_DATA : Nat := 4096

/-- Source: `MAX_NAME` (`main.c:28`). -/
abbrev MAX_NAME : Nat := 32

/-- Source: `OP_RENAME` (`main.c:33`). -/
abbrev OP_RENAME : UInt8 := 0x04

/-- A function of the firmware, over the input that has not arrived yet. -/
abbrev F := Prog (List UInt8)

/-- Block until one byte arrives. Source: `uart_getc` (`main.c:46`). -/
def uartGetc : F UInt8
  | [] => none
  | c :: cs => some (c, cs)

/-- The store `buf[i] = b`. -/
def store (buf : List UInt8) (i : Nat) (b : UInt8) : F (List UInt8) :=
  if i < buf.length then pure (buf.set i b) else fun _ => none

/-- The rounds of `uart_read_exact` from `i` on, `n` to go. -/
def readFrom (dst : List UInt8) (i : Nat) : Nat → F (List UInt8)
  | 0 => pure dst
  | n + 1 => do
    let c ← uartGetc
    let dst ← store dst i c
    readFrom dst (i + 1) n

/-- Read exactly `n` bytes. Source: `uart_read_exact` (`main.c:57`). -/
def uartReadExact (dst : List UInt8) (n : Nat) : F (List UInt8) := readFrom dst 0 n

/-- `memcpy(dst + o, src, n)`. -/
def memcpy (dst : List UInt8) (o : Nat) (src : List UInt8) (n : Nat) : F (List UInt8) :=
  if o + n ≤ dst.length ∧ n ≤ src.length then
    pure (dst.take o ++ src.take n ++ dst.drop (o + n))
  else fun _ => none

/-- The string `/RAM:/`. -/
def strRam : List UInt8 := [0x2F, 0x52, 0x41, 0x4D, 0x3A, 0x2F]

/-- The string in a buffer. -/
def cString (buf : List UInt8) : List UInt8 := buf.takeWhile (· ≠ 0)

/-- A cleared name buffer with the mount point printed to it. Source: `main.c:100-101`,
`main.c:163-164`. -/
def ramPath : F (List UInt8) := memcpy (List.replicate (MAX_NAME + 8) 0) 0 (strRam ++ [0]) 7

/-- What a packet is for the operations. -/
structure Received where
  /-- The operation byte. -/
  op : UInt8
  /-- The path in `name_buf`. -/
  path : List UInt8
  /-- The first `data_len` bytes of `data_buf`. -/
  data : List UInt8
  /-- The path in `name2_buf`, which `OP_RENAME` fills. -/
  path2 : Option (List UInt8)
  deriving DecidableEq, Repr

/-- Copy the data to the second name buffer. Source: `main.c:163-170`. -/
def renamePath (dataBuf : List UInt8) (dataLen : Nat) : F (List UInt8) := do
  let name2 ← ramPath
  let copyLen := if dataLen < MAX_NAME then dataLen else MAX_NAME
  let name2 ← memcpy name2 6 dataBuf copyLen
  store name2 (6 + copyLen) 0

/-- Read the name of a packet. Source: `main.c:99-107`. -/
def readName (nameLen : Nat) : F (List UInt8) := do
  let name ← ramPath
  let name ← (if 0 < nameLen then do
      let tmp ← uartReadExact (List.replicate MAX_NAME 0) nameLen
      memcpy name 6 tmp nameLen
    else pure name)
  store name (6 + nameLen) 0

/-- Read the data of a packet. Source: `main.c:109-113`. -/
def readData (dataLen : Nat) : F (List UInt8) :=
  if 0 < dataLen then uartReadExact (List.replicate MAX_DATA 0) dataLen
  else pure (List.replicate MAX_DATA 0)

/-- One round of the receive loop: the packets received so far, `Sum.inr` on the termination packet.
Source: `main.c:89-253`. -/
def recvRound (got : List Received) : F (List Received ⊕ List Received) := do
  let hdr ← uartReadExact (List.replicate 4 0) 4
  let op := hdr.getD 0 0
  let nameLen := (hdr.getD 1 0).toNat % MAX_NAME
  let dataLen := (hdr.getD 2 0).toNat * 256 + (hdr.getD 3 0).toNat
  let dataLen := if MAX_DATA < dataLen then MAX_DATA else dataLen
  let name ← readName nameLen
  let data ← readData dataLen
  if op = 0xFF then return .inr got
  else if op = OP_RENAME then
    let name2 ← renamePath data dataLen
    return .inl (got ++ [⟨op, cString name, data.take dataLen, some (cString name2)⟩])
  else return .inl (got ++ [⟨op, cString name, data.take dataLen, none⟩])

/-- The receive loop, for at most `rounds` packets. Source: `main` (`main.c:79`). -/
def recvLoop (rounds : Nat) : F (List Received) := loop recvRound rounds []

end FatFs.Replay
