import FatFs.Model.Path

/-!
# The translator of fuzzer inputs

The host script `input_to_shell_cmd.py` turns an operation and a raw input of the fuzzer into
commands for the shell of the target. Its texts are ASCII, and a text is the list of its bytes. A
command keeps what the printed line is put together from: the component behind `/RAM:/` of each of
its file paths, and the hex payload.
-/

namespace FatFs.Shell

/-- The operation that is the first argument of the script; any other text prints no command. -/
inductive Op where
  | write | read | mkdir | rm | stat | ls | cp | other
  deriving DecidableEq, Repr

/-- A line that the script prints. -/
inductive Cmd where
  /-- `fs write /RAM:/<name> 0 <hex>`. -/
  | write (name hex : List UInt8)
  /-- `fs read /RAM:/<name>`. -/
  | read (name : List UInt8)
  /-- `fs mkdir /RAM:/<name>`. -/
  | mkdir (name : List UInt8)
  /-- `fs rm /RAM:/<name>`. -/
  | rm (name : List UInt8)
  /-- `fs ls /RAM:`. -/
  | ls
  /-- `fs statvfs /RAM:`. -/
  | statvfs
  /-- `fs cp /RAM:/<src> /RAM:/<dst>`. -/
  | cp (src dst : List UInt8)
  deriving DecidableEq, Repr

/-- The text `fuzz`. -/
def fuzz : List UInt8 := [0x66, 0x75, 0x7A, 0x7A]

/-- The text `.txt`. -/
def txt : List UInt8 := [0x2E, 0x74, 0x78, 0x74]

/-- Source: `name_len` (`input_to_shell_cmd.py:21`). -/
def nameLen : List UInt8 → Nat
  | [] => 4
  | b :: _ => max 1 (b.toNat % 12 + 1)

/-- Source: `raw_name` (`input_to_shell_cmd.py:22`). -/
def rawName (data : List UInt8) : List UInt8 :=
  if nameLen data < data.length then (data.drop 1).take (nameLen data) else fuzz

/-- The printable bytes that the script replaces. Source: `input_to_shell_cmd.py:26`. -/
def unsafeChars : List UInt8 :=
  [0x2F, 0x5C, 0x20, 0x09, 0x0A, 0x0D, 0x3A, 0x2A, 0x3F, 0x22, 0x3C, 0x3E, 0x7C]

/-- A byte of the name, or `x` in its place. Source: `input_to_shell_cmd.py:26`. -/
def sanitize (b : UInt8) : UInt8 := if 32 < b ∧ b < 127 ∧ b ∉ unsafeChars then b else 0x78

/-- Source: `name` (`input_to_shell_cmd.py:25-29`). -/
def name (data : List UInt8) : List UInt8 :=
  let joined := (rawName data).map sanitize
  (if joined = [] then fuzz else joined).take 8

/-- A hex digit, in lower case. -/
def hexDigit (n : Nat) : UInt8 := if n < 10 then UInt8.ofNat (0x30 + n) else UInt8.ofNat (0x57 + n)

/-- `bs.hex()`. -/
def hex (bs : List UInt8) : List UInt8 :=
  bs.flatMap fun b => [hexDigit (b.toNat / 16), hexDigit (b.toNat % 16)]

/-- Source: `payload` (`input_to_shell_cmd.py:31`). -/
def payload (data : List UInt8) : List UInt8 := data.drop (1 + nameLen data)

/-- Source: `hex_data` (`input_to_shell_cmd.py:32`). -/
def hexData (data : List UInt8) : List UInt8 :=
  let digits := (hex (payload data)).take 32
  if digits = [] then [0x34, 0x31] else digits

/-- Source: `dst_name` (`input_to_shell_cmd.py:62`). -/
def dstName (data : List UInt8) : List UInt8 := (name data).take 4 ++ [0x64, 0x73, 0x74]

/-- The commands that the script prints. Source: `cmds` (`input_to_shell_cmd.py:34-64`). -/
def cmds (op : Op) (data : List UInt8) : List Cmd :=
  match op with
  | .write | .read => [.write (name data ++ txt) (hexData data), .read (name data ++ txt)]
  | .mkdir => [.mkdir (name data), .ls]
  | .rm => [.write (name data ++ txt) (hexData data), .rm (name data ++ txt), .ls]
  | .stat => [.statvfs, .ls]
  | .ls => [.ls]
  | .cp => [.write (name data ++ txt) (hexData data), .cp (name data ++ txt) (dstName data ++ txt)]
  | .other => []

end FatFs.Shell
