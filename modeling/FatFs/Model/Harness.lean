import FatFs.Model.Tree

/-!
# The fuzzing harness

The program of `harness.c` for one input, after the image was loaded to the device: mount the
volume, walk the root directory and its sub-directories one level deep and read every file, then
create, write and remove a file and create a directory. The `while` loops of the two walks get a
number of rounds to run in.
-/

namespace FatFs

open Run

/-- The characters of a C string in a buffer. -/
def cString (bs : List UInt8) : List UInt8 := bs.takeWhile (· != 0)

end FatFs
