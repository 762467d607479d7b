import FatFs.Lib.Run
import FatFs.Lib.Packed
import FatFs.Model.Bytes
import FatFs.Model.State
import FatFs.Model.Fat
import FatFs.Model.Dir
import FatFs.Model.Path
import FatFs.Model.Mount
import FatFs.Model.File
import FatFs.Model.Tree
import FatFs.Model.Mkfs
import FatFs.Model.Api
import FatFs.Model.Harness
import FatFs.Model.Replay
import FatFs.Model.Shell
import FatFs.Window.Basic
import FatFs.Mount.Geometry
import FatFs.Mount.Layout
import FatFs.Path.Segments
import FatFs.Path.Names
import FatFs.Path.Follow
import FatFs.Access.ReadOnly
import FatFs.Window.Invariant
import FatFs.Window.Transfer
import FatFs.Fat.Entry
import FatFs.Fat.Chain
import FatFs.Total.Dir
import FatFs.Total.File
import FatFs.Total.Mount
import FatFs.Total.Calls
import FatFs.Total.Runs
import FatFs.Format.Layout
import FatFs.Format.Boot
import FatFs.Format.Write
import FatFs.Format.Mkfs
import FatFs.Replay.Packets
import FatFs.Replay.Shell
import FatFs.Placed.Dir
import FatFs.Placed.File
import FatFs.Placed.Calls
import FatFs.Fat.Info
import FatFs.Fat.Mirror
import FatFs.Placed.Device
import FatFs.Fat.Record
import FatFs.Fat.Count
import FatFs.Fat.Scan
import FatFs.Fat.Exact
import FatFs.Dir.Table
import FatFs.Handle.Host
import FatFs.Handle.Stale
import FatFs.Dir.Listing
import FatFs.Access.Clean
import FatFs.File.Read
import FatFs.File.Append
import FatFs.Lib.Alike
import FatFs.File.Seek
import FatFs.Fat.Array
import FatFs.Dir.Seek
import FatFs.File.Cursor
import FatFs.Dir.Refused
import FatFs.Dir.Lookup
import FatFs.Dir.Slots
import FatFs.Dir.Trace
import FatFs.Lib.Linked
import FatFs.Lib.Splice
import FatFs.Store.Content
import FatFs.Store.Write
import FatFs.Store.Read
import FatFs.Store.Seek
import FatFs.Store.Trunc
import FatFs.Store.Sync
import FatFs.Store.Volume
import FatFs.Store.Refine
import FatFs.Store.Runs
import FatFs.Store.Tree
import FatFs.Store.Entry
import FatFs.Store.Paths
import FatFs.Store.Shelf
import FatFs.Store.Acts
import FatFs.Store.Remount
import FatFs.Store.Consistent
import FatFs.Store.Handles
