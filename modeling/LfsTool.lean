import LfsTool.Lib.BlockArray
import LfsTool.Lib.ByteFile
import LfsTool.Lib.CStrings
import LfsTool.Lib.Heap
import LfsTool.Lib.KeyedList
import LfsTool.Lib.PathSyntax
import LfsTool.Lib.Replay
import LfsTool.Lib.TreeFs
import LfsTool.Vfs
import LfsTool.Native
import LfsTool.Lfs
import LfsTool.Image
import LfsTool.BlockDevice
import LfsTool.Walk
import LfsTool.WalkRun
import LfsTool.Logged
import LfsTool.Calls
import LfsTool.Recorded
import LfsTool.Main
import LfsTool.Numbers
import LfsTool.Sizes
import LfsTool.Caches
import LfsTool.Lib.SkipList
import LfsTool.Alloc
import LfsTool.Start
import LfsTool.CommandLine
import LfsTool.TreeWalk
import LfsTool.Transfer
import LfsTool.TreeBackends
import LfsTool.RoundTrip
import LfsTool.ShortReads
import LfsTool.Failures
import LfsTool.Containment
import LfsTool.ExitStatus
import LfsTool.Geometry
import LfsTool.ReadOnly
import LfsTool.Handles
import LfsTool.SharedSlot
import LfsTool.Joining
import LfsTool.NestedPaths
import LfsTool.Objects
import LfsTool.LifeCycle
import LfsTool.Termination
import LfsTool.ProgCache
import LfsTool.CachedBlocks
import LfsTool.Fetch
import LfsTool.Traverse
import LfsTool.TraverseContent
import LfsTool.Recovery
import LfsTool.Matching
