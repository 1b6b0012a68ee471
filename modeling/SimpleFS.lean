import SimpleFS.Layout
import SimpleFS.Bytes.BitSet
import SimpleFS.DirectoryMap
import SimpleFS.Renaming
import SimpleFS.InodeAllocation
import SimpleFS.WriteTermination
import SimpleFS.Reading
import SimpleFS.RenameSlots
import SimpleFS.Undoing
import SimpleFS.Opening
import SimpleFS.InodeTable
import SimpleFS.BlockAddress
import SimpleFS.BlockTree
import SimpleFS.Commuting
import SimpleFS.Erasing
import SimpleFS.Splitting
import SimpleFS.PathCopies
import SimpleFS.Times
import SimpleFS.RemovalKinds
import SimpleFS.BlockHint
import SimpleFS.Resuming
import SimpleFS.DeviceFit
import SimpleFS.FreeCounters
import SimpleFS.NameMoves
import SimpleFS.LinkCounts
import SimpleFS.WriteWindow
import SimpleFS.WriteIsolation
import SimpleFS.RemovalFaults
import SimpleFS.Machine.Namespace
import SimpleFS.Mirrored
import SimpleFS.Regular
import SimpleFS.FileData
import SimpleFS.Machine.Simulation
import SimpleFS.FileSpec
import SimpleFS.View
import SimpleFS.ViewChanges
import SimpleFS.PathWalk
import SimpleFS.Shown
import SimpleFS.PathCalls
import SimpleFS.PathReads
import SimpleFS.HandleCalls
import SimpleFS.Remounting
import SimpleFS.RenameCalls
import SimpleFS.FileRuns
import SimpleFS.Histories
import SimpleFS.Guarantees
