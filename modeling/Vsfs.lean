import Vsfs.Lib.Except
import Vsfs.Lib.WordBits
import Vsfs.Lib.ByteSeq
import Vsfs.Lib.HeapChain
import Vsfs.Lib.GuardedRun
import Vsfs.Lib.NumberPool
import Vsfs.Lib.Drain
import Vsfs.Lib.PointerForest
import Vsfs.Lib.Extents
import Vsfs.Lib.Paged
import Vsfs.Model.Types
import Vsfs.Model.Bitmap
import Vsfs.Model.AllocBlock
import Vsfs.Model.Descriptor
import Vsfs.Model.Spdk
import Vsfs.Model.SpdkIO
import Vsfs.Model.Ufs
import Vsfs.Model.Shm
import Vsfs.Model.Format
import Vsfs.Model.Mount
import Vsfs.Model.ShmMount
import Vsfs.Model.ShmAlloc
import Vsfs.Model.ShmIO
import Vsfs.Model.ReturnBlock
import Vsfs.Descriptors.List
import Vsfs.Model.System
import Vsfs.Model.ShmSystem
import Vsfs.Descriptors.Open
import Vsfs.Descriptors.Close
import Vsfs.Descriptors.Keys
import Vsfs.Descriptors.Set
import Vsfs.Descriptors.Slots
import Vsfs.Descriptors.Nodes
import Vsfs.Volume.Refs
import Vsfs.Volume.Cases
import Vsfs.Volume.Ownership
import Vsfs.Volume.Alloc
import Vsfs.Volume.Flatten
import Vsfs.Volume.Used
import Vsfs.Volume.Growth
import Vsfs.Volume.Updates
import Vsfs.Volume.Steps
import Vsfs.Volume.Geometry
import Vsfs.Volume.Fresh
import Vsfs.Volume.Remount
import Vsfs.Volume.Exclusive
import Vsfs.Volume.Space
import Vsfs.Volume.CreatFrame
import Vsfs.Volume.Directory
import Vsfs.Volume.Lookup
import Vsfs.Volume.Mirror
import Vsfs.Volume.Listed
import Vsfs.Volume.Handles
import Vsfs.Volume.RootKept
import Vsfs.Volume.Total
import Vsfs.Volume.Creation
import Vsfs.Volume.Allocator
import Vsfs.Volume.InPlace
import Vsfs.Volume.Content
import Vsfs.Volume.Overwrite
import Vsfs.Volume.Supply
import Vsfs.Volume.Rounds
import Vsfs.Volume.ReadBack
import Vsfs.Volume.Walk
import Vsfs.Volume.ShmWrite
import Vsfs.Volume.ShmRun
import Vsfs.Volume.WriteFrame
import Vsfs.Volume.Layout
import Vsfs.Volume.Segment
import Vsfs.Volume.Append
import Vsfs.Volume.Leaks
import Vsfs.Model.Dblock
import Vsfs.Volume.Transfer
import Vsfs.Volume.ShmTransfer
import Vsfs.Volume.ShmTotal
import Vsfs.Volume.Seek
import Vsfs.Volume.ReturnBlock
import Vsfs.Volume.OpenFiles
import Vsfs.Volume.ReadToEnd
import Vsfs.Volume.Limit
import Vsfs.Volume.SeekPosition
import Vsfs.Volume.SeekGrowth
import Vsfs.Volume.ReadFit
import Vsfs.Volume.ShmReadFit
import Vsfs.Volume.BitmapSet
import Vsfs.Volume.Listing
import Vsfs.Volume.Alike
import Vsfs.Volume.Effects
import Vsfs.Volume.Sessions
import Vsfs.Volume.Durable
import Vsfs.Model.Messages
import Vsfs.Volume.Messages
import Vsfs.Model.Shell
import Vsfs.Shell.Input
import Vsfs.Shell.Spec
import Vsfs.Shell.Contents
import Vsfs.Shell.OneFile
import Vsfs.Shell.Files
import Vsfs.Shell.Commands
import Vsfs.Shell.Refines
import Vsfs.Shell.Sessions
import Vsfs.Model.Processes
import Vsfs.Volume.Processes
import Vsfs.Volume.Isolation
import Vsfs.Volume.ShmLastWrite
