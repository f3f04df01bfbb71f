import Xv6.SwapDisk.Parity
import Xv6.Vm.Proc
import Xv6.Vm.Ledger
import Xv6.Vm.Residence
import Xv6.Vm.Invariant
import Xv6.Vm.AllocSpec
import Xv6.Vm.EvictSpec
import Xv6.Vm.MapSpec
import Xv6.Vm.FaultSpec
import Xv6.Vm.Unmap
import Xv6.Vm.SpaceSpec
import Xv6.Vm.FreewalkSpec
import Xv6.Vm.GrowSpec
import Xv6.Vm.ProcSpec
import Xv6.Lib.RingBuffer
import Xv6.Pipe
import Xv6.SwapDisk.Policy
import Xv6.Proc.Mlfq
import Xv6.Proc.Scheduler
import Xv6.Proc.Recycle
import Xv6.Proc.Lifecycle
import Xv6.Fs.Bio
import Xv6.Lib.Words
import Xv6.Fs.BioSpec
import Xv6.Fs.Log
import Xv6.Fs.Crash
import Xv6.Fs.LogSpace
import Xv6.Fs.Inode
import Xv6.Lib.Ownership
import Xv6.Fs.Image
import Xv6.Fs.Owner
import Xv6.Fs.Balloc
import Xv6.Fs.FileOps
import Xv6.Console
import Xv6.Lib.SortedRing
import Xv6.User.Malloc
import Xv6.User.MallocSpec
import Xv6.Virtio
import Xv6.VirtioSpec
import Xv6.Vm.Victim
import Xv6.Lib.LinkedRing
import Xv6.Fs.BcacheRing
import Xv6.Fs.FileBytes
import Xv6.Fs.OpenFile
import Xv6.Fs.OpenFileSpec
import Xv6.Fs.FileRefs
import Xv6.Vm.ForkSpec
import Xv6.Vm.System
import Xv6.Vm.FlatMemory
import Xv6.Fs.Dir
import Xv6.SwapDisk.Latency
import Xv6.Vm.EvictEffect
import Xv6.Vm.FrameCount
import Xv6.SwapDisk.Calls
import Xv6.Vm.RaidSwap
import Xv6.Vm.CopyStr
import Xv6.Vm.Moves
import Xv6.Vm.MoveSpec
import Xv6.Vm.CopySpec
import Xv6.Vm.UserCopy
import Xv6.Vm.SwapBalance
import Xv6.Vm.SwapCounters
import Xv6.Proc.Queues
import Xv6.Fs.DirMap
import Xv6.User.Sbrk
import Xv6.Fs.ShortWrite
import Xv6.Lib.RadixTree
import Xv6.Vm.RawTable
import Xv6.Vm.Exec
import Xv6.Vm.ExecSpec
import Xv6.Vm.Draws
import Xv6.Vm.ExecEvict
import Xv6.Vm.ExecArgs
import Xv6.Fs.Path
import Xv6.Fs.WriteChunk
import Xv6.Smp.Sleeplock
import Xv6.Smp.Spinlock
