import DzOS.Common.Lib
import DzOS.Common.Printf
import DzOS.Cpu.Context
import DzOS.Cpu.Fpu
import DzOS.Cpu.Spinlock
import DzOS.Cpu.SystemCall
import DzOS.Drivers.DeviceManager
import DzOS.Drivers.Driver
import DzOS.Drivers.DriverSign
import DzOS.Drivers.Framebuffer
import DzOS.Drivers.Nvme
import DzOS.Drivers.NvmeBlock
import DzOS.Drivers.Pci
import DzOS.Drivers.Pic
import DzOS.Drivers.Ps2
import DzOS.Drivers.Rtc
import DzOS.Drivers.Serial
import DzOS.Fs.Dzfs
import DzOS.Fs.File
import DzOS.Fs.Fs
import DzOS.Fs.Readdir
import DzOS.Fs.Syscall
import DzOS.Lib.Ascent
import DzOS.Lib.Assembly
import DzOS.Lib.Bytes
import DzOS.Lib.Chain
import DzOS.Lib.Circular
import DzOS.Lib.Conserve
import DzOS.Lib.DList
import DzOS.Lib.FileStore
import DzOS.Lib.Gregorian
import DzOS.Lib.LazyRegister
import DzOS.Lib.Mask
import DzOS.Lib.Monitor
import DzOS.Lib.Numeral
import DzOS.Lib.Outcome
import DzOS.Lib.Owner
import DzOS.Lib.PagedView
import DzOS.Lib.PhaseRing
import DzOS.Lib.Radix
import DzOS.Lib.RadixItems
import DzOS.Lib.RefCount
import DzOS.Lib.Ring
import DzOS.Lib.Run
import DzOS.Lib.SaveArea
import DzOS.Lib.Scan
import DzOS.Lib.Tree
import DzOS.Lib.Trie
import DzOS.Libc.Malloc
import DzOS.Libc.Stdio
import DzOS.Mem.AddressSpace
import DzOS.Mem.KernelSpace
import DzOS.Mem.Kmalloc
import DzOS.Mem.Mem
import DzOS.Mem.NewSpace
import DzOS.Mem.Page
import DzOS.Mem.Slab
import DzOS.Mem.UserSpace
import DzOS.Mem.Vmm
import DzOS.Proofs.Common.BoundedPrint
import DzOS.Proofs.Common.Conversions
import DzOS.Proofs.Common.DigitBuffer
import DzOS.Proofs.Common.Format
import DzOS.Proofs.Common.Memset
import DzOS.Proofs.Common.Snprintf
import DzOS.Proofs.Cpu.Context
import DzOS.Proofs.Cpu.Fpu
import DzOS.Proofs.Cpu.KernelContext
import DzOS.Proofs.Cpu.Spinlock
import DzOS.Proofs.Cpu.SystemCall
import DzOS.Proofs.Drivers.DeviceManager
import DzOS.Proofs.Drivers.DriverSign
import DzOS.Proofs.Drivers.Framebuffer
import DzOS.Proofs.Drivers.FramebufferIoctl
import DzOS.Proofs.Drivers.Modifiers
import DzOS.Proofs.Drivers.Nvme
import DzOS.Proofs.Drivers.NvmeBlock
import DzOS.Proofs.Drivers.Pci
import DzOS.Proofs.Drivers.Pic
import DzOS.Proofs.Drivers.Ps2
import DzOS.Proofs.Drivers.Rtc
import DzOS.Proofs.Drivers.Serial
import DzOS.Proofs.Fs.Access
import DzOS.Proofs.Fs.AppendRuns
import DzOS.Proofs.Fs.Bitmap
import DzOS.Proofs.Fs.BlockAllocator
import DzOS.Proofs.Fs.CachedSize
import DzOS.Proofs.Fs.DeleteAtomic
import DzOS.Proofs.Fs.Descriptors
import DzOS.Proofs.Fs.Desks
import DzOS.Proofs.Fs.Directory
import DzOS.Proofs.Fs.Entities
import DzOS.Proofs.Fs.FailedOpen
import DzOS.Proofs.Fs.FailedWrite
import DzOS.Proofs.Fs.FileCalls
import DzOS.Proofs.Fs.FileSize
import DzOS.Proofs.Fs.FileTree
import DzOS.Proofs.Fs.Folder
import DzOS.Proofs.Fs.Format
import DzOS.Proofs.Fs.FreeBlocks
import DzOS.Proofs.Fs.InitProgram
import DzOS.Proofs.Fs.InodeTable
import DzOS.Proofs.Fs.Interference
import DzOS.Proofs.Fs.Invariant
import DzOS.Proofs.Fs.Leak
import DzOS.Proofs.Fs.LiveInodes
import DzOS.Proofs.Fs.MoveFile
import DzOS.Proofs.Fs.Names
import DzOS.Proofs.Fs.NewEntity
import DzOS.Proofs.Fs.OnlyFolders
import DzOS.Proofs.Fs.Open
import DzOS.Proofs.Fs.OpenFiles
import DzOS.Proofs.Fs.OpenInodes
import DzOS.Proofs.Fs.Ownership
import DzOS.Proofs.Fs.Path
import DzOS.Proofs.Fs.PathCompose
import DzOS.Proofs.Fs.PlainPath
import DzOS.Proofs.Fs.Read
import DzOS.Proofs.Fs.Readdir
import DzOS.Proofs.Fs.Reboot
import DzOS.Proofs.Fs.References
import DzOS.Proofs.Fs.Runs
import DzOS.Proofs.Fs.Seek
import DzOS.Proofs.Fs.SharedInodes
import DzOS.Proofs.Fs.Space
import DzOS.Proofs.Fs.StoreRefinement
import DzOS.Proofs.Fs.Tree
import DzOS.Proofs.Fs.UniqueNames
import DzOS.Proofs.Fs.Variables
import DzOS.Proofs.Fs.WriteContent
import DzOS.Proofs.Fs.WriteLoop
import DzOS.Proofs.Libc.Free
import DzOS.Proofs.Libc.FreeList
import DzOS.Proofs.Libc.Integrity
import DzOS.Proofs.Libc.Malloc
import DzOS.Proofs.Libc.Realloc
import DzOS.Proofs.Libc.Requests
import DzOS.Proofs.Libc.Session
import DzOS.Proofs.Libc.Spans
import DzOS.Proofs.Libc.Stdio
import DzOS.Proofs.Mem.AddressSpace
import DzOS.Proofs.Mem.BlockReuse
import DzOS.Proofs.Mem.CopyPagetable
import DzOS.Proofs.Mem.CopyUserString
import DzOS.Proofs.Mem.InitMem
import DzOS.Proofs.Mem.KernelHalf
import DzOS.Proofs.Mem.KernelMapping
import DzOS.Proofs.Mem.KernelStack
import DzOS.Proofs.Mem.Kmalloc
import DzOS.Proofs.Mem.KmallocAlign
import DzOS.Proofs.Mem.KmallocLarge
import DzOS.Proofs.Mem.MapPages
import DzOS.Proofs.Mem.MapPhysical
import DzOS.Proofs.Mem.MemcpyExact
import DzOS.Proofs.Mem.NewSpaceLeak
import DzOS.Proofs.Mem.PageOwnership
import DzOS.Proofs.Mem.PageTable
import DzOS.Proofs.Mem.PageTableUpdate
import DzOS.Proofs.Mem.Sbrk
import DzOS.Proofs.Mem.SlabBin
import DzOS.Proofs.Mem.SlabPage
import DzOS.Proofs.Mem.SpaceCreation
import DzOS.Proofs.Mem.SpaceItems
import DzOS.Proofs.Mem.SpaceReturn
import DzOS.Proofs.Mem.TableTree
import DzOS.Proofs.Mem.UserCopy
import DzOS.Proofs.Mem.UserFrames
import DzOS.Proofs.Mem.ProcessPages
import DzOS.Proofs.Mem.UserSpace
import DzOS.Proofs.Mem.ValidateUserPtr
import DzOS.Proofs.Sched.Account
import DzOS.Proofs.Sched.Blocking
import DzOS.Proofs.Sched.FairStart
import DzOS.Proofs.Sched.Interactive
import DzOS.Proofs.Sched.KernelHalf
import DzOS.Proofs.Sched.Machine
import DzOS.Proofs.Sched.PickNext
import DzOS.Proofs.Sched.ProcessLocks
import DzOS.Proofs.Sched.ProcessTable
import DzOS.Proofs.Sched.Queue
import DzOS.Proofs.Sched.RunQueue
import DzOS.Proofs.Sched.SerialWait
import DzOS.Proofs.Sched.Sleep
import DzOS.Proofs.Sched.StackSlots
import DzOS.Proofs.Sched.WaitExit
import DzOS.Proofs.Sched.Weights
import DzOS.Proofs.Userspace.Break
import DzOS.Proofs.Userspace.Exec
import DzOS.Proofs.Userspace.FailedExec
import DzOS.Proofs.Userspace.FilePanics
import DzOS.Proofs.Userspace.Image
import DzOS.Proofs.Userspace.LoaderSteps
import DzOS.Proofs.Userspace.Segments
import DzOS.Proofs.Userspace.StartState
import DzOS.Sched.Blocking
import DzOS.Sched.Process
import DzOS.Sched.Scheduler
import DzOS.Userspace.Exec
import DzOS.Userspace.Proc
