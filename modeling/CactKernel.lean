import CactKernel.Mm.BootLaw
import CactKernel.Mm.PmmLaw
import CactKernel.Alloc.HeapLaw
import CactKernel.Syscall.Validate
import CactKernel.Sched.DispatchLaw
import CactKernel.Sched.Deadline
import CactKernel.Sync.MutexLaw
import CactKernel.Sync.Semaphore
import CactKernel.Syscall.FutexLaw
import CactKernel.Mm.Shadow
import CactKernel.Alloc.SlabLaw
import CactKernel.Mm.ReadOnly
import CactKernel.Mm.SharedFork
import CactKernel.Fs.CacheEnds
import CactKernel.Fs.PipeLaw
import CactKernel.Fs.Eventfd
import CactKernel.Fs.FileTableLaw
import CactKernel.Fs.TmpfsLaw
import CactKernel.Syscall.FdIoLaw
import CactKernel.Syscall.SignalFrameLaw
import CactKernel.Sched.WaitPidReport
import CactKernel.Syscall.DispositionLaw
import CactKernel.Fs.DcacheLaw
import CactKernel.Fs.PathWalkLaw
import CactKernel.Syscall.UnixStreamLaw
import CactKernel.Drivers.BlkdevLaw
import CactKernel.Drivers.TtyLaw
import CactKernel.Fs.MqueueLaw
import CactKernel.Drivers.PageCacheLaw
import CactKernel.Fs.MountsLaw
import CactKernel.Mm.ProtectLaw
import CactKernel.Net.Dns
import CactKernel.Net.RxQueue
import CactKernel.Drivers.DrmArith
import CactKernel.Drivers.XhciRing
