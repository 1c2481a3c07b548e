import LiteOS.Memory.Contract
import LiteOS.Kernel.Contract
import LiteOS.Ipc.SemContract
import LiteOS.Ipc.MuxOwner
import LiteOS.Ipc.MuxLive
import LiteOS.Ipc.MuxPriority
import LiteOS.Ipc.EventContract
import LiteOS.Ipc.QueueContract
import LiteOS.Ipc.TimedWait
import LiteOS.Timer.Clock
import LiteOS.Timer.Expire
import LiteOS.Timer.SwtmrContract
import LiteOS.Timer.SwtmrIds
import LiteOS.Timer.SwtmrMessages
import LiteOS.Ipc.QueueDelete
import LiteOS.Ipc.MuxDepth
import LiteOS.Memory.Membox
import LiteOS.Ipc.PthreadMutex
import LiteOS.Ipc.SchedLock
import LiteOS.Kernel.Join
import LiteOS.Kernel.Recycle
import LiteOS.Memory.Registry
import LiteOS.Memory.DoubleFree
import LiteOS.Posix.Once
import LiteOS.Posix.Poll
import LiteOS.Posix.Deadline
import LiteOS.Posix.Mqueue
import LiteOS.Posix.PipeTable
import LiteOS.Posix.ThreadKeys
import LiteOS.Posix.ThreadRecords
import LiteOS.Posix.Cond
import LiteOS.Posix.PipeRing
import LiteOS.Posix.Pipe
import LiteOS.Posix.PipeEof
import LiteOS.Fs.Iovec
import LiteOS.Fs.MpFind
import LiteOS.Fs.Vfs
import LiteOS.Fs.Unmount
import LiteOS.Fs.Lock
import LiteOS.Fs.Books
import LiteOS.Fs.Refs
import LiteOS.Fs.Littlefs
import LiteOS.Ipc.Signal
import LiteOS.Ipc.SignalWake
import LiteOS.Ipc.SignalConsume
import LiteOS.Cmsis.KernelLock
import LiteOS.Power.LockRaces
import LiteOS.Cmsis.MessageQueue
import LiteOS.Power.Suspend
import LiteOS.Shell.Commands
import LiteOS.Dynlink.Reloc
import LiteOS.Posix.RealTime
import LiteOS.Timer.FreqAdjust
