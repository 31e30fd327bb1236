import CheviotKernel.Fs.PipeWaits
import CheviotKernel.Fs.MsgProtocol
import CheviotKernel.Fs.MsgCopy
import CheviotKernel.Fs.Creation
import CheviotKernel.Fs.Offsets
import CheviotKernel.Fs.FilpLifetime
import CheviotKernel.Fs.Writers
import CheviotKernel.Fs.CacheInvariant
import CheviotKernel.Utility.DoPrintf
import CheviotKernel.Vm.CopyOnWrite
import CheviotKernel.Vm.Mmap
import CheviotKernel.Proc.RoundRobin
import CheviotKernel.Proc.KernelExit
import CheviotKernel.Proc.SignalSafety
import CheviotKernel.Proc.PidRange
import CheviotKernel.Proc.Membership
import CheviotKernel.Proc.Fork
import CheviotKernel.Proc.Identity
import CheviotKernel.Fs.Exec
import CheviotKernel.Fs.Truncate
import CheviotKernel.Proc.FutexWait
import CheviotKernel.Proc.GroupWait
import CheviotKernel.Proc.ThreadExit
import CheviotKernel.Proc.Reaping
import CheviotKernel.Fs.VnodeHash
import CheviotKernel.Fs.PageRelease
import CheviotKernel.Vm.PageMap
import CheviotKernel.Vm.Unmap
import CheviotKernel.Proc.ThreadEvents
import CheviotKernel.Proc.Sigsuspend
import CheviotKernel.Proc.HangUp
import CheviotKernel.Fs.Descriptors
import CheviotKernel.Fs.Transfers
import CheviotKernel.Proc.Durations
import CheviotKernel.Proc.SignalCalls
import CheviotKernel.Proc.ThreadWaits
import CheviotKernel.Fs.ArgPool
import CheviotKernel.Fs.PathPages
import CheviotKernel.Proc.IsrHandlers
import CheviotKernel.Vm.KernelFaults
