import Rumprun.Core.TlsLifetime
import Rumprun.Base.ParkPermit
import Rumprun.Core.InterruptWake
import Rumprun.Rumpuser.MutexWakeups
import Rumprun.Rumpuser.RwWakeups
import Rumprun.Rumpuser.CvAccounting
import Rumprun.Sel4.InterruptExclusion
import Rumprun.Sel4.IdleWakeup
import Rumprun.Sel4.DeferredInterrupts
import Rumprun.Sel4.StdioReaders
import Rumprun.Xen.EventHandoff
import Rumprun.Xen.BlockOpen
import Rumprun.Xen.RingSlots
import Rumprun.Xen.WriteFraming
import Rumprun.Xen.RestartReaders
import Rumprun.Xen.XenbusClose
import Rumprun.Xen.RequestIds
import Rumprun.Xen.ReceiveHandoff
import Rumprun.Base.Reaping
import Rumprun.Core.MemoryRealloc
import Rumprun.Core.FifoDispatch
import Rumprun.Base.ParkDeadlines
import Rumprun.Rumpuser.SleepDeadlines
import Rumprun.Hw.DeliveryPass
import Rumprun.Rumpkern.MmapContents
import Rumprun.Base.ArgumentWords
import Rumprun.Sel4.HeapRegion
import Rumprun.Sel4.StdioWrites
import Rumprun.Sel4.PciDma
import Rumprun.Xen.ReplyBuffers
import Rumprun.Xen.XenbusPoll
import Rumprun.Xen.XenbusRequests
import Rumprun.Xen.ReceiveBuffers
import Rumprun.Hw.Pit
