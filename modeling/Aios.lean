import Aios.Cap.Attenuate
import Aios.Ipc.Reply
import Aios.Ipc.Delivery
import Aios.Kernel.Instances
import Aios.Sched.Death
import Aios.Mm.DoubleFree
import Aios.Storage.Checksum
import Aios.Storage.FailedWrite
import Aios.Storage.Durable
import Aios.Storage.ContentAddress
import Aios.Storage.Refcounts
import Aios.Storage.Versions
import Aios.Storage.Files
import Aios.Storage.Paths
import Aios.Storage.SpaceDelete
import Aios.Storage.SortedVecs
import Aios.Kernel.Authority
import Aios.Ipc.Wakeup
import Aios.Task.WaitEnds
import Aios.Syscall.Results
import Aios.Boot.Load
import Aios.Compositor.Activation
import Aios.Sync.Reentry
import Aios.Tripwire.RoundTrip
import Aios.Cap.Capacity
import Aios.Kernel.Release
import Aios.Mm.SlabRuns
import Aios.Mm.AddressSpaces
import Aios.Mm.CacheLines
import Aios.Ipc.Deadlines
import Aios.Ipc.ErrorWaits
import Aios.Compositor.Blend
import Aios.Compositor.Compose
import Aios.Ipc.Inheritance
import Aios.Ipc.Queues
import Aios.Kernel.Services
import Aios.Sync.Holders
import Aios.Tripwire.Strikes
import Aios.Input.Coalesce
import Aios.DocsCheck.Findings
import Aios.DocsCheck.Braces
import Aios.Compositor.Title
