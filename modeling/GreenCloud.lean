import GreenCloud.PendingTable
import GreenCloud.MmapStorage
import GreenCloud.CloudStorage
import GreenCloud.SlaveDriverProxy
import GreenCloud.NBDDriverProxy
import GreenCloud.Wire.Codec
import GreenCloud.Wire.Payload
import GreenCloud.Lifecycle
import GreenCloud.System
import GreenCloud.Replay
import GreenCloud.CLib.UnorderedMap
import GreenCloud.Slaves
import GreenCloud.CLib.Heap
import GreenCloud.WPriorityQueue
import GreenCloud.SlavePool
import GreenCloud.Wire.Bounds
import GreenCloud.CLib.HeapOrder
import GreenCloud.SharedQueue
import GreenCloud.ThreadPool
import GreenCloud.TaskBag
import GreenCloud.Suspension
import GreenCloud.Shutdown
import GreenCloud.SlaveMemory
import GreenCloud.Wire.Reads
import GreenCloud.CLib.Endian
import GreenCloud.NBDSocket
import GreenCloud.Dispatcher
import GreenCloud.NBDReplies
import GreenCloud.SlaveAddress
import GreenCloud.DirMonitor
import GreenCloud.Handleton
import GreenCloud.Reentrancy
import GreenCloud.Deadlock
import GreenCloud.Copies
import GreenCloud.Device
import GreenCloud.Handshake
import GreenCloud.Transfer
import GreenCloud.NBDHeader
import GreenCloud.SlaveEngine
import GreenCloud.MemoryStorage
import GreenCloud.RequestIds
import GreenCloud.FailingTasks
import GreenCloud.Logger
import GreenCloud.MonitorThread
import GreenCloud.EventLoop
import GreenCloud.CellStore
import GreenCloud.Cluster.Machine
import GreenCloud.Cluster.BlockDevice
import GreenCloud.Cluster.Simulation
import GreenCloud.Cluster.Progress
import GreenCloud.Cluster.Consistency
import GreenCloud.Cluster.Drain
import GreenCloud.Cluster.Pools
import GreenCloud.Master.Gateways
import GreenCloud.Master.Lifetime
import GreenCloud.Master.Exit
import GreenCloud.SlaveProcess
