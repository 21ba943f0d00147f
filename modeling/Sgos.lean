import Sgos.LinkedChain
import Sgos.GuardedRun
import Sgos.IntervalList
import Sgos.PointCount
import Sgos.Machine
import Sgos.Scheduler
import Sgos.VirtualMemory
import Sgos.VirtualMemoryLists
import Sgos.VirtualMemoryAreas
import Sgos.VirtualMemoryRuns
import Sgos.Queue
import Sgos.QueueLists
import Sgos.Ipc
import Sgos.IpcDelivery
import Sgos.ReceiveFilter
import Sgos.ReceiveLock
import Sgos.Paging
import Sgos.PagingMap
import Sgos.PageTableLaw
import Sgos.PhysicalMemory
import Sgos.FrameLaw
import Sgos.FrameRuns
import Sgos.FrameSearch
import Sgos.Tiling
import Sgos.Allocator
import Sgos.AllocatorBlocks
import Sgos.AllocatorLaw
import Sgos.AllocatorRuns
import Sgos.AllocatorCompleteness
import Sgos.Thread
import Sgos.Semaphore
import Sgos.SemaphoreLaw
import Sgos.SemaphoreRuns
import Sgos.ThreadDeath
import Sgos.ThreadDeathRuns
import Sgos.SystemCall
import Sgos.SystemCallResults
import Sgos.SystemCallRuns
import Sgos.VirtualMemoryLookup
import Sgos.BoundedDeque
import Sgos.QueueDeque
import Sgos.Identifier
import Sgos.IdentifierLaw
import Sgos.Fpu
import Sgos.FpuIsolation
import Sgos.Interrupt
import Sgos.InterruptLaw
import Sgos.ByteBuffer
import Sgos.Bxml
import Sgos.BxmlTree
import Sgos.BxmlBuild
import Sgos.BxmlParse
import Sgos.BxmlRoundTrip
import Sgos.WriteBackCache
import Sgos.BlockCache
import Sgos.ChainFamily
import Sgos.BlockCacheLists
import Sgos.BlockCacheLaw
import Sgos.Vfs
import Sgos.VfsCounts
import Sgos.ByteStore
import Sgos.Fat32
import Sgos.Fat32Layout
import Sgos.Fat32Chain
import Sgos.Fat32Files
import Sgos.Fat32WriteRead
import Sgos.ServiceRegistryLaw
import Sgos.IrqLaw
import Sgos.IpcIntegrity
import Sgos.RequestLaw
import Sgos.Join
import Sgos.JoinLaw
import Sgos.DemandPaging
import Sgos.DemandPagingLaw
import Sgos.SharedSlots
import Sgos.CopyOnWrite
import Sgos.CopyOnWriteLaw
import Sgos.FileTransfer
import Sgos.PageExchange
import Sgos.ModuleRegistry
import Sgos.ModuleRegistryLaw
import Sgos.CString
import Sgos.Xml
import Sgos.XmlTree
import Sgos.XmlBuild
import Sgos.XmlRead
import Sgos.XmlParse
import Sgos.XmlNames
import Sgos.XmlRoundTrip
import Sgos.BlockCachePlaces
import Sgos.KernelMemory
import Sgos.VirtualMemoryPlacement
import Sgos.ProcessListLaw
import Sgos.MemoryRanges
import Sgos.UserPages
import Sgos.PointSwaps
import Sgos.RangeSwap
import Sgos.Fat32Size
import Sgos.Fat32Position
import Sgos.Fat32Search
import Sgos.Fat32Addressing
import Sgos.Fat32Directory
import Sgos.Fat32Full
import Sgos.Fat32Scan
import Sgos.Fat32Lookup
import Sgos.Fat32Names
import Sgos.Fat32Create
import Sgos.Fat32ShortNames
import Sgos.Fat32RoundTrip
import Sgos.Fat32Enum
import Sgos.Fat32Parts
import Sgos.Fat32Robust
import Sgos.Fat32Readdir
import Sgos.Fat32ShortSearch
import Sgos.VfsPath
import Sgos.Ancestry
import Sgos.FsManager
import Sgos.VfsTree
import Sgos.VfsSlots
import Sgos.Device
import Sgos.DeviceNames
import Sgos.MappedStore
import Sgos.SectorService
import Sgos.SectorPages
import Sgos.SectorLaw
import Sgos.LateSend
import Sgos.FatTime
import Sgos.ThreadClocks
import Sgos.TimerTick
import Sgos.RoundRobin
import Sgos.InterruptHandlers
import Sgos.UserPointers
import Sgos.Vm86
import Sgos.Vm86Law
import Sgos.SpaceCreationLaw
import Sgos.ModuleLoadingLaw
import Sgos.BxmlSize
import Sgos.AllocatorWrites
import Sgos.Realloc
import Sgos.KeyboardLaw
import Sgos.Relocation
import Sgos.ImageBufferLaw
import Sgos.XmlSaveLaw
import Sgos.BxmlPathRuns
import Sgos.PeImageLaw
import Sgos.XmlScanLaw
import Sgos.KeyboardModifiers
import Sgos.Calendar
import Sgos.Terminal
import Sgos.StringSlices
import Sgos.StringReplace
import Sgos.StringStore
import Sgos.StringRuns
import Sgos.BxmlPathRead
import Sgos.BxmlPathText
import Sgos.UserQuota
import Sgos.Fat32Store
import Sgos.PrintfLaw
import Sgos.RangePages
import Sgos.Descriptors
import Sgos.ThreadSwitch
import Sgos.Rootfs
import Sgos.Fat32Catalog
import Sgos.Fat32Save
import Sgos.Fat32Mount
import Sgos.SpaceMemory
