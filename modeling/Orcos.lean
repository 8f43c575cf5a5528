import Orcos.Guarantees.AsyncList
import Orcos.Source.Usb.EHCI
import Orcos.Lib.Circles
import Orcos.Guarantees.RoundRobin
import Orcos.Guarantees.ReceivedFrames
import Orcos.Guarantees.FailedAreas
import Orcos.Guarantees.InitialTasks
import Orcos.Guarantees.TaskArguments
import Orcos.Guarantees.ArgumentVectors
import Orcos.Guarantees.CompactPaths
import Orcos.Guarantees.CalendarDates
import Orcos.Guarantees.Checksums
import Orcos.Guarantees.NumberTexts
import Orcos.Guarantees.LongDivision
import Orcos.Guarantees.MemoryFills
import Orcos.Guarantees.FileWrites
import Orcos.Guarantees.ChosenAddresses
import Orcos.Guarantees.SecondLevelTables
import Orcos.Guarantees.TaskPointers
import Orcos.Guarantees.ConcurrentAllocations
import Orcos.Guarantees.WorkingPaths
import Orcos.Guarantees.BlockedReaders
import Orcos.Guarantees.SeekPositions
import Orcos.Guarantees.FailedCreations
import Orcos.Guarantees.OverlaidDirectories
import Orcos.Source.Files.Overlays
import Orcos.Guarantees.SegmentStreams
import Orcos.Guarantees.WakeUps
import Orcos.Guarantees.UniqueIds
import Orcos.Guarantees.UniqueNames
import Orcos.Guarantees.EntryCounts
import Orcos.Guarantees.TaskLoading
import Orcos.Guarantees.ThreadDeletion
import Orcos.Guarantees.TaskImages
import Orcos.Guarantees.RamFiles
import Orcos.Guarantees.RamChains
import Orcos.Guarantees.FileRemovals
import Orcos.Guarantees.ReferenceCounts
import Orcos.Guarantees.PathLookup
import Orcos.Source.Files.RamFilesystem
import Orcos.Guarantees.DirectoryReads
import Orcos.Guarantees.AllocationFailures
import Orcos.Guarantees.LongNames
import Orcos.Guarantees.ChainExtension
import Orcos.Guarantees.ClusterAllocation
import Orcos.Guarantees.ClusterWalks
import Orcos.Guarantees.LogicalAreas
import Orcos.Guarantees.LockOrder
import Orcos.Guarantees.StopResume
import Orcos.Source.ThreadFrames
import Orcos.Guarantees.EarliestDeadline
import Orcos.Guarantees.SleepOrder
import Orcos.Guarantees.ReadyThreads
import Orcos.Guarantees.ThreadLists
import Orcos.Guarantees.ThreadReferences
import Orcos.Guarantees.ThreadStacks
import Orcos.Source.DispatcherRefinement
import Orcos.Source.ThreadQueues
import Orcos.Source.SingleCPUDispatcher
import Orcos.Source.PriorityThread
import Orcos.Lib.Chain
import Orcos.Guarantees.PartitionCache
import Orcos.Source.PartitionRequests
import Orcos.Source.Partition
import Orcos.Guarantees.MessageQueues
import Orcos.Guarantees.MutualExclusion
import Orcos.Guarantees.PriorityInheritance
import Orcos.Guarantees.SequentialHeap
import Orcos.Guarantees.PageConsistency
import Orcos.Guarantees.PhysicalPages
import Orcos.Source.Alignment
import Orcos.Guarantees.ConditionVariables
import Orcos.Guarantees.DeferredDeletion
import Orcos.Source.DeferredDeletion
import Orcos.Guarantees.IdentifierMaps
import Orcos.Source.IDMap
import Orcos.Guarantees.ArrayLists
import Orcos.Source.ArrayList
import Orcos.Lib.Ring
import Orcos.Guarantees.ReadyQueue
import Orcos.Lib.StableQueue
import Orcos.Guarantees.LinkedLists
import Orcos.Guarantees.RamBlocks
import Orcos.Guarantees.ThreadWaits
import Orcos.Guarantees.InterruptWaiters
import Orcos.Guarantees.InterruptWorkers
import Orcos.Guarantees.AcceptedConnections
import Orcos.Guarantees.BlockTimeouts
import Orcos.Guarantees.UserMutexes
import Orcos.Guarantees.DeviceEnumeration
import Orcos.Guarantees.HeapReuse
import Orcos.Guarantees.HubPorts
import Orcos.Guarantees.ImageAreas
import Orcos.Guarantees.BufferAccess
import Orcos.Guarantees.KernelWorkers
import Orcos.Guarantees.PeriodicJobs
import Orcos.Guarantees.RateMonotonicScheduler
import Orcos.Guarantees.PartitionRanges
import Orcos.Guarantees.BlockCommands
