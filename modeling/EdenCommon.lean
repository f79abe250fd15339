import EdenCommon.Lib.Run
import EdenCommon.Lib.Fair
import EdenCommon.Lib.OrderedSet
import EdenCommon.Lib.Split
import EdenCommon.Lib.Walk
import EdenCommon.Lib.SortedVector
import EdenCommon.Lib.BigEndian
import EdenCommon.Lib.Wp
import EdenCommon.Lib.Memory
import EdenCommon.Lib.Ring
import EdenCommon.Spec.CoverageSet
import EdenCommon.Spec.BucketedLog
import EdenCommon.Spec.Utf8
import EdenCommon.Spec.Path
import EdenCommon.Spec.Canonical
import EdenCommon.Spec.PathMap
import EdenCommon.Spec.PathCompare
import EdenCommon.Spec.PathMapMutator
import EdenCommon.Spec.UnixSocket
import EdenCommon.Spec.UnixStream
import EdenCommon.Spec.ProcessInfoCache
import EdenCommon.Spec.TraceBus
import EdenCommon.Spec.Disk
import EdenCommon.Spec.MappedDiskVector
import EdenCommon.Proof.CoverageSet
import EdenCommon.Spec.CoverageSetNodes
import EdenCommon.Proof.CoverageSetNodes
import EdenCommon.Proof.Utf8
import EdenCommon.Spec.Utf8Reads
import EdenCommon.Proof.Utf8Reads
import EdenCommon.Proof.PathSyntax
import EdenCommon.Proof.PathGrammar
import EdenCommon.Proof.PathComponents
import EdenCommon.Proof.PathAdd
import EdenCommon.Proof.PathOps
import EdenCommon.Proof.Canonical
import EdenCommon.Proof.PathMap
import EdenCommon.Proof.PathCompare
import EdenCommon.Proof.PathMapMutator
import EdenCommon.Proof.UnixWire
import EdenCommon.Proof.UnixSend
import EdenCommon.Proof.UnixReceive
import EdenCommon.Proof.UnixFraming
import EdenCommon.Proof.UnixLimits
import EdenCommon.Proof.ProcessInfoCache
import EdenCommon.Proof.TraceBusWakeups
import EdenCommon.Proof.TraceBusDelivery
import EdenCommon.Proof.Disk
import EdenCommon.Proof.MappedDiskVector
import EdenCommon.Proof.MappedDiskVectorMigration
import EdenCommon.Proof.MappedDiskVectorOpen
import EdenCommon.Proof.MappedDiskVectorStore
import EdenCommon.Proof.BucketedLog
import EdenCommon.Proof.BucketedLogMerge
import EdenCommon.Lib.StdAlgorithm
import EdenCommon.Spec.RawPathMap
import EdenCommon.Proof.RawPathMap
import EdenCommon.Proof.ThriftPath
import EdenCommon.Spec.SocketLifecycle
import EdenCommon.Proof.SocketLifecycle
import EdenCommon.Proof.SocketSends
import EdenCommon.Proof.SocketChecks
import EdenCommon.Spec.FutureUnixSocket
import EdenCommon.Proof.SocketReceive
import EdenCommon.Proof.FutureReceive
import EdenCommon.Lib.Threads
import EdenCommon.Spec.LazyInitialize
import EdenCommon.Proof.LazyInitialize
import EdenCommon.Spec.CollectSafe
import EdenCommon.Proof.CollectSafe
import EdenCommon.Spec.FaultInjector
import EdenCommon.Proof.FaultMatching
import EdenCommon.Spec.FaultBlocking
import EdenCommon.Proof.FaultBlocking
import EdenCommon.Spec.FaultCancel
import EdenCommon.Proof.FaultCancel
import EdenCommon.Spec.ProcessInfoHistory
import EdenCommon.Proof.ProcessInfoExpiry
import EdenCommon.Proof.ProcessInfoGetAll
import EdenCommon.Spec.ImmediateFuture
import EdenCommon.Proof.ImmediateFuture
import EdenCommon.Spec.FutureSocketHeap
import EdenCommon.Proof.FutureHeap
import EdenCommon.Proof.FutureHeapSteps
import EdenCommon.Proof.FutureQueue
import EdenCommon.Proof.FutureMove
import EdenCommon.Lib.Ownership
import EdenCommon.Spec.IDGen
import EdenCommon.Proof.IDGen
import EdenCommon.Spec.LeaseCache
import EdenCommon.Proof.LeaseCache
import EdenCommon.Spec.Tracing
import EdenCommon.Proof.Tracing
import EdenCommon.Spec.RequestMetricsScope
import EdenCommon.Proof.RequestMetricsScope
import EdenCommon.Spec.SubprocessScribeLogger
import EdenCommon.Proof.SubprocessScribeLogger
import EdenCommon.Spec.StructuredLogger
import EdenCommon.Proof.StructuredLogger
import EdenCommon.Proof.StructuredLoggerRuns
import EdenCommon.Lib.OuterJoin
import EdenCommon.Spec.CollatePathMaps
import EdenCommon.Proof.CollatePathMaps
import EdenCommon.Proof.BucketedLogOrder
import EdenCommon.Lib.Copies
import EdenCommon.Spec.SpawnOptions
import EdenCommon.Proof.SpawnOptions
import EdenCommon.Proof.SpawnedProcess
import EdenCommon.Spec.SpawnedProcess
import EdenCommon.Spec.RefPtr
import EdenCommon.Lib.RefCount
import EdenCommon.Proof.RefPtr
import EdenCommon.Proof.RefPtrRelease
import EdenCommon.Lib.IteratorRange
import EdenCommon.Spec.PathIterators
import EdenCommon.Proof.PathCuts
import EdenCommon.Proof.PathRanges
import EdenCommon.Proof.PathIteration
import EdenCommon.Proof.PathRemainders
import EdenCommon.Proof.PathMembers
import EdenCommon.Proof.CollateMixed
import EdenCommon.Proof.TraceBlock
import EdenCommon.Proof.RefPtrLayout
import EdenCommon.Proof.ProcessInfoWater
import EdenCommon.Proof.LeaseCacheThrow
import EdenCommon.Lib.Utf8Encoding
import EdenCommon.Proof.Utf8Forms
import EdenCommon.Spec.EnsureValidUtf8
import EdenCommon.Proof.EnsureValidUtf8
import EdenCommon.Proof.MappedDiskVectorCreate
import EdenCommon.Lib.Simulation
import EdenCommon.Spec.MappedDiskVectorMapping
import EdenCommon.Proof.MappedDiskVectorAtomic
import EdenCommon.Proof.SocketConnect
import EdenCommon.Proof.UnixChecked
import EdenCommon.Lib.HighBits
import EdenCommon.Spec.DynamicEventInts
import EdenCommon.Proof.DynamicEventInts
import EdenCommon.Spec.ProcessTimeout
import EdenCommon.Proof.ProcessTimeout
import EdenCommon.Lib.Drive
import EdenCommon.Spec.FileDescriptor
import EdenCommon.Proof.FileDescriptorFull
import EdenCommon.Proof.FileDescriptorVector
import EdenCommon.Spec.DoVecOp
import EdenCommon.Proof.DoVecOp
import EdenCommon.Spec.XAttr
import EdenCommon.Proof.XAttr
import EdenCommon.Spec.ProcArgs
import EdenCommon.Proof.ProcArgs
import EdenCommon.Spec.IoFuture
import EdenCommon.Proof.IoFuture
import EdenCommon.Spec.RequestWatches
import EdenCommon.Proof.RequestWatches
import EdenCommon.Lib.CString
import EdenCommon.Spec.Environment
import EdenCommon.Proof.Environment
import EdenCommon.Proof.EnvironmentBlock
import EdenCommon.Spec.PollingCommunicate
import EdenCommon.Proof.PollingRound
import EdenCommon.Proof.PollingCommunicate
import EdenCommon.Lib.CommandLine
import EdenCommon.Spec.CommandLine
import EdenCommon.Proof.CommandLine
import EdenCommon.Spec.InheritDescriptor
import EdenCommon.Proof.InheritDescriptor
import EdenCommon.Proof.UserInfo
import EdenCommon.Proof.Synchronized
import EdenCommon.Proof.ProcessInfoShutdown
import EdenCommon.Proof.ThreadedCommunicate
import EdenCommon.Proof.DirectoryEntries
import EdenCommon.Proof.FileUtils
import EdenCommon.Proof.DescriptorOwners
import EdenCommon.Proof.ProcStatus
import EdenCommon.Spec.OptionSet
import EdenCommon.Proof.OptionSet
