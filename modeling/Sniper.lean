import Sniper.BranchPredictors.LoopLearning
import Sniper.BranchPredictors.LoopTrust
import Sniper.Cache.SetSelection
import Sniper.Configuration.RoundTrip
import Sniper.Configuration.LookupRuns
import Sniper.Directory.Durability
import Sniper.Directory.Progress
import Sniper.Directory.Limitless
import Sniper.Directory.Replaced
import Sniper.Hierarchy.SingleWriter
import Sniper.Memory.CheetahHits
import Sniper.Memory.DramCache
import Sniper.Memory.FastNehalemLru
import Sniper.Memory.GhbHistory
import Sniper.Memory.LineAccesses
import Sniper.Memory.MshrCleanup
import Sniper.Memory.NucaCache
import Sniper.Memory.ShmemPerf
import Sniper.Memory.Tlb
import Sniper.Misc.CircularQueue
import Sniper.Misc.MovingAverage
import Sniper.Misc.SetLock
import Sniper.Network.BroadcastTree
import Sniper.Network.MemoryControllers
import Sniper.Network.Routing
import Sniper.Performance.BranchResolution
import Sniper.Performance.CycleSkipping
import Sniper.Performance.DependencySets
import Sniper.Performance.DispatchRate
import Sniper.Performance.DoubleWindow
import Sniper.Performance.SquashedDependencies
import Sniper.Performance.HistoryList
import Sniper.Performance.LongLatency
import Sniper.Performance.MemoryOrder
import Sniper.Performance.NehalemIssue
import Sniper.Performance.PortBound
import Sniper.Performance.ProducerResults
import Sniper.Performance.RemovalOrder
import Sniper.Performance.RemovedDependencies
import Sniper.Performance.SerializingOrder
import Sniper.Performance.ServiceIntervals
import Sniper.Performance.SmtBarrier
import Sniper.Performance.TagLookup
import Sniper.Performance.WindowedMG1
import Sniper.Provenance.History
import Sniper.Replacement.AccessHistogram
import Sniper.Replacement.ExhaustedRounds
import Sniper.Replacement.LoopBitL2
import Sniper.Replacement.LoopBitWriteback
import Sniper.Replacement.LoopBlocks
import Sniper.Replacement.NotRecentlyUsed
import Sniper.Replacement.PhcPartition
import Sniper.Replacement.PhcTraining
import Sniper.Replacement.QueryBased
import Sniper.Replacement.StackDistance
import Sniper.Sampling.SamplingCycles
import Sniper.Scheduler.BigThreads
import Sniper.Scheduler.SequentialOrder
import Sniper.System.BarrierProgress
import Sniper.System.FutexTimeouts
import Sniper.System.MemoryTracker
import Sniper.System.RoutineBrackets
import Sniper.System.RoutineProfile
import Sniper.System.SpinLoopDetector
import Sniper.System.TraceLifeCycle
import Sniper.System.TryLock
import Sniper.TraceFrontend.AddressSpace
import Sniper.TraceFrontend.BasicBlocks
import Sniper.TraceFrontend.OutputMirror
