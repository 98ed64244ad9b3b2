import Gem5.FlexCPU.BufferSafety
import Gem5.FlexCPU.Serialization
import Gem5.FlexCPU.Barriers
import Gem5.FlexCPU.MacroOps
import Gem5.FlexCPU.PredictionSlots
import Gem5.FlexCPU.SplitAccess
import Gem5.FlexCPU.ResourceLatency
import Gem5.FlexCPU.MemoryBandwidth
import Gem5.FlexCPU.SquashUndo
import Gem5.FlexCPU.SquashedPrefix
import Gem5.Minor.EarlyIssue
import Gem5.Riscv.Interrupts
import Gem5.Riscv.Csr
import Gem5.Riscv.Compressed
import Gem5.Riscv.ReferenceParse
import Gem5.Minor.LsqActs
import Gem5.Minor.Queue
import Gem5.Minor.AccessRuns
import Gem5.Riscv.LockedMem
import Gem5.Sim.EventService
import Gem5.Base.Interleaving
import Gem5.Base.AddressDecoding
import Gem5.Mem.PacketDelivery
import Gem5.Pred.RasRecovery
import Gem5.Mem.CacheLocks
import Gem5.Mem.MemoryLocks
import Gem5.Cache.Skewing
import Gem5.Cache.SectorSound
import Gem5.Cache.SuperBlocks
import Gem5.FlexCPU.ThreadSelection
import Gem5.O3.Rob
import Gem5.O3.RenameRuns
import Gem5.Mem.SnoopExact
import Gem5.Mem.DramConserves
import Gem5.Mem.DramReady
import Gem5.Cache.MshrTargets
import Gem5.Cache.FaLruRuns
import Gem5.Riscv.MulDiv
import Gem5.FlexCPU.FetchWindow
import Gem5.Minor.Forwarding
import Gem5.Minor.DecodeRuns
import Gem5.Minor.InterruptScan
import Gem5.FlexCPU.TraceRows
import Gem5.Minor.ExactFragments
import Gem5.Minor.StoreAccounts
import Gem5.Riscv.NanClasses
import Gem5.FlexCPU.Branching
import Gem5.Pred.TournamentRecovery
import Gem5.Pred.IndirectTraining
import Gem5.Pred.LoopPredictor
import Gem5.Pred.TageRuns
import Gem5.Base.RangeCache
import Gem5.Base.Granularity
import Gem5.Sim.Checkpoint
import Gem5.O3.RobSquash
import Gem5.Cache.SkewedAddresses
import Gem5.Lib.Digits
import Gem5.Base.Stripes
import Gem5.Mem.DramAddresses
import Gem5.Mem.DramScheduler
import Gem5.Cache.MshrQueue
import Gem5.Cache.MshrFlags
import Gem5.Lib.Recency
import Gem5.Cache.FaLruStats
import Gem5.Lib.HeapPaths
import Gem5.Cache.TreePlru
import Gem5.Cache.SecondChance
import Gem5.Lib.Words
import Gem5.Lib.Lists
import Gem5.Cache.Bdi
import Gem5.Base.SatCounter
import Gem5.Base.PrevPrime
import Gem5.Base.CircularQueue
import Gem5.Base.CircularBuffers
import Gem5.Sim.FutexMap
import Gem5.Minor.InputFifo
import Gem5.Minor.SelfStallingPipeline
import Gem5.Mem.FunctionalAccess
import Gem5.Lib.Prefixes
import Gem5.Base.Trie
import Gem5.Base.TrieShape
import Gem5.Base.TrieInsert
import Gem5.Base.TrieRemove
import Gem5.Base.TrieRuns
import Gem5.Cache.BdiSearch
import Gem5.FlexCPU.Lifecycle
