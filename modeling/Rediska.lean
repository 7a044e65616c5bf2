import Rediska.Go.Basic
import Rediska.Go.Strconv
import Rediska.Go.Strings
import Rediska.Go.Bufio
import Rediska.Core.Encode
import Rediska.Core.Resp
import Rediska.Proofs.Frames
import Rediska.Proofs.DecodeSafety
import Rediska.Go.Loop
import Rediska.Hll.Murmur
import Rediska.Hll.Sketch
import Rediska.Logic.Growth
import Rediska.Proofs.HllDense
import Rediska.Proofs.HllSparse
import Rediska.Proofs.HllRegisters
import Rediska.Core.Sds
import Rediska.Go.Map
import Rediska.Storage.Entry
import Rediska.Storage.Evict
import Rediska.Cluster.Layout
import Rediska.Commands.Dispatch
import Rediska.Proofs.StoreAccounting
import Rediska.Proofs.HllCount
import Rediska.Spec.Keyspace
import Rediska.Proofs.StoreRefinement
import Rediska.Proofs.CommandRefinement
import Rediska.Proofs.DispatchSafety
import Rediska.Proofs.ReplyFraming
import Rediska.Proofs.ExpiryTransparency
import Rediska.Proofs.AofRecovery
import Rediska.Proofs.AofReplay
import Rediska.Proofs.ReplyOrder
import Rediska.Logic.Ownership
import Rediska.Proofs.RequestFlow
import Rediska.Proofs.ReplyChannels
import Rediska.Proofs.RequestService
import Rediska.Proofs.Transactions
import Rediska.Proofs.Pipelining
import Rediska.Proofs.ConnectionSteps
import Rediska.Proofs.ReplyDelivery
import Rediska.Proofs.ClusterOwnership
import Rediska.Proofs.BatchRuns
import Rediska.Proofs.HandlerSteps
import Rediska.Proofs.MemoryLimit
import Rediska.Proofs.CrashedTransactions
import Rediska.Proofs.DeadlineReplay
import Rediska.Proofs.HllForms
import Rediska.Proofs.RespRoundTrip
import Rediska.Proofs.SketchUnion
import Rediska.Proofs.Redirects
import Rediska.Proofs.TextFidelity
import Rediska.Logic.TwoRuns
import Rediska.Proofs.KeyFootprint
import Rediska.Proofs.EncodingVisibility
import Rediska.Proofs.EvictionReplay
import Rediska.Logic.ClockFace
import Rediska.Proofs.StampClocks
import Rediska.Proofs.EvictionRounds
import Rediska.Proofs.Lifetimes
import Rediska.Proofs.Counters
import Rediska.Proofs.SketchTypes
import Rediska.Logic.Intervals
import Rediska.Proofs.LayoutAccepts
import Rediska.Proofs.ClusterReports
import Rediska.Logic.BitPolynomial
import Rediska.Proofs.Checksum
import Rediska.Proofs.HashTags
import Rediska.Proofs.SdsGrowth
import Rediska.Proofs.CountCaching
import Rediska.Proofs.ActiveExpiry
import Rediska.Proofs.ScratchBuffers
import Rediska.Proofs.LfuParams
import Rediska.Proofs.AccessStamps
import Rediska.Proofs.RecencyStamps
import Rediska.Proofs.LfuTouches
import Rediska.Proofs.Deletion
import Rediska.Proofs.EvictionPool
import Rediska.Go.Slice
import Rediska.Hll.SparseSlices
import Rediska.Proofs.SparseSplice
import Rediska.Logic.Dialogue
import Rediska.Proofs.SharedServer
import Rediska.Logic.Linearizability
import Rediska.Proofs.Linearization
import Rediska.Logic.Inevitable
import Rediska.Proofs.ConnectionWork
import Rediska.Proofs.Shutdown
import Rediska.Proofs.KeyspaceRuns
import Rediska.Proofs.ShardedKeyspace
import Rediska.Proofs.Restarts
import Rediska.Proofs.PanicSources
import Rediska.Proofs.SketchSets
import Rediska.Proofs.MemoryBurden
import Rediska.Proofs.MemoryRuns
import Rediska.Proofs.AnyFile
import Rediska.Proofs.BoundedWaiting
import Rediska.Proofs.SharedCounters
