import Tvm.Arith.BoundDeducer
import Tvm.Arith.BoundDeducerSound
import Tvm.Arith.ConstFold
import Tvm.Arith.DetectLinearEquation
import Tvm.Arith.EstimateRegion
import Tvm.Arith.EstimateRegionUpper
import Tvm.Arith.Expr
import Tvm.Arith.IntConstraints
import Tvm.Arith.IntOperator
import Tvm.Arith.IntervalEvaluation
import Tvm.Arith.IntervalSet
import Tvm.Arith.IntervalSetSound
import Tvm.Arith.ModularSet
import Tvm.Arith.ModularSetScopes
import Tvm.Arith.ModularSetSound
import Tvm.Arith.Pattern
import Tvm.Arith.RewriteFirings
import Tvm.Arith.RewriteNode
import Tvm.Arith.RewriteNodeSound
import Tvm.Arith.RewriteResults
import Tvm.Arith.RewriteRules
import Tvm.Arith.RewriteRulesDiv
import Tvm.Arith.RewriteRulesDivSound
import Tvm.Arith.RewriteRulesLogic
import Tvm.Arith.RewriteRulesLogicSound
import Tvm.Arith.RewriteRulesMinMax
import Tvm.Arith.RewriteRulesMinMaxSound
import Tvm.Arith.RewriteRulesSound
import Tvm.Arith.RewriteRuns
import Tvm.Arith.RewriteSimplify
import Tvm.Arith.RewriteSimplifySound
import Tvm.Arith.RuleSemantics
import Tvm.Arith.SmithNormalForm
import Tvm.Arith.SmithNormalFormLoop
import Tvm.Arith.SmithNormalFormSound
import Tvm.Arith.SumNormalForm
import Tvm.Arith.Terms
import Tvm.Arith.VectorRules
import Tvm.Arith.VectorRulesSound
import Tvm.Cascader.Pareto
import Tvm.Cascader.SinglePlans
import Tvm.Cascader.StripeCombinations
import Tvm.Cascader.StripeConfig
import Tvm.Cascader.StripeCounts
import Tvm.Crt.ArrayLength
import Tvm.Crt.ErrorCodes
import Tvm.Crt.FuncRegistry
import Tvm.Crt.JsonReader
import Tvm.Crt.JsonSafety
import Tvm.Crt.ModuleHandles
import Tvm.Crt.PageAllocator
import Tvm.Crt.PageAllocatorArithmetic
import Tvm.Crt.StackAllocator
import Tvm.Hexagon.DescriptorRing
import Tvm.Lib.ArrayHeap
import Tvm.Lib.AssocList
import Tvm.Lib.AxisGroups
import Tvm.Lib.AxisRelations
import Tvm.Lib.Base64
import Tvm.Lib.Chain
import Tvm.Lib.Codec
import Tvm.Lib.Congruence
import Tvm.Lib.Decimal
import Tvm.Lib.DepthFirst
import Tvm.Lib.Division
import Tvm.Lib.Extends
import Tvm.Lib.FaultReader
import Tvm.Lib.Frontier
import Tvm.Lib.Layout
import Tvm.Lib.MachineDivision
import Tvm.Lib.Memory
import Tvm.Lib.Progression
import Tvm.Lib.Ring
import Tvm.Lib.RowOperations
import Tvm.Lib.Tally
import Tvm.Lib.Tiling
import Tvm.MicroRpc.AnyBytes
import Tvm.MicroRpc.BytesNeeded
import Tvm.MicroRpc.ChannelPackets
import Tvm.MicroRpc.ChannelRecv
import Tvm.MicroRpc.ChannelStream
import Tvm.MicroRpc.Consumption
import Tvm.MicroRpc.Damage
import Tvm.MicroRpc.Framer
import Tvm.MicroRpc.Resync
import Tvm.MicroRpc.RoundTrip
import Tvm.MicroRpc.Session
import Tvm.MicroRpc.SessionAgreement
import Tvm.MicroRpc.SessionIntegrity
import Tvm.MicroRpc.SessionNotifications
import Tvm.MicroRpc.SessionReceiver
import Tvm.MicroRpc.TransportChannel
import Tvm.MicroRpc.Unframer
import Tvm.MicroRpc.UnframerRefinement
import Tvm.MicroRpc.WireParser
import Tvm.MicroRpc.WriteStream
import Tvm.MinRpc.PackedSeq
import Tvm.MinRpc.PackedSeqRoundTrip
import Tvm.MinRpc.Reference
import Tvm.MinRpc.RemoteCopy
import Tvm.MinRpc.RemoteCopyExact
import Tvm.Pipeline.DroppedInput
import Tvm.Pipeline.Executor
import Tvm.Pipeline.ExecutorAgreement
import Tvm.Pipeline.ExecutorCaller
import Tvm.Pipeline.ExecutorInvariant
import Tvm.Pipeline.ExecutorThreads
import Tvm.Pipeline.Initialization
import Tvm.Pipeline.SpscQueue
import Tvm.Pipeline.Wiring
import Tvm.Relay.FuseOps
import Tvm.Relay.PostDominator
import Tvm.Relay.PostDominatorExact
import Tvm.Rpc.Endpoint
import Tvm.Rpc.EndpointAgreement
import Tvm.Rpc.EndpointChunks
import Tvm.Rpc.Tracker
import Tvm.Rpc.TrackerFraming
import Tvm.Rpc.TrackerSafety
import Tvm.Runtime.ParallelLaunch
import Tvm.Runtime.ParallelLauncher
import Tvm.Runtime.TaskQueue
import Tvm.Runtime.WorkspacePool
import Tvm.Support.Base64
import Tvm.Support.Base64Reading
import Tvm.Support.Base64RoundTrip
import Tvm.Support.GenericArena
import Tvm.Support.GenericArenaSafety
import Tvm.Support.RingBuffer
import Tvm.Support.RingBufferQueue
import Tvm.Support.RingBufferRuns
import Tvm.Te.Domains
import Tvm.Te.IndexValues
import Tvm.Te.MessagePassing
import Tvm.Te.PassDownIndex
import Tvm.Te.PassUpDomain
import Tvm.Te.ScheduleExact
import Tvm.Tir.ElemOffset
import Tvm.Tir.LowerIntrin
import Tvm.Tir.MergeMulMod
import Tvm.Tir.MutateTileSize
import Tvm.Tir.PrimeTable
import Tvm.Tir.SampleTile
import Tvm.Tir.Trace
import Tvm.Tir.TraceReplay
import Tvm.Tir.TraceSimplified
import Tvm.Usmp.Alignment
import Tvm.Usmp.Greedy
import Tvm.Usmp.HillClimb
import Tvm.Usmp.HillClimbBest
import Tvm.Usmp.HillClimbSafety
import Tvm.Vm.Bytecode
import Tvm.Vm.CodeRoundTrip
import Tvm.Vm.Executable
import Tvm.Vm.InstructionCopy
import Tvm.Vm.InstructionCopyFaithful
import Tvm.Vm.Loader
import Tvm.Vm.LoaderRobust
import Tvm.Vm.NDArray
import Tvm.Vm.PooledAllocator
import Tvm.Vm.PooledAllocatorAccounting
