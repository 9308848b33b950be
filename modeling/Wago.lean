import Wago.Lib.Leb128
import Wago.Lib.Run
import Wago.Lib.Sha256
import Wago.Wasm.Reader
import Wago.Wasm.ReaderExport
import Wago.Wasm.Leb
import Wago.Wasm.Types
import Wago.Wasm.TypeDecode
import Wago.Wasm.TypeIndex
import Wago.Wasm.ClosedTypes
import Wago.Wasm.StructuralKey
import Wago.Wasm.TypeEquiv
import Wago.Wasm.Subtype
import Wago.Wasm.TypeSection
import Wago.Wasm.TypeScope
import Wago.Wasm.TypeEquivSpec
import Wago.Wasm.StructuralKeySpec
import Wago.Wasm.Ancestry
import Wago.Wasm.SubtypeSpec
import Wago.Lib.Adjacency
import Wago.Wasm.FunctionSubtypes
import Wago.Lib.Lockstep
import Wago.Lib.Program
import Wago.Wasm.InstrKind
import Wago.Wasm.Instr
import Wago.Wasm.InstrDecode
import Wago.Wasm.BytecodeWalk
import Wago.Wasm.ReadLockstep
import Wago.Wasm.BytecodeWalkSpec
import Wago.Wasm.InstrDecodeSpec
import Wago.Wasm.Module
import Wago.Wasm.Effects
import Wago.Wasm.Validator
import Wago.Wasm.StepProposal
import Wago.Wasm.Step
import Wago.Wasm.ElemCheck
import Wago.Wasm.Facts
import Wago.Wasm.ValidateFunc
import Wago.Wasm.DirectRounds
import Wago.Wasm.LocalIndex
import Wago.Wasm.LocalRuns
import Wago.Lib.BitRun
import Wago.Railshot.MemoryMinBounds
import Wago.Railshot.StraightLine
import Wago.Railshot.StraightLineSpec
import Wago.Lib.Bitmap
import Wago.Lib.CodeImage
import Wago.Lib.DList
import Wago.Lib.Tiling
import Wago.Gc.TinyHeap
import Wago.Gc.TinyHeapIndex
import Wago.Gc.TinyHeapSpec
import Wago.Gc.TinyHeapRun
import Wago.Lib.Avl
import Wago.Gc.SpanArena
import Wago.Gc.SpanArenaSpec
import Wago.Lib.Extents
import Wago.Gc.ThroughputHeap
import Wago.Gc.ThroughputIndex
import Wago.Gc.ThroughputSteps
import Wago.Gc.ThroughputRun
import Wago.Gc.ThroughputBatch
import Wago.Lib.ParallelMove
import Wago.Railshot.RegCopy
import Wago.Lib.Reciprocal
import Wago.Railshot.MagicNum
import Wago.Railshot.MagicDiv
import Wago.Lib.Interleave
import Wago.Runtime.InvocationGate
import Wago.Runtime.InvocationGateSpec
import Wago.Runtime.MemoryWait
import Wago.Runtime.MemoryWaitSpec
import Wago.Runtime.MemoryWaitRun
import Wago.Runtime.InstanceLifecycle
import Wago.Runtime.InstanceLifecycleSpec
import Wago.Runtime.InstanceLifecycleRun
import Wago.Runtime.TypeDescriptor
import Wago.Runtime.TypeDescriptorSpec
import Wago.Runtime.DescriptorSubtype
import Wago.Railshot.BoundsCert
import Wago.Lib.Rv64
import Wago.Encoder.Riscv64
import Wago.Encoder.Riscv64Spec
import Wago.Lib.A64
import Wago.Encoder.Arm64
import Wago.Encoder.Arm64Branch
import Wago.Encoder.Arm64Logical
import Wago.Encoder.Arm64Const
import Wago.Lib.MustFlow
import Wago.Lib.Ring
import Wago.Lib.Metered
import Wago.RegallocCheck.FlowImage
import Wago.RegallocCheck.Verify
import Wago.RegallocCheck.FlowImageSpec
import Wago.RegallocCheck.Provenance
import Wago.RegallocCheck.TransferSpec
import Wago.RegallocCheck.VerifySpec
import Wago.Lib.AssocMap
import Wago.Runtime.ReferenceStore
import Wago.Runtime.ReferenceStoreSteps
import Wago.Runtime.StoreKeys
