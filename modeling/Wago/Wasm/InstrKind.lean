/-
The instruction kinds of the frontend (`types.go`) with the names they print, and the opcode tables
of `instruction_decode.go` and `prefix_decode.go`. The kinds are declared in the source's order,
since the validator's tables are filled by ranges of it.
-/
import Wago.Wasm.Reader

namespace Wago.Wasm

inductive InstrKind
  | invalid | unreachable | nop | block | loop | if_ | throw | throwRef | br | brIf | brTable
  | return_ | call | callIndirect | returnCall | returnCallIndirect | callRef | returnCallRef
  | drop | select | tryTable | localGet | localSet | localTee | globalGet | globalSet | tableGet
  | tableSet | i32Load | i64Load | f32Load | f64Load | i32Load8S | i32Load8U | i32Load16S
  | i32Load16U | i64Load8S | i64Load8U | i64Load16S | i64Load16U | i64Load32S | i64Load32U
  | i32Store | i64Store | f32Store | f64Store | i32Store8 | i32Store16 | i64Store8 | i64Store16
  | i64Store32 | memorySize | memoryGrow | memoryAtomicNotify | memoryAtomicWait32
  | memoryAtomicWait64 | atomicFence | i32AtomicLoad | i64AtomicLoad | i32AtomicLoad8U
  | i32AtomicLoad16U | i64AtomicLoad8U | i64AtomicLoad16U | i64AtomicLoad32U | i32AtomicStore
  | i64AtomicStore | i32AtomicStore8 | i32AtomicStore16 | i64AtomicStore8 | i64AtomicStore16
  | i64AtomicStore32 | atomicRmw | atomicCmpxchg | i32Const | i64Const | f32Const | f64Const
  | i32Eqz | i32Eq | i32Ne | i32LtS | i32LtU | i32GtS | i32GtU | i32LeS | i32LeU | i32GeS | i32GeU
  | i64Eqz | i64Eq | i64Ne | i64LtS | i64LtU | i64GtS | i64GtU | i64LeS | i64LeU | i64GeS | i64GeU
  | f32Eq | f32Ne | f32Lt | f32Gt | f32Le | f32Ge | f64Eq | f64Ne | f64Lt | f64Gt | f64Le | f64Ge
  | i32Clz | i32Ctz | i32Popcnt | i32Add | i32Sub | i32Mul | i32DivS | i32DivU | i32RemS | i32RemU
  | i32And | i32Or | i32Xor | i32Shl | i32ShrS | i32ShrU | i32Rotl | i32Rotr | i64Clz | i64Ctz
  | i64Popcnt | i64Add | i64Sub | i64Mul | i64DivS | i64DivU | i64RemS | i64RemU | i64And | i64Or
  | i64Xor | i64Shl | i64ShrS | i64ShrU | i64Rotl | i64Rotr | f32Abs | f32Neg | f32Ceil | f32Floor
  | f32Trunc | f32Nearest | f32Sqrt | f32Add | f32Sub | f32Mul | f32Div | f32Min | f32Max
  | f32Copysign | f64Abs | f64Neg | f64Ceil | f64Floor | f64Trunc | f64Nearest | f64Sqrt | f64Add
  | f64Sub | f64Mul | f64Div | f64Min | f64Max | f64Copysign | i32WrapI64 | i32TruncF32S
  | i32TruncF32U | i32TruncF64S | i32TruncF64U | i64ExtendI32S | i64ExtendI32U | i64TruncF32S
  | i64TruncF32U | i64TruncF64S | i64TruncF64U | f32ConvertI32S | f32ConvertI32U | f32ConvertI64S
  | f32ConvertI64U | f32DemoteF64 | f64ConvertI32S | f64ConvertI32U | f64ConvertI64S
  | f64ConvertI64U | f64PromoteF32 | i32ReinterpretF32 | i64ReinterpretF64 | f32ReinterpretI32
  | f64ReinterpretI64 | i32Extend8S | i32Extend16S | i64Extend8S | i64Extend16S | i64Extend32S
  | refNull | refIsNull | refFunc | refEq | refAsNonNull | stringConst | brOnNull | brOnNonNull
  | stringNewUtf8Array | stringNewWtf16Array | stringEncodeUtf8Array | stringEncodeWtf16Array
  | stringNewLossyUtf8Array | stringNewWtf8Array | stringEncodeLossyUtf8Array
  | stringEncodeWtf8Array | structNew | structNewDefault | structNewDesc | structNewDefaultDesc
  | structGet | structGetS | structGetU | structAtomicGet | structAtomicGetS | structAtomicGetU
  | structSet | arrayNew | arrayNewDefault | arrayNewFixed | arrayNewData | arrayNewElem | arrayGet
  | arrayGetS | arrayGetU | arraySet | arrayLen | arrayFill | arrayCopy | arrayInitData
  | arrayInitElem | refGetDesc | refTest | refCast | refTestDesc | refCastDescEq | brOnCast
  | brOnCastFail | anyConvertExtern | externConvertAny | refI31 | i31GetS | i31GetU
  | i32TruncSatF32S | i32TruncSatF32U | i32TruncSatF64S | i32TruncSatF64U | i64TruncSatF32S
  | i64TruncSatF32U | i64TruncSatF64S | i64TruncSatF64U | memoryInit | dataDrop | memoryCopy
  | memoryFill | tableInit | elemDrop | tableCopy | tableGrow | tableSize | tableFill | v128Load
  | v128Load8x8S | v128Load8x8U | v128Load16x4S | v128Load16x4U | v128Load32x2S | v128Load32x2U
  | v128Load8Splat | v128Load16Splat | v128Load32Splat | v128Load64Splat | v128Store | v128Const
  | byte | i8x16Shuffle | laneIdx | i8x16Swizzle | i8x16Splat | i16x8Splat | i32x4Splat
  | i64x2Splat | f32x4Splat | f64x2Splat | i8x16ExtractLaneS | i8x16ExtractLaneU | i8x16ReplaceLane
  | i16x8ExtractLaneS | i16x8ExtractLaneU | i16x8ReplaceLane | i32x4ExtractLane | i32x4ReplaceLane
  | i64x2ExtractLane | i64x2ReplaceLane | f32x4ExtractLane | f32x4ReplaceLane | f64x2ExtractLane
  | f64x2ReplaceLane | i8x16Eq | i8x16Ne | i8x16LtS | i8x16LtU | i8x16GtS | i8x16GtU | i8x16LeS
  | i8x16LeU | i8x16GeS | i8x16GeU | i16x8Eq | i16x8Ne | i16x8LtS | i16x8LtU | i16x8GtS | i16x8GtU
  | i16x8LeS | i16x8LeU | i16x8GeS | i16x8GeU | i32x4Eq | i32x4Ne | i32x4LtS | i32x4LtU | i32x4GtS
  | i32x4GtU | i32x4LeS | i32x4LeU | i32x4GeS | i32x4GeU | f32x4Eq | f32x4Ne | f32x4Lt | f32x4Gt
  | f32x4Le | f32x4Ge | f64x2Eq | f64x2Ne | f64x2Lt | f64x2Gt | f64x2Le | f64x2Ge | v128Not
  | v128And | v128Andnot | v128Or | v128Xor | v128Bitselect | v128AnyTrue | v128Load8Lane
  | v128Load16Lane | v128Load32Lane | v128Load64Lane | v128Store8Lane | v128Store16Lane
  | v128Store32Lane | v128Store64Lane | v128Load32Zero | v128Load64Zero | f32x4DemoteF64x2Zero
  | f64x2PromoteLowF32x4 | i8x16Abs | i8x16Neg | i8x16Popcnt | i8x16AllTrue | i8x16Bitmask
  | i8x16NarrowI16x8S | i8x16NarrowI16x8U | f32x4Ceil | f32x4Floor | f32x4Trunc | f32x4Nearest
  | i8x16Shl | i8x16ShrS | i8x16ShrU | i8x16Add | i8x16AddSatS | i8x16AddSatU | i8x16Sub
  | i8x16SubSatS | i8x16SubSatU | f64x2Ceil | f64x2Floor | i8x16MinS | i8x16MinU | i8x16MaxS
  | i8x16MaxU | f64x2Trunc | i8x16AvgrU | i16x8ExtaddPairwiseI8x16S | i16x8ExtaddPairwiseI8x16U
  | i32x4ExtaddPairwiseI16x8S | i32x4ExtaddPairwiseI16x8U | i16x8Abs | i16x8Neg | i16x8Q15mulrSatS
  | i16x8AllTrue | i16x8Bitmask | i16x8NarrowI32x4S | i16x8NarrowI32x4U | i16x8ExtendLowI8x16S
  | i16x8ExtendHighI8x16S | i16x8ExtendLowI8x16U | i16x8ExtendHighI8x16U | i16x8Shl | i16x8ShrS
  | i16x8ShrU | i16x8Add | i16x8AddSatS | i16x8AddSatU | i16x8Sub | i16x8SubSatS | i16x8SubSatU
  | f64x2Nearest | i16x8Mul | i16x8MinS | i16x8MinU | i16x8MaxS | i16x8MaxU | i16x8AvgrU
  | i16x8ExtmulLowI8x16S | i16x8ExtmulHighI8x16S | i16x8ExtmulLowI8x16U | i16x8ExtmulHighI8x16U
  | i32x4Abs | i32x4Neg | i32x4AllTrue | i32x4Bitmask | i32x4ExtendLowI16x8S
  | i32x4ExtendHighI16x8S | i32x4ExtendLowI16x8U | i32x4ExtendHighI16x8U | i32x4Shl | i32x4ShrS
  | i32x4ShrU | i32x4Add | i32x4Sub | i32x4Mul | i32x4MinS | i32x4MinU | i32x4MaxS | i32x4MaxU
  | i32x4DotI16x8S | i32x4ExtmulLowI16x8S | i32x4ExtmulHighI16x8S | i32x4ExtmulLowI16x8U
  | i32x4ExtmulHighI16x8U | i64x2Abs | i64x2Neg | i64x2AllTrue | i64x2Bitmask
  | i64x2ExtendLowI32x4S | i64x2ExtendHighI32x4S | i64x2ExtendLowI32x4U | i64x2ExtendHighI32x4U
  | i64x2Shl | i64x2ShrS | i64x2ShrU | i64x2Add | i64x2Sub | i64x2Mul | i64x2Eq | i64x2Ne
  | i64x2LtS | i64x2GtS | i64x2LeS | i64x2GeS | i64x2ExtmulLowI32x4S | i64x2ExtmulHighI32x4S
  | i64x2ExtmulLowI32x4U | i64x2ExtmulHighI32x4U | f32x4Abs | f32x4Neg | f32x4Sqrt | f32x4Add
  | f32x4Sub | f32x4Mul | f32x4Div | f32x4Min | f32x4Max | f32x4Pmin | f32x4Pmax | f64x2Abs
  | f64x2Neg | f64x2Sqrt | f64x2Add | f64x2Sub | f64x2Mul | f64x2Div | f64x2Min | f64x2Max
  | f64x2Pmin | f64x2Pmax | i32x4TruncSatF32x4S | i32x4TruncSatF32x4U | f32x4ConvertI32x4S
  | f32x4ConvertI32x4U | i32x4TruncSatF64x2SZero | i32x4TruncSatF64x2UZero | f64x2ConvertLowI32x4S
  | f64x2ConvertLowI32x4U | i8x16RelaxedSwizzle | i32x4RelaxedTruncF32x4S | i32x4RelaxedTruncF32x4U
  | i32x4RelaxedTruncZeroF64x2S | i32x4RelaxedTruncZeroF64x2U | f32x4RelaxedMadd
  | f32x4RelaxedNmadd | f64x2RelaxedMadd | f64x2RelaxedNmadd | i8x16RelaxedLaneselect
  | i16x8RelaxedLaneselect | i32x4RelaxedLaneselect | i64x2RelaxedLaneselect | f32x4RelaxedMin
  | f32x4RelaxedMax | f64x2RelaxedMin | f64x2RelaxedMax | i16x8RelaxedQ15mulrS
  | i16x8RelaxedDotI8x16I7x16S | i32x4RelaxedDotI8x16I7x16AddS | i64Add128 | i64Sub128
  | i64MulWideS | i64MulWideU
  deriving DecidableEq

/-! ## Names -/

/-- The names in declaration order, cut out of one blob in the source. -/
def instrKindNames : List String :=
  ["Invalid", "Unreachable", "Nop", "Block", "Loop", "If", "Throw", "ThrowRef", "Br", "BrIf",
  "BrTable", "Return", "Call", "CallIndirect", "ReturnCall", "ReturnCallIndirect", "CallRef",
  "ReturnCallRef", "Drop", "Select", "TryTable", "LocalGet", "LocalSet", "LocalTee", "GlobalGet",
  "GlobalSet", "TableGet", "TableSet", "I32Load", "I64Load", "F32Load", "F64Load", "I32Load8S",
  "I32Load8U", "I32Load16S", "I32Load16U", "I64Load8S", "I64Load8U", "I64Load16S", "I64Load16U",
  "I64Load32S", "I64Load32U", "I32Store", "I64Store", "F32Store", "F64Store", "I32Store8",
  "I32Store16", "I64Store8", "I64Store16", "I64Store32", "MemorySize", "MemoryGrow",
  "MemoryAtomicNotify", "MemoryAtomicWait32", "MemoryAtomicWait64", "AtomicFence", "I32AtomicLoad",
  "I64AtomicLoad", "I32AtomicLoad8U", "I32AtomicLoad16U", "I64AtomicLoad8U", "I64AtomicLoad16U",
  "I64AtomicLoad32U", "I32AtomicStore", "I64AtomicStore", "I32AtomicStore8", "I32AtomicStore16",
  "I64AtomicStore8", "I64AtomicStore16", "I64AtomicStore32", "AtomicRmw", "AtomicCmpxchg",
  "I32Const", "I64Const", "F32Const", "F64Const", "I32Eqz", "I32Eq", "I32Ne", "I32LtS", "I32LtU",
  "I32GtS", "I32GtU", "I32LeS", "I32LeU", "I32GeS", "I32GeU", "I64Eqz", "I64Eq", "I64Ne", "I64LtS",
  "I64LtU", "I64GtS", "I64GtU", "I64LeS", "I64LeU", "I64GeS", "I64GeU", "F32Eq", "F32Ne", "F32Lt",
  "F32Gt", "F32Le", "F32Ge", "F64Eq", "F64Ne", "F64Lt", "F64Gt", "F64Le", "F64Ge", "I32Clz",
  "I32Ctz", "I32Popcnt", "I32Add", "I32Sub", "I32Mul", "I32DivS", "I32DivU", "I32RemS", "I32RemU",
  "I32And", "I32Or", "I32Xor", "I32Shl", "I32ShrS", "I32ShrU", "I32Rotl", "I32Rotr", "I64Clz",
  "I64Ctz", "I64Popcnt", "I64Add", "I64Sub", "I64Mul", "I64DivS", "I64DivU", "I64RemS", "I64RemU",
  "I64And", "I64Or", "I64Xor", "I64Shl", "I64ShrS", "I64ShrU", "I64Rotl", "I64Rotr", "F32Abs",
  "F32Neg", "F32Ceil", "F32Floor", "F32Trunc", "F32Nearest", "F32Sqrt", "F32Add", "F32Sub",
  "F32Mul", "F32Div", "F32Min", "F32Max", "F32Copysign", "F64Abs", "F64Neg", "F64Ceil", "F64Floor",
  "F64Trunc", "F64Nearest", "F64Sqrt", "F64Add", "F64Sub", "F64Mul", "F64Div", "F64Min", "F64Max",
  "F64Copysign", "I32WrapI64", "I32TruncF32S", "I32TruncF32U", "I32TruncF64S", "I32TruncF64U",
  "I64ExtendI32S", "I64ExtendI32U", "I64TruncF32S", "I64TruncF32U", "I64TruncF64S", "I64TruncF64U",
  "F32ConvertI32S", "F32ConvertI32U", "F32ConvertI64S", "F32ConvertI64U", "F32DemoteF64",
  "F64ConvertI32S", "F64ConvertI32U", "F64ConvertI64S", "F64ConvertI64U", "F64PromoteF32",
  "I32ReinterpretF32", "I64ReinterpretF64", "F32ReinterpretI32", "F64ReinterpretI64",
  "I32Extend8S", "I32Extend16S", "I64Extend8S", "I64Extend16S", "I64Extend32S", "RefNull",
  "RefIsNull", "RefFunc", "RefEq", "RefAsNonNull", "StringConst", "BrOnNull", "BrOnNonNull",
  "StringNewUtf8Array", "StringNewWtf16Array", "StringEncodeUtf8Array", "StringEncodeWtf16Array",
  "StringNewLossyUtf8Array", "StringNewWtf8Array", "StringEncodeLossyUtf8Array",
  "StringEncodeWtf8Array", "StructNew", "StructNewDefault", "StructNewDesc",
  "StructNewDefaultDesc", "StructGet", "StructGetS", "StructGetU", "StructAtomicGet",
  "StructAtomicGetS", "StructAtomicGetU", "StructSet", "ArrayNew", "ArrayNewDefault",
  "ArrayNewFixed", "ArrayNewData", "ArrayNewElem", "ArrayGet", "ArrayGetS", "ArrayGetU",
  "ArraySet", "ArrayLen", "ArrayFill", "ArrayCopy", "ArrayInitData", "ArrayInitElem", "RefGetDesc",
  "RefTest", "RefCast", "RefTestDesc", "RefCastDescEq", "BrOnCast", "BrOnCastFail",
  "AnyConvertExtern", "ExternConvertAny", "RefI31", "I31GetS", "I31GetU", "I32TruncSatF32S",
  "I32TruncSatF32U", "I32TruncSatF64S", "I32TruncSatF64U", "I64TruncSatF32S", "I64TruncSatF32U",
  "I64TruncSatF64S", "I64TruncSatF64U", "MemoryInit", "DataDrop", "MemoryCopy", "MemoryFill",
  "TableInit", "ElemDrop", "TableCopy", "TableGrow", "TableSize", "TableFill", "V128Load",
  "V128Load8x8S", "V128Load8x8U", "V128Load16x4S", "V128Load16x4U", "V128Load32x2S",
  "V128Load32x2U", "V128Load8Splat", "V128Load16Splat", "V128Load32Splat", "V128Load64Splat",
  "V128Store", "V128Const", "Byte", "I8x16Shuffle", "LaneIdx", "I8x16Swizzle", "I8x16Splat",
  "I16x8Splat", "I32x4Splat", "I64x2Splat", "F32x4Splat", "F64x2Splat", "I8x16ExtractLaneS",
  "I8x16ExtractLaneU", "I8x16ReplaceLane", "I16x8ExtractLaneS", "I16x8ExtractLaneU",
  "I16x8ReplaceLane", "I32x4ExtractLane", "I32x4ReplaceLane", "I64x2ExtractLane",
  "I64x2ReplaceLane", "F32x4ExtractLane", "F32x4ReplaceLane", "F64x2ExtractLane",
  "F64x2ReplaceLane", "I8x16Eq", "I8x16Ne", "I8x16LtS", "I8x16LtU", "I8x16GtS", "I8x16GtU",
  "I8x16LeS", "I8x16LeU", "I8x16GeS", "I8x16GeU", "I16x8Eq", "I16x8Ne", "I16x8LtS", "I16x8LtU",
  "I16x8GtS", "I16x8GtU", "I16x8LeS", "I16x8LeU", "I16x8GeS", "I16x8GeU", "I32x4Eq", "I32x4Ne",
  "I32x4LtS", "I32x4LtU", "I32x4GtS", "I32x4GtU", "I32x4LeS", "I32x4LeU", "I32x4GeS", "I32x4GeU",
  "F32x4Eq", "F32x4Ne", "F32x4Lt", "F32x4Gt", "F32x4Le", "F32x4Ge", "F64x2Eq", "F64x2Ne",
  "F64x2Lt", "F64x2Gt", "F64x2Le", "F64x2Ge", "V128Not", "V128And", "V128Andnot", "V128Or",
  "V128Xor", "V128Bitselect", "V128AnyTrue", "V128Load8Lane", "V128Load16Lane", "V128Load32Lane",
  "V128Load64Lane", "V128Store8Lane", "V128Store16Lane", "V128Store32Lane", "V128Store64Lane",
  "V128Load32Zero", "V128Load64Zero", "F32x4DemoteF64x2Zero", "F64x2PromoteLowF32x4", "I8x16Abs",
  "I8x16Neg", "I8x16Popcnt", "I8x16AllTrue", "I8x16Bitmask", "I8x16NarrowI16x8S",
  "I8x16NarrowI16x8U", "F32x4Ceil", "F32x4Floor", "F32x4Trunc", "F32x4Nearest", "I8x16Shl",
  "I8x16ShrS", "I8x16ShrU", "I8x16Add", "I8x16AddSatS", "I8x16AddSatU", "I8x16Sub", "I8x16SubSatS",
  "I8x16SubSatU", "F64x2Ceil", "F64x2Floor", "I8x16MinS", "I8x16MinU", "I8x16MaxS", "I8x16MaxU",
  "F64x2Trunc", "I8x16AvgrU", "I16x8ExtaddPairwiseI8x16S", "I16x8ExtaddPairwiseI8x16U",
  "I32x4ExtaddPairwiseI16x8S", "I32x4ExtaddPairwiseI16x8U", "I16x8Abs", "I16x8Neg",
  "I16x8Q15mulrSatS", "I16x8AllTrue", "I16x8Bitmask", "I16x8NarrowI32x4S", "I16x8NarrowI32x4U",
  "I16x8ExtendLowI8x16S", "I16x8ExtendHighI8x16S", "I16x8ExtendLowI8x16U", "I16x8ExtendHighI8x16U",
  "I16x8Shl", "I16x8ShrS", "I16x8ShrU", "I16x8Add", "I16x8AddSatS", "I16x8AddSatU", "I16x8Sub",
  "I16x8SubSatS", "I16x8SubSatU", "F64x2Nearest", "I16x8Mul", "I16x8MinS", "I16x8MinU",
  "I16x8MaxS", "I16x8MaxU", "I16x8AvgrU", "I16x8ExtmulLowI8x16S", "I16x8ExtmulHighI8x16S",
  "I16x8ExtmulLowI8x16U", "I16x8ExtmulHighI8x16U", "I32x4Abs", "I32x4Neg", "I32x4AllTrue",
  "I32x4Bitmask", "I32x4ExtendLowI16x8S", "I32x4ExtendHighI16x8S", "I32x4ExtendLowI16x8U",
  "I32x4ExtendHighI16x8U", "I32x4Shl", "I32x4ShrS", "I32x4ShrU", "I32x4Add", "I32x4Sub",
  "I32x4Mul", "I32x4MinS", "I32x4MinU", "I32x4MaxS", "I32x4MaxU", "I32x4DotI16x8S",
  "I32x4ExtmulLowI16x8S", "I32x4ExtmulHighI16x8S", "I32x4ExtmulLowI16x8U", "I32x4ExtmulHighI16x8U",
  "I64x2Abs", "I64x2Neg", "I64x2AllTrue", "I64x2Bitmask", "I64x2ExtendLowI32x4S",
  "I64x2ExtendHighI32x4S", "I64x2ExtendLowI32x4U", "I64x2ExtendHighI32x4U", "I64x2Shl",
  "I64x2ShrS", "I64x2ShrU", "I64x2Add", "I64x2Sub", "I64x2Mul", "I64x2Eq", "I64x2Ne", "I64x2LtS",
  "I64x2GtS", "I64x2LeS", "I64x2GeS", "I64x2ExtmulLowI32x4S", "I64x2ExtmulHighI32x4S",
  "I64x2ExtmulLowI32x4U", "I64x2ExtmulHighI32x4U", "F32x4Abs", "F32x4Neg", "F32x4Sqrt", "F32x4Add",
  "F32x4Sub", "F32x4Mul", "F32x4Div", "F32x4Min", "F32x4Max", "F32x4Pmin", "F32x4Pmax", "F64x2Abs",
  "F64x2Neg", "F64x2Sqrt", "F64x2Add", "F64x2Sub", "F64x2Mul", "F64x2Div", "F64x2Min", "F64x2Max",
  "F64x2Pmin", "F64x2Pmax", "I32x4TruncSatF32x4S", "I32x4TruncSatF32x4U", "F32x4ConvertI32x4S",
  "F32x4ConvertI32x4U", "I32x4TruncSatF64x2SZero", "I32x4TruncSatF64x2UZero",
  "F64x2ConvertLowI32x4S", "F64x2ConvertLowI32x4U", "I8x16RelaxedSwizzle",
  "I32x4RelaxedTruncF32x4S", "I32x4RelaxedTruncF32x4U", "I32x4RelaxedTruncZeroF64x2S",
  "I32x4RelaxedTruncZeroF64x2U", "F32x4RelaxedMadd", "F32x4RelaxedNmadd", "F64x2RelaxedMadd",
  "F64x2RelaxedNmadd", "I8x16RelaxedLaneselect", "I16x8RelaxedLaneselect",
  "I32x4RelaxedLaneselect", "I64x2RelaxedLaneselect", "F32x4RelaxedMin", "F32x4RelaxedMax",
  "F64x2RelaxedMin", "F64x2RelaxedMax", "I16x8RelaxedQ15mulrS", "I16x8RelaxedDotI8x16I7x16S",
  "I32x4RelaxedDotI8x16I7x16AddS", "I64Add128", "I64Sub128", "I64MulWideS", "I64MulWideU"]

def InstrKind.string (k : InstrKind) : String := instrKindNames.getD k.ctorIdx "Invalid"

/-! ## Opcode tables

A table is a list of runs: the first opcode of the run, and the kinds from there on. -/

/-- `InstrInvalid` where the table has no entry. -/
def lookupRuns : List (Nat × List InstrKind) → Nat → InstrKind
  | [], _ => .invalid
  | (first, kinds) :: runs, op =>
    if first ≤ op ∧ op < first + kinds.length then kinds.getD (op - first) .invalid
    else lookupRuns runs op

def lookupPrefixKind (table : List (Nat × List InstrKind)) (sub : Nat) : Option InstrKind :=
  let kind := lookupRuns table sub
  if kind = .invalid then none else some kind

/-- Opcodes without immediates. -/
def simpleOpcode : List (Nat × List InstrKind) :=
  [(0x00, [.unreachable, .nop]), (0x0a, [.throwRef]), (0x0f, [.return_]), (0x1a, [.drop, .select]),
   (0x45, [
      .i32Eqz, .i32Eq, .i32Ne, .i32LtS, .i32LtU, .i32GtS, .i32GtU, .i32LeS, .i32LeU, .i32GeS,
      .i32GeU, .i64Eqz, .i64Eq, .i64Ne, .i64LtS, .i64LtU, .i64GtS, .i64GtU, .i64LeS, .i64LeU,
      .i64GeS, .i64GeU, .f32Eq, .f32Ne, .f32Lt, .f32Gt, .f32Le, .f32Ge, .f64Eq, .f64Ne, .f64Lt,
      .f64Gt, .f64Le, .f64Ge, .i32Clz, .i32Ctz, .i32Popcnt, .i32Add, .i32Sub, .i32Mul, .i32DivS,
      .i32DivU, .i32RemS, .i32RemU, .i32And, .i32Or, .i32Xor, .i32Shl, .i32ShrS, .i32ShrU,
      .i32Rotl, .i32Rotr, .i64Clz, .i64Ctz, .i64Popcnt, .i64Add, .i64Sub, .i64Mul, .i64DivS,
      .i64DivU, .i64RemS, .i64RemU, .i64And, .i64Or, .i64Xor, .i64Shl, .i64ShrS, .i64ShrU,
      .i64Rotl, .i64Rotr, .f32Abs, .f32Neg, .f32Ceil, .f32Floor, .f32Trunc, .f32Nearest, .f32Sqrt,
      .f32Add, .f32Sub, .f32Mul, .f32Div, .f32Min, .f32Max, .f32Copysign, .f64Abs, .f64Neg,
      .f64Ceil, .f64Floor, .f64Trunc, .f64Nearest, .f64Sqrt, .f64Add, .f64Sub, .f64Mul, .f64Div,
      .f64Min, .f64Max, .f64Copysign, .i32WrapI64, .i32TruncF32S, .i32TruncF32U, .i32TruncF64S,
      .i32TruncF64U, .i64ExtendI32S, .i64ExtendI32U, .i64TruncF32S, .i64TruncF32U, .i64TruncF64S,
      .i64TruncF64U, .f32ConvertI32S, .f32ConvertI32U, .f32ConvertI64S, .f32ConvertI64U,
      .f32DemoteF64, .f64ConvertI32S, .f64ConvertI32U, .f64ConvertI64S, .f64ConvertI64U,
      .f64PromoteF32, .i32ReinterpretF32, .i64ReinterpretF64, .f32ReinterpretI32,
      .f64ReinterpretI64, .i32Extend8S, .i32Extend16S, .i64Extend8S, .i64Extend16S, .i64Extend32S]),
   (0xd1, [.refIsNull])]

def memOpcodeKind : List (Nat × List InstrKind) :=
  [(0x28, [
      .i32Load, .i64Load, .f32Load, .f64Load, .i32Load8S, .i32Load8U, .i32Load16S, .i32Load16U,
      .i64Load8S, .i64Load8U, .i64Load16S, .i64Load16U, .i64Load32S, .i64Load32U, .i32Store,
      .i64Store, .f32Store, .f64Store, .i32Store8, .i32Store16, .i64Store8, .i64Store16,
      .i64Store32])]

def fcNoImm : List (Nat × List InstrKind) :=
  [(0, [
      .i32TruncSatF32S, .i32TruncSatF32U, .i32TruncSatF64S, .i32TruncSatF64U, .i64TruncSatF32S,
      .i64TruncSatF32U, .i64TruncSatF64S, .i64TruncSatF64U]),
   (19, [
      .i64Add128, .i64Sub128, .i64MulWideS, .i64MulWideU])]

def fbNoImm : List (Nat × List InstrKind) :=
  [(15, [.arrayLen]), (26, [
      .anyConvertExtern, .externConvertAny, .refI31, .i31GetS, .i31GetU])]

def feMem : List (Nat × List InstrKind) :=
  [(0x00, [.memoryAtomicNotify, .memoryAtomicWait32, .memoryAtomicWait64]), (0x10, [
      .i32AtomicLoad, .i64AtomicLoad, .i32AtomicLoad8U, .i32AtomicLoad16U, .i64AtomicLoad8U,
      .i64AtomicLoad16U, .i64AtomicLoad32U, .i32AtomicStore, .i64AtomicStore, .i32AtomicStore8,
      .i32AtomicStore16, .i64AtomicStore8, .i64AtomicStore16, .i64AtomicStore32])]

def fdMem : List (Nat × List InstrKind) :=
  [(0, [
      .v128Load, .v128Load8x8S, .v128Load8x8U, .v128Load16x4S, .v128Load16x4U, .v128Load32x2S,
      .v128Load32x2U, .v128Load8Splat, .v128Load16Splat, .v128Load32Splat, .v128Load64Splat,
      .v128Store]),
   (84, [
      .v128Load8Lane, .v128Load16Lane, .v128Load32Lane, .v128Load64Lane, .v128Store8Lane,
      .v128Store16Lane, .v128Store32Lane, .v128Store64Lane, .v128Load32Zero, .v128Load64Zero])]

def fdLane : List (Nat × List InstrKind) :=
  [(21, [
      .i8x16ExtractLaneS, .i8x16ExtractLaneU, .i8x16ReplaceLane, .i16x8ExtractLaneS,
      .i16x8ExtractLaneU, .i16x8ReplaceLane, .i32x4ExtractLane, .i32x4ReplaceLane,
      .i64x2ExtractLane, .i64x2ReplaceLane, .f32x4ExtractLane, .f32x4ReplaceLane,
      .f64x2ExtractLane, .f64x2ReplaceLane])]

def fdNoImm : List (Nat × List InstrKind) :=
  [(14, [
      .i8x16Swizzle, .i8x16Splat, .i16x8Splat, .i32x4Splat, .i64x2Splat, .f32x4Splat, .f64x2Splat]),
   (35, [
      .i8x16Eq, .i8x16Ne, .i8x16LtS, .i8x16LtU, .i8x16GtS, .i8x16GtU, .i8x16LeS, .i8x16LeU,
      .i8x16GeS, .i8x16GeU, .i16x8Eq, .i16x8Ne, .i16x8LtS, .i16x8LtU, .i16x8GtS, .i16x8GtU,
      .i16x8LeS, .i16x8LeU, .i16x8GeS, .i16x8GeU, .i32x4Eq, .i32x4Ne, .i32x4LtS, .i32x4LtU,
      .i32x4GtS, .i32x4GtU, .i32x4LeS, .i32x4LeU, .i32x4GeS, .i32x4GeU, .f32x4Eq, .f32x4Ne,
      .f32x4Lt, .f32x4Gt, .f32x4Le, .f32x4Ge, .f64x2Eq, .f64x2Ne, .f64x2Lt, .f64x2Gt, .f64x2Le,
      .f64x2Ge, .v128Not, .v128And, .v128Andnot, .v128Or, .v128Xor, .v128Bitselect, .v128AnyTrue]),
   (94, [
      .f32x4DemoteF64x2Zero, .f64x2PromoteLowF32x4, .i8x16Abs, .i8x16Neg, .i8x16Popcnt,
      .i8x16AllTrue, .i8x16Bitmask, .i8x16NarrowI16x8S, .i8x16NarrowI16x8U, .f32x4Ceil,
      .f32x4Floor, .f32x4Trunc, .f32x4Nearest, .i8x16Shl, .i8x16ShrS, .i8x16ShrU, .i8x16Add,
      .i8x16AddSatS, .i8x16AddSatU, .i8x16Sub, .i8x16SubSatS, .i8x16SubSatU, .f64x2Ceil,
      .f64x2Floor, .i8x16MinS, .i8x16MinU, .i8x16MaxS, .i8x16MaxU, .f64x2Trunc, .i8x16AvgrU,
      .i16x8ExtaddPairwiseI8x16S, .i16x8ExtaddPairwiseI8x16U, .i32x4ExtaddPairwiseI16x8S,
      .i32x4ExtaddPairwiseI16x8U, .i16x8Abs, .i16x8Neg, .i16x8Q15mulrSatS, .i16x8AllTrue,
      .i16x8Bitmask, .i16x8NarrowI32x4S, .i16x8NarrowI32x4U, .i16x8ExtendLowI8x16S,
      .i16x8ExtendHighI8x16S, .i16x8ExtendLowI8x16U, .i16x8ExtendHighI8x16U, .i16x8Shl, .i16x8ShrS,
      .i16x8ShrU, .i16x8Add, .i16x8AddSatS, .i16x8AddSatU, .i16x8Sub, .i16x8SubSatS, .i16x8SubSatU,
      .f64x2Nearest, .i16x8Mul, .i16x8MinS, .i16x8MinU, .i16x8MaxS, .i16x8MaxU]),
   (155, [
      .i16x8AvgrU, .i16x8ExtmulLowI8x16S, .i16x8ExtmulHighI8x16S, .i16x8ExtmulLowI8x16U,
      .i16x8ExtmulHighI8x16U, .i32x4Abs, .i32x4Neg]),
   (163, [.i32x4AllTrue, .i32x4Bitmask]), (167, [
      .i32x4ExtendLowI16x8S, .i32x4ExtendHighI16x8S, .i32x4ExtendLowI16x8U, .i32x4ExtendHighI16x8U,
      .i32x4Shl, .i32x4ShrS, .i32x4ShrU, .i32x4Add]),
   (177, [.i32x4Sub]), (181, [
      .i32x4Mul, .i32x4MinS, .i32x4MinU, .i32x4MaxS, .i32x4MaxU, .i32x4DotI16x8S]),
   (188, [
      .i32x4ExtmulLowI16x8S, .i32x4ExtmulHighI16x8S, .i32x4ExtmulLowI16x8U, .i32x4ExtmulHighI16x8U,
      .i64x2Abs, .i64x2Neg]),
   (195, [.i64x2AllTrue, .i64x2Bitmask]), (199, [
      .i64x2ExtendLowI32x4S, .i64x2ExtendHighI32x4S, .i64x2ExtendLowI32x4U, .i64x2ExtendHighI32x4U,
      .i64x2Shl, .i64x2ShrS, .i64x2ShrU, .i64x2Add]),
   (209, [.i64x2Sub]), (213, [
      .i64x2Mul, .i64x2Eq, .i64x2Ne, .i64x2LtS, .i64x2GtS, .i64x2LeS, .i64x2GeS,
      .i64x2ExtmulLowI32x4S, .i64x2ExtmulHighI32x4S, .i64x2ExtmulLowI32x4U, .i64x2ExtmulHighI32x4U,
      .f32x4Abs, .f32x4Neg]),
   (227, [
      .f32x4Sqrt, .f32x4Add, .f32x4Sub, .f32x4Mul, .f32x4Div, .f32x4Min, .f32x4Max, .f32x4Pmin,
      .f32x4Pmax, .f64x2Abs, .f64x2Neg]),
   (239, [
      .f64x2Sqrt, .f64x2Add, .f64x2Sub, .f64x2Mul, .f64x2Div, .f64x2Min, .f64x2Max, .f64x2Pmin,
      .f64x2Pmax, .i32x4TruncSatF32x4S, .i32x4TruncSatF32x4U, .f32x4ConvertI32x4S,
      .f32x4ConvertI32x4U, .i32x4TruncSatF64x2SZero, .i32x4TruncSatF64x2UZero,
      .f64x2ConvertLowI32x4S, .f64x2ConvertLowI32x4U, .i8x16RelaxedSwizzle,
      .i32x4RelaxedTruncF32x4S, .i32x4RelaxedTruncF32x4U, .i32x4RelaxedTruncZeroF64x2S,
      .i32x4RelaxedTruncZeroF64x2U, .f32x4RelaxedMadd, .f32x4RelaxedNmadd, .f64x2RelaxedMadd,
      .f64x2RelaxedNmadd, .i8x16RelaxedLaneselect, .i16x8RelaxedLaneselect,
      .i32x4RelaxedLaneselect, .i64x2RelaxedLaneselect, .f32x4RelaxedMin, .f32x4RelaxedMax,
      .f64x2RelaxedMin, .f64x2RelaxedMax, .i16x8RelaxedQ15mulrS, .i16x8RelaxedDotI8x16I7x16S,
      .i32x4RelaxedDotI8x16I7x16AddS])]

end Wago.Wasm
