/-
The facts gathered while a body is validated (`validation_analysis.go`): a fixed set of flags for
each function, and the number of element and data segment states its instructions need.
-/
import Wago.Wasm.StepProposal

namespace Wago.Wasm

/-- `ValidatedFuncFlags`, in the order of their bits. -/
inductive FuncFlag
  | hasControl | hasLoop | hasDirectCall | hasIndirectCall | hasCallRef | hasTailCall |
  touchesMemory | touchesTable | touchesGlobal | usesSIMD | usesThreads | usesBulkMemory |
  usesSignExtension | usesSaturatingTrunc | usesReferenceTypes | usesTypedFunctionReferences |
  usesGC | usesExceptionHandling | usesMemoryGrow | usesTableGrow | usesRefFunc | usesAtomicWait
  | mayAllocate | mayCollect | dynamicReferenceCall | usesNonAtomicMemory |
  needsDetailedRequirements | needsDetailedAdmission | usesMultiValue
  deriving DecidableEq, Repr

/-- A set of flags as its bit mask. -/
def flagMask (flags : List FuncFlag) : Nat := flags.foldl (fun mask f => mask ||| 1 <<< f.ctorIdx) 0

/-- The facts of one function, with the segment counts of `validationSegmentCounts`. -/
structure Facts where
  flags : Nat := 0
  elem : Nat := 0
  data : Nat := 0
  deriving DecidableEq, Repr

def Facts.merge (a b : Facts) : Facts :=
  { flags := a.flags ||| b.flags, elem := max a.elem b.elem, data := max a.data b.data }

/-! ## Flags by kind -/

def kindBetween (first last k : InstrKind) : Bool :=
  first.ctorIdx ≤ k.ctorIdx && k.ctorIdx ≤ last.ctorIdx

/-- Kinds whose admission rules the summary covers completely. -/
def validatedInstructionAdmissionComplete (k : InstrKind) : Bool :=
  kindBetween .i32Const .i64Extend32S k || kindBetween .i32Load .memoryGrow k ||
  kindBetween .i32TruncSatF32S .i64TruncSatF64U k || kindBetween .v128Load .f64x2ConvertLowI32x4U k ||
  k ∈ [.unreachable, .nop, .block, .loop, .if_, .br, .brIf, .brTable, .return_, .call, .callIndirect,
    .drop, .select, .localGet, .localSet, .localTee, .globalGet, .globalSet, .tableGet, .tableSet,
    .memoryInit, .dataDrop, .memoryCopy, .memoryFill, .tableInit, .elemDrop, .tableCopy, .tableGrow,
    .tableSize, .tableFill, .refIsNull, .refFunc, .refEq]

def instructionTouchesMemory (k : InstrKind) : Bool :=
  (match opEffects k with
    | some (.load _ _) => true
    | some (.store _ _) => true
    | _ => false) ||
  k ∈ atomicKinds || k ∈ [.memorySize, .memoryGrow, .memoryInit, .memoryCopy, .memoryFill] ||
  kindBetween .v128Load .v128Store k || kindBetween .v128Load8Lane .v128Load64Zero k

/-- The first switch of `observeSlow`. -/
def controlFlags : InstrKind → List FuncFlag
  | .block | .if_ | .tryTable | .br | .brIf | .brTable | .brOnNull | .brOnNonNull | .brOnCast
  | .brOnCastFail | .return_ | .unreachable => [.hasControl]
  | .loop => [.hasControl, .hasLoop]
  | .call => [.hasDirectCall, .mayCollect]
  | .returnCall => [.hasDirectCall, .hasTailCall, .hasControl, .mayCollect]
  | .callIndirect => [.hasIndirectCall, .touchesTable, .mayCollect]
  | .returnCallIndirect => [.hasIndirectCall, .hasTailCall, .hasControl, .mayCollect]
  | .callRef => [.hasCallRef, .usesReferenceTypes, .usesTypedFunctionReferences,
      .needsDetailedAdmission, .mayCollect]
  | .returnCallRef => [.hasCallRef, .hasTailCall, .hasControl, .usesReferenceTypes,
      .usesTypedFunctionReferences, .needsDetailedAdmission, .mayCollect]
  | .globalGet | .globalSet => [.touchesGlobal]
  | .tableGet | .tableSet | .tableSize | .tableGrow | .tableFill | .tableCopy | .tableInit
  | .elemDrop => [.touchesTable, .usesReferenceTypes]
  | _ => []

/-- The second switch of `observeSlow`. -/
def proposalFlags : InstrKind → List FuncFlag
  | .returnCall | .returnCallIndirect | .returnCallRef => [.needsDetailedAdmission]
  | .memoryInit | .dataDrop | .memoryCopy | .memoryFill | .tableInit | .elemDrop | .tableCopy =>
    [.usesBulkMemory]
  | .i32Extend8S | .i32Extend16S | .i64Extend8S | .i64Extend16S | .i64Extend32S => [.usesSignExtension]
  | .i32TruncSatF32S | .i32TruncSatF32U | .i32TruncSatF64S | .i32TruncSatF64U | .i64TruncSatF32S
  | .i64TruncSatF32U | .i64TruncSatF64S | .i64TruncSatF64U => [.usesSaturatingTrunc]
  | .refNull | .refIsNull | .refFunc | .refEq => [.usesReferenceTypes]
  | .refAsNonNull | .brOnNull | .brOnNonNull =>
    [.usesReferenceTypes, .usesTypedFunctionReferences, .needsDetailedAdmission]
  | .refI31 | .i31GetS | .i31GetU | .refTest | .refCast | .brOnCast | .brOnCastFail
  | .anyConvertExtern | .externConvertAny => [.usesReferenceTypes, .usesGC, .needsDetailedAdmission]
  | .throw | .throwRef | .tryTable => [.usesExceptionHandling, .needsDetailedAdmission]
  | .memoryGrow => [.usesMemoryGrow]
  | .tableGrow => [.usesTableGrow]
  | .memoryAtomicNotify | .memoryAtomicWait32 | .memoryAtomicWait64 => [.usesAtomicWait]
  | _ => []

/-- `observeSlow`, from which the table `validatedFuncFlagsByKind` is filled. -/
def validatedFuncFlags (k : InstrKind) : List FuncFlag :=
  (if validatedInstructionAdmissionComplete k then []
    else [.needsDetailedAdmission, .needsDetailedRequirements]) ++
  controlFlags k ++ proposalFlags k ++
  (if k = .refFunc then [.usesRefFunc] else []) ++
  (if k ∈ atomicKinds then [.usesThreads, .needsDetailedAdmission] else []) ++
  (if kindBetween .v128Load .i32x4RelaxedDotI8x16I7x16AddS k then [.usesSIMD] else []) ++
  (if kindBetween .stringConst .stringEncodeWtf8Array k then
    [.needsDetailedRequirements, .needsDetailedAdmission] else []) ++
  (if kindBetween .structNew .arrayInitElem k || kindBetween .refGetDesc .externConvertAny k then
    [.usesReferenceTypes, .usesGC, .needsDetailedAdmission] else []) ++
  (if instructionTouchesMemory k then
    .touchesMemory :: (if k ∈ atomicKinds then [] else [.usesNonAtomicMemory]) else []) ++
  (if k ∈ [.structNew, .structNewDefault, .arrayNew, .arrayNewDefault, .arrayNewFixed, .arrayNewData,
      .arrayNewElem] then [.mayAllocate, .mayCollect] else [])

def kindFacts (k : InstrKind) : Facts := { flags := flagMask (validatedFuncFlags k) }

/-! ## Facts that depend on the immediates -/

def validatedInstructionNeedsPayload (k : InstrKind) : Bool :=
  k ∈ [.select, .memoryInit, .dataDrop, .tableInit, .elemDrop, .callIndirect, .returnCallIndirect,
    .callRef, .returnCallRef, .refNull, .refTest, .refCast, .brOnCast, .brOnCastFail]

def valTypeFlags : ValType → List FuncFlag
  | .vec => [.usesSIMD]
  | .ref _ => [.usesReferenceTypes, .needsDetailedRequirements, .needsDetailedAdmission]
  | _ => []

def isRefType : ValType → Bool
  | .ref _ => true
  | _ => false

/-- Calls through a type that passes references. -/
def dynamicCallFlags (types : List RecType) (typeIndex : Nat) : List FuncFlag :=
  match funcTypeFromTypeIdx types { index := typeIndex } with
  | some (params, results) =>
    if params.any isRefType || results.any isRefType then [.dynamicReferenceCall] else []
  | none => []

/-- A `uint32` count that stays at its maximum. -/
def segmentStateCount (index : Nat) : Nat := if index = 2 ^ 32 - 1 then index else index + 1

def payloadFacts (types : List RecType) (i : Instr) : Facts :=
  let typed : Facts := { flags := flagMask (i.valTypes.flatMap valTypeFlags) }
  typed.merge <| match i.kind with
    | .memoryInit | .dataDrop => { data := segmentStateCount i.index }
    | .tableInit | .elemDrop => { elem := segmentStateCount i.index }
    | .callIndirect | .returnCallIndirect =>
      { flags := flagMask ((if i.index2 ≠ 0 then [.usesReferenceTypes] else []) ++
          dynamicCallFlags types i.index) }
    | .callRef | .returnCallRef => { flags := flagMask (dynamicCallFlags types i.index) }
    | .refNull | .refTest | .refCast | .brOnCast | .brOnCastFail =>
      { flags := flagMask [.needsDetailedRequirements, .needsDetailedAdmission] }
    | _ => {}

def instrFacts (types : List RecType) (i : Instr) : Facts :=
  if validatedInstructionNeedsPayload i.kind then (kindFacts i.kind).merge (payloadFacts types i)
  else kindFacts i.kind

def blockTypeFlags : BlockType → List FuncFlag
  | .void => []
  | .val t => valTypeFlags t
  | .typeIndex _ => [.usesMultiValue]

/-- What an operation adds to the facts; the delimiters add nothing. -/
def opFacts (types : List RecType) : DirectOp → Facts
  | .instr i => instrFacts types i
  | .block bt => { flags := flagMask (validatedFuncFlags .block ++ blockTypeFlags bt) }
  | .loop bt => { flags := flagMask (validatedFuncFlags .loop ++ blockTypeFlags bt) }
  | .if_ bt => { flags := flagMask (validatedFuncFlags .if_ ++ blockTypeFlags bt) }
  | .tryTable bt _ => { flags := flagMask (validatedFuncFlags .tryTable ++ blockTypeFlags bt) }
  | .else_ => {}
  | .end_ => {}

end Wago.Wasm
