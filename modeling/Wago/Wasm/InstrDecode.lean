/-
The full instruction decoder (`instruction_decode.go`, `prefix_decode.go`) and the decoder of single
operations of the streaming validator (`decodeDirectOp` in `validate_bytebacked.go`). The two switch
over the same opcodes with the same bodies but for structured instructions, delimiters and the
error for an unknown opcode, so the shared cases are written once (`decodePlain`).
-/
import Wago.Wasm.Instr
import Wago.Wasm.TypeDecode

namespace Wago.Wasm

def maxInstructionNestingDepth : Nat := 20000

/-! ## Immediates -/

/-- A failed read reported as `code`, at the position where it stopped. -/
def orFailHere {α : Type} (code : DecodeErrorCode) (x : ReadM α) : ReadM α := fun r =>
  match x.run r with
  | .ok a r' => .ok a r'
  | .error _ r' => .error (.decode { code, offset := r'.pos }) r'

def isValTypeLead (b : UInt8) : Bool :=
  b ∈ [0x7f, 0x7e, 0x7d, 0x7c, 0x7b, 0x63, 0x64, 0x6f, 0x70, 0x6e, 0x6d, 0x6c, 0x6b, 0x6a, 0x69, 0x71,
    0x72, 0x73, 0x74]

def decodeBlockType : ReadM BlockType := do
  match ← peek with
  | none => failHere .invalidBlockType
  | some b =>
    if b = 0x40 then do skipByte; return .void
    else if isValTypeLead b then return .val (← decodeValType)
    else do
      let x ← orFailHere .invalidBlockType s33
      if x < 0 then failHere .invalidBlockType
      else return .typeIndex { index := x.toNat % 2 ^ 32 }

def indexInst (k : InstrKind) : ReadM Instr := return { kind := k, index := ← u32 }

def twoIndexInst (k : InstrKind) : ReadM Instr := do
  let a ← u32
  return { kind := k, index := a, index2 := ← u32 }

def readReservedZeroByte : ReadM Unit := do
  if (← byte) ≠ 0 then failPrev .invalidInstruction else return ()

def reservedZeroInst (k : InstrKind) : ReadM Instr := do
  readReservedZeroByte
  return { kind := k }

/-- The offset width of each memory: a bit set for modules that mix widths, one flag otherwise. -/
structure MemargWidths where
  multiMemory : Bool
  indexed64 : List (BitVec 64)
  fixed64 : Bool
  deriving DecidableEq, Repr

def fixedMemargWidths (addr64 : Bool) : MemargWidths :=
  { multiMemory := true, indexed64 := [], fixed64 := addr64 }

def MemargWidths.offset64 (w : MemargWidths) (memoryIndex : Nat) : Bool :=
  match w.indexed64[memoryIndex >>> 6]? with
  | some word => word.getLsbD (memoryIndex &&& 63)
  | none => w.fixed64

/-- The offset of a memory argument, in the width of the memory it names. -/
def readMemOffset (widths : MemargWidths) (memoryIndex : Nat) : ReadM Nat :=
  if widths.offset64 memoryIndex then u64 else u32

def decodeMemArgWithWidths (widths : MemargWidths) : ReadM MemArg := do
  let n ← u32
  if 64 ≤ n ∧ n < 128 then
    if widths.multiMemory then do
      let mi ← u32
      return { align := n - 64, mem := some mi, offset := ← readMemOffset widths mi }
    else failHere .invalidInstruction
  else if n < 64 then return { align := n, offset := ← readMemOffset widths 0 }
  else failHere .invalidInstruction

def decodeCatch : ReadM Catch := do
  match (← byte).toNat with
  | 0 => do
    let tag ← u32
    return { kind := .tag, tag, label := ← u32 }
  | 1 => do
    let tag ← u32
    return { kind := .ref, tag, label := ← u32 }
  | 2 => return { kind := .all, label := ← u32 }
  | 3 => return { kind := .allRef, label := ← u32 }
  | _ => failPrev .invalidInstruction

/-- `unsafe.Sizeof` of the elements of the instruction vectors. -/
def sizeofUint32 : Nat := 4
def sizeofCatch : Nat := 12

def decodeRefTypeForNull : ReadM RefType := do
  let (exact, ht) ← decodeRefHeapType
  return mkRef true ht exact

/-! ## Prefixed opcodes -/

def readMemoryIndex (multiMemory : Bool) : ReadM Nat :=
  if multiMemory then u32
  else do
    readReservedZeroByte
    return 0

def decodeFCWithMultiMemory (multiMemory : Bool) : ReadM Instr := do
  let sub ← u32
  match lookupPrefixKind fcNoImm sub with
  | some k => return { kind := k }
  | none =>
    match sub with
    | 8 => do
      let a ← u32
      return { kind := .memoryInit, index := a, index2 := ← readMemoryIndex multiMemory }
    | 9 => indexInst .dataDrop
    | 10 => do
      let a ← readMemoryIndex multiMemory
      return { kind := .memoryCopy, index := a, index2 := ← readMemoryIndex multiMemory }
    | 11 => return { kind := .memoryFill, index := ← readMemoryIndex multiMemory }
    | 12 => twoIndexInst .tableInit
    | 13 => indexInst .elemDrop
    | 14 => twoIndexInst .tableCopy
    | 15 => indexInst .tableGrow
    | 16 => indexInst .tableSize
    | 17 => indexInst .tableFill
    | _ => failHere .invalidInstruction

def decodeCastOp : ReadM CastOp := do
  match (← byte).toNat with
  | 0 => return {}
  | 1 => return { sourceNullable := true }
  | 2 => return { targetNullable := true }
  | 3 => return { sourceNullable := true, targetNullable := true }
  | _ => failPrev .invalidInstruction

def refTestInst (targetNullable : Bool) : ReadM Instr := do
  let ht ← decodeHeapType
  return { kind := .refTest, cast := { targetNullable }, ext := .heapType ht }

/-- The exactness of the target travels in `Cast.SourceNullable`. -/
def refCastInst (k : InstrKind) (targetNullable : Bool) : ReadM Instr := do
  let (exact, ht) ← decodeRefHeapType
  return { kind := k, cast := { sourceNullable := exact, targetNullable }, ext := .heapType ht }

def brOnCastInst (k : InstrKind) : ReadM Instr := do
  let cast ← decodeCastOp
  let l ← u32
  let ht₁ ← decodeHeapType
  let ht₂ ← decodeHeapType
  return { kind := k, index := l, cast, ext := .heapTypes ht₁ ht₂ }

def decodeFB : ReadM Instr := do
  let sub ← u32
  match lookupPrefixKind fbNoImm sub with
  | some k => return { kind := k }
  | none =>
    match sub with
    | 0 => indexInst .structNew
    | 1 => indexInst .structNewDefault
    | 32 => indexInst .structNewDesc
    | 33 => indexInst .structNewDefaultDesc
    | 2 => twoIndexInst .structGet
    | 3 => twoIndexInst .structGetS
    | 4 => twoIndexInst .structGetU
    | 5 => twoIndexInst .structSet
    | 6 => indexInst .arrayNew
    | 7 => indexInst .arrayNewDefault
    | 8 => twoIndexInst .arrayNewFixed
    | 9 => twoIndexInst .arrayNewData
    | 10 => twoIndexInst .arrayNewElem
    | 11 => indexInst .arrayGet
    | 12 => indexInst .arrayGetS
    | 13 => indexInst .arrayGetU
    | 14 => indexInst .arraySet
    | 16 => indexInst .arrayFill
    | 17 => twoIndexInst .arrayCopy
    | 18 => twoIndexInst .arrayInitData
    | 19 => twoIndexInst .arrayInitElem
    | 0x82 => indexInst .stringConst
    | 0xb0 => return { kind := .stringNewUtf8Array }
    | 0xb1 => return { kind := .stringNewWtf16Array }
    | 0xb2 => return { kind := .stringEncodeUtf8Array }
    | 0xb3 => return { kind := .stringEncodeWtf16Array }
    | 0xb4 => return { kind := .stringNewLossyUtf8Array }
    | 0xb5 => return { kind := .stringNewWtf8Array }
    | 0xb6 => return { kind := .stringEncodeLossyUtf8Array }
    | 0xb7 => return { kind := .stringEncodeWtf8Array }
    | 20 => refTestInst false
    | 21 => refTestInst true
    | 22 => refCastInst .refCast false
    | 23 => refCastInst .refCast true
    | 24 => brOnCastInst .brOnCast
    | 25 => brOnCastInst .brOnCastFail
    | 34 => indexInst .refGetDesc
    | 35 => refCastInst .refCastDescEq false
    | 36 => refCastInst .refCastDescEq true
    | _ => failHere .invalidInstruction

def decodeAtomicOrder : ReadM AtomicOrder := do
  match (← byte).toNat with
  | 0 => return .seqCst
  | 1 => return .acqRel
  | _ => failPrev .invalidInstruction

def structAtomicGetInst (k : InstrKind) : ReadM Instr := do
  let atomicOrder ← decodeAtomicOrder
  let typeIdx ← u32
  let fieldIdx ← u32
  return { kind := k, atomicOrder, index := typeIdx, index2 := fieldIdx }

def atomicMemInst (widths : MemargWidths) (k : InstrKind) (sub : Nat) : ReadM Instr := do
  let ma ← decodeMemArgWithWidths widths
  return { kind := k, atomicOp := sub, ext := .memArg ma }

def decodeFEWithMemargWidths (widths : MemargWidths) : ReadM Instr := do
  let sub ← u32
  if sub = 0x03 then do
    readReservedZeroByte
    return { kind := .atomicFence }
  else if sub = 0x5c then structAtomicGetInst .structAtomicGet
  else if sub = 0x5d then structAtomicGetInst .structAtomicGetS
  else if sub = 0x5e then structAtomicGetInst .structAtomicGetU
  else match lookupPrefixKind feMem sub with
    | some k => atomicMemInst widths k sub
    | none =>
      if 30 ≤ sub ∧ sub ≤ 71 then atomicMemInst widths .atomicRmw sub
      else if 72 ≤ sub ∧ sub ≤ 78 then atomicMemInst widths .atomicCmpxchg sub
      else failHere .invalidInstruction

/-- Sixteen bytes, read one at a time. -/
def lanesInst (k : InstrKind) : ReadM Instr := do
  let lanes ← readN byte 16
  return { kind := k, ext := .lanes lanes }

def decodeFDWithMemargWidths (widths : MemargWidths) : ReadM Instr := do
  let sub ← u32
  if sub = 12 then lanesInst .v128Const
  else if sub = 13 then lanesInst .i8x16Shuffle
  else match lookupPrefixKind fdNoImm sub with
    | some k => return { kind := k }
    | none =>
      match lookupPrefixKind fdMem sub with
      | some k => do
        let ma ← decodeMemArgWithWidths widths
        -- SIMD lane memory instructions carry a lane immediate after the memarg.
        if 84 ≤ sub ∧ sub ≤ 91 then return { kind := k, ext := .memArg ma, lane := ← byte }
        else return { kind := k, ext := .memArg ma }
      | none =>
        match lookupPrefixKind fdLane sub with
        | some k => return { kind := k, lane := ← byte }
        | none => failHere .invalidInstruction

/-! ## Instructions without nested instructions -/

/-- The cases that `decodeInstructionWithMemargWidths` and `decodeDirectOp` share, after the opcode
byte. `invalid` is the error for any other opcode, at the position of the opcode. -/
def decodePlain (invalid : UInt8 → Nat → DecodeError) (widths : MemargWidths) (op : UInt8) :
    ReadM Instr :=
  match lookupPrefixKind simpleOpcode op.toNat with
  | some k => return { kind := k }
  | none =>
    match op.toNat with
    | 0x08 => indexInst .throw
    | 0x0c => indexInst .br
    | 0x0d => indexInst .brIf
    | 0x0e => do
      let labels ← readVec sizeofUint32 u32
      return { kind := .brTable, index := ← u32, ext := .indices labels }
    | 0x10 => indexInst .call
    | 0x11 => twoIndexInst .callIndirect
    | 0x12 => indexInst .returnCall
    | 0x13 => twoIndexInst .returnCallIndirect
    | 0x14 => indexInst .callRef
    | 0x15 => indexInst .returnCallRef
    | 0x1c => return { kind := .select, ext := .valTypes (← decodeResultType) }
    | 0x20 => indexInst .localGet
    | 0x21 => indexInst .localSet
    | 0x22 => indexInst .localTee
    | 0x23 => indexInst .globalGet
    | 0x24 => indexInst .globalSet
    | 0x25 => indexInst .tableGet
    | 0x26 => indexInst .tableSet
    | 0x3f => if widths.multiMemory then indexInst .memorySize else reservedZeroInst .memorySize
    | 0x40 => if widths.multiMemory then indexInst .memoryGrow else reservedZeroInst .memoryGrow
    | 0x41 => return { kind := .i32Const, i32 := ← i32 }
    | 0x42 => return { kind := .i64Const, i64 := ← i64 }
    | 0x43 => return { kind := .f32Const, f32Bits := ← le32 }
    | 0x44 => return { kind := .f64Const, f64Bits := ← le64 }
    | 0xd0 => return { kind := .refNull, ext := .refType (← decodeRefTypeForNull) }
    | 0xd2 => indexInst .refFunc
    | 0xd3 => return { kind := .refEq }
    | 0xd4 => return { kind := .refAsNonNull }
    | 0xd5 => indexInst .brOnNull
    | 0xd6 => indexInst .brOnNonNull
    | 0xfb => decodeFB
    | 0xfc => decodeFCWithMultiMemory widths.multiMemory
    | 0xfd => decodeFDWithMemargWidths widths
    | 0xfe => decodeFEWithMemargWidths widths
    | _ =>
      if 0x28 ≤ op.toNat ∧ op.toNat ≤ 0x3e then do
        let ma ← decodeMemArgWithWidths widths
        return { kind := lookupRuns memOpcodeKind op.toNat, ext := .memArg ma }
      else do failWith (.decode (invalid op ((← off) - 1)))

/-- One operation after its opcode byte: a structured instruction without its bodies, a delimiter,
or an instruction without nested instructions. -/
def decodeOpAfterOpcode (invalid : UInt8 → Nat → DecodeError) (widths : MemargWidths) (op : UInt8) :
    ReadM DirectOp :=
  match op.toNat with
  | 0x02 => return .block (← decodeBlockType)
  | 0x03 => return .loop (← decodeBlockType)
  | 0x04 => return .if_ (← decodeBlockType)
  | 0x05 => return .else_
  | 0x0b => return .end_
  | 0x1f => do
    let bt ← decodeBlockType
    return .tryTable bt (← readVec sizeofCatch decodeCatch)
  | _ => return .instr (← decodePlain invalid widths op)

def decodeOp (invalid : UInt8 → Nat → DecodeError) (widths : MemargWidths) : ReadM DirectOp := do
  decodeOpAfterOpcode invalid widths (← byte)

/-- `ErrInvalidInstruction` for every unknown opcode. -/
def directInvalid (_ : UInt8) (offset : Nat) : DecodeError := { code := .invalidInstruction, offset }

def decodeDirectOp (widths : MemargWidths) (multiMemory : Bool) : ReadM DirectOp :=
  decodeOp directInvalid { widths with multiMemory }

/-! ## Instruction trees

The recursion of the source is bounded by the bytes left: every instruction takes at least its
opcode. The fuel counts calls; `decodeExprFuel` gives enough of it. -/

/-- The instruction that an operation opens, with the decoders of its bodies. -/
def withBodies (expr : ReadM (List Instruction))
    (ifBodies : ReadM (List Instruction × List Instruction)) : DirectOp → ReadM Instruction
  | .instr i => return .plain i
  | .block bt => return .block bt (← expr)
  | .loop bt => return .loop bt (← expr)
  | .if_ bt => do
    let (thenBody, elseBody) ← ifBodies
    return .if_ bt thenBody elseBody
  | .tryTable bt catches => return .tryTable bt catches (← expr)
  -- A delimiter is no instruction: the error is at its own byte.
  | .else_ | .end_ => failPrev .invalidInstruction

mutual

def decodeInstructionLoop (widths : MemargWidths) : (fuel depth : Nat) → ReadM Instruction
  | 0, _ => failHere .indexOutOfBounds
  | fuel + 1, depth =>
    if depth > maxInstructionNestingDepth then failHere .instructionNestingLimitExceeded
    else do
      withBodies (decodeExprLoop widths fuel (depth + 1)) (decodeIfLoop widths fuel (depth + 1) false)
        (← decodeOp invalidInstructionError widths)

/-- The body up to its `end`. The depth is checked on entry in the source; it does not change from
one instruction to the next. -/
def decodeExprLoop (widths : MemargWidths) : (fuel depth : Nat) → ReadM (List Instruction)
  | 0, _ => failHere .indexOutOfBounds
  | fuel + 1, depth =>
    if depth > maxInstructionNestingDepth then failHere .instructionNestingLimitExceeded
    else do
      match ← peek with
      | none => failHere .indexOutOfBounds
      | some b =>
        if b = 0x0b then do skipByte; return []
        else do
          let inst ← decodeInstructionLoop widths fuel (depth + 1)
          return inst :: (← decodeExprLoop widths fuel depth)

/-- The two arms of an `if`, from inside the arm that `inElse` names. -/
def decodeIfLoop (widths : MemargWidths) :
    (fuel depth : Nat) → (inElse : Bool) → ReadM (List Instruction × List Instruction)
  | 0, _, _ => failHere .indexOutOfBounds
  | fuel + 1, depth, inElse => do
    match ← peek with
    | none => failHere .indexOutOfBounds
    | some b =>
      if b = 0x05 then
        if inElse then failHere .invalidInstruction
        else do
          skipByte
          decodeIfLoop widths fuel depth true
      else if b = 0x0b then do skipByte; return ([], [])
      else do
        let inst ← decodeInstructionLoop widths fuel (depth + 1)
        let (thenBody, elseBody) ← decodeIfLoop widths fuel depth inElse
        return if inElse then (thenBody, inst :: elseBody) else (inst :: thenBody, elseBody)

end

def Reader.exprFuel (r : Reader) : Nat := 2 * r.left + 2

def decodeInstructionWithMemargWidths (depth : Nat) (widths : MemargWidths) : ReadM Instruction := do
  decodeInstructionLoop widths (← get).exprFuel depth

def decodeIfBodies (depth : Nat) (widths : MemargWidths) :
    ReadM (List Instruction × List Instruction) := do
  decodeIfLoop widths (← get).exprFuel depth false

def decodeExprWithMemargWidths (depth : Nat) (widths : MemargWidths) : ReadM (List Instruction) := do
  decodeExprLoop widths (← get).exprFuel depth

end Wago.Wasm
