/-
Walking instruction immediates without decoding them (`bytecode_walk.go`, `bytecode_skip.go`): the
classifier, which reports what a walker needs of an instruction, and the skipper, which only finds
the next opcode. Both are entered after the opcode byte and do not use a budget.
-/
import Wago.Wasm.InstrDecode
import Wago.Wasm.ReaderExport

namespace Wago.Wasm

structure InstructionImmediate where
  kind : InstrKind := .invalid
  opPrefix : Nat := 0
  subopcode : Nat := 0
  index : Nat := 0
  index2 : Nat := 0
  hasMemIndex : Bool := false
  memIndex : Nat := 0
  memAlign : Nat := 0
  memOffset : Nat := 0
  touchesMemory : Bool := false
  usesBulkMemory : Bool := false
  heapType : Option HeapType := none
  heapType2 : Option HeapType := none
  cast : CastOp := {}
  deriving DecidableEq

inductive DirectOpKind
  | instr | block | loop | if_ | tryTable | else_ | end_
  deriving DecidableEq, Repr

/-! ## Kinds by opcode -/

/-- Opcodes whose only immediate is an index. -/
def oneIndexOpcodes : List Nat :=
  [0x08, 0x0c, 0x0d, 0x10, 0x12, 0x14, 0x15, 0x20, 0x21, 0x22, 0x23, 0x24, 0x25, 0x26, 0xd2, 0xd5, 0xd6]

def oneIndexImmediateKind (op : UInt8) : InstrKind :=
  match op.toNat with
  | 0x08 => .throw
  | 0x0c => .br
  | 0x0d => .brIf
  | 0x10 => .call
  | 0x12 => .returnCall
  | 0x14 => .callRef
  | 0x15 => .returnCallRef
  | 0x20 => .localGet
  | 0x21 => .localSet
  | 0x22 => .localTee
  | 0x23 => .globalGet
  | 0x24 => .globalSet
  | 0x25 => .tableGet
  | 0x26 => .tableSet
  | 0xd2 => .refFunc
  | 0xd5 => .brOnNull
  | 0xd6 => .brOnNonNull
  | _ => .invalid

def fcIndexedKind (sub : Nat) : InstrKind :=
  match sub with
  | 8 => .memoryInit
  | 9 => .dataDrop
  | 10 => .memoryCopy
  | 12 => .tableInit
  | 13 => .elemDrop
  | 14 => .tableCopy
  | 15 => .tableGrow
  | 16 => .tableSize
  | 17 => .tableFill
  | _ => .invalid

def fbOneIndexKind (sub : Nat) : InstrKind :=
  match sub with
  | 0 => .structNew
  | 1 => .structNewDefault
  | 6 => .arrayNew
  | 7 => .arrayNewDefault
  | 11 => .arrayGet
  | 12 => .arrayGetS
  | 13 => .arrayGetU
  | 14 => .arraySet
  | 16 => .arrayFill
  | 32 => .structNewDesc
  | 33 => .structNewDefaultDesc
  | 34 => .refGetDesc
  | 0x82 => .stringConst
  | _ => .invalid

def fbTwoIndexKind (sub : Nat) : InstrKind :=
  match sub with
  | 2 => .structGet
  | 3 => .structGetS
  | 4 => .structGetU
  | 5 => .structSet
  | 8 => .arrayNewFixed
  | 9 => .arrayNewData
  | 10 => .arrayNewElem
  | 17 => .arrayCopy
  | 18 => .arrayInitData
  | 19 => .arrayInitElem
  | _ => .invalid

def fbStringArrayKind (sub : Nat) : InstrKind :=
  match sub with
  | 0xb0 => .stringNewUtf8Array
  | 0xb1 => .stringNewWtf16Array
  | 0xb2 => .stringEncodeUtf8Array
  | 0xb3 => .stringEncodeWtf16Array
  | 0xb4 => .stringNewLossyUtf8Array
  | 0xb5 => .stringNewWtf8Array
  | 0xb6 => .stringEncodeLossyUtf8Array
  | 0xb7 => .stringEncodeWtf8Array
  | _ => .invalid

/-! ## Skipping vectors and memory arguments -/

/-- `n` reads whose values are dropped. -/
def skipN {α : Type} (fn : ReadM α) : Nat → ReadM Unit
  | 0 => return ()
  | n + 1 => do
    let _ ← fn
    skipN fn n

def skipResultTypeBytes : ReadM Unit := do skipN decodeValType (← u32)

def skipCatchBytes : ReadM Unit := do
  match (← byte).toNat with
  | 0 | 1 => do
    let _ ← u32
    let _ ← u32
  | 2 | 3 => do let _ ← u32
  | _ => failPrev .invalidInstruction

def skipCatchVecBytes : ReadM Unit := do skipN skipCatchBytes (← u32)

def skipRefHeapTypeBytes : ReadM Unit := do let _ ← decodeRefHeapType

def classifyMemArgBytes (imm : InstructionImmediate) (widths : MemargWidths) :
    ReadM InstructionImmediate := do
  let n ← u32
  if n < 64 then return { imm with memAlign := n, memOffset := ← readMemOffset widths 0 }
  else if n < 128 then
    if widths.multiMemory then do
      let memoryIndex ← u32
      return { imm with memAlign := n - 64, hasMemIndex := true, memIndex := memoryIndex
                        memOffset := ← readMemOffset widths memoryIndex }
    else failHere .invalidInstruction
  else failHere .invalidInstruction

def skipScalarMemoryImmediate (widths : MemargWidths) (multiMemory : Bool) : ReadM Unit := do
  let alignment ← u32
  if alignment < 64 then do let _ ← readMemOffset widths 0
  else if alignment < 128 ∧ multiMemory then do
    let index ← u32
    let _ ← readMemOffset widths index
  else failHere .invalidInstruction

/-! ## Prefixed opcodes -/

def classifyFCBytes (multiMemory : Bool) : ReadM InstructionImmediate := do
  let sub ← u32
  let imm : InstructionImmediate := { opPrefix := 0xfc, subopcode := sub }
  match lookupPrefixKind fcNoImm sub with
  | some kind => return { imm with kind }
  | none =>
    match sub with
    | 8 | 10 | 12 | 14 => do
      let index ← if sub = 10 then readMemoryIndex multiMemory else u32
      let index2 ← if sub = 8 ∨ sub = 10 then readMemoryIndex multiMemory else u32
      return { imm with kind := fcIndexedKind sub, index, index2
                        touchesMemory := decide (sub = 8 ∨ sub = 10)
                        usesBulkMemory := decide (sub = 10) }
    | 9 | 13 | 15 | 16 | 17 => return { imm with kind := fcIndexedKind sub, index := ← u32 }
    | 11 => return { imm with kind := .memoryFill, index := ← readMemoryIndex multiMemory
                              touchesMemory := true, usesBulkMemory := true }
    | _ => failHere .invalidInstruction

def classifyFBBytes : ReadM InstructionImmediate := do
  let sub ← u32
  let imm : InstructionImmediate := { opPrefix := 0xfb, subopcode := sub }
  match lookupPrefixKind fbNoImm sub with
  | some kind => return { imm with kind }
  | none =>
    match sub with
    | 0xb0 | 0xb1 | 0xb2 | 0xb3 | 0xb4 | 0xb5 | 0xb6 | 0xb7 =>
      return { imm with kind := fbStringArrayKind sub }
    | 0 | 1 | 6 | 7 | 11 | 12 | 13 | 14 | 16 | 32 | 33 | 34 | 0x82 =>
      return { imm with kind := fbOneIndexKind sub, index := ← u32 }
    | 2 | 3 | 4 | 5 | 8 | 9 | 10 | 17 | 18 | 19 => do
      let index ← u32
      return { imm with kind := fbTwoIndexKind sub, index, index2 := ← u32 }
    | 20 | 21 => return { imm with kind := .refTest, heapType := some (← decodeHeapType) }
    | 22 | 23 => do
      let (exact, ht) ← decodeRefHeapType
      return { imm with kind := .refCast, cast := { sourceNullable := exact }, heapType := some ht }
    | 24 | 25 => do
      let cast ← decodeCastOp
      let index ← u32
      let ht₁ ← decodeHeapType
      let ht₂ ← decodeHeapType
      return { imm with kind := if sub = 24 then .brOnCast else .brOnCastFail
                        cast, index, heapType := some ht₁, heapType2 := some ht₂ }
    | 35 | 36 => do
      skipRefHeapTypeBytes
      return { imm with kind := .refCastDescEq }
    | _ => failHere .invalidInstruction

def classifyFDBytes (widths : MemargWidths) : ReadM InstructionImmediate := do
  let sub ← u32
  let imm : InstructionImmediate := { opPrefix := 0xfd, subopcode := sub }
  -- No kind is reported for v128.const and i8x16.shuffle.
  if sub = 12 ∨ sub = 13 then do
    let _ ← bytes 16
    return imm
  else match lookupPrefixKind fdNoImm sub with
    | some kind => return { imm with kind }
    | none =>
      match lookupPrefixKind fdMem sub with
      | some kind => do
        let imm ← classifyMemArgBytes { imm with kind, touchesMemory := true } widths
        if 84 ≤ sub ∧ sub ≤ 91 then do
          let _ ← byte
          return imm
        else return imm
      | none =>
        match lookupPrefixKind fdLane sub with
        | some kind => do
          let _ ← byte
          return { imm with kind }
        | none => failHere .invalidInstruction

def classifyFEBytes (widths : MemargWidths) : ReadM InstructionImmediate := do
  let sub ← u32
  let imm : InstructionImmediate := { opPrefix := 0xfe, subopcode := sub }
  if sub = 0x03 then do
    readReservedZeroByte
    return { imm with kind := .atomicFence }
  -- No kind is reported for the struct.atomic.get family.
  else if 0x5c ≤ sub ∧ sub ≤ 0x5e then do
    let _ ← decodeAtomicOrder
    let index ← u32
    return { imm with index, index2 := ← u32 }
  else match lookupPrefixKind feMem sub with
    | some kind => classifyMemArgBytes { imm with kind, touchesMemory := true } widths
    | none =>
      if 30 ≤ sub ∧ sub ≤ 71 then
        classifyMemArgBytes { imm with kind := .atomicRmw, touchesMemory := true } widths
      else if 72 ≤ sub ∧ sub ≤ 78 then
        classifyMemArgBytes { imm with kind := .atomicCmpxchg, touchesMemory := true } widths
      else failHere .invalidInstruction

/-! ## The classifier on the module reader -/

def classifyExprOpAfterOpcodeWithWidths (op : UInt8) (widths : MemargWidths) (multiMemory : Bool) :
    ReadM (DirectOpKind × InstructionImmediate) := do
  let widths := { widths with multiMemory }
  match lookupPrefixKind simpleOpcode op.toNat with
  | some kind => return (.instr, { kind })
  | none =>
    if op.toNat ∈ oneIndexOpcodes then
      return (.instr, { kind := oneIndexImmediateKind op, index := ← u32 })
    else match op.toNat with
    | 0x02 => do
      let _ ← decodeBlockType
      return (.block, { kind := .block })
    | 0x03 => do
      let _ ← decodeBlockType
      return (.loop, { kind := .loop })
    | 0x04 => do
      let _ ← decodeBlockType
      return (.if_, { kind := .if_ })
    | 0x05 => return (.else_, {})
    | 0x0b => return (.end_, {})
    | 0x0e => do
      skipN u32 (← u32)
      return (.instr, { kind := .brTable, index := ← u32 })
    | 0x11 => do
      let index ← u32
      return (.instr, { kind := .callIndirect, index, index2 := ← u32 })
    | 0x13 => do
      let index ← u32
      return (.instr, { kind := .returnCallIndirect, index, index2 := ← u32 })
    | 0x1c => do
      skipResultTypeBytes
      return (.instr, { kind := .select })
    | 0x1f => do
      let _ ← decodeBlockType
      skipCatchVecBytes
      return (.tryTable, { kind := .tryTable })
    | 0x3f => do
      let index ← readMemoryIndex multiMemory
      return (.instr, { kind := .memorySize, index, touchesMemory := true })
    | 0x40 => do
      let index ← readMemoryIndex multiMemory
      return (.instr, { kind := .memoryGrow, index, touchesMemory := true })
    | 0x41 => do
      let _ ← i32
      return (.instr, { kind := .i32Const })
    | 0x42 => do
      let _ ← i64
      return (.instr, { kind := .i64Const })
    | 0x43 => do
      let _ ← bytes 4
      return (.instr, { kind := .f32Const })
    | 0x44 => do
      let _ ← bytes 8
      return (.instr, { kind := .f64Const })
    | 0xd0 => do
      skipRefHeapTypeBytes
      return (.instr, { kind := .refNull })
    | 0xd3 => return (.instr, { kind := .refEq })
    | 0xd4 => return (.instr, { kind := .refAsNonNull })
    | 0xfb => return (.instr, ← classifyFBBytes)
    | 0xfc => return (.instr, ← classifyFCBytes multiMemory)
    | 0xfd => return (.instr, ← classifyFDBytes widths)
    | 0xfe => return (.instr, ← classifyFEBytes widths)
    | _ =>
      if 0x28 ≤ op.toNat ∧ op.toNat ≤ 0x3e then do
        let imm ← classifyMemArgBytes
          { kind := lookupRuns memOpcodeKind op.toNat, touchesMemory := true } widths
        return (.instr, imm)
      else do failWith (.decode (invalidInstructionError op ((← off) - 1)))

/-! ## Classifier and skipper on the exported reader -/

/-- Runs a read of the module reader at the exported reader's position, and copies the position
back also when it fails. -/
def ExportReader.viaReader {α : Type} (x : ReadM α) : ExportReadM α := fun r =>
  match x.run { data := r.data, pos := r.pos, budget := none } with
  | .ok a ir => .ok a { r with pos := ir.pos }
  | .error e ir => .error e { r with pos := ir.pos }

def classifyInstructionImmediateIntoWithWidths (op : UInt8) (widths : MemargWidths)
    (multiMemory : Bool) : ExportReadM InstructionImmediate :=
  match lookupPrefixKind simpleOpcode op.toNat with
  | some kind => return { kind }
  | none =>
    if op.toNat ∈ oneIndexOpcodes then do
      return { kind := oneIndexImmediateKind op, index := ← ExportReader.u32 }
    else match op.toNat with
    | 0x05 | 0x0b => return {}
    | 0x41 => do
      let _ ← ExportReader.i32
      return { kind := .i32Const }
    | 0x42 => do
      let _ ← ExportReader.i64
      return { kind := .i64Const }
    | 0x43 => do
      let _ ← ExportReader.bytes 4
      return { kind := .f32Const }
    | 0x44 => do
      let _ ← ExportReader.bytes 8
      return { kind := .f64Const }
    | _ => Prod.snd <$>
      ExportReader.viaReader (classifyExprOpAfterOpcodeWithWidths op widths multiMemory)

def skipInstructionImmediateWithWidths (op : UInt8) (widths : MemargWidths) (multiMemory : Bool) :
    ExportReadM Unit :=
  match lookupPrefixKind simpleOpcode op.toNat with
  | some _ => return ()
  | none =>
    if op.toNat ∈ oneIndexOpcodes then do let _ ← ExportReader.u32
    else match op.toNat with
    | 0x05 | 0x0b => return ()
    | 0x41 => do let _ ← ExportReader.i32
    | 0x42 => do let _ ← ExportReader.i64
    | 0x43 => do let _ ← ExportReader.bytes 4
    | 0x44 => do let _ ← ExportReader.bytes 8
    | _ =>
      if 0x28 ≤ op.toNat ∧ op.toNat ≤ 0x3e then
        ExportReader.viaReader (skipScalarMemoryImmediate widths multiMemory)
      else do let _ ← classifyInstructionImmediateIntoWithWidths op widths multiMemory

end Wago.Wasm
