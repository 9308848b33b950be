/-
The streaming validator of a function body, which decodes one operation at a time and keeps its place in
the control stack (`validate_bytebacked.go`).
-/
import Wago.Wasm.Facts
import Wago.Wasm.Step

namespace Wago.Wasm

/-- A result without effects on the validator. -/
def orThrow {α : Type} : Except Err α → ValidateM α
  | .ok a => pure a
  | .error e => throw e

/-- A read with the validator's own reader. -/
def reading {α : Type} (x : ReadM α) : ValidateM α := fun v =>
  match x.run v.rd with
  | .ok a rd => .ok a { v with rd }
  | .error e rd => .error e { v with rd }

/-- The parameters and results of a block type. -/
def FuncEnv.blockSig (fv : FuncEnv) : BlockType → Except Err (List ValType × List ValType)
  | .void => .ok ([], [])
  | .val t =>
    match validateValType fv.m.types t with
    | .ok () => .ok ([], [t])
    | .error e => .error e
  | .typeIndex idx =>
    match funcTypeFromTypeIdx fv.m.types idx with
    | none => .error (fv.verr .unknownType "block")
    | some sig => .ok sig

namespace FuncValidator

/-! ## The start -/

/-- Checks the declarations of a function and opens its frame. -/
def beginBody (mv : ModuleValidator) (funcIndex : Nat) (params results : List ValType)
    (runs : List LocalRun) : ValidateM FuncEnv := do
  let fv : FuncEnv := { mv with funcIndex, localParams := params, localRuns := runs }
  match localCount params runs with
  | none => throw (fv.verr .invalidLimitRange "local count overflow")
  | some count =>
    if count > mv.limits.maxFunctionLocals then
      throw (fv.verr .invalidLimitRange "parameter and local count exceeds configured limit")
    else do
      prepareLocalLookup
      runs.forM fun run => orThrow (validateValType mv.m.types run.type)
      resetLocalInitialization
      let fv := { fv with localCount := count }
      pushCtrl fv .func [] results
      return fv

/-! ## Streamed operations -/

def nestingLimit : Err := .decode { code := .instructionNestingLimitExceeded, offset := 0 }

def directPushCtrl (fv : FuncEnv) (kind : CtrlKind) (ins outs : List ValType) : ValidateM Unit := do
  if maxInstructionNestingDepth ≤ (← get).ctrls.length then throw nestingLimit
  else pushCtrl fv kind ins outs

def directElse (fv : FuncEnv) : ValidateM Unit := do
  match (← get).ctrls with
  | [] => throw (.decode { code := .invalidInstruction, offset := 0 })
  | f :: _ =>
    if f.kind ≠ .if_ ∨ f.ifSeenElse = true then
      throw (.decode { code := .invalidInstruction, offset := 0 })
    else do
      let f ← popCtrl fv
      let thenHeight := (← get).vals.length
      modify fun v => { v with vals := v.vals.drop (v.vals.length - f.height) }
      if maxInstructionNestingDepth ≤ (← get).ctrls.length then throw nestingLimit
      else do
        modify fun v => { v with
          ctrls := { kind := .if_, ins := f.ins, outs := f.outs, height := f.height,
                     initHeight := f.initHeight, ifSeenElse := true, ifThenHeight := thenHeight } ::
            v.ctrls }
        pushAll f.ins

def directEnd (fv : FuncEnv) : ValidateM Unit := do
  match (← get).ctrls with
  | [] => throw (.decode { code := .invalidInstruction, offset := 0 })
  | f :: _ => do
    let _ ← popCtrl fv
    if f.kind = .if_ then
      if f.ifSeenElse then
        if (← get).vals.length ≠ f.ifThenHeight then
          throw (fv.verr .typeMismatch "if branch heights")
        else return ()
      else if fv.matchValTypes f.ins f.outs then return ()
      else throw (fv.verr .typeMismatch "if without else")
    else return ()

def stepDirectOp (fv : FuncEnv) : DirectOp → ValidateM Unit
  | .instr i => stepInstr fv i
  | .block bt => do
    let (ins, outs) ← orThrow (fv.blockSig bt)
    directPushCtrl fv .block ins outs
  | .loop bt => do
    let (ins, outs) ← orThrow (fv.blockSig bt)
    directPushCtrl fv .loop ins outs
  | .if_ bt => do
    let (ins, outs) ← orThrow (fv.blockSig bt)
    popExpect fv .i32
    directPushCtrl fv .if_ ins outs
  | .tryTable bt catches => do
    let (ins, outs) ← orThrow (fv.blockSig bt)
    fv.exec (catches.forM fv.validateCatchPayload)
    directPushCtrl fv .try_ ins outs
  | .else_ => directElse fv
  | .end_ => directEnd fv

/-! ## Specialised operations -/

/-- Operand count, operand type and result type of an effect without a memory argument. -/
def OpEffect.scalar : OpEffect → Option (Nat × NumType × NumType)
  | .unary a => some (1, a, a)
  | .binary a => some (2, a, a)
  | .compare a => some (2, a, .i32)
  | .test a => some (1, a, .i32)
  | .conv a b => some (1, a, b)
  | .load _ _ => none
  | .store _ _ => none

/-- Whether an operand needs no subtype test to be taken as `t`. -/
def Val.isExactly (t : ValType) : Val → Bool
  | .unknown => true
  | .known t' => t' = t

def stepDirectNumeric (fv : FuncEnv) (kind : InstrKind) : ValidateM Unit := do
  match (opEffects kind).bind OpEffect.scalar with
  | some (operands, input, output) =>
    let v ← get
    let f ← top
    if !fv.constOnly && operands + f.height ≤ v.vals.length &&
        (v.vals.take operands).all (Val.isExactly (.num input)) then
      set { v with vals := .known (.num output) :: v.vals.drop operands }
    else fv.exec (fv.stepPlain { kind })
  | none => fv.exec (fv.stepPlain { kind })

def stepDirectScalarImmediate (fv : FuncEnv) (opcode : UInt8) : ValidateM InstrKind :=
  match opcode.toNat with
  | 0x20 => do fv.exec (fv.stepLocalIndex .localGet (← reading u32)); return .localGet
  | 0x21 => do fv.exec (fv.stepLocalIndex .localSet (← reading u32)); return .localSet
  | 0x22 => do fv.exec (fv.stepLocalIndex .localTee (← reading u32)); return .localTee
  | 0x23 => do
    let index ← reading u32
    fv.exec (fv.stepPlain { kind := .globalGet, index })
    return .globalGet
  | 0x24 => do
    let index ← reading u32
    fv.exec (fv.stepPlain { kind := .globalSet, index })
    return .globalSet
  | 0x41 => do let _ ← reading i32; push (.known .i32); return .i32Const
  | 0x42 => do let _ ← reading i64; push (.known .i64); return .i64Const
  | 0x43 => do let _ ← reading le32; push (.known .f32); return .f32Const
  | _ => do let _ ← reading le64; push (.known .f64); return .f64Const

/-- Loads and stores; the address of a load is replaced in place when it has the exact type. -/
def stepDirectMemory (fv : FuncEnv) (kind : InstrKind) (arg : MemArg) : ValidateM Unit := do
  match opEffects kind with
  | some (.load a align) => do
    let address ← orThrow (fv.checkMemArg arg align)
    let f ← top
    let v ← get
    if f.height < v.vals.length && (v.vals.take 1).all (Val.isExactly address) then
      set { v with vals := .known (.num a) :: v.vals.drop 1 }
    else do
      popExpect fv address
      push (.known (.num a))
  | some (.store a align) => do
    let address ← orThrow (fv.checkMemArg arg align)
    let f ← top
    let v ← get
    if f.height + 2 ≤ v.vals.length && (v.vals.take 1).all (Val.isExactly (.num a)) &&
        ((v.vals.drop 1).take 1).all (Val.isExactly address) then
      set { v with vals := v.vals.drop 2 }
    else do
      popExpect fv (.num a)
      popExpect fv address
  | _ => throw .outOfRange

/-- `else`, `end`, `br` and `br_if`. The delimiters report no kind. -/
def stepDirectControlImmediate (fv : FuncEnv) (opcode : UInt8) : ValidateM (Option InstrKind) :=
  match opcode.toNat with
  | 0x05 => do directElse fv; return none
  | 0x0b => do directEnd fv; return none
  | 0x0c => do fv.exec (FuncEnv.stepBranch .br (← reading u32)); return some .br
  | _ => do fv.exec (FuncEnv.stepBranch .brIf (← reading u32)); return some .brIf

def stepDirectCallImmediate (fv : FuncEnv) (opcode : UInt8) : ValidateM InstrKind := do
  let kind : InstrKind := if opcode = 0x12 then .returnCall else .call
  fv.exec (fv.stepCall kind (← reading u32))
  return kind

/-! ## The streaming validator -/

/-- The kind at a byte of an opcode table. -/
def opcodeKind (table : List (Nat × List InstrKind)) (opcode : UInt8) : InstrKind :=
  lookupRuns table opcode.toNat

def decodeStep (fv : FuncEnv) (widths : MemargWidths) : ValidateM Facts := do
  let op ← reading (decodeDirectOp widths widths.multiMemory)
  stepDirectOp fv op
  return opFacts fv.m.types op

/-- One round of the loop: a specialised path by opcode range, or the general one. It yields what the
operation adds to the facts of the function; the source has a second copy of the loop that leaves
them out. -/
def directStep (fv : FuncEnv) (widths : MemargWidths) : ValidateM Facts := do
  match ← reading peek with
  | none => decodeStep fv widths
  | some opcode =>
    let n := opcode.toNat
    if (0x20 ≤ n ∧ n ≤ 0x24) ∨ (0x41 ≤ n ∧ n ≤ 0x44) then do
      reading skipByte
      return kindFacts (← stepDirectScalarImmediate fv opcode)
    else if 0x28 ≤ n ∧ n ≤ 0x3e then do
      reading skipByte
      let arg ← reading (decodeMemArgWithWidths widths)
      stepDirectMemory fv (opcodeKind memOpcodeKind opcode) arg
      return kindFacts (opcodeKind memOpcodeKind opcode)
    else if 0x45 ≤ n ∧ n ≤ 0xc4 then do
      reading skipByte
      stepDirectNumeric fv (opcodeKind simpleOpcode opcode)
      return kindFacts (opcodeKind simpleOpcode opcode)
    else if n = 0x05 ∨ (0x0b ≤ n ∧ n ≤ 0x0d) then do
      reading skipByte
      match ← stepDirectControlImmediate fv opcode with
      | none => return {}
      | some kind => return kindFacts kind
    else if n = 0x10 ∨ n = 0x12 then do
      reading skipByte
      return kindFacts (← stepDirectCallImmediate fv opcode)
    else decodeStep fv widths

/-- The loop of `validateFuncDirect`, until the frame of the function is closed. A round that does
not fail reads a byte, so `fuel` above the length of the body is never used up. -/
def directLoop (fv : FuncEnv) (widths : MemargWidths) : (fuel : Nat) → ValidateM Facts
  | 0 => throw .outOfRange
  | fuel + 1 => do
    let v ← get
    if v.ctrls.isEmpty then
      if ← reading has then
        throw (.decode { code := .sectionSizeMismatch, offset := v.rd.pos })
      else return {}
    else do
      let facts ← directStep fv widths
      return facts.merge (← directLoop fv widths fuel)

def validateFuncDirect (mv : ModuleValidator) (funcIndex : Nat) (params results : List ValType)
    (runs : List LocalRun) (body : List UInt8) (widths : MemargWidths) (multiMemory : Bool) :
    ValidateM Facts := do
  let fv ← beginBody mv funcIndex params results runs
  modify fun v => { v with rd := v.rd.reset body }
  directLoop fv { widths with multiMemory } (body.length + 1)

end FuncValidator

end Wago.Wasm
