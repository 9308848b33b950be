/-
The check of one instruction without a body: `step` (`validate_ops.go`) apart from its structured
cases. The proposals of `validate_proposal.go` are in `StepProposal`.
-/
import Wago.Wasm.StepProposal

namespace Wago.Wasm

open Check

def isConstInstruction (k : InstrKind) : Bool :=
  k ∈ [.i32Const, .i64Const, .f32Const, .f64Const, .v128Const, .refNull, .refFunc, .globalGet, .i32Add,
    .i32Sub, .i32Mul, .i64Add, .i64Sub, .i64Mul, .structNewDefault, .arrayNewFixed, .stringConst]

def isGCConstInstruction (k : InstrKind) : Bool :=
  k ∈ [.structNew, .arrayNew, .arrayNewDefault, .refI31, .anyConvertExtern, .externConvertAny]

def isImplicitSelectType : ValType → Bool
  | .num _ => true
  | .vec => true
  | _ => false

def minAddrType (a b : ValType) : ValType :=
  if equalValType a .i32 || equalValType b .i32 then .i32 else .i64

namespace FuncEnv

variable (fv : FuncEnv)

/-- What `step` checks before it looks at the operands. -/
def stepPrelude (kind : InstrKind) (valTypes : List ValType) : Check Unit := do
  if fv.constOnly && !isConstInstruction kind &&
      !(fv.features.gcConstExpr && isGCConstInstruction kind) then
    fail (fv.verr .constExprRequired kind.string)
  else
    valTypes.forM fun t => ofExcept (validateValType fv.m.types t)

/-! ## Branches and locals -/

def stepLocalIndex (kind : InstrKind) (index : Nat) : Check Unit := do
  match ← Check.localType index with
  | none => fail (fv.verr .unknownLocal "")
  | some typ =>
    if kind = .localGet then
      if ← localIsInitialized index typ then push (.known typ)
      else fail (fv.verr .uninitializedLocal "")
    else do
      popExpect typ
      initializeLocal index typ
      if kind = .localTee then push (.known typ) else pure ()

def stepBranch (kind : InstrKind) (index : Nat) : Check Unit := do
  if kind = .brIf then popExpect .i32 else pure ()
  let types ← label index
  popAll types
  if kind = .br then unreachable else pushAll types

/-- The last part of the three calls: tail calls (`tail`) return the callee's results. -/
def finishCall (tail : Bool) (results : List ValType) (detail : String) : Check Unit :=
  if tail then do
    let outs ← funcResults
    if fv.matchValTypes results outs then unreachable else fail (fv.verr .typeMismatch detail)
  else pushAll results

def stepCall (kind : InstrKind) (index : Nat) : Check Unit :=
  match fv.m.funcType index with
  | none => fail (fv.verr .unknownFunc "")
  | some (params, results) => do
    popAll params
    fv.finishCall (kind = .returnCall) results "return_call"

def stepCallIndirect (kind : InstrKind) (index index2 : Nat) : Check Unit :=
  match funcTypeFromTypeIdx fv.m.types { index } with
  | none => fail (fv.verr .unknownType "call_indirect")
  | some (params, results) =>
    match fv.m.tableType index2 with
    | none => fail (fv.verr .unknownTable "")
    | some tt =>
      if fv.types.refSubtype tt.ref (absRef .func) then do
        popExpect (tableAddrType tt)
        popAll params
        fv.finishCall (kind = .returnCallIndirect) results "return_call_indirect"
      else fail (fv.verr .typeMismatch "call_indirect table element type")

/-! ## Select -/

/-- The result of an implicit `select`: restricted to numeric and vector operands, of which an
unknown one matches any. -/
def implicitSelect (a b : Val) : Except Err Val :=
  let admitted : Val → Bool
    | .unknown => true
    | .known t => isImplicitSelectType t
  if !admitted a || !admitted b then
    .error (fv.verr .typeMismatch "implicit select operand type")
  else
    match a, b with
    | .unknown, b => .ok b
    | .known t, .known t' =>
      if equalValType t t' then .ok (.known t) else .error (fv.verr .typeMismatch "select")
    | a, .unknown => .ok a

def stepSelect (i : Instr) : Check Unit :=
  match i.ext with
  | .none => do
    popExpect .i32
    let a ← pop
    let b ← pop
    push (← ofExcept (fv.implicitSelect a b))
  | _ =>
    match i.valTypes with
    | [t] => do
      popExpect .i32
      popExpect t
      popExpect t
      push (.known t)
    | _ => fail (fv.verr .typeMismatch "select type arity")

/-! ## References -/

def nonNullValidationType : Val → ValType
  | .known (.ref rt) => .ref (rt.withNullable false)
  | _ => .ref (mkRef false .bottom false)

def stepRefFunc (index : Nat) : Check Unit :=
  match fv.m.funcTypeIndex index with
  | none => fail (fv.verr .unknownFunc "ref.func")
  | some typeIdx =>
    if index ∈ fv.declaredFuncs then push (.known (.ref (mkRef false (.typeIndex typeIdx) false)))
    else fail (fv.verr .unknownFunc "undeclared function reference")

def stepBrOnNull (index : Nat) : Check Unit := do
  let lt ← label index
  let x ← pop
  requireRef (fv.verr .typeMismatch "br_on_null") x
  popAll lt
  pushAll lt
  push (.known (nonNullValidationType x))

/-- A taken `br_on_non_null` appends the reference to the payload; the fallthrough keeps only what
precedes it. -/
def stepBrOnNonNull (index : Nat) : Check Unit := do
  let lt ← label index
  let x ← pop
  match lt.getLast? with
  | some (.ref want) =>
    match x with
    | .unknown => pure ()
    | .known (.ref rt) =>
      let t := ValType.ref (rt.withNullable false)
      if fv.subtype t (.ref want) then pure ()
      else fail (fv.verr .typeMismatch (t.text ++ " is not " ++ (ValType.ref want).text))
    | .known _ => fail (fv.verr .typeMismatch "br_on_non_null")
    popAll lt.dropLast
    pushAll lt.dropLast
  | _ => fail (fv.verr .typeMismatch "br_on_non_null")

/-! ## Globals, tables and memories -/

def stepGlobalGet (index : Nat) : Check Unit :=
  match fv.m.globalType index with
  | none => fail (fv.verr .unknownGlobal "")
  | some gt =>
    if fv.constOnly && (gt.mutable || decide (fv.constGlobalLimit ≤ index) ||
        (decide (fv.m.importedGlobals.length ≤ index) && !fv.features.extendedConstGlobals)) then
      fail (fv.verr .constExprRequired "global.get")
    else push (.known gt.type)

def stepGlobalSet (index : Nat) : Check Unit :=
  match fv.m.globalType index with
  | none => fail (fv.verr .unknownGlobal "")
  | some gt =>
    if gt.mutable then popExpect gt.type else fail (fv.verr .immutableGlobal "")

/-- The table at an index, reported with `detail` when there is none. -/
def withTable (index : Nat) (detail : String) (k : TableType → Check Unit) : Check Unit :=
  match fv.m.tableType index with
  | none => fail (fv.verr .unknownTable detail)
  | some tt => k tt

def stepTableInit (index index2 : Nat) : Check Unit := do
  let elemRef ← ofExcept (fv.elemRefType index)
  fv.withTable index2 "table.init table" fun tt =>
    if fv.types.refSubtype elemRef tt.ref then do
      popExpect .i32
      popExpect .i32
      popExpect (tableAddrType tt)
    else fail (fv.verr .typeMismatch "table.init element type")

def stepTableCopy (index index2 : Nat) : Check Unit :=
  fv.withTable index "table.copy dst" fun dst =>
    fv.withTable index2 "table.copy src" fun src =>
      if fv.types.refSubtype src.ref dst.ref then do
        popExpect (minAddrType (tableAddrType dst) (tableAddrType src))
        popExpect (tableAddrType src)
        popExpect (tableAddrType dst)
      else fail (fv.verr .typeMismatch "table.copy element type")

/-- The number of element segments, from the byte-backed summary when there is one. -/
def elemCount : Nat :=
  match fv.direct with
  | some d => d.elements.length
  | none => fv.m.elements.length

def stepMemoryInit (index index2 : Nat) : Check Unit := do
  ofExcept (fv.checkDataIndex index "memory.init")
  let addr ← ofExcept (fv.checkMemArg { mem := some index2 } 0)
  popExpect .i32
  popExpect .i32
  popExpect addr

def stepMemoryCopy (index index2 : Nat) : Check Unit := do
  let addrDst ← ofExcept (fv.checkMemArg { mem := some index } 0)
  let addrSrc ← ofExcept (fv.checkMemArg { mem := some index2 } 0)
  popExpect (minAddrType addrDst addrSrc)
  popExpect addrSrc
  popExpect addrDst

def stepMemoryFill (index : Nat) : Check Unit := do
  let addr ← ofExcept (fv.checkMemArg { mem := some index } 0)
  popExpect addr
  popExpect .i32
  popExpect addr

/-! ## The switch -/

/-- The effect of a scalar or memory instruction. -/
def stepEffect (arg : MemArg) : OpEffect → Check Unit
  | .unary a => do popExpect (.num a); push (.known (.num a))
  | .binary a => do popExpect (.num a); popExpect (.num a); push (.known (.num a))
  | .compare a => do popExpect (.num a); popExpect (.num a); push (.known .i32)
  | .test a => do popExpect (.num a); push (.known .i32)
  | .conv a b => do popExpect (.num a); push (.known (.num b))
  | .load a align => do
    let addr ← ofExcept (fv.checkMemArg arg align)
    popExpect addr
    push (.known (.num a))
  | .store a align => do
    let addr ← ofExcept (fv.checkMemArg arg align)
    popExpect (.num a)
    popExpect addr

/-- The kinds `step` names itself; the rest go to the proposals and to `stackEffect`. -/
def stepKind (i : Instr) : Check Unit :=
  match i.kind with
  | .unreachable => unreachable
  | .nop => pure ()
  | .br | .brIf => stepBranch i.kind i.index
  | .return_ => do popAll (← funcResults); unreachable
  | .call | .returnCall => fv.stepCall i.kind i.index
  | .callIndirect | .returnCallIndirect => fv.stepCallIndirect i.kind i.index i.index2
  | .drop => do let _ ← pop
  | .select => fv.stepSelect i
  | .localGet | .localSet | .localTee => fv.stepLocalIndex i.kind i.index
  | .globalGet => fv.stepGlobalGet i.index
  | .globalSet => fv.stepGlobalSet i.index
  | .tableGet => fv.withTable i.index "" fun tt => do
      popExpect (tableAddrType tt)
      push (.known (.ref tt.ref))
  | .tableSet => fv.withTable i.index "" fun tt => do
      popExpect (.ref tt.ref)
      popExpect (tableAddrType tt)
  | .i32Const => push (.known .i32)
  | .i64Const => push (.known .i64)
  | .f32Const => push (.known .f32)
  | .f64Const => push (.known .f64)
  | .refNull => do
      ofExcept (validateRefType fv.m.types i.refType)
      push (.known (.ref i.refType))
  | .refFunc => fv.stepRefFunc i.index
  | .refIsNull => do
      requireRef (fv.verr .typeMismatch "ref.is_null") (← pop)
      push (.known .i32)
  | .refEq => do popExpect .eqRef; popExpect .eqRef; push (.known .i32)
  | .stringConst =>
      if fv.m.stringRefs.length ≤ i.index then fail (fv.verr .typeMismatch "string.const index")
      else push (.known .stringRef)
  | .refAsNonNull => do
      let x ← pop
      requireRef (fv.verr .typeMismatch "ref.as_non_null") x
      push (.known (nonNullValidationType x))
  | .brOnNull => fv.stepBrOnNull i.index
  | .brOnNonNull => fv.stepBrOnNonNull i.index
  | .memoryInit => fv.stepMemoryInit i.index i.index2
  | .memoryCopy => fv.stepMemoryCopy i.index i.index2
  | .memoryFill => fv.stepMemoryFill i.index
  | .dataDrop => ofExcept (fv.checkDataIndex i.index "data.drop")
  | .tableInit => fv.stepTableInit i.index i.index2
  | .tableCopy => fv.stepTableCopy i.index i.index2
  | .elemDrop =>
      if fv.elemCount ≤ i.index then fail (fv.verr .unknownTable "elem.drop") else pure ()
  | .tableSize => fv.withTable i.index "table.size" fun tt => push (.known (tableAddrType tt))
  | .tableGrow => fv.withTable i.index "table.grow" fun tt => do
      popExpect (tableAddrType tt)
      popExpect (.ref tt.ref)
      push (.known (tableAddrType tt))
  | .tableFill => fv.withTable i.index "table.fill" fun tt => do
      popExpect (tableAddrType tt)
      popExpect (.ref tt.ref)
      popExpect (tableAddrType tt)
  | .memorySize => do push (.known (← ofExcept (fv.checkMemArg { mem := some i.index } 0)))
  | .memoryGrow => do
      let addr ← ofExcept (fv.checkMemArg { mem := some i.index } 0)
      popExpect addr
      push (.known addr)
  | .i32TruncSatF32S | .i32TruncSatF32U => do popExpect .f32; push (.known .i32)
  | .i32TruncSatF64S | .i32TruncSatF64U => do popExpect .f64; push (.known .i32)
  | .i64TruncSatF32S | .i64TruncSatF32U => do popExpect .f32; push (.known .i64)
  | .i64TruncSatF64S | .i64TruncSatF64U => do popExpect .f64; push (.known .i64)
  | _ => fv.proposalStep i

/-- `step` on an instruction without a body other than `br_table`. The source asks the effect table twice, for loads and
stores before the switch and for the other effects after it; no kind of the table is in the switch,
so one question before it is the same. -/
def stepPlain (i : Instr) : Check Unit := do
  fv.stepPrelude i.kind i.valTypes
  match opEffects i.kind with
  | some e => fv.stepEffect i.memArg e
  | none => fv.stepKind i

end FuncEnv

/-- `step` on an instruction without a body. -/
def FuncValidator.stepInstr (fv : FuncEnv) (i : Instr) : ValidateM Unit := do
  if i.kind = .brTable then do
    fv.exec (fv.stepPrelude i.kind i.valTypes)
    stepBrTable fv i
  else fv.exec (fv.stepPlain i)

end Wago.Wasm
