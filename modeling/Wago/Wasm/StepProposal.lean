/-
The checks of `validate_proposal.go`: wide arithmetic, exceptions, typed function references,
atomics, garbage-collected references and SIMD, over the accesses of `Validator`.
-/
import Wago.Wasm.Effects
import Wago.Wasm.Validator

namespace Wago.Wasm

/-! ## Accesses as checks -/

namespace Check

variable {α : Type}

def fail (e : Err) : Check α := Program.fail e

def ofExcept : Except Err α → Check α
  | .ok a => pure a
  | .error e => fail e

def pop : Check Val := .perform .pop
def popExpect (t : ValType) : Check Unit := .perform (.popExpect t)
def popAll (ts : List ValType) : Check Unit := .perform (.popAll ts)
def push (x : Val) : Check Unit := .perform (.push x)
def pushAll (ts : List ValType) : Check Unit := .perform (.pushAll ts)
def label (depth : Nat) : Check (List ValType) := .perform (.label depth)
def funcResults : Check (List ValType) := .perform .funcResults
def available : Check (Nat × Bool) := .perform .available
def unreachable : Check Unit := .perform .unreachable
def localType (idx : Nat) : Check (Option ValType) := .perform (.localType idx)
def localIsInitialized (idx : Nat) (t : ValType) : Check Bool := .perform (.localIsInitialized idx t)
def initializeLocal (idx : Nat) (t : ValType) : Check Unit := .perform (.initializeLocal idx t)

/-- An operand has to be a reference, or unknown. -/
def requireRef (e : Err) : Val → Check Unit
  | .unknown => pure ()
  | .known (.ref _) => pure ()
  | .known _ => fail e

end Check

open Check

def storageValType : StorageType → ValType
  | .val v => v
  | .packed _ => .i32

def packedFieldGet (kind : InstrKind) : Bool :=
  kind ∈ [.structGetS, .structGetU, .structAtomicGetS, .structAtomicGetU, .arrayGetS, .arrayGetU]

def StorageType.isPacked : StorageType → Bool
  | .val _ => false
  | .packed _ => true

/-- Arrays of references are filled from element segments, others from data segments. -/
def StorageType.isRef : StorageType → Bool
  | .val (.ref _) => true
  | _ => false

/-- The core threads family (`IsCoreAtomicInstructionKind`). -/
def atomicKinds : List InstrKind :=
  [.memoryAtomicNotify, .memoryAtomicWait32, .memoryAtomicWait64, .atomicFence, .i32AtomicLoad,
   .i64AtomicLoad, .i32AtomicLoad8U, .i32AtomicLoad16U, .i64AtomicLoad8U, .i64AtomicLoad16U,
   .i64AtomicLoad32U, .i32AtomicStore, .i64AtomicStore, .i32AtomicStore8, .i32AtomicStore16,
   .i64AtomicStore8, .i64AtomicStore16, .i64AtomicStore32, .atomicRmw, .atomicCmpxchg]

def gcKinds : List InstrKind :=
  [.structNew, .structNewDefault, .structNewDesc, .structNewDefaultDesc, .structGet, .structGetS,
   .structGetU, .structAtomicGet, .structAtomicGetS, .structAtomicGetU, .structSet, .arrayNew,
   .arrayNewDefault, .arrayNewFixed, .arrayNewData, .arrayNewElem, .arrayGet, .arrayGetS, .arrayGetU,
   .arraySet, .arrayLen, .arrayFill, .arrayCopy, .arrayInitData, .arrayInitElem, .refGetDesc, .refTest,
   .refCast, .refTestDesc, .refCastDescEq, .brOnCast, .brOnCastFail, .anyConvertExtern,
   .externConvertAny, .refI31, .i31GetS, .i31GetU]

/-- `(ref null $index)` or `(ref $index)`. -/
def indexedRef (nullable : Bool) (index : Nat) (exact : Bool) : ValType :=
  .ref (mkRef nullable (.typeIndex { index }) exact)

namespace FuncEnv

variable (fv : FuncEnv)

/-! ## Memory arguments and segments -/

def checkMemArg (ma : MemArg) (natural : Nat) : Except Err ValType :=
  match fv.m.memoryType (ma.mem.getD 0) with
  | none => .error (fv.verr .unknownMemory "")
  | some mt =>
    if ma.align > natural then .error (fv.verr .invalidAlignment "")
    else if mt.limits.addr64 then .ok .i64
    else if ma.offset > 2 ^ 32 - 1 then
      .error (fv.verr .invalidAlignment "offset out of range for i32 memory")
    else .ok .i32

def checkAtomicMemArg (ma : MemArg) (natural : Nat) : Except Err ValType :=
  match fv.checkMemArg ma natural with
  | .error e => .error e
  | .ok addr =>
    if ma.align ≠ natural then
      .error (fv.verr .invalidAlignment "atomic memory instruction requires natural alignment")
    else .ok addr

/-- Data instructions are guarded by the data count section. -/
def checkDataIndex (idx : Nat) (op : String) : Except Err Unit :=
  match fv.m.dataCount with
  | some count =>
    if count ≤ idx ∨ fv.m.data.length ≤ idx then
      .error (fv.verr .invalidDataCount (op ++ " data index"))
    else .ok ()
  | none => .error (fv.verr .invalidDataCount (op ++ " data index"))

/-- The reference type of an element segment, from its declaration only. -/
def elemRefType (index : Nat) : Except Err RefType :=
  let declared : Option (ElemKindKind × RefType) := match fv.direct with
    | some d => d.elements[index]?.map fun e => (e.kind, e.ref)
    | none => fv.m.elements[index]?.map fun e => (e.kind.kind, e.kind.ref)
  match declared with
  | none => .error (fv.verr .unknownTable "table.init elem")
  | some (.typedExprs, ref) => .ok ref
  | some _ => .ok (absRef .func)

/-! ## Wide arithmetic, exceptions and calls through references -/

def stepWide (operands : Nat) : Check Unit := do
  popAll (List.replicate operands .i64)
  pushAll [.i64, .i64]

def stepThrow (index : Nat) : Check Unit :=
  match fv.m.tagFuncType index with
  | none => fail (fv.verr .unknownTag "throw")
  | some (params, _) => do
    popAll params
    unreachable

def stepCallRef (kind : InstrKind) (index : Nat) : Check Unit :=
  match funcTypeFromTypeIdx fv.m.types { index } with
  | none => fail (fv.verr .unknownType "call_ref")
  | some (params, results) => do
    match ← pop with
    | .unknown => pure ()
    | .known t =>
      if fv.subtype t (indexedRef true index false) then pure ()
      else fail (fv.verr .typeMismatch "call_ref callee")
    popAll params
    if kind = .returnCallRef then do
      let outs ← funcResults
      if fv.matchValTypes results outs then unreachable
      else fail (fv.verr .typeMismatch "return_call_ref")
    else pushAll results

/-- A catch clause against the types of the label it branches to. -/
def catchPayload (c : Catch) (lt : List ValType) : Except Err Unit :=
  let mismatch : Except Err Unit := .error (fv.verr .typeMismatch "catch payload label mismatch")
  let params : Except Err (List ValType) :=
    if c.kind = .tag ∨ c.kind = .ref then
      match fv.m.tagFuncType c.tag with
      | none => .error (fv.verr .unknownTag "catch")
      | some (params, _) => .ok params
    else .ok []
  match params with
  | .error e => .error e
  | .ok params =>
    let payload :=
      if c.kind = .ref ∨ c.kind = .allRef then params ++ [.ref (mkRef false (.abs .exn) false)]
      else params
    if c.kind = .all ∧ lt.length ≠ 0 then
      .error (fv.verr .typeMismatch "catch_all label must expect no values")
    else if fv.matchValTypes payload lt then .ok ()
    else mismatch

def validateCatchPayload (c : Catch) : Check Unit := do
  ofExcept (fv.catchPayload c (← label c.label))

/-! ## Atomics -/

def stepAtomic (i : Instr) : Check Unit :=
  match i.kind with
  | .atomicFence => pure ()
  | .memoryAtomicNotify => do
    let addr ← ofExcept (fv.checkAtomicMemArg i.memArg 2)
    popExpect .i32
    popExpect addr
    push (.known .i32)
  | .memoryAtomicWait32 => do
    let addr ← ofExcept (fv.checkAtomicMemArg i.memArg 2)
    popExpect .i64
    popExpect .i32
    popExpect addr
    push (.known .i32)
  | .memoryAtomicWait64 => do
    let addr ← ofExcept (fv.checkAtomicMemArg i.memArg 3)
    popExpect .i64
    popExpect .i64
    popExpect addr
    push (.known .i32)
  | .atomicRmw => do
    let eff := atomicRmwEffect i.atomicOp
    let addr ← ofExcept (fv.checkAtomicMemArg i.memArg eff.align)
    popExpect (.num eff.typ)
    popExpect addr
    push (.known (.num eff.typ))
  | .atomicCmpxchg => do
    let eff := atomicCmpxchgEffect i.atomicOp
    let addr ← ofExcept (fv.checkAtomicMemArg i.memArg eff.align)
    popExpect (.num eff.typ)
    popExpect (.num eff.typ)
    popExpect addr
    push (.known (.num eff.typ))
  | kind =>
    match lookupAtomicEffect atomicLoadEffects .i32AtomicLoad kind,
      lookupAtomicEffect atomicLoadEffects .i32AtomicStore kind with
    | some eff, _ => do
      let addr ← ofExcept (fv.checkAtomicMemArg i.memArg eff.align)
      popExpect addr
      push (.known (.num eff.typ))
    | none, some eff => do
      let addr ← ofExcept (fv.checkAtomicMemArg i.memArg eff.align)
      popExpect (.num eff.typ)
      popExpect addr
    | none, none => fail (fv.verr .unsupportedValidationOpcode kind.string)

/-! ## Garbage-collected references -/

def descriptorTargetRefType (nullable : Bool) (ht : HeapType) (exact : Bool) : Option RefType :=
  match ht with
  | .typeIndex idx =>
    if (subtypeByTypeIdx fv.m.types idx).isSome then some (mkRef nullable ht exact) else none
  | _ => some (mkRef nullable ht exact)

/-- The absolute index of the descriptor a struct declares, where `st` is in group `recGroup`. -/
def descriptorOf (st : SubType) (recGroup : Nat) (missing : String) : Except Err Nat :=
  match st.descriptor with
  | none => .error (fv.verr .typeMismatch missing)
  | some descriptor =>
    match flatTypeIdxInRecGroup fv.m.types descriptor (some recGroup) with
    | none => .error (fv.verr .unknownType "invalid descriptor type")
    | some flat => .ok flat

/-- The operand of a test or cast against its target. -/
def castCompatible (byDescriptor : Bool) (target : RefType) : Val → Check Unit
  | .known (.ref rt) =>
    if (if byDescriptor then fv.types.descriptorCompatible rt target
        else fv.types.refTestCompatible rt target) then pure ()
    else fail (fv.verr .typeMismatch "target does not match operand type")
  | _ => pure ()

def stepConvert (operand result : RefType) : Check Unit := do
  let x ← pop
  ofExcept (fv.expect (.ref operand) x)
  -- an unreachable operand can use the non-null input type
  let nullable := match x with
    | .known (.ref rt) => rt.nullable
    | _ => false
  push (.known (.ref (result.withNullable nullable)))

def stepRefTest (i : Instr) : Check Unit := do
  let x ← pop
  requireRef (fv.verr .typeMismatch (i.kind.string ++ " expects a reference operand")) x
  match fv.descriptorTargetRefType i.cast.targetNullable i.heapType false with
  | none => fail (fv.verr .unknownType "invalid descriptor target reftype")
  | some target => do
    fv.castCompatible (i.kind = .refTestDesc) target x
    push (.known .i32)

/-- The descriptor operand of `ref.cast_desc_eq`. -/
def popCastDescriptor (ht : HeapType) (exact : Bool) : Check Unit :=
  match ht with
  | .typeIndex idx =>
    match subtypeByTypeIdxWithRecGroup fv.m.types idx with
    | none => fail (fv.verr .unknownType "invalid descriptor target reftype")
    | some (st, recGroup) =>
      if st.comp.kind ≠ .struct then
        fail (fv.verr .typeMismatch "cast target must have descriptor")
      else do
        let flat ← ofExcept (fv.descriptorOf st recGroup "cast target must have descriptor")
        popExpect (indexedRef true flat exact)
  | _ => fail (fv.verr .typeMismatch "cast target must have descriptor")

def stepRefCast (i : Instr) : Check Unit :=
  match fv.descriptorTargetRefType i.cast.targetNullable i.heapType i.cast.sourceNullable with
  | none => fail (fv.verr .unknownType "invalid descriptor target reftype")
  | some target => do
    if i.kind = .refCastDescEq then fv.popCastDescriptor i.heapType i.cast.sourceNullable else pure ()
    let x ← pop
    requireRef (fv.verr .typeMismatch "ref.cast expects a reference operand") x
    fv.castCompatible (i.kind = .refCastDescEq) target x
    push (.known (.ref target))

def stepBrOnCast (i : Instr) : Check Unit := do
  let lt ← label i.index
  match lt.getLast? with
  | none => fail (fv.verr .typeMismatch "label type too short")
  | some (.ref labelRef) =>
    let rt1 := mkRef i.cast.sourceNullable i.heapType false
    let rt2 := mkRef i.cast.targetNullable i.heapType2 false
    if !fv.types.refSubtype rt2 rt1 then fail (fv.verr .typeMismatch "rt2 does not match rt1")
    else do
      match ← pop with
      | .unknown => pure ()
      | .known (.ref rt) =>
        if fv.types.refSubtype rt rt1 then pure () else fail (fv.verr .typeMismatch "br_on_cast operand")
      | .known _ => fail (fv.verr .typeMismatch "br_on_cast operand")
      -- a nullable target takes null on the successful edge
      let failed := if rt2.nullable then rt1.withNullable false else rt1
      let castFail := decide (i.kind = .brOnCastFail)
      let taken := if castFail then failed else rt2
      let other := if castFail then rt2 else failed
      if fv.subtype (.ref taken) (.ref labelRef) then do
        popAll lt.dropLast
        pushAll lt.dropLast
        push (.known (.ref other))
      else fail (fv.verr .typeMismatch
        (if castFail then "failed source does not match label rt" else "rt2 does not match label rt"))
  | some _ => fail (fv.verr .typeMismatch "label must end with a reftype")

def stepRefGetDesc (index : Nat) : Check Unit :=
  match structFields fv.m.types { index } with
  | none => fail (fv.verr .unknownType "ref.get_desc")
  | some (_, st, recGroup) => do
    let flat ← ofExcept (fv.descriptorOf st recGroup "type without descriptor")
    match ← pop with
    | .unknown => pure ()
    | .known (.ref rt) =>
      if fv.types.refSubtype rt (mkRef true (.typeIndex { index }) false) then pure ()
      else fail (fv.verr .typeMismatch "ref.get_desc target")
    | .known _ => fail (fv.verr .typeMismatch "expected a reference operand")
    push (.known (indexedRef false flat true))

def stepStructNew (kind : InstrKind) (index : Nat) : Check Unit :=
  match structFields fv.m.types { index } with
  | none => fail (fv.verr .unknownType "struct.new")
  | some (fields, st, recGroup) =>
    if (kind = .structNew ∨ kind = .structNewDefault) ∧ st.descriptor.isSome then
      fail (fv.verr .typeMismatch "use struct.new_desc for descriptor-bearing struct")
    else do
      if kind = .structNewDefault ∨ kind = .structNewDefaultDesc then
        if fields.any fun f => !f.storage.isPacked && !valTypeDefaultable (storageValType f.storage) then
          fail (fv.verr .typeMismatch "field not defaultable")
        else pure ()
      else popAll (fields.map fun f => storageValType f.storage)
      if kind = .structNewDesc ∨ kind = .structNewDefaultDesc then do
        let flat ← ofExcept (fv.descriptorOf st recGroup "type without descriptor")
        popExpect (indexedRef false flat true)
      else pure ()
      push (.known (indexedRef false index false))

def stepStructGet (kind : InstrKind) (index index2 : Nat) : Check Unit :=
  match structFields fv.m.types { index } with
  | none => fail (fv.verr .unknownType "struct.get")
  | some (fields, _) =>
    match fields[index2]? with
    | none => fail (fv.verr .typeMismatch "unknown field")
    | some f =>
      if f.storage.isPacked != packedFieldGet kind then
        fail (fv.verr .typeMismatch "field storage does not match struct.get variant")
      else do
        popExpect (indexedRef true index false)
        push (.known (storageValType f.storage))

def stepStructSet (index index2 : Nat) : Check Unit :=
  match structFields fv.m.types { index } with
  | none => fail (fv.verr .unknownType "struct.set")
  | some (fields, _) =>
    match fields[index2]? with
    | none => fail (fv.verr .typeMismatch "unknown field")
    | some f =>
      if f.mutability ≠ .var then fail (fv.verr .typeMismatch "immutable field")
      else do
        popExpect (storageValType f.storage)
        popExpect (indexedRef true index false)

/-- The array type at an index, reported as `op` when there is none. -/
def withArray (index : Nat) (op : String) (k : FieldType → Check Unit) : Check Unit :=
  match arrayField fv.m.types { index } with
  | none => fail (fv.verr .unknownType op)
  | some (f, _) => k f

def withMutableArray (index : Nat) (op : String) (k : FieldType → Check Unit) : Check Unit :=
  fv.withArray index op fun f =>
    if f.mutability ≠ .var then fail (fv.verr .typeMismatch "immutable array") else k f

/-- The operands of `array.new_fixed`. Operands missing in an unreachable frame are not looped over,
since the count is untrusted. -/
def popFixed (elem : ValType) (count : Nat) : Check Unit := do
  let (available, unreachable) ← available
  if count > available ∧ unreachable = false then fail (fv.verr .typeMismatch "stack underflow")
  else popAll (List.replicate (min count available) elem)

def checkDataArray (f : FieldType) (index2 : Nat) (op : String) : Except Err Unit :=
  if f.storage.isRef then .error (fv.verr .typeMismatch "array type is not numeric or vector")
  else fv.checkDataIndex index2 op

def checkElemArray (f : FieldType) (index2 : Nat) (op : String) : Except Err Unit :=
  match f.storage with
  | .val (.ref want) =>
    match fv.elemRefType index2 with
    | .error e => .error e
    | .ok elemRef =>
      if fv.types.refSubtype elemRef want then .ok ()
      else .error (fv.verr .typeMismatch (op ++ " element type"))
  | _ => .error (fv.verr .typeMismatch (op ++ " destination is not a reference array"))

def stepArrayNew (i : Instr) : Check Unit :=
  fv.withArray i.index "array.new" fun f => do
    let elem := storageValType f.storage
    match i.kind with
    | .arrayNew => do
      popExpect .i32
      popExpect elem
    | .arrayNewDefault =>
      if !f.storage.isPacked && !valTypeDefaultable elem then
        fail (fv.verr .typeMismatch "element not defaultable")
      else popExpect .i32
    | .arrayNewFixed => fv.popFixed elem i.index2
    | .arrayNewData => do
      ofExcept (fv.checkDataArray f i.index2 "array.new_data")
      popAll [.i32, .i32]
    | .arrayNewElem => do
      ofExcept (fv.checkElemArray f i.index2 "array.new_elem")
      popAll [.i32, .i32]
    | _ => pure ()
    push (.known (indexedRef false i.index false))

def stepArrayCopy (index index2 : Nat) : Check Unit :=
  fv.withArray index "array.copy" fun dst => fv.withArray index2 "array.copy" fun src =>
    if dst.mutability ≠ .var then fail (fv.verr .typeMismatch "immutable array")
    else
      let storageMatches := match dst.storage, src.storage with
        | .packed p, .packed q => decide (p = q)
        | .val d, .val s => fv.subtype s d
        | _, _ => false
      if storageMatches then do
        popAll [.i32, .i32]
        popExpect (indexedRef true index2 false)
        popExpect .i32
        popExpect (indexedRef true index false)
      else fail (fv.verr .typeMismatch "array types do not match")

def stepGC (i : Instr) : Check Unit :=
  match i.kind with
  | .refI31 => do popExpect .i32; push (.known (.ref (mkRef false (.abs .i31) false)))
  | .i31GetS | .i31GetU => do popExpect .i31Ref; push (.known .i32)
  | .anyConvertExtern => fv.stepConvert (absRef .externHeap) (absRef .any)
  | .externConvertAny => fv.stepConvert (absRef .any) (absRef .externHeap)
  | .refTest | .refTestDesc => fv.stepRefTest i
  | .refCast | .refCastDescEq => fv.stepRefCast i
  | .brOnCast | .brOnCastFail => fv.stepBrOnCast i
  | .refGetDesc => fv.stepRefGetDesc i.index
  | .structNew | .structNewDefault | .structNewDesc | .structNewDefaultDesc =>
    fv.stepStructNew i.kind i.index
  | .structGet | .structGetS | .structGetU | .structAtomicGet | .structAtomicGetS | .structAtomicGetU =>
    fv.stepStructGet i.kind i.index i.index2
  | .structSet => fv.stepStructSet i.index i.index2
  | .arrayNew | .arrayNewDefault | .arrayNewFixed | .arrayNewData | .arrayNewElem => fv.stepArrayNew i
  | .arrayGet | .arrayGetS | .arrayGetU =>
    fv.withArray i.index "array.get" fun f =>
      if f.storage.isPacked != packedFieldGet i.kind then
        fail (fv.verr .typeMismatch "field storage does not match array.get variant")
      else do
        popExpect .i32
        popExpect (indexedRef true i.index false)
        push (.known (storageValType f.storage))
  | .arraySet => fv.withMutableArray i.index "array.set" fun f => do
      popExpect (storageValType f.storage)
      popExpect .i32
      popExpect (indexedRef true i.index false)
  | .arrayLen => do
      match ← pop with
      | .unknown => pure ()
      | .known (.ref rt) =>
        if fv.types.heapSubtype rt.heap (.abs .array) then pure ()
        else fail (fv.verr .typeMismatch "array.len")
      | .known _ => fail (fv.verr .typeMismatch "array.len")
      push (.known .i32)
  | .arrayFill => fv.withMutableArray i.index "array.fill" fun f => do
      popExpect .i32
      popExpect (storageValType f.storage)
      popExpect .i32
      popExpect (indexedRef true i.index false)
  | .arrayCopy => fv.stepArrayCopy i.index i.index2
  | .arrayInitData => fv.withMutableArray i.index "array.init_data" fun f => do
      ofExcept (fv.checkDataArray f i.index2 "array.init_data")
      popAll [.i32, .i32, .i32]
      popExpect (indexedRef true i.index false)
  | .arrayInitElem => fv.withMutableArray i.index "array.init_elem" fun f => do
      ofExcept (fv.checkElemArray f i.index2 "array.init_elem")
      popAll [.i32, .i32, .i32]
      popExpect (indexedRef true i.index false)
  | kind => fail (fv.verr .unsupportedValidationOpcode kind.string)

/-! ## SIMD -/

def stepSIMD (i : Instr) (e : SimdEffect) : Check Unit := do
  if (i.kind = .i8x16Shuffle ∧ i.lanes.any (32 ≤ ·)) ∨ (e.laneLimit ≠ 0 ∧ e.laneLimit ≤ i.lane.toNat) then
    fail (fv.verr .typeMismatch "simd lane out of range")
  else
    match e.cat with
    | .load => do
      popExpect (← ofExcept (fv.checkMemArg i.memArg e.align))
      push (.known .v128)
    | .store => do
      let addr ← ofExcept (fv.checkMemArg i.memArg 4)
      popExpect .v128
      popExpect addr
    | .memLoadLane => do
      let addr ← ofExcept (fv.checkMemArg i.memArg e.align)
      popExpect .v128
      popExpect addr
      push (.known .v128)
    | .memStoreLane => do
      let addr ← ofExcept (fv.checkMemArg i.memArg e.align)
      popExpect .v128
      popExpect addr
    | .splat scalar => do popExpect (.num scalar); push (.known .v128)
    | .extract scalar => do popExpect .v128; push (.known (.num scalar))
    | .replace scalar => do popExpect (.num scalar); popExpect .v128; push (.known .v128)
    | .shift => do popExpect .i32; popExpect .v128; push (.known .v128)
    | .unary => do popExpect .v128; push (.known .v128)
    | .binary => do popAll [.v128, .v128]; push (.known .v128)
    | .ternary | .bitselect => do popAll [.v128, .v128, .v128]; push (.known .v128)
    | .popV128PushI32 => do popExpect .v128; push (.known .i32)
    | .const => push (.known .v128)

/-! ## The switch -/

/-- `proposalStep`, and the error of `stackEffect` for a kind neither of them handles. -/
def proposalStep (i : Instr) : Check Unit :=
  match i.kind with
  | .i64Add128 | .i64Sub128 => stepWide 4
  | .i64MulWideS | .i64MulWideU => stepWide 2
  | .throw => fv.stepThrow i.index
  | .throwRef => do popExpect (.ref (absRef .exn)); unreachable
  | .callRef | .returnCallRef => fv.stepCallRef i.kind i.index
  | kind =>
    if kind ∈ atomicKinds then fv.stepAtomic i
    else if kind ∈ gcKinds then fv.stepGC i
    else
      match simdEffects kind with
      | some e => fv.stepSIMD i e
      | none => fail (fv.verr .unsupportedValidationOpcode kind.string)

end FuncEnv

end Wago.Wasm
