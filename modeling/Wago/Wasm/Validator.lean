/-
The state of the function validator (`validate.go`, `validate_ops.go`): operand and control stacks,
the log of initialised locals, the lazily built index of local runs and the stamps of `br_table`.
Stacks are lists with their top first. What is assigned before a body is checked and only read while
it is (the function index, its parameters and local runs, the const-expression mode) is in
`FuncEnv`.
-/
import Wago.Lib.Program
import Wago.Wasm.Module
import Wago.Wasm.TypeSection
import Mathlib.Data.Finset.Basic

namespace Wago.Wasm

/-! ## Type texts of error details -/

def AbsHeapType.text : AbsHeapType → String
  | .string => "string"
  | .exn => "exn"
  | .array => "array"
  | .struct => "struct"
  | .i31 => "i31"
  | .eq => "eq"
  | .any => "any"
  | .externHeap => "extern"
  | .func => "func"
  | .none => "none"
  | .noExtern => "noextern"
  | .noFunc => "nofunc"
  | .noExn => "noexn"

def HeapType.text : HeapType → String
  | .bottom => "bot"
  | .abs a => a.text
  | .typeIndex t => "type " ++ toString t.index
  | .defType none => "def ?"
  | .defType (some d) => "def " ++ toString d.group ++ "." ++ toString d.member

def RefType.text (rt : RefType) : String :=
  (if rt.nullable then "ref null" else "ref") ++ (if rt.exact then " exact" else "") ++ " " ++
    rt.heap.text

def ValType.text : ValType → String
  | .num .i32 => "i32"
  | .num .i64 => "i64"
  | .num .f32 => "f32"
  | .num .f64 => "f64"
  | .vec => "v128"
  | .ref rt =>
    if rt.bare && rt.nullable && !rt.exact && rt.heap = .abs .func then "funcref"
    else if rt.bare && rt.nullable && !rt.exact && rt.heap = .abs .externHeap then "externref"
    else rt.text
  | .bot => "⊥"

/-! ## The module a body is checked in -/

structure ValidationFeatures where
  compactImports : Bool := false
  multiMemory : Bool := false
  /-- `global.get` of a prior immutable local global in constant expressions. -/
  extendedConstGlobals : Bool := false
  gcConstExpr : Bool := false
  deriving DecidableEq, Repr

structure ValidationLimits where
  maxFunctionLocals : Nat := 0
  maxMemoriesPerModule : Nat := 0
  deriving DecidableEq, Repr

/-- An element segment as the byte-backed decoder summarises it. -/
structure DirectElem where
  modeKind : ElemModeKind
  table : Nat := 0
  offset : List UInt8 := []
  kind : ElemKindKind
  ref : RefType
  hasFuncs : Bool := false
  maxFunc : Nat := 0
  funcs : List Nat := []
  elemLen : Nat := 0
  exprs : List (List UInt8) := []

structure DirectValidationEnv where
  tableHasInit : List Bool := []
  tableInits : List (List UInt8) := []
  globalInits : List (List UInt8) := []
  elements : List DirectElem := []

/-- What function bodies read of the module validator. -/
structure ModuleValidator where
  m : Module
  types : TypeContext
  direct : Option DirectValidationEnv := none
  features : ValidationFeatures := {}
  limits : ValidationLimits := {}
  declaredFuncs : List Nat := []

structure FuncEnv extends ModuleValidator where
  /-- Absolute function index, `-1` for a constant expression. -/
  funcIndex : Int
  localParams : List ValType := []
  localRuns : List LocalRun := []
  localCount : Nat := 0
  constOnly : Bool := false
  /-- Globals below this index are visible to a constant expression. -/
  constGlobalLimit : Nat := 0

namespace FuncEnv

variable (fv : FuncEnv)

def verr (code : ValidationErrorCode) (detail : String) : Err :=
  .validation { code, func := fv.funcIndex, detail }

def subtype (a b : ValType) : Bool :=
  if b = .bot ∨ a = .bot then true
  else if equalValType a b then true
  else
    match a, b with
    | .ref r, .ref q => fv.types.refSubtype r q
    | _, _ => false

/-- Whether values of the actual types may flow to positions of the expected ones. -/
def matchValTypes (actual expected : List ValType) : Bool :=
  actual.length = expected.length && (actual.zip expected).all fun (a, b) => fv.subtype a b

/-- Whether the initialisation of a local is tracked: it is declared, not a parameter, and of a type
without a default. -/
def initTracked (idx : Nat) (t : ValType) : Bool :=
  !(decide (idx < fv.localParams.length) || valTypeDefaultable t)

end FuncEnv

/-! ## State -/

/-- An operand: of a known type, or popped below the height of an unreachable frame. -/
inductive Val
  | unknown
  | known (t : ValType)
  deriving DecidableEq, Repr

/-- The check of `popExpect` on the popped operand. -/
def FuncEnv.expect (fv : FuncEnv) (t : ValType) : Val → Except Err Unit
  | .unknown => .ok ()
  | .known t' =>
    if fv.subtype t' t then .ok ()
    else .error (fv.verr .typeMismatch (t'.text ++ " is not " ++ t.text))

inductive CtrlKind
  | func | block | loop | if_ | try_
  deriving DecidableEq, Repr

structure CtrlFrame where
  kind : CtrlKind
  ins : List ValType
  outs : List ValType
  height : Nat
  /-- Length of the initialisation log at entry. -/
  initHeight : Nat
  /-- Operand height at the end of the then-arm; streaming only. -/
  ifThenHeight : Nat := 0
  /-- The last `br_table` that has checked this label. -/
  branchTableEpoch : Nat := 0
  unreachable : Bool := false
  ifSeenElse : Bool := false
  deriving DecidableEq, Repr

def labelTypesOf (kind : CtrlKind) (ins outs : List ValType) : List ValType :=
  if kind = .loop then ins else outs

structure FuncValidator where
  vals : List Val := []
  ctrls : List CtrlFrame := []
  localRunEnds : List Nat := []
  localLookupWork : Nat := 0
  initializedLocals : Finset Nat := ∅
  localInitLog : List Nat := []
  branchTableEpoch : Nat := 0
  rd : Reader := newReader []

abbrev ValidateM := EStateM Err FuncValidator

/-! ## Operands -/

namespace FuncValidator

def top : ValidateM CtrlFrame := do
  match (← get).ctrls with
  | f :: _ => return f
  | [] => throw .outOfRange

def push (x : Val) : ValidateM Unit := modify fun v => { v with vals := x :: v.vals }

def pushAll (ts : List ValType) : ValidateM Unit := ts.forM fun t => push (.known t)

/-- Empties the operand stack down to the height of the top frame and marks the frame. -/
def unreachable : ValidateM Unit := do
  let v ← get
  match v.ctrls with
  | f :: fs =>
    set { v with
      vals := v.vals.drop (v.vals.length - f.height)
      ctrls := { f with unreachable := true } :: fs }
  | [] => throw .outOfRange

def pop (fv : FuncEnv) : ValidateM Val := do
  let f ← top
  let v ← get
  if v.vals.length = f.height then
    if f.unreachable then return .unknown else throw (fv.verr .typeMismatch "stack underflow")
  else
    match v.vals with
    | x :: vals => do set { v with vals }; return x
    | [] => throw .outOfRange

def popExpect (fv : FuncEnv) (t : ValType) : ValidateM Unit := do
  let x ← pop fv
  match fv.expect t x with
  | .ok () => return ()
  | .error e => throw e

/-- Pops the types from the last to the first. -/
def popAll (fv : FuncEnv) (ts : List ValType) : ValidateM Unit := ts.reverse.forM (popExpect fv)

/-! ## Labels -/

def label (fv : FuncEnv) (depth : Nat) : ValidateM (List ValType) := do
  match (← get).ctrls[depth]? with
  | some f => return labelTypesOf f.kind f.ins f.outs
  | none => throw (fv.verr .unknownLabel "")

/-- The results of the function, `v.ctrls[0].out`. -/
def funcResults : ValidateM (List ValType) := do
  match (← get).ctrls.getLast? with
  | some f => return f.outs
  | none => throw .outOfRange

/-- Advances the generation that stamps distinct targets; on overflow every active frame starts
over. -/
def beginBranchTable : ValidateM Unit := modify fun v =>
  let epoch := (v.branchTableEpoch + 1) % 2 ^ 32
  if epoch = 0 then
    { v with ctrls := v.ctrls.map ({ · with branchTableEpoch := 0 }), branchTableEpoch := 1 }
  else { v with branchTableEpoch := epoch }

/-- Whether the current `br_table` meets the label for the first time. -/
def markBranchTableLabel (label : Nat) : ValidateM Bool := do
  let v ← get
  match v.ctrls[label]? with
  | some f => do
    set { v with ctrls := v.ctrls.set label { f with branchTableEpoch := v.branchTableEpoch } }
    return f.branchTableEpoch != v.branchTableEpoch
  | none => throw .outOfRange

/-- One target of a `br_table` against the default's types `dt`. Every target consumes the same
payload, so the operands are put back after its check. -/
def branchTarget (fv : FuncEnv) (dt : List ValType) (payload : List Val) (l : Nat) :
    ValidateM Unit := do
  let lt ← label fv l
  if ← markBranchTableLabel l then
    if lt.length ≠ dt.length then throw (fv.verr .typeMismatch "br_table label arity")
    else do
      popAll fv lt
      modify fun v => { v with vals := payload }
  else return ()

def branchTargets (fv : FuncEnv) (dt : List ValType) (default : Nat) (labels : List Nat) :
    ValidateM Unit := do
  let payload := (← get).vals
  beginBranchTable
  let _ ← markBranchTableLabel default
  labels.forM (branchTarget fv dt payload)

def stepBrTable (fv : FuncEnv) (i : Instr) : ValidateM Unit := do
  popExpect fv .i32
  let dt ← label fv i.index
  branchTargets fv dt i.index i.indices
  popAll fv dt
  unreachable

/-! ## Locals -/

/-- Scans the runs for the one that holds offset `rem`: its position and type, or what is left of
the offset after all of them. -/
def scanRuns : (i : Nat) → List LocalRun → (rem : Nat) → Except Nat (Nat × ValType)
  | _, [], rem => .error rem
  | i, run :: runs, rem =>
    if rem < run.count then .ok (i, run.type) else scanRuns (i + 1) runs (rem - run.count)

/-- The absolute ends of the runs. -/
def runEnds : (start : Nat) → List LocalRun → List Nat
  | _, [] => []
  | start, run :: runs => (start + run.count) :: runEnds (start + run.count) runs

def indexLocalRuns (fv : FuncEnv) : ValidateM Unit := modify fun v =>
  { v with localRunEnds :=
      if fv.localRuns.length ≤ 2 then [] else runEnds fv.localParams.length fv.localRuns }

def indexedLocalType (fv : FuncEnv) (idx : Nat) : ValidateM (Option ValType) :=
  return localTypeIndexed fv.localParams fv.localRuns (← get).localRunEnds idx

/-- The type of a local. The index of the runs is built only after scans past the second run have
done comparable work. -/
def localType (fv : FuncEnv) (idx : Nat) : ValidateM (Option ValType) := do
  let v ← get
  if fv.localRuns.length ≤ 2 then return Wasm.localType fv.localParams fv.localRuns idx
  else if v.localRunEnds.length ≠ 0 then indexedLocalType fv idx
  else if idx < fv.localParams.length then return fv.localParams[idx]?
  else if fv.localCount ≤ idx then return none
  else
    match scanRuns 0 (fv.localRuns.take 2) (idx - fv.localParams.length) with
    | .ok (_, t) => return some t
    | .error rem =>
      if 2 * fv.localRuns.length ≤ v.localLookupWork then do
        indexLocalRuns fv
        indexedLocalType fv idx
      else
        match scanRuns 0 (fv.localRuns.drop 2) rem with
        | .ok (i, t) => do
          set { v with localLookupWork := v.localLookupWork + (i + 1) }
          return some t
        | .error _ => return none

def localIsInitialized (fv : FuncEnv) (idx : Nat) (t : ValType) : ValidateM Bool :=
  return !fv.initTracked idx t || decide (idx ∈ (← get).initializedLocals)

def initializeLocal (fv : FuncEnv) (idx : Nat) (t : ValType) : ValidateM Unit := modify fun v =>
  if fv.initTracked idx t = false ∨ idx ∈ v.initializedLocals then v
  else { v with
    initializedLocals := insert idx v.initializedLocals, localInitLog := idx :: v.localInitLog }

/-- Undoes the initialisations logged above `height`. -/
def undoInits (height : Nat) : List Nat → Finset Nat → List Nat × Finset Nat
  | [], inits => ([], inits)
  | idx :: log, inits =>
    if log.length + 1 > height then undoInits height log (inits.erase idx) else (idx :: log, inits)

def restoreLocalInitialization (height : Nat) : ValidateM Unit := modify fun v =>
  let (log, inits) := undoInits height v.localInitLog v.initializedLocals
  { v with localInitLog := log, initializedLocals := inits }

def resetLocalInitialization : ValidateM Unit := modify fun v =>
  { v with localInitLog := [], initializedLocals := ∅ }

def prepareLocalLookup : ValidateM Unit := modify fun v =>
  { v with localRunEnds := [], localLookupWork := 0 }

/-! ## Control frames -/

def pushCtrl (fv : FuncEnv) (kind : CtrlKind) (ins outs : List ValType) : ValidateM Unit := do
  popAll fv ins
  modify fun v => { v with
    ctrls := { kind, ins, outs, height := v.vals.length, initHeight := v.localInitLog.length } :: v.ctrls }
  pushAll ins

def popCtrl (fv : FuncEnv) : ValidateM CtrlFrame := do
  match (← get).ctrls with
  | [] => throw (fv.verr .typeMismatch "no control")
  | f :: _ => do
    popAll fv f.outs
    if (← get).vals.length ≠ f.height then throw (fv.verr .typeMismatch "leftover values")
    else do
      restoreLocalInitialization f.initHeight
      modify fun v => { v with ctrls := v.ctrls.drop 1 }
      pushAll f.outs
      return f

end FuncValidator

/-! ## What the check of an instruction does to the state -/

/-- The accesses that instructions without a body make, other than `br_table`. -/
inductive Access : Type → Type
  | pop : Access Val
  | popExpect (t : ValType) : Access Unit
  | popAll (ts : List ValType) : Access Unit
  | push (x : Val) : Access Unit
  | pushAll (ts : List ValType) : Access Unit
  | label (depth : Nat) : Access (List ValType)
  | funcResults : Access (List ValType)
  /-- The operands above the height of the top frame, and whether the frame is unreachable. -/
  | available : Access (Nat × Bool)
  | unreachable : Access Unit
  | localType (idx : Nat) : Access (Option ValType)
  | localIsInitialized (idx : Nat) (t : ValType) : Access Bool
  | initializeLocal (idx : Nat) (t : ValType) : Access Unit

abbrev Check := Program Access Err

def FuncValidator.available : ValidateM (Nat × Bool) := do
  let f ← FuncValidator.top
  return ((← get).vals.length - f.height, f.unreachable)

def FuncValidator.handle (fv : FuncEnv) : {β : Type} → Access β → ValidateM β
  | _, .pop => pop fv
  | _, .popExpect t => popExpect fv t
  | _, .popAll ts => popAll fv ts
  | _, .push x => push x
  | _, .pushAll ts => pushAll ts
  | _, .label depth => label fv depth
  | _, .funcResults => funcResults
  | _, .available => available
  | _, .unreachable => unreachable
  | _, .localType idx => localType fv idx
  | _, .localIsInitialized idx t => localIsInitialized fv idx t
  | _, .initializeLocal idx t => initializeLocal fv idx t

/-- Runs a check on the validator's state. -/
def FuncEnv.exec {α : Type} (fv : FuncEnv) (c : Check α) : ValidateM α := c.runWith (FuncValidator.handle fv)

end Wago.Wasm
