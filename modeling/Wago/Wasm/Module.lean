/-
Decoded modules (`types.go`) and their index spaces. In each space the imports of the kind come
first and the module's own definitions after them (`validate_import_index.go`,
`module_helpers.go`).
-/
import Wago.Wasm.Instr
import Wago.Wasm.InstrDecode
import Wago.Wasm.TypeIndex

namespace Wago.Wasm

structure Limits where
  min : Nat
  /-- `Max`, when `HasMax` is set. -/
  max : Option Nat
  addr64 : Bool
  deriving DecidableEq, Repr

structure TagType where
  type : TypeIdx
  deriving DecidableEq, Repr

structure GlobalType where
  type : ValType
  mutable : Bool
  deriving DecidableEq, Repr

structure MemType where
  limits : Limits
  shared : Bool
  deriving DecidableEq, Repr

structure TableType where
  ref : RefType
  limits : Limits
  deriving DecidableEq, Repr

inductive ExternType
  | func (t : TypeIdx)
  | table (t : TableType)
  | mem (t : MemType)
  | global (t : GlobalType)
  | tag (t : TagType)
  deriving DecidableEq, Repr

/-- Decoded expressions keep their bytes, `end` included; the instruction list is for modules built
by a program. -/
structure Expr where
  instrs : List Instruction := []
  bodyBytes : List UInt8 := []

inductive ElemModeKind
  | passive | active | declarative
  deriving DecidableEq, Repr

structure ElemMode where
  kind : ElemModeKind
  table : Nat := 0
  offset : Expr := {}

inductive ElemKindKind
  | funcs | funcExprs | typedExprs
  deriving DecidableEq, Repr

structure ElemKind where
  kind : ElemKindKind
  funcs : List Nat := []
  ref : RefType
  exprs : List Expr := []

structure Elem where
  mode : ElemMode
  kind : ElemKind

structure Import where
  module : String
  name : String
  type : ExternType
  deriving DecidableEq

structure Table where
  type : TableType
  init : Option Expr := none

structure Global where
  type : GlobalType
  init : Expr := {}

structure LocalRun where
  count : Nat
  type : ValType
  deriving DecidableEq, Repr

inductive DataModeKind
  | active | passive
  deriving DecidableEq, Repr

structure DataMode where
  kind : DataModeKind
  mem : Nat := 0
  offset : Expr := {}

structure Data where
  mode : DataMode
  init : List UInt8

structure Module where
  types : List RecType := []
  imports : List Import := []
  funcTypes : List TypeIdx := []
  tables : List Table := []
  memories : List MemType := []
  tags : List TagType := []
  stringRefs : List (List UInt8) := []
  globals : List Global := []
  elements : List Elem := []
  dataCount : Option Nat := none
  data : List Data := []

/-! ## Index spaces -/

/-- The entry of an index space: the imports of the kind, then the module's own definitions. -/
def indexSpace {α : Type} (imported defined : List α) (idx : Nat) : Option α :=
  if idx < imported.length then imported[idx]? else defined[idx - imported.length]?

namespace Module

variable (m : Module)

def importedFuncs : List TypeIdx :=
  m.imports.filterMap fun im => match im.type with | .func t => some t | _ => none

def importedTables : List TableType :=
  m.imports.filterMap fun im => match im.type with | .table t => some t | _ => none

def importedMems : List MemType :=
  m.imports.filterMap fun im => match im.type with | .mem t => some t | _ => none

def importedGlobals : List GlobalType :=
  m.imports.filterMap fun im => match im.type with | .global t => some t | _ => none

def importedTags : List TagType :=
  m.imports.filterMap fun im => match im.type with | .tag t => some t | _ => none

def funcTypeIndex (idx : Nat) : Option TypeIdx := indexSpace m.importedFuncs m.funcTypes idx

def funcType (idx : Nat) : Option (List ValType × List ValType) :=
  (m.funcTypeIndex idx).bind (funcTypeFromTypeIdx m.types)

def globalType (idx : Nat) : Option GlobalType :=
  indexSpace m.importedGlobals (m.globals.map (·.type)) idx

def tableType (idx : Nat) : Option TableType :=
  indexSpace m.importedTables (m.tables.map (·.type)) idx

def memoryType (idx : Nat) : Option MemType := indexSpace m.importedMems m.memories idx

def tagFuncType (idx : Nat) : Option (List ValType × List ValType) :=
  (indexSpace m.importedTags m.tags idx).bind fun t => funcTypeFromTypeIdx m.types t.type

def funcCount : Nat := m.importedFuncs.length + m.funcTypes.length

end Module

def tableAddrType (tt : TableType) : ValType := if tt.limits.addr64 then .i64 else .i32

/-! ## Locals -/

/-- The number of parameters and declared locals, unless it exceeds the `uint64` range. -/
def localCount (params : List ValType) (runs : List LocalRun) : Option Nat :=
  runs.foldlM (fun count run => if 2 ^ 64 - 1 - count < run.count then none else some (count + run.count))
    params.length

/-- The type at an offset into the declared locals, without expanding the runs. -/
def localRunType : List LocalRun → Nat → Option ValType
  | [], _ => none
  | run :: runs, rem => if rem < run.count then some run.type else localRunType runs (rem - run.count)

def localType (params : List ValType) (runs : List LocalRun) (idx : Nat) : Option ValType :=
  if idx < params.length then params[idx]? else localRunType runs (idx - params.length)

/-- `sort.Search`: the binary search for the least index in `[lo, hi)` that satisfies `p`. The
interval shrinks in each round, so `fuel` at least its length is never used up. -/
def sortSearch (p : Nat → Bool) : (fuel lo hi : Nat) → Nat
  | 0, lo, _ => lo
  | fuel + 1, lo, hi =>
    if lo < hi then
      let h := (lo + hi) / 2
      if !p h then sortSearch p fuel (h + 1) hi else sortSearch p fuel lo h
    else lo

def localTypeIndexed (params : List ValType) (runs : List LocalRun) (runEnds : List Nat) (idx : Nat) :
    Option ValType :=
  if idx < params.length then params[idx]?
  else if runs.length ≤ 2 ∨ runEnds.length ≠ runs.length then localType params runs idx
  else
    let i := sortSearch (fun i => decide (idx < runEnds.getD i 0)) runEnds.length 0 runEnds.length
    (runs[i]?).map (·.type)

end Wago.Wasm
