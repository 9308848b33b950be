/-
The subtype tests of the module validator (`validate_gc_helpers.go`, `validate.go`): abstract heap
types, reference types, declared supertype chains and component types.
-/
import Wago.Wasm.TypeEquiv

namespace Wago.Wasm

def absHeapSubtype (a b : AbsHeapType) : Bool :=
  if a = b then true
  else
    match a with
    | .noFunc => b = .func
    | .noExtern => b = .externHeap
    | .noExn => b = .exn
    | .none => b = .any || b = .eq || b = .struct || b = .array || b = .i31
    | .i31 | .struct | .array => b = .eq || b = .any
    | .eq => b = .any
    | _ => false

/-- What the type tests read of a module validator: the type section and, once subtype validation
has built them, the ancestry intervals of the declared supertype forest by flat index. -/
structure TypeContext where
  types : List RecType
  superEnter : List Nat
  superExit : List Nat

/-- The context of a validator that has built no intervals. -/
def TypeContext.ofTypes (types : List RecType) : TypeContext := { types, superEnter := [], superExit := [] }

/-- Visits the supertypes in order until one visit succeeds, threading the visited indexes. -/
def anySuper (visit : List Nat → Nat → Bool × List Nat) (flatOf : TypeIdx → Option Nat) :
    List TypeIdx → List Nat → Bool × List Nat
  | [], seen => (false, seen)
  | sup :: sups, seen =>
    match flatOf sup with
    | none => anySuper visit flatOf sups seen
    | some supFlat =>
      match visit seen supFlat with
      | (true, seen) => (true, seen)
      | (false, seen) => anySuper visit flatOf sups seen

/-- The walk up the declared supertypes; every level visits a new index, so `fuel` above the number
of types is never used up. -/
def superVisit (types : List RecType) (bFlat : Nat) : (fuel : Nat) → List Nat → Nat → Bool × List Nat
  | 0, seen, _ => (false, seen)
  | fuel + 1, seen, cur =>
    if cur = bFlat ∨ typeIdxEquivalent types { index := cur } { index := bFlat } then (true, seen)
    else if cur ∈ seen then (false, seen)
    else
      let seen := cur :: seen
      match subtypeByFlatTypeIdx types cur with
      | none => (false, seen)
      | some (st, recGroup) =>
        anySuper (superVisit types bFlat fuel)
          (flatTypeIdxInRecGroup types · (some recGroup)) st.supers seen

namespace TypeContext

variable (ctx : TypeContext)

/-- Interval containment, when the intervals have been built. -/
def superContains (aFlat bFlat : Nat) : Bool :=
  ctx.superEnter.length != 0 &&
    match ctx.superEnter[bFlat]?, ctx.superEnter[aFlat]?, ctx.superExit[aFlat]?, ctx.superExit[bFlat]? with
    | some bEnter, some aEnter, some aExit, some bExit => bEnter ≤ aEnter && aExit ≤ bExit
    | _, _, _, _ => false

def typeIdxSuperSubtype (a b : TypeIdx) : Bool :=
  match flatTypeIdxInRecGroup ctx.types a none, flatTypeIdxInRecGroup ctx.types b none with
  | some aFlat, some bFlat =>
    ctx.superContains aFlat bFlat ||
      (superVisit ctx.types bFlat ((flatSubTypes ctx.types).length + 1) [] aFlat).1
  | _, _ => false

def refSubtype (a b : RefType) : Bool :=
  if !b.nullable && a.nullable then false
  else if a.heap = .bottom then true
  else if heapTypeEquivalent ctx.types a.heap b.heap then !(b.exact && !a.exact)
  else
    match a.heap, b.heap with
    | .typeIndex x, .typeIndex y => !b.exact && ctx.typeIdxSuperSubtype x y
    | .abs x, .typeIndex y =>
      match compTypeFromTypeIdx ctx.types y with
      | none => false
      | some (.func _ _) => x = .noFunc
      | some _ => x = .none
    | .typeIndex x, .abs y =>
      match compTypeFromTypeIdx ctx.types x with
      | none => false
      | some (.struct _) => absHeapSubtype .struct y
      | some (.array _) => absHeapSubtype .array y
      | some (.func _ _) => absHeapSubtype .func y
    | .abs x, .abs y => absHeapSubtype x y
    | _, _ => false

def heapSubtype (a b : HeapType) : Bool :=
  heapTypeEquivalent ctx.types a b || ctx.refSubtype (mkRef false a false) (mkRef false b false)

/-! ## Component types -/

/-- The value comparison of `compTypeSubtype`, on types in the groups they are declared in. -/
def subVal (a : ValType) (aGroup : Nat) (b : ValType) (bGroup : Nat) : Bool :=
  match resolveValTypeRecIndexes ctx.types a aGroup, resolveValTypeRecIndexes ctx.types b bGroup with
  | .bot, _ => true
  | .num m, .num n => m = n
  | .vec, .vec => true
  | .ref r, .ref q => ctx.refSubtype r q
  | _, _ => false

def storageSubtype (a : StorageType) (aGroup : Nat) (b : StorageType) (bGroup : Nat) : Bool :=
  match a, b with
  | .packed p, .packed q => p = q
  | .val v, .val w => ctx.subVal v aGroup w bGroup
  | _, _ => false

def fieldSubtype (a : FieldType) (aGroup : Nat) (b : FieldType) (bGroup : Nat) : Bool :=
  a.mutability = b.mutability && ctx.storageSubtype a.storage aGroup b.storage bGroup &&
    (a.mutability = .const || ctx.storageSubtype b.storage bGroup a.storage aGroup)

def compTypeSubtype (sub : CompType) (subGroup : Nat) (sup : CompType) (supGroup : Nat) : Bool :=
  match sub, sup with
  | .func ps rs, .func ps' rs' =>
    ps.length = ps'.length && rs.length = rs'.length &&
      (ps.zip ps').all (fun (p, p') => ctx.subVal p' supGroup p subGroup) &&
      (rs.zip rs').all (fun (r, r') => ctx.subVal r subGroup r' supGroup)
  | .struct fs, .struct fs' =>
    fs'.length ≤ fs.length && (fs.zip fs').all (fun (f, f') => ctx.fieldSubtype f subGroup f' supGroup)
  | .array f, .array f' => ctx.fieldSubtype f subGroup f' supGroup
  | _, _ => false

/-! ## Cast compatibility -/

inductive RefTestFamily
  | data | func | externHeap | exn | string
  deriving DecidableEq, Repr

def compKindFamily : CompTypeKind → RefTestFamily
  | .struct | .array => .data
  | .func => .func

def refTestHeapFamily : HeapType → Option RefTestFamily
  | .abs .none | .abs .i31 | .abs .struct | .abs .array | .abs .eq | .abs .any => some .data
  | .abs .noFunc | .abs .func => some .func
  | .abs .noExtern | .abs .externHeap => some .externHeap
  | .abs .noExn | .abs .exn => some .exn
  | .abs .string => some .string
  | .typeIndex idx => (compTypeFromTypeIdx ctx.types idx).map fun ct => compKindFamily ct.kind
  | .defType d => (d.bind (·.kind)).map compKindFamily
  | .bottom => none

/-- The cast-hierarchy match of `ref.test`: siblings are compatible, disjoint hierarchies are not. -/
def refTestCompatible (a b : RefType) : Bool :=
  if a.heap = .bottom ∨ b.heap = .bottom then true
  else
    match ctx.refTestHeapFamily a.heap, ctx.refTestHeapFamily b.heap with
    | some af, some bf => af = bf
    | _, _ => false

def descriptorCompatible (a b : RefType) : Bool :=
  match a.heap, b.heap with
  | .abs x, .abs y => absHeapSubtype x y || absHeapSubtype y x
  | .typeIndex x, .typeIndex y =>
    if a.exact && b.exact then typeIdxEquivalent ctx.types x y
    else ctx.refSubtype a b || ctx.refSubtype b a
  | _, _ => ctx.refSubtype a b || ctx.refSubtype b a

end TypeContext

end Wago.Wasm
