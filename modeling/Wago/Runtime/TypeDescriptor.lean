/-
The runtime's structural type descriptors (`type_descriptor.go`): a module's type section flattened
into one entry for each type, with every reference an absolute index and the recursion group kept as
a number; and the tests the runtime makes on descriptors of independent modules, equivalence of
defined types and subtyping of value types.
-/
import Wago.Wasm.TypeEquiv

namespace Wago.Runtime

open Wago.Wasm

/-! ## Descriptors -/

inductive ValueTypeKind
  | i32 | i64 | f32 | f64 | v128 | reference
  deriving DecidableEq, Repr

inductive AbstractHeapType
  | string | exn | array | struct | i31 | eq | any | externHeap | func | none | noExtern | noFunc | noExn
  deriving DecidableEq, Repr

/-- An abstract heap type, or an entry of the type list when `defined` is set. -/
structure HeapTypeDescriptor where
  defined : Bool := false
  abstractHeap : AbstractHeapType := .string
  typeIndex : Nat := 0
  deriving DecidableEq, Repr

structure ReferenceTypeDescriptor where
  nullable : Bool := false
  exact : Bool := false
  heap : HeapTypeDescriptor := {}
  deriving DecidableEq, Repr

structure ValueTypeDescriptor where
  kind : ValueTypeKind := .i32
  ref : ReferenceTypeDescriptor := {}
  deriving DecidableEq, Repr

inductive CompositeTypeKind
  | function | struct | array
  deriving DecidableEq, Repr

inductive PackedType
  | i8 | i16
  deriving DecidableEq, Repr

structure StorageTypeDescriptor where
  packed : Bool := false
  packedType : PackedType := .i8
  value : ValueTypeDescriptor := {}
  deriving DecidableEq, Repr

structure FieldTypeDescriptor where
  storage : StorageTypeDescriptor := {}
  mutable : Bool := false
  deriving DecidableEq, Repr

/-- The part of a descriptor its kind selects. -/
inductive CompositeDescriptor
  | function (params results : List ValueTypeDescriptor)
  | struct (fields : List FieldTypeDescriptor)
  | array (field : FieldTypeDescriptor)
  deriving DecidableEq, Repr

def CompositeDescriptor.kind : CompositeDescriptor → CompositeTypeKind
  | .function _ _ => .function
  | .struct _ => .struct
  | .array _ => .array

structure DefinedTypeDescriptor where
  recGroup : Nat
  final : Bool
  supers : List Nat
  describes : Option Nat
  descriptor : Option Nat
  comp : CompositeDescriptor
  deriving DecidableEq, Repr

/-! ## Conversion of a type section -/

def abstractHeapTypeFromWasm : AbsHeapType → AbstractHeapType
  | .string => .string
  | .exn => .exn
  | .array => .array
  | .struct => .struct
  | .i31 => .i31
  | .eq => .eq
  | .any => .any
  | .externHeap => .externHeap
  | .func => .func
  | .none => .none
  | .noExtern => .noExtern
  | .noFunc => .noFunc
  | .noExn => .noExn

def wrapContextError {α : Type} (context : String) : Except String α → Except String α
  | .error err => .error s!"{context}: {err}"
  | .ok a => .ok a

/-- Converts the elements in order; an error names the position of the element. -/
def convertEach {α β : Type} (what : String) (f : α → Except String β) :
    (i : Nat) → List α → Except String (List β)
  | _, [] => .ok []
  | i, a :: as => do
    let b ← wrapContextError s!"{what} {i}" (f a)
    return b :: (← convertEach what f (i + 1) as)

namespace Converter

variable (types : List RecType)

/-- `group` is the recursion group the index stands in, `none` outside the type section. -/
def typeIndex (idx : TypeIdx) (group : Option Nat) : Except String Nat :=
  if idx.isRec = false then
    if idx.index ≥ typeGroupBase types types.length then
      .error s!"type index {idx.index} out of range"
    else .ok idx.index
  else
    match group with
    | none => .error s!"recursive type index {idx.index} out of range"
    | some g =>
      if g ≥ types.length ∨ idx.index ≥ groupLength types g then
        .error s!"recursive type index {idx.index} out of range"
      else .ok (typeGroupBase types g + idx.index)

def heapType (heap : HeapType) (group : Option Nat) : Except String HeapTypeDescriptor :=
  match heap with
  | .abs a => .ok { abstractHeap := abstractHeapTypeFromWasm a }
  | .typeIndex idx => do
    let x ← typeIndex types idx group
    return { defined := true, typeIndex := x }
  | .defType (some d) =>
    if d.group ≥ types.length ∨ d.member ≥ groupLength types d.group then
      .error "unknown defined heap type"
    else .ok { defined := true, typeIndex := typeGroupBase types d.group + d.member }
  | .defType none => .error "unknown defined heap type"
  | .bottom => .error "unknown heap type kind 3"

def refType (t : RefType) (group : Option Nat) : Except String ReferenceTypeDescriptor := do
  let heap ← heapType types t.heap group
  return { nullable := t.nullable, exact := t.exact, heap }

def valueType (t : ValType) (group : Option Nat) : Except String ValueTypeDescriptor :=
  match t with
  | .num .i32 => .ok { kind := .i32 }
  | .num .i64 => .ok { kind := .i64 }
  | .num .f32 => .ok { kind := .f32 }
  | .num .f64 => .ok { kind := .f64 }
  | .vec => .ok { kind := .v128 }
  | .ref r => do
    let ref ← refType types r group
    return { kind := .reference, ref }
  | .bot => .error "unsupported value type kind 3"

def valueTypes (ts : List ValType) (group : Option Nat) : Except String (List ValueTypeDescriptor) :=
  convertEach "value" (valueType types · group) 0 ts

def fieldType (f : FieldType) (group : Option Nat) : Except String FieldTypeDescriptor :=
  let mutable := f.mutability = .var
  match f.storage with
  | .packed .i8 => .ok { storage := { packed := true, packedType := .i8 }, mutable }
  | .packed .i16 => .ok { storage := { packed := true, packedType := .i16 }, mutable }
  | .val v => do
    let value ← valueType types v group
    return { storage := { value }, mutable }

def supertypes (group : Option Nat) : List TypeIdx → Except String (List Nat)
  | [] => .ok []
  | idx :: supers => do
    let x ← wrapContextError "supertype" (typeIndex types idx group)
    return x :: (← supertypes group supers)

def metadataIndex (context : String) (idx : Option TypeIdx) (group : Option Nat) :
    Except String (Option Nat) :=
  match idx with
  | none => .ok none
  | some idx => do
    let x ← wrapContextError context (typeIndex types idx group)
    return some x

def compType (ct : CompType) (group : Option Nat) : Except String CompositeDescriptor :=
  match ct with
  | .func params results => do
    let params ← wrapContextError "params" (valueTypes types params group)
    let results ← wrapContextError "results" (valueTypes types results group)
    return .function params results
  | .struct fields => do
    let fields ← convertEach "field" (fieldType types · group) 0 fields
    return .struct fields
  | .array field => do
    let field ← wrapContextError "array field" (fieldType types field group)
    return .array field

def definedType (st : SubType) (sourceGroup descriptorGroup : Nat) :
    Except String DefinedTypeDescriptor := do
  let supers ← supertypes types (some sourceGroup) st.supers
  let describes ← metadataIndex types "describes" st.describes (some sourceGroup)
  let descriptor ← metadataIndex types "descriptor" st.descriptor (some sourceGroup)
  let comp ← compType types st.comp (some sourceGroup)
  return { recGroup := descriptorGroup, final := st.final, supers, describes, descriptor, comp }

/-- The members of one group, the first of them at flat index `first`. -/
def groupDescriptors (gi descriptorGroup : Nat) (first : Nat) (members : List SubType) :
    Except String (List DefinedTypeDescriptor) :=
  convertEach "type" (fun st => definedType types st gi descriptorGroup) first members

/-- The groups from `gi` on, the first of them at flat index `first`; an empty group takes no
descriptor group. -/
def descriptorsFrom : (gi descriptorGroup first : Nat) → List RecType →
    Except String (List DefinedTypeDescriptor)
  | _, _, _, [] => .ok []
  | gi, descriptorGroup, first, rt :: rts =>
    if rt.subTypes = [] then descriptorsFrom (gi + 1) descriptorGroup first rts
    else do
      let members ← groupDescriptors types gi descriptorGroup first rt.subTypes
      let rest ← descriptorsFrom (gi + 1) (descriptorGroup + 1) (first + rt.subTypes.length) rts
      return members ++ rest

/-- Type indexes are `uint32` in the source; a type section has fewer entries, since the section
size is one. -/
def typeDescriptors : Except String (List DefinedTypeDescriptor) := descriptorsFrom types 0 0 0 types

end Converter

/-! ## Equivalence of defined types -/

section Bounds

variable (types : List DefinedTypeDescriptor)

def inRecGroup (group i : Nat) : Bool := (types[i]?.map (·.recGroup)) = some group

def scanStart (group : Nat) : (start : Nat) → Nat
  | 0 => 0
  | start + 1 => if inRecGroup types group start then scanStart group start else start + 1

def scanEnd (group : Nat) : (left last : Nat) → Nat
  | 0, last => last
  | left + 1, last => if inRecGroup types group last then scanEnd group left (last + 1) else last

/-- First and past-the-end index of the entries around `index` with its group number. The source
answers from the neighbours for a lone entry and remembers the bounds of a group it has scanned. -/
def groupBounds (index : Nat) : Option (Nat × Nat) :=
  match types[index]? with
  | none => none
  | some d =>
    some (scanStart types d.recGroup index,
      scanEnd types d.recGroup (types.length - (index + 1)) (index + 1))

end Bounds

section Equivalence

variable (aTypes bTypes : List DefinedTypeDescriptor)

/-! The comparisons of two entries, in the order the source makes them; the first that fails ends
the comparison. `ownerX` and `ownerY` are the entries the references stand in. -/

def eqTypeRef (ownerX x ownerY y : Nat) : List Comparison :=
  match aTypes[ownerX]?, aTypes[x]?, bTypes[ownerY]?, bTypes[y]? with
  | some ox, some dx, some oy, some dy =>
    let xBound := ox.recGroup == dx.recGroup
    let yBound := oy.recGroup == dy.recGroup
    if xBound == yBound then [.types x y] else [.test false]
  | _, _, _, _ => [.test false]

def eqHeapDescriptor (ownerX ownerY : Nat) (x y : HeapTypeDescriptor) : List Comparison :=
  if x.defined ≠ y.defined then [.test false]
  else if x.defined = false then [.test (x.abstractHeap = y.abstractHeap)]
  else eqTypeRef aTypes bTypes ownerX x.typeIndex ownerY y.typeIndex

def eqValueDescriptor (ownerX ownerY : Nat) (x y : ValueTypeDescriptor) : List Comparison :=
  if x.kind ≠ y.kind then [.test false]
  else if x.kind ≠ .reference then []
  else
    .test (x.ref.nullable = y.ref.nullable) :: .test (x.ref.exact = y.ref.exact) ::
      eqHeapDescriptor aTypes bTypes ownerX ownerY x.ref.heap y.ref.heap

def eqStorageDescriptor (ownerX ownerY : Nat) (x y : StorageTypeDescriptor) : List Comparison :=
  if x.packed ≠ y.packed ∨ x.packedType ≠ y.packedType then [.test false]
  else if x.packed then []
  else eqValueDescriptor aTypes bTypes ownerX ownerY x.value y.value

def eqFieldDescriptor (ownerX ownerY : Nat) (x y : FieldTypeDescriptor) : List Comparison :=
  .test (x.mutable = y.mutable) :: eqStorageDescriptor aTypes bTypes ownerX ownerY x.storage y.storage

def eqOptional (ownerX : Nat) (x : Option Nat) (ownerY : Nat) (y : Option Nat) : List Comparison :=
  match x, y with
  | none, none => []
  | some x, some y => eqTypeRef aTypes bTypes ownerX x ownerY y
  | _, _ => [.test false]

def eqCompositeDescriptor (x y : Nat) (xd yd : CompositeDescriptor) : List Comparison :=
  match xd, yd with
  | .function ps rs, .function ps' rs' =>
    .test (ps.length = ps'.length) :: .test (rs.length = rs'.length) ::
      ((ps.zip ps').flatMap (fun (p, p') => eqValueDescriptor aTypes bTypes x y p p') ++
        (rs.zip rs').flatMap (fun (r, r') => eqValueDescriptor aTypes bTypes x y r r'))
  | .struct fs, .struct fs' =>
    .test (fs.length = fs'.length) ::
      (fs.zip fs').flatMap (fun (f, f') => eqFieldDescriptor aTypes bTypes x y f f')
  | .array f, .array f' => eqFieldDescriptor aTypes bTypes x y f f'
  | _, _ => []

def eqTypeBody (x y : Nat) : List Comparison :=
  match aTypes[x]?, bTypes[y]? with
  | some xd, some yd =>
    .test (xd.final = yd.final) :: .test (xd.comp.kind = yd.comp.kind) ::
      .test (xd.supers.length = yd.supers.length) ::
      (eqOptional aTypes bTypes x xd.describes y yd.describes ++
        (eqOptional aTypes bTypes x xd.descriptor y yd.descriptor ++
          ((xd.supers.zip yd.supers).flatMap (fun (s, s') => eqTypeRef aTypes bTypes x s y s') ++
            eqCompositeDescriptor aTypes bTypes x y xd.comp yd.comp)))
  | _, _ => [.test false]

/-- What is known of a pair of groups, by their first indexes. -/
abbrev GroupMarks := Nat × Nat → PairMark

def GroupMarks.set (marks : GroupMarks) (p : Nat × Nat) (m : PairMark) : GroupMarks :=
  fun q => if q = p then m else marks q

/-- Runs comparisons in order up to the first that fails. -/
def runChecks (eq : Nat → Nat → StateM GroupMarks Bool) : List Comparison → StateM GroupMarks Bool
  | [] => return true
  | .test b :: cs => if b then runChecks eq cs else return false
  | .types x y :: cs => do
    if ← eq x y then runChecks eq cs else return false

/-- The comparison of two entries through their whole groups. Each nested call marks a new pair of
groups, so `fuel` above the number of pairs is never used up. -/
def eqGroups : (fuel : Nat) → Nat → Nat → StateM GroupMarks Bool
  | 0, _, _ => return false
  | fuel + 1, x, y =>
    match groupBounds aTypes x, groupBounds bTypes y with
    | some (xStart, xEnd), some (yStart, yEnd) =>
      if x - xStart ≠ y - yStart ∨ xEnd - xStart ≠ yEnd - yStart then return false
      else do
        match (← get) (xStart, yStart) with
        | .active | .proven => return true
        | .refuted => return false
        | .absent =>
          modify (GroupMarks.set · (xStart, yStart) .active)
          let ok ← runChecks (eqGroups fuel)
            ((List.range (xEnd - xStart)).flatMap fun i => eqTypeBody aTypes bTypes (xStart + i) (yStart + i))
          modify (GroupMarks.set · (xStart, yStart) (if ok then .proven else .refuted))
          return ok
    | _, _ => return false

/-- `sameSlice` says that both lists are one slice (`&aTypes[0] == &bTypes[0]`); distinct members of
one group of it are rejected at once. -/
def definedTypeEquivalent (sameSlice : Bool) (a b : Nat) : Bool :=
  match aTypes[a]?, bTypes[b]? with
  | some da, some db =>
    if a ≠ b ∧ aTypes.length = bTypes.length ∧ sameSlice = true ∧ da.recGroup = db.recGroup then false
    else (eqGroups aTypes bTypes (aTypes.length * bTypes.length + 1) a b fun _ => .absent).1
  | _, _ => false

end Equivalence

/-! ## Subtyping -/

def abstractHeapSubtype (actual required : AbstractHeapType) : Bool :=
  if actual = required then true
  else
    match actual with
    | .noFunc => required = .func
    | .noExtern => required = .externHeap
    | .noExn => required = .exn
    | .none =>
      required = .any || required = .eq || required = .struct || required = .array || required = .i31
    | .i31 | .struct | .array => required = .eq || required = .any
    | .eq => required = .any
    | _ => false

section Subtyping

variable (sameSlice : Bool) (actualTypes requiredTypes : List DefinedTypeDescriptor)

/-- Visits the entries in order until one visit succeeds, threading the entries seen. -/
def anyVisit (visit : List Nat → Nat → Bool × List Nat) : List Nat → List Nat → Bool × List Nat
  | [], seen => (false, seen)
  | index :: rest, seen =>
    match visit seen index with
    | (true, seen) => (true, seen)
    | (false, seen) => anyVisit visit rest seen

/-- The walk of `definedTypeHasSuper`; every level marks a new entry as seen, so `fuel` above the
number of entries is never used up. -/
def visitSupers (required : Nat) : (fuel : Nat) → List Nat → Nat → Bool × List Nat
  | 0, seen, _ => (false, seen)
  | fuel + 1, seen, index =>
    match actualTypes[index]? with
    | none => (false, seen)
    | some d =>
      if index ∈ seen then (false, seen)
      else
        let seen := index :: seen
        if definedTypeEquivalent actualTypes requiredTypes sameSlice index required then (true, seen)
        else anyVisit (visitSupers required fuel) d.supers seen

def definedTypeHasSuper (actual required : Nat) : Bool :=
  (visitSupers sameSlice actualTypes requiredTypes required (actualTypes.length + 1) [] actual).1

def heapTypeEquivalent (a b : HeapTypeDescriptor) : Bool :=
  if a.defined ≠ b.defined then false
  else if a.defined = false then a.abstractHeap = b.abstractHeap
  else definedTypeEquivalent actualTypes requiredTypes sameSlice a.typeIndex b.typeIndex

def compositeFamily : CompositeTypeKind → AbstractHeapType
  | .function => .func
  | .struct => .struct
  | .array => .array

def referenceTypeSubtype (actual required : ReferenceTypeDescriptor) : Bool :=
  if actual.nullable && !required.nullable then false
  else if heapTypeEquivalent sameSlice actualTypes requiredTypes actual.heap required.heap then
    !required.exact || actual.exact
  else if required.exact then false
  else if actual.heap.defined then
    if required.heap.defined then
      definedTypeHasSuper sameSlice actualTypes requiredTypes actual.heap.typeIndex required.heap.typeIndex
    else
      match actualTypes[actual.heap.typeIndex]? with
      | none => false
      | some d => abstractHeapSubtype (compositeFamily d.comp.kind) required.heap.abstractHeap
  else if required.heap.defined then
    match requiredTypes[required.heap.typeIndex]? with
    | none => false
    | some d =>
      match actual.heap.abstractHeap with
      | .noFunc => d.comp.kind = .function
      | .none => d.comp.kind = .struct || d.comp.kind = .array
      | _ => false
  else abstractHeapSubtype actual.heap.abstractHeap required.heap.abstractHeap

def valueTypeSubtype (actual required : ValueTypeDescriptor) : Bool :=
  if actual.kind ≠ required.kind then false
  else if actual.kind ≠ .reference then true
  else referenceTypeSubtype sameSlice actualTypes requiredTypes actual.ref required.ref

end Subtyping

end Wago.Runtime
