/-
Validation of the type section: the type part of `validateModule`, `validateSubtypeMetadata` and the
ancestry intervals it builds for deep supertype chains.
-/
import Wago.Lib.Run
import Wago.Wasm.Reader
import Wago.Wasm.Subtype

namespace Wago.Wasm

/-- A module-level validation error; module checks carry function index `-1`. -/
def moduleErr {α : Type} (code : ValidationErrorCode) (detail : String) : Except Err α :=
  .error (.validation { code, func := -1, detail })

/-- `if c { return v.err(code, detail) }`. -/
def moduleFailIf (c : Prop) [Decidable c] (code : ValidationErrorCode) (detail : String) :
    Except Err Unit :=
  Run.failIf c (.validation { code, func := -1, detail })

theorem moduleFailIf_ok {c : Prop} [Decidable c] {code : ValidationErrorCode} {detail : String} :
    moduleFailIf c code detail = .ok () ↔ ¬ c := Run.failIf_ok

section

variable (types : List RecType)

/-! ## Indexes inside type definitions -/

def validateHeapTypeInRecGroup (ht : HeapType) (recGroup : Option Nat) : Except Err Unit :=
  match ht with
  | .abs _ => .ok ()
  | .typeIndex idx =>
    if validTypeIdxInRecGroup types idx recGroup then .ok () else moduleErr .unknownType "heap type"
  | .defType none => moduleErr .unknownType "heap def type"
  | .defType (some _) => .ok ()
  | .bottom => moduleErr .unknownType "heap type"

def validateRefTypeInRecGroup (rt : RefType) (recGroup : Option Nat) : Except Err Unit :=
  validateHeapTypeInRecGroup types rt.heap recGroup

def validateValTypeInRecGroup (t : ValType) (recGroup : Option Nat) : Except Err Unit :=
  match t with
  | .num _ => .ok ()
  | .vec => .ok ()
  | .ref rt => validateRefTypeInRecGroup types rt recGroup
  | .bot => moduleErr .unknownType "value type"

def validateStorageTypeInRecGroup (st : StorageType) (recGroup : Option Nat) : Except Err Unit :=
  match st with
  | .packed _ => .ok ()
  | .val v => validateValTypeInRecGroup types v recGroup

def validateFieldTypeInRecGroup (ft : FieldType) (recGroup : Option Nat) : Except Err Unit :=
  validateStorageTypeInRecGroup types ft.storage recGroup

def validateCompTypeInRecGroup (ct : CompType) (recGroup : Option Nat) : Except Err Unit :=
  match ct with
  | .func params results => do
    params.forM (validateValTypeInRecGroup types · recGroup)
    results.forM (validateValTypeInRecGroup types · recGroup)
  | .struct fields => fields.forM (validateFieldTypeInRecGroup types · recGroup)
  | .array field => validateFieldTypeInRecGroup types field recGroup

def validateRefType (rt : RefType) : Except Err Unit := validateRefTypeInRecGroup types rt none
def validateValType (t : ValType) : Except Err Unit := validateValTypeInRecGroup types t none

/-- The checks `validateModule` makes on member `si` of group `gi`. -/
def validateSubTypeInRecGroup (gi si : Nat) (st : SubType) : Except Err Unit := do
  moduleFailIf (st.supers.length > 1) .typeMismatch "multiple supertypes"
  st.supers.forM fun sup => do
    moduleFailIf (validTypeIdxInRecGroup types sup (some gi) = false) .unknownType "supertype"
    moduleFailIf (sup.isRec = true ∧ sup.index ≥ si) .typeMismatch "supertype must precede subtype"
  moduleFailIf (st.describes.any (!validTypeIdxInRecGroup types · (some gi))) .unknownType "describes"
  moduleFailIf (st.descriptor.any (!validTypeIdxInRecGroup types · (some gi))) .unknownType "descriptor"
  validateCompTypeInRecGroup types st.comp (some gi)

/-! ## Descriptor metadata -/

/-- Checks one descriptor link of member `member` of `group`: it stays in the group, the other end
is a struct of the same finality and points back. -/
def checkDescriptorLink (group : RecType) (member : Nat) (st : SubType) (idx : TypeIdx)
    (describesEdge : Bool) : Except Err Unit :=
  match idx.isRec, group.subTypes[idx.index]? with
  | true, some other => do
    moduleFailIf (describesEdge = true ∧ idx.index ≥ member) .typeMismatch
      "describes must name an earlier type"
    moduleFailIf (other.comp.kind ≠ .struct) .typeMismatch "descriptor type mismatch"
    moduleFailIf (st.final ≠ other.final) .typeMismatch "descriptor metadata finality mismatch"
    let reverse := if describesEdge then other.descriptor else other.describes
    moduleFailIf (reverse ≠ some { index := member, isRec := true }) .typeMismatch
      "descriptor metadata is not reciprocal"
  | _, _ => moduleErr .typeMismatch "descriptor metadata crosses recursion group"

def validateDescriptorMetadata (group : RecType) (member : Nat) (st : SubType) : Except Err Unit :=
  if st.describes.isNone && st.descriptor.isNone then .ok ()
  else do
    moduleFailIf (st.comp.kind ≠ .struct) .typeMismatch "descriptor metadata requires struct type"
    match st.describes with
    | some describes => checkDescriptorLink group member st describes true
    | none => .ok ()
    match st.descriptor with
    | some descriptor => checkDescriptorLink group member st descriptor false
    | none => .ok ()

/-- One edge of the complete square: the descriptor of a subtype declares the supertype's
descriptor as its own supertype. -/
def validateDescriptorSubtypeEdge (sub : Option TypeIdx) (subGroup : Nat) (sup : Option TypeIdx)
    (supGroup : Nat) : Except Err Unit :=
  match sub, sup with
  | none, none => .ok ()
  | some subIdx, some supIdx =>
    match flatTypeIdxInRecGroup types subIdx (some subGroup),
      flatTypeIdxInRecGroup types supIdx (some supGroup) with
    | some subFlat, some supFlat =>
      match subtypeByFlatTypeIdx types subFlat with
      | some ({ supers := [super], .. }, descriptorGroup) =>
        match flatTypeIdxInRecGroup types super (some descriptorGroup) with
        | none => moduleErr .unknownType "descriptor supertype"
        | some descriptorSuper =>
          if descriptorSuper ≠ supFlat then
            moduleErr .typeMismatch "incomplete descriptor subtype square"
          else .ok ()
      | _ => moduleErr .typeMismatch "incomplete descriptor subtype square"
    | _, _ => moduleErr .unknownType "descriptor subtype"
  | _, _ => moduleErr .typeMismatch "descriptor metadata differs from supertype"

def validateDescriptorSubtypeMetadata (sub : SubType) (subGroup : Nat) (sup : SubType)
    (supGroup : Nat) : Except Err Unit := do
  validateDescriptorSubtypeEdge types sub.descriptor subGroup sup.descriptor supGroup
  validateDescriptorSubtypeEdge types sub.describes subGroup sup.describes supGroup

/-! ## Declared supertypes -/

/-- The checks of one declared supertype edge. -/
def validateSuperEdge (st : SubType) (recGroup : Nat) (supIdx : TypeIdx) : Except Err Unit :=
  match flatTypeIdxInRecGroup types supIdx (some recGroup) with
  | none => moduleErr .unknownType "supertype"
  | some supFlat =>
    match subtypeByFlatTypeIdx types supFlat with
    | none => moduleErr .unknownType "supertype"
    | some (sup, supGroup) => do
      moduleFailIf sup.final .typeMismatch "final supertype"
      moduleFailIf (st.comp.kind ≠ sup.comp.kind) .typeMismatch "supertype kind"
      validateDescriptorSubtypeMetadata types st recGroup sup supGroup
      moduleFailIf
        ((TypeContext.ofTypes types).compTypeSubtype st.comp recGroup sup.comp supGroup = false)
        .typeMismatch "subtype does not match supertype"

def validateSubTypeMetadataOf (flatIdx : Nat) (st : SubType) (recGroup : Nat) : Except Err Unit := do
  validateDescriptorMetadata (types[recGroup]?.getD { subTypes := [] })
    (flatIdx - typeGroupBase types recGroup) st
  st.supers.forM (validateSuperEdge types st recGroup)

/-- Depth of a chain from which the ancestry intervals are worth building. -/
def ancestryDepth : Nat := 32

/-- The cycle check, with the completed depth capped at `ancestryDepth` in the states: `0` is
unvisited, `1` active, `depth + 2` done. Also returns whether a deep chain was seen. Each level
makes a new index active, so `fuel` above the number of types is never used up. -/
def visitSuper : (fuel : Nat) → Nat → (Nat → Nat) × Bool → Except Err ((Nat → Nat) × Bool)
  | 0, _, _ => moduleErr .typeMismatch "cyclic supertype chain"
  | fuel + 1, i, (state, deep) =>
    if state i = 1 then moduleErr .typeMismatch "cyclic supertype chain"
    else if state i ≥ 2 then .ok (state, deep)
    else
      match subtypeByFlatTypeIdx types i with
      | none => .ok (state, deep)
      | some (st, recGroup) => do
        let state := fun j => if j = i then 1 else state j
        let (state, deep, depth) ← st.supers.foldlM (fun (state, deep, depth) supIdx => do
          match flatTypeIdxInRecGroup types supIdx (some recGroup) with
          | none => moduleErr .unknownType "supertype"
          | some sup =>
            let (state, deep) ← visitSuper fuel sup (state, deep)
            let parentDepth := state sup - 2
            let parentDepth := if parentDepth < ancestryDepth then parentDepth + 1 else parentDepth
            return (state, deep, max depth parentDepth)) (state, deep, 0)
        return (fun j => if j = i then depth + 2 else state j, deep || depth == ancestryDepth)

/-! ## Ancestry intervals -/

/-- The link arrays of the supertype forest and the numbering so far. -/
structure Ancestry where
  firstChild : Nat → Option Nat
  superEnter : Nat → Nat
  superExit : Nat → Nat
  tick : Nat

def update {α : Type} (f : Nat → α) (i : Nat) (a : α) : Nat → α := fun j => if j = i then a else f j

/-- The declared supertype of a flat index, the first one listed; the zero of a failed lookup is
never reached in a validated section. -/
def superParent (i : Nat) : Option Nat :=
  match subtypeByFlatTypeIdx types i with
  | some (st, recGroup) =>
    match st.supers with
    | [] => none
    | super :: _ => some ((flatTypeIdxInRecGroup types super (some recGroup)).getD 0)
  | none => none

/-- Child lists of the forest over the first `n` indexes: each child is put in front of its
parent's list. -/
def superLinks : (n : Nat) → (Nat → Option Nat) × (Nat → Option Nat)
  | 0 => (fun _ => none, fun _ => none)
  | n + 1 =>
    let (firstChild, nextSibling) := superLinks n
    match superParent types n with
    | none => (firstChild, nextSibling)
    | some super => (update firstChild super (some n), update nextSibling n (firstChild super))

def Ancestry.enter (a : Ancestry) (cur : Nat) : Ancestry :=
  { a with tick := a.tick + 1, superEnter := update a.superEnter cur (a.tick + 1) }

/-- The walk below `root` from `cur`: down into the next child, or out to the parent. Each index is
entered and left once, so twice their number bounds the steps. -/
def ancestryWalk (nextSibling : Nat → Option Nat) (root : Nat) :
    (fuel : Nat) → Nat → Ancestry → Ancestry
  | 0, _, a => a
  | fuel + 1, cur, a =>
    match a.firstChild cur with
    | some child =>
      ancestryWalk nextSibling root fuel child
        ({ a with firstChild := update a.firstChild cur (nextSibling child) }.enter child)
    | none =>
      let a := { a with superExit := update a.superExit cur a.tick }
      if cur = root then a
      else
        match superParent types cur with
        | some parent => ancestryWalk nextSibling root fuel parent a
        | none => a

def buildSupertypeAncestry : List Nat × List Nat :=
  let n := (flatSubTypes types).length
  let (firstChild, nextSibling) := superLinks types n
  let start : Ancestry := { firstChild, superEnter := fun _ => 0, superExit := fun _ => 0, tick := 0 }
  let done := (List.range n).foldl (fun a root =>
    if superParent types root = none then
      ancestryWalk types nextSibling root (2 * n) root (a.enter root)
    else a) start
  ((List.range n).map done.superEnter, (List.range n).map done.superExit)

/-- The intervals are built only for chains of at least `ancestryDepth` in sections of at least 64
types; the result is empty otherwise. -/
def validateSubtypeMetadata : Except Err (List Nat × List Nat) := do
  let flat := flatSubTypes types
  flat.zipIdx.forM fun ((st, recGroup), flatIdx) => validateSubTypeMetadataOf types flatIdx st recGroup
  if flat.all (·.1.supers.isEmpty) then return ([], [])
  else do
    let (_, deep) ← (List.range flat.length).foldlM (fun acc i => visitSuper types (flat.length + 1) i acc)
      (fun _ => 0, false)
    if deep && flat.length ≥ 64 && flat.length ≤ 2 ^ 32 - 1 && flat.length ≤ (2 ^ 63 - 1) / 3 then
      return buildSupertypeAncestry types
    else return ([], [])

/-- The type part of `validateModule`; it yields the context the later checks use. -/
def validateTypeSection : Except Err TypeContext := do
  types.zipIdx.forM fun (rt, gi) =>
    rt.subTypes.zipIdx.forM fun (st, si) => validateSubTypeInRecGroup types gi si st
  let (superEnter, superExit) ← validateSubtypeMetadata types
  return { types, superEnter, superExit }

end

end Wago.Wasm
