/-
The equivalence test on defined types (`typeIdxEquivalentWithState`): a comparison of two recursion
groups under assumptions. A pair is assumed equal while it is being compared; a failed query drops
every pair it introduced and a successful one keeps them for later queries.
-/
import Wago.Wasm.TypeIndex

namespace Wago.Wasm

/-- The state of a pair of flat type indexes in the comparison. -/
inductive PairMark
  | absent | active | proven | refuted
  deriving DecidableEq, Repr

structure EqState where
  mark : Nat × Nat → PairMark
  /-- Pairs this query has introduced, for the rollback. -/
  introduced : List (Nat × Nat)

def EqState.setMark (s : EqState) (p : Nat × Nat) (m : PairMark) : EqState :=
  { s with mark := fun q => if q = p then m else s.mark q }

def EqState.introduce (s : EqState) (p : Nat × Nat) : EqState :=
  { s.setMark p .active with introduced := s.introduced ++ [p] }

/-- One comparison the test makes: a local test, or the comparison of two types. -/
inductive Comparison
  | test (b : Bool)
  | types (x y : Nat)
  deriving DecidableEq, Repr

section

variable (types : List RecType)

/-! The comparisons of two syntax trees in groups `xGroup` and `yGroup`, in the order the source
makes them; the first that fails ends the comparison. -/

def eqIdx (x y : TypeIdx) (xGroup yGroup : Nat) : List Comparison :=
  if x.isRec != y.isRec then [.test false]
  else
    match flatTypeIdxInRecGroup types x (some xGroup), flatTypeIdxInRecGroup types y (some yGroup) with
    | some xi, some yi => [.types xi yi]
    | _, _ => [.test false]

def eqHeap (x y : HeapType) (xGroup yGroup : Nat) : List Comparison :=
  match x, y with
  | .abs a, .abs b => [.test (a = b)]
  | .typeIndex a, .typeIndex b => eqIdx types a b xGroup yGroup
  | .defType none, .defType none => []
  | .defType (some a), .defType (some b) => [.test (a.group = b.group && a.member = b.member)]
  | _, _ => [.test false]

def eqVal (x y : ValType) (xGroup yGroup : Nat) : List Comparison :=
  match x, y with
  | .num a, .num b => [.test (a = b)]
  | .vec, .vec => []
  | .bot, .bot => []
  | .ref a, .ref b =>
    .test (a.nullable = b.nullable) :: .test (a.exact = b.exact) ::
      eqHeap types a.heap b.heap xGroup yGroup
  | _, _ => [.test false]

def eqField (x y : FieldType) (xGroup yGroup : Nat) : List Comparison :=
  .test (x.mutability = y.mutability) ::
    match x.storage, y.storage with
    | .packed p, .packed q => [.test (p = q)]
    | .val v, .val w => eqVal types v w xGroup yGroup
    | _, _ => [.test false]

def eqOptionalType (x y : Option TypeIdx) (xGroup yGroup : Nat) : List Comparison :=
  match x, y with
  | none, none => []
  | some a, some b => eqIdx types a b xGroup yGroup
  | _, _ => [.test false]

def eqComp (x y : CompType) (xGroup yGroup : Nat) : List Comparison :=
  match x, y with
  | .func ps rs, .func ps' rs' =>
    .test (ps.length = ps'.length) :: .test (rs.length = rs'.length) ::
      ((ps.zip ps').flatMap (fun (a, b) => eqVal types a b xGroup yGroup) ++
        (rs.zip rs').flatMap (fun (a, b) => eqVal types a b xGroup yGroup))
  | .struct fs, .struct fs' =>
    .test (fs.length = fs'.length) ::
      (fs.zip fs').flatMap (fun (a, b) => eqField types a b xGroup yGroup)
  | .array f, .array f' => eqField types f f' xGroup yGroup
  | _, _ => [.test false]

def eqSubType (x y : SubType) (xGroup yGroup : Nat) : List Comparison :=
  eqOptionalType types x.describes y.describes xGroup yGroup ++
    eqOptionalType types x.descriptor y.descriptor xGroup yGroup ++
    (x.supers.zip y.supers).flatMap (fun (a, b) => eqIdx types a b xGroup yGroup) ++
    eqComp types x.comp y.comp xGroup yGroup

/-- The member pairs of two groups of one length, from their first flat indexes. -/
def eqMembers (xBase yBase len : Nat) : List Comparison :=
  (List.range len).map fun i => .types (xBase + i) (yBase + i)

/-- Runs comparisons in order up to the first that fails. -/
def runComparisons (eq : Nat → Nat → StateM EqState Bool) : List Comparison → StateM EqState Bool
  | [] => return true
  | .test b :: cs => if b then runComparisons eq cs else return false
  | .types x y :: cs => do
    if ← eq x y then runComparisons eq cs else return false

/-- Group, position in it and first flat index of the group. -/
def groupLocation (flat : Nat) : Option (Nat × Nat × Nat) :=
  (subtypeByFlatTypeIdx types flat).map fun (_, group) =>
    (group, flat - typeGroupBase types group, typeGroupBase types group)

/-- Checks that need no other pair; a mismatch is rejected before anything is assumed. -/
def knownMismatch (xs ys : SubType) : Bool :=
  xs.final != ys.final || xs.supers.length != ys.supers.length || xs.comp.kind != ys.comp.kind

/-- Each nested call introduces a new pair, so `fuel` above the number of pairs is never used up. -/
def eqType : (fuel : Nat) → Nat → Nat → StateM EqState Bool
  | 0, _, _ => return false
  | fuel + 1, x, y =>
    if x = y then return true
    else
      match groupLocation types x, groupLocation types y with
      | some (xGroup, xLocal, xBase), some (yGroup, yLocal, yBase) =>
        if xLocal ≠ yLocal ∨ groupLength types xGroup ≠ groupLength types yGroup then return false
        else do
          let s ← get
          match s.mark (x, y) with
          | .active | .proven => return true
          | .refuted => return false
          | .absent =>
            match subtypeByFlatTypeIdx types x, subtypeByFlatTypeIdx types y with
            | some (xs, _), some (ys, _) =>
              if knownMismatch xs ys then return false
              else do
                -- the first member pair marks a scan of the whole group pair
                let scanGroup :=
                  groupLength types xGroup > 1 ∧ s.mark (xBase, yBase) = .absent
                set (s.introduce (x, y))
                let members := if scanGroup then eqMembers xBase yBase (groupLength types xGroup) else []
                let ok ← runComparisons (eqType fuel) (members ++ eqSubType types xs ys xGroup yGroup)
                modify (·.setMark (x, y) (if ok then .proven else .refuted))
                return ok
            | _, _ => return false
      | _, _ => return false

/-- The comparison of two flat indexes as a transaction: a failed root deletes every pair it
introduced. -/
def eqRoot (aFlat bFlat : Nat) (mark : Nat × Nat → PairMark) : Bool × (Nat × Nat → PairMark) :=
  let n := (flatSubTypes types).length
  let r := eqType types (n * n + 1) aFlat bFlat { mark, introduced := [] }
  if r.1 then (true, r.2.mark)
  else (false, fun p => if p ∈ r.2.introduced then .absent else r.2.mark p)

/-- One query: the answer and the marks left for later queries. -/
def typeIdxEquivalentWithState (a b : TypeIdx) (mark : Nat × Nat → PairMark) :
    Bool × (Nat × Nat → PairMark) :=
  match flatTypeIdxInRecGroup types a none, flatTypeIdxInRecGroup types b none with
  | some aFlat, some bFlat => eqRoot types aFlat bFlat mark
  | _, _ => (false, mark)

def typeIdxEquivalent (a b : TypeIdx) : Bool :=
  (typeIdxEquivalentWithState types a b fun _ => .absent).1

/-- A batch of queries that share one state. -/
def typeIdxEquivalentBatch : List (TypeIdx × TypeIdx) → (Nat × Nat → PairMark) → List Bool
  | [], _ => []
  | (a, b) :: qs, mark =>
    let r := typeIdxEquivalentWithState types a b mark
    r.1 :: typeIdxEquivalentBatch qs r.2

def heapTypeEquivalent (a b : HeapType) : Bool :=
  equalHeapType a b ||
    match a, b with
    | .typeIndex x, .typeIndex y => typeIdxEquivalent types x y
    | _, _ => false

end

end Wago.Wasm
