/-
The function types below a function type (`FunctionSubtypeTypeIndexes` in `module_helpers.go`): a scan
with the subtype test in sections of two types, and otherwise the closure of the equivalent types under
the reversed supertype edges. Both give the indexes that the subtype test accepts.
-/
import Mathlib.Algebra.Order.BigOperators.Group.List
import Mathlib.Algebra.Order.Ring.Nat
import Mathlib.Data.List.Sort
import Wago.Lib.Adjacency
import Wago.Wasm.StructuralKey
import Wago.Wasm.SubtypeSpec

namespace Wago.Wasm

open List

/-- A reference to the type that is not null and not exact. -/
def typeRef (i : Nat) : RefType := mkRef false (.typeIndex { index := i }) false

/-- Which of the remaining types are function types equivalent to the target. The queries share their
marks. -/
def equivalentFuncs (types : List RecType) (target : Nat) :
    List (SubType × Nat) → (i : Nat) → (Nat × Nat → PairMark) → List Bool
  | [], _, _ => []
  | (st, _) :: rest, i, mark =>
    if st.comp.kind = .func then
      let r := typeIdxEquivalentWithState types { index := i } { index := target } mark
      r.1 :: equivalentFuncs types target rest (i + 1) r.2
    else false :: equivalentFuncs types target rest (i + 1) mark

/-- From each declared supertype to the types that declare it. -/
def superEdges (types : List RecType) : List (Nat × Nat) :=
  (flatSubTypes types).zipIdx.flatMap fun ((st, g), i) =>
    st.supers.filterMap fun sup => (flatTypeIdxInRecGroup types sup (some g)).map (·, i)

/-- The types that declare the type as a supertype, from the arrays over the edges. -/
def superChildren (types : List RecType) : Nat → List Nat :=
  (Adjacency.build (flatSubTypes types).length (superEdges types)).next

def maxInt : Nat := 2 ^ 63 - 1

/-- The marks after the closure of the equivalent types under the reversed edges. -/
def reachableTypes (types : List RecType) (target : Nat) : Nat → Bool :=
  let n := (flatSubTypes types).length
  let marks i := (equivalentFuncs types target (flatSubTypes types) 0 fun _ => .absent).getD i false
  Adjacency.closure (superChildren types) n 0 (marks, (List.range n).filter marks)

/-- The selection by the reversed edges. -/
def closureSubtypeIndexes (types : List RecType) (target : Nat) : List Nat × Bool :=
  let n := (flatSubTypes types).length
  if n > maxInt - 1 ∨ n > 2 ^ 32 - 1 ∨ (superEdges types).length > maxInt then ([], false)
  else
    let indexes := (List.range n).filter fun i => reachableTypes types target i && (typeFunc types i).isSome
    (indexes, indexes ≠ [])

/-- The selection by the subtype test, in a section of two types. -/
def scanSubtypeIndexes (types : List RecType) (target : Nat) : List Nat × Bool :=
  let indexes := (List.range 2).filter fun i => (typeFunc types i).isSome &&
    (TypeContext.ofTypes types).refSubtype (typeRef i) (typeRef target)
  (indexes, indexes ≠ [])

def functionSubtypeTypeIndexes (types : List RecType) (target : Nat) : List Nat × Bool :=
  if (typeFunc types target).isNone then ([], false)
  else
    let count := (types.map (·.subTypes.length)).sum
    if types.length ≤ 2 ∧ count = 1 then ([target], true)
    else if types.length ≤ 2 ∧ count = 2 then scanSubtypeIndexes types target
    else closureSubtypeIndexes types target

section

variable {types : List RecType} {ctx : TypeContext} {i p target : Nat}

theorem typeFunc_isSome : (typeFunc types i).isSome = true ↔
    ∃ st g, (flatSubTypes types)[i]? = some (st, g) ∧ st.comp.kind = .func := by
  have hget : subtypeByFlatTypeIdx types i = (flatSubTypes types)[i]? := rfl
  unfold typeFunc
  rw [hget]
  cases (flatSubTypes types)[i]? with
  | none => simp
  | some r =>
    obtain ⟨⟨_, _, _, _, comp, _⟩, g⟩ := r
    cases comp <;> simp [CompType.kind]

theorem typeFunc_iff_idxKind : (typeFunc types i).isSome = true ↔ idxKind types { index := i } = some .func := by
  rw [typeFunc_isSome]
  unfold idxKind compTypeFromTypeIdx resolvedCompType
  change _ ↔ Option.map _ (Option.map _ (flatSubTypes types)[i]?) = _
  cases (flatSubTypes types)[i]? with
  | none => simp
  | some r =>
    obtain ⟨st, g⟩ := r
    simp [resolveCompType_kind]

theorem lt_of_typeFunc (h : (typeFunc types i).isSome = true) : i < (flatSubTypes types).length := by
  obtain ⟨st, g, hget, -⟩ := typeFunc_isSome.1 h
  exact (List.getElem?_eq_some_iff.1 hget).1

theorem mem_superEdges (hs : TypesInScope types) : (p, i) ∈ superEdges types ↔ superParent types i = some p := by
  unfold superEdges
  rw [superParent_iff hs, mem_flatMap]
  constructor
  · rintro ⟨⟨⟨st, g⟩, j⟩, hget, hmem⟩
    obtain ⟨sup, hsup, hflat⟩ := mem_filterMap.1 hmem
    obtain ⟨q, hq, heq⟩ := Option.map_eq_some_iff.1 hflat
    cases heq
    obtain ⟨l, hpos⟩ := subtypeByFlatTypeIdx_iff.1 (mem_zipIdx_iff_getElem?.1 hget)
    obtain ⟨hin, -⟩ := (hs hpos).supers sup hsup
    rw [flatTypeIdxInRecGroup_scoped hpos.group_lt hin] at hq
    cases hq
    refine ⟨g, l, st, sup, hpos, ?_, rfl⟩
    obtain ⟨a, ha⟩ := length_eq_one_iff.1 (Nat.le_antisymm (hs hpos).supers_length (length_pos_of_mem hsup))
    rw [ha] at hsup ⊢
    rw [mem_singleton.1 hsup]
  · rintro ⟨g, l, st, sup, hpos, hsup, rfl⟩
    refine ⟨((st, g), i), mem_zipIdx_iff_getElem?.2 hpos.flat, mem_filterMap.2 ⟨sup, by simp [hsup], ?_⟩⟩
    rw [flatTypeIdxInRecGroup_scoped hpos.group_lt ((hs hpos).supers sup (by simp [hsup])).1]
    rfl

/-- With committed marks, the flags are the answers of fresh queries. -/
theorem equivalentFuncs_getD (hs : TypesInScope types) : ∀ (rest : List (SubType × Nat)) (i k : Nat)
    {mark : Nat × Nat → PairMark}, CommittedMarks types mark →
    ((equivalentFuncs types target rest i mark).getD k false = true ↔
      ∃ st g, rest[k]? = some (st, g) ∧ st.comp.kind = .func ∧
        typeIdxEquivalent types { index := i + k } { index := target } = true)
  | [], _, _, _, _ => by simp [equivalentFuncs]
  | (st, g) :: rest, i, k, mark, hm => by
    obtain ⟨hiff, hm'⟩ := query_spec hs hm { index := i } { index := target }
    have hsame := Bool.eq_iff_iff.2
      (hiff.trans (query_spec hs (committed_empty types) { index := i } { index := target }).1.symm)
    unfold equivalentFuncs
    split
    · rename_i hk
      cases k with
      | zero => simp [hk, hsame, typeIdxEquivalent]
      | succ k =>
        have := equivalentFuncs_getD hs rest (i + 1) k hm'
        rw [Nat.add_right_comm] at this
        exact this
    · rename_i hk
      cases k with
      | zero => simp [hk]
      | succ k =>
        have := equivalentFuncs_getD hs rest (i + 1) k hm
        rw [Nat.add_right_comm] at this
        exact this

theorem length_superEdges_le (hs : TypesInScope types) :
    (superEdges types).length ≤ (flatSubTypes types).length := by
  unfold superEdges
  rw [length_flatMap]
  refine (sum_le_card_nsmul _ 1 fun k hk => ?_).trans (by simp)
  obtain ⟨⟨⟨st, g⟩, i⟩, hget, rfl⟩ := mem_map.1 hk
  obtain ⟨l, hpos⟩ := subtypeByFlatTypeIdx_iff.1 (mem_zipIdx_iff_getElem?.1 hget)
  exact (length_filterMap_le _ _).trans (hs hpos).supers_length

theorem mem_superChildren (hs : TypesInScope types) (hp : p < (flatSubTypes types).length) :
    i ∈ superChildren types p ↔ superParent types i = some p := by
  unfold superChildren
  rw [Adjacency.mem_next (fun e he => ?_) hp, mem_superEdges hs]
  have hpar := (mem_superEdges hs).1 he
  exact Nat.lt_trans (superParent_lt hs hpar) (superParent_lt_length hpar)

/-- The reversed edges lead from a type to the types it is an ancestor of. -/
theorem superChildren_steps (hs : TypesInScope types) (hp : p < (flatSubTypes types).length) :
    Relation.ReflTransGen (fun a b => b ∈ superChildren types a) p i ↔ Ancestor types i p := by
  constructor
  · intro h
    suffices i < (flatSubTypes types).length ∧ Ancestor types i p from this.2
    induction h with
    | refl => exact ⟨hp, .refl⟩
    | tail _ hstep ih =>
      have hpar := (mem_superChildren hs ih.1).1 hstep
      exact ⟨superParent_lt_length hpar, .head hpar ih.2⟩
  · intro h
    induction h using Relation.ReflTransGen.head_induction_on with
    | refl => exact .refl
    | head hpar _ ih =>
      exact ih.tail ((mem_superChildren hs ((superParent_lt hs hpar).trans (superParent_lt_length hpar))).2 hpar)

/-- References to two types are subtypes as the types are. -/
theorem refSubtype_indexed (hc : SoundContext types ctx) (hi : i < (flatSubTypes types).length)
    (ht : target < (flatSubTypes types).length) :
    ctx.refSubtype (typeRef i) (typeRef target) = true ↔ DefSub types i target := by
  have hfi := flatTypeIdxInRecGroup_none hi
  have hft := flatTypeIdxInRecGroup_none ht
  rw [refSubtype_iff hc]
  constructor
  · rintro ⟨-, hmatch⟩
    cases hmatch with
    | same _ hsame =>
      rcases hsame with heq | ⟨x, y, hx, hy, hxy⟩
      · cases heq
        exact .of_same (sameType_refl hi)
      · cases hfi.symm.trans hx
        cases hft.symm.trans hy
        exact .of_same hxy
    | super hsub =>
      obtain ⟨x, y, hx, hy, hxy⟩ := hsub
      cases hfi.symm.trans hx
      cases hft.symm.trans hy
      exact hxy
  · exact fun h => ⟨id, .super ⟨i, target, hfi, hft, h⟩⟩

/-- The list holds, in increasing order, the function types whose references are subtypes of the
target's. -/
structure Selects (types : List RecType) (ctx : TypeContext) (target : Nat) (indexes : List Nat) : Prop where
  increasing : indexes.Pairwise (· < ·)
  mem_iff : ∀ i, i ∈ indexes ↔ (typeFunc types i).isSome = true ∧
    ctx.refSubtype (typeRef i) (typeRef target) = true

theorem Selects.ne_nil {indexes : List Nat} (h : Selects types ctx target indexes)
    (ht : (typeFunc types target).isSome = true) : indexes ≠ [] :=
  ne_nil_of_mem ((h.mem_iff target).2 ⟨ht, refSubtype_refl ctx _⟩)

/-- The flags mark the types that are the same as the target. -/
theorem equivalentFuncs_iff (hs : TypesInScope types) (ht : (typeFunc types target).isSome = true) (k : Nat) :
    (equivalentFuncs types target (flatSubTypes types) 0 fun _ => .absent).getD k false = true ↔
      SameType types k target := by
  have htl := lt_of_typeFunc ht
  rw [equivalentFuncs_getD hs _ 0 k (committed_empty types), Nat.zero_add]
  constructor
  · rintro ⟨st, g, hget, -, heq⟩
    exact (typeIdxEquivalent_iff hs (List.getElem?_eq_some_iff.1 hget).1 htl).1 heq
  · intro hsame
    have hkl := hsame.lt_length.1
    have hkind : IdxSame types { index := k } { index := target } :=
      .inr ⟨k, target, flatTypeIdxInRecGroup_none hkl, flatTypeIdxInRecGroup_none htl, hsame⟩
    obtain ⟨st, g, hget, hfunc⟩ :=
      typeFunc_isSome.1 (typeFunc_iff_idxKind.2 (hkind.kind.trans (typeFunc_iff_idxKind.1 ht)))
    exact ⟨st, g, hget, hfunc, (typeIdxEquivalent_iff hs hkl htl).2 hsame⟩

theorem reachableTypes_iff (hs : TypesInScope types) (ht : (typeFunc types target).isSome = true) :
    reachableTypes types target i = true ↔ DefSub types i target := by
  have hmarks := equivalentFuncs_iff hs ht
  unfold reachableTypes
  generalize (equivalentFuncs types target (flatSubTypes types) 0 fun _ => .absent) = flags at hmarks ⊢
  have hmem : ∀ k, k ∈ (List.range (flatSubTypes types).length).filter (fun i => flags.getD i false) ↔
      SameType types k target := by
    intro k
    rw [mem_filter, mem_range, hmarks]
    exact ⟨And.right, fun h => ⟨h.lt_length.1, h⟩⟩
  rw [Adjacency.closure_iff (fun p hp c hcp => superParent_lt_length ((mem_superChildren hs hp).1 hcp))
    ⟨fun k => (hmarks k).trans (hmem k).symm, nodup_range.filter _,
      fun k hk => ((hmem k).1 hk).lt_length.1, fun k hk => ⟨k, hk, .refl⟩⟩
    (fun _ hr => hr) (fun i hi => absurd hi (Nat.not_lt_zero i)) (Nat.le_refl _)]
  constructor
  · rintro ⟨r, hr, hsteps⟩
    have hsame := (hmem r).1 hr
    exact ⟨r, (superChildren_steps hs hsame.lt_length.1).1 hsteps, hsame⟩
  · rintro ⟨r, hanc, hsame⟩
    exact ⟨r, (hmem r).2 hsame, (superChildren_steps hs hsame.lt_length.1).2 hanc⟩

theorem closure_selects (hc : SoundContext types ctx) (hn : (flatSubTypes types).length < 2 ^ 32)
    (ht : (typeFunc types target).isSome = true) :
    ∃ indexes, closureSubtypeIndexes types target = (indexes, true) ∧ Selects types ctx target indexes := by
  have hedges := length_superEdges_le hc.scope
  have hsel : Selects types ctx target ((List.range (flatSubTypes types).length).filter fun i =>
      reachableTypes types target i && (typeFunc types i).isSome) := by
    refine ⟨pairwise_lt_range.filter _, fun i => ?_⟩
    rw [mem_filter, mem_range, Bool.and_eq_true, reachableTypes_iff hc.scope ht]
    constructor
    · rintro ⟨hi, hsub, hfunc⟩
      exact ⟨hfunc, (refSubtype_indexed hc hi (lt_of_typeFunc ht)).2 hsub⟩
    · rintro ⟨hfunc, hsub⟩
      have hi := lt_of_typeFunc hfunc
      exact ⟨hi, (refSubtype_indexed hc hi (lt_of_typeFunc ht)).1 hsub, hfunc⟩
  unfold closureSubtypeIndexes maxInt
  dsimp only
  rw [if_neg (by omega)]
  exact ⟨_, Prod.ext rfl (decide_eq_true (hsel.ne_nil ht)), hsel⟩

theorem scan_selects (hc : SoundContext types ctx) (hn : (flatSubTypes types).length = 2)
    (ht : (typeFunc types target).isSome = true) :
    ∃ indexes, scanSubtypeIndexes types target = (indexes, true) ∧ Selects types ctx target indexes := by
  have hsel : Selects types ctx target ((List.range 2).filter fun i => (typeFunc types i).isSome &&
      (TypeContext.ofTypes types).refSubtype (typeRef i) (typeRef target)) := by
    refine ⟨pairwise_lt_range.filter _, fun i => ?_⟩
    rw [mem_filter, mem_range, Bool.and_eq_true, refSubtype_ofTypes hc]
    exact ⟨And.right, fun h => ⟨hn ▸ lt_of_typeFunc h.1, h⟩⟩
  exact ⟨_, Prod.ext rfl (decide_eq_true (hsel.ne_nil ht)), hsel⟩

end

/-- In a validated module the selection gives the function types whose references are subtypes of the
target's, whichever way it is made, and the intervals do not change the subtype test. -/
theorem functionSubtypeTypeIndexes_exact {types : List RecType} {ctx : TypeContext} {target : Nat}
    (hv : validateTypeSection types = .ok ctx) (hn : (flatSubTypes types).length < 2 ^ 32)
    (ht : (typeFunc types target).isSome = true) :
    (∃ indexes, functionSubtypeTypeIndexes types target = (indexes, true) ∧
      closureSubtypeIndexes types target = (indexes, true) ∧ Selects types ctx target indexes) ∧
    ∀ a b, ctx.typeIdxSuperSubtype a b = (TypeContext.ofTypes types).typeIdxSuperSubtype a b := by
  have hc := validateTypeSection_sound hv
  obtain ⟨indexes, hclosure, hsel⟩ := closure_selects hc hn ht
  have hsame {l : List Nat} (h : Selects types ctx target l) : l = indexes :=
    h.increasing.eq_of_mem_iff hsel.increasing fun i => (h.mem_iff i).trans (hsel.mem_iff i).symm
  refine ⟨⟨indexes, ?_, hclosure, hsel⟩, fun a b => ?_⟩
  · have hcount : (types.map (·.subTypes.length)).sum = (flatSubTypes types).length := by
      rw [flatSubTypes_length, typeGroupBase, List.take_length]
    unfold functionSubtypeTypeIndexes
    dsimp only
    rw [if_neg (by simpa using Option.isSome_iff_ne_none.1 ht), hcount]
    split
    · rename_i hone
      have htl := lt_of_typeFunc ht
      rw [← hsame ⟨List.pairwise_singleton _ target, fun i => ?_⟩]
      rw [List.mem_singleton]
      constructor
      · rintro rfl
        exact ⟨ht, refSubtype_refl ctx _⟩
      · rintro ⟨hfunc, -⟩
        have := lt_of_typeFunc hfunc
        omega
    · split
      · rename_i htwo
        obtain ⟨l, hl, hscan⟩ := scan_selects hc htwo.2 ht
        rw [hl, hsame hscan]
      · exact hclosure
  · rw [Bool.eq_iff_iff, typeIdxSuperSubtype_iff hc, typeIdxSuperSubtype_iff (soundContext_ofTypes hc.scope)]

/-- The second of three types in a chain has itself and the third one below it. -/
theorem functionSubtypeTypeIndexes_chain :
    functionSubtypeTypeIndexes narrowingChain 1 = ([1, 2], true) ∧
      Selects narrowingChain (TypeContext.ofTypes narrowingChain) 1 [1, 2] := by
  have hrun : functionSubtypeTypeIndexes narrowingChain 1 = ([1, 2], true) := by decide +kernel
  obtain ⟨⟨indexes, heq, -, hsel⟩, -⟩ := functionSubtypeTypeIndexes_exact
    (show validateTypeSection narrowingChain = .ok (TypeContext.ofTypes narrowingChain) from rfl)
    (by decide) (show (typeFunc narrowingChain 1).isSome = true from rfl)
  cases hrun.symm.trans heq
  exact ⟨hrun, hsel⟩

end Wago.Wasm
