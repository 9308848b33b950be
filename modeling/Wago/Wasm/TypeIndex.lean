/-
The flat index space of a type section: lookups by flat index and by an index relative to a
recursion group, and the resolution of relative indexes (`validate_gc_helpers.go`).
-/
import Wago.Wasm.Types
import Mathlib.Data.List.Basic

namespace Wago.Wasm

/-- The first flat index of group `g`. -/
def typeGroupBase (types : List RecType) (g : Nat) : Nat :=
  ((types.take g).map (·.subTypes.length)).sum

/-- All subtypes in order, each with its group (`moduleSubTypeRef`). -/
def flatSubTypesFrom : (g : Nat) → List RecType → List (SubType × Nat)
  | _, [] => []
  | g, rt :: rts => rt.subTypes.map (·, g) ++ flatSubTypesFrom (g + 1) rts

def flatSubTypes (types : List RecType) : List (SubType × Nat) := flatSubTypesFrom 0 types

def groupLength (types : List RecType) (g : Nat) : Nat :=
  match types[g]? with
  | some rt => rt.subTypes.length
  | none => 0

def subtypeByFlatTypeIdx (types : List RecType) (idx : Nat) : Option (SubType × Nat) :=
  (flatSubTypes types)[idx]?

def subtypeByTypeIdxWithRecGroup (types : List RecType) (idx : TypeIdx) : Option (SubType × Nat) :=
  if idx.isRec then none else subtypeByFlatTypeIdx types idx.index

def subtypeByTypeIdx (types : List RecType) (idx : TypeIdx) : Option SubType :=
  (subtypeByTypeIdxWithRecGroup types idx).map (·.1)

def validTypeIdx (types : List RecType) (idx : TypeIdx) : Bool := (subtypeByTypeIdx types idx).isSome

/-- An index inside a type definition of group `recGroup`: an absolute one names a type declared
before the group, a relative one a member of the group. Outside the type section `recGroup` is
`none`. -/
def subtypeByTypeIdxInRecGroup (types : List RecType) (idx : TypeIdx) (recGroup : Option Nat) :
    Option SubType :=
  if idx.isRec then
    match recGroup with
    | none => none
    | some g =>
      match types[g]? with
      | none => none
      | some rt => rt.subTypes[idx.index]?
  else
    match recGroup with
    | none => subtypeByTypeIdx types idx
    | some g =>
      if g ≥ types.length then none
      else if idx.index ≥ typeGroupBase types g then none
      else subtypeByTypeIdx types idx

def validTypeIdxInRecGroup (types : List RecType) (idx : TypeIdx) (recGroup : Option Nat) : Bool :=
  (subtypeByTypeIdxInRecGroup types idx recGroup).isSome

def flatTypeIdxInRecGroup (types : List RecType) (idx : TypeIdx) (recGroup : Option Nat) : Option Nat :=
  if idx.isRec then
    match recGroup with
    | none => none
    | some g =>
      if g ≥ types.length then none
      else if idx.index ≥ groupLength types g then none
      else some (typeGroupBase types g + idx.index)
  else if validTypeIdx types idx then some idx.index
  else none

/-! ## Resolution of relative indexes -/

def resolveTypeIdxRecIndex (types : List RecType) (idx : TypeIdx) (recGroup : Nat) : TypeIdx :=
  match flatTypeIdxInRecGroup types idx (some recGroup) with
  | none => idx
  | some flat => { index := flat }

def resolveRefTypeRecIndexes (types : List RecType) (rt : RefType) (recGroup : Nat) : RefType :=
  match rt.heap with
  | .typeIndex idx => rt.withHeap (.typeIndex (resolveTypeIdxRecIndex types idx recGroup))
  | _ => rt

def resolveValTypeRecIndexes (types : List RecType) (t : ValType) (recGroup : Nat) : ValType :=
  match t with
  | .ref rt => .ref (resolveRefTypeRecIndexes types rt recGroup)
  | t => t

def resolveFieldTypeRecIndexes (types : List RecType) (ft : FieldType) (recGroup : Nat) : FieldType :=
  match ft.storage with
  | .packed _ => ft
  | .val v => { ft with storage := .val (resolveValTypeRecIndexes types v recGroup) }

def resolveCompTypeRecIndexes (types : List RecType) (ct : CompType) (recGroup : Nat) : CompType :=
  match ct with
  | .func params results =>
    .func (params.map (resolveValTypeRecIndexes types · recGroup))
      (results.map (resolveValTypeRecIndexes types · recGroup))
  | .struct fields => .struct (fields.map (resolveFieldTypeRecIndexes types · recGroup))
  | .array field => .array (resolveFieldTypeRecIndexes types field recGroup)

/-- The component of a type index, with its relative indexes resolved. The source memoises it by
flat index; the memo is a function of the type section. -/
def resolvedCompType (types : List RecType) (idx : TypeIdx) : Option CompType :=
  (subtypeByTypeIdxWithRecGroup types idx).map fun (st, g) => resolveCompTypeRecIndexes types st.comp g

def compTypeFromTypeIdx (types : List RecType) (idx : TypeIdx) : Option CompType :=
  resolvedCompType types idx

/-- Parameters and results, when the index names a function type. -/
def funcTypeFromTypeIdx (types : List RecType) (idx : TypeIdx) : Option (List ValType × List ValType) :=
  match resolvedCompType types idx with
  | some (.func params results) => some (params, results)
  | _ => none

def structFields (types : List RecType) (idx : TypeIdx) : Option (List FieldType × SubType × Nat) :=
  match subtypeByTypeIdxWithRecGroup types idx with
  | some (st, g) =>
    match st.comp with
    | .struct fields => some (fields.map (resolveFieldTypeRecIndexes types · g), st, g)
    | _ => none
  | none => none

def arrayField (types : List RecType) (idx : TypeIdx) : Option (FieldType × SubType) :=
  match subtypeByTypeIdxWithRecGroup types idx with
  | some (st, g) =>
    match st.comp with
    | .array field => some (resolveFieldTypeRecIndexes types field g, st)
    | _ => none
  | none => none

/-! ## Flat indexes and group positions -/

theorem typeGroupBase_zero (types : List RecType) : typeGroupBase types 0 = 0 := rfl

theorem typeGroupBase_cons (rt : RecType) (types : List RecType) (g : Nat) :
    typeGroupBase (rt :: types) (g + 1) = rt.subTypes.length + typeGroupBase types g := rfl

theorem flatSubTypesFrom_get? : ∀ (types : List RecType) (g0 i : Nat) (st : SubType) (g : Nat),
    (flatSubTypesFrom g0 types)[i]? = some (st, g) ↔
      ∃ k rt l, g = g0 + k ∧ types[k]? = some rt ∧ rt.subTypes[l]? = some st ∧
        i = typeGroupBase types k + l
  | [], g0, i, st, g => by simp [flatSubTypesFrom]
  | rt :: types, g0, i, st, g => by
    rw [flatSubTypesFrom, List.getElem?_append]
    by_cases hi : i < (rt.subTypes.map (·, g0)).length
    · rw [if_pos hi]
      simp only [List.length_map] at hi
      constructor
      · intro h
        simp only [List.getElem?_map, Option.map_eq_some_iff, Prod.mk.injEq] at h
        obtain ⟨st', hst, rfl, rfl⟩ := h
        exact ⟨0, rt, i, rfl, rfl, hst, by simp [typeGroupBase_zero]⟩
      · rintro ⟨k, rt', l, rfl, hrt, hst, rfl⟩
        cases k with
        | zero =>
          simp only [List.getElem?_cons_zero, Option.some.injEq] at hrt
          subst hrt
          simp [typeGroupBase_zero, hst]
        | succ k => rw [typeGroupBase_cons] at hi; omega
    · rw [if_neg hi, flatSubTypesFrom_get? types (g0 + 1)]
      simp only [List.length_map] at hi ⊢
      constructor
      · rintro ⟨k, rt', l, rfl, hrt, hst, he⟩
        exact ⟨k + 1, rt', l, by omega, by simpa using hrt, hst, by rw [typeGroupBase_cons]; omega⟩
      · rintro ⟨k, rt', l, rfl, hrt, hst, rfl⟩
        cases k with
        | zero =>
          simp only [List.getElem?_cons_zero, Option.some.injEq] at hrt
          subst hrt
          have := (List.getElem?_eq_some_iff.1 hst).1
          simp [typeGroupBase_zero] at hi; omega
        | succ k =>
          rw [typeGroupBase_cons]
          exact ⟨k, rt', l, by omega, by simpa using hrt, hst, by omega⟩

/-- Flat index `i` is member `l` of group `g`, whose subtype is `st`. -/
structure AtPos (types : List RecType) (i g l : Nat) (st : SubType) : Prop where
  member : ∃ rt, types[g]? = some rt ∧ rt.subTypes[l]? = some st
  index : i = typeGroupBase types g + l

theorem subtypeByFlatTypeIdx_iff {types : List RecType} {i g : Nat} {st : SubType} :
    subtypeByFlatTypeIdx types i = some (st, g) ↔ ∃ l, AtPos types i g l st := by
  rw [subtypeByFlatTypeIdx, flatSubTypes, flatSubTypesFrom_get?]
  constructor
  · rintro ⟨k, rt, l, hg, hrt, hst, hi⟩
    obtain rfl : g = k := by omega
    exact ⟨l, ⟨⟨rt, hrt, hst⟩, hi⟩⟩
  · rintro ⟨l, ⟨⟨rt, hrt, hst⟩, hi⟩⟩
    exact ⟨g, rt, l, by omega, hrt, hst, hi⟩

section

variable {types : List RecType} {rt : RecType} {i g l g' l' : Nat} {st st' : SubType}

theorem groupLength_of_get (h : types[g]? = some rt) : groupLength types g = rt.subTypes.length := by
  simp [groupLength, h]

theorem typeGroupBase_succ (h : types[g]? = some rt) :
    typeGroupBase types (g + 1) = typeGroupBase types g + rt.subTypes.length := by
  obtain ⟨hg, rfl⟩ := List.getElem?_eq_some_iff.1 h
  rw [typeGroupBase, typeGroupBase, List.take_succ_eq_append_getElem hg, List.map_append,
    List.sum_append]
  rfl

theorem typeGroupBase_mono (types : List RecType) (h : g ≤ g') : typeGroupBase types g ≤ typeGroupBase types g' := by
  unfold typeGroupBase
  obtain ⟨k, rfl⟩ := Nat.exists_eq_add_of_le h
  rw [List.take_add, List.map_append, List.sum_append]
  exact Nat.le_add_right _ _

theorem flatSubTypes_length (types : List RecType) :
    (flatSubTypes types).length = typeGroupBase types types.length := by
  have from_length : ∀ (ts : List RecType) (g0 : Nat),
      (flatSubTypesFrom g0 ts).length = (ts.map (·.subTypes.length)).sum := by
    intro ts
    induction ts with
    | nil => intro g0; rfl
    | cons t ts ih => intro g0; simp [flatSubTypesFrom, ih]
  rw [flatSubTypes, from_length, typeGroupBase, List.take_length]

namespace AtPos

variable (h : AtPos types i g l st)

include h

theorem lt_groupLength : l < groupLength types g := by
  obtain ⟨⟨rt, hrt, hst⟩, -⟩ := h
  rw [groupLength_of_get hrt]
  exact (List.getElem?_eq_some_iff.1 hst).1

theorem flat : subtypeByFlatTypeIdx types i = some (st, g) :=
  subtypeByFlatTypeIdx_iff.2 ⟨l, h⟩

theorem unique (h' : AtPos types i g' l' st') :
    g = g' ∧ l = l' ∧ st = st' := by
  have he := h.flat.symm.trans h'.flat
  simp only [Option.some.injEq, Prod.mk.injEq] at he
  obtain ⟨rfl, rfl⟩ := he
  have h1 := h.index
  have h2 := h'.index
  exact ⟨rfl, by omega, rfl⟩

theorem lt_length : i < (flatSubTypes types).length :=
  (List.getElem?_eq_some_iff.1 h.flat).1

theorem base_le : typeGroupBase types g ≤ i := by
  have := h.index; omega

theorem group_lt : g < types.length := by
  obtain ⟨⟨rt, hrt, -⟩, -⟩ := h
  exact (List.getElem?_eq_some_iff.1 hrt).1

/-- An index below the base of a group lies in an earlier group. -/
theorem group_lt_of_lt_base (hi : i < typeGroupBase types g') : g < g' := by
  by_contra hg
  have := typeGroupBase_mono types (Nat.le_of_not_lt hg)
  have := h.base_le
  omega

theorem location :
    (flatSubTypes types)[i]? = some (st, g) ∧ i - typeGroupBase types g = l := by
  refine ⟨h.flat, ?_⟩
  have := h.index; omega

end AtPos

theorem exists_atPos (h : i < (flatSubTypes types).length) : ∃ g l st, AtPos types i g l st := by
  obtain ⟨⟨st, g⟩, hf⟩ : ∃ p, subtypeByFlatTypeIdx types i = some p :=
    ⟨_, List.getElem?_eq_getElem h⟩
  obtain ⟨l, hp⟩ := subtypeByFlatTypeIdx_iff.1 hf
  exact ⟨g, l, st, hp⟩

theorem atPos_member (hrt : types[g]? = some rt) (hl : l < rt.subTypes.length) :
    ∃ st, rt.subTypes[l]? = some st ∧ AtPos types (typeGroupBase types g + l) g l st :=
  ⟨rt.subTypes[l], List.getElem?_eq_getElem hl, ⟨⟨rt, hrt, List.getElem?_eq_getElem hl⟩, rfl⟩⟩

theorem typeGroupBase_le_length (types : List RecType) (g : Nat) :
    typeGroupBase types g ≤ (flatSubTypes types).length := by
  rw [flatSubTypes_length]
  rcases Nat.le_total g types.length with h | h
  · exact typeGroupBase_mono types h
  · refine Nat.le_of_eq ?_
    rw [typeGroupBase, typeGroupBase, List.take_of_length_le h, List.take_length]

/-! ## Scope -/

/-- An index a definition of group `g` may use: a member of the group, or a type declared before. -/
def IdxInScope (types : List RecType) (g : Nat) (idx : TypeIdx) : Prop :=
  if idx.isRec then idx.index < groupLength types g else idx.index < typeGroupBase types g

/-- The flat index of an index in scope of group `g`. -/
def scopedFlat (types : List RecType) (g : Nat) (idx : TypeIdx) : Nat :=
  if idx.isRec then typeGroupBase types g + idx.index else idx.index

theorem validTypeIdx_iff {idx : TypeIdx} :
    validTypeIdx types idx = true ↔ idx.isRec = false ∧ idx.index < (flatSubTypes types).length := by
  unfold validTypeIdx subtypeByTypeIdx subtypeByTypeIdxWithRecGroup subtypeByFlatTypeIdx
  cases h : idx.isRec <;> simp

theorem flatTypeIdxInRecGroup_scoped {idx : TypeIdx} (hg : g < types.length)
    (h : IdxInScope types g idx) :
    flatTypeIdxInRecGroup types idx (some g) = some (scopedFlat types g idx) := by
  unfold flatTypeIdxInRecGroup scopedFlat
  unfold IdxInScope at h
  cases hr : idx.isRec
  · have hlt : idx.index < (flatSubTypes types).length := by
      have := typeGroupBase_le_length types g
      simp [hr] at h; omega
    have hv : validTypeIdx types idx = true := validTypeIdx_iff.2 ⟨hr, hlt⟩
    simp [hv]
  · simp only [hr, if_true] at h
    simp [Nat.not_le.2 hg, Nat.not_le.2 h]

theorem flatTypeIdxInRecGroup_none {i : Nat} (h : i < (flatSubTypes types).length) :
    flatTypeIdxInRecGroup types { index := i } none = some i := by
  have hv : validTypeIdx types { index := i } = true := validTypeIdx_iff.2 ⟨rfl, h⟩
  simp [flatTypeIdxInRecGroup, hv]

theorem flatTypeIdx_lt {idx : TypeIdx} (h : flatTypeIdxInRecGroup types idx none = some i) :
    i < (flatSubTypes types).length := by
  unfold flatTypeIdxInRecGroup at h
  split at h
  · cases h
  · split at h
    · cases h; exact (validTypeIdx_iff.1 ‹_›).2
    · cases h

theorem validTypeIdxInRecGroup_iff {idx : TypeIdx} :
    validTypeIdxInRecGroup types idx (some g) = true ↔ g < types.length ∧ IdxInScope types g idx := by
  unfold validTypeIdxInRecGroup subtypeByTypeIdxInRecGroup IdxInScope
  cases hr : idx.isRec
  · have hb := typeGroupBase_le_length types g
    have hv := @validTypeIdx_iff types idx
    simp only [validTypeIdx, hr, true_and] at hv
    by_cases hg : g < types.length
    · by_cases hi : idx.index < typeGroupBase types g
      · have : (subtypeByTypeIdx types idx).isSome = true := hv.2 (by omega)
        simp [Nat.not_le.2 hg, Nat.not_le.2 hi, this, hg, hi]
      · simp [Nat.not_le.2 hg, Nat.le_of_not_lt hi, hi]
    · simp [Nat.le_of_not_lt hg, hg]
  · cases hrt : types[g]? with
    | none =>
      have hg := List.getElem?_eq_none_iff.1 hrt
      simp [Nat.not_lt.2 hg]
    | some rt =>
      have hg := (List.getElem?_eq_some_iff.1 hrt).1
      rw [if_pos rfl, if_pos rfl, groupLength_of_get hrt]
      simp only [hrt, hg, true_and, Option.isSome_iff_exists, List.getElem?_eq_some_iff]
      exact ⟨fun ⟨_, h, _⟩ => h, fun h => ⟨_, h, rfl⟩⟩

end

end Wago.Wasm
