/-
The subtype test of the runtime on descriptors against the validator's on the types they come from.
The two agree except below an exact reference: there the runtime rejects what only the rules for
abstract heap types relate, while the validator checks exactness for equal and for defined types
only.
-/
import Wago.Runtime.TypeDescriptorSpec
import Wago.Wasm.Validator

namespace Wago.Runtime

open Wago.Wasm

/-! ## Value types of a module -/

/-- A value type of a decoded and validated module, in the group its definition stands in or outside
the type section. -/
def ModuleVal (types : List RecType) (group : Option Nat) (v : ValType) : Prop :=
  PlainVal v ∧ validateValTypeInRecGroup types v group = .ok ()

/-- The value type with absolute indexes, as the validator compares it. -/
def resolveAt (types : List RecType) (group : Option Nat) (v : ValType) : ValType :=
  match group with
  | none => v
  | some g => resolveValTypeRecIndexes types v g

def flatAt (types : List RecType) (group : Option Nat) (idx : TypeIdx) : Nat :=
  match group with
  | none => idx.index
  | some g => scopedFlat types g idx

/-- The heap type with its index, if it has one, replaced by an absolute one. -/
def absHeap (flat : TypeIdx → Nat) : HeapType → HeapType
  | .typeIndex idx => .typeIndex { index := flat idx }
  | h => h

@[simp] theorem absHeap_abs (flat : TypeIdx → Nat) (a : AbsHeapType) : absHeap flat (.abs a) = .abs a := rfl

@[simp] theorem absHeap_typeIndex (flat : TypeIdx → Nat) (idx : TypeIdx) :
    absHeap flat (.typeIndex idx) = .typeIndex { index := flat idx } := rfl

def absVal (flat : TypeIdx → Nat) : ValType → ValType
  | .ref r => .ref (r.withHeap (absHeap flat r.heap))
  | v => v

section

variable {types : List RecType} {group : Option Nat} {v : ValType}

theorem scopedFlat_lt {g : Nat} (hg : g < types.length) {idx : TypeIdx} (h : IdxInScope types g idx) :
    scopedFlat types g idx < (flatSubTypes types).length := by
  have hle := typeGroupBase_le_length types (g + 1)
  rw [typeGroupBase_succ (List.getElem?_eq_getElem hg)] at hle
  obtain ⟨i, r⟩ := idx
  cases r with
  | false =>
    have hi : i < typeGroupBase types g := h
    show i < _
    omega
  | true =>
    have hi : i < groupLength types g := h
    rw [groupLength_of_get (List.getElem?_eq_getElem hg)] at hi
    show typeGroupBase types g + i < _
    omega

/-- An index in scope converts and resolves to the same entry. -/
theorem typeIndex_flatAt {idx : TypeIdx} (h : validTypeIdxInRecGroup types idx group = true) :
    Converter.typeIndex types idx group = .ok (flatAt types group idx) ∧
      flatAt types group idx < (flatSubTypes types).length := by
  cases group with
  | some g =>
    obtain ⟨hg, hs⟩ := validTypeIdxInRecGroup_iff.1 h
    exact ⟨typeIndex_scoped hg hs, scopedFlat_lt hg hs⟩
  | none =>
    obtain ⟨i, r⟩ := idx
    cases r with
    | true => simp [validTypeIdxInRecGroup, subtypeByTypeIdxInRecGroup] at h
    | false =>
      have hlt : i < (flatSubTypes types).length := (validTypeIdx_iff.1 h).2
      have hlen : ¬ typeGroupBase types types.length ≤ i := by
        rw [← flatSubTypes_length]
        omega
      exact ⟨by simp [Converter.typeIndex, flatAt, hlen], hlt⟩

theorem ValUses.mono {P Q : TypeIdx → Prop} (h : ValUses P v) (hPQ : ∀ idx, P idx → Q idx) :
    ValUses Q v := by
  cases v with
  | ref r =>
    obtain ⟨nullable, exact, bare, heap⟩ := r
    cases heap with
    | typeIndex idx => exact hPQ idx h
    | _ => exact h
  | _ => exact h

/-- The value types of a module use valid indexes only. -/
theorem ModuleVal.uses (h : ModuleVal types group v) :
    ValUses (fun idx => validTypeIdxInRecGroup types idx group = true) v := by
  obtain ⟨hplain, hok⟩ := h
  cases v with
  | ref r =>
    obtain ⟨nullable, exact, bare, heap⟩ := r
    cases heap with
    | abs a => trivial
    | typeIndex idx =>
      by_contra hidx
      have hidx : ¬ validTypeIdxInRecGroup types idx group = true := hidx
      simp [validateValTypeInRecGroup, validateRefTypeInRecGroup, validateHeapTypeInRecGroup, hidx,
        moduleErr] at hok
    | _ => exact hplain.elim
  | bot => cases hok
  | _ => trivial

theorem ModuleVal.converts (h : ModuleVal types group v) :
    Converter.valueType types v group = .ok (valDesc (flatAt types group) v) :=
  valueType_ok (fun _ hidx => (typeIndex_flatAt hidx).1) h.uses

theorem ModuleVal.resolved (h : ModuleVal types group v) :
    resolveAt types group v = absVal (flatAt types group) v := by
  have huses := h.uses
  cases v with
  | ref r =>
    obtain ⟨nullable, exact, bare, heap⟩ := r
    cases heap with
    | abs a => cases group <;> rfl
    | typeIndex idx =>
      cases group with
      | none =>
        obtain ⟨i, r⟩ := idx
        cases r with
        | true => simp [ValUses, HeapUses, validTypeIdxInRecGroup, subtypeByTypeIdxInRecGroup] at huses
        | false => rfl
      | some g =>
        obtain ⟨hg, hs⟩ := validTypeIdxInRecGroup_iff.1 huses
        simp [resolveAt, resolveValTypeRecIndexes, resolveRefTypeRecIndexes, resolveTypeIdxRecIndex,
          flatTypeIdxInRecGroup_scoped hg hs, absVal, absHeap, flatAt]
    | _ => exact huses.elim
  | _ => cases group <;> rfl

end

/-! ## Matching of heap types by shape -/

section

variable {types : List RecType} {e e' : Bool} {x y : TypeIdx} {a b : AbsHeapType}

theorem heapMatch_indexed : HeapMatch types e (.typeIndex x) e' (.typeIndex y) ↔
    (IdxSame types x y ∧ (e' = true → e = true)) ∨ e' = false ∧ IdxSub types x y := by
  constructor
  · intro h
    cases h with
    | same he hsame => exact .inl ⟨hsame, he⟩
    | super hsub => exact .inr ⟨rfl, hsub⟩
  · rintro (⟨hsame, he⟩ | ⟨rfl, hsub⟩)
    · exact .same he hsame
    · exact .super hsub

theorem heapMatch_below : HeapMatch types e (.abs a) e' (.typeIndex y) ↔
    ∃ k, idxKind types y = some k ∧ a = kindBottom k := by
  constructor
  · intro h
    cases h with
    | same he hsame => simp [HeapSame, equalHeapType] at hsame
    | belowDef hk => exact ⟨_, hk, rfl⟩
  · rintro ⟨k, hk, rfl⟩
    exact .belowDef hk

theorem heapMatch_above : HeapMatch types e (.typeIndex x) e' (.abs b) ↔
    ∃ k, idxKind types x = some k ∧ absHeapSubtype (kindTop k) b = true := by
  constructor
  · intro h
    cases h with
    | same he hsame => simp [HeapSame, equalHeapType] at hsame
    | aboveDef hk hb => exact ⟨_, hk, hb⟩
  · rintro ⟨k, hk, hb⟩
    exact .aboveDef hk hb

theorem heapMatch_abstract : HeapMatch types e (.abs a) e' (.abs b) ↔
    (a = b ∧ (e' = true → e = true)) ∨ a ≠ b ∧ absHeapSubtype a b = true := by
  constructor
  · intro h
    cases h with
    | same he hsame => exact .inl ⟨by simpa [HeapSame, equalHeapType] using hsame, he⟩
    | abs hne hab => exact .inr ⟨hne, hab⟩
  · rintro (⟨rfl, he⟩ | ⟨hne, hab⟩)
    · exact .same he (by simp [HeapSame, equalHeapType])
    · exact .abs hne hab

end

/-- The rules that involve an abstract heap type and relate unequal heap types. -/
inductive AbstractRule (types : List RecType) : HeapType → HeapType → Prop
  | belowDef {y k} (h : idxKind types y = some k) : AbstractRule types (.abs (kindBottom k)) (.typeIndex y)
  | aboveDef {x k b} (h : idxKind types x = some k) (hb : absHeapSubtype (kindTop k) b = true) :
    AbstractRule types (.typeIndex x) (.abs b)
  | abs {a b} (hne : a ≠ b) (h : absHeapSubtype a b = true) : AbstractRule types (.abs a) (.abs b)

section

variable {types : List RecType} {x y : TypeIdx} {a b : AbsHeapType}

theorem abstractRule_below : AbstractRule types (.abs a) (.typeIndex y) ↔
    ∃ k, idxKind types y = some k ∧ a = kindBottom k := by
  constructor
  · intro h
    cases h with
    | belowDef hk => exact ⟨_, hk, rfl⟩
  · rintro ⟨k, hk, rfl⟩
    exact .belowDef hk

theorem abstractRule_above : AbstractRule types (.typeIndex x) (.abs b) ↔
    ∃ k, idxKind types x = some k ∧ absHeapSubtype (kindTop k) b = true := by
  constructor
  · intro h
    cases h with
    | aboveDef hk hb => exact ⟨_, hk, hb⟩
  · rintro ⟨k, hk, hb⟩
    exact .aboveDef hk hb

theorem abstractRule_abstract : AbstractRule types (.abs a) (.abs b) ↔
    a ≠ b ∧ absHeapSubtype a b = true := by
  constructor
  · intro h
    cases h with
    | abs hne hab => exact ⟨hne, hab⟩
  · rintro ⟨hne, hab⟩
    exact .abs hne hab

end

/-- The second type is an exact reference, and the first is below it only by a rule for abstract heap
types. -/
def ExactGap (types : List RecType) : ValType → ValType → Prop
  | .ref r, .ref q =>
    q.exact = true ∧ (r.nullable = true → q.nullable = true) ∧ AbstractRule types r.heap q.heap
  | _, _ => False

/-! ## The two tests -/

theorem abstractHeapSubtype_eq (a b : AbsHeapType) :
    abstractHeapSubtype (abstractHeapTypeFromWasm a) (abstractHeapTypeFromWasm b) = absHeapSubtype a b := by
  cases a <;> cases b <;> rfl

def compositeKind : CompTypeKind → CompositeTypeKind
  | .array => .array
  | .struct => .struct
  | .func => .function

theorem compDesc_kind (flat : TypeIdx → Nat) (ct : CompType) :
    (compDesc flat ct).kind = compositeKind ct.kind := by
  cases ct <;> rfl

theorem compositeFamily_kind (k : CompTypeKind) :
    compositeFamily (compositeKind k) = abstractHeapTypeFromWasm (kindTop k) := by
  cases k <;> rfl

section

variable {types : List RecType} {i j : Nat}

theorem idxSame_iff (hi : i < (flatSubTypes types).length) (hj : j < (flatSubTypes types).length) :
    IdxSame types { index := i } { index := j } ↔ SameType types i j := by
  rw [IdxSame, flatTypeIdxInRecGroup_none hi, flatTypeIdxInRecGroup_none hj]
  constructor
  · rintro (heq | ⟨i', j', hi', hj', h⟩)
    · cases heq
      exact sameType_refl hi
    · cases hi'
      cases hj'
      exact h
  · intro h
    exact .inr ⟨i, j, rfl, rfl, h⟩

theorem idxSub_iff (hi : i < (flatSubTypes types).length) (hj : j < (flatSubTypes types).length) :
    IdxSub types { index := i } { index := j } ↔ DefSub types i j := by
  rw [IdxSub, flatTypeIdxInRecGroup_none hi, flatTypeIdxInRecGroup_none hj]
  constructor
  · rintro ⟨i', j', hi', hj', h⟩
    cases hi'
    cases hj'
    exact h
  · intro h
    exact ⟨i, j, rfl, rfl, h⟩

/-- The kind of an entry, as the validator and as the runtime read it. -/
theorem kind_at (hi : i < (flatSubTypes types).length) :
    ∃ k d, idxKind types { index := i } = some k ∧ (descriptorsOf types)[i]? = some d ∧
      d.comp.kind = compositeKind k := by
  obtain ⟨g, l, st, hpos⟩ := exists_atPos hi
  refine ⟨st.comp.kind, _, ?_, descriptorsOf_get hpos, compDesc_kind _ _⟩
  rw [idxKind, resolvedCompType_at (flatTypeIdxInRecGroup_none hi) hpos, Option.map_some,
    resolveCompType_kind]

end

section

variable {sameSlice : Bool} {ds : List DefinedTypeDescriptor}

/-- What the runtime asks of heap types that are not equivalent. -/
inductive DescRule (sameSlice : Bool) (ds : List DefinedTypeDescriptor) :
    HeapTypeDescriptor → HeapTypeDescriptor → Prop
  | super {i j} (h : definedTypeHasSuper sameSlice ds ds i j = true) :
    DescRule sameSlice ds { defined := true, typeIndex := i } { defined := true, typeIndex := j }
  | above {i d b} (hd : ds[i]? = some d) (h : abstractHeapSubtype (compositeFamily d.comp.kind) b = true) :
    DescRule sameSlice ds { defined := true, typeIndex := i } { abstractHeap := b }
  | belowFunc {j d} (hd : ds[j]? = some d) (h : d.comp.kind = .function) :
    DescRule sameSlice ds { abstractHeap := .noFunc } { defined := true, typeIndex := j }
  | belowData {j d} (hd : ds[j]? = some d) (h : d.comp.kind = .struct ∨ d.comp.kind = .array) :
    DescRule sameSlice ds { abstractHeap := .none } { defined := true, typeIndex := j }
  | abs {a b} (h : abstractHeapSubtype a b = true) :
    DescRule sameSlice ds { abstractHeap := a } { abstractHeap := b }

theorem descRule_abstract {a b : AbstractHeapType} :
    DescRule sameSlice ds { abstractHeap := a } { abstractHeap := b } ↔ abstractHeapSubtype a b = true := by
  refine ⟨fun h => ?_, fun h => .abs h⟩
  cases h with
  | abs h => exact h

theorem descRule_below {a : AbstractHeapType} {j : Nat} {d : DefinedTypeDescriptor} (hd : ds[j]? = some d) :
    DescRule sameSlice ds { abstractHeap := a } { defined := true, typeIndex := j } ↔
      (a = .noFunc ∧ d.comp.kind = .function) ∨
        a = .none ∧ (d.comp.kind = .struct ∨ d.comp.kind = .array) := by
  constructor
  · intro h
    cases h with
    | belowFunc hd' h =>
      cases hd.symm.trans hd'
      exact .inl ⟨rfl, h⟩
    | belowData hd' h =>
      cases hd.symm.trans hd'
      exact .inr ⟨rfl, h⟩
  · rintro (⟨rfl, h⟩ | ⟨rfl, h⟩)
    · exact .belowFunc hd h
    · exact .belowData hd h

/-- A heap descriptor as the conversion writes it. -/
def Converted (h : HeapTypeDescriptor) : Prop :=
  (∃ i, h = { defined := true, typeIndex := i }) ∨ ∃ a, h = { abstractHeap := a }

theorem heapDesc_converted {P : TypeIdx → Prop} {flat : TypeIdx → Nat} {h : HeapType} (hu : HeapUses P h) :
    Converted (heapDesc flat h) := by
  cases h with
  | typeIndex idx => exact .inl ⟨_, rfl⟩
  | abs a => exact .inr ⟨_, rfl⟩
  | _ => exact hu.elim

theorem referenceTypeSubtype_rules {a b : ReferenceTypeDescriptor} (ha : Converted a.heap)
    (hb : Converted b.heap) :
    referenceTypeSubtype sameSlice ds ds a b = true ↔
      (a.nullable = true → b.nullable = true) ∧
        if heapTypeEquivalent sameSlice ds ds a.heap b.heap then b.exact = true → a.exact = true
        else b.exact = false ∧ DescRule sameSlice ds a.heap b.heap := by
  obtain ⟨an, ae, ah⟩ := a
  obtain ⟨bn, be, bh⟩ := b
  rw [referenceTypeSubtype]
  split
  · rename_i hnull
    simp only [Bool.and_eq_true, Bool.not_eq_true'] at hnull
    simp [hnull.1, hnull.2]
  rename_i hnull
  have hnull' : an = true → bn = true := by
    intro h
    simp only [h] at hnull
    simpa using hnull
  rw [and_iff_right hnull']
  split
  · rename_i heq
    cases be <;> simp
  rename_i heq
  split
  · rename_i hexact
    have hexact : be = true := hexact
    simp [hexact]
  rename_i hexact
  have hexact : be = false := by simpa using hexact
  rw [and_iff_right hexact]
  rcases ha with ⟨i, rfl⟩ | ⟨x, rfl⟩ <;> rcases hb with ⟨j, rfl⟩ | ⟨y, rfl⟩
  · constructor
    · intro h
      exact .super h
    · intro h
      cases h with
      | super h => exact h
  · simp only [if_true, Bool.false_eq_true, if_false]
    constructor
    · intro h
      cases hd : ds[i]? with
      | none => simp [hd] at h
      | some d =>
        simp only [hd] at h
        exact .above hd h
    · intro h
      cases h with
      | above hd h => simp only [hd, h]
  · simp only [if_true, Bool.false_eq_true, if_false]
    constructor
    · intro h
      cases hd : ds[j]? with
      | none => simp [hd] at h
      | some d =>
        simp only [hd] at h
        split at h
        · exact .belowFunc hd (of_decide_eq_true h)
        · exact .belowData hd (by simpa using h)
        · cases h
    · intro h
      cases h with
      | belowFunc hd h => simp [hd, h]
      | belowData hd h => simpa [hd] using h
  · constructor
    · intro h
      exact .abs h
    · intro h
      cases h with
      | abs h => exact h

end

variable {types : List RecType}

/-- What the runtime accepts is what the validator accepts, short of the abstract rules below an
exact reference. -/
theorem referenceTypeSubtype_iff {ctx : TypeContext} (hc : SoundContext types ctx)
    (hp : PlainTypes types) (sameSlice : Bool) {flat flat' : TypeIdx → Nat} {r q : RefType}
    (hr : HeapUses (fun idx => flat idx < (flatSubTypes types).length) r.heap)
    (hq : HeapUses (fun idx => flat' idx < (flatSubTypes types).length) q.heap) :
    referenceTypeSubtype sameSlice (descriptorsOf types) (descriptorsOf types) (refDesc flat r)
        (refDesc flat' q) = true ↔
      ctx.refSubtype (r.withHeap (absHeap flat r.heap)) (q.withHeap (absHeap flat' q.heap)) = true ∧
        ¬ (q.exact = true ∧ AbstractRule types (absHeap flat r.heap) (absHeap flat' q.heap)) := by
  have hs := hc.scope
  rw [refSubtype_iff hc, and_assoc,
    referenceTypeSubtype_rules (heapDesc_converted hr) (heapDesc_converted hq)]
  obtain ⟨rn, re, rb, rh⟩ := r
  obtain ⟨qn, qe, qb, qh⟩ := q
  refine and_congr_right fun _ => ?_
  show (if heapTypeEquivalent _ _ _ (heapDesc flat rh) (heapDesc flat' qh) then qe = true → re = true
    else qe = false ∧ DescRule _ _ (heapDesc flat rh) (heapDesc flat' qh)) ↔
    HeapMatch types re (absHeap flat rh) qe (absHeap flat' qh) ∧
      ¬ (qe = true ∧ AbstractRule types (absHeap flat rh) (absHeap flat' qh))
  cases rh with
  | abs a =>
    cases qh with
    | abs b =>
      have heq : heapTypeEquivalent sameSlice (descriptorsOf types) (descriptorsOf types)
          (heapDesc flat (.abs a)) (heapDesc flat' (.abs b)) = decide (a = b) := by
        simp [heapTypeEquivalent, heapDesc, abstractHeapTypeFromWasm_inj]
      have hrule : DescRule sameSlice (descriptorsOf types) (heapDesc flat (.abs a)) (heapDesc flat' (.abs b)) ↔
          absHeapSubtype a b = true := by
        rw [← abstractHeapSubtype_eq]
        exact descRule_abstract
      rw [heq, hrule, absHeap_abs, absHeap_abs, heapMatch_abstract, abstractRule_abstract]
      by_cases hab : a = b
      · simp [hab]
      · cases qe <;> simp [hab]
    | typeIndex y =>
      obtain ⟨k, d, hk, hd, hkind⟩ := kind_at hq
      have hrule : DescRule sameSlice (descriptorsOf types) (heapDesc flat (.abs a))
          (heapDesc flat' (.typeIndex y)) ↔ a = kindBottom k := by
        refine (descRule_below hd).trans ?_
        rw [hkind]
        cases k <;> cases a <;> decide
      have hne : heapTypeEquivalent sameSlice (descriptorsOf types) (descriptorsOf types)
          (heapDesc flat (.abs a)) (heapDesc flat' (.typeIndex y)) = false := rfl
      rw [hne, hrule, absHeap_abs, absHeap_typeIndex, heapMatch_below, abstractRule_below, hk]
      cases qe <;> simp
    | _ => exact hq.elim
  | typeIndex x =>
    cases qh with
    | abs b =>
      obtain ⟨k, d, hk, hd, hkind⟩ := kind_at hr
      have hrule : DescRule sameSlice (descriptorsOf types) (heapDesc flat (.typeIndex x))
          (heapDesc flat' (.abs b)) ↔ absHeapSubtype (kindTop k) b = true := by
        rw [← abstractHeapSubtype_eq, ← compositeFamily_kind, ← hkind]
        refine ⟨fun h => ?_, fun h => .above hd h⟩
        cases h with
        | above hd' h =>
          cases hd.symm.trans hd'
          exact h
      have hne : heapTypeEquivalent sameSlice (descriptorsOf types) (descriptorsOf types)
          (heapDesc flat (.typeIndex x)) (heapDesc flat' (.abs b)) = false := rfl
      rw [hne, hrule, absHeap_abs, absHeap_typeIndex, heapMatch_above, abstractRule_above, hk]
      cases qe <;> simp
    | typeIndex y =>
      have heq : heapTypeEquivalent sameSlice (descriptorsOf types) (descriptorsOf types)
          (heapDesc flat (.typeIndex x)) (heapDesc flat' (.typeIndex y)) = true ↔
            SameType types (flat x) (flat' y) :=
        definedTypeEquivalent_iff hs hs hp hp (fun _ => rfl) (flat x) (flat' y)
      have hrule : DescRule sameSlice (descriptorsOf types) (heapDesc flat (.typeIndex x))
          (heapDesc flat' (.typeIndex y)) ↔ DefSub types (flat x) (flat' y) := by
        have hsuper : definedTypeHasSuper sameSlice (descriptorsOf types) (descriptorsOf types)
            (flat x) (flat' y) = true ↔ _ :=
          definedTypeHasSuper_iff hs hs hp hp (fun _ => rfl) hr (flat' y)
        refine ⟨fun h => ?_, fun h => .super (hsuper.2 h)⟩
        cases h with
        | super h => exact hsuper.1 h
      rw [hrule, absHeap_typeIndex, absHeap_typeIndex, heapMatch_indexed, idxSame_iff hr hq, idxSub_iff hr hq]
      have hnone : ¬ AbstractRule types (.typeIndex { index := flat x }) (.typeIndex { index := flat' y }) := by
        rintro ⟨⟩
      by_cases hsame : SameType types (flat x) (flat' y)
      · rw [if_pos (heq.2 hsame)]
        cases qe <;> simp [hsame, hnone]
      · rw [if_neg (mt heq.1 hsame)]
        cases qe <;> simp [hsame, hnone]
    | _ => exact hq.elim
  | _ => exact hr.elim

/-- Equal references are in the subtype relation. -/
theorem refSubtype_of_equal {ctx : TypeContext} (hc : SoundContext types ctx)
    {r q : RefType} (h : equalRefType r q = true) : ctx.refSubtype r q = true := by
  simp only [equalRefType, Bool.and_eq_true, beq_iff_eq] at h
  obtain ⟨⟨hnull, hexact⟩, hheap⟩ := h
  refine (refSubtype_iff hc).2 ⟨fun hn => hnull ▸ hn, ?_⟩
  refine .same (fun he => hexact ▸ he) ((heapTypeEquivalent_iff hc.scope).1 ?_)
  simp [Wasm.heapTypeEquivalent, hheap]

theorem subtype_ref {fv : FuncEnv} (hc : SoundContext types fv.types)
    {r q : RefType} : fv.subtype (.ref r) (.ref q) = fv.types.refSubtype r q := by
  rw [FuncEnv.subtype, if_neg (by simp)]
  split
  · rename_i heq
    exact (refSubtype_of_equal hc heq).symm
  · rfl

/-- Value types: the runtime's answer is the validator's without the gap below exact references. -/
theorem valueTypeSubtype_iff {fv : FuncEnv} (hc : SoundContext types fv.types)
    (hp : PlainTypes types) (sameSlice : Bool) {flat flat' : TypeIdx → Nat} {v w : ValType}
    (hv : ValUses (fun idx => flat idx < (flatSubTypes types).length) v)
    (hw : ValUses (fun idx => flat' idx < (flatSubTypes types).length) w) :
    valueTypeSubtype sameSlice (descriptorsOf types) (descriptorsOf types) (valDesc flat v)
        (valDesc flat' w) = true ↔
      fv.subtype (absVal flat v) (absVal flat' w) = true ∧
        ¬ ExactGap types (absVal flat v) (absVal flat' w) := by
  cases v with
  | bot => exact hv.elim
  | num n =>
    cases w with
    | bot => exact hw.elim
    | num m =>
      cases n <;> cases m <;>
        simp [valDesc, valueTypeSubtype, absVal, FuncEnv.subtype, equalValType, ExactGap]
    | vec => cases n <;> simp [valDesc, valueTypeSubtype, absVal, FuncEnv.subtype, equalValType]
    | ref q => cases n <;> simp [valDesc, valueTypeSubtype, absVal, FuncEnv.subtype, equalValType]
  | vec =>
    cases w with
    | bot => exact hw.elim
    | num m => cases m <;> simp [valDesc, valueTypeSubtype, absVal, FuncEnv.subtype, equalValType]
    | vec => simp [valDesc, valueTypeSubtype, absVal, FuncEnv.subtype, equalValType, ExactGap]
    | ref q => simp [valDesc, valueTypeSubtype, absVal, FuncEnv.subtype, equalValType]
  | ref r =>
    cases w with
    | bot => exact hw.elim
    | num m => cases m <;> simp [valDesc, valueTypeSubtype, absVal, FuncEnv.subtype, equalValType]
    | vec => simp [valDesc, valueTypeSubtype, absVal, FuncEnv.subtype, equalValType]
    | ref q =>
      have hsub : fv.subtype (absVal flat (.ref r)) (absVal flat' (.ref q)) =
          fv.types.refSubtype (r.withHeap (absHeap flat r.heap)) (q.withHeap (absHeap flat' q.heap)) :=
        subtype_ref hc
      rw [hsub]
      refine (referenceTypeSubtype_iff hc hp sameSlice hv hw).trans (and_congr_right fun hyes => ?_)
      -- the validator's answer says that nullability agrees
      have hnull := ((refSubtype_iff hc).1 hyes).1
      refine not_congr (and_congr_right fun _ => ?_)
      exact (and_iff_right hnull).symm

/-- Where the gap applies the validator accepts. -/
theorem ExactGap.subtype {fv : FuncEnv} (hc : SoundContext types fv.types)
    {v w : ValType} (h : ExactGap types v w) : fv.subtype v w = true := by
  cases v with
  | ref r =>
    cases w with
    | ref q =>
      obtain ⟨-, hnull, hrule⟩ := h
      have hmatch : HeapMatch types r.exact r.heap q.exact q.heap := by
        generalize r.heap = a at hrule
        generalize q.heap = b at hrule
        cases hrule with
        | belowDef hk => exact .belowDef hk
        | aboveDef hk hb => exact .aboveDef hk hb
        | abs hne hab => exact .abs hne hab
      exact (subtype_ref hc).trans ((refSubtype_iff hc).2 ⟨hnull, hmatch⟩)
    | _ => exact h.elim
  | _ => exact h.elim

/-- For two decoded and validated modules: the runtime and the validator agree on value types of one
of them exactly outside the gap below exact references, and the descriptor equivalence of the two
decides whether types are the same position of iso-recursively equal groups. -/
theorem descriptorTests_agree {r₁ r₁' r₂ r₂' : Reader} {A B : List RecType} {ctx ctx' : TypeContext}
    (hdA : typeSection.run r₁ = .ok A r₁') (hdB : typeSection.run r₂ = .ok B r₂')
    (hvA : validateTypeSection A = .ok ctx) (hvB : validateTypeSection B = .ok ctx') :
    ∃ ds es, Converter.typeDescriptors A = .ok ds ∧ Converter.typeDescriptors B = .ok es ∧
      (∀ (fv : FuncEnv) (sameSlice : Bool) (group group' : Option Nat) (v w : ValType),
        fv.types = ctx → ModuleVal A group v → ModuleVal A group' w →
        ∃ dv dw, Converter.valueType A v group = .ok dv ∧ Converter.valueType A w group' = .ok dw ∧
          (valueTypeSubtype sameSlice ds ds dv dw =
              fv.subtype (resolveAt A group v) (resolveAt A group' w) ↔
            ¬ ExactGap A (resolveAt A group v) (resolveAt A group' w))) ∧
      ∀ (sameSlice : Bool) (i j : Nat), (sameSlice = true → ds = es) →
        (definedTypeEquivalent ds es sameSlice i j = true ↔
          ∃ d, (closedTypes A)[i]? = some d ∧ (closedTypes B)[j]? = some d) := by
  have hc := validateTypeSection_sound hvA
  have hsB := (validateTypeSection_inScope hvB).2
  have hpA := typeSection_plain hdA
  have hpB := typeSection_plain hdB
  refine ⟨_, _, typeDescriptors_ok hc.scope hpA, typeDescriptors_ok hsB hpB, ?_, ?_⟩
  · rintro fv sameSlice group group' v w rfl hv hw
    refine ⟨_, _, hv.converts, hw.converts, ?_⟩
    have hlt : ∀ {group : Option Nat} {u : ValType}, ModuleVal A group u →
        ValUses (fun idx => flatAt A group idx < (flatSubTypes A).length) u := by
      intro group u hu
      exact hu.uses.mono fun _ hidx => (typeIndex_flatAt hidx).2
    have hiff := valueTypeSubtype_iff hc hpA sameSlice (hlt hv) (hlt hw)
    rw [hv.resolved, hw.resolved]
    constructor
    · intro heq hgap
      have hyes := hgap.subtype hc
      exact (hiff.1 (heq.trans hyes)).2 hgap
    · intro hgap
      rw [Bool.eq_iff_iff, hiff]
      exact and_iff_left hgap
  · intro sameSlice i j hslice
    exact definedTypeEquivalent_iff hc.scope hsB hpA hpB hslice i j

/-- One struct type without fields. -/
def emptyStruct : RecType :=
  { subTypes := [{ final := true, supers := [], describes := none, descriptor := none, hasPrefix := false,
                   comp := .struct [] }] }

/-- A validator of a module whose only definition is `emptyStruct`. -/
def emptyStructEnv : FuncEnv :=
  { m := { types := [emptyStruct] }, types := TypeContext.ofTypes [emptyStruct], funcIndex := -1 }

/-- `(ref null none)` and `(ref null (exact 0))`, as decoded. -/
def nullNone : ValType := .ref (mkRef true (.abs .none) false)
def nullExact : ValType := .ref (mkRef true (.typeIndex ⟨0, false⟩) true)

/-- The null reference types are decoded and validated types of the module; the validator takes the
first for the second and the runtime does not. -/
theorem descriptorTests_exact_gap :
    (∃ r, typeSection.run (newReader [0x01, 0x5f, 0x00]) = .ok [emptyStruct] r) ∧
      validateTypeSection [emptyStruct] = .ok emptyStructEnv.types ∧
      (∃ r, decodeValType.run (newReader [0x63, 0x71]) = .ok nullNone r) ∧
      (∃ r, decodeValType.run (newReader [0x63, 0x62, 0x00]) = .ok nullExact r) ∧
      ModuleVal [emptyStruct] none nullNone ∧ ModuleVal [emptyStruct] none nullExact ∧
      emptyStructEnv.subtype nullNone nullExact = true ∧
      ∃ ds dv dw, Converter.typeDescriptors [emptyStruct] = .ok ds ∧
        Converter.valueType [emptyStruct] nullNone none = .ok dv ∧
        Converter.valueType [emptyStruct] nullExact none = .ok dw ∧
        valueTypeSubtype true ds ds dv dw = false := by
  refine ⟨Run.exists_of_returns (by decide +kernel), rfl, Run.exists_of_returns (by decide +kernel),
    Run.exists_of_returns (by decide +kernel), ⟨trivial, rfl⟩, ⟨trivial, rfl⟩, by decide, ?_⟩
  exact ⟨_, _, _, rfl, rfl, rfl, by decide⟩

/-- The agreement at a value type outside the gap. -/
theorem descriptorTests_agree_emptyStruct :
    ∃ ds dv dw, Converter.typeDescriptors [emptyStruct] = .ok ds ∧
      Converter.valueType [emptyStruct] nullExact none = .ok dv ∧
      Converter.valueType [emptyStruct] (.ref (mkRef true (.abs .struct) false)) none = .ok dw ∧
      valueTypeSubtype true ds ds dv dw =
        emptyStructEnv.subtype nullExact (.ref (mkRef true (.abs .struct) false)) := by
  obtain ⟨r, hd⟩ : ∃ r, typeSection.run (newReader [0x01, 0x5f, 0x00]) = .ok [emptyStruct] r :=
    Run.exists_of_returns (by decide +kernel)
  have hv : validateTypeSection [emptyStruct] = .ok emptyStructEnv.types := rfl
  obtain ⟨ds, es, hds, -, hsub, -⟩ := descriptorTests_agree hd hd hv hv
  obtain ⟨dv, dw, hdv, hdw, hiff⟩ := hsub emptyStructEnv true none none nullExact
    (.ref (mkRef true (.abs .struct) false)) rfl ⟨trivial, rfl⟩ ⟨trivial, rfl⟩
  refine ⟨ds, dv, dw, hds, hdv, hdw, hiff.2 ?_⟩
  rintro ⟨hexact, -⟩
  cases hexact

end Wago.Runtime
