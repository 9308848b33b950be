/-
Reference subtyping over a validated type section. Defined types are ordered by their declared
supertypes up to iso-recursive equality, whether the test walks the chain or reads the ancestry
intervals; with the abstract heap types, nullability and exactness this is a preorder, and a
defined subtype has a component that is a structural subtype of its supertype's.
-/
import Wago.Wasm.Ancestry
import Wago.Wasm.TypeEquivSpec

namespace Wago.Wasm

open List
open Bool hiding not_not

/-! ## Defined types -/

/-- Defined type `i` is below `j`: one of its declared supertypes, or itself, is the same type. -/
def DefSub (types : List RecType) (i j : Nat) : Prop := ∃ c, Ancestor types i c ∧ SameType types c j

section

variable {types : List RecType} {i j k p : Nat}

theorem SameType.lt_length (h : SameType types i j) :
    i < (flatSubTypes types).length ∧ j < (flatSubTypes types).length := by
  obtain ⟨d, hi, hj⟩ := h
  rw [← closedTypes_length]
  exact ⟨(List.getElem?_eq_some_iff.1 hi).1, (List.getElem?_eq_some_iff.1 hj).1⟩

/-- Members at the same position of equal closed groups have equal closed forms. -/
theorem SameType.closed {g g' l l' : Nat} {st st' : SubType} (h : SameType types i j)
    (hi : AtPos types i g l st) (hj : AtPos types j g' l' st') :
    Reflects types g g' (SameType types) ∧
      closeSubType (closedEnv types g) st = closeSubType (closedEnv types g') st' := by
  obtain ⟨rt, hrt, hst⟩ := hi.member
  obtain ⟨rt', hrt', hst'⟩ := hj.member
  obtain ⟨hgroups, rfl⟩ := (sameType_iff hi hrt hj hrt').1 h
  refine ⟨sameType_reflects hrt hrt' hgroups, ?_⟩
  have := congrArg (·[l]?) hgroups
  simpa [closeGroup, hst, hst'] using this

/-- Equal types declare equal supertypes. -/
theorem SameType.parent (hs : TypesInScope types) (h : SameType types i j)
    (hp : superParent types i = some p) : ∃ q, superParent types j = some q ∧ SameType types p q := by
  obtain ⟨g, l, st, sup, hi, hsup, rfl⟩ := (superParent_iff hs).1 hp
  obtain ⟨g', l', st', hj⟩ := exists_atPos h.lt_length.2
  obtain ⟨hreflects, hclosed⟩ := h.closed hi hj
  simp only [closeSubType, ClosedSubType.mk.injEq, hsup, map_cons, map_nil] at hclosed
  obtain ⟨-, hsupers, -⟩ := hclosed
  obtain ⟨sup', hsup', hidx⟩ := map_eq_singleton_iff.1 hsupers.symm
  refine ⟨_, (superParent_iff hs).2 ⟨g', l', st', sup', hj, hsup', rfl⟩, ?_⟩
  exact ((hreflects ((hs hi).supers sup (by simp [hsup])).1
    ((hs hj).supers sup' (by simp [hsup'])).1).2 hidx.symm).2

theorem SameType.ancestor (hs : TypesInScope types) {a : Nat} (h : SameType types i j)
    (ha : Ancestor types i a) : ∃ b, Ancestor types j b ∧ SameType types a b := by
  induction ha with
  | refl => exact ⟨j, .refl, h⟩
  | tail _ hstep ih =>
    obtain ⟨b, hb, hab⟩ := ih
    obtain ⟨q, hq, hcq⟩ := hab.parent hs hstep
    exact ⟨q, .tail hb hq, hcq⟩

theorem DefSub.of_same (h : SameType types i j) : DefSub types i j := ⟨i, .refl, h⟩

theorem DefSub.trans (hs : TypesInScope types) :
    DefSub types i j → DefSub types j k → DefSub types i k
  | ⟨c, hic, hcj⟩, ⟨d, hjd, hdk⟩ => by
    -- the chain above `j` is mirrored above `c`
    obtain ⟨e, hce, hde⟩ := hcj.symm.ancestor hs hjd
    exact ⟨e, Relation.ReflTransGen.trans hic hce, hde.symm.trans hdk⟩

theorem defSub_of_parent (hp : superParent types i = some p) (hne : ¬ SameType types i j) :
    DefSub types i j ↔ DefSub types p j := by
  constructor
  · rintro ⟨c, hic, hcj⟩
    rcases (ancestor_of_parent hp).1 hic with rfl | hpc
    · exact absurd hcj hne
    · exact ⟨c, hpc, hcj⟩
  · rintro ⟨c, hpc, hcj⟩
    exact ⟨c, (ancestor_of_parent hp).2 (.inr hpc), hcj⟩

theorem defSub_of_root (hp : superParent types i = none) : DefSub types i j ↔ SameType types i j := by
  constructor
  · rintro ⟨c, hic, hcj⟩
    rwa [(ancestor_of_root hp).1 hic] at hcj
  · exact DefSub.of_same

/-- The walk up the chain: every index it has seen lies above the current one, so it never stops
early. -/
theorem superVisit_iff (hs : TypesInScope types) (hj : j < (flatSubTypes types).length) :
    ∀ (fuel : Nat) (seen : List Nat) (cur : Nat), cur < (flatSubTypes types).length → cur < fuel →
      (∀ s ∈ seen, cur < s) →
      ((superVisit types j fuel seen cur).1 = true ↔ DefSub types cur j)
  | 0, _, _, _, hf, _ => absurd hf (Nat.not_lt_zero _)
  | fuel + 1, seen, cur, hcur, hf, hseen => by
    have hsame : (cur = j ∨ typeIdxEquivalent types { index := cur } { index := j } = true) ↔
        SameType types cur j := by
      rw [typeIdxEquivalent_iff hs hcur hj]
      exact ⟨fun h => h.elim (fun h => h ▸ sameType_refl hcur) id, .inr⟩
    rw [superVisit]
    split
    · rename_i h; simp [DefSub.of_same (hsame.1 h)]
    · rename_i hne
      rw [hsame] at hne
      have hnot : cur ∉ seen := fun h => Nat.lt_irrefl _ (hseen cur h)
      obtain ⟨g, l, st, hpos⟩ := exists_atPos hcur
      rw [if_neg hnot, hpos.flat]
      simp only
      cases hpar : superParent types cur with
      | none =>
        have hnil : st.supers = [] := by
          rw [superParent, hpos.flat] at hpar
          cases hsup : st.supers with
          | nil => rfl
          | cons => simp [hsup] at hpar
        simp [hnil, anySuper, defSub_of_root hpar, hne]
      | some p =>
        have hpl := superParent_lt hs hpar
        obtain ⟨g', l', st', sup, hpos', hsup, rfl⟩ := (superParent_iff hs).1 hpar
        obtain ⟨rfl, rfl, rfl⟩ := hpos.unique hpos'
        rw [hsup, anySuper, flatTypeIdxInRecGroup_scoped hpos.group_lt
          ((hs hpos).supers sup (by simp [hsup])).1, defSub_of_parent hpar hne,
          ← superVisit_iff hs hj fuel (cur :: seen) (scopedFlat types g sup) (by omega) (by omega)
            (forall_mem_cons.2 ⟨hpl, fun s h => Nat.lt_trans hpl (hseen s h)⟩)]
        simp only
        rcases superVisit types j fuel (cur :: seen) (scopedFlat types g sup) with ⟨b, seen'⟩
        cases b <;> simp [anySuper]

end

/-! ## References -/

/-- A context whose intervals, if it has any, follow the declared supertypes. -/
structure SoundContext (types : List RecType) (ctx : TypeContext) : Prop where
  types_eq : ctx.types = types
  scope : TypesInScope types
  intervals : ∀ i j, ctx.superContains i j = true → Ancestor types i j

theorem soundContext_ofTypes {types : List RecType} (hs : TypesInScope types) :
    SoundContext types (TypeContext.ofTypes types) :=
  ⟨rfl, hs, fun i j h => by simp [TypeContext.superContains, TypeContext.ofTypes] at h⟩

theorem validateTypeSection_sound {types : List RecType} {ctx : TypeContext}
    (h : validateTypeSection types = .ok ctx) : SoundContext types ctx := by
  obtain ⟨htypes, hs⟩ := validateTypeSection_inScope h
  refine ⟨htypes, hs, ?_⟩
  obtain ⟨-, hrest⟩ := Run.except_seq_ok.1 h
  obtain ⟨⟨enter, exit⟩, hmeta, hret⟩ := Run.except_bind_ok.1 hrest
  cases hret
  -- the intervals are the ones built, or there are none
  have hcases : (enter, exit) = buildSupertypeAncestry types ∨ (enter, exit) = ([], []) := by
    obtain ⟨-, hmeta⟩ := Run.except_seq_ok.1 hmeta
    split at hmeta
    · cases hmeta; exact .inr rfl
    · obtain ⟨⟨state, deep⟩, -, hmeta⟩ := Run.except_bind_ok.1 hmeta
      simp only at hmeta
      split at hmeta
      · exact .inl (Except.ok.inj hmeta).symm
      · exact .inr (Except.ok.inj hmeta).symm
  intro i j hij
  rcases hcases with hbuilt | hnone
  · have h1 := congrArg Prod.fst hbuilt
    have h2 := congrArg Prod.snd hbuilt
    simp only at h1 h2
    rw [h1, h2] at hij
    exact superContains_sound hs hij
  · cases hnone
    simp [TypeContext.superContains] at hij

/-- Type indexes that name the same type, or are the same index. -/
def IdxSame (types : List RecType) (x y : TypeIdx) : Prop :=
  x = y ∨ ∃ i j, flatTypeIdxInRecGroup types x none = some i ∧
    flatTypeIdxInRecGroup types y none = some j ∧ SameType types i j

def IdxSub (types : List RecType) (x y : TypeIdx) : Prop :=
  ∃ i j, flatTypeIdxInRecGroup types x none = some i ∧
    flatTypeIdxInRecGroup types y none = some j ∧ DefSub types i j

def idxKind (types : List RecType) (x : TypeIdx) : Option CompTypeKind :=
  (compTypeFromTypeIdx types x).map (·.kind)

/-- The least abstract heap type above a component of the kind. -/
def kindTop : CompTypeKind → AbsHeapType
  | .array => .array
  | .struct => .struct
  | .func => .func

/-- The abstract bottom below components of the kind. -/
def kindBottom : CompTypeKind → AbsHeapType
  | .func => .noFunc
  | _ => .none

def HeapSame (types : List RecType) : HeapType → HeapType → Prop
  | .typeIndex x, .typeIndex y => IdxSame types x y
  | a, b => equalHeapType a b = true

/-- The rules of heap type matching; the flags are the exactness of the two references. -/
inductive HeapMatch (types : List RecType) : Bool → HeapType → Bool → HeapType → Prop
  | bottom {e e' b} : HeapMatch types e .bottom e' b
  | same {e e' a b} (he : e' = true → e = true) (h : HeapSame types a b) : HeapMatch types e a e' b
  | super {e x y} (h : IdxSub types x y) : HeapMatch types e (.typeIndex x) false (.typeIndex y)
  | belowDef {e e' y k} (h : idxKind types y = some k) :
    HeapMatch types e (.abs (kindBottom k)) e' (.typeIndex y)
  | aboveDef {e e' x k b} (h : idxKind types x = some k) (hb : absHeapSubtype (kindTop k) b = true) :
    HeapMatch types e (.typeIndex x) e' (.abs b)
  | abs {e e' a b} (hne : a ≠ b) (h : absHeapSubtype a b = true) : HeapMatch types e (.abs a) e' (.abs b)

section

variable {types : List RecType} {ctx : TypeContext} {x y z : TypeIdx} {a b c : RefType}

theorem typeIdxEquivalent_idxSame (hs : TypesInScope types) :
    x = y ∨ typeIdxEquivalent types x y = true ↔ IdxSame types x y :=
  or_congr_right (query_spec hs (committed_empty types) x y).1

theorem typeIdxSuperSubtype_iff (hc : SoundContext types ctx) :
    ctx.typeIdxSuperSubtype x y = true ↔ IdxSub types x y := by
  unfold TypeContext.typeIdxSuperSubtype IdxSub
  rw [hc.types_eq]
  split
  · rename_i i j hi hj
    have hil := flatTypeIdx_lt hi
    have hjl := flatTypeIdx_lt hj
    rw [or_eq_true, superVisit_iff hc.scope hjl _ [] i hil (by omega) (by simp)]
    constructor
    · rintro (h | h)
      · have ha := hc.intervals i j h
        exact ⟨i, j, hi, hj, j, ha, sameType_refl hjl⟩
      · exact ⟨i, j, hi, hj, h⟩
    · rintro ⟨i', j', hi', hj', h⟩
      cases hi.symm.trans hi'; cases hj.symm.trans hj'; exact .inr h
  · rename_i hnone
    constructor
    · intro h; cases h
    · rintro ⟨i, j, hi, hj, -⟩; exact absurd hj (hnone i j hi)

theorem heapTypeEquivalent_iff (hs : TypesInScope types) {a b : HeapType} :
    heapTypeEquivalent types a b = true ↔ HeapSame types a b := by
  cases a with
  | typeIndex x =>
    cases b with
    | typeIndex y =>
      rw [HeapSame, ← typeIdxEquivalent_idxSame hs]
      simp [heapTypeEquivalent, equalHeapType]
    | _ => simp [heapTypeEquivalent, HeapSame]
  | _ => simp [heapTypeEquivalent, HeapSame]

/-- The subtype test on references decides nullability and the heap type rules. -/
theorem refSubtype_iff (hc : SoundContext types ctx) :
    ctx.refSubtype a b = true ↔
      (a.nullable = true → b.nullable = true) ∧ HeapMatch types a.exact a.heap b.exact b.heap := by
  obtain ⟨aNull, aExact, aBare, aHeap⟩ := a
  obtain ⟨bNull, bExact, bBare, bHeap⟩ := b
  simp only [TypeContext.refSubtype, hc.types_eq]
  by_cases hnull : (!bNull && aNull) = true
  · rw [if_pos hnull]
    simp only [and_eq_true, not_eq_true'] at hnull
    simp [hnull.1, hnull.2]
  have hnull' : aNull = true → bNull = true := by
    intro h; rw [h] at hnull; simpa using hnull
  rw [if_neg hnull]
  rw [and_iff_right hnull']
  split
  · rename_i h; rw [h]; exact ⟨fun _ => .bottom, fun _ => rfl⟩
  rename_i hbot
  split
  · rename_i heq
    rw [heapTypeEquivalent_iff hc.scope] at heq
    constructor
    · intro h; exact .same (fun hb => by simpa [hb] using h) heq
    · intro h
      cases h with
      | bottom => exact absurd rfl hbot
      | same he _ => cases bExact <;> simp_all
      | super => simp
      | belowDef => simp [HeapSame, equalHeapType] at heq
      | aboveDef => simp [HeapSame, equalHeapType] at heq
      | abs hne => exact absurd (by simpa [HeapSame, equalHeapType] using heq) hne
  rename_i hneq
  rw [heapTypeEquivalent_iff hc.scope] at hneq
  constructor
  · intro h
    split at h
    · rw [and_eq_true, typeIdxSuperSubtype_iff hc] at h
      obtain ⟨he, hsub⟩ := h
      obtain rfl : bExact = false := by simpa using he
      exact .super hsub
    · rename_i x y
      cases hct : compTypeFromTypeIdx types y with
      | none => simp [hct] at h
      | some ct =>
        have hx : x = kindBottom ct.kind := by cases ct <;> simpa [hct, kindBottom, CompType.kind] using h
        rw [hx]; exact .belowDef (by simp [idxKind, hct])
    · rename_i x y
      cases hct : compTypeFromTypeIdx types x with
      | none => simp [hct] at h
      | some ct =>
        refine .aboveDef (k := ct.kind) (by simp [idxKind, hct]) ?_
        cases ct <;> simpa [hct, kindTop, CompType.kind] using h
    · rename_i x y
      exact .abs (fun hxy => hneq (by simp [hxy, HeapSame])) h
    · cases h
  · intro h
    cases h with
    | bottom => exact absurd rfl hbot
    | same _ h => exact absurd h hneq
    | super h => simpa using (typeIdxSuperSubtype_iff hc).2 h
    | belowDef h =>
      obtain ⟨ct, hct, rfl⟩ := Option.map_eq_some_iff.1 h
      cases ct <;> simp [hct, kindBottom, CompType.kind]
    | aboveDef h hb =>
      obtain ⟨ct, hct, rfl⟩ := Option.map_eq_some_iff.1 h
      cases ct <;> simpa [hct, kindTop, CompType.kind] using hb
    | abs _ h => exact h

/-! ## The preorder -/

theorem resolvedCompType_at {i g l : Nat} {st : SubType}
    (hx : flatTypeIdxInRecGroup types x none = some i) (hi : AtPos types i g l st) :
    compTypeFromTypeIdx types x = some (resolveCompTypeRecIndexes types st.comp g) := by
  unfold flatTypeIdxInRecGroup at hx
  split at hx
  · cases hx
  · rename_i hr
    split at hx
    · cases hx
      simp [compTypeFromTypeIdx, resolvedCompType, subtypeByTypeIdxWithRecGroup, hr, hi.flat]
    · cases hx

theorem flat_of_resolvedCompType {ct : CompType} (h : compTypeFromTypeIdx types x = some ct) :
    ∃ i, flatTypeIdxInRecGroup types x none = some i := by
  obtain ⟨i, r⟩ := x
  obtain ⟨p, hp, -⟩ := Option.map_eq_some_iff.1 h
  cases r with
  | true => cases hp
  | false => exact ⟨i, flatTypeIdxInRecGroup_none (List.getElem?_eq_some_iff.1 hp).1⟩

theorem resolveCompType_kind (types : List RecType) (ct : CompType) (g : Nat) :
    (resolveCompTypeRecIndexes types ct g).kind = ct.kind := by cases ct <;> rfl

theorem IdxSame.kind (h : IdxSame types x y) : idxKind types x = idxKind types y := by
  rcases h with rfl | ⟨i, j, hx, hy, hij⟩
  · rfl
  obtain ⟨g, l, st, hi⟩ := exists_atPos hij.lt_length.1
  obtain ⟨g', l', st', hj⟩ := exists_atPos hij.lt_length.2
  obtain ⟨-, hclosed⟩ := hij.closed hi hj
  simp only [closeSubType, ClosedSubType.mk.injEq] at hclosed
  simp only [idxKind, resolvedCompType_at hx hi, resolvedCompType_at hy hj, Option.map_some,
    resolveCompType_kind, closeComp_kind hclosed.2.2.2.2]

theorem IdxSame.trans (h : IdxSame types x y) (h' : IdxSame types y z) : IdxSame types x z := by
  rcases h with rfl | ⟨i, j, hx, hy, hij⟩
  · exact h'
  rcases h' with rfl | ⟨j', k, hy', hz, hjk⟩
  · exact .inr ⟨i, j, hx, hy, hij⟩
  · cases hy.symm.trans hy'
    exact .inr ⟨i, k, hx, hz, hij.trans hjk⟩

theorem IdxSame.sub (hs : TypesInScope types) (h : IdxSame types x y) (h' : IdxSub types y z) :
    IdxSub types x z := by
  rcases h with rfl | ⟨i, j, hx, hy, hij⟩
  · exact h'
  obtain ⟨j', k, hy', hz, hjk⟩ := h'
  cases hy.symm.trans hy'
  exact ⟨i, k, hx, hz, (DefSub.of_same hij).trans hs hjk⟩

theorem IdxSub.same (h : IdxSub types x y) (h' : IdxSame types y z) : IdxSub types x z := by
  rcases h' with rfl | ⟨j', k, hy', hz, hjk⟩
  · exact h
  obtain ⟨i, j, hx, hy, c, hic, hcj⟩ := h
  cases hy.symm.trans hy'
  exact ⟨i, k, hx, hz, c, hic, hcj.trans hjk⟩

theorem IdxSub.trans (hs : TypesInScope types) (h : IdxSub types x y) (h' : IdxSub types y z) :
    IdxSub types x z := by
  obtain ⟨i, j, hx, hy, hij⟩ := h
  obtain ⟨j', k, hy', hz, hjk⟩ := h'
  cases hy.symm.trans hy'
  exact ⟨i, k, hx, hz, hij.trans hs hjk⟩

theorem HeapSame.trans {a b c : HeapType} (h : HeapSame types a b) (h' : HeapSame types b c) :
    HeapSame types a c := by
  cases a with
  | typeIndex x =>
    cases b <;> simp only [HeapSame, equalHeapType, false_eq_true] at h
    cases c <;> simp only [HeapSame, equalHeapType, false_eq_true] at h'
    exact h.trans h'
  | abs x =>
    cases b <;> simp [HeapSame, equalHeapType] at h
    subst h; exact h'
  | bottom =>
    cases b <;> simp [HeapSame, equalHeapType] at h
    exact h'
  | defType d =>
    cases b with
    | defType e =>
      cases c with
      | defType f =>
        cases d <;> cases e <;> cases f <;> simp_all [HeapSame, equalHeapType]
      | _ => simp [HeapSame, equalHeapType] at h'
    | _ => simp [HeapSame, equalHeapType] at h

end

/-- Every declared supertype edge has passed its checks. -/
def EdgesChecked (types : List RecType) : Prop :=
  ∀ ⦃i p g l st g' l' st'⦄, superParent types i = some p → AtPos types i g l st →
    AtPos types p g' l' st' → st.comp.kind = st'.comp.kind ∧
      (TypeContext.ofTypes types).compTypeSubtype st.comp g st'.comp g' = true

theorem validateTypeSection_edges {types : List RecType} {ctx : TypeContext}
    (h : validateTypeSection types = .ok ctx) : EdgesChecked types := by
  obtain ⟨-, hs⟩ := validateTypeSection_inScope h
  obtain ⟨-, hrest⟩ := Run.except_seq_ok.1 h
  obtain ⟨intervals, hmeta, -⟩ := Run.except_bind_ok.1 hrest
  obtain ⟨hflat, -⟩ := Run.except_seq_ok.1 hmeta
  rw [Run.except_forM_ok] at hflat
  intro i p g l st g' l' st' hpar hi hp
  obtain ⟨g₁, l₁, st₁, sup, hi₁, hsup, rfl⟩ := (superParent_iff hs).1 hpar
  obtain ⟨rfl, rfl, rfl⟩ := hi.unique hi₁
  have hmem := hflat ((st, g), i) (by simpa [mem_zipIdx_iff_getElem?] using hi.location.1)
  obtain ⟨-, hsupers⟩ := Run.except_seq_ok.1 hmem
  rw [Run.except_forM_ok] at hsupers
  have hedge := hsupers sup (by simp [hsup])
  rw [validateSuperEdge, flatTypeIdxInRecGroup_scoped hi.group_lt ((hs hi).supers sup (by simp [hsup])).1]
    at hedge
  simp only [hp.flat, Run.except_seq_ok, moduleFailIf_ok, not_eq_false, not_not] at hedge
  exact ⟨hedge.2.1, hedge.2.2.2⟩

section

variable {types : List RecType} {ctx : TypeContext} {x y z : TypeIdx} {a b c : RefType}

theorem Ancestor.kind (hs : TypesInScope types) (he : EdgesChecked types) {i j g g' l l' : Nat}
    {st st' : SubType} (h : Ancestor types i j) (hi : AtPos types i g l st)
    (hj : AtPos types j g' l' st') : st.comp.kind = st'.comp.kind := by
  induction h using Relation.ReflTransGen.head_induction_on generalizing g l st with
  | refl =>
    obtain ⟨rfl, rfl, rfl⟩ := hi.unique hj
    rfl
  | head hpar _ ih =>
    obtain ⟨g₁, l₁, st₁, hp⟩ := exists_atPos
      (Nat.lt_trans (superParent_lt hs hpar) (superParent_lt_length hpar))
    exact (he hpar hi hp).1.trans (ih hp)

theorem IdxSub.kind (hs : TypesInScope types) (he : EdgesChecked types) (h : IdxSub types x y) :
    idxKind types x = idxKind types y := by
  obtain ⟨i, j, hx, hy, c, hic, hcj⟩ := h
  obtain ⟨g, l, st, hi⟩ := exists_atPos (flatTypeIdx_lt hx)
  obtain ⟨g', l', st', hc⟩ := exists_atPos hcj.lt_length.1
  have hmid : flatTypeIdxInRecGroup types { index := c } none = some c :=
    flatTypeIdxInRecGroup_none hcj.lt_length.1
  have hcy : IdxSame types { index := c } y := .inr ⟨c, j, hmid, hy, hcj⟩
  rw [← hcy.kind]
  simp only [idxKind, resolvedCompType_at hx hi, resolvedCompType_at hmid hc, Option.map_some,
    resolveCompType_kind, hic.kind hs he hi hc]

theorem absHeapSubtype_antisymm {a b : AbsHeapType} (h : absHeapSubtype a b = true)
    (h' : absHeapSubtype b a = true) : a = b := by
  cases a <;> cases b <;> first | rfl | (cases h; done) | cases h'

theorem absHeapSubtype_trans {a b c : AbsHeapType} (h : absHeapSubtype a b = true)
    (h' : absHeapSubtype b c = true) : absHeapSubtype a c = true := by
  cases a <;> cases b <;> first | exact h' | (cases h; done) | (cases c <;> first | rfl | cases h')

theorem kindBottom_below {k : CompTypeKind} {b : AbsHeapType}
    (h : absHeapSubtype (kindTop k) b = true) :
    kindBottom k ≠ b ∧ absHeapSubtype (kindBottom k) b = true := by
  refine ⟨?_, absHeapSubtype_trans (b := kindTop k) (by cases k <;> rfl) h⟩
  rintro rfl
  cases k <;> cases h

theorem kindBottom_minimal {k : CompTypeKind} {a : AbsHeapType}
    (h : absHeapSubtype a (kindBottom k) = true) : a = kindBottom k := by
  cases k <;> cases a <;> first | rfl | cases h

/-- Heap type matching composes: a step up from an abstract or defined type never meets a
different rule than the composed one. -/
theorem HeapMatch.trans (hs : TypesInScope types) (he : EdgesChecked types) {e e' e'' : Bool}
    {a b c : HeapType} (h : HeapMatch types e a e' b) (h' : HeapMatch types e' b e'' c) :
    HeapMatch types e a e'' c := by
  cases h with
  | bottom => exact .bottom
  | same hexact hab =>
    cases h' with
    | bottom =>
      cases a <;> simp [HeapSame, equalHeapType] at hab
      exact .bottom
    | same hexact' hbc => exact .same (fun h => hexact (hexact' h)) (hab.trans hbc)
    | super hyz =>
      cases a <;> simp only [HeapSame, equalHeapType, false_eq_true] at hab
      exact .super (hab.sub hs hyz)
    | belowDef hk =>
      cases a <;> simp [HeapSame, equalHeapType] at hab
      subst hab; exact .belowDef hk
    | aboveDef hk hb =>
      cases a <;> simp only [HeapSame, equalHeapType, false_eq_true] at hab
      exact .aboveDef (hab.kind.trans hk) hb
    | abs hne hb =>
      cases a <;> simp [HeapSame, equalHeapType] at hab
      subst hab; exact .abs hne hb
  | super hxy =>
    cases h' with
    | same hexact hbc =>
      cases c <;> simp only [HeapSame, equalHeapType, false_eq_true] at hbc
      obtain rfl : e'' = false := by cases e'' <;> simp_all
      exact .super (hxy.same hbc)
    | super hyz => exact .super (hxy.trans hs hyz)
    | aboveDef hk hb => exact .aboveDef ((hxy.kind hs he).trans hk) hb
  | belowDef hk =>
    cases h' with
    | same hexact hbc =>
      cases c <;> simp only [HeapSame, equalHeapType, false_eq_true] at hbc
      exact .belowDef (hbc.kind.symm.trans hk)
    | super hyz => exact .belowDef ((hyz.kind hs he).symm.trans hk)
    | aboveDef hk' hb =>
      cases hk.symm.trans hk'
      exact .abs (kindBottom_below hb).1 (kindBottom_below hb).2
  | aboveDef hk hb =>
    cases h' with
    | same hexact hbc =>
      cases c <;> simp [HeapSame, equalHeapType] at hbc
      subst hbc; exact .aboveDef hk hb
    | belowDef hk' =>
      have := kindBottom_minimal hb
      rename_i k _ k'
      cases k <;> cases k' <;> cases this
    | abs _ hb' => exact .aboveDef hk (absHeapSubtype_trans hb hb')
  | abs hne hb =>
    cases h' with
    | same hexact hbc =>
      cases c <;> simp [HeapSame, equalHeapType] at hbc
      subst hbc; exact .abs hne hb
    | belowDef hk => exact absurd (kindBottom_minimal hb) hne
    | abs hne' hb' =>
      refine .abs ?_ (absHeapSubtype_trans hb hb')
      rintro rfl
      exact hne (absHeapSubtype_antisymm hb hb')

theorem refSubtype_refl (ctx : TypeContext) (a : RefType) : ctx.refSubtype a a = true := by
  obtain ⟨nullable, exact, bare, heap⟩ := a
  cases nullable <;> cases exact <;> simp [TypeContext.refSubtype, heapTypeEquivalent]

theorem refSubtype_trans (hc : SoundContext types ctx) (he : EdgesChecked types) (a b c : RefType)
    (h : ctx.refSubtype a b = true) (h' : ctx.refSubtype b c = true) : ctx.refSubtype a c = true := by
  rw [refSubtype_iff hc] at h h' ⊢
  exact ⟨fun hn => h'.1 (h.1 hn), h.2.trans hc.scope he h'.2⟩

end

/-! ## Structural subtyping of components -/

section

variable (le : RefType → RefType → Bool)

/-- Value matching over a given order of references. -/
inductive ValSub : ValType → ValType → Prop
  | num {n} : ValSub (.num n) (.num n)
  | vec : ValSub .vec .vec
  | ref {r q} (h : le r q = true) : ValSub (.ref r) (.ref q)
  | bot {v} : ValSub .bot v

inductive StorageSub : StorageType → StorageType → Prop
  | packed {p} : StorageSub (.packed p) (.packed p)
  | val {v w} (h : ValSub le v w) : StorageSub (.val v) (.val w)

/-- Constant fields are covariant, mutable fields invariant. -/
structure FieldSub (f f' : FieldType) : Prop where
  mutability : f.mutability = f'.mutability
  storage : StorageSub le f.storage f'.storage
  invariant : f.mutability = .var → StorageSub le f'.storage f.storage

/-- Parameters are contravariant, results covariant; a struct may add fields at the end. -/
inductive CompSub : CompType → CompType → Prop
  | func {ps rs ps' rs'} (hp : List.Forall₂ (fun p p' => ValSub le p' p) ps ps')
    (hr : List.Forall₂ (ValSub le) rs rs') : CompSub (.func ps rs) (.func ps' rs')
  | struct {fs more fs'} (hf : List.Forall₂ (FieldSub le) fs fs') :
    CompSub (.struct (fs ++ more)) (.struct fs')
  | array {f f'} (hf : FieldSub le f f') : CompSub (.array f) (.array f')

end

section

variable {le : RefType → RefType → Bool}
  (hle : ∀ a b c, le a b = true → le b c = true → le a c = true)

include hle

theorem ValSub.trans {a b c : ValType} (h : ValSub le a b) (h' : ValSub le b c) : ValSub le a c := by
  cases h with
  | num => exact h'
  | vec => exact h'
  | bot => exact .bot
  | ref h => cases h' with
    | ref h' => exact .ref (hle _ _ _ h h')

theorem StorageSub.trans {a b c : StorageType} (h : StorageSub le a b) (h' : StorageSub le b c) :
    StorageSub le a c := by
  cases h with
  | packed => exact h'
  | val h => cases h' with
    | val h' => exact .val (h.trans hle h')

theorem FieldSub.trans {a b c : FieldType} (h : FieldSub le a b) (h' : FieldSub le b c) :
    FieldSub le a c where
  mutability := h.mutability.trans h'.mutability
  storage := h.storage.trans hle h'.storage
  invariant hm := (h'.invariant (h.mutability ▸ hm)).trans hle (h.invariant hm)

omit hle in
theorem forall₂_trans {α : Type} {R : α → α → Prop} : ∀ {as bs cs : List α}, List.Forall₂ R as bs →
    List.Forall₂ R bs cs → (∀ a b c, R a b → R b c → R a c) → List.Forall₂ R as cs
  | _, _, _, .nil, .nil, _ => .nil
  | _, _, _, .cons h hs, .cons h' hs', hR => .cons (hR _ _ _ h h') (forall₂_trans hs hs' hR)

theorem CompSub.trans {a b c : CompType} (h : CompSub le a b) (h' : CompSub le b c) :
    CompSub le a c := by
  cases h with
  | func hp hr => cases h' with
    | func hp' hr' =>
      exact .func (forall₂_trans hp hp' fun _ _ _ h h' => h'.trans hle h)
        (forall₂_trans hr hr' fun _ _ _ h h' => h.trans hle h')
  | array hf => cases h' with
    | array hf' => exact .array (hf.trans hle hf')
  | struct hf =>
    rename_i fs more mid
    generalize hb : CompType.struct mid = b at h'
    cases h' with
    | struct hf' =>
      rename_i fs' more' fs''
      cases hb
      -- the fields that match the smaller supertype are a front part of those that match the larger
      have hfront := List.forall₂_take_append _ _ _ hf
      rw [← take_append_drop fs'.length fs, append_assoc]
      exact .struct (forall₂_trans hfront hf' fun _ _ _ h h' => h.trans hle h')
    | _ => cases hb

end

/-! ### What the component test accepts -/

section

variable {ctx : TypeContext} {g g' : Nat}

theorem subVal_sub {v w : ValType} (h : ctx.subVal v g w g' = true) :
    ValSub ctx.refSubtype (resolveValTypeRecIndexes ctx.types v g)
      (resolveValTypeRecIndexes ctx.types w g') := by
  unfold TypeContext.subVal at h
  split at h
  · rename_i hv; rw [hv]; exact .bot
  · rename_i hv hw; rw [hv, hw, of_decide_eq_true h]; exact .num
  · rename_i hv hw; rw [hv, hw]; exact .vec
  · rename_i hv hw; rw [hv, hw]; exact .ref h
  · cases h

theorem storageSubtype_sub {f f' : FieldType}
    (h : ctx.storageSubtype f.storage g f'.storage g' = true) :
    StorageSub ctx.refSubtype (resolveFieldTypeRecIndexes ctx.types f g).storage
      (resolveFieldTypeRecIndexes ctx.types f' g').storage := by
  obtain ⟨st, m⟩ := f
  obtain ⟨st', m'⟩ := f'
  cases st with
  | packed p => cases st' with
    | packed q =>
      obtain rfl : p = q := of_decide_eq_true h
      exact .packed
    | val w => cases h
  | val v => cases st' with
    | packed q => cases h
    | val w => exact .val (subVal_sub h)

theorem resolveFieldType_mutability (types : List RecType) (f : FieldType) (g : Nat) :
    (resolveFieldTypeRecIndexes types f g).mutability = f.mutability := by
  obtain ⟨st, m⟩ := f
  cases st <;> rfl

theorem fieldSubtype_sub {f f' : FieldType} (h : ctx.fieldSubtype f g f' g' = true) :
    FieldSub ctx.refSubtype (resolveFieldTypeRecIndexes ctx.types f g)
      (resolveFieldTypeRecIndexes ctx.types f' g') := by
  simp only [TypeContext.fieldSubtype, and_eq_true, or_eq_true, decide_eq_true_eq] at h
  obtain ⟨⟨hm, hst⟩, hinv⟩ := h
  refine ⟨by rw [resolveFieldType_mutability, resolveFieldType_mutability, hm], storageSubtype_sub hst, ?_⟩
  rw [resolveFieldType_mutability]
  intro hvar
  rw [hvar] at hinv
  exact storageSubtype_sub (hinv.resolve_left (by simp))

theorem all_zip_forall₂ {α β : Type} {test : α → α → Bool} {f f' : α → β} {R : β → β → Prop}
    {as bs : List α} (hlen : as.length = bs.length)
    (h : (as.zip bs).all (fun (a, b) => test a b) = true)
    (hR : ∀ a b, test a b = true → R (f a) (f' b)) : List.Forall₂ R (as.map f) (bs.map f') := by
  rw [List.forall₂_map_left_iff, List.forall₂_map_right_iff, List.forall₂_iff_zip]
  exact ⟨hlen, fun {a b} hab => hR a b (all_eq_true.1 h (a, b) hab)⟩

theorem compTypeSubtype_sub {sub sup : CompType} (h : ctx.compTypeSubtype sub g sup g' = true) :
    CompSub ctx.refSubtype (resolveCompTypeRecIndexes ctx.types sub g)
      (resolveCompTypeRecIndexes ctx.types sup g') := by
  unfold TypeContext.compTypeSubtype at h
  split at h
  · simp only [and_eq_true, decide_eq_true_eq] at h
    obtain ⟨⟨⟨hpl, hrl⟩, hp⟩, hr⟩ := h
    exact .func (all_zip_forall₂ hpl hp fun _ _ h => subVal_sub h)
      (all_zip_forall₂ hrl hr fun _ _ h => subVal_sub h)
  · rename_i fs fs'
    simp only [and_eq_true, decide_eq_true_eq] at h
    obtain ⟨hlen, hf⟩ := h
    have hzip : fs.zip fs' = (fs.take fs'.length).zip fs' := by
      rw [zip_eq_zip_take_min, Nat.min_eq_right hlen, take_length]
    rw [hzip] at hf
    simp only [resolveCompTypeRecIndexes]
    rw [← take_append_drop fs'.length fs, map_append]
    exact .struct (all_zip_forall₂ (by simpa using hlen) hf fun _ _ h => fieldSubtype_sub h)
  · exact .array (fieldSubtype_sub h)
  · cases h

end

/-! ### Components of equal types -/

section

variable {types : List RecType} {ctx : TypeContext} {g g' : Nat}

theorem HeapSame.symm {a b : HeapType} (h : HeapSame types a b) : HeapSame types b a := by
  cases a with
  | typeIndex x =>
    cases b <;> simp only [HeapSame, equalHeapType, false_eq_true] at h ⊢
    rcases h with rfl | ⟨i, j, hx, hy, hij⟩
    · exact .inl rfl
    · exact .inr ⟨j, i, hy, hx, hij.symm⟩
  | abs x =>
    cases b <;> simp [HeapSame, equalHeapType] at h ⊢
    exact h.symm
  | bottom => cases b <;> simp [HeapSame, equalHeapType] at h ⊢
  | defType d =>
    cases b with
    | defType e => cases d <;> cases e <;> simp_all [HeapSame, equalHeapType]
    | _ => simp [HeapSame, equalHeapType] at h

theorem resolveRefType_heap {r : RefType} (hg : g < types.length) (hr : HeapInScope types g r.heap) :
    (resolveRefTypeRecIndexes types r g).heap =
      match r.heap with
      | .typeIndex idx => .typeIndex { index := scopedFlat types g idx }
      | h => h := by
  obtain ⟨nullable, exact, bare, heap⟩ := r
  cases heap with
  | typeIndex idx =>
    simp only [resolveRefTypeRecIndexes, RefType.withHeap, resolveTypeIdxRecIndex]
    rw [flatTypeIdxInRecGroup_scoped hg hr]
  | _ => rfl

theorem resolveRefType_flags (types : List RecType) (r : RefType) (g : Nat) :
    (resolveRefTypeRecIndexes types r g).nullable = r.nullable ∧
      (resolveRefTypeRecIndexes types r g).exact = r.exact := by
  obtain ⟨nullable, exact, bare, heap⟩ := r
  cases heap <;> exact ⟨rfl, rfl⟩

/-- Heap types that compare equal resolve to the same heap type. -/
theorem eqHeap_same (hg : g < types.length) (hg' : g' < types.length) {r q : RefType}
    (hr : HeapInScope types g r.heap) (hq : HeapInScope types g' q.heap)
    (h : AllHold (SameType types) (eqHeap types r.heap q.heap g g')) :
    HeapSame types (resolveRefTypeRecIndexes types r g).heap
      (resolveRefTypeRecIndexes types q g').heap := by
  rw [resolveRefType_heap hg hr, resolveRefType_heap hg' hq]
  cases hrh : r.heap with
  | typeIndex x =>
    cases hqh : q.heap with
    | typeIndex y =>
      rw [hrh] at hr h
      rw [hqh] at hq h
      rw [eqHeap, eqIdx, flatTypeIdxInRecGroup_scoped hg hr, flatTypeIdxInRecGroup_scoped hg' hq] at h
      have hsame : SameType types (scopedFlat types g x) (scopedFlat types g' y) := by
        split at h
        · simp at h
        · simpa using h
      exact .inr ⟨_, _, flatTypeIdxInRecGroup_none hsame.lt_length.1,
        flatTypeIdxInRecGroup_none hsame.lt_length.2, hsame⟩
    | _ => simp [hrh, hqh, eqHeap] at h
  | abs x =>
    cases hqh : q.heap <;> simp [hrh, hqh, eqHeap] at h
    simpa [HeapSame, equalHeapType] using h
  | bottom => cases hqh : q.heap <;> simp [hrh, hqh, eqHeap] at h
  | defType d =>
    cases hqh : q.heap with
    | defType e => cases d <;> cases e <;> simp_all [HeapSame, equalHeapType, eqHeap]
    | _ => simp [hrh, hqh, eqHeap] at h

variable (hc : SoundContext types ctx)

include hc

theorem eqVal_sub (hg : g < types.length) (hg' : g' < types.length)
    {v w : ValType} (hv : ValInScope types g v) (hw : ValInScope types g' w)
    (h : AllHold (SameType types) (eqVal types v w g g')) :
    ValSub ctx.refSubtype (resolveValTypeRecIndexes types v g) (resolveValTypeRecIndexes types w g') ∧
      ValSub ctx.refSubtype (resolveValTypeRecIndexes types w g') (resolveValTypeRecIndexes types v g) := by
  cases v with
  | ref r =>
    cases w with
    | ref q =>
      simp only [eqVal, allHold_test, decide_eq_true_eq] at h
      obtain ⟨hnull, hexact, hheap⟩ := h
      have hsame := eqHeap_same hg hg' hv hw hheap
      obtain ⟨hrn, hre⟩ := resolveRefType_flags types r g
      obtain ⟨hqn, hqe⟩ := resolveRefType_flags types q g'
      constructor
      · refine .ref ((refSubtype_iff hc).2 ⟨?_, .same ?_ hsame⟩)
        · rw [hrn, hqn, hnull]; exact id
        · rw [hre, hqe, hexact]; exact id
      · refine .ref ((refSubtype_iff hc).2 ⟨?_, .same ?_ hsame.symm⟩)
        · rw [hrn, hqn, hnull]; exact id
        · rw [hre, hqe, hexact]; exact id
    | _ => simp [eqVal] at h
  | num n =>
    cases w <;> simp [eqVal] at h
    subst h; exact ⟨.num, .num⟩
  | vec =>
    cases w <;> simp [eqVal] at h
    exact ⟨.vec, .vec⟩
  | bot => exact hv.elim

theorem eqField_sub (hg : g < types.length) (hg' : g' < types.length)
    {f f' : FieldType} (hf : FieldInScope types g f) (hf' : FieldInScope types g' f')
    (h : AllHold (SameType types) (eqField types f f' g g')) :
    FieldSub ctx.refSubtype (resolveFieldTypeRecIndexes types f g)
      (resolveFieldTypeRecIndexes types f' g') := by
  obtain ⟨st, m⟩ := f
  obtain ⟨st', m'⟩ := f'
  obtain ⟨hm, h⟩ := allHold_test.1 h
  obtain rfl : m = m' := of_decide_eq_true hm
  cases st with
  | packed p =>
    cases st' with
    | packed q =>
      obtain rfl : p = q := by simpa using h
      exact ⟨rfl, .packed, fun _ => .packed⟩
    | val w => simp at h
  | val v =>
    cases st' with
    | packed q => simp at h
    | val w =>
      obtain ⟨hvw, hwv⟩ := eqVal_sub (v := v) (w := w) hc hg hg' hf hf' h
      exact ⟨rfl, .val hvw, fun _ => .val hwv⟩

omit hc in
theorem zip_forall₂ {α β : Type} {cmp : α → α → List Comparison} {R : Nat → Nat → Prop}
    {f f' : α → β} {S : β → β → Prop} {as bs : List α} (hlen : as.length = bs.length)
    (h : AllHold R ((as.zip bs).flatMap fun (a, b) => cmp a b))
    (hS : ∀ a ∈ as, ∀ b ∈ bs, AllHold R (cmp a b) → S (f a) (f' b)) :
    List.Forall₂ S (as.map f) (bs.map f') := by
  rw [List.forall₂_map_left_iff, List.forall₂_map_right_iff, List.forall₂_iff_zip]
  refine ⟨hlen, fun {a b} hab => ?_⟩
  obtain ⟨ha, hb⟩ := of_mem_zip hab
  exact hS a ha b hb (allHold_flatMap.1 h (a, b) hab)

theorem eqComp_sub (hg : g < types.length) (hg' : g' < types.length)
    {x y : CompType} (hx : CompInScope types g x) (hy : CompInScope types g' y)
    (h : AllHold (SameType types) (eqComp types x y g g')) :
    CompSub ctx.refSubtype (resolveCompTypeRecIndexes types x g)
      (resolveCompTypeRecIndexes types y g') := by
  cases x with
  | func ps rs =>
    cases y with
    | func ps' rs' =>
      simp only [eqComp, allHold_test, allHold_append, decide_eq_true_eq] at h
      obtain ⟨hpl, hrl, hp, hr⟩ := h
      exact .func
        (zip_forall₂ hpl hp fun a ha b hb h => (eqVal_sub hc hg hg' (hx.1 a ha) (hy.1 b hb) h).2)
        (zip_forall₂ hrl hr fun a ha b hb h => (eqVal_sub hc hg hg' (hx.2 a ha) (hy.2 b hb) h).1)
    | _ => simp [eqComp] at h
  | struct fs =>
    cases y with
    | struct fs' =>
      simp only [eqComp, allHold_test, decide_eq_true_eq] at h
      have hsub := zip_forall₂ (S := FieldSub ctx.refSubtype) h.1 h.2
        fun a ha b hb h => eqField_sub hc hg hg' (hx a ha) (hy b hb) h
      have hall : CompSub ctx.refSubtype
          (.struct (fs.map (resolveFieldTypeRecIndexes types · g) ++ []))
          (resolveCompTypeRecIndexes types (.struct fs') g') := .struct hsub
      rwa [append_nil] at hall
    | _ => simp [eqComp] at h
  | array f =>
    cases y with
    | array f' => exact .array (eqField_sub hc hg hg' hx hy h)
    | _ => simp [eqComp] at h

theorem SameType.compSub {i j l l' : Nat} {st st' : SubType}
    (h : SameType types i j) (hi : AtPos types i g l st) (hj : AtPos types j g' l' st') :
    CompSub ctx.refSubtype (resolveCompTypeRecIndexes types st.comp g)
      (resolveCompTypeRecIndexes types st'.comp g') := by
  obtain ⟨hreflects, hclosed⟩ := h.closed hi hj
  simp only [closeSubType, ClosedSubType.mk.injEq] at hclosed
  exact eqComp_sub hc hi.group_lt hj.group_lt (hc.scope hi).comp (hc.scope hj).comp
    ((eqComp_iff hreflects hi.group_lt hj.group_lt (hc.scope hi).comp (hc.scope hj).comp).2
      hclosed.2.2.2.2)

/-- With or without intervals, the test is the same. -/
theorem refSubtype_ofTypes :
    (TypeContext.ofTypes types).refSubtype = ctx.refSubtype := by
  funext a b
  rw [Bool.eq_iff_iff, refSubtype_iff hc, refSubtype_iff (soundContext_ofTypes hc.scope)]

/-- Along a declared chain of any length the components are structural subtypes. -/
theorem Ancestor.compSub (he : EdgesChecked types) {i j l l' : Nat}
    {st st' : SubType} (h : Ancestor types i j) (hi : AtPos types i g l st)
    (hj : AtPos types j g' l' st') :
    CompSub ctx.refSubtype (resolveCompTypeRecIndexes types st.comp g)
      (resolveCompTypeRecIndexes types st'.comp g') := by
  induction h using Relation.ReflTransGen.head_induction_on generalizing g l st with
  | refl =>
    obtain ⟨rfl, rfl, rfl⟩ := hi.unique hj
    exact (sameType_refl hi.lt_length).compSub hc hi hi
  | head hpar _ ih =>
    obtain ⟨g₁, l₁, st₁, hp⟩ := exists_atPos
      (Nat.lt_trans (superParent_lt hc.scope hpar) (superParent_lt_length hpar))
    have hedge := compTypeSubtype_sub (he hpar hi hp).2
    rw [refSubtype_ofTypes hc] at hedge
    exact hedge.trans (refSubtype_trans hc he) (ih hp)

theorem IdxSub.compSub (he : EdgesChecked types) {x y : TypeIdx}
    (h : IdxSub types x y) : ∃ cx cy, compTypeFromTypeIdx types x = some cx ∧
      compTypeFromTypeIdx types y = some cy ∧ CompSub ctx.refSubtype cx cy := by
  obtain ⟨i, j, hx, hy, c, hic, hcj⟩ := h
  obtain ⟨g, l, st, hi⟩ := exists_atPos (flatTypeIdx_lt hx)
  obtain ⟨g₁, l₁, st₁, hc₁⟩ := exists_atPos hcj.lt_length.1
  obtain ⟨g', l', st', hj⟩ := exists_atPos hcj.lt_length.2
  exact ⟨_, _, resolvedCompType_at hx hi, resolvedCompType_at hy hj,
    (hic.compSub hc he hi hc₁).trans (refSubtype_trans hc he) (hcj.compSub hc hc₁ hj)⟩

end

/-- In a validated module, reference subtyping is a preorder, and a defined type accepted below
another has a component that is a structural subtype of the other's. -/
theorem refSubtype_preorder_structural {types : List RecType} {ctx : TypeContext}
    (h : validateTypeSection types = .ok ctx) :
    (∀ a, ctx.refSubtype a a = true) ∧
    (∀ a b c, ctx.refSubtype a b = true → ctx.refSubtype b c = true → ctx.refSubtype a c = true) ∧
    ∀ a b x y cx, a.heap = .typeIndex x → b.heap = .typeIndex y → ctx.refSubtype a b = true →
      compTypeFromTypeIdx types x = some cx →
      ∃ cy, compTypeFromTypeIdx types y = some cy ∧ CompSub ctx.refSubtype cx cy := by
  have hc := validateTypeSection_sound h
  have he := validateTypeSection_edges h
  refine ⟨refSubtype_refl ctx, refSubtype_trans hc he, ?_⟩
  intro a b x y cx hax hby hab hcx
  obtain ⟨i, hi⟩ := flat_of_resolvedCompType hcx
  have hsub : IdxSub types x y := by
    have hmatch := ((refSubtype_iff hc).1 hab).2
    rw [hax, hby] at hmatch
    generalize b.exact = e at hmatch
    cases hmatch with
    | same _ hsame =>
      rcases hsame with rfl | ⟨i', j, hi', hj, hij⟩
      · exact ⟨i, i, hi, hi, .of_same (sameType_refl (flatTypeIdx_lt hi))⟩
      · exact ⟨i', j, hi', hj, .of_same hij⟩
    | super hxy => exact hxy
  obtain ⟨cx', cy, hcx', hcy, hcomp⟩ := hsub.compSub hc he
  cases hcx.symm.trans hcx'
  exact ⟨cy, hcy, hcomp⟩

/-- Function types that narrow the result and widen the parameter from one to the next. -/
def narrowingChain : List RecType :=
  let member (final : Bool) (supers : List TypeIdx) (param result : ValType) : RecType :=
    { subTypes := [{ final, supers, describes := none, descriptor := none, hasPrefix := true,
                     comp := .func [param] [result] }] }
  [member false [] .i31Ref .anyRef, member false [⟨0, false⟩] .eqRef .eqRef,
    member true [⟨1, false⟩] .anyRef .i31Ref]

theorem narrowingChain_structural :
    (TypeContext.ofTypes narrowingChain).refSubtype (mkRef false (.typeIndex ⟨2, false⟩) false)
        (mkRef true (.typeIndex ⟨0, false⟩) false) = true ∧
      ∃ cy, compTypeFromTypeIdx narrowingChain ⟨0, false⟩ = some cy ∧
        CompSub (TypeContext.ofTypes narrowingChain).refSubtype (.func [.anyRef] [.i31Ref]) cy := by
  have hv : validateTypeSection narrowingChain = .ok (TypeContext.ofTypes narrowingChain) := rfl
  have h : (TypeContext.ofTypes narrowingChain).refSubtype
      (mkRef false (.typeIndex ⟨2, false⟩) false) (mkRef true (.typeIndex ⟨0, false⟩) false) = true := by
    decide
  exact ⟨h, (refSubtype_preorder_structural hv).2.2 _ _ _ _ _ rfl rfl h rfl⟩

end Wago.Wasm
