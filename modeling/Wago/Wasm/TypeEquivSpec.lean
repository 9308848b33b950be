/-
The equivalence test decides iso-recursive equality of defined types. Soundness: the pairs a
successful query leaves marked are closed under comparison, and a set of pairs closed under
comparison holds only pairs of equal types, by induction on the group. Completeness: on equal types
no comparison fails, and the pairs not yet marked bound the recursion. Committed pairs are equal
types and a failed query restores the marks, so a batch answers as fresh queries do.
-/
import Wago.Wasm.ClosedTypes
import Wago.Wasm.TypeScope
import Mathlib.Data.Finset.Card
import Mathlib.Data.Finset.Prod

namespace Wago.Wasm

/-! ## What a list of comparisons says -/

def Comparison.Holds (R : Nat → Nat → Prop) : Comparison → Prop
  | .test b => b = true
  | .types x y => R x y

def AllHold (R : Nat → Nat → Prop) (cs : List Comparison) : Prop := ∀ c ∈ cs, c.Holds R

section

variable {R : Nat → Nat → Prop} {cs ds : List Comparison} {b : Bool} {x y : Nat}

@[simp] theorem allHold_nil : AllHold R [] := by simp [AllHold]

@[simp] theorem allHold_test : AllHold R (.test b :: cs) ↔ b = true ∧ AllHold R cs := by
  simp [AllHold, Comparison.Holds]

@[simp] theorem allHold_types : AllHold R (.types x y :: cs) ↔ R x y ∧ AllHold R cs := by
  simp [AllHold, Comparison.Holds]

@[simp] theorem allHold_append : AllHold R (cs ++ ds) ↔ AllHold R cs ∧ AllHold R ds := by
  simp [AllHold, or_imp, forall_and]

theorem allHold_flatMap {α : Type} {as : List α} {f : α → List Comparison} :
    AllHold R (as.flatMap f) ↔ ∀ a ∈ as, AllHold R (f a) := by
  simp only [AllHold, List.mem_flatMap]
  exact ⟨fun h a ha c hc => h c ⟨a, ha, hc⟩, fun h c ⟨a, ha, hc⟩ => h a ha c hc⟩

theorem AllHold.mono {S : Nat → Nat → Prop} (h : AllHold R cs) (hRS : ∀ x y, R x y → S x y) :
    AllHold S cs := by
  intro c hc
  have := h c hc
  cases c with
  | test b => exact this
  | types x y => exact hRS x y this

end

theorem zip_map_eq_iff {α β γ : Type} {f : α → γ} {h : β → γ} : ∀ {as : List α} {bs : List β},
    as.length = bs.length ∧ (∀ p ∈ as.zip bs, f p.1 = h p.2) ↔ as.map f = bs.map h
  | [], [] => by simp
  | [], _ :: _ => by simp
  | _ :: _, [] => by simp
  | a :: as, b :: bs => by
    have ih : as.length = bs.length ∧ _ ↔ _ := zip_map_eq_iff (f := f) (h := h)
    simp only [List.length_cons, List.zip_cons_cons, List.forall_mem_cons, List.map_cons,
      List.cons.injEq, ← ih, Nat.add_right_cancel_iff]
    tauto

/-! ## Comparisons and closed forms -/

/-- On indexes in scope, `R` tells apart exactly what the closed forms tell apart. -/
def Reflects (types : List RecType) (g g' : Nat) (R : Nat → Nat → Prop) : Prop :=
  ∀ {x y : TypeIdx}, IdxInScope types g x → IdxInScope types g' y →
    (x.isRec = y.isRec ∧ R (scopedFlat types g x) (scopedFlat types g' y) ↔
      closeIdx (closedEnv types g) x = closeIdx (closedEnv types g') y)

theorem matches_reflects (types : List RecType) (g g' : Nat) :
    Reflects types g g' (Matches types g g') := fun hx hy => (closeIdx_eq_iff hx hy).symm

section

variable {types : List RecType} {g g' : Nat} {R : Nat → Nat → Prop}

variable (hR : Reflects types g g' R) (hg : g < types.length) (hg' : g' < types.length)

include hR hg hg'

theorem eqIdx_iff
    {x y : TypeIdx} (hx : IdxInScope types g x) (hy : IdxInScope types g' y) :
    AllHold R (eqIdx types x y g g') ↔
      closeIdx (closedEnv types g) x = closeIdx (closedEnv types g') y := by
  rw [← hR hx hy, eqIdx, flatTypeIdxInRecGroup_scoped hg hx, flatTypeIdxInRecGroup_scoped hg' hy]
  cases hr : x.isRec <;> cases hr' : y.isRec <;> simp

theorem eqHeap_iff
    {x y : HeapType} (hx : HeapInScope types g x) (hy : HeapInScope types g' y) :
    AllHold R (eqHeap types x y g g') ↔
      closeHeap (closedEnv types g) x = closeHeap (closedEnv types g') y := by
  cases x with
  | abs a => cases y <;> simp [eqHeap, closeHeap]
  | typeIndex a =>
    cases y with
    | typeIndex b => simp [eqHeap, closeHeap, eqIdx_iff hR hg hg' hx hy]
    | _ => simp [eqHeap, closeHeap]
  | defType d =>
    cases y with
    | defType e => cases d <;> cases e <;> simp [eqHeap, closeHeap]
    | _ => cases d <;> simp [eqHeap, closeHeap]
  | bottom => exact hx.elim

theorem eqVal_iff
    {x y : ValType} (hx : ValInScope types g x) (hy : ValInScope types g' y) :
    AllHold R (eqVal types x y g g') ↔
      closeVal (closedEnv types g) x = closeVal (closedEnv types g') y := by
  cases x with
  | ref r =>
    cases y with
    | ref q => simp [eqVal, closeVal, eqHeap_iff hR hg hg' hx hy]
    | _ => simp [eqVal, closeVal]
  | bot => exact hx.elim
  | _ => cases y <;> simp [eqVal, closeVal]

theorem eqField_iff
    {x y : FieldType} (hx : FieldInScope types g x) (hy : FieldInScope types g' y) :
    AllHold R (eqField types x y g g') ↔
      closeField (closedEnv types g) x = closeField (closedEnv types g') y := by
  obtain ⟨xs, xm⟩ := x
  obtain ⟨ys, ym⟩ := y
  cases xs with
  | val v =>
    cases ys with
    | val w =>
      have := eqVal_iff hR hg hg' (x := v) (y := w) hx hy
      simp [eqField, closeField, this, and_comm]
    | packed q => simp [eqField, closeField]
  | packed p => cases ys <;> simp [eqField, closeField, and_comm]

theorem eqOptionalType_iff
    {x y : Option TypeIdx} (hx : ∀ idx ∈ x, IdxInScope types g idx)
    (hy : ∀ idx ∈ y, IdxInScope types g' idx) :
    AllHold R (eqOptionalType types x y g g') ↔
      x.map (closeIdx (closedEnv types g)) = y.map (closeIdx (closedEnv types g')) := by
  cases x with
  | none => cases y <;> simp [eqOptionalType]
  | some a =>
    cases y with
    | none => simp [eqOptionalType]
    | some b => simp [eqOptionalType, eqIdx_iff hR hg hg' (hx a rfl) (hy b rfl)]

omit hR hg hg' in
/-- Comparing two lists of one length elementwise is comparing their closed forms. -/
theorem zip_flatMap_iff {α γ : Type} (cmp : α → α → List Comparison) {f h : α → γ} (as bs : List α)
    (hcmp : ∀ a ∈ as, ∀ b ∈ bs, (AllHold R (cmp a b) ↔ f a = h b)) :
    as.length = bs.length ∧ AllHold R ((as.zip bs).flatMap fun (a, b) => cmp a b) ↔
      as.map f = bs.map h := by
  rw [allHold_flatMap, ← zip_map_eq_iff]
  refine and_congr_right fun _ => forall_congr' fun p => ?_
  constructor
  · intro hall hp
    obtain ⟨ha, hb⟩ := List.of_mem_zip (a := p.1) (b := p.2) hp
    exact (hcmp _ ha _ hb).1 (hall hp)
  · intro hall hp
    obtain ⟨ha, hb⟩ := List.of_mem_zip (a := p.1) (b := p.2) hp
    exact (hcmp _ ha _ hb).2 (hall hp)

theorem eqComp_iff
    {x y : CompType} (hx : CompInScope types g x) (hy : CompInScope types g' y) :
    AllHold R (eqComp types x y g g') ↔
      closeComp (closedEnv types g) x = closeComp (closedEnv types g') y := by
  cases x with
  | func ps rs =>
    cases y with
    | func ps' rs' =>
      have hp := zip_flatMap_iff (R := R) (fun a b => eqVal types a b g g') ps ps'
        fun a ha b hb => eqVal_iff hR hg hg' (hx.1 a ha) (hy.1 b hb)
      have hr := zip_flatMap_iff (R := R) (fun a b => eqVal types a b g g') rs rs'
        fun a ha b hb => eqVal_iff hR hg hg' (hx.2 a ha) (hy.2 b hb)
      simp only [eqComp, closeComp, allHold_test, allHold_append, decide_eq_true_eq,
        ClosedComp.func.injEq, ← hp, ← hr]
      tauto
    | _ => simp [eqComp, closeComp]
  | struct fs =>
    cases y with
    | struct fs' =>
      have hf := zip_flatMap_iff (R := R) (fun a b => eqField types a b g g') fs fs' fun a ha b hb => eqField_iff hR hg hg' (hx a ha) (hy b hb)
      simp only [eqComp, closeComp, allHold_test, decide_eq_true_eq, ClosedComp.struct.injEq, ← hf]
    | _ => simp [eqComp, closeComp]
  | array f =>
    cases y with
    | array f' => simp [eqComp, closeComp, eqField_iff hR hg hg' (x := f) (y := f') hx hy]
    | _ => simp [eqComp, closeComp]

omit hR hg hg' in
theorem closeComp_kind {env env' : List ClosedDef} {x y : CompType}
    (h : closeComp env x = closeComp env' y) : x.kind = y.kind := by
  cases x <;> cases y <;> simp [closeComp] at h <;> rfl

/-- The comparisons of two members, with the checks made before them, decide whether their closed
forms are equal. -/
theorem eqSubType_iff
    {l l' : Nat} {x y : SubType} (hx : SubTypeInScope types g l x) (hy : SubTypeInScope types g' l' y) :
    knownMismatch x y = false ∧ AllHold R (eqSubType types x y g g') ↔
      closeSubType (closedEnv types g) x = closeSubType (closedEnv types g') y := by
  have hsup := zip_flatMap_iff (R := R) (fun a b => eqIdx types a b g g') x.supers y.supers
    fun a ha b hb => eqIdx_iff hR hg hg' (hx.supers a ha).1 (hy.supers b hb).1
  have hcomp := eqComp_iff hR hg hg' hx.comp hy.comp
  simp only [eqSubType, allHold_append, closeSubType, ClosedSubType.mk.injEq, knownMismatch,
    Bool.or_eq_false_iff, bne_eq_false_iff_eq, ← hsup, ← hcomp,
    ← eqOptionalType_iff hR hg hg' hx.describes hy.describes,
    ← eqOptionalType_iff hR hg hg' hx.descriptor hy.descriptor]
  constructor
  · rintro ⟨⟨⟨hf, hl⟩, -⟩, ⟨⟨hd, hd'⟩, hs⟩, hc⟩
    exact ⟨hf, ⟨hl, hs⟩, hd, hd', hc⟩
  · rintro ⟨hf, ⟨hl, hs⟩, hd, hd', hc⟩
    exact ⟨⟨⟨hf, hl⟩, closeComp_kind (hcomp.1 hc)⟩, ⟨⟨hd, hd'⟩, hs⟩, hc⟩

end

/-! ## Sets of pairs closed under comparison -/

/-- The pair `(x, y)` passes all its checks when the pairs in `T` are taken to be equal: its own
comparisons hold in `T`, the first member pair of the two groups is in `T`, and a first member pair
has all member pairs in `T`. -/
structure Consistent (types : List RecType) (T : Nat → Nat → Prop) (x y : Nat) : Prop where
  holds : ∃ g g' l st st', AtPos types x g l st ∧ AtPos types y g' l st' ∧
    groupLength types g = groupLength types g' ∧ knownMismatch st st' = false ∧
    AllHold (fun a b => a = b ∨ T a b) (eqSubType types st st' g g') ∧
    T (typeGroupBase types g) (typeGroupBase types g') ∧
    (l = 0 → ∀ k < groupLength types g, T (typeGroupBase types g + k) (typeGroupBase types g' + k))

variable {types : List RecType}

theorem Consistent.mono {T T' : Nat → Nat → Prop} {x y : Nat}
    (h : Consistent types T x y) (hT : ∀ a b, T a b → T' a b) : Consistent types T' x y := by
  obtain ⟨g, g', l, st, st', hx, hy, hlen, hk, hall, hfirst, hmem⟩ := h.holds
  exact ⟨g, g', l, st, st', hx, hy, hlen, hk, hall.mono fun a b => Or.imp_right (hT a b),
    hT _ _ hfirst, fun hl k hk => hT _ _ (hmem hl k hk)⟩

section

variable {types : List RecType} {T : Nat → Nat → Prop} {x y g g' l l' : Nat} {st st' : SubType}

/-- Equal types and consistent pairs sit at the same position of groups of one length. -/
theorem position_eq (h : SameType types x y ∨ Consistent types T x y) (hx : AtPos types x g l st)
    (hy : AtPos types y g' l' st') : l = l' ∧ groupLength types g = groupLength types g' := by
  rcases h with h | h
  · obtain ⟨rt, hrt, -⟩ := hx.member
    obtain ⟨rt', hrt', -⟩ := hy.member
    obtain ⟨hc, hl⟩ := (sameType_iff hx hrt hy hrt').1 h
    have := congrArg List.length hc
    simp only [closeGroup, List.length_map] at this
    exact ⟨hl, by rw [groupLength_of_get hrt, groupLength_of_get hrt', this]⟩
  · obtain ⟨_, _, _, _, _, hx', hy', hlen, -⟩ := h.holds
    obtain ⟨rfl, rfl, -⟩ := hx.unique hx'
    obtain ⟨rfl, rfl, -⟩ := hy.unique hy'
    exact ⟨rfl, hlen⟩

/-- Groups whose members all close to the same subtypes are the same group. -/
theorem closeGroup_eq {rt rt' : RecType} (hrt : types[g]? = some rt) (hrt' : types[g']? = some rt')
    (hlen : groupLength types g = groupLength types g')
    (h : ∀ (k : Nat) st st', rt.subTypes[k]? = some st → rt'.subTypes[k]? = some st' →
      closeSubType (closedEnv types g) st = closeSubType (closedEnv types g') st') :
    closeGroup (closedEnv types g) rt = closeGroup (closedEnv types g') rt' := by
  rw [groupLength_of_get hrt, groupLength_of_get hrt'] at hlen
  refine List.ext_getElem? fun k => ?_
  simp only [closeGroup, List.getElem?_map]
  rcases hk : rt.subTypes[k]? with _ | st
  · rw [List.getElem?_eq_none_iff] at hk
    rw [List.getElem?_eq_none_iff.2 (by omega)]; rfl
  · have hlt := (List.getElem?_eq_some_iff.1 hk).1
    have hk' : rt'.subTypes[k]? = some rt'.subTypes[k] := List.getElem?_eq_getElem (by omega)
    rw [hk', Option.map_some, Option.map_some, h k _ _ hk hk']

/-- In a set of pairs that are equal or consistent, every pair is equal. The induction is on the
group of the first index: references out of a group go to earlier groups. -/
theorem sameType_of_closed (hs : TypesInScope types)
    (hT : ∀ a b, T a b → SameType types a b ∨ Consistent types T a b) :
    ∀ (g : Nat) {x y l : Nat} {st : SubType}, AtPos types x g l st → T x y → SameType types x y := by
  intro g
  induction g using Nat.strongRecOn with
  | _ g ih =>
    intro x y l st hx hxy
    rcases hT x y hxy with hsame | hcons
    · exact hsame
    obtain ⟨g₀, g', l₀, st₀, st', hx₀, hy, hlen, -, -, hfirst, -⟩ := hcons.holds
    obtain ⟨rfl, rfl, rfl⟩ := hx.unique hx₀
    obtain ⟨rt, hrt, -⟩ := hx.member
    obtain ⟨rt', hrt', -⟩ := hy.member
    -- it is enough that the two groups close to the same group
    suffices hgroups : closeGroup (closedEnv types g) rt = closeGroup (closedEnv types g') rt' from
      (sameType_iff hx hrt hy hrt').2 ⟨hgroups, rfl⟩
    have hl := hx.lt_groupLength
    have hpos : ∀ {k : Nat} {st st'}, rt.subTypes[k]? = some st → rt'.subTypes[k]? = some st' →
        AtPos types (typeGroupBase types g + k) g k st ∧
          AtPos types (typeGroupBase types g' + k) g' k st' :=
      fun h h' => ⟨⟨⟨rt, hrt, h⟩, rfl⟩, ⟨⟨rt', hrt', h'⟩, rfl⟩⟩
    -- one equal member pair makes the groups equal
    have hequal : ∀ {k : Nat} {st st'}, rt.subTypes[k]? = some st → rt'.subTypes[k]? = some st' →
        SameType types (typeGroupBase types g + k) (typeGroupBase types g' + k) →
        closeGroup (closedEnv types g) rt = closeGroup (closedEnv types g') rt' :=
      fun h h' hsame => ((sameType_iff (hpos h h').1 hrt (hpos h h').2 hrt').1 hsame).1
    have hmembers : ∀ k < groupLength types g, ∃ st st', rt.subTypes[k]? = some st ∧
        rt'.subTypes[k]? = some st' := by
      intro k hk
      have hk' := hlen ▸ hk
      rw [groupLength_of_get hrt] at hk
      rw [groupLength_of_get hrt'] at hk'
      exact ⟨_, _, List.getElem?_eq_getElem hk, List.getElem?_eq_getElem hk'⟩
    obtain ⟨s₀, s₀', hs₀, hs₀'⟩ := hmembers 0 (by omega)
    rcases hT _ _ hfirst with hsame | hcons₀
    · exact hequal hs₀ hs₀' hsame
    obtain ⟨_, _, _, _, _, hp, hq, -, -, -, -, hall⟩ := hcons₀.holds
    obtain ⟨rfl, rfl, -⟩ := (hpos hs₀ hs₀').1.unique hp
    obtain ⟨rfl, -, -⟩ := (hpos hs₀ hs₀').2.unique hq
    replace hall := hall rfl
    by_cases hex : ∃ k < groupLength types g,
        SameType types (typeGroupBase types g + k) (typeGroupBase types g' + k)
    · obtain ⟨k, hk, hsame⟩ := hex
      obtain ⟨_, _, h, h'⟩ := hmembers k hk
      exact hequal h h' hsame
    refine closeGroup_eq hrt hrt' hlen fun k st st' h h' => ?_
    have hk : k < groupLength types g := (hpos h h').1.lt_groupLength
    have hc : Consistent types T _ _ :=
      (hT _ _ (hall k hk)).resolve_left fun hsame => hex ⟨k, hk, hsame⟩
    obtain ⟨_, _, _, _, _, hp, hq, -, hmis, hcmp, -⟩ := hc.holds
    obtain ⟨rfl, rfl, rfl⟩ := (hpos h h').1.unique hp
    obtain ⟨rfl, -, rfl⟩ := (hpos h h').2.unique hq
    refine (eqSubType_iff (matches_reflects types g g') hp.group_lt hq.group_lt (hs hp) (hs hq)).1
      ⟨hmis, hcmp.mono fun a b hab => ⟨fun ha hb => ?_, fun k₁ hk₁ k₂ hk₂ ha hb => ?_⟩⟩
    · have hlt : a < (flatSubTypes types).length :=
        Nat.lt_of_lt_of_le ha (typeGroupBase_le_length types g)
      rcases hab with rfl | hab
      · exact sameType_refl hlt
      · obtain ⟨ga, la, sa, hpa⟩ := exists_atPos hlt
        exact ih ga (hpa.group_lt_of_lt_base ha) hpa hab
    · obtain ⟨_, _, h₁, -⟩ := hmembers k₁ hk₁
      obtain ⟨_, _, -, h₂⟩ := hmembers k₂ (by omega)
      have hpa : AtPos types a g k₁ _ := ⟨⟨rt, hrt, h₁⟩, ha⟩
      have hpb : AtPos types b g' k₂ _ := ⟨⟨rt', hrt', h₂⟩, hb⟩
      rcases hab with rfl | hab
      · exact (hpa.unique hpb).2.1
      · exact (position_eq (hT a b hab) hpa hpb).1

end

/-! ## Runs of the test -/

def Marked (s : EqState) (a b : Nat) : Prop := s.mark (a, b) = .active ∨ s.mark (a, b) = .proven

def NoRefuted (s : EqState) : Prop := ∀ p, s.mark p ≠ .refuted

variable {s : EqState}

theorem NoRefuted.marked {a b : Nat} (h : NoRefuted s) (hm : s.mark (a, b) ≠ .absent) :
    Marked s a b := by
  have := h (a, b)
  unfold Marked
  cases hs : s.mark (a, b) <;> simp_all

/-- A run from `s` to `s'` changed only the marks of pairs it introduced, which were absent. -/
def Tracks (s s' : EqState) : Prop :=
  ∃ more, s'.introduced = s.introduced ++ more ∧ (∀ p ∈ more, s.mark p = .absent) ∧
    ∀ p, p ∉ more → s'.mark p = s.mark p

theorem Tracks.refl (s : EqState) : Tracks s s := ⟨[], by simp, by simp, by simp⟩

theorem Tracks.trans {s t u : EqState} : Tracks s t → Tracks t u → Tracks s u
  | ⟨m, hi, ha, hs⟩, ⟨m', hi', ha', hs'⟩ => by
    refine ⟨m ++ m', by rw [hi', hi, List.append_assoc], fun p hp => ?_, fun p hp => ?_⟩
    · rcases List.mem_append.1 hp with h | h
      · exact ha p h
      · by_cases hm : p ∈ m
        · exact ha p hm
        · rw [← hs p hm]; exact ha' p h
    · rw [List.mem_append, not_or] at hp
      rw [hs' p hp.2, hs p hp.1]

/-- A successful run from `s` to `s'` refuted nothing and introduced only consistent pairs. -/
structure Extends (types : List RecType) (s s' : EqState) : Prop where
  marked : ∀ a b, Marked s a b → Marked s' a b
  noRefuted : NoRefuted s'
  new : ∀ a b, Marked s' a b → Marked s a b ∨ Consistent types (Marked s') a b

theorem Extends.refl (h : NoRefuted s) : Extends types s s :=
  ⟨fun _ _ => id, h, fun _ _ => .inl⟩

theorem Extends.trans {s t u : EqState} (h : Extends types s t)
    (h' : Extends types t u) : Extends types s u where
  marked a b hm := h'.marked a b (h.marked a b hm)
  noRefuted := h'.noRefuted
  new a b hm := by
    rcases h'.new a b hm with ht | hc
    · rcases h.new a b ht with hs | hc
      · exact .inl hs
      · exact .inr (hc.mono h'.marked)
    · exact .inr hc

/-- What a comparison of `x` and `y` that goes from `s` to `s'` with answer `ok` guarantees. -/
def EqRun (types : List RecType) (x y : Nat) (s : EqState) (ok : Bool) (s' : EqState) : Prop :=
  Tracks s s' ∧ (ok = true → NoRefuted s → (x = y ∨ Marked s' x y) ∧ Extends types s s')

theorem runComparisons_types {eq : Nat → Nat → StateM EqState Bool} {x y : Nat}
    {cs : List Comparison} :
    runComparisons eq (.types x y :: cs) s =
      if (eq x y s).1 then runComparisons eq cs (eq x y s).2 else (false, (eq x y s).2) := by
  rcases h : eq x y s with ⟨ok, t⟩
  simp only [runComparisons, bind, StateT.bind, h]
  cases ok <;> rfl

theorem runComparisons_run {eq : Nat → Nat → StateM EqState Bool}
    (heq : ∀ x y s, EqRun types x y s (eq x y s).1 (eq x y s).2) :
    ∀ (cs : List Comparison) (s : EqState), Tracks s (runComparisons eq cs s).2 ∧
      ((runComparisons eq cs s).1 = true → NoRefuted s →
        AllHold (fun a b => a = b ∨ Marked (runComparisons eq cs s).2 a b) cs ∧
          Extends types s (runComparisons eq cs s).2)
  | [], s => ⟨Tracks.refl s, fun _ hs => ⟨allHold_nil, Extends.refl hs⟩⟩
  | .test b :: cs, s => by
    cases b with
    | false => exact ⟨Tracks.refl s, fun h => by cases h⟩
    | true =>
      obtain ⟨htr, hok⟩ := runComparisons_run heq cs s
      exact ⟨htr, fun h hs => ⟨allHold_test.2 ⟨rfl, (hok h hs).1⟩, (hok h hs).2⟩⟩
  | .types x y :: cs, s => by
    obtain ⟨htr, hcall⟩ := heq x y s
    rw [runComparisons_types]
    by_cases hxy : (eq x y s).1 = true
    · rw [if_pos hxy]
      obtain ⟨htr', hok⟩ := runComparisons_run heq cs (eq x y s).2
      refine ⟨htr.trans htr', fun h hs => ?_⟩
      obtain ⟨hm, hext⟩ := hcall hxy hs
      obtain ⟨hall, hext'⟩ := hok h hext.noRefuted
      exact ⟨allHold_types.2 ⟨hm.imp_right (hext'.marked x y), hall⟩, hext.trans hext'⟩
    · rw [if_neg hxy]
      exact ⟨htr, fun h => by cases h⟩

/-- The comparisons made for a pair at two positions, from the marks before it is introduced. -/
def pairComparisons (types : List RecType) (g g' : Nat) (st st' : SubType) (s : EqState) :
    List Comparison :=
  (if groupLength types g > 1 ∧ s.mark (typeGroupBase types g, typeGroupBase types g') = .absent then
    eqMembers (typeGroupBase types g) (typeGroupBase types g') (groupLength types g) else []) ++
    eqSubType types st st' g g'

theorem eqType_outside {fuel x y : Nat} (hne : x ≠ y)
    (h : ¬ (x < (flatSubTypes types).length ∧ y < (flatSubTypes types).length)) :
    eqType types (fuel + 1) x y s = (false, s) := by
  have hnone : ∀ {i}, ¬ i < (flatSubTypes types).length → groupLocation types i = none := by
    intro i hi
    simp [groupLocation, subtypeByFlatTypeIdx, List.getElem?_eq_none_iff.2 (Nat.le_of_not_lt hi)]
  rw [eqType, if_neg hne]
  by_cases hx : x < (flatSubTypes types).length
  · rw [hnone (i := y) fun hy => h ⟨hx, hy⟩]
    cases groupLocation types x <;> rfl
  · rw [hnone hx]; rfl

/-- One call on two different positions. -/
theorem eqType_at {fuel x y g g' l l' : Nat} {st st' : SubType}
    (hne : x ≠ y) (hx : AtPos types x g l st) (hy : AtPos types y g' l' st') :
    eqType types (fuel + 1) x y s =
      if l ≠ l' ∨ groupLength types g ≠ groupLength types g' then (false, s)
      else
        match s.mark (x, y) with
        | .active | .proven => (true, s)
        | .refuted => (false, s)
        | .absent =>
          if knownMismatch st st' then (false, s)
          else
            let r := runComparisons (eqType types fuel) (pairComparisons types g g' st st' s)
              (s.introduce (x, y))
            (r.1, r.2.setMark (x, y) (if r.1 then .proven else .refuted)) := by
  have hloc : groupLocation types x = some (g, l, typeGroupBase types g) := by
    rw [groupLocation, hx.flat]; simp [hx.location.2]
  have hloc' : groupLocation types y = some (g', l', typeGroupBase types g') := by
    rw [groupLocation, hy.flat]; simp [hy.location.2]
  rw [eqType, if_neg hne, hloc, hloc', hx.flat, hy.flat]
  simp only
  by_cases hc : l ≠ l' ∨ groupLength types g ≠ groupLength types g'
  · rw [if_pos hc, if_pos hc]; rfl
  · rw [if_neg hc, if_neg hc]
    simp only [bind, StateT.bind, get, getThe, MonadStateOf.get, StateT.get, pure]
    cases s.mark (x, y) with
    | absent =>
      simp only
      by_cases hm : knownMismatch st st' = true
      · rw [if_pos hm, if_pos hm]; rfl
      · rw [if_neg hm, if_neg hm]; rfl
    | _ => rfl

section

variable {s : EqState} {p q : Nat × Nat} {m : PairMark} {a b : Nat}

@[simp] theorem EqState.setMark_same : (s.setMark p m).mark p = m := by simp [setMark]

theorem EqState.setMark_other (h : q ≠ p) : (s.setMark p m).mark q = s.mark q := by
  simp [setMark, h]

@[simp] theorem EqState.introduce_same : (s.introduce p).mark p = .active := by
  simp [introduce, setMark]

theorem EqState.introduce_other (h : q ≠ p) : (s.introduce p).mark q = s.mark q := by
  simp [introduce, setMark, h]

theorem tracks_introduce (h : s.mark p = .absent) : Tracks s (s.introduce p) :=
  ⟨[p], rfl, by simpa using h, fun q hq => EqState.introduce_other (by simpa using hq)⟩

/-- Closing a pair that was introduced on the way. -/
theorem Tracks.setMark {t : EqState} (h : Tracks s t) (h0 : s.mark p = .absent)
    (hp : t.mark p ≠ .absent) : Tracks s (t.setMark p m) := by
  obtain ⟨more, hi, ha, hs⟩ := h
  refine ⟨more, hi, ha, fun q hq => ?_⟩
  have : q ≠ p := by
    rintro rfl; exact hp (by rw [hs q hq, h0])
  rw [EqState.setMark_other this, hs q hq]

end

/-- The scan of the group pair: after it the first member pair is marked, and when the pair being
compared is the first member pair, all member pairs are. Without a scan the first member pair was
marked before. -/
theorem pairComparisons_first {x y g g' l : Nat} {st st' : SubType}
    {s t : EqState}
    (hall : AllHold (fun a b => a = b ∨ Marked t a b) (pairComparisons types g g' st st' s))
    (hx : AtPos types x g l st) (hy : AtPos types y g' l st')
    (hlen : groupLength types g = groupLength types g') (hne : x ≠ y) (hs : NoRefuted s)
    (hst : ∀ a b, Marked s a b → Marked t a b) (hself : Marked t x y) :
    Marked t (typeGroupBase types g) (typeGroupBase types g') ∧
      (s.mark (x, y) = .absent → l = 0 → ∀ k < groupLength types g,
        Marked t (typeGroupBase types g + k) (typeGroupBase types g' + k)) := by
  have hl := hx.lt_groupLength
  have hxi := hx.index
  have hyi := hy.index
  unfold pairComparisons at hall
  split at hall
  · have hmem : ∀ k < groupLength types g,
        Marked t (typeGroupBase types g + k) (typeGroupBase types g' + k) := by
      intro k hk
      have := (allHold_append.1 hall).1 _
        (List.mem_map.2 ⟨k, List.mem_range.2 hk, rfl⟩)
      exact Or.resolve_left this (by omega)
    exact ⟨by simpa using hmem 0 (by omega), fun _ _ => hmem⟩
  · rename_i hscan
    rw [not_and_or] at hscan
    rcases hscan with hone | hfirst
    · -- a group of one member: the pair itself is the first member pair
      have hl0 : l = 0 := by omega
      have hbase : Marked t (typeGroupBase types g) (typeGroupBase types g') := by
        rw [hxi, hyi, hl0] at hself; exact hself
      refine ⟨hbase, fun _ _ k hk => ?_⟩
      obtain rfl : k = 0 := by omega
      exact hbase
    · refine ⟨hst _ _ (hs.marked hfirst), fun habs hl0 => ?_⟩
      rw [hxi, hyi, hl0] at habs
      exact absurd habs hfirst

/-- A call introduces its own pair and the pairs of the nested calls; when it succeeds its own pair
is consistent with all of them. -/
theorem eqType_run (types : List RecType) : ∀ (fuel x y : Nat) (s : EqState),
    EqRun types x y s (eqType types fuel x y s).1 (eqType types fuel x y s).2
  | 0, x, y, s => ⟨Tracks.refl s, fun h => by cases h⟩
  | fuel + 1, x, y, s => by
    by_cases hne : x = y
    · subst hne
      rw [eqType, if_pos rfl]
      exact ⟨Tracks.refl s, fun _ hs => ⟨.inl rfl, Extends.refl hs⟩⟩
    by_cases hin : x < (flatSubTypes types).length ∧ y < (flatSubTypes types).length
    swap
    · rw [eqType_outside hne hin]
      exact ⟨Tracks.refl s, fun h => by cases h⟩
    obtain ⟨g, l, st, hx⟩ := exists_atPos hin.1
    obtain ⟨g', l', st', hy⟩ := exists_atPos hin.2
    rw [eqType_at hne hx hy]
    split
    · exact ⟨Tracks.refl s, fun h => by cases h⟩
    rename_i hpos
    rw [not_or, not_not, not_not] at hpos
    obtain ⟨rfl, hlen⟩ := hpos
    have hkeep : s.mark (x, y) = .active ∨ s.mark (x, y) = .proven → EqRun types x y s true s :=
      fun h => ⟨Tracks.refl s, fun _ hs => ⟨.inr h, Extends.refl hs⟩⟩
    split
    · exact hkeep (.inl ‹_›)
    · exact hkeep (.inr ‹_›)
    · exact ⟨Tracks.refl s, fun h => by cases h⟩
    rename_i habs
    split
    · exact ⟨Tracks.refl s, fun h => by cases h⟩
    rename_i hmis
    rw [Bool.not_eq_true] at hmis
    obtain ⟨htr, hok⟩ := runComparisons_run (eqType_run types fuel)
      (pairComparisons types g g' st st' s) (s.introduce (x, y))
    generalize hr : runComparisons (eqType types fuel) (pairComparisons types g g' st st' s)
      (s.introduce (x, y)) = r at htr hok
    have hact : r.2.mark (x, y) ≠ .absent := by
      obtain ⟨more, -, ha, hs⟩ := htr
      by_cases hm : (x, y) ∈ more
      · exact absurd (ha _ hm) (by simp)
      · rw [hs _ hm]; simp
    refine ⟨((tracks_introduce habs).trans htr).setMark habs hact, fun htrue hs => ?_⟩
    simp only at htrue
    have hs1 : NoRefuted (s.introduce (x, y)) := by
      intro p
      by_cases hp : p = (x, y)
      · subst hp; simp
      · rw [EqState.introduce_other hp]; exact hs p
    obtain ⟨hall, hext⟩ := hok htrue hs1
    -- proving the pair changes no membership in the marked set
    have hmk : ∀ a b, Marked (r.2.setMark (x, y) (if r.1 then .proven else .refuted)) a b ↔
        Marked r.2 a b := by
      intro a b
      unfold Marked
      by_cases hp : (a, b) = (x, y)
      · have := hext.marked x y (.inl (by simp))
        rw [hp, EqState.setMark_same, htrue]
        exact iff_of_true (.inr rfl) this
      · rw [EqState.setMark_other hp]
    have hfun : Marked (r.2.setMark (x, y) (if r.1 then .proven else .refuted)) = Marked r.2 := by
      funext a b; exact propext (hmk a b)
    have hself : Marked r.2 x y := hext.marked x y (.inl (by simp))
    have hs_le : ∀ a b, Marked s a b → Marked r.2 a b := by
      intro a b hm
      refine hext.marked a b ?_
      have hp : (a, b) ≠ (x, y) := by
        rintro hp; rw [Marked, hp, habs] at hm; simp at hm
      unfold Marked; rwa [EqState.introduce_other hp]
    refine ⟨.inr ((hmk x y).2 hself), ?_, ?_, ?_⟩
    · rw [hfun]; exact hs_le
    · intro p
      by_cases hp : p = (x, y)
      · subst hp; rw [EqState.setMark_same, htrue]; simp
      · rw [EqState.setMark_other hp]; exact hext.noRefuted p
    · rw [hfun]
      intro a b hm
      by_cases hp : (a, b) = (x, y)
      · obtain ⟨rfl, rfl⟩ := Prod.mk.inj hp
        refine .inr ⟨g, g', l, st, st', hx, hy, hlen, hmis, ?_, ?_, ?_⟩
        · exact (allHold_append.1 hall).2
        · exact (pairComparisons_first hall hx hy hlen hne hs hs_le hself).1
        · exact (pairComparisons_first hall hx hy hlen hne hs hs_le hself).2 habs
      · rcases hext.new a b hm with h | h
        · left; unfold Marked at h ⊢; rwa [EqState.introduce_other hp] at h
        · exact .inr h

/-! ## Equal types pass -/

section

variable {types : List RecType} {x y g g' l l' : Nat} {st st' : SubType} {rt rt' : RecType}

/-- Between groups with equal closed forms, equality of types is what the closed forms show. -/
theorem sameType_reflects (hrt : types[g]? = some rt) (hrt' : types[g']? = some rt')
    (hgroups : closeGroup (closedEnv types g) rt = closeGroup (closedEnv types g') rt') :
    Reflects types g g' (SameType types) := by
  intro x y hx hy
  rw [closeIdx_eq_iff hx hy]
  refine and_congr_right fun hr => ?_
  obtain ⟨xi, xr⟩ := x
  obtain ⟨yi, yr⟩ := y
  cases hr
  cases xr
  · simp only [IdxInScope, Bool.false_eq_true, if_false] at hx hy
    simp only [scopedFlat, Bool.false_eq_true, if_false, Matches, hx, hy, forall_const]
    exact ⟨fun h => ⟨h, fun k _ k' _ hk => by omega⟩, fun h => h.1⟩
  · simp only [IdxInScope, if_true, groupLength_of_get hrt, groupLength_of_get hrt'] at hx hy
    obtain ⟨st, -, hp⟩ := atPos_member hrt hx
    obtain ⟨st', -, hq⟩ := atPos_member hrt' hy
    simp only [scopedFlat, if_true, sameType_iff hp hrt hq hrt', hgroups, true_and]
    constructor
    · rintro rfl; exact ⟨fun h => by omega, fun k _ k' _ hk hk' => by omega⟩
    · rintro ⟨-, h⟩
      exact h _ hp.lt_groupLength _ hq.lt_groupLength rfl rfl

/-- All comparisons of a pair of equal types hold. -/
theorem pairComparisons_hold (hs : TypesInScope types) (hx : AtPos types x g l st)
    (hy : AtPos types y g' l' st') (h : SameType types x y) (s : EqState) :
    knownMismatch st st' = false ∧ AllHold (SameType types) (pairComparisons types g g' st st' s) := by
  obtain ⟨rt, hrt, hst⟩ := hx.member
  obtain ⟨rt', hrt', hst'⟩ := hy.member
  obtain ⟨hgroups, rfl⟩ := (sameType_iff hx hrt hy hrt').1 h
  have hmem : closeSubType (closedEnv types g) st = closeSubType (closedEnv types g') st' := by
    have := congrArg (·[l]?) hgroups
    simpa [closeGroup, hst, hst'] using this
  obtain ⟨hmis, hall⟩ := (eqSubType_iff (sameType_reflects hrt hrt' hgroups) hx.group_lt hy.group_lt
    (hs hx) (hs hy)).2 hmem
  refine ⟨hmis, allHold_append.2 ⟨?_, hall⟩⟩
  split
  · intro c hc
    obtain ⟨k, hk, rfl⟩ := List.mem_map.1 hc
    rw [List.mem_range, groupLength_of_get hrt] at hk
    have hlen := congrArg List.length hgroups
    simp only [closeGroup, List.length_map] at hlen
    obtain ⟨_, -, hp⟩ := atPos_member hrt hk
    obtain ⟨_, -, hq⟩ := atPos_member hrt' (hlen ▸ hk)
    exact (sameType_iff hp hrt hq hrt').2 ⟨hgroups, rfl⟩
  · exact allHold_nil

end

/-- The number of pairs a query can still introduce. -/
def freePairs (types : List RecType) (s : EqState) : Nat :=
  ((Finset.range (flatSubTypes types).length ×ˢ Finset.range (flatSubTypes types).length).filter
    fun p => s.mark p = .absent).card

theorem freePairs_le {s t : EqState} (h : Tracks s t) :
    freePairs types t ≤ freePairs types s := by
  obtain ⟨more, -, ha, hs⟩ := h
  refine Finset.card_le_card fun p hp => ?_
  rw [Finset.mem_filter] at hp ⊢
  refine ⟨hp.1, ?_⟩
  by_cases hm : p ∈ more
  · exact ha p hm
  · rw [← hs p hm]; exact hp.2

theorem freePairs_introduce {x y : Nat}
    (hx : x < (flatSubTypes types).length) (hy : y < (flatSubTypes types).length)
    (habs : s.mark (x, y) = .absent) : freePairs types (s.introduce (x, y)) < freePairs types s := by
  refine Finset.card_lt_card ⟨fun p hp => ?_, fun hsub => ?_⟩
  · rw [Finset.mem_filter] at hp ⊢
    refine ⟨hp.1, ?_⟩
    by_cases h : p = (x, y)
    · rw [h]; exact habs
    · rw [← EqState.introduce_other h]; exact hp.2
  · have hin : (x, y) ∈ (Finset.range (flatSubTypes types).length ×ˢ
        Finset.range (flatSubTypes types).length).filter fun p => s.mark p = .absent := by
      simp [hx, hy, habs]
    have := (Finset.mem_filter.1 (hsub hin)).2
    simp at this

theorem runComparisons_complete {fuel : Nat}
    (heq : ∀ x y s, SameType types x y → NoRefuted s → freePairs types s < fuel →
      (eqType types fuel x y s).1 = true) :
    ∀ (cs : List Comparison) (s : EqState), AllHold (SameType types) cs → NoRefuted s →
      freePairs types s < fuel → (runComparisons (eqType types fuel) cs s).1 = true
  | [], _, _, _, _ => rfl
  | .test b :: cs, s, hall, hs, hf => by
    obtain ⟨rfl, hall'⟩ := allHold_test.1 hall
    exact runComparisons_complete heq cs s hall' hs hf
  | .types x y :: cs, s, hall, hs, hf => by
    obtain ⟨hxy, hall⟩ := allHold_types.1 hall
    have htrue := heq x y s hxy hs hf
    obtain ⟨htr, hok⟩ := eqType_run types fuel x y s
    rw [runComparisons_types, if_pos htrue]
    exact runComparisons_complete heq cs _ hall (hok htrue hs).2.noRefuted
      (Nat.lt_of_le_of_lt (freePairs_le htr) hf)

/-- On equal types the test answers true, as long as the fuel exceeds the pairs it can introduce. -/
theorem eqType_complete (hs : TypesInScope types) :
    ∀ (fuel x y : Nat) (s : EqState), SameType types x y → NoRefuted s → freePairs types s < fuel →
      (eqType types fuel x y s).1 = true
  | 0, _, _, _, _, _, hf => absurd hf (Nat.not_lt_zero _)
  | fuel + 1, x, y, s, hxy, hr, hf => by
    by_cases hne : x = y
    · subst hne; rw [eqType, if_pos rfl]; rfl
    have hlt : ∀ {i d}, (closedTypes types)[i]? = some d → i < (flatSubTypes types).length := by
      intro i d h
      rw [← closedTypes_length]; exact (List.getElem?_eq_some_iff.1 h).1
    obtain ⟨d, hd, hd'⟩ := id hxy
    obtain ⟨g, l, st, hx⟩ := exists_atPos (hlt hd)
    obtain ⟨g', l', st', hy⟩ := exists_atPos (hlt hd')
    obtain ⟨rfl, hlen⟩ := position_eq (T := fun _ _ => False) (.inl hxy) hx hy
    obtain ⟨hmis, hall⟩ := pairComparisons_hold hs hx hy hxy s
    rw [eqType_at hne hx hy, if_neg (by simp [hlen])]
    split
    · rfl
    · rfl
    · exact absurd ‹_› (hr (x, y))
    · rename_i habs
      rw [if_neg (by simp [hmis])]
      have hs1 : NoRefuted (s.introduce (x, y)) := by
        intro p
        by_cases hp : p = (x, y)
        · subst hp; simp
        · rw [EqState.introduce_other hp]; exact hr p
      have hfree := freePairs_introduce (hlt hd) (hlt hd') habs
      exact runComparisons_complete (eqType_complete hs fuel) _ _ hall hs1 (by omega)

/-! ## Queries -/

/-- The marks left between queries: nothing refuted, and marked pairs are equal types. -/
def CommittedMarks (types : List RecType) (mark : Nat × Nat → PairMark) : Prop :=
  NoRefuted ⟨mark, []⟩ ∧ ∀ a b, Marked ⟨mark, []⟩ a b → SameType types a b

theorem committed_empty (types : List RecType) : CommittedMarks types fun _ => .absent :=
  ⟨fun _ => by simp, fun _ _ h => by simp [Marked] at h⟩

theorem eqRoot_spec (hs : TypesInScope types) {mark : Nat × Nat → PairMark}
    (hm : CommittedMarks types mark) {x : Nat} (hx : x < (flatSubTypes types).length) (y : Nat) :
    ((eqRoot types x y mark).1 = true ↔ SameType types x y) ∧
      CommittedMarks types (eqRoot types x y mark).2 := by
  have hn : freePairs types ⟨mark, []⟩ < (flatSubTypes types).length * (flatSubTypes types).length + 1 := by
    have := Finset.card_filter_le (Finset.range (flatSubTypes types).length ×ˢ
      Finset.range (flatSubTypes types).length) fun p => mark p = .absent
    rw [Finset.card_product, Finset.card_range] at this
    exact Nat.lt_succ_of_le this
  unfold eqRoot
  simp only
  generalize (flatSubTypes types).length * (flatSubTypes types).length + 1 = fuel at hn ⊢
  obtain ⟨htr, hok⟩ := eqType_run types fuel x y ⟨mark, []⟩
  have hcomplete := eqType_complete hs fuel x y ⟨mark, []⟩
  generalize eqType types fuel x y ⟨mark, []⟩ = r at htr hok hcomplete ⊢
  cases hr : r.1 with
  | true =>
    obtain ⟨hxy, hext⟩ := hok hr hm.1
    have hT : ∀ a b, Marked r.2 a b → SameType types a b ∨ Consistent types (Marked r.2) a b :=
      fun a b h => (hext.new a b h).imp_left (hm.2 a b)
    have hall : ∀ a b, Marked r.2 a b → SameType types a b := by
      intro a b hab
      rcases hT a b hab with h | h
      · exact h
      · obtain ⟨g, _, l, st, _, hp, -⟩ := h.holds
        exact sameType_of_closed hs hT g hp hab
    refine ⟨⟨fun _ => ?_, fun _ => rfl⟩, hext.noRefuted, hall⟩
    rcases hxy with rfl | hxy
    · exact sameType_refl hx
    · exact hall x y hxy
  | false =>
    -- the rollback gives back the marks the query started from
    have hback : (fun p => if p ∈ r.2.introduced then PairMark.absent else r.2.mark p) = mark := by
      obtain ⟨more, hi, ha, hs⟩ := htr
      funext p
      rw [hi, List.nil_append]
      split
      · exact (ha p ‹_›).symm
      · exact hs p ‹_›
    rw [if_neg Bool.false_ne_true]
    refine ⟨⟨fun h => (Bool.false_ne_true h).elim, fun hsame => ?_⟩, ?_⟩
    · rw [hcomplete hsame hm.1 hn] at hr; cases hr
    · rw [hback]; exact hm

/-- One query answers iso-recursive equality and leaves committed marks. -/
theorem query_spec (hs : TypesInScope types) {mark : Nat × Nat → PairMark}
    (hm : CommittedMarks types mark) (a b : TypeIdx) :
    ((typeIdxEquivalentWithState types a b mark).1 = true ↔
      ∃ x y, flatTypeIdxInRecGroup types a none = some x ∧
        flatTypeIdxInRecGroup types b none = some y ∧ SameType types x y) ∧
      CommittedMarks types (typeIdxEquivalentWithState types a b mark).2 := by
  unfold typeIdxEquivalentWithState
  split
  · rename_i x y hx hy
    obtain ⟨hiff, hm'⟩ := eqRoot_spec hs hm (flatTypeIdx_lt hx) y
    refine ⟨hiff.trans ⟨fun h => ⟨x, y, hx, hy, h⟩, ?_⟩, hm'⟩
    rintro ⟨x', y', hx', hy', h⟩
    cases hx.symm.trans hx'
    cases hy.symm.trans hy'
    exact h
  · rename_i hnone
    refine ⟨⟨fun h => (Bool.false_ne_true h).elim, ?_⟩, hm⟩
    rintro ⟨x, y, hx, hy, -⟩
    exact (hnone x y hx hy).elim

theorem typeIdxEquivalent_iff (hs : TypesInScope types) {i j : Nat}
    (hi : i < (flatSubTypes types).length) (hj : j < (flatSubTypes types).length) :
    typeIdxEquivalent types { index := i } { index := j } = true ↔ SameType types i j := by
  rw [typeIdxEquivalent, (query_spec hs (committed_empty types) _ _).1,
    flatTypeIdxInRecGroup_none hi, flatTypeIdxInRecGroup_none hj]
  constructor
  · rintro ⟨x, y, hx, hy, h⟩; cases hx; cases hy; exact h
  · exact fun h => ⟨i, j, rfl, rfl, h⟩

/-- From committed marks every query of a batch answers as a fresh one. -/
theorem batch_eq_fresh (hs : TypesInScope types) :
    ∀ (queries : List (TypeIdx × TypeIdx)) {mark : Nat × Nat → PairMark}, CommittedMarks types mark →
      typeIdxEquivalentBatch types queries mark =
        queries.map fun q => typeIdxEquivalent types q.1 q.2
  | [], _, _ => rfl
  | (a, b) :: queries, mark, hm => by
    obtain ⟨hiff, hm'⟩ := query_spec hs hm a b
    have hfresh := (query_spec hs (committed_empty types) a b).1
    have hans : (typeIdxEquivalentWithState types a b mark).1 = typeIdxEquivalent types a b :=
      Bool.eq_iff_iff.2 (hiff.trans hfresh.symm)
    rw [typeIdxEquivalentBatch, List.map_cons, batch_eq_fresh hs queries hm', hans]

/-- In a validated module the test on defined types is iso-recursive equality, hence an equivalence
relation, and a batch of queries that share one state answers as fresh queries do. -/
theorem typeIdxEquivalent_isoRecursive {types : List RecType} {ctx : TypeContext}
    (hv : validateTypeSection types = .ok ctx) :
    (∀ i j, i < (flatSubTypes types).length → j < (flatSubTypes types).length →
      (typeIdxEquivalent types { index := i } { index := j } = true ↔ SameType types i j)) ∧
    Equivalence (fun i j : Fin (flatSubTypes types).length =>
      typeIdxEquivalent types { index := i } { index := j } = true) ∧
    ∀ queries : List (TypeIdx × TypeIdx),
      typeIdxEquivalentBatch types queries (fun _ => .absent) =
        queries.map fun q => typeIdxEquivalent types q.1 q.2 := by
  have hs := (validateTypeSection_inScope hv).2
  refine ⟨fun i j hi hj => typeIdxEquivalent_iff hs hi hj, ⟨fun i => ?_, fun {i j} h => ?_,
    fun {i j k} h h' => ?_⟩, fun queries => batch_eq_fresh hs queries (committed_empty types)⟩
  · exact (typeIdxEquivalent_iff hs i.2 i.2).2 (sameType_refl i.2)
  · rw [typeIdxEquivalent_iff hs i.2 j.2] at h
    exact (typeIdxEquivalent_iff hs j.2 i.2).2 h.symm
  · rw [typeIdxEquivalent_iff hs i.2 j.2] at h
    rw [typeIdxEquivalent_iff hs j.2 k.2] at h'
    exact (typeIdxEquivalent_iff hs i.2 k.2).2 (h.trans h')

/-- A struct and a function type that refer to each other. -/
def mutualGroup : RecType :=
  { subTypes := [
      { final := false, supers := [], describes := none, descriptor := none, hasPrefix := true,
        comp := .struct [{ storage := .val (.ref (mkRef true (.typeIndex ⟨1, true⟩) false)),
                           mutability := .var }] },
      { final := true, supers := [], describes := none, descriptor := none, hasPrefix := false,
        comp := .func [.ref (mkRef false (.typeIndex ⟨0, true⟩) false)] [.i32] }] }

theorem typeIdxEquivalent_mutualGroups :
    (typeIdxEquivalent [mutualGroup, mutualGroup] { index := 1 } { index := 3 } = true ↔
      SameType [mutualGroup, mutualGroup] 1 3) ∧
    typeIdxEquivalentBatch [mutualGroup, mutualGroup]
        [({ index := 0 }, { index := 1 }), ({ index := 1 }, { index := 3 })] (fun _ => .absent) =
      [false, true] := by
  have hv : validateTypeSection [mutualGroup, mutualGroup] =
    .ok (TypeContext.ofTypes [mutualGroup, mutualGroup]) := rfl
  have h := typeIdxEquivalent_isoRecursive hv
  exact ⟨h.1 1 3 (by decide) (by decide), (h.2.2 _).trans (by decide)⟩

end Wago.Wasm
