/-
Closed (rolled-up) recursion groups, the meaning of defined types in WebAssembly 3.0: inside a
group a member is named by its position, and every reference to an earlier type is replaced by the
closed group of that type and its position in it. Two defined types are the same type when they are
the same position of equal closed groups.
-/
import Wago.Wasm.TypeIndex

namespace Wago.Wasm

mutual

inductive ClosedIdx
  | member (k : Nat)
  | outer (group : List ClosedSubType) (k : Nat)
  | dangling

inductive ClosedHeap
  | abs (a : AbsHeapType)
  | idx (i : ClosedIdx)
  | defType (coord : Option (Nat × Nat))
  | bottom

inductive ClosedVal
  | num (n : NumType)
  | vec
  | ref (nullable exact : Bool) (heap : ClosedHeap)
  | bot

inductive ClosedField
  | val (v : ClosedVal) (m : Mut)
  | packed (p : PackType) (m : Mut)

inductive ClosedComp
  | array (field : ClosedField)
  | struct (fields : List ClosedField)
  | func (params results : List ClosedVal)

inductive ClosedSubType
  | mk (final : Bool) (supers : List ClosedIdx) (describes descriptor : Option ClosedIdx)
    (comp : ClosedComp)

end

/-- A defined type: a position in a closed group. -/
abbrev ClosedDef := List ClosedSubType × Nat

section

variable (env : List ClosedDef)

/-- `env` holds the closed types declared before the group. -/
def closeIdx (idx : TypeIdx) : ClosedIdx :=
  if idx.isRec then .member idx.index
  else
    match env[idx.index]? with
    | some (group, k) => .outer group k
    | none => .dangling

def closeHeap : HeapType → ClosedHeap
  | .abs a => .abs a
  | .typeIndex idx => .idx (closeIdx env idx)
  | .defType d => .defType (d.map fun c => (c.group, c.member))
  | .bottom => .bottom

def closeVal : ValType → ClosedVal
  | .num n => .num n
  | .vec => .vec
  | .ref r => .ref r.nullable r.exact (closeHeap env r.heap)
  | .bot => .bot

def closeField (f : FieldType) : ClosedField :=
  match f.storage with
  | .val v => .val (closeVal env v) f.mutability
  | .packed p => .packed p f.mutability

def closeComp : CompType → ClosedComp
  | .array f => .array (closeField env f)
  | .struct fs => .struct (fs.map (closeField env))
  | .func ps rs => .func (ps.map (closeVal env)) (rs.map (closeVal env))

def closeSubType (st : SubType) : ClosedSubType :=
  .mk st.final (st.supers.map (closeIdx env)) (st.describes.map (closeIdx env))
    (st.descriptor.map (closeIdx env)) (closeComp env st.comp)

def closeGroup (rt : RecType) : List ClosedSubType := rt.subTypes.map (closeSubType env)

end

/-- One value for each type, in flat index order, after those in `env`: the values of a group are
computed from those of the types declared before it. -/
def rollFrom {δ : Type} (roll : List δ → RecType → Nat → δ) (env : List δ) : List RecType → List δ
  | [] => env
  | rt :: rts => rollFrom roll (env ++ (List.range rt.subTypes.length).map (roll env rt)) rts

/-- The values of the types declared before group `g`. -/
def rolledEnv {δ : Type} (roll : List δ → RecType → Nat → δ) (types : List RecType) (g : Nat) : List δ :=
  rollFrom roll [] (types.take g)

def closeMember (env : List ClosedDef) (rt : RecType) (k : Nat) : ClosedDef := (closeGroup env rt, k)

/-- The closed types of all groups. -/
def closedTypes (types : List RecType) : List ClosedDef := rollFrom closeMember [] types

/-- Iso-recursive equality of two defined types. -/
def SameType (types : List RecType) (i j : Nat) : Prop :=
  ∃ d, (closedTypes types)[i]? = some d ∧ (closedTypes types)[j]? = some d

theorem SameType.symm {types : List RecType} {i j : Nat} : SameType types i j → SameType types j i
  | ⟨d, hi, hj⟩ => ⟨d, hj, hi⟩

theorem SameType.trans {types : List RecType} {i j k : Nat} :
    SameType types i j → SameType types j k → SameType types i k
  | ⟨d, hi, hj⟩, ⟨e, hj', hk⟩ => ⟨d, hi, by rw [hk, ← hj', hj]⟩

/-! ## Rolled values of a section -/

section

variable {δ : Type} {roll : List δ → RecType → Nat → δ} {types : List RecType} {rt : RecType} {i g l : Nat}

theorem rollFrom_append : ∀ (env : List δ) (as bs : List RecType),
    rollFrom roll env (as ++ bs) = rollFrom roll (rollFrom roll env as) bs
  | _, [], _ => rfl
  | _, _ :: as, bs => rollFrom_append _ as bs

theorem rollFrom_extends : ∀ (env : List δ) (ts : List RecType),
    ∃ later, rollFrom roll env ts = env ++ later
  | _, [] => ⟨[], by simp [rollFrom]⟩
  | env, rt :: ts => by
    obtain ⟨later, h⟩ := rollFrom_extends (env ++ (List.range rt.subTypes.length).map (roll env rt)) ts
    exact ⟨_, by rw [rollFrom, h, List.append_assoc]⟩

theorem rollFrom_length : ∀ (env : List δ) (ts : List RecType),
    (rollFrom roll env ts).length = env.length + (ts.map (·.subTypes.length)).sum
  | _, [] => rfl
  | env, rt :: ts => by
    rw [rollFrom, rollFrom_length]
    simp [Nat.add_assoc]

theorem rolledEnv_length (types : List RecType) (g : Nat) :
    (rolledEnv roll types g).length = typeGroupBase types g := by
  rw [rolledEnv, rollFrom_length, typeGroupBase]; simp

theorem rolled_length (types : List RecType) :
    (rollFrom roll [] types).length = (flatSubTypes types).length := by
  have h := @rolledEnv_length _ roll types types.length
  rwa [rolledEnv, List.take_length, ← flatSubTypes_length] at h

/-- Later groups leave the values of the earlier ones as they are. -/
theorem rolledEnv_get (h : i < typeGroupBase types g) :
    (rolledEnv roll types g)[i]? = (rollFrom roll [] types)[i]? := by
  have hsplit : rollFrom roll [] types = rollFrom roll (rolledEnv roll types g) (types.drop g) := by
    rw [rolledEnv, ← rollFrom_append, List.take_append_drop]
  obtain ⟨later, hl⟩ := @rollFrom_extends _ roll (rolledEnv roll types g) (types.drop g)
  rw [hsplit, hl, List.getElem?_append_left (by rwa [rolledEnv_length])]

theorem rolled_get (hrt : types[g]? = some rt) (hl : l < rt.subTypes.length) :
    (rollFrom roll [] types)[typeGroupBase types g + l]? = some (roll (rolledEnv roll types g) rt l) := by
  obtain ⟨hg, rfl⟩ := List.getElem?_eq_some_iff.1 hrt
  rw [← rolledEnv_get (g := g + 1) (by rw [typeGroupBase_succ hrt]; omega)]
  have htake : types.take (g + 1) = types.take g ++ [types[g]] := by simp
  rw [rolledEnv, htake, rollFrom_append, rollFrom, rollFrom,
    List.getElem?_append_right (by rw [← rolledEnv, rolledEnv_length]; omega)]
  rw [← rolledEnv, rolledEnv_length, Nat.add_sub_cancel_left]
  simp [hl]

end

/-! ## The closed types of a section -/

/-- The closed types declared before group `g`. -/
def closedEnv (types : List RecType) (g : Nat) : List ClosedDef := rolledEnv closeMember types g

section

variable {types : List RecType} {rt rt' : RecType} {i j g g' l l' : Nat} {st st' : SubType}

theorem closedEnv_length (types : List RecType) (g : Nat) :
    (closedEnv types g).length = typeGroupBase types g := rolledEnv_length types g

theorem closedTypes_length (types : List RecType) :
    (closedTypes types).length = (flatSubTypes types).length := rolled_length types

theorem closedEnv_get (h : i < typeGroupBase types g) :
    (closedEnv types g)[i]? = (closedTypes types)[i]? := rolledEnv_get h

theorem closedTypes_get (hrt : types[g]? = some rt) (hl : l < rt.subTypes.length) :
    (closedTypes types)[typeGroupBase types g + l]? = some (closeGroup (closedEnv types g) rt, l) :=
  rolled_get hrt hl

theorem sameType_iff (hi : AtPos types i g l st) (hrt : types[g]? = some rt)
    (hj : AtPos types j g' l' st') (hrt' : types[g']? = some rt') :
    SameType types i j ↔
      closeGroup (closedEnv types g) rt = closeGroup (closedEnv types g') rt' ∧ l = l' := by
  have hl := hi.lt_groupLength
  have hl' := hj.lt_groupLength
  rw [groupLength_of_get hrt] at hl
  rw [groupLength_of_get hrt'] at hl'
  rw [SameType, hi.index, hj.index, closedTypes_get hrt hl, closedTypes_get hrt' hl']
  constructor
  · rintro ⟨d, h1, h2⟩
    have := h1.trans h2.symm
    simpa using this
  · rintro ⟨h1, rfl⟩; exact ⟨_, rfl, by rw [h1]⟩

theorem sameType_refl (h : i < (flatSubTypes types).length) : SameType types i i :=
  ⟨_, List.getElem?_eq_getElem (by rwa [closedTypes_length]),
    List.getElem?_eq_getElem (by rwa [closedTypes_length])⟩

/-! ## Closed forms of scoped syntax -/

/-- Flat indexes `a`, used in group `g`, and `b`, used in group `g'`, close to the same reference:
outside the groups they are the same type, inside them the same position. -/
def Matches (types : List RecType) (g g' a b : Nat) : Prop :=
  (a < typeGroupBase types g → b < typeGroupBase types g' → SameType types a b) ∧
    ∀ k < groupLength types g, ∀ k' < groupLength types g',
      a = typeGroupBase types g + k → b = typeGroupBase types g' + k' → k = k'

theorem closeIdx_outer (h : i < typeGroupBase types g) :
    ∃ d : ClosedDef, (closedTypes types)[i]? = some d ∧
      closeIdx (closedEnv types g) { index := i } = .outer d.1 d.2 := by
  obtain ⟨d, hd⟩ : ∃ d, (closedEnv types g)[i]? = some d :=
    ⟨_, List.getElem?_eq_getElem (by rwa [closedEnv_length])⟩
  exact ⟨d, by rw [← closedEnv_get h, hd], by simp [closeIdx, hd]⟩

theorem closeIdx_eq_iff {x y : TypeIdx} (hx : IdxInScope types g x) (hy : IdxInScope types g' y) :
    closeIdx (closedEnv types g) x = closeIdx (closedEnv types g') y ↔
      x.isRec = y.isRec ∧ Matches types g g' (scopedFlat types g x) (scopedFlat types g' y) := by
  obtain ⟨xi, xr⟩ := x
  obtain ⟨yi, yr⟩ := y
  cases xr <;> cases yr
  · simp only [IdxInScope, Bool.false_eq_true, if_false] at hx hy
    obtain ⟨d, hd, hcx⟩ := closeIdx_outer hx
    obtain ⟨e, he, hcy⟩ := closeIdx_outer hy
    simp only [hcx, hcy, Matches, scopedFlat, Bool.false_eq_true, if_false, hx, hy, true_and,
      forall_const, SameType, hd, he, ClosedIdx.outer.injEq]
    constructor
    · rintro ⟨h1, h2⟩
      exact ⟨⟨d, rfl, by rw [Prod.ext h1 h2]⟩, fun k _ k' _ h => by omega⟩
    · rintro ⟨⟨f, h1, h2⟩, -⟩
      simp only [Option.some.injEq] at h1 h2
      subst h1 h2; exact ⟨rfl, rfl⟩
  · simp only [IdxInScope, Bool.false_eq_true, if_false] at hx
    obtain ⟨d, -, hcx⟩ := closeIdx_outer hx
    rw [hcx, show closeIdx (closedEnv types g') ⟨yi, true⟩ = .member yi from rfl]; simp
  · simp only [IdxInScope, Bool.false_eq_true, if_false] at hy
    obtain ⟨e, -, hcy⟩ := closeIdx_outer hy
    rw [hcy, show closeIdx (closedEnv types g) ⟨xi, true⟩ = .member xi from rfl]; simp
  · simp only [IdxInScope, if_true] at hx hy
    simp only [closeIdx, if_true, ClosedIdx.member.injEq, Matches, scopedFlat, true_and]
    constructor
    · rintro rfl; exact ⟨fun h => by omega, fun k _ k' _ h h' => by omega⟩
    · rintro ⟨-, h⟩; exact h _ hx _ hy rfl rfl

end

end Wago.Wasm
