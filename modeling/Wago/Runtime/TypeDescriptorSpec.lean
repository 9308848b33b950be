/-
Descriptors stand for the types they were converted from. The equivalence test decides whether two
entries, of one module or of two, are the same position of equal closed groups: a reference out of a
group goes to an earlier one, so the marks of earlier groups are settled when a pair of groups is
compared, and only the pair itself is active. The walk over supertypes follows the declared chain.
-/
import Wago.Runtime.TypeDescriptor
import Wago.Wasm.SubtypeSpec
import Wago.Wasm.TypeDecode

namespace Wago.Runtime

open Wago.Wasm
open List hiding get

/-! ## What a type section converts to -/

def heapDesc (flat : TypeIdx → Nat) : HeapType → HeapTypeDescriptor
  | .typeIndex idx => { defined := true, typeIndex := flat idx }
  | .abs a => { abstractHeap := abstractHeapTypeFromWasm a }
  | _ => {}

def refDesc (flat : TypeIdx → Nat) (r : RefType) : ReferenceTypeDescriptor :=
  { nullable := r.nullable, exact := r.exact, heap := heapDesc flat r.heap }

def valDesc (flat : TypeIdx → Nat) : ValType → ValueTypeDescriptor
  | .num .i32 => { kind := .i32 }
  | .num .i64 => { kind := .i64 }
  | .num .f32 => { kind := .f32 }
  | .num .f64 => { kind := .f64 }
  | .vec => { kind := .v128 }
  | .ref r => { kind := .reference, ref := refDesc flat r }
  | .bot => {}

def fieldDesc (flat : TypeIdx → Nat) (f : FieldType) : FieldTypeDescriptor :=
  { storage :=
      match f.storage with
      | .packed .i8 => { packed := true, packedType := .i8 }
      | .packed .i16 => { packed := true, packedType := .i16 }
      | .val v => { value := valDesc flat v }
    mutable := f.mutability = .var }

def compDesc (flat : TypeIdx → Nat) : CompType → CompositeDescriptor
  | .func ps rs => .function (ps.map (valDesc flat)) (rs.map (valDesc flat))
  | .struct fs => .struct (fs.map (fieldDesc flat))
  | .array f => .array (fieldDesc flat f)

/-- The descriptor group of group `g`: the groups before it that have members. -/
def descGroup (types : List RecType) (g : Nat) : Nat := (types.take g).countP (·.subTypes ≠ [])

def subDesc (types : List RecType) (g : Nat) (st : SubType) : DefinedTypeDescriptor :=
  { recGroup := descGroup types g
    final := st.final
    supers := st.supers.map (scopedFlat types g)
    describes := st.describes.map (scopedFlat types g)
    descriptor := st.descriptor.map (scopedFlat types g)
    comp := compDesc (scopedFlat types g) st.comp }

def descriptorsOf (types : List RecType) : List DefinedTypeDescriptor :=
  (flatSubTypes types).map fun (st, g) => subDesc types g st

/-! ## The conversion of validated types -/

/-- A heap type of the binary format whose index, if it has one, satisfies `P`. -/
def HeapUses (P : TypeIdx → Prop) : HeapType → Prop
  | .abs _ => True
  | .typeIndex idx => P idx
  | _ => False

def ValUses (P : TypeIdx → Prop) : ValType → Prop
  | .ref r => HeapUses P r.heap
  | .bot => False
  | _ => True

def FieldUses (P : TypeIdx → Prop) (f : FieldType) : Prop :=
  match f.storage with
  | .val v => ValUses P v
  | .packed _ => True

def CompUses (P : TypeIdx → Prop) : CompType → Prop
  | .func ps rs => (∀ v ∈ ps, ValUses P v) ∧ ∀ v ∈ rs, ValUses P v
  | .struct fs => ∀ f ∈ fs, FieldUses P f
  | .array f => FieldUses P f

section

variable {types : List RecType} {g : Nat}

theorem valUses_of_scope {v : ValType} (hs : ValInScope types g v) (hp : PlainVal v) :
    ValUses (IdxInScope types g) v := by
  cases v with
  | ref r =>
    obtain ⟨nullable, exact, bare, heap⟩ := r
    cases heap with
    | abs a => trivial
    | typeIndex idx => exact hs
    | _ => exact hp.elim
  | bot => exact hs
  | _ => trivial

theorem fieldUses_of_scope {f : FieldType} (hs : FieldInScope types g f) (hp : PlainField f) :
    FieldUses (IdxInScope types g) f := by
  obtain ⟨storage, m⟩ := f
  cases storage with
  | val v => exact valUses_of_scope (v := v) hs hp
  | packed p => trivial

theorem compUses_of_scope {ct : CompType} (hs : CompInScope types g ct) (hp : PlainComp ct) :
    CompUses (IdxInScope types g) ct := by
  cases ct with
  | func ps rs =>
    obtain ⟨⟨-, hps⟩, -, hrs⟩ := hp
    exact ⟨fun v hv => valUses_of_scope (hs.1 v hv) (hps v hv),
      fun v hv => valUses_of_scope (hs.2 v hv) (hrs v hv)⟩
  | struct fs => exact fun f hf => fieldUses_of_scope (hs f hf) (hp.2 f hf)
  | array f => exact fieldUses_of_scope (f := f) hs hp

end

theorem convertEach_ok {α β : Type} {what : String} {f : α → Except String β} {h : α → β} :
    ∀ {as : List α} {i : Nat}, (∀ a ∈ as, f a = .ok (h a)) → convertEach what f i as = .ok (as.map h)
  | [], _, _ => rfl
  | a :: as, i, hall => by
    obtain ⟨ha, has⟩ := forall_mem_cons.1 hall
    rw [convertEach, ha, convertEach_ok has]
    rfl

section

variable {types : List RecType} {group : Option Nat} {flat : TypeIdx → Nat} {P : TypeIdx → Prop}

variable (hP : ∀ idx, P idx → Converter.typeIndex types idx group = .ok (flat idx))

include hP

/-- Where indexes that satisfy `P` resolve to `flat`, a value type that uses only such indexes
converts to its descriptor. -/
theorem valueType_ok {v : ValType} (hv : ValUses P v) : Converter.valueType types v group = .ok (valDesc flat v) := by
  cases v with
  | num n => cases n <;> rfl
  | vec => rfl
  | bot => exact hv.elim
  | ref r =>
    obtain ⟨nullable, exact, bare, heap⟩ := r
    cases heap with
    | abs a => rfl
    | typeIndex idx =>
      simp only [Converter.valueType, Converter.refType, Converter.heapType, hP idx hv]
      rfl
    | _ => exact hv.elim

theorem fieldType_ok {f : FieldType} (hf : FieldUses P f) : Converter.fieldType types f group = .ok (fieldDesc flat f) := by
  obtain ⟨storage, m⟩ := f
  cases storage with
  | packed p => cases p <;> rfl
  | val v =>
    have hv : Converter.valueType types v group = .ok (valDesc flat v) := valueType_ok hP hf
    simp only [Converter.fieldType, hv]
    rfl

theorem compType_ok {ct : CompType} (hct : CompUses P ct) : Converter.compType types ct group = .ok (compDesc flat ct) := by
  cases ct with
  | func ps rs =>
    simp only [Converter.compType, Converter.valueTypes,
      convertEach_ok fun v hv => valueType_ok hP (hct.1 v hv),
      convertEach_ok fun v hv => valueType_ok hP (hct.2 v hv)]
    rfl
  | struct fs =>
    simp only [Converter.compType, convertEach_ok fun f hf => fieldType_ok hP (hct f hf)]
    rfl
  | array f =>
    simp only [Converter.compType, fieldType_ok hP hct]
    rfl

omit hP in
theorem supertypes_ok : ∀ {supers : List TypeIdx},
    (∀ idx ∈ supers, Converter.typeIndex types idx group = .ok (flat idx)) →
    Converter.supertypes types group supers = .ok (supers.map flat)
  | [], _ => rfl
  | idx :: supers, h => by
    obtain ⟨hidx, hrest⟩ := forall_mem_cons.1 h
    rw [Converter.supertypes, hidx, supertypes_ok hrest]
    rfl

omit hP in
theorem metadataIndex_ok {context : String} {idx : Option TypeIdx}
    (h : ∀ i ∈ idx, Converter.typeIndex types i group = .ok (flat i)) :
    Converter.metadataIndex types context idx group = .ok (idx.map flat) := by
  cases idx with
  | none => rfl
  | some i =>
    rw [Converter.metadataIndex, h i rfl]
    rfl

end

section

variable {types : List RecType}

theorem typeIndex_scoped {g : Nat} (hg : g < types.length) {idx : TypeIdx} (h : IdxInScope types g idx) :
    Converter.typeIndex types idx (some g) = .ok (scopedFlat types g idx) := by
  obtain ⟨i, r⟩ := idx
  cases r with
  | false =>
    have hlt : i < typeGroupBase types types.length :=
      Nat.lt_of_lt_of_le h (typeGroupBase_mono types (Nat.le_of_lt hg))
    simp [Converter.typeIndex, scopedFlat, Nat.not_le.2 hlt]
  | true =>
    have hlt : i < groupLength types g := h
    simp [Converter.typeIndex, scopedFlat, Nat.not_le.2 hg, Nat.not_le.2 hlt]

theorem definedType_ok {g l : Nat} {st : SubType} {descriptorGroup : Nat} (hg : g < types.length)
    (hs : SubTypeInScope types g l st) (hp : PlainComp st.comp) :
    Converter.definedType types st g descriptorGroup =
      .ok { subDesc types g st with recGroup := descriptorGroup } := by
  have hidx : ∀ idx, IdxInScope types g idx →
      Converter.typeIndex types idx (some g) = .ok (scopedFlat types g idx) := fun _ => typeIndex_scoped hg
  simp only [Converter.definedType,
    supertypes_ok fun idx hmem => hidx idx (hs.supers idx hmem).1,
    metadataIndex_ok fun idx hmem => hidx idx (hs.describes idx hmem),
    metadataIndex_ok fun idx hmem => hidx idx (hs.descriptor idx hmem),
    compType_ok hidx (compUses_of_scope hs.comp hp)]
  rfl

theorem descGroup_append_cons (pre : List RecType) (rt : RecType) (rts : List RecType) :
    descGroup (pre ++ rt :: rts) (pre.length + 1) =
      descGroup (pre ++ rt :: rts) pre.length + if rt.subTypes ≠ [] then 1 else 0 := by
  have htake : (pre ++ rt :: rts).take (pre.length + 1) = pre ++ [rt] := by
    rw [take_append]
    simp
  have htake' : (pre ++ rt :: rts).take pre.length = pre := by simp
  rw [descGroup, descGroup, htake, htake', countP_append, countP_cons, countP_nil]
  by_cases h : rt.subTypes = [] <;> simp [h]

/-- The groups after `pre` convert to their descriptors. -/
theorem descriptorsFrom_ok (hs : TypesInScope types) (hp : PlainTypes types) :
    ∀ (rts pre : List RecType) (first : Nat), types = pre ++ rts →
      Converter.descriptorsFrom types pre.length (descGroup types pre.length) first rts =
        .ok ((flatSubTypesFrom pre.length rts).map fun (st, g) => subDesc types g st)
  | [], _, _, _ => rfl
  | rt :: rts, pre, first, heq => by
    have hget : types[pre.length]? = some rt := by rw [heq]; simp
    have hsucc : pre.length + 1 = (pre ++ [rt]).length := by simp
    have hnext := descriptorsFrom_ok hs hp rts (pre ++ [rt]) (first + rt.subTypes.length) (by simp [heq])
    have hnext' := descriptorsFrom_ok hs hp rts (pre ++ [rt]) first (by simp [heq])
    have hgroup := descGroup_append_cons pre rt rts
    rw [← heq] at hgroup
    rw [Converter.descriptorsFrom, flatSubTypesFrom]
    by_cases hempty : rt.subTypes = []
    · rw [← hsucc, hgroup, hempty] at hnext'
      rw [if_pos hempty, hempty]
      simpa using hnext'
    · rw [← hsucc, hgroup, if_pos hempty] at hnext
      have hmembers : Converter.groupDescriptors types pre.length (descGroup types pre.length) first
          rt.subTypes = .ok (rt.subTypes.map (subDesc types pre.length)) := by
        refine convertEach_ok fun st hst => ?_
        obtain ⟨l, hl⟩ := mem_iff_getElem?.1 hst
        have hpos : AtPos types (typeGroupBase types pre.length + l) pre.length l st :=
          ⟨⟨rt, hget, hl⟩, rfl⟩
        exact definedType_ok hpos.group_lt (hs hpos) ((hp rt (mem_of_getElem? hget)).2 st hst)
      rw [if_neg hempty, hmembers, hnext, map_append, map_map]
      rfl

/-- A decoded and validated type section converts, entry by entry. -/
theorem typeDescriptors_ok (hs : TypesInScope types) (hp : PlainTypes types) :
    Converter.typeDescriptors types = .ok (descriptorsOf types) :=
  descriptorsFrom_ok hs hp types [] 0 rfl

theorem descriptorsOf_length (types : List RecType) :
    (descriptorsOf types).length = (flatSubTypes types).length := by simp [descriptorsOf]

theorem descriptorsOf_get {i g l : Nat} {st : SubType} (h : AtPos types i g l st) :
    (descriptorsOf types)[i]? = some (subDesc types g st) := by
  have hflat : (flatSubTypes types)[i]? = some (st, g) := h.flat
  rw [descriptorsOf, List.getElem?_map, hflat]
  rfl

theorem descriptorsOf_none {i : Nat} : (descriptorsOf types)[i]? = none ↔ (flatSubTypes types).length ≤ i := by
  rw [List.getElem?_eq_none_iff, descriptorsOf_length]

theorem descGroup_lt {g g' l : Nat} {i : Nat} {st : SubType} (h : AtPos types i g l st) (hlt : g < g') :
    descGroup types g < descGroup types g' := by
  obtain ⟨rt, hrt, hst⟩ := h.member
  have hne : rt.subTypes ≠ [] := by rintro hnil; simp [hnil] at hst
  obtain ⟨hg, rfl⟩ := List.getElem?_eq_some_iff.1 hrt
  have hstep : descGroup types (g + 1) = descGroup types g + 1 := by
    rw [descGroup, descGroup, ← take_concat_get' _ _ hg, countP_append]
    simp [hne]
  have hle : descGroup types (g + 1) ≤ descGroup types g' :=
    List.Sublist.countP_le (take_sublist_take_left (by omega))
  omega

/-- Entries carry the same group number exactly when they are in one group. -/
theorem descGroup_inj {i j g g' l l' : Nat} {st st' : SubType} (hi : AtPos types i g l st)
    (hj : AtPos types j g' l' st') : descGroup types g = descGroup types g' ↔ g = g' := by
  refine ⟨fun h => ?_, fun h => h ▸ rfl⟩
  rcases Nat.lt_trichotomy g g' with hlt | heq | hlt
  · exact absurd (descGroup_lt hi hlt) (by omega)
  · exact heq
  · exact absurd (descGroup_lt hj hlt) (by omega)

end

/-! ## Group bounds -/

section

variable {ds : List DefinedTypeDescriptor} {group lo hi : Nat}

theorem scanStart_eq : ∀ {start : Nat}, lo ≤ start → (∀ k, lo ≤ k → k < start → inRecGroup ds group k = true) →
    (∀ k, k + 1 = lo → inRecGroup ds group k = false) → scanStart ds group start = lo
  | 0, hle, _, _ => (Nat.le_zero.1 hle).symm
  | start + 1, hle, hin, hout => by
    rw [scanStart]
    rcases Nat.lt_or_ge start lo with hlt | hge
    · obtain rfl : lo = start + 1 := by omega
      rw [if_neg (by simp [hout start rfl])]
    · rw [if_pos (hin start hge (Nat.lt_succ_self _))]
      exact scanStart_eq hge (fun k hk hks => hin k hk (by omega)) hout

theorem scanEnd_eq : ∀ {left last : Nat}, last ≤ hi → hi ≤ last + left →
    (∀ k, last ≤ k → k < hi → inRecGroup ds group k = true) → inRecGroup ds group hi = false →
    scanEnd ds group left last = hi
  | 0, last, hle, hbound, _, _ => by
    rw [scanEnd]
    omega
  | left + 1, last, hle, hbound, hin, hout => by
    rw [scanEnd]
    rcases Nat.lt_or_ge last hi with hlt | hge
    · rw [if_pos (hin last (Nat.le_refl _) hlt)]
      exact scanEnd_eq hlt (by omega) (fun k hk hkh => hin k (by omega) hkh) hout
    · obtain rfl : last = hi := by omega
      rw [if_neg (by simp [hout])]

end

section

variable {types : List RecType} {i g l : Nat} {st : SubType}

theorem inRecGroup_iff {k : Nat} (h : AtPos types i g l st) :
    inRecGroup (descriptorsOf types) (descGroup types g) k = true ↔
      typeGroupBase types g ≤ k ∧ k < typeGroupBase types g + groupLength types g := by
  unfold inRecGroup
  rw [decide_eq_true_iff]
  constructor
  · intro hk
    obtain ⟨d, hd, hgroup⟩ := Option.map_eq_some_iff.1 hk
    have hlt : k < (flatSubTypes types).length := by
      rw [← descriptorsOf_length]
      exact (List.getElem?_eq_some_iff.1 hd).1
    obtain ⟨g', l', st', hpos⟩ := exists_atPos hlt
    rw [descriptorsOf_get hpos] at hd
    cases hd
    obtain rfl := (descGroup_inj hpos h).1 hgroup
    have := hpos.lt_groupLength
    have := hpos.index
    omega
  · rintro ⟨hge, hlt⟩
    obtain ⟨rt, hrt, -⟩ := h.member
    rw [groupLength_of_get hrt] at hlt
    obtain ⟨m, rfl⟩ := Nat.exists_eq_add_of_le hge
    obtain ⟨st', -, hpos⟩ := atPos_member hrt (l := m) (by omega)
    rw [descriptorsOf_get hpos]
    rfl

/-- The entries around a member with its group number are its group. -/
theorem groupBounds_eq (h : AtPos types i g l st) :
    groupBounds (descriptorsOf types) i =
      some (typeGroupBase types g, typeGroupBase types g + groupLength types g) := by
  have hl := h.lt_groupLength
  have hi := h.index
  have hle : typeGroupBase types g + groupLength types g ≤ (descriptorsOf types).length := by
    obtain ⟨rt, hrt, -⟩ := h.member
    rw [descriptorsOf_length, groupLength_of_get hrt, ← typeGroupBase_succ hrt]
    exact typeGroupBase_le_length types _
  have hout : ∀ k, ¬ (typeGroupBase types g ≤ k ∧ k < typeGroupBase types g + groupLength types g) →
      inRecGroup (descriptorsOf types) (descGroup types g) k = false := by
    intro k hk
    rw [← Bool.not_eq_true, inRecGroup_iff h]
    exact hk
  rw [groupBounds, descriptorsOf_get h]
  show some (scanStart _ (descGroup types g) i, scanEnd _ (descGroup types g) _ (i + 1)) = _
  rw [scanStart_eq (by omega) (fun k hk hki => (inRecGroup_iff h).2 ⟨hk, by omega⟩)
      (fun k hk => hout k (by omega)),
    scanEnd_eq (by omega) (by omega) (fun k hk hkh => (inRecGroup_iff h).2 ⟨by omega, hkh⟩)
      (hout _ (by omega))]

end

/-! ## Closed types of two modules -/

/-- Type `i` of `A` and type `j` of `B` are the same position of equal closed groups. -/
def SameDef (A B : List RecType) (i j : Nat) : Prop :=
  ∃ d, (closedTypes A)[i]? = some d ∧ (closedTypes B)[j]? = some d

section

variable {A B : List RecType} {rt rt' : RecType} {i j g g' l l' : Nat} {st st' : SubType}

theorem SameDef.lt_length (h : SameDef A B i j) :
    i < (flatSubTypes A).length ∧ j < (flatSubTypes B).length := by
  obtain ⟨d, hi, hj⟩ := h
  rw [← closedTypes_length, ← closedTypes_length]
  exact ⟨(List.getElem?_eq_some_iff.1 hi).1, (List.getElem?_eq_some_iff.1 hj).1⟩

theorem sameDef_iff (hi : AtPos A i g l st) (hrt : A[g]? = some rt) (hj : AtPos B j g' l' st')
    (hrt' : B[g']? = some rt') :
    SameDef A B i j ↔ closeGroup (closedEnv A g) rt = closeGroup (closedEnv B g') rt' ∧ l = l' := by
  have hl := hi.lt_groupLength
  have hl' := hj.lt_groupLength
  rw [groupLength_of_get hrt] at hl
  rw [groupLength_of_get hrt'] at hl'
  rw [SameDef, hi.index, hj.index, closedTypes_get hrt hl, closedTypes_get hrt' hl']
  constructor
  · rintro ⟨d, h1, h2⟩
    simpa using h1.trans h2.symm
  · rintro ⟨hgroup, rfl⟩
    exact ⟨_, rfl, by rw [hgroup]⟩

/-- The same defined type sits at one position of groups of one length. -/
theorem SameDef.position (h : SameDef A B i j) (hi : AtPos A i g l st) (hj : AtPos B j g' l' st') :
    l = l' ∧ groupLength A g = groupLength B g' := by
  obtain ⟨rt, hrt, -⟩ := hi.member
  obtain ⟨rt', hrt', -⟩ := hj.member
  obtain ⟨hgroup, hl⟩ := (sameDef_iff hi hrt hj hrt').1 h
  have hlen := congrArg List.length hgroup
  simp only [closeGroup, length_map] at hlen
  exact ⟨hl, by rw [groupLength_of_get hrt, groupLength_of_get hrt', hlen]⟩

theorem closeIdx_cross {x y : TypeIdx} (hx : IdxInScope A g x) (hy : IdxInScope B g' y) :
    closeIdx (closedEnv A g) x = closeIdx (closedEnv B g') y ↔
      x.isRec = y.isRec ∧ if x.isRec then x.index = y.index else SameDef A B x.index y.index := by
  obtain ⟨xi, xr⟩ := x
  obtain ⟨yi, yr⟩ := y
  have hxo : xr = false → xi < typeGroupBase A g := by rintro rfl; exact hx
  have hyo : yr = false → yi < typeGroupBase B g' := by rintro rfl; exact hy
  cases xr <;> cases yr
  · obtain ⟨d, hd, hcx⟩ := closeIdx_outer (hxo rfl)
    obtain ⟨e, he, hcy⟩ := closeIdx_outer (hyo rfl)
    rw [hcx, hcy]
    simp only [ClosedIdx.outer.injEq, true_and, Bool.false_eq_true, if_false, SameDef, hd, he]
    constructor
    · rintro ⟨h1, h2⟩
      exact ⟨d, rfl, by rw [Prod.ext h1 h2]⟩
    · rintro ⟨f, h1, h2⟩
      cases h1
      cases h2
      exact ⟨rfl, rfl⟩
  · obtain ⟨d, -, hcx⟩ := closeIdx_outer (hxo rfl)
    rw [hcx, show closeIdx (closedEnv B g') ⟨yi, true⟩ = .member yi from rfl]
    simp
  · obtain ⟨e, -, hcy⟩ := closeIdx_outer (hyo rfl)
    rw [hcy, show closeIdx (closedEnv A g) ⟨xi, true⟩ = .member xi from rfl]
    simp
  · simp [closeIdx]

end

/-! ## The comparisons of two groups -/

/-- What a comparison of `x` and `y` made for groups `g` and `g'` has to say: references out of the
groups name the same type, references into them the same position. -/
def GroupRel (A B : List RecType) (g g' x y : Nat) : Prop :=
  (x < typeGroupBase A g → SameDef A B x y) ∧
    (typeGroupBase A g ≤ x → x - typeGroupBase A g = y - typeGroupBase B g')

/-- Both references leave their group, or both stay in it. -/
def Paired (A B : List RecType) (g g' x y : Nat) : Prop :=
  (x < typeGroupBase A g ∧ y < typeGroupBase B g') ∨
    ((typeGroupBase A g ≤ x ∧ x < typeGroupBase A g + groupLength A g) ∧
      typeGroupBase B g' ≤ y ∧ y < typeGroupBase B g' + groupLength B g')

/-- The comparisons `cs` ask only about pairs that may be asked about, and decide `P`. -/
structure Decides (A B : List RecType) (g g' : Nat) (cs : List Comparison) (P : Prop) : Prop where
  paired : ∀ x y, .types x y ∈ cs → Paired A B g g' x y
  iff : AllHold (GroupRel A B g g') cs ↔ P

namespace Decides

variable {A B : List RecType} {g g' : Nat} {cs cs' : List Comparison} {P Q : Prop}

theorem nil (h : P) : Decides A B g g' [] P := ⟨by simp, by simp [h]⟩

theorem false_of (h : ¬ P) : Decides A B g g' [.test false] P := ⟨by simp, by simp [h]⟩

theorem test {b : Bool} (hb : b = true ↔ P) (h : Decides A B g g' cs Q) :
    Decides A B g g' (.test b :: cs) (P ∧ Q) :=
  ⟨by simpa using h.paired, by rw [allHold_test, h.iff, hb]⟩

theorem append (h : Decides A B g g' cs P) (h' : Decides A B g g' cs' Q) :
    Decides A B g g' (cs ++ cs') (P ∧ Q) where
  paired x y hmem := by
    rcases mem_append.1 hmem with hmem | hmem
    · exact h.paired x y hmem
    · exact h'.paired x y hmem
  iff := by rw [allHold_append, h.iff, h'.iff]

theorem congr (h : Decides A B g g' cs P) (hPQ : P ↔ Q) : Decides A B g g' cs Q :=
  ⟨h.paired, h.iff.trans hPQ⟩

/-- The order of the comparisons does not matter. -/
theorem reorder (h : Decides A B g g' cs P) (hmem : ∀ c, c ∈ cs' ↔ c ∈ cs) : Decides A B g g' cs' P where
  paired x y hxy := h.paired x y ((hmem _).1 hxy)
  iff := by
    rw [← h.iff]
    exact forall_congr' fun c => by rw [hmem c]

/-- Elementwise comparison of the descriptors of two lists. -/
theorem zip {α δ γ : Type} (cmp : δ → δ → List Comparison) {d d' : α → δ} {f f' : α → γ}
    {as bs : List α} (h : ∀ a ∈ as, ∀ b ∈ bs, Decides A B g g' (cmp (d a) (d' b)) (f a = f' b)) :
    Decides A B g g' (.test ((as.map d).length = (bs.map d').length) ::
        ((as.map d).zip (bs.map d')).flatMap fun (a, b) => cmp a b)
      (as.map f = bs.map f') := by
  rw [zip_map, flatMap_map, length_map, length_map]
  constructor
  · intro x y hmem
    simp only [mem_cons, reduceCtorEq, false_or, mem_flatMap] at hmem
    obtain ⟨⟨a, b⟩, hab, hmem⟩ := hmem
    obtain ⟨ha, hb⟩ := of_mem_zip hab
    exact (h a ha b hb).paired x y hmem
  · rw [allHold_test, decide_eq_true_iff, allHold_flatMap, ← zip_map_eq_iff]
    refine and_congr_right fun _ => forall_congr' fun p => forall_congr' fun hp => ?_
    obtain ⟨ha, hb⟩ := of_mem_zip (a := p.1) (b := p.2) hp
    exact (h _ ha _ hb).iff

end Decides

section

variable {A B : List RecType} {g g' i j l l' : Nat} {st st' : SubType}

theorem abstractHeapTypeFromWasm_inj {a b : AbsHeapType} :
    abstractHeapTypeFromWasm a = abstractHeapTypeFromWasm b ↔ a = b := by
  cases a <;> cases b <;> decide

/-- An index in scope names an entry, which is in the group of its owner exactly when the index is
relative. -/
theorem scoped_at (hi : AtPos A i g l st) {x : TypeIdx} (hx : IdxInScope A g x) :
    ∃ h m su, AtPos A (scopedFlat A g x) h m su ∧ (descGroup A g == descGroup A h) = x.isRec := by
  obtain ⟨k, r⟩ := x
  cases r with
  | true =>
    obtain ⟨rt, hrt, -⟩ := hi.member
    have hk : k < rt.subTypes.length := by
      rw [← groupLength_of_get hrt]
      exact hx
    obtain ⟨su, -, hpos⟩ := atPos_member hrt hk
    exact ⟨g, k, su, hpos, by simp⟩
  | false =>
    have hk : k < typeGroupBase A g := hx
    obtain ⟨h, m, su, hpos⟩ := exists_atPos (Nat.lt_of_lt_of_le hk (typeGroupBase_le_length A g))
    have hlt := hpos.group_lt_of_lt_base hk
    refine ⟨h, m, su, hpos, ?_⟩
    have hne : descGroup A g ≠ descGroup A h := by
      rw [Ne, descGroup_inj hi hpos]
      omega
    simpa using hne

theorem scopedFlat_paired {x y : TypeIdx} (hx : IdxInScope A g x) (hy : IdxInScope B g' y)
    (hrec : x.isRec = y.isRec) : Paired A B g g' (scopedFlat A g x) (scopedFlat B g' y) := by
  obtain ⟨xi, r⟩ := x
  obtain ⟨yi, r'⟩ := y
  obtain rfl : r = r' := hrec
  cases r with
  | false => exact .inl ⟨hx, hy⟩
  | true =>
    exact .inr ⟨⟨Nat.le_add_right _ _, Nat.add_lt_add_left hx _⟩, Nat.le_add_right _ _,
      Nat.add_lt_add_left hy _⟩

theorem groupRel_scoped {x y : TypeIdx} (hx : IdxInScope A g x) (hrec : x.isRec = y.isRec) :
    GroupRel A B g g' (scopedFlat A g x) (scopedFlat B g' y) ↔
      if x.isRec then x.index = y.index else SameDef A B x.index y.index := by
  obtain ⟨xi, r⟩ := x
  obtain ⟨yi, r'⟩ := y
  obtain rfl : r = r' := hrec
  cases r with
  | false =>
    have hlt : xi < typeGroupBase A g := hx
    simp only [GroupRel, scopedFlat, Bool.false_eq_true, if_false, hlt, forall_const,
      Nat.not_le.2 hlt, false_imp_iff, and_true]
  | true => simp [GroupRel, scopedFlat]

variable (hi : AtPos A i g l st) (hj : AtPos B j g' l' st')

include hi hj

theorem eqTypeRef_decides {x y : TypeIdx}
    (hx : IdxInScope A g x) (hy : IdxInScope B g' y) :
    Decides A B g g'
      (eqTypeRef (descriptorsOf A) (descriptorsOf B) i (scopedFlat A g x) j (scopedFlat B g' y))
      (closeIdx (closedEnv A g) x = closeIdx (closedEnv B g') y) := by
  obtain ⟨h, m, su, hpx, hbx⟩ := scoped_at hi hx
  obtain ⟨h', m', su', hpy, hby⟩ := scoped_at hj hy
  have hbound : ((descGroup A g == descGroup A h) == (descGroup B g' == descGroup B h')) =
      (x.isRec == y.isRec) := by
    rw [hbx, hby]
  rw [closeIdx_cross hx hy, eqTypeRef, descriptorsOf_get hi, descriptorsOf_get hpx, descriptorsOf_get hj,
    descriptorsOf_get hpy]
  simp only [subDesc, hbound]
  by_cases hrec : x.isRec = y.isRec
  · rw [if_pos (by simp [hrec])]
    refine ⟨fun a b hmem => ?_, ?_⟩
    · obtain ⟨rfl, rfl⟩ : a = scopedFlat A g x ∧ b = scopedFlat B g' y := by simpa using hmem
      exact scopedFlat_paired hx hy hrec
    · rw [allHold_types, and_iff_left allHold_nil]
      exact (groupRel_scoped hx hrec).trans (and_iff_right hrec).symm
  · rw [if_neg (by simpa using hrec)]
    exact .false_of fun h => hrec h.1

theorem eqHeapDescriptor_decides {x y : HeapType}
    (hx : HeapUses (IdxInScope A g) x) (hy : HeapUses (IdxInScope B g') y) :
    Decides A B g g'
      (eqHeapDescriptor (descriptorsOf A) (descriptorsOf B) i j (heapDesc (scopedFlat A g) x)
        (heapDesc (scopedFlat B g') y))
      (closeHeap (closedEnv A g) x = closeHeap (closedEnv B g') y) := by
  cases x with
  | abs a =>
    cases y with
    | abs b =>
      refine ((Decides.nil trivial).test (P := a = b) ?_).congr (by simp [closeHeap])
      simp [heapDesc, abstractHeapTypeFromWasm_inj]
    | typeIndex idx' => exact .false_of (by simp [closeHeap])
    | _ => exact hy.elim
  | typeIndex idx =>
    cases y with
    | abs b => exact .false_of (by simp [closeHeap])
    | typeIndex idx' => exact (eqTypeRef_decides hi hj hx hy).congr (by simp [closeHeap])
    | _ => exact hy.elim
  | _ => exact hx.elim

theorem eqValueDescriptor_decides {v w : ValType}
    (hv : ValUses (IdxInScope A g) v) (hw : ValUses (IdxInScope B g') w) :
    Decides A B g g'
      (eqValueDescriptor (descriptorsOf A) (descriptorsOf B) i j (valDesc (scopedFlat A g) v)
        (valDesc (scopedFlat B g') w))
      (closeVal (closedEnv A g) v = closeVal (closedEnv B g') w) := by
  cases v with
  | bot => exact hv.elim
  | ref r =>
    cases w with
    | bot => exact hw.elim
    | ref q =>
      have hheap := eqHeapDescriptor_decides hi hj (x := r.heap) (y := q.heap) hv hw
      have htests := (hheap.test (P := r.exact = q.exact) decide_eq_true_iff).test
        (P := r.nullable = q.nullable) decide_eq_true_iff
      exact htests.congr (by simp [closeVal])
    | num n => cases n <;> exact .false_of (by simp [closeVal])
    | vec => exact .false_of (by simp [closeVal])
  | vec =>
    cases w with
    | bot => exact hw.elim
    | vec => exact .nil rfl
    | num n => cases n <;> exact .false_of (by simp [closeVal])
    | ref q => exact .false_of (by simp [closeVal])
  | num n =>
    cases w with
    | bot => exact hw.elim
    | num n' => cases n <;> cases n' <;> first | exact .nil rfl | exact .false_of (by simp [closeVal])
    | vec => cases n <;> exact .false_of (by simp [closeVal])
    | ref q => cases n <;> exact .false_of (by simp [closeVal])

theorem eqFieldDescriptor_decides {f f' : FieldType}
    (hf : FieldUses (IdxInScope A g) f) (hf' : FieldUses (IdxInScope B g') f') :
    Decides A B g g'
      (eqFieldDescriptor (descriptorsOf A) (descriptorsOf B) i j (fieldDesc (scopedFlat A g) f)
        (fieldDesc (scopedFlat B g') f'))
      (closeField (closedEnv A g) f = closeField (closedEnv B g') f') := by
  obtain ⟨storage, m⟩ := f
  obtain ⟨storage', m'⟩ := f'
  have hmut : decide ((decide (m = .var)) = decide (m' = .var)) = true ↔ m = m' := by
    cases m <;> cases m' <;> decide
  cases storage with
  | val v =>
    cases storage' with
    | val w =>
      have hval := eqValueDescriptor_decides hi hj (v := v) (w := w) hf hf'
      exact (hval.test hmut).congr (by simp [closeField, and_comm])
    | packed p =>
      have hno : Decides A B g g' [.test false] False := .false_of id
      cases p <;> exact (hno.test hmut).congr (by simp [closeField])
  | packed p =>
    have hno : Decides A B g g' [.test false] False := .false_of id
    have hyes : Decides A B g g' [] True := .nil trivial
    cases storage' with
    | val w => cases p <;> exact (hno.test hmut).congr (by simp [closeField])
    | packed p' =>
      cases p <;> cases p' <;>
        first
        | exact (hyes.test hmut).congr (by simp [closeField])
        | exact (hno.test hmut).congr (by simp [closeField])

theorem eqOptional_decides {x y : Option TypeIdx}
    (hx : ∀ idx ∈ x, IdxInScope A g idx) (hy : ∀ idx ∈ y, IdxInScope B g' idx) :
    Decides A B g g'
      (eqOptional (descriptorsOf A) (descriptorsOf B) i (x.map (scopedFlat A g)) j
        (y.map (scopedFlat B g')))
      (x.map (closeIdx (closedEnv A g)) = y.map (closeIdx (closedEnv B g'))) := by
  cases x with
  | none =>
    cases y with
    | none => exact .nil rfl
    | some b => exact .false_of (by simp)
  | some a =>
    cases y with
    | none => exact .false_of (by simp)
    | some b => exact (eqTypeRef_decides hi hj (hx a rfl) (hy b rfl)).congr (by simp)

theorem eqCompositeDescriptor_decides
    {x y : CompType} (hx : CompUses (IdxInScope A g) x) (hy : CompUses (IdxInScope B g') y) :
    Decides A B g g'
      (.test ((compDesc (scopedFlat A g) x).kind = (compDesc (scopedFlat B g') y).kind) ::
        eqCompositeDescriptor (descriptorsOf A) (descriptorsOf B) i j (compDesc (scopedFlat A g) x)
          (compDesc (scopedFlat B g') y))
      (closeComp (closedEnv A g) x = closeComp (closedEnv B g') y) := by
  -- components of different kinds fail the test on the kind
  have hother : ∀ {k k' : CompositeTypeKind}, k ≠ k' → ∀ {P : Prop}, ¬ P →
      Decides A B g g' [.test (k = k')] P := by
    intro k k' hk P hP
    rw [decide_eq_false hk]
    exact .false_of hP
  cases x with
  | func ps rs =>
    cases y with
    | func ps' rs' =>
      have hps := Decides.zip (eqValueDescriptor _ _ i j) fun p hp p' hp' => eqValueDescriptor_decides hi hj (hx.1 p hp) (hy.1 p' hp')
      have hrs := Decides.zip (eqValueDescriptor _ _ i j) fun r hr r' hr' => eqValueDescriptor_decides hi hj (hx.2 r hr) (hy.2 r' hr')
      have hall := ((hps.append hrs).test (P := True) (b := true) (by simp)).congr (Q :=
        closeComp (closedEnv A g) (.func ps rs) = closeComp (closedEnv B g') (.func ps' rs'))
        (by simp [closeComp])
      refine hall.reorder fun c => ?_
      simp only [compDesc, CompositeDescriptor.kind, eqCompositeDescriptor, decide_true, mem_cons,
        mem_append]
      tauto
    | _ => exact hother (by simp [compDesc, CompositeDescriptor.kind]) (by simp [closeComp])
  | struct fs =>
    cases y with
    | struct fs' =>
      have hfs := Decides.zip (eqFieldDescriptor _ _ i j) fun f hf f' hf' => eqFieldDescriptor_decides hi hj (hx f hf) (hy f' hf')
      exact (hfs.test (P := True) (by simp [compDesc, CompositeDescriptor.kind])).congr
        (by simp [closeComp])
    | _ => exact hother (by simp [compDesc, CompositeDescriptor.kind]) (by simp [closeComp])
  | array f =>
    cases y with
    | array f' =>
      have hf := eqFieldDescriptor_decides hi hj hx hy
      exact (hf.test (P := True) (by simp [compDesc, CompositeDescriptor.kind])).congr (by simp [closeComp])
    | _ => exact hother (by simp [compDesc, CompositeDescriptor.kind]) (by simp [closeComp])

/-- The comparisons of two members decide whether their closed forms are equal. -/
theorem eqTypeBody_decides
    (hs : SubTypeInScope A g l st) (hs' : SubTypeInScope B g' l' st') (hp : PlainComp st.comp)
    (hp' : PlainComp st'.comp) :
    Decides A B g g' (eqTypeBody (descriptorsOf A) (descriptorsOf B) i j)
      (closeSubType (closedEnv A g) st = closeSubType (closedEnv B g') st') := by
  have hsupers := Decides.zip (fun s s' => eqTypeRef (descriptorsOf A) (descriptorsOf B) i s j s')
    fun s hmem s' hmem' => eqTypeRef_decides hi hj (hs.supers s hmem).1 (hs'.supers s' hmem').1
  have hdescribes := eqOptional_decides hi hj hs.describes hs'.describes
  have hdescriptor := eqOptional_decides hi hj hs.descriptor hs'.descriptor
  have hcomp := eqCompositeDescriptor_decides hi hj (compUses_of_scope hs.comp hp)
    (compUses_of_scope hs'.comp hp')
  have hall := ((hsupers.append hdescribes).append (hdescriptor.append hcomp)).test
    (P := st.final = st'.final) decide_eq_true_iff
  rw [eqTypeBody, descriptorsOf_get hi, descriptorsOf_get hj]
  refine (hall.reorder fun c => ?_).congr ?_
  · simp only [subDesc, mem_cons, mem_append]
    tauto
  · simp only [closeSubType, ClosedSubType.mk.injEq]
    tauto

end

/-- The comparisons of all member pairs decide whether two groups of one length close to the same
group. -/
theorem groupBody_decides {A B : List RecType} (hsA : TypesInScope A) (hsB : TypesInScope B)
    (hpA : PlainTypes A) (hpB : PlainTypes B) {g g' : Nat} {rt rt' : RecType} (hrt : A[g]? = some rt)
    (hrt' : B[g']? = some rt') (hlen : rt.subTypes.length = rt'.subTypes.length) :
    Decides A B g g'
      ((List.range rt.subTypes.length).flatMap fun k =>
        eqTypeBody (descriptorsOf A) (descriptorsOf B) (typeGroupBase A g + k) (typeGroupBase B g' + k))
      (closeGroup (closedEnv A g) rt = closeGroup (closedEnv B g') rt') := by
  have hmember : ∀ k (hk : k < rt.subTypes.length) (hk' : k < rt'.subTypes.length),
      Decides A B g g'
        (eqTypeBody (descriptorsOf A) (descriptorsOf B) (typeGroupBase A g + k) (typeGroupBase B g' + k))
        (closeSubType (closedEnv A g) rt.subTypes[k] = closeSubType (closedEnv B g') rt'.subTypes[k]) := by
    intro k hk hk'
    have hi : AtPos A (typeGroupBase A g + k) g k rt.subTypes[k] :=
      ⟨⟨rt, hrt, List.getElem?_eq_getElem hk⟩, rfl⟩
    have hj : AtPos B (typeGroupBase B g' + k) g' k rt'.subTypes[k] :=
      ⟨⟨rt', hrt', List.getElem?_eq_getElem hk'⟩, rfl⟩
    exact eqTypeBody_decides hi hj (hsA hi) (hsB hj)
      ((hpA rt (mem_of_getElem? hrt)).2 _ (getElem_mem hk))
      ((hpB rt' (mem_of_getElem? hrt')).2 _ (getElem_mem hk'))
  constructor
  · intro x y hmem
    obtain ⟨k, hk, hxy⟩ := mem_flatMap.1 hmem
    have hk := mem_range.1 hk
    exact (hmember k hk (by omega)).paired x y hxy
  · rw [allHold_flatMap, closeGroup, closeGroup, ext_get_iff]
    simp only [length_map, hlen, true_and, mem_range, get_eq_getElem, getElem_map]
    constructor
    · intro h k hk hk'
      exact (hmember k (by omega) hk').iff.1 (h k (by omega))
    · intro h k hk
      exact (hmember k (by omega) (by omega)).iff.2 (h k (by omega) (by omega))

/-! ## Runs of the comparison -/

/-- Comparisons that keep `I` and answer by `R` answer a list by all its comparisons. -/
theorem runChecks_spec {I : GroupMarks → Prop} {R : Nat → Nat → Prop}
    {eq : Nat → Nat → StateM GroupMarks Bool} : ∀ {cs : List Comparison} {s : GroupMarks},
    (∀ x y, .types x y ∈ cs → ∀ t, I t → ((eq x y t).1 = true ↔ R x y) ∧ I (eq x y t).2) → I s →
    ((runChecks eq cs s).1 = true ↔ AllHold R cs) ∧ I (runChecks eq cs s).2
  | [], s, _, hs => by
    have hrun : runChecks eq [] s = (true, s) := rfl
    rw [hrun]
    exact ⟨by simp, hs⟩
  | .test b :: cs, s, heq, hs => by
    cases b with
    | false =>
      have hrun : runChecks eq (.test false :: cs) s = (false, s) := rfl
      rw [hrun]
      exact ⟨by simp, hs⟩
    | true =>
      obtain ⟨hok, hI⟩ := runChecks_spec (fun x y hmem => heq x y (mem_cons_of_mem _ hmem)) hs
      exact ⟨hok.trans (by simp), hI⟩
  | .types x y :: cs, s, heq, hs => by
    obtain ⟨hxy, hI⟩ := heq x y (mem_cons_self ..) s hs
    have hrun : runChecks eq (.types x y :: cs) s =
        if (eq x y s).1 then runChecks eq cs (eq x y s).2 else (false, (eq x y s).2) := by
      rcases h : eq x y s with ⟨ok, t⟩
      simp only [runChecks, bind, StateT.bind, h]
      cases ok <;> rfl
    rw [hrun, allHold_types, ← hxy]
    by_cases h : (eq x y s).1 = true
    · rw [if_pos h]
      obtain ⟨hok, hI'⟩ := runChecks_spec (fun x y hmem => heq x y (mem_cons_of_mem _ hmem)) hI
      exact ⟨by rw [hok, and_iff_right h], hI'⟩
    · rw [if_neg h]
      exact ⟨by simp [h], hI⟩

/-- The marks of groups of `A` that start below `bound` are final and right. -/
structure Settled (A B : List RecType) (bound : Nat) (s : GroupMarks) : Prop where
  inactive : ∀ b b', b < bound → s (b, b') ≠ .active
  proven : ∀ b b', b < bound → s (b, b') = .proven → SameDef A B b b'
  refuted : ∀ b b', b < bound → s (b, b') = .refuted → ¬ SameDef A B b b'

/-- What `Settled` says of one mark. -/
def RightMark (A B : List RecType) (b b' : Nat) (m : PairMark) : Prop :=
  m ≠ .active ∧ (m = .proven → SameDef A B b b') ∧ (m = .refuted → ¬ SameDef A B b b')

section

variable {A B : List RecType} {m n : Nat} {s t : GroupMarks}

theorem settled_iff : Settled A B n s ↔ ∀ b b', b < n → RightMark A B b b' (s (b, b')) :=
  ⟨fun h b b' hb => ⟨h.inactive b b' hb, h.proven b b' hb, h.refuted b b' hb⟩,
    fun h => ⟨fun b b' hb => (h b b' hb).1, fun b b' hb => (h b b' hb).2.1, fun b b' hb => (h b b' hb).2.2⟩⟩

theorem Settled.mono (h : Settled A B n s) (hmn : m ≤ n) : Settled A B m s :=
  ⟨fun b b' hb => h.inactive b b' (by omega), fun b b' hb => h.proven b b' (by omega),
    fun b b' hb => h.refuted b b' (by omega)⟩

/-- Marks settled below `m` that are otherwise marks settled below `n`. -/
theorem Settled.extend (h : Settled A B m t) (hs : Settled A B n s)
    (hsame : ∀ p : Nat × Nat, m ≤ p.1 → t p = s p) : Settled A B n t := by
  refine settled_iff.2 fun b b' hb => ?_
  rcases Nat.lt_or_ge b m with hlt | hge
  · exact settled_iff.1 h b b' hlt
  · rw [hsame (b, b') hge]
    exact settled_iff.1 hs b b' hb

end

section

variable {A B : List RecType} {x y g g' l l' : Nat} {st st' : SubType} {s : GroupMarks}

/-- One comparison of two members of groups `g` and `g'`. -/
theorem eqGroups_step (hx : AtPos A x g l st) (hy : AtPos B y g' l' st') (fuel : Nat) :
    let p := (typeGroupBase A g, typeGroupBase B g')
    let checks := (List.range (groupLength A g)).flatMap fun k =>
      eqTypeBody (descriptorsOf A) (descriptorsOf B) (typeGroupBase A g + k) (typeGroupBase B g' + k)
    let r := runChecks (eqGroups (descriptorsOf A) (descriptorsOf B) fuel) checks (s.set p .active)
    eqGroups (descriptorsOf A) (descriptorsOf B) (fuel + 1) x y s =
      if l ≠ l' ∨ groupLength A g ≠ groupLength B g' then (false, s)
      else
        match s p with
        | .active | .proven => (true, s)
        | .refuted => (false, s)
        | .absent => (r.1, r.2.set p (if r.1 then .proven else .refuted)) := by
  intro p checks r
  have hxl : x - typeGroupBase A g = l := by rw [hx.index, Nat.add_sub_cancel_left]
  have hyl : y - typeGroupBase B g' = l' := by rw [hy.index, Nat.add_sub_cancel_left]
  rw [eqGroups, groupBounds_eq hx, groupBounds_eq hy]
  simp only [hxl, hyl, Nat.add_sub_cancel_left]
  split
  · rfl
  · simp only [bind, StateT.bind, get, getThe, MonadStateOf.get, StateT.get, pure]
    cases s p <;> rfl

/-- Members of the pair of groups being compared are compared by position alone. -/
theorem eqGroups_active (hx : AtPos A x g l st) (hy : AtPos B y g' l' st')
    (hlen : groupLength A g = groupLength B g') (hs : s (typeGroupBase A g, typeGroupBase B g') = .active)
    (fuel : Nat) :
    eqGroups (descriptorsOf A) (descriptorsOf B) (fuel + 1) x y s = (decide (l = l'), s) := by
  rw [eqGroups_step hx hy fuel, hs]
  by_cases hl : l = l'
  · simp [hl, hlen]
  · simp [hl]

theorem sameDef_first (hx : AtPos A x g l st) (hy : AtPos B y g' l st') :
    SameDef A B (typeGroupBase A g) (typeGroupBase B g') ↔ SameDef A B x y := by
  obtain ⟨rt, hrt, hst⟩ := hx.member
  obtain ⟨rt', hrt', hst'⟩ := hy.member
  have hl := (List.getElem?_eq_some_iff.1 hst).1
  have hl' := (List.getElem?_eq_some_iff.1 hst').1
  obtain ⟨_, -, h0⟩ := atPos_member hrt (l := 0) (by omega)
  obtain ⟨_, -, h0'⟩ := atPos_member hrt' (l := 0) (by omega)
  have hfirst := sameDef_iff h0 hrt h0' hrt'
  rw [Nat.add_zero, Nat.add_zero] at hfirst
  rw [hfirst, sameDef_iff hx hrt hy hrt']
  simp

/-- The marks `t` while groups `g` and `g'` are compared, from marks `s`: the pair is active, the
marks of earlier groups are settled and all others as they were. -/
structure Comparing (A B : List RecType) (g g' : Nat) (s t : GroupMarks) : Prop where
  active : t (typeGroupBase A g, typeGroupBase B g') = .active
  earlier : Settled A B (typeGroupBase A g) t
  others : ∀ q : Nat × Nat, typeGroupBase A g ≤ q.1 → q ≠ (typeGroupBase A g, typeGroupBase B g') → t q = s q

theorem Comparing.start (hs : Settled A B (typeGroupBase A g) s) :
    Comparing A B g g' s (s.set (typeGroupBase A g, typeGroupBase B g') .active) := by
  have hother : ∀ q : Nat × Nat, q ≠ (typeGroupBase A g, typeGroupBase B g') →
      s.set (typeGroupBase A g, typeGroupBase B g') .active q = s q := fun q hq => if_neg hq
  refine ⟨if_pos rfl, settled_iff.2 fun b b' hb => ?_, fun q _ => hother q⟩
  rw [hother _ fun h => absurd (congrArg Prod.fst h) hb.ne]
  exact settled_iff.1 hs b b' hb

/-- The answer for the pair settles its groups too. -/
theorem Comparing.finish {t : GroupMarks} (h : Comparing A B g g' s t)
    (hs : Settled A B (typeGroupBase A g + 1) s) {ok : Bool}
    (hok : ok = true ↔ SameDef A B (typeGroupBase A g) (typeGroupBase B g')) :
    Settled A B (typeGroupBase A g + 1)
      (t.set (typeGroupBase A g, typeGroupBase B g') (if ok then .proven else .refuted)) := by
  refine settled_iff.2 fun b b' hb => ?_
  by_cases hq : (b, b') = (typeGroupBase A g, typeGroupBase B g')
  · cases hq
    rw [show t.set _ _ _ = _ from if_pos rfl, RightMark, ← hok]
    cases ok <;> simp
  · rw [show t.set _ _ (b, b') = t (b, b') from if_neg hq]
    rcases Nat.lt_or_ge b (typeGroupBase A g) with hlt | hge
    · exact settled_iff.1 h.earlier b b' hlt
    · rw [h.others _ hge hq]
      exact settled_iff.1 hs b b' hb

/-- A nested comparison that settles an earlier group keeps the comparison of `g` and `g'`. -/
theorem Comparing.nested {t u : GroupMarks} {b : Nat} (h : Comparing A B g g' s t)
    (hb : b < typeGroupBase A g) (hu : Settled A B (b + 1) u)
    (hkeep : ∀ q : Nat × Nat, b < q.1 → u q = t q) : Comparing A B g g' s u where
  active := (hkeep _ hb).trans h.active
  earlier := hu.extend h.earlier fun q hq => hkeep q (by omega)
  others q hq hne := (hkeep q (by omega)).trans (h.others q hq hne)

/-- The comparison of two entries decides whether they are the same defined type, from marks that
are settled up to the group of the first. The recursion is on where that group starts. -/
theorem eqGroups_spec (hsA : TypesInScope A) (hsB : TypesInScope B) (hpA : PlainTypes A)
    (hpB : PlainTypes B) : ∀ (fuel : Nat) {x y g g' l l' : Nat} {st st' : SubType} {s : GroupMarks},
    AtPos A x g l st → AtPos B y g' l' st' → typeGroupBase A g + 2 ≤ fuel →
    Settled A B (typeGroupBase A g + 1) s →
    let r := eqGroups (descriptorsOf A) (descriptorsOf B) fuel x y s
    (r.1 = true ↔ SameDef A B x y) ∧ Settled A B (typeGroupBase A g + 1) r.2 ∧
      ∀ q : Nat × Nat, typeGroupBase A g < q.1 → r.2 q = s q
  | 0, x, y, g, g', l, l', st, st', s, _, _, hfuel, _ => by omega
  | fuel + 1, x, y, g, g', l, l', st, st', s, hx, hy, hfuel, hs => by
    intro r
    have hr : r = _ := eqGroups_step hx hy fuel
    by_cases hpos : l ≠ l' ∨ groupLength A g ≠ groupLength B g'
    · rw [if_pos hpos] at hr
      rw [hr]
      refine ⟨⟨fun h => (by cases h), fun h => ?_⟩, hs, fun _ _ => rfl⟩
      obtain ⟨hl, hlen⟩ := h.position hx hy
      exact absurd hpos (by simp [hl, hlen])
    rw [if_neg hpos] at hr
    obtain ⟨rfl, hlen⟩ : l = l' ∧ groupLength A g = groupLength B g' := by
      simpa only [not_or, not_not] using hpos
    -- the entries are the same type exactly when the first members of their groups are
    have hfirst := sameDef_first hx hy
    cases hm : s (typeGroupBase A g, typeGroupBase B g') with
    | active => exact absurd hm (hs.inactive _ _ (Nat.lt_succ_self _))
    | proven =>
      rw [hm] at hr
      rw [hr]
      exact ⟨by simp [← hfirst, hs.proven _ _ (Nat.lt_succ_self _) hm], hs, fun _ _ => rfl⟩
    | refuted =>
      rw [hm] at hr
      rw [hr]
      exact ⟨by simp [← hfirst, hs.refuted _ _ (Nat.lt_succ_self _) hm], hs, fun _ _ => rfl⟩
    | absent =>
      rw [hm] at hr
      obtain ⟨rt, hrt, -⟩ := hx.member
      obtain ⟨rt', hrt', -⟩ := hy.member
      have hdec := groupBody_decides hsA hsB hpA hpB hrt hrt'
        (by rw [← groupLength_of_get hrt, hlen, groupLength_of_get hrt'])
      rw [← groupLength_of_get hrt] at hdec
      have hcalls : ∀ a b, Paired A B g g' a b → ∀ t, Comparing A B g g' s t →
          let u := eqGroups (descriptorsOf A) (descriptorsOf B) fuel a b t
          (u.1 = true ↔ GroupRel A B g g' a b) ∧ Comparing A B g g' s u.2 := by
        rintro a b (⟨ha, hb⟩ | ⟨⟨ha, ha'⟩, hb, hb'⟩) t ht
        · -- an earlier group: the recursion settles it
          obtain ⟨h, m, su, hpa⟩ := exists_atPos (Nat.lt_of_lt_of_le ha (typeGroupBase_le_length A g))
          obtain ⟨h', m', su', hpb⟩ := exists_atPos (Nat.lt_of_lt_of_le hb (typeGroupBase_le_length B g'))
          have hbase := hpa.base_le
          obtain ⟨hans, hset, hkeep⟩ := eqGroups_spec hsA hsB hpA hpB fuel hpa hpb (by omega)
            (ht.earlier.mono (by omega))
          exact ⟨by simp [hans, GroupRel, ha, Nat.not_le.2 ha], ht.nested (by omega) hset hkeep⟩
        · -- the pair itself: positions are compared
          obtain ⟨k, rfl⟩ := Nat.exists_eq_add_of_le ha
          obtain ⟨k', rfl⟩ := Nat.exists_eq_add_of_le hb
          obtain ⟨su, -, hpa⟩ := atPos_member hrt (l := k) (by rw [← groupLength_of_get hrt]; omega)
          obtain ⟨su', -, hpb⟩ := atPos_member hrt' (l := k') (by rw [← groupLength_of_get hrt']; omega)
          obtain ⟨f, rfl⟩ : ∃ f, fuel = f + 1 := ⟨fuel - 1, by omega⟩
          have hact := eqGroups_active hpa hpb hlen ht.active f
          intro u
          have hu : u = (decide (k = k'), t) := hact
          rw [hu]
          exact ⟨by simp [GroupRel], ht⟩
      obtain ⟨hok, hcmp⟩ := runChecks_spec (fun a b hab => hcalls a b (hdec.paired a b hab))
        (Comparing.start (hs.mono (Nat.le_succ _)))
      have hsame := hok.trans hdec.iff
      have hans : _ ↔ SameDef A B x y := hsame.trans
        ((sameDef_iff hx hrt hy hrt').trans (and_iff_left rfl)).symm
      rw [hr]
      refine ⟨hans, hcmp.finish hs (hans.trans hfirst.symm), fun q hq => ?_⟩
      have hne : q ≠ (typeGroupBase A g, typeGroupBase B g') := by
        rintro rfl
        exact Nat.lt_irrefl _ hq
      exact (if_neg hne).trans (hcmp.others q (by omega) hne)

end

/-! ## Equivalence and supertypes -/

section

variable {A B : List RecType} (hsA : TypesInScope A) (hsB : TypesInScope B) (hpA : PlainTypes A)
  (hpB : PlainTypes B) {sameSlice : Bool} (hslice : sameSlice = true → descriptorsOf A = descriptorsOf B)

include hsA hsB hpA hpB hslice

/-- The test decides whether the entries are the same position of equal closed groups, also when it
rejects members of one group of a shared slice at once. -/
theorem definedTypeEquivalent_iff (i j : Nat) :
    definedTypeEquivalent (descriptorsOf A) (descriptorsOf B) sameSlice i j = true ↔ SameDef A B i j := by
  unfold definedTypeEquivalent
  by_cases hi : i < (flatSubTypes A).length
  swap
  · rw [descriptorsOf_none.2 (Nat.le_of_not_lt hi)]
    exact ⟨fun h => (by cases h), fun h => absurd h.lt_length.1 hi⟩
  by_cases hj : j < (flatSubTypes B).length
  swap
  · rw [descriptorsOf_none.2 (Nat.le_of_not_lt hj)]
    exact ⟨fun h => (by simp at h), fun h => absurd h.lt_length.2 hj⟩
  obtain ⟨g, l, st, hx⟩ := exists_atPos hi
  obtain ⟨g', l', st', hy⟩ := exists_atPos hj
  rw [descriptorsOf_get hx, descriptorsOf_get hy]
  simp only
  split
  · rename_i hshort
    obtain ⟨hne, -, hsame, hgroup⟩ := hshort
    refine ⟨fun h => (by cases h), fun h => ?_⟩
    -- both indexes lie in one group of one list, so their positions differ
    have hbase : typeGroupBase A g = typeGroupBase B g' := by
      have hin : inRecGroup (descriptorsOf A) (descGroup A g) j = true := by
        rw [hslice hsame, inRecGroup, descriptorsOf_get hy]
        exact decide_eq_true (congrArg some hgroup.symm)
      have hpos := (inRecGroup_iff hx).1 hin
      obtain ⟨rt, hrt, -⟩ := hx.member
      obtain ⟨m, rfl⟩ := Nat.exists_eq_add_of_le hpos.1
      obtain ⟨su, -, hy'⟩ := atPos_member hrt (l := m) (by rw [← groupLength_of_get hrt]; omega)
      have hbounds := groupBounds_eq hy'
      rw [hslice hsame, groupBounds_eq hy] at hbounds
      exact (congrArg Prod.fst (Option.some.inj hbounds)).symm
    have hl := (h.position hx hy).1
    have := hx.index
    have := hy.index
    omega
  · have hbase := hx.base_le
    have hpos : 0 < (flatSubTypes B).length := by omega
    have hfuel : typeGroupBase A g + 2 ≤
        (descriptorsOf A).length * (descriptorsOf B).length + 1 := by
      rw [descriptorsOf_length, descriptorsOf_length]
      have := Nat.le_mul_of_pos_right (flatSubTypes A).length hpos
      omega
    have hinit : Settled A B (typeGroupBase A g + 1) fun _ => .absent :=
      ⟨by simp, by simp, by simp⟩
    exact (eqGroups_spec hsA hsB hpA hpB _ hx hy hfuel hinit).1

/-- The walk over the declared supertypes: every entry it has seen lies above the current one. -/
theorem visitSupers_iff (j : Nat) : ∀ (fuel : Nat) (seen : List Nat) (i : Nat),
    i < (flatSubTypes A).length → i < fuel → (∀ k ∈ seen, i < k) →
    ((visitSupers sameSlice (descriptorsOf A) (descriptorsOf B) j fuel seen i).1 = true ↔
      ∃ c, Ancestor A i c ∧ SameDef A B c j)
  | 0, _, _, _, hf, _ => absurd hf (Nat.not_lt_zero _)
  | fuel + 1, seen, i, hi, hf, hseen => by
    obtain ⟨g, l, st, hx⟩ := exists_atPos hi
    have hnot : i ∉ seen := fun h => Nat.lt_irrefl _ (hseen i h)
    rw [visitSupers, descriptorsOf_get hx]
    simp only [if_neg hnot]
    split
    · rename_i hsame
      rw [definedTypeEquivalent_iff hsA hsB hpA hpB hslice] at hsame
      simp only [true_iff]
      exact ⟨i, .refl, hsame⟩
    · rename_i hne
      rw [definedTypeEquivalent_iff hsA hsB hpA hpB hslice] at hne
      cases hpar : superParent A i with
      | none =>
        have hnil : st.supers = [] := by
          rw [superParent, hx.flat] at hpar
          cases hsup : st.supers with
          | nil => rfl
          | cons => simp [hsup] at hpar
        simp only [subDesc, hnil, map_nil, anyVisit, Bool.false_eq_true, false_iff]
        rintro ⟨c, hic, hcj⟩
        rw [(ancestor_of_root hpar).1 hic] at hcj
        exact hne hcj
      | some p =>
        have hpl := superParent_lt hsA hpar
        obtain ⟨g', l', st', sup, hx', hsup, rfl⟩ := (superParent_iff hsA).1 hpar
        obtain ⟨rfl, rfl, rfl⟩ := hx.unique hx'
        have hrec := visitSupers_iff j fuel (i :: seen) (scopedFlat A g sup) (by omega) (by omega)
          (forall_mem_cons.2 ⟨hpl, fun k h => Nat.lt_trans hpl (hseen k h)⟩)
        have hstep : (∃ c, Ancestor A i c ∧ SameDef A B c j) ↔
            ∃ c, Ancestor A (scopedFlat A g sup) c ∧ SameDef A B c j := by
          constructor
          · rintro ⟨c, hic, hcj⟩
            rcases (ancestor_of_parent hpar).1 hic with rfl | hpc
            · exact absurd hcj hne
            · exact ⟨c, hpc, hcj⟩
          · rintro ⟨c, hpc, hcj⟩
            exact ⟨c, (ancestor_of_parent hpar).2 (.inr hpc), hcj⟩
        rw [hstep, ← hrec]
        simp only [subDesc, hsup, map_cons, map_nil, anyVisit]
        rcases visitSupers sameSlice (descriptorsOf A) (descriptorsOf B) j fuel (i :: seen)
          (scopedFlat A g sup) with ⟨b, seen'⟩
        cases b <;> simp

theorem definedTypeHasSuper_iff {i : Nat} (hi : i < (flatSubTypes A).length) (j : Nat) :
    definedTypeHasSuper sameSlice (descriptorsOf A) (descriptorsOf B) i j = true ↔
      ∃ c, Ancestor A i c ∧ SameDef A B c j :=
  visitSupers_iff hsA hsB hpA hpB hslice j _ [] i hi (by rw [descriptorsOf_length]; omega) (by simp)

end

end Wago.Runtime
