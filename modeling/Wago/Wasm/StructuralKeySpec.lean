/-
Structural keys decide iso-recursive equivalence. The serialiser with its memos and budget writes a
fixed encoding of each group; two encodings are equal exactly when the closed groups are; and as
long as no two hashed strings collide, so are the keys.
-/
import Wago.Lib.Leb128
import Wago.Wasm.StructuralKey
import Wago.Wasm.TypeEquivSpec

namespace Wago.Wasm

open PrefixCode List

/-! ## The encoding of a group -/

section

-- `dig` gives the digests that stand for the types declared before the group
variable (dig : Nat → List UInt8)

def refBytes (idx : TypeIdx) : List UInt8 :=
  if idx.isRec then 0xf2 :: u32Bytes idx.index else 0xf4 :: dig idx.index

def heapBytes : HeapType → List UInt8
  | .abs a => [a.code]
  | .typeIndex idx => refBytes dig idx
  | _ => []

def valueBytes (v : ValType) : List UInt8 :=
  v.kindByte ::
    match v with
    | .num n => [n.code]
    | .ref rt => boolByte rt.nullable :: boolByte rt.exact :: rt.heap.kindByte :: heapBytes dig rt.heap
    | _ => []

def fieldBytes (f : FieldType) : List UInt8 :=
  match f.storage with
  | .packed p => [1, p.code, f.mutability.code]
  | .val v => 0 :: (valueBytes dig v ++ [f.mutability.code])

def metadataBytes : Option TypeIdx → List UInt8
  | none => [0]
  | some idx => 1 :: refBytes dig idx

def compBytes : CompType → List UInt8
  | .func ps rs =>
    u32Bytes ps.length ++ (ps.flatMap (valueBytes dig) ++
      (u32Bytes rs.length ++ rs.flatMap (valueBytes dig)))
  | .struct fs => u32Bytes fs.length ++ fs.flatMap (fieldBytes dig)
  | .array f => fieldBytes dig f

def subTypeBytes (st : SubType) : List UInt8 :=
  0xf1 :: boolByte st.final :: (u32Bytes st.supers.length ++ (st.supers.flatMap (refBytes dig) ++
    (metadataBytes dig st.describes ++ (metadataBytes dig st.descriptor ++
      st.comp.kind.byte :: compBytes dig st.comp))))

def groupEncoding (rt : RecType) : List UInt8 :=
  u32Bytes rt.subTypes.length ++ rt.subTypes.flatMap (subTypeBytes dig)

end

/-- The digest of member `k`, from the digests of the types declared before. -/
def digestMember (env : List (List UInt8)) (rt : RecType) (k : Nat) : List UInt8 :=
  structuralGroupMemberDigest (Sha256.sum256 (groupEncoding (fun i => env[i]?.getD []) rt))
    rt.subTypes.length k

/-- The member digest of a flat index. -/
def typeDigest (types : List RecType) (i : Nat) : List UInt8 :=
  (rollFrom digestMember [] types)[i]?.getD []

/-- The digests the encoding of group `g` refers to. -/
def earlierDigest (types : List RecType) (g : Nat) (i : Nat) : List UInt8 :=
  (rolledEnv digestMember types g)[i]?.getD []

/-- The bytes of group `g`. -/
def groupBytesOf (types : List RecType) (g : Nat) : List UInt8 :=
  groupEncoding (earlierDigest types g) (types[g]?.getD { subTypes := [] })

section

variable {types : List RecType} {rt : RecType} {i g l : Nat} {st : SubType}

theorem earlierDigest_eq (h : i < typeGroupBase types g) : earlierDigest types g i = typeDigest types i := by
  rw [earlierDigest, rolledEnv_get h, typeDigest]

theorem groupBytesOf_get (h : types[g]? = some rt) :
    groupBytesOf types g = groupEncoding (earlierDigest types g) rt := by simp [groupBytesOf, h]

theorem typeDigest_at (h : AtPos types i g l st) :
    typeDigest types i =
      structuralGroupMemberDigest (Sha256.sum256 (groupBytesOf types g)) (groupLength types g) l := by
  obtain ⟨rt, hrt, -⟩ := h.member
  have hl := h.lt_groupLength
  rw [groupLength_of_get hrt] at hl
  rw [typeDigest, h.index, rolled_get hrt hl, groupLength_of_get hrt, groupBytesOf_get hrt]
  rfl

end

/-! ## The serialiser writes the encoding -/

/-- From any state with the invariant, `m` writes `bs` or gives up, and keeps the invariant. -/
def Writes (I : EncodeState → Prop) (m : EncodeM (List UInt8)) (bs : List UInt8) : Prop :=
  ∀ s, I s → match m.run s with
    | .ok out s' => out = bs ∧ I s'
    | .error _ s' => I s'

/-- Every memo holds what the encoding prescribes. -/
structure EncodeInv (types : List RecType) (s : EncodeState) : Prop where
  groupBytes : ∀ g b, s.groupBytes g = some b → b = groupBytesOf types g
  memberDigests : ∀ i d, s.memberDigests i = some d → d = typeDigest types i
  groupDigests : ∀ g d, s.groupDigests g = some d → d = Sha256.sum256 (groupBytesOf types g)

section

variable {types : List RecType} {I : EncodeState → Prop} {m : EncodeM (List UInt8)} {bs bs' : List UInt8}

theorem Writes.bytes_eq (h : Writes I m bs) (he : bs = bs') : Writes I m bs' := he ▸ h

theorem writes_throw (I : EncodeState → Prop) (bs : List UInt8) : Writes I (throw ()) bs :=
  fun _ hs => hs

theorem writes_pure (I : EncodeState → Prop) (bs : List UInt8) : Writes I (pure bs) bs :=
  fun _ hs => ⟨rfl, hs⟩

theorem Writes.bind {f : List UInt8 → EncodeM (List UInt8)} {out : List UInt8} (h : Writes I m bs)
    (hf : Writes I (f bs) out) : Writes I (m >>= f) out := by
  intro s hs
  have hm := h s hs
  cases hr : m.run s with
  | error e s' =>
    rw [hr] at hm
    rw [Run.bind_of_error hr]; exact hm
  | ok b s' =>
    rw [hr] at hm
    rw [Run.bind_of_ok hr, hm.1]; exact hf s' hm.2

theorem writes_get {f : EncodeState → EncodeM (List UInt8)} (h : ∀ s, I s → Writes I (f s) bs) :
    Writes I (get >>= f) bs := fun s hs => h s hs s hs

theorem writes_modify {u : EncodeState → EncodeState} (h : ∀ s, I s → I (u s))
    (hm : Writes I m bs) : Writes I (modify u >>= fun _ => m) bs := fun s hs => hm (u s) (h s hs)

theorem EncodeInv.budget {s : EncodeState} (h : EncodeInv types s) (n : Nat) :
    EncodeInv types { s with budget := n } := ⟨h.groupBytes, h.memberDigests, h.groupDigests⟩

theorem writes_byte (types : List RecType) (b : UInt8) : Writes (EncodeInv types) (appendByte b) [b] := by
  refine writes_modify (fun s hs => hs.budget _) (writes_get fun s _ => ?_)
  split
  · exact writes_throw _ _
  · exact writes_pure _ _

theorem writes_u32 (types : List RecType) (v : Nat) :
    Writes (EncodeInv types) (appendU32Bytes v) (u32Bytes v) := by
  refine writes_get fun s _ => ?_
  split
  · exact writes_throw _ _
  · exact writes_modify (fun s hs => hs.budget _) (writes_pure _ _)

theorem writes_nil (I : EncodeState → Prop) : Writes I (appendAll []) [] := writes_pure _ _

theorem writes_cons {ws : List (EncodeM (List UInt8))} (h : Writes I m bs)
    (hs : Writes I (appendAll ws) bs') : Writes I (appendAll (m :: ws)) (bs ++ bs') :=
  h.bind (hs.bind (writes_pure _ _))

theorem writes_map {α : Type} {f : α → EncodeM (List UInt8)} {g : α → List UInt8} : ∀ {as : List α},
    (∀ a ∈ as, Writes I (f a) (g a)) → Writes I (appendAll (as.map f)) (as.flatMap g)
  | [], _ => writes_nil I
  | a :: as, h => by
    obtain ⟨ha, has⟩ := forall_mem_cons.1 h
    rw [map_cons, flatMap_cons]
    exact writes_cons ha (writes_map has)

end

variable {st : SubType}

section

variable {types : List RecType} {g : Nat} {md : Nat → EncodeM (List UInt8)}
  (hmd : ∀ i, Writes (EncodeInv types) (md i) (typeDigest types i)) (hg : g < types.length)

include hmd hg

theorem writeRef_writes {idx : TypeIdx} (h : IdxInScope types g idx) :
    Writes (EncodeInv types) (writeRef types md idx g) (refBytes (earlierDigest types g) idx) := by
  obtain ⟨k, isRec⟩ := idx
  cases isRec with
  | true =>
    simp only [IdxInScope, if_true] at h
    have hrt := List.getElem?_eq_getElem hg
    rw [groupLength_of_get hrt] at h
    obtain ⟨st, -, hpos⟩ := atPos_member hrt h
    have hres : resolveType types ⟨k, true⟩ g = some (typeGroupBase types g + k) := by
      simp [resolveType, groupLength_of_get hrt, hg, h]
    rw [writeRef, hres]
    simp only [hpos.flat, if_true, Nat.add_sub_cancel_left]
    exact (writes_cons (writes_byte types _) (writes_cons (writes_u32 types _) (writes_nil _))).bytes_eq
      (by simp [refBytes])
  | false =>
    simp only [IdxInScope, Bool.false_eq_true, if_false] at h
    have hlt := Nat.lt_of_lt_of_le h (typeGroupBase_le_length types g)
    obtain ⟨g', l, st, hpos⟩ := exists_atPos hlt
    have hne : g' ≠ g := Nat.ne_of_lt (hpos.group_lt_of_lt_base h)
    have hres : resolveType types ⟨k, false⟩ g = some k := by simp [resolveType, hlt]
    rw [writeRef, hres]
    simp only [hpos.flat, if_neg hne]
    refine (hmd k).bind ((writes_cons (writes_byte types _)
      (writes_map fun b _ => writes_byte types b)).bytes_eq ?_)
    simp [refBytes, earlierDigest_eq h]

theorem writeHeap_writes {h : HeapType} (hs : HeapInScope types g h) (hp : PlainHeap h) :
    Writes (EncodeInv types) (writeHeap types md h g) (heapBytes (earlierDigest types g) h) := by
  cases h with
  | abs a => exact writes_byte types _
  | typeIndex idx => exact writeRef_writes hmd hg hs
  | defType d => exact hp.elim
  | bottom => exact hp.elim

theorem writeValue_writes {v : ValType} (hs : ValInScope types g v) (hp : PlainVal v) :
    Writes (EncodeInv types) (writeValue types md v g) (valueBytes (earlierDigest types g) v) := by
  have hb := writes_byte types
  cases v with
  | num n => exact (writes_cons (hb _) (writes_cons (hb _) (writes_nil _))).bytes_eq (by simp [valueBytes])
  | vec => exact hb _
  | bot => exact hb _
  | ref rt =>
    exact (writes_cons (hb _) (writes_cons (hb _) (writes_cons (hb _) (writes_cons (hb _)
      (writes_cons (writeHeap_writes hmd hg hs hp) (writes_nil _)))))).bytes_eq (by simp [valueBytes])

theorem writeField_writes {f : FieldType} (hs : FieldInScope types g f) (hp : PlainField f) :
    Writes (EncodeInv types) (writeField types md f g) (fieldBytes (earlierDigest types g) f) := by
  have hb := writes_byte types
  obtain ⟨st, m⟩ := f
  cases st with
  | packed p =>
    exact (writes_cons (hb _) (writes_cons (hb _) (writes_cons (hb _) (writes_nil _)))).bytes_eq
      (by simp [fieldBytes])
  | val v =>
    exact (writes_cons (hb _) (writes_cons (writeValue_writes hmd hg (v := v) hs hp)
      (writes_cons (hb _) (writes_nil _)))).bytes_eq (by simp [fieldBytes])

theorem writeMetadata_writes {o : Option TypeIdx} (hs : ∀ idx ∈ o, IdxInScope types g idx) :
    Writes (EncodeInv types) (writeMetadata types md o g) (metadataBytes (earlierDigest types g) o) := by
  cases o with
  | none => exact writes_byte types _
  | some idx =>
    exact (writes_cons (writes_byte types _)
      (writes_cons (writeRef_writes hmd hg (hs idx rfl)) (writes_nil _))).bytes_eq
      (by simp [metadataBytes])

theorem writeComp_writes {ct : CompType} (hs : CompInScope types g ct) (hp : PlainComp ct) :
    Writes (EncodeInv types) (writeComp types md ct g) (compBytes (earlierDigest types g) ct) := by
  have hu := writes_u32 types
  cases ct with
  | func ps rs =>
    obtain ⟨⟨-, hpp⟩, -, hpr⟩ := hp
    have hps := writes_map fun v hv => writeValue_writes hmd hg (hs.1 v hv) (hpp v hv)
    have hrs := writes_map fun v hv => writeValue_writes hmd hg (hs.2 v hv) (hpr v hv)
    exact (writes_cons (hu _) (writes_cons hps (writes_cons (hu _) (writes_cons hrs
      (writes_nil _))))).bytes_eq (by simp [compBytes])
  | struct fs =>
    have hfs := writes_map fun f hf => writeField_writes hmd hg (hs f hf) (hp.2 f hf)
    exact (writes_cons (hu _) (writes_cons hfs (writes_nil _))).bytes_eq (by simp [compBytes])
  | array f => exact writeField_writes hmd hg hs hp

theorem writeSubType_writes {l : Nat} (hs : SubTypeInScope types g l st)
    (hp : PlainComp st.comp) :
    Writes (EncodeInv types) (writeSubType types md g st) (subTypeBytes (earlierDigest types g) st) := by
  have hb := writes_byte types
  have hsup := writes_map fun idx hidx => writeRef_writes hmd hg (hs.supers idx hidx).1
  exact (writes_cons (hb _) (writes_cons (hb _) (writes_cons (writes_u32 types _) (writes_cons hsup
    (writes_cons (writeMetadata_writes hmd hg hs.describes)
      (writes_cons (writeMetadata_writes hmd hg hs.descriptor)
        (writes_cons (hb _) (writes_cons (writeComp_writes hmd hg hs.comp hp)
          (writes_nil _))))))))).bytes_eq (by simp [subTypeBytes])

end

section

variable {types : List RecType}

theorem memberDigest_writes {build : Nat → EncodeM (List UInt8)}
    (hb : ∀ g, Writes (EncodeInv types) (build g) (groupBytesOf types g)) (i : Nat) :
    Writes (EncodeInv types) (memberDigest types build i) (typeDigest types i) := by
  refine writes_get fun s hs => ?_
  split
  · rename_i d hd
    exact (writes_pure _ _).bytes_eq (hs.memberDigests i d hd)
  split
  · exact writes_throw _ _
  rename_i st g hst
  obtain ⟨l, hpos⟩ := subtypeByFlatTypeIdx_iff.1 hst
  have hgroup : Writes (EncodeInv types) (ensureGroupDigest build g)
      (Sha256.sum256 (groupBytesOf types g)) := by
    refine writes_get fun s hs => ?_
    split
    · rename_i d hd
      exact (writes_pure _ _).bytes_eq (hs.groupDigests g d hd)
    · refine (hb g).bind (writes_modify (fun s hs => ⟨hs.groupBytes, hs.memberDigests, ?_⟩) (writes_pure _ _))
      intro g' d hd
      dsimp only at hd
      split at hd
      · rename_i hgg
        subst hgg; exact (Option.some.inj hd).symm
      · exact hs.groupDigests g' d hd
  have hdigest : structuralGroupMemberDigest (Sha256.sum256 (groupBytesOf types g)) (groupLength types g)
      (i - typeGroupBase types g) = typeDigest types i := by
    rw [typeDigest_at hpos, hpos.location.2]
  refine hgroup.bind (writes_modify (fun s hs => ⟨hs.groupBytes, ?_, hs.groupDigests⟩)
    ((writes_pure _ _).bytes_eq hdigest))
  intro i' d hd
  dsimp only at hd
  split at hd
  · rename_i hii
    subst hii; rw [← hdigest]; exact (Option.some.inj hd).symm
  · exact hs.memberDigests i' d hd

theorem buildGroup_writes (hs : TypesInScope types) (hp : PlainTypes types) :
    ∀ (fuel : Nat) (visiting : List Nat) (g : Nat),
      Writes (EncodeInv types) (buildGroup types fuel visiting g) (groupBytesOf types g)
  | 0, _, _ => writes_throw _ _
  | fuel + 1, visiting, g => by
    rw [buildGroup]
    refine writes_get fun s hs' => ?_
    split
    · rename_i b hb
      exact (writes_pure _ _).bytes_eq (hs'.groupBytes g b hb)
    split
    · exact writes_throw _ _
    rename_i rt hrt
    split
    · exact writes_throw _ _
    have hmd := memberDigest_writes (buildGroup_writes hs hp fuel (g :: visiting))
    have hg := (List.getElem?_eq_some_iff.1 hrt).1
    have hmembers : Writes (EncodeInv types)
        (appendAll (rt.subTypes.map (writeSubType types
          (memberDigest types (buildGroup types fuel (g :: visiting))) g)))
        (rt.subTypes.flatMap (subTypeBytes (earlierDigest types g))) := by
      refine writes_map fun st hst => ?_
      obtain ⟨l, hl⟩ := List.getElem?_of_mem hst
      exact writeSubType_writes hmd hg (hs ⟨⟨rt, hrt, hl⟩, rfl⟩)
        ((hp rt (mem_of_getElem? hrt)).2 st hst)
    have hbytes : u32Bytes rt.subTypes.length ++ rt.subTypes.flatMap (subTypeBytes (earlierDigest types g)) =
        groupBytesOf types g := by rw [groupBytesOf_get hrt, groupEncoding]
    refine ((writes_cons (writes_u32 types _) hmembers).bytes_eq hbytes).bind
      (writes_modify (fun s hs => ⟨?_, hs.memberDigests, hs.groupDigests⟩) (writes_pure _ _))
    intro g' b hb
    dsimp only at hb
    split at hb
    · rename_i hgg
      subst hgg; exact (Option.some.inj hb).symm
    · exact hs.groupBytes g' b hb

end

/-! ## Equal encodings are equal closed groups -/

theorem u32Bytes_agree {v w : Nat} (hv : v < 2 ^ 32) (hw : w < 2 ^ 32) :
    Agree (u32Bytes v) (u32Bytes w) (v = w) := by
  have hlen : (u32Bytes v).length = (u32Bytes w).length := rfl
  refine (agree_of_length hlen).congr ⟨fun h => ?_, fun h => by rw [h]⟩
  simp only [u32Bytes, List.cons.injEq, and_true, ← UInt8.toNat_inj, UInt8.toNat_ofNat'] at h
  omega

theorem boolByte_agree (a b : Bool) : Agree [boolByte a] [boolByte b] (a = b) :=
  (agree_single _ _).congr (by cases a <;> cases b <;> decide)

theorem numCode_agree (a b : NumType) : Agree [a.code] [b.code] (a = b) :=
  (agree_single _ _).congr (by cases a <;> cases b <;> decide)

theorem absCode_agree (a b : AbsHeapType) : Agree [a.code] [b.code] (a = b) :=
  (agree_single _ _).congr (by cases a <;> cases b <;> decide)

theorem mutCode_agree (a b : Mut) : Agree [a.code] [b.code] (a = b) :=
  (agree_single _ _).congr (by cases a <;> cases b <;> decide)

theorem packCode_agree (a b : PackType) : Agree [a.code] [b.code] (a = b) :=
  (agree_single _ _).congr (by cases a <;> cases b <;> decide)

/-- The digests used in two groups tell the types declared before them apart. -/
structure DigestsDecide (types₁ types₂ : List RecType) (g₁ g₂ : Nat) : Prop where
  iff : ∀ i < typeGroupBase types₁ g₁, ∀ j < typeGroupBase types₂ g₂,
    (earlierDigest types₁ g₁ i = earlierDigest types₂ g₂ j ↔
      (closedEnv types₁ g₁)[i]? = (closedEnv types₂ g₂)[j]?)
  small₁ : groupLength types₁ g₁ < 2 ^ 32
  small₂ : groupLength types₂ g₂ < 2 ^ 32

variable {types : List RecType}

theorem earlierDigest_length {g i : Nat} (h : i < typeGroupBase types g) :
    (earlierDigest types g i).length = 32 := by
  obtain ⟨g', l, st, hpos⟩ := exists_atPos (Nat.lt_of_lt_of_le h (typeGroupBase_le_length types g))
  rw [earlierDigest_eq h, typeDigest_at hpos, structuralGroupMemberDigest, Sha256.sum256_length]

theorem closeIdx_outer_iff {env₁ env₂ : List ClosedDef} {i j : Nat} (hi : i < env₁.length)
    (hj : j < env₂.length) :
    closeIdx env₁ { index := i } = closeIdx env₂ { index := j } ↔ env₁[i]? = env₂[j]? := by
  simp [closeIdx, List.getElem?_eq_getElem hi, List.getElem?_eq_getElem hj, Prod.ext_iff]

section

variable {types₁ types₂ : List RecType} {g₁ g₂ : Nat} (hd : DigestsDecide types₁ types₂ g₁ g₂)

include hd

theorem refBytes_agree {x y : TypeIdx} (hx : IdxInScope types₁ g₁ x) (hy : IdxInScope types₂ g₂ y) :
    Agree (refBytes (earlierDigest types₁ g₁) x) (refBytes (earlierDigest types₂ g₂) y)
      (closeIdx (closedEnv types₁ g₁) x = closeIdx (closedEnv types₂ g₂) y) := by
  obtain ⟨i, xr⟩ := x
  obtain ⟨j, yr⟩ := y
  cases xr with
  | true =>
    simp only [IdxInScope, if_true] at hx
    cases yr with
    | true =>
      simp only [IdxInScope, if_true] at hy
      exact ((u32Bytes_agree (Nat.lt_trans hx hd.small₁) (Nat.lt_trans hy hd.small₂)).cons _).congr
        (by simp [closeIdx])
    | false =>
      simp only [IdxInScope, Bool.false_eq_true, if_false] at hy
      obtain ⟨d, -, hcy⟩ := closeIdx_outer hy
      rw [hcy]
      exact (agree_mismatch (by decide)).congr (by simp [closeIdx])
  | false =>
    simp only [IdxInScope, Bool.false_eq_true, if_false] at hx
    cases yr with
    | true =>
      obtain ⟨d, -, hcx⟩ := closeIdx_outer hx
      rw [hcx]
      exact (agree_mismatch (by decide)).congr (by simp [closeIdx])
    | false =>
      simp only [IdxInScope, Bool.false_eq_true, if_false] at hy
      rw [closeIdx_outer_iff (by rwa [closedEnv_length]) (by rwa [closedEnv_length]), ← hd.iff i hx j hy]
      exact (agree_of_length (by rw [earlierDigest_length hx, earlierDigest_length hy])).cons _

theorem heapBytes_agree {x y : HeapType} (hx : HeapInScope types₁ g₁ x) (hy : HeapInScope types₂ g₂ y)
    (hpx : PlainHeap x) (hpy : PlainHeap y) :
    Agree (x.kindByte :: heapBytes (earlierDigest types₁ g₁) x)
      (y.kindByte :: heapBytes (earlierDigest types₂ g₂) y)
      (closeHeap (closedEnv types₁ g₁) x = closeHeap (closedEnv types₂ g₂) y) := by
  cases x with
  | abs a =>
    cases y with
    | abs b => exact ((absCode_agree a b).cons _).congr (by simp [closeHeap])
    | typeIndex j => exact (agree_mismatch (by simp [HeapType.kindByte])).congr (by simp [closeHeap])
    | _ => exact hpy.elim
  | typeIndex i =>
    cases y with
    | abs b => exact (agree_mismatch (by simp [HeapType.kindByte])).congr (by simp [closeHeap])
    | typeIndex j => exact ((refBytes_agree hd hx hy).cons _).congr (by simp [closeHeap])
    | _ => exact hpy.elim
  | _ => exact hpx.elim

theorem valueBytes_agree {v w : ValType} (hv : ValInScope types₁ g₁ v) (hw : ValInScope types₂ g₂ w)
    (hpv : PlainVal v) (hpw : PlainVal w) :
    Agree (valueBytes (earlierDigest types₁ g₁) v) (valueBytes (earlierDigest types₂ g₂) w)
      (closeVal (closedEnv types₁ g₁) v = closeVal (closedEnv types₂ g₂) w) := by
  cases v with
  | num n =>
    cases w with
    | num m => exact ((numCode_agree n m).cons _).congr (by simp [closeVal])
    | bot => exact hw.elim
    | _ => exact (agree_mismatch (by simp [ValType.kindByte])).congr (by simp [closeVal])
  | vec =>
    cases w with
    | vec => exact (agree_nil.cons _).congr (by simp [closeVal])
    | bot => exact hw.elim
    | _ => exact (agree_mismatch (by simp [ValType.kindByte])).congr (by simp [closeVal])
  | ref r =>
    cases w with
    | ref q =>
      have hheap := heapBytes_agree hd hv hw hpv hpw
      have hflags := (boolByte_agree r.nullable q.nullable).append
        ((boolByte_agree r.exact q.exact).append hheap)
      exact (hflags.cons _).congr (by simp [closeVal])
    | bot => exact hw.elim
    | _ => exact (agree_mismatch (by simp [ValType.kindByte])).congr (by simp [closeVal])
  | bot => exact hv.elim

theorem fieldBytes_agree {f f' : FieldType} (hf : FieldInScope types₁ g₁ f)
    (hf' : FieldInScope types₂ g₂ f') (hp : PlainField f) (hp' : PlainField f') :
    Agree (fieldBytes (earlierDigest types₁ g₁) f) (fieldBytes (earlierDigest types₂ g₂) f')
      (closeField (closedEnv types₁ g₁) f = closeField (closedEnv types₂ g₂) f') := by
  obtain ⟨st, m⟩ := f
  obtain ⟨st', m'⟩ := f'
  cases st with
  | packed p =>
    cases st' with
    | packed q =>
      exact (((packCode_agree p q).append (mutCode_agree m m')).cons _).congr (by simp [closeField])
    | val w => exact (agree_mismatch (by decide)).congr (by simp [closeField])
  | val v =>
    cases st' with
    | packed q => exact (agree_mismatch (by decide)).congr (by simp [closeField])
    | val w =>
      exact (((valueBytes_agree hd (v := v) (w := w) hf hf' hp hp').append
        (mutCode_agree m m')).cons _).congr (by simp [closeField])

theorem metadataBytes_agree {x y : Option TypeIdx} (hx : ∀ idx ∈ x, IdxInScope types₁ g₁ idx)
    (hy : ∀ idx ∈ y, IdxInScope types₂ g₂ idx) :
    Agree (metadataBytes (earlierDigest types₁ g₁) x) (metadataBytes (earlierDigest types₂ g₂) y)
      (x.map (closeIdx (closedEnv types₁ g₁)) = y.map (closeIdx (closedEnv types₂ g₂))) := by
  cases x with
  | none =>
    cases y with
    | none => exact (agree_nil.cons _).congr (by simp)
    | some j => exact (agree_mismatch (by decide)).congr (by simp)
  | some i =>
    cases y with
    | none => exact (agree_mismatch (by decide)).congr (by simp)
    | some j => exact ((refBytes_agree hd (hx i rfl) (hy j rfl)).cons _).congr (by simp)

omit hd in
/-- A vector is its 32-bit length and its elements. -/
theorem vectorBytes_agree {α β δ : Type} {f : α → List UInt8} {g : β → List UInt8} {p : α → δ} {q : β → δ}
    {as : List α} {bs : List β} (ha : as.length < 2 ^ 32) (hb : bs.length < 2 ^ 32)
    (h : ∀ a ∈ as, ∀ b ∈ bs, Agree (f a) (g b) (p a = q b)) :
    Agree (u32Bytes as.length ++ as.flatMap f) (u32Bytes bs.length ++ bs.flatMap g)
      (as.map p = bs.map q) := by
  refine ((u32Bytes_agree ha hb).append_of fun hlen => agree_flatMap hlen h).congr ?_
  rw [and_iff_right_iff_imp]
  intro he
  simpa using congrArg List.length he

theorem compBytes_agree {x y : CompType} (hx : CompInScope types₁ g₁ x) (hy : CompInScope types₂ g₂ y)
    (hpx : PlainComp x) (hpy : PlainComp y) :
    Agree (x.kind.byte :: compBytes (earlierDigest types₁ g₁) x)
      (y.kind.byte :: compBytes (earlierDigest types₂ g₂) y)
      (closeComp (closedEnv types₁ g₁) x = closeComp (closedEnv types₂ g₂) y) := by
  cases x with
  | func ps rs =>
    cases y with
    | func ps' rs' =>
      obtain ⟨⟨hpl, hp⟩, hrl, hr⟩ := hpx
      obtain ⟨⟨hpl', hp'⟩, hrl', hr'⟩ := hpy
      have hparams := vectorBytes_agree hpl hpl' fun a ha b hb =>
        valueBytes_agree hd (hx.1 a ha) (hy.1 b hb) (hp a ha) (hp' b hb)
      have hresults := vectorBytes_agree hrl hrl' fun a ha b hb =>
        valueBytes_agree hd (hx.2 a ha) (hy.2 b hb) (hr a ha) (hr' b hb)
      have hboth := (hparams.append hresults).cons CompTypeKind.func.byte
      rw [append_assoc, append_assoc] at hboth
      exact hboth.congr (by simp [closeComp])
    | _ => exact (agree_mismatch (by simp [CompType.kind, CompTypeKind.byte])).congr (by simp [closeComp])
  | struct fs =>
    cases y with
    | struct fs' =>
      have hfields := vectorBytes_agree hpx.1 hpy.1 fun a ha b hb =>
        fieldBytes_agree hd (hx a ha) (hy b hb) (hpx.2 a ha) (hpy.2 b hb)
      exact (hfields.cons _).congr (by simp [closeComp])
    | _ => exact (agree_mismatch (by simp [CompType.kind, CompTypeKind.byte])).congr (by simp [closeComp])
  | array f =>
    cases y with
    | array f' => exact ((fieldBytes_agree hd hx hy hpx hpy).cons _).congr (by simp [closeComp])
    | _ => exact (agree_mismatch (by simp [CompType.kind, CompTypeKind.byte])).congr (by simp [closeComp])

theorem subTypeBytes_agree {l l' : Nat} {x y : SubType} (hx : SubTypeInScope types₁ g₁ l x)
    (hy : SubTypeInScope types₂ g₂ l' y) (hpx : PlainComp x.comp) (hpy : PlainComp y.comp) :
    Agree (subTypeBytes (earlierDigest types₁ g₁) x) (subTypeBytes (earlierDigest types₂ g₂) y)
      (closeSubType (closedEnv types₁ g₁) x = closeSubType (closedEnv types₂ g₂) y) := by
  have hsl := hx.supers_length
  have hsl' := hy.supers_length
  have hsupers := vectorBytes_agree (Nat.lt_of_le_of_lt hsl (by decide))
    (Nat.lt_of_le_of_lt hsl' (by decide)) fun a ha b hb =>
      refBytes_agree hd (hx.supers a ha).1 (hy.supers b hb).1
  have hrest := (metadataBytes_agree hd hx.describes hy.describes).append
    ((metadataBytes_agree hd hx.descriptor hy.descriptor).append
      (compBytes_agree hd hx.comp hy.comp hpx hpy))
  have hall := ((boolByte_agree x.final y.final).append (hsupers.append hrest)).cons (0xf1 : UInt8)
  rw [append_assoc, append_assoc] at hall
  exact hall.congr (by simp [closeSubType])

theorem groupEncoding_agree (hs₁ : TypesInScope types₁) (hs₂ : TypesInScope types₂) {rt₁ rt₂ : RecType}
    (h₁ : types₁[g₁]? = some rt₁) (h₂ : types₂[g₂]? = some rt₂) (hp₁ : PlainGroup rt₁)
    (hp₂ : PlainGroup rt₂) :
    groupBytesOf types₁ g₁ = groupBytesOf types₂ g₂ ↔
      closeGroup (closedEnv types₁ g₁) rt₁ = closeGroup (closedEnv types₂ g₂) rt₂ := by
  rw [groupBytesOf_get h₁, groupBytesOf_get h₂]
  refine (vectorBytes_agree hp₁.1 hp₂.1 fun x hx y hy => ?_).eq_iff
  obtain ⟨l, hl⟩ := List.getElem?_of_mem hx
  obtain ⟨l', hl'⟩ := List.getElem?_of_mem hy
  exact subTypeBytes_agree hd (hs₁ ⟨⟨rt₁, h₁, hl⟩, rfl⟩) (hs₂ ⟨⟨rt₂, h₂, hl'⟩, rfl⟩) (hp₁.2 x hx)
    (hp₂.2 y hy)

end

/-! ## Hashed strings -/

/-- The string hashed for the member at a flat index. -/
def memberInputOf (types : List RecType) (i : Nat) : List UInt8 :=
  match subtypeByFlatTypeIdx types i with
  | some (_, g) =>
    groupMemberInput (Sha256.sum256 (groupBytesOf types g)) (groupLength types g) (i - typeGroupBase types g)
  | none => []

def flatSignatureOf (types : List RecType) (i : Nat) : List UInt8 :=
  match typeFunc types i with
  | some (ps, rs) => flatSignature ps rs
  | none => []

/-- Every string the keys of a module hash: groups, members and flat signatures. -/
def hashInputs (types : List RecType) : List (List UInt8) :=
  (List.range types.length).map (groupBytesOf types) ++
    ((List.range (flatSubTypes types).length).map (memberInputOf types) ++
      (List.range (flatSubTypes types).length).map (flatSignatureOf types))

/-- SHA-256 cut to the eight bytes of a key is injective on the strings hashed for two modules. -/
def HashInjective (types₁ types₂ : List RecType) : Prop :=
  ∀ a ∈ hashInputs types₁ ++ hashInputs types₂, ∀ b ∈ hashInputs types₁ ++ hashInputs types₂,
    (Sha256.sum256 a).take 8 = (Sha256.sum256 b).take 8 → a = b

instance (types₁ types₂ : List RecType) : Decidable (HashInjective types₁ types₂) :=
  inferInstanceAs (Decidable (∀ a ∈ hashInputs types₁ ++ hashInputs types₂,
    ∀ b ∈ hashInputs types₁ ++ hashInputs types₂,
      (Sha256.sum256 a).take 8 = (Sha256.sum256 b).take 8 → a = b))

theorem littleEndian_inj : ∀ {xs ys : List UInt8}, xs.length = ys.length →
    littleEndian xs = littleEndian ys → xs = ys
  | [], [], _, _ => rfl
  | x :: xs, y :: ys, hlen, h => by
    simp only [littleEndian] at h
    have hx := x.toNat_lt
    have hy := y.toNat_lt
    have hhead : x = y := UInt8.toNat_inj.1 (by omega)
    have hrest : littleEndian xs = littleEndian ys := by omega
    rw [hhead, littleEndian_inj (by simpa using hlen) hrest]

section

variable {types₁ types₂ : List RecType} {a b : List UInt8} (hinj : HashInjective types₁ types₂)
  (ha : a ∈ hashInputs types₁) (hb : b ∈ hashInputs types₂)

include hinj ha hb

theorem digestKey_iff : digestKey (Sha256.sum256 a) = digestKey (Sha256.sum256 b) ↔ a = b := by
  refine ⟨fun h => hinj a (by simp [ha]) b (by simp [hb]) ?_, fun h => by rw [h]⟩
  exact littleEndian_inj (by simp) h

theorem sum256_iff : Sha256.sum256 a = Sha256.sum256 b ↔ a = b :=
  ⟨fun h => hinj a (by simp [ha]) b (by simp [hb]) (by rw [h]), fun h => by rw [h]⟩

end

variable {i g l : Nat}

theorem memberInput_at (h : AtPos types i g l st) :
    memberInputOf types i =
      groupMemberInput (Sha256.sum256 (groupBytesOf types g)) (groupLength types g) l := by
  rw [memberInputOf, h.flat]
  simp only [h.location.2]

theorem typeDigest_eq (h : AtPos types i g l st) :
    typeDigest types i = Sha256.sum256 (memberInputOf types i) := by
  rw [typeDigest_at h, memberInput_at h, structuralGroupMemberDigest]

theorem memberInput_mem {i : Nat} (h : i < (flatSubTypes types).length) :
    memberInputOf types i ∈ hashInputs types := by
  simp only [hashInputs, mem_append, mem_map, mem_range]
  exact .inr (.inl ⟨i, h, rfl⟩)

theorem groupBytes_mem {g : Nat} (h : g < types.length) :
    groupBytesOf types g ∈ hashInputs types := by
  simp only [hashInputs, mem_append, mem_map, mem_range]
  exact .inl ⟨g, h, rfl⟩

theorem groupMemberInput_agree {d d' : List UInt8} {n n' k k' : Nat} (hd : d.length = d'.length)
    (hn : n < 2 ^ 32) (hn' : n' < 2 ^ 32) (hk : k < 2 ^ 32) (hk' : k' < 2 ^ 32) :
    groupMemberInput d n k = groupMemberInput d' n' k' ↔ n = n' ∧ k = k' ∧ d = d' := by
  have h := ((u32Bytes_agree hn hn').append ((u32Bytes_agree hk hk').append (agree_of_length hd))).cons
    (0xf3 : UInt8)
  rw [groupMemberInput, groupMemberInput, append_assoc, append_assoc]
  exact h.eq_iff

section

variable {types₁ types₂ : List RecType} (hs₁ : TypesInScope types₁) (hs₂ : TypesInScope types₂)
  (hp₁ : PlainTypes types₁) (hp₂ : PlainTypes types₂) (hinj : HashInjective types₁ types₂)

include hs₁ hs₂ hp₁ hp₂ hinj

/-- Member inputs decide iso-recursive equality; the induction is on the group of the first type,
whose references lie in earlier groups. -/
theorem memberInput_iff : ∀ (g₁ : Nat) {i l : Nat} {st : SubType}, AtPos types₁ i g₁ l st →
    ∀ j < (flatSubTypes types₂).length,
      (memberInputOf types₁ i = memberInputOf types₂ j ↔
        (closedTypes types₁)[i]? = (closedTypes types₂)[j]?) := by
  intro g₁
  induction g₁ using Nat.strongRecOn with
  | _ g₁ ih =>
    intro i l st hi j hj
    obtain ⟨g₂, l', st', hjpos⟩ := exists_atPos hj
    obtain ⟨rt₁, hrt₁, -⟩ := hi.member
    obtain ⟨rt₂, hrt₂, -⟩ := hjpos.member
    have hpg₁ := hp₁ rt₁ (mem_of_getElem? hrt₁)
    have hpg₂ := hp₂ rt₂ (mem_of_getElem? hrt₂)
    have hl := hi.lt_groupLength
    have hl' := hjpos.lt_groupLength
    have hsmall₁ : groupLength types₁ g₁ < 2 ^ 32 := by rw [groupLength_of_get hrt₁]; exact hpg₁.1
    have hsmall₂ : groupLength types₂ g₂ < 2 ^ 32 := by rw [groupLength_of_get hrt₂]; exact hpg₂.1
    have hd : DigestsDecide types₁ types₂ g₁ g₂ := by
      refine ⟨fun i' hi' j' hj' => ?_, hsmall₁, hsmall₂⟩
      have hlt₂ := Nat.lt_of_lt_of_le hj' (typeGroupBase_le_length types₂ g₂)
      have hlt₁ := Nat.lt_of_lt_of_le hi' (typeGroupBase_le_length types₁ g₁)
      obtain ⟨g, k, st₁, hpos⟩ := exists_atPos hlt₁
      obtain ⟨g', k', st₂, hpos'⟩ := exists_atPos hlt₂
      rw [earlierDigest_eq hi', earlierDigest_eq hj', closedEnv_get hi', closedEnv_get hj',
        typeDigest_eq hpos, typeDigest_eq hpos', sum256_iff hinj (memberInput_mem hlt₁) (memberInput_mem hlt₂)]
      exact ih g (hpos.group_lt_of_lt_base hi') hpos j' hlt₂
    have hgroups := groupEncoding_agree hd hs₁ hs₂ hrt₁ hrt₂ hpg₁ hpg₂
    rw [memberInput_at hi, memberInput_at hjpos, groupMemberInput_agree (by simp) hsmall₁ hsmall₂
      (Nat.lt_trans hl hsmall₁) (Nat.lt_trans hl' hsmall₂),
      sum256_iff hinj (groupBytes_mem hi.group_lt) (groupBytes_mem hjpos.group_lt), hgroups]
    rw [groupLength_of_get hrt₁] at hl ⊢
    rw [groupLength_of_get hrt₂] at hl' ⊢
    rw [hi.index, hjpos.index, closedTypes_get hrt₁ hl, closedTypes_get hrt₂ hl', Option.some.injEq,
      Prod.mk.injEq]
    constructor
    · rintro ⟨-, hk, hc⟩; exact ⟨hc, hk⟩
    · rintro ⟨hc, hk⟩
      exact ⟨by simpa [closeGroup] using congrArg List.length hc, hk, hc⟩

end

/-! ## Flat signatures -/

def closedIndexed : ClosedVal → Bool
  | .ref _ _ (.abs _) => false
  | .ref _ _ _ => true
  | _ => false

/-- The closed types that get a flat key. -/
def closedFlat : ClosedDef → Bool
  | ([.mk true [] none none (.func ps rs)], _) => !ps.any closedIndexed && !rs.any closedIndexed
  | _ => false

theorem closedIndexed_close (env : List ClosedDef) (v : ValType) :
    closedIndexed (closeVal env v) = hasIndexedReference v := by
  cases v with
  | ref r =>
    obtain ⟨nullable, exact, bare, heap⟩ := r
    cases heap <;> rfl
  | _ => rfl

variable {ps rs : List ValType}

/-- Whether a type gets a flat key depends on its closed form only. -/
theorem needsIndexedKey_closed {rt : RecType}
    (hi : AtPos types i g l st) (hrt : types[g]? = some rt)
    (hcomp : st.comp = .func ps rs) :
    needsIndexedKey types i ps rs st = !closedFlat (closeGroup (closedEnv types g) rt, l) := by
  obtain ⟨rt', hrt', hst⟩ := hi.member
  cases hrt.symm.trans hrt'
  have hl := hi.lt_groupLength
  have hany : ∀ vs : List ValType, (vs.map (closeVal (closedEnv types g))).any closedIndexed =
      vs.any hasIndexedReference := by
    intro vs
    rw [any_map]
    congr 1
    funext v
    exact closedIndexed_close _ v
  simp only [needsIndexedKey, compTypeHasIndexedReferences, typeInNonSingletonRecGroup, hi.flat]
  rw [groupLength_of_get hrt] at hl ⊢
  obtain ⟨members⟩ := rt
  match members, hst, hl with
  | [], _, hl => simp at hl
  | [m], hst, hl =>
    obtain rfl : l = 0 := by simpa using hl
    obtain rfl : m = st := by simpa using hst
    simp only [closeGroup, map_cons, map_nil, closeSubType, hcomp, closeComp, length_singleton]
    cases m.final <;> cases m.supers <;> cases m.describes <;> cases m.descriptor <;>
      simp [closedFlat, hany]
  | m :: m' :: ms, _, _ => simp [closeGroup, closedFlat]

section

variable {env₁ env₂ : List ClosedDef}

theorem flatFlags_agree (n e n' e' : Bool) :
    Agree [((if n then 1 else 0) ||| (if e then 2 else 0) : UInt8)] [(if n' then 1 else 0) ||| (if e' then 2 else 0)]
      (n = n' ∧ e = e') :=
  (agree_single _ _).congr (by cases n <;> cases e <;> cases n' <;> cases e' <;> decide)

theorem flatValue_agree {v w : ValType} (hv : hasIndexedReference v = false)
    (hw : hasIndexedReference w = false) (hvb : v ≠ .bot) (hwb : w ≠ .bot) :
    Agree (flatValue v) (flatValue w) (closeVal env₁ v = closeVal env₂ w) := by
  have habs : ∀ {r : RefType}, hasIndexedReference (.ref r) = false → ∃ a, r.heap = .abs a := by
    rintro ⟨nullable, exact, bare, heap⟩ h
    cases heap <;> first | exact ⟨_, rfl⟩ | cases h
  have hbytes : ∀ {r : RefType} {a : AbsHeapType}, r.heap = .abs a → flatValue (.ref r) =
      [2, (if r.nullable then 1 else 0) ||| (if r.exact then 2 else 0), 0, a.code] := by
    rintro ⟨nullable, exact, bare, heap⟩ a rfl
    rfl
  cases v with
  | num n =>
    cases w with
    | num m => exact ((numCode_agree n m).cons _).congr (by simp [closeVal])
    | bot => exact absurd rfl hwb
    | _ => exact (agree_mismatch (by simp [ValType.kindByte])).congr (by simp [closeVal])
  | vec =>
    cases w with
    | vec => exact (agree_nil.cons _).congr (by simp [closeVal])
    | bot => exact absurd rfl hwb
    | _ => exact (agree_mismatch (by simp [ValType.kindByte])).congr (by simp [closeVal])
  | ref r =>
    cases w with
    | ref q =>
      obtain ⟨a, ha⟩ := habs hv
      obtain ⟨b, hb⟩ := habs hw
      rw [hbytes ha, hbytes hb]
      exact (((flatFlags_agree r.nullable r.exact q.nullable q.exact).append
        ((absCode_agree a b).cons 0)).cons 2).congr (by simp [closeVal, ha, hb, closeHeap, and_assoc])
    | bot => exact absurd rfl hwb
    | _ => exact (agree_mismatch (by simp [ValType.kindByte])).congr (by simp [closeVal])
  | bot => exact absurd rfl hvb

theorem flatSignature_iff {ps rs ps' rs' : List ValType}
    (hp : PlainComp (.func ps rs)) (hp' : PlainComp (.func ps' rs'))
    (hflat : compTypeHasIndexedReferences ps rs = false)
    (hflat' : compTypeHasIndexedReferences ps' rs' = false)
    (hbot : ∀ v ∈ ps ++ rs, v ≠ .bot) (hbot' : ∀ v ∈ ps' ++ rs', v ≠ .bot) :
    flatSignature ps rs = flatSignature ps' rs' ↔
      closeComp env₁ (.func ps rs) = closeComp env₂ (.func ps' rs') := by
  simp only [compTypeHasIndexedReferences, Bool.or_eq_false_iff, any_eq_false] at hflat hflat'
  simp only [mem_append, or_imp, forall_and] at hbot hbot'
  have hparams := vectorBytes_agree (p := closeVal env₁) (q := closeVal env₂) hp.1.1 hp'.1.1
    fun v hv w hw => flatValue_agree (Bool.eq_false_iff.2 (hflat.1 v hv))
      (Bool.eq_false_iff.2 (hflat'.1 w hw)) (hbot.1 v hv) (hbot'.1 w hw)
  have hresults := vectorBytes_agree (p := closeVal env₁) (q := closeVal env₂) hp.2.1 hp'.2.1
    fun v hv w hw => flatValue_agree (Bool.eq_false_iff.2 (hflat.2 v hv))
      (Bool.eq_false_iff.2 (hflat'.2 w hw)) (hbot.2 v hv) (hbot'.2 w hw)
  exact (hparams.append (hresults.cons 0xfe)).eq_iff.trans (by simp [closeComp])

theorem length_le_flatMap {α : Type} {f : α → List UInt8} (hf : ∀ a, f a ≠ []) : ∀ as : List α,
    as.length ≤ (as.flatMap f).length
  | [] => by simp
  | a :: as => by
    have := length_le_flatMap hf as
    have := length_pos_iff.2 (hf a)
    simp only [flatMap_cons, length_append, length_cons]
    omega

/-- A flat signature that starts like a member input has at least 243 parameters and is longer. -/
theorem flatSignature_ne_memberInput {d : List UInt8} {n k : Nat}
    (hd : d.length = 32) : flatSignature ps rs ≠ groupMemberInput d n k := by
  intro h
  have hlen := congrArg List.length h
  have hhead := congrArg List.head? h
  have hps := length_le_flatMap (f := flatValue) (fun v => by cases v <;> simp [flatValue]) ps
  simp only [flatSignature, groupMemberInput, u32Bytes, cons_append, nil_append,
    List.head?_cons, Option.some.injEq, ← UInt8.toNat_inj, UInt8.toNat_ofNat', length_cons,
    length_append, hd] at hlen hhead
  simp only [UInt8.reduceToNat] at hhead
  omega

end

/-! ## The key of a type -/

/-- The string whose hash is the key of a function type. -/
def keyInput (types : List RecType) (i : Nat) : List UInt8 :=
  match typeFunc types i, subtypeByFlatTypeIdx types i with
  | some (ps, rs), some (sub, _) =>
    if needsIndexedKey types i ps rs sub then memberInputOf types i else flatSignature ps rs
  | _, _ => []

theorem keyInput_eq {i g : Nat} {sub : SubType}
    (hf : typeFunc types i = some (ps, rs)) (hst : subtypeByFlatTypeIdx types i = some (sub, g)) :
    keyInput types i =
      if needsIndexedKey types i ps rs sub then memberInputOf types i else flatSignature ps rs := by
  rw [keyInput, hf, hst]

structure KeyCacheInv (types : List RecType) (cache : KeyCache) : Prop where
  keys : ∀ i k, cache.keys i = some (k, true) → k = digestKey (Sha256.sum256 (memberInputOf types i))
  groupDigests : ∀ g d, cache.groupDigests g = some d → d = Sha256.sum256 (groupBytesOf types g)

section

variable {types : List RecType} {cache : KeyCache}

theorem KeyCacheInv.record (h : KeyCacheInv types cache) {i : Nat} {result : Nat × Bool}
    (hr : ∀ k, result = (k, true) → k = digestKey (Sha256.sum256 (memberInputOf types i))) :
    KeyCacheInv types (cache.record i result) := by
  refine ⟨fun j k hj => ?_, h.groupDigests⟩
  simp only [KeyCache.record] at hj
  split at hj
  · rename_i hji
    subst hji; exact hr k (Option.some.inj hj)
  · exact h.keys j k hj

variable (hs : TypesInScope types) (hp : PlainTypes types)

include hs hp

theorem writeKey_spec (i : Nat)
    {digests : Nat → Option (List UInt8)}
    (hd : ∀ g d, digests g = some d → d = Sha256.sum256 (groupBytesOf types g)) :
    (∀ digest, (writeStructuralIndexedFuncTypeKey types i digests).1 = some digest →
      digest = Sha256.sum256 (memberInputOf types i)) ∧
    ∀ g d, (writeStructuralIndexedFuncTypeKey types i digests).2 g = some d →
      d = Sha256.sum256 (groupBytesOf types g) := by
  unfold writeStructuralIndexedFuncTypeKey
  split
  · exact ⟨fun _ h => (Option.some_ne_none _ h.symm).elim, hd⟩
  rename_i sig hsig
  have hi : i < (flatSubTypes types).length := by
    unfold typeFunc at hsig
    split at hsig
    · rename_i hst; exact (List.getElem?_eq_some_iff.1 hst).1
    · cases hsig
  obtain ⟨g, l, st, hpos⟩ := exists_atPos hi
  have hw := memberDigest_writes (buildGroup_writes hs hp (types.length + 1) []) i
    { budget := 0, groupBytes := fun _ => none, memberDigests := fun _ => none, groupDigests := digests }
    ⟨by simp, by simp, hd⟩
  simp only
  split
  · rename_i digest s hrun
    rw [hrun] at hw
    refine ⟨fun d h => ?_, hw.2.groupDigests⟩
    rw [← Option.some.inj h, hw.1, typeDigest_eq hpos]
  · rename_i e s hrun
    rw [hrun] at hw
    exact ⟨fun _ h => (Option.some_ne_none _ h.symm).elim, hw.groupDigests⟩

theorem indexedKey_spec (hc : KeyCacheInv types cache)
    (i : Nat) :
    (∀ k, (structuralIndexedFuncTypeKey types i cache).1 = (k, true) →
      k = digestKey (Sha256.sum256 (memberInputOf types i))) ∧
    KeyCacheInv types (structuralIndexedFuncTypeKey types i cache).2 := by
  unfold structuralIndexedFuncTypeKey
  split
  · rename_i result hkey
    exact ⟨fun k h => hc.keys i k (by rw [hkey, ← h]), hc⟩
  split
  · rename_i key hkey
    have hval : key = digestKey (Sha256.sum256 (memberInputOf types i)) := by
      unfold cachedGroupKey at hkey
      split at hkey
      · rename_i st g hst
        obtain ⟨l, hpos⟩ := subtypeByFlatTypeIdx_iff.1 hst
        split at hkey
        · obtain ⟨d, hd, rfl⟩ := Option.map_eq_some_iff.1 hkey
          rw [hc.groupDigests g d hd, memberInput_at hpos, hpos.location.2]
          rfl
        · cases hkey
      · cases hkey
    exact ⟨fun k h => by rw [← (Prod.mk.inj h).1, hval],
      hc.record fun k h => by rw [← (Prod.mk.inj h).1, hval]⟩
  · obtain ⟨hdigest, hgroups⟩ := writeKey_spec hs hp i hc.groupDigests
    rcases hw : writeStructuralIndexedFuncTypeKey types i cache.groupDigests with ⟨canonical, digests⟩
    rw [hw] at hdigest hgroups
    simp only
    have hinv : KeyCacheInv types { cache with groupDigests := digests } := ⟨hc.keys, hgroups⟩
    -- whatever the encoder answered, recording it keeps the cache sound once the answer is
    suffices hres : ∀ k, _ = (k, true) → k = digestKey (Sha256.sum256 (memberInputOf types i)) from
      ⟨hres, hinv.record hres⟩
    intro k hk
    cases canonical with
    | none => cases hk
    | some digest =>
      simp only at hk
      split at hk
      · rw [← (Prod.mk.inj hk).1, hdigest digest rfl]
      · cases hk

/-- A valid key is the cut hash of the key input, whatever was queried before. -/
theorem checkedKey_spec (hc : KeyCacheInv types cache)
    (i : Nat) :
    (∀ k, (structuralTypeKeyChecked types i cache).1 = (k, true) →
      (typeFunc types i).isSome ∧ k = digestKey (Sha256.sum256 (keyInput types i))) ∧
    KeyCacheInv types (structuralTypeKeyChecked types i cache).2 := by
  unfold structuralTypeKeyChecked
  split
  · rename_i ps rs sub g hf hst
    obtain ⟨hkey, hinv⟩ := indexedKey_spec hs hp hc i
    rw [keyInput_eq hf hst]
    split
    · exact ⟨fun k h => ⟨by rw [hf]; rfl, hkey k h⟩, hinv⟩
    · exact ⟨fun k h => ⟨by rw [hf]; rfl, (Prod.mk.inj h).1.symm⟩, hc⟩
  · exact ⟨fun k h => absurd (Prod.mk.inj h).2 (by simp), hc⟩

theorem keyCacheAfter_inv (queries : List Nat) :
    KeyCacheInv types (keyCacheAfter types queries) := by
  have hrun : ∀ (qs : List Nat) (c : KeyCache), KeyCacheInv types c → KeyCacheInv types
      (qs.foldl (fun cache i => (structuralTypeKeyChecked types i cache).2) c) := by
    intro qs
    induction qs with
    | nil => intro c hc; exact hc
    | cons q qs ih => intro c hc; exact ih _ (checkedKey_spec hs hp hc q).2
  exact hrun queries _ ⟨by simp [KeyCache.empty], by simp [KeyCache.empty]⟩

end

theorem typeFunc_at {i : Nat}
    (h : typeFunc types i = some (ps, rs)) :
    ∃ g l st, AtPos types i g l st ∧ st.comp = .func ps rs := by
  unfold typeFunc at h
  split at h
  · rename_i hst
    obtain ⟨l, hpos⟩ := subtypeByFlatTypeIdx_iff.1 hst
    cases h
    exact ⟨_, l, _, hpos, rfl⟩
  · cases h

theorem closedFlat_group {env : List ClosedDef} {rt : RecType} {l : Nat}
    (h : closedFlat (closeGroup env rt, l) = true) (hst : rt.subTypes[l]? = some st) :
    closeGroup env rt = [.mk true [] none none (closeComp env st.comp)] ∧ l = 0 := by
  unfold closedFlat at h
  split at h
  · rename_i ps rs k heq
    simp only [Prod.mk.injEq] at heq
    obtain ⟨hgroup, -⟩ := heq
    obtain ⟨m, hm, hclose⟩ := map_eq_singleton_iff.1 hgroup
    rw [hm] at hst
    obtain rfl : l = 0 := by
      have := (List.getElem?_eq_some_iff.1 hst).1
      simpa using this
    obtain rfl : m = st := by simpa using hst
    simp only [closeSubType, ClosedSubType.mk.injEq] at hclose
    rw [hgroup, hclose.2.2.2.2]
    exact ⟨rfl, rfl⟩
  · cases h

/-- The value types of a function type in scope. -/
theorem funcType_scope (hs : TypesInScope types)
    (hi : AtPos types i g l st) (hcomp : st.comp = .func ps rs) :
    ∀ v ∈ ps ++ rs, v ≠ .bot := by
  have hscope := (hs hi).comp
  rw [hcomp] at hscope
  rintro v hv rfl
  rcases mem_append.1 hv with h | h
  · exact hscope.1 _ h
  · exact hscope.2 _ h

section

variable {types₁ types₂ : List RecType} (hs₁ : TypesInScope types₁) (hs₂ : TypesInScope types₂)
  (hp₁ : PlainTypes types₁) (hp₂ : PlainTypes types₂)

theorem keyInput_mem {i : Nat} (h : (typeFunc types i).isSome) :
    keyInput types i ∈ hashInputs types := by
  obtain ⟨⟨ps, rs⟩, hf⟩ := Option.isSome_iff_exists.1 h
  obtain ⟨g, l, st, hi, -⟩ := typeFunc_at hf
  rw [keyInput_eq hf hi.flat]
  split
  · exact memberInput_mem hi.lt_length
  · simp only [hashInputs, mem_append, mem_map, mem_range]
    exact .inr (.inr ⟨i, hi.lt_length, by simp [flatSignatureOf, hf]⟩)

include hs₁ hs₂ hp₁ hp₂

/-- Key inputs decide iso-recursive equality: the flat and the indexed encoding do not meet. -/
theorem keyInput_iff (hinj : HashInjective types₁ types₂) {i j : Nat} (hi : (typeFunc types₁ i).isSome)
    (hj : (typeFunc types₂ j).isSome) :
    keyInput types₁ i = keyInput types₂ j ↔ (closedTypes types₁)[i]? = (closedTypes types₂)[j]? := by
  obtain ⟨⟨ps, rs⟩, hf⟩ := Option.isSome_iff_exists.1 hi
  obtain ⟨⟨ps', rs'⟩, hf'⟩ := Option.isSome_iff_exists.1 hj
  obtain ⟨g, l, st, hpos, hcomp⟩ := typeFunc_at hf
  obtain ⟨g', l', st', hpos', hcomp'⟩ := typeFunc_at hf'
  obtain ⟨rt, hrt, hst⟩ := hpos.member
  obtain ⟨rt', hrt', hst'⟩ := hpos'.member
  have hl := (List.getElem?_eq_some_iff.1 hst).1
  have hl' := (List.getElem?_eq_some_iff.1 hst').1
  rw [keyInput_eq hf hpos.flat, keyInput_eq hf' hpos'.flat, needsIndexedKey_closed hpos hrt hcomp,
    needsIndexedKey_closed hpos' hrt' hcomp']
  have hclosed : (closedTypes types₁)[i]? = (closedTypes types₂)[j]? ↔
      (closeGroup (closedEnv types₁ g) rt, l) = (closeGroup (closedEnv types₂ g') rt', l') := by
    rw [hpos.index, hpos'.index, closedTypes_get hrt hl, closedTypes_get hrt' hl', Option.some.injEq]
  -- both keys are flat, both are indexed, or the closed forms differ
  cases hflat : closedFlat (closeGroup (closedEnv types₁ g) rt, l) <;>
    cases hflat' : closedFlat (closeGroup (closedEnv types₂ g') rt', l')
  · exact memberInput_iff hs₁ hs₂ hp₁ hp₂ hinj g hpos j hpos'.lt_length
  · rw [hclosed]
    constructor
    · intro h
      exact absurd h.symm (by rw [memberInput_at hpos]; exact flatSignature_ne_memberInput (by simp))
    · intro h; rw [h, hflat'] at hflat; cases hflat
  · rw [hclosed]
    constructor
    · intro h
      exact absurd h (by rw [memberInput_at hpos']; exact flatSignature_ne_memberInput (by simp))
    · intro h; rw [h, hflat'] at hflat; cases hflat
  · obtain ⟨hgroup, rfl⟩ := closedFlat_group hflat hst
    obtain ⟨hgroup', rfl⟩ := closedFlat_group hflat' hst'
    have hneed := needsIndexedKey_closed hpos hrt hcomp
    have hneed' := needsIndexedKey_closed hpos' hrt' hcomp'
    rw [hflat] at hneed
    rw [hflat'] at hneed'
    simp only [needsIndexedKey, Bool.not_true, Bool.or_eq_false_iff] at hneed hneed'
    have hplain := (hp₁ rt (mem_of_getElem? hrt)).2 st (mem_of_getElem? hst)
    have hplain' := (hp₂ rt' (mem_of_getElem? hrt')).2 st' (mem_of_getElem? hst')
    rw [hcomp] at hplain hgroup
    rw [hcomp'] at hplain' hgroup'
    rw [hclosed, hgroup, hgroup']
    simp only [Bool.not_true, Bool.false_eq_true, if_false, Prod.mk.injEq, and_true, List.cons.injEq,
      ClosedSubType.mk.injEq, true_and]
    exact flatSignature_iff hplain hplain' hneed.1.1.1.1.1 hneed'.1.1.1.1.1
      (funcType_scope hs₁ hpos hcomp) (funcType_scope hs₂ hpos' hcomp')

end

/-- Valid keys of two validated modules are equal exactly when the function types are the same
closed type, whatever keys either module was asked for before. -/
theorem structuralTypeKey_isoRecursive {r₁ r₁' r₂ r₂' : Reader} {types₁ types₂ : List RecType}
    {ctx₁ ctx₂ : TypeContext} (hd₁ : typeSection.run r₁ = .ok types₁ r₁')
    (hd₂ : typeSection.run r₂ = .ok types₂ r₂') (hv₁ : validateTypeSection types₁ = .ok ctx₁)
    (hv₂ : validateTypeSection types₂ = .ok ctx₂) (hinj : HashInjective types₁ types₂)
    {queries₁ queries₂ : List Nat} {i j k₁ k₂ : Nat}
    (hk₁ : (structuralTypeKeyChecked types₁ i (keyCacheAfter types₁ queries₁)).1 = (k₁, true))
    (hk₂ : (structuralTypeKeyChecked types₂ j (keyCacheAfter types₂ queries₂)).1 = (k₂, true)) :
    k₁ = k₂ ↔ ∃ d, (closedTypes types₁)[i]? = some d ∧ (closedTypes types₂)[j]? = some d := by
  have hs₁ := (validateTypeSection_inScope hv₁).2
  have hs₂ := (validateTypeSection_inScope hv₂).2
  have hp₁ := typeSection_plain hd₁
  have hp₂ := typeSection_plain hd₂
  obtain ⟨hf₁, rfl⟩ := (checkedKey_spec hs₁ hp₁ (keyCacheAfter_inv hs₁ hp₁ queries₁) i).1 k₁ hk₁
  obtain ⟨hf₂, rfl⟩ := (checkedKey_spec hs₂ hp₂ (keyCacheAfter_inv hs₂ hp₂ queries₂) j).1 k₂ hk₂
  rw [digestKey_iff hinj (keyInput_mem hf₁) (keyInput_mem hf₂), keyInput_iff hs₁ hs₂ hp₁ hp₂ hinj hf₁ hf₂]
  obtain ⟨⟨ps, rs⟩, hf⟩ := Option.isSome_iff_exists.1 hf₁
  obtain ⟨g, l, st, hpos, -⟩ := typeFunc_at hf
  obtain ⟨d, hd⟩ : ∃ d, (closedTypes types₁)[i]? = some d :=
    ⟨_, List.getElem?_eq_getElem (by rw [closedTypes_length]; exact hpos.lt_length)⟩
  constructor
  · intro h; exact ⟨d, hd, h ▸ hd⟩
  · rintro ⟨e, he, he'⟩; rw [he, he']

/-- A function type that takes a reference to itself, at type index `self`. -/
def selfReferring (self : UInt8) : List UInt8 := [0x60, 0x01, 0x63, self, 0x01, 0x7f]

def selfReferringType : RecType :=
  { subTypes := [{ final := true, supers := [], describes := none, descriptor := none, hasPrefix := false,
                   comp := .func [.ref (mkRef true (.typeIndex ⟨0, true⟩) false)] [.i32] }] }

def flatFuncType : RecType :=
  { subTypes := [{ final := true, supers := [], describes := none, descriptor := none, hasPrefix := false,
                   comp := .func [.i32] [.i32] }] }

theorem structuralTypeKey_selfReferring :
    (structuralTypeKeyChecked [selfReferringType] 0 (keyCacheAfter [selfReferringType] [])).1.1 =
      (structuralTypeKeyChecked [flatFuncType, selfReferringType] 1
        (keyCacheAfter [flatFuncType, selfReferringType] [0, 1])).1.1 ↔
    ∃ d, (closedTypes [selfReferringType])[0]? = some d ∧
      (closedTypes [flatFuncType, selfReferringType])[1]? = some d := by
  obtain ⟨r₁, hd₁⟩ : ∃ r, typeSection.run (newReader (1 :: selfReferring 0)) =
      .ok [selfReferringType] r := Run.exists_of_returns (by decide +kernel)
  obtain ⟨r₂, hd₂⟩ : ∃ r, typeSection.run
      (newReader (2 :: ([0x60, 0x01, 0x7f, 0x01, 0x7f] ++ selfReferring 1))) =
      .ok [flatFuncType, selfReferringType] r := Run.exists_of_returns (by decide +kernel)
  have hv₁ : validateTypeSection [selfReferringType] = .ok (TypeContext.ofTypes [selfReferringType]) := rfl
  have hv₂ : validateTypeSection [flatFuncType, selfReferringType] =
      .ok (TypeContext.ofTypes [flatFuncType, selfReferringType]) := rfl
  exact structuralTypeKey_isoRecursive hd₁ hd₂ hv₁ hv₂ (by decide +kernel)
    (Prod.ext rfl (by decide +kernel)) (Prod.ext rfl (by decide +kernel))

end Wago.Wasm
