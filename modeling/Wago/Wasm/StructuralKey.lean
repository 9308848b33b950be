/-
The structural type keys of function types (`structural_type_id.go`, `module_helpers.go`): a flat
encoding for signatures without indexed references, and for all others the digest of a member of
its encoded recursion group, in which earlier groups stand as digests. Group digests and keys are
cached in the module.
-/
import Wago.Lib.Sha256
import Wago.Wasm.TypeDecode
import Wago.Wasm.TypeIndex

namespace Wago.Wasm

/-- `binary.LittleEndian` of a `uint32`. -/
def u32Bytes (v : Nat) : List UInt8 :=
  [UInt8.ofNat v, UInt8.ofNat (v / 2 ^ 8), UInt8.ofNat (v / 2 ^ 16), UInt8.ofNat (v / 2 ^ 24)]

/-- `binary.LittleEndian.Uint64(digest[:8])`. -/
def digestKey (digest : List UInt8) : Nat := littleEndian (digest.take 8)

/-! ## Kinds as bytes -/

def ValType.kindByte : ValType → UInt8
  | .num _ => 0
  | .vec => 1
  | .ref _ => 2
  | .bot => 3

def HeapType.kindByte : HeapType → UInt8
  | .abs _ => 0
  | .typeIndex _ => 1
  | .defType _ => 2
  | .bottom => 3

def CompTypeKind.byte : CompTypeKind → UInt8
  | .array => 0
  | .struct => 1
  | .func => 2

def boolByte (b : Bool) : UInt8 := if b then 1 else 0

/-! ## Bounded encoding -/

/-- The state of one canonicalisation: bytes spent, and what it has computed so far. The group
digests are the module's. -/
structure EncodeState where
  budget : Nat
  groupBytes : Nat → Option (List UInt8)
  memberDigests : Nat → Option (List UInt8)
  groupDigests : Nat → Option (List UInt8)

abbrev EncodeM := EStateM Unit EncodeState

def maxStructuralBytes : Nat := 1 <<< 20

def appendByte (b : UInt8) : EncodeM (List UInt8) := do
  modify fun s => { s with budget := s.budget + 1 }
  if (← get).budget > maxStructuralBytes then throw () else return [b]

def appendU32Bytes (v : Nat) : EncodeM (List UInt8) := do
  if (← get).budget > maxStructuralBytes - 4 then throw ()
  else do
    modify fun s => { s with budget := s.budget + 4 }
    return u32Bytes v

/-- Writes the parts one after the other. -/
def appendAll : List (EncodeM (List UInt8)) → EncodeM (List UInt8)
  | [] => return []
  | w :: ws => do
    let bs ← w
    return bs ++ (← appendAll ws)

section

variable (types : List RecType)

def resolveType (idx : TypeIdx) (currentGroup : Nat) : Option Nat :=
  if idx.isRec = false then
    if idx.index ≥ (flatSubTypes types).length then none else some idx.index
  else if currentGroup ≥ types.length ∨ idx.index ≥ groupLength types currentGroup then none
  else some (typeGroupBase types currentGroup + idx.index)

variable (memberDigest : Nat → EncodeM (List UInt8))

def writeRef (idx : TypeIdx) (currentGroup : Nat) : EncodeM (List UInt8) :=
  match resolveType types idx currentGroup with
  | none => throw ()
  | some resolved =>
    match subtypeByFlatTypeIdx types resolved with
    | none => throw ()
    | some (_, targetGroup) =>
      if targetGroup = currentGroup then
        appendAll [appendByte 0xf2, appendU32Bytes (resolved - typeGroupBase types targetGroup)]
      else do
        let digest ← memberDigest resolved
        appendAll (appendByte 0xf4 :: digest.map appendByte)

def writeHeap (heap : HeapType) (currentGroup : Nat) : EncodeM (List UInt8) :=
  match heap with
  | .abs a => appendByte a.code
  | .typeIndex idx => writeRef types memberDigest idx currentGroup
  | .defType (some d) =>
    if d.group ≥ types.length ∨ d.member ≥ groupLength types d.group then throw ()
    else writeRef types memberDigest { index := (typeGroupBase types d.group + d.member) % 2 ^ 32 } currentGroup
  | .defType none => throw ()
  | .bottom => throw ()

def writeValue (value : ValType) (currentGroup : Nat) : EncodeM (List UInt8) :=
  match value with
  | .num n => appendAll [appendByte value.kindByte, appendByte n.code]
  | .vec => appendByte value.kindByte
  | .bot => appendByte value.kindByte
  | .ref rt =>
    appendAll [appendByte value.kindByte, appendByte (boolByte rt.nullable), appendByte (boolByte rt.exact),
      appendByte rt.heap.kindByte, writeHeap types memberDigest rt.heap currentGroup]

def writeField (field : FieldType) (currentGroup : Nat) : EncodeM (List UInt8) :=
  match field.storage with
  | .packed p => appendAll [appendByte 1, appendByte p.code, appendByte field.mutability.code]
  | .val v =>
    appendAll [appendByte 0, writeValue types memberDigest v currentGroup, appendByte field.mutability.code]

def writeMetadata (idx : Option TypeIdx) (currentGroup : Nat) : EncodeM (List UInt8) :=
  match idx with
  | none => appendByte 0
  | some idx => appendAll [appendByte 1, writeRef types memberDigest idx currentGroup]

def writeComp (comp : CompType) (currentGroup : Nat) : EncodeM (List UInt8) :=
  match comp with
  | .func ps rs =>
    appendAll [appendU32Bytes ps.length, appendAll (ps.map (writeValue types memberDigest · currentGroup)),
      appendU32Bytes rs.length, appendAll (rs.map (writeValue types memberDigest · currentGroup))]
  | .struct fs =>
    appendAll [appendU32Bytes fs.length, appendAll (fs.map (writeField types memberDigest · currentGroup))]
  | .array f => writeField types memberDigest f currentGroup

/-- One member of a group. -/
def writeSubType (group : Nat) (st : SubType) : EncodeM (List UInt8) :=
  appendAll [appendByte 0xf1, appendByte (boolByte st.final), appendU32Bytes st.supers.length,
    appendAll (st.supers.map (writeRef types memberDigest · group)),
    writeMetadata types memberDigest st.describes group,
    writeMetadata types memberDigest st.descriptor group,
    appendByte st.comp.kind.byte, writeComp types memberDigest st.comp group]

end

/-! ## Digests -/

/-- The 41 bytes hashed for a member. -/
def groupMemberInput (groupDigest : List UInt8) (groupSize member : Nat) : List UInt8 :=
  0xf3 :: (u32Bytes groupSize ++ u32Bytes member ++ groupDigest)

def structuralGroupMemberDigest (groupDigest : List UInt8) (groupSize member : Nat) : List UInt8 :=
  Sha256.sum256 (groupMemberInput groupDigest groupSize member)

def structuralGroupMemberKey (groupDigest : List UInt8) (groupSize member : Nat) : Nat :=
  digestKey (structuralGroupMemberDigest groupDigest groupSize member)

section

variable (types : List RecType)

def ensureGroupDigest (buildGroup : Nat → EncodeM (List UInt8)) (group : Nat) : EncodeM (List UInt8) := do
  match (← get).groupDigests group with
  | some digest => return digest
  | none => do
    let digest := Sha256.sum256 (← buildGroup group)
    modify fun s => { s with groupDigests := fun g => if g = group then some digest else s.groupDigests g }
    return digest

def memberDigest (buildGroup : Nat → EncodeM (List UInt8)) (index : Nat) : EncodeM (List UInt8) := do
  match (← get).memberDigests index with
  | some digest => return digest
  | none =>
    match subtypeByFlatTypeIdx types index with
    | none => throw ()
    | some (_, group) => do
      let groupDigest ← ensureGroupDigest buildGroup group
      let digest := structuralGroupMemberDigest groupDigest (groupLength types group)
        (index - typeGroupBase types group)
      modify fun s => { s with memberDigests := fun i => if i = index then some digest else s.memberDigests i }
      return digest

/-- Each level visits a new group, so `fuel` above the number of groups is never used up. -/
def buildGroup : (fuel : Nat) → (visiting : List Nat) → Nat → EncodeM (List UInt8)
  | 0, _, _ => throw ()
  | fuel + 1, visiting, group => do
    match (← get).groupBytes group with
    | some encoded => return encoded
    | none =>
      match types[group]? with
      | none => throw ()
      | some rt =>
        if group ∈ visiting then throw ()
        else do
          let member := memberDigest types (buildGroup fuel (group :: visiting))
          let encoded ← appendAll
            (appendU32Bytes rt.subTypes.length :: rt.subTypes.map (writeSubType types member group))
          modify fun s => { s with groupBytes := fun g => if g = group then some encoded else s.groupBytes g }
          return encoded

/-! ## Keys -/

/-- The module's cache: results by flat index and digests of completed groups. -/
structure KeyCache where
  keys : Nat → Option (Nat × Bool)
  groupDigests : Nat → Option (List UInt8)

def KeyCache.empty : KeyCache := { keys := fun _ => none, groupDigests := fun _ => none }

def KeyCache.record (cache : KeyCache) (typeIdx : Nat) (result : Nat × Bool) : KeyCache :=
  { cache with keys := fun i => if i = typeIdx then some result else cache.keys i }

def typeFunc (typeIdx : Nat) : Option (List ValType × List ValType) :=
  match subtypeByFlatTypeIdx types typeIdx with
  | some ({ comp := .func ps rs, .. }, _) => some (ps, rs)
  | _ => none

/-- `writeStructuralIndexedFuncTypeKey`: the member digest, and the group digests completed on the
way, also by a failed attempt. -/
def writeStructuralIndexedFuncTypeKey (typeIdx : Nat) (groupDigests : Nat → Option (List UInt8)) :
    Option (List UInt8) × (Nat → Option (List UInt8)) :=
  match typeFunc types typeIdx with
  | none => (none, groupDigests)
  | some _ =>
    let start : EncodeState :=
      { budget := 0, groupBytes := fun _ => none, memberDigests := fun _ => none, groupDigests }
    match (memberDigest types (buildGroup types (types.length + 1) []) typeIdx).run start with
    | .ok digest s => (some digest, s.groupDigests)
    | .error _ s => (none, s.groupDigests)

/-- The key of a member whose group digest is already cached. -/
def cachedGroupKey (cache : KeyCache) (typeIdx : Nat) : Option Nat :=
  match subtypeByFlatTypeIdx types typeIdx with
  | some (st, group) =>
    if st.comp.kind = .func then
      (cache.groupDigests group).map fun digest =>
        structuralGroupMemberKey digest (groupLength types group) (typeIdx - typeGroupBase types group)
    else none
  | none => none

def structuralIndexedFuncTypeKey (typeIdx : Nat) (cache : KeyCache) : (Nat × Bool) × KeyCache :=
  match cache.keys typeIdx with
  | some result => (result, cache)
  | none =>
    match cachedGroupKey types cache typeIdx with
    | some key => ((key, true), cache.record typeIdx (key, true))
    | none =>
      let (canonical, groupDigests) := writeStructuralIndexedFuncTypeKey types typeIdx cache.groupDigests
      let result :=
        match canonical with
        | some digest => if digest.length = 32 then (digestKey digest, true) else (0, false)
        | none => (0, false)
      (result, { cache with groupDigests }.record typeIdx result)

/-! ## Flat signatures -/

def flatValue (t : ValType) : List UInt8 :=
  match t with
  | .num n => [t.kindByte, n.code]
  | .ref rt =>
    let abs := match rt.heap with
      | .abs a => a.code
      | _ => 0
    [t.kindByte, (if rt.nullable then 1 else 0) ||| (if rt.exact then 2 else 0), rt.heap.kindByte, abs]
  | _ => [t.kindByte]

/-- The bytes `StructuralFuncTypeKey` hashes. -/
def flatSignature (params results : List ValType) : List UInt8 :=
  u32Bytes params.length ++ params.flatMap flatValue ++ 0xfe :: (u32Bytes results.length ++ results.flatMap flatValue)

def structuralFuncTypeKey (params results : List ValType) : Nat :=
  digestKey (Sha256.sum256 (flatSignature params results))

def hasIndexedReference : ValType → Bool
  | .ref { heap := .abs _, .. } => false
  | .ref _ => true
  | _ => false

def compTypeHasIndexedReferences (params results : List ValType) : Bool :=
  params.any hasIndexedReference || results.any hasIndexedReference

def typeInNonSingletonRecGroup (typeIdx : Nat) : Bool :=
  match subtypeByFlatTypeIdx types typeIdx with
  | some (_, group) => groupLength types group > 1
  | none => false

/-- Whether the type needs the key of its group rather than the flat one. -/
def needsIndexedKey (typeIdx : Nat) (params results : List ValType) (sub : SubType) : Bool :=
  compTypeHasIndexedReferences params results || typeInNonSingletonRecGroup types typeIdx ||
    !sub.final || sub.supers.length != 0 || sub.describes.isSome || sub.descriptor.isSome

/-- The key and whether it is valid; the cache goes on to later queries. -/
def structuralTypeKeyChecked (typeIdx : Nat) (cache : KeyCache) : (Nat × Bool) × KeyCache :=
  match typeFunc types typeIdx, subtypeByFlatTypeIdx types typeIdx with
  | some (params, results), some (sub, _) =>
    if needsIndexedKey types typeIdx params results sub then
      structuralIndexedFuncTypeKey types typeIdx cache
    else ((structuralFuncTypeKey params results, true), cache)
  | _, _ => ((0, false), cache)

/-- The cache after a sequence of queries. -/
def keyCacheAfter (queries : List Nat) : KeyCache :=
  queries.foldl (fun cache typeIdx => (structuralTypeKeyChecked types typeIdx cache).2) KeyCache.empty

end

end Wago.Wasm
