/-
Decoding of the type section (`decode.go`, `decode_budget.go`, `decode_recidx.go`): value, heap and
component types, subtypes with their metadata, recursion groups, and the rolling of absolute
indexes into their own group.
-/
import Wago.Wasm.Reader
import Wago.Wasm.Types

namespace Wago.Wasm

open Run

/-! ## Codes -/

def NumType.code : NumType → UInt8
  | .i32 => 0x7f
  | .i64 => 0x7e
  | .f32 => 0x7d
  | .f64 => 0x7c

def AbsHeapType.code : AbsHeapType → UInt8
  | .string => 0x64
  | .exn => 0x69
  | .array => 0x6a
  | .struct => 0x6b
  | .i31 => 0x6c
  | .eq => 0x6d
  | .any => 0x6e
  | .externHeap => 0x6f
  | .func => 0x70
  | .none => 0x71
  | .noExtern => 0x72
  | .noFunc => 0x73
  | .noExn => 0x74

def Mut.code : Mut → UInt8
  | .const => 0
  | .var => 1

def PackType.code : PackType → UInt8
  | .i16 => 0x77
  | .i8 => 0x78

def numTypeOfByte (b : UInt8) : Option NumType :=
  [NumType.i32, .i64, .f32, .f64].find? (·.code = b)

def absHeapTypeOfByte (b : UInt8) : Option AbsHeapType :=
  [AbsHeapType.string, .exn, .array, .struct, .i31, .eq, .any, .externHeap, .func, .none, .noExtern, .noFunc,
    .noExn].find? (·.code = b)

def packTypeOfByte (b : UInt8) : Option PackType := [PackType.i16, .i8].find? (·.code = b)

/-- A decode error at the byte just read. -/
def failPrev {α : Type} (code : DecodeErrorCode) : ReadM α := do
  throw (.decode { code, offset := (← get).pos - 1 })

@[simp] theorem failPrev_run {α : Type} {r : Reader} (code : DecodeErrorCode) :
    (failPrev code : ReadM α).run r = .error (.decode { code, offset := r.pos - 1 }) r := rfl

/-! ## Value types -/

def decodeNumType : ReadM NumType := do
  match numTypeOfByte (← byte) with
  | some n => return n
  | none => failPrev .invalidType

def decodeAbsHeapType : ReadM AbsHeapType := do
  match absHeapTypeOfByte (← byte) with
  | some a => return a
  | none => failPrev .invalidType

def decodeTypeIdx : ReadM TypeIdx := return { index := ← u32 }

def decodeS33TypeIdx : ReadM TypeIdx := do
  let x ← s33
  if x < 0 then failHere .invalidType else return { index := x.toNat % 2 ^ 32 }

def decodeHeapType : ReadM HeapType := do
  match (← peek).bind absHeapTypeOfByte with
  | some _ => return .abs (← decodeAbsHeapType)
  | none => return .typeIndex (← decodeS33TypeIdx)

/-- Exactness and heap type. -/
def decodeRefHeapType : ReadM (Bool × HeapType) := do
  match ← peek with
  | some 0x62 => do skipByte; return (true, .typeIndex (← decodeS33TypeIdx))
  | _ => return (false, ← decodeHeapType)

def decodeRefType : ReadM RefType := do
  match ← byte with
  | 0x63 => do
    let (exact, ht) ← decodeRefHeapType
    return mkRef true ht exact
  | 0x64 => do
    let (exact, ht) ← decodeRefHeapType
    return mkRef false ht exact
  | b =>
    match absHeapTypeOfByte b with
    | some a => return absRef a
    | none => failPrev .invalidType

def isRefTypeByte (b : UInt8) : Bool := b = 0x63 || (absHeapTypeOfByte b).isSome

def decodeValType : ReadM ValType := do
  match ← peek with
  | none => failHere .indexOutOfBounds
  | some b =>
    if (numTypeOfByte b).isSome then return .num (← decodeNumType)
    else if b = 0x7b then do skipByte; return .v128
    else if isRefTypeByte b then return .ref (← decodeRefType)
    else failHere .invalidType

/-- `unsafe.Sizeof` of the decoded element types. -/
def sizeofValType : Nat := 16
def sizeofFieldType : Nat := 16
def sizeofTypeIdx : Nat := 8
def sizeofSubType : Nat := 152
def sizeofRecType : Nat := 24

def decodeResultType : ReadM (List ValType) := readVec sizeofValType decodeValType

/-! ## Component types -/

def decodeMut : ReadM Mut := do
  match ← byte with
  | 0 => return .const
  | 1 => return .var
  | _ => failPrev .invalidType

def decodeStorageType : ReadM StorageType := do
  match (← peek).bind packTypeOfByte with
  | some p => do skipByte; return .packed p
  | none => return .val (← decodeValType)

def decodeFieldType : ReadM FieldType := do
  let storage ← decodeStorageType
  return { storage, mutability := ← decodeMut }

def decodeCompType : ReadM CompType := do
  match ← byte with
  | 0x5e => return .array (← decodeFieldType)
  | 0x5f => return .struct (← readVec sizeofFieldType decodeFieldType)
  | 0x60 => do
    let params ← decodeResultType
    return .func params (← decodeResultType)
  | _ => failPrev .invalidType

/-! ## Subtypes and groups -/

/-- The metadata loop, from what it has read so far. Each round fills a field, so the third round
returns or fails. -/
def decodeTypeMetadataLoop : (rounds : Nat) → Option TypeIdx → Option TypeIdx →
    ReadM (Option TypeIdx × Option TypeIdx)
  | 0, describes, descriptor => return (describes, descriptor)
  | rounds + 1, describes, descriptor => do
    match ← peek with
    | some 0x4c => do
      skipByte
      let idx ← decodeTypeIdx
      if describes.isSome || descriptor.isSome then failHere .invalidType
      else decodeTypeMetadataLoop rounds (some idx) descriptor
    | some 0x4d => do
      skipByte
      let idx ← decodeTypeIdx
      if descriptor.isSome then failHere .invalidType
      else decodeTypeMetadataLoop rounds describes (some idx)
    | _ => return (describes, descriptor)

def decodeTypeMetadata : ReadM (Option TypeIdx × Option TypeIdx) := decodeTypeMetadataLoop 3 none none

/-- The part of a subtype after its `sub` prefix. -/
def decodeSubTypeRest (final hasPrefix : Bool) (supers : List TypeIdx) : ReadM SubType := do
  let (describes, descriptor) ← decodeTypeMetadata
  return { final, supers, describes, descriptor, comp := ← decodeCompType, hasPrefix }

def decodeSubType : ReadM SubType := do
  reserveType
  match ← peek with
  | none => failHere .indexOutOfBounds
  | some b =>
    if b = 0x4f ∨ b = 0x50 then do
      skipByte
      let supers ← readVec sizeofTypeIdx decodeTypeIdx
      decodeSubTypeRest (b == 0x4f) true supers
    else decodeSubTypeRest true false []

def decodeRecType : ReadM RecType := do
  match ← peek with
  | some 0x4e => do
    skipByte
    return { subTypes := ← readMetadataVec sizeofSubType decodeSubType }
  | _ => return { subTypes := [← decodeSubType] }

/-- The slab accounting of `decodeTypeSection`: singletons left in the slab and size of the next. -/
def reserveSingleton (left free nextSlab : Nat) : ReadM (Nat × Nat) :=
  if free = 0 then do
    let count := min nextSlab left
    reserveMetadataStorage sizeofSubType count
    return (count, min (nextSlab * 2) 1024)
  else return (free, nextSlab)

/-- The loop of `decodeTypeSection` over the groups left. -/
def decodeGroups : (left free nextSlab : Nat) → ReadM (List RecType)
  | 0, _, _ => return []
  | left + 1, free, nextSlab => do
    match ← peek with
    | some 0x4e => do
      let group ← decodeRecType
      return group :: (← decodeGroups left free nextSlab)
    | _ => do
      let (free, nextSlab) ← reserveSingleton (left + 1) free nextSlab
      let st ← decodeSubType
      return { subTypes := [st] } :: (← decodeGroups left (free - 1) nextSlab)

/-- Creates the budget when there is none and refuses more groups than its type limit. -/
def checkGroupCount (n : Nat) : ReadM Unit := do
  let r ← get
  let budget := r.withBudget
  set { r with budget := some budget }
  if n > budget.limits.maxTypes then failWith (.groupCountLimit budget.limits.maxTypes)
  else if n > r.left then failHere .indexOutOfBounds
  else return ()

def decodeTypeSection : ReadM (List RecType) := do
  let n ← u32
  checkGroupCount n
  reserveMetadataStorage sizeofRecType n
  decodeGroups n 0 16

/-! ## Recursive indexes -/

section

variable (base limit : Nat)

def markRecursiveTypeIdx (idx : TypeIdx) : TypeIdx :=
  if idx.isRec ∨ idx.index < base ∨ idx.index ≥ limit then idx
  else { index := idx.index - base, isRec := true }

def markRecursiveRefTypeIndexes (rt : RefType) : RefType :=
  match rt.heap with
  | .typeIndex idx => rt.withHeap (.typeIndex (markRecursiveTypeIdx base limit idx))
  | _ => rt

def markRecursiveValTypeIndexes : ValType → ValType
  | .ref rt => .ref (markRecursiveRefTypeIndexes base limit rt)
  | vt => vt

def markRecursiveFieldTypeIndexes (ft : FieldType) : FieldType :=
  match ft.storage with
  | .packed _ => ft
  | .val v => { ft with storage := .val (markRecursiveValTypeIndexes base limit v) }

def markRecursiveCompTypeIndexes : CompType → CompType
  | .func ps rs =>
    .func (ps.map (markRecursiveValTypeIndexes base limit)) (rs.map (markRecursiveValTypeIndexes base limit))
  | .struct fs => .struct (fs.map (markRecursiveFieldTypeIndexes base limit))
  | .array f => .array (markRecursiveFieldTypeIndexes base limit f)

def markRecursiveSubTypeIndexes (st : SubType) : SubType :=
  { st with
    supers := st.supers.map (markRecursiveTypeIdx base limit)
    describes := st.describes.map (markRecursiveTypeIdx base limit)
    descriptor := st.descriptor.map (markRecursiveTypeIdx base limit)
    comp := markRecursiveCompTypeIndexes base limit st.comp }

end

/-- From the first flat index of the groups left; the running base is a `uint32`. -/
def markRecursiveFrom : Nat → List RecType → List RecType
  | _, [] => []
  | base, rt :: rts =>
    let limit := (base + rt.subTypes.length) % 2 ^ 32
    { subTypes := rt.subTypes.map (markRecursiveSubTypeIndexes base limit) } :: markRecursiveFrom limit rts

def markRecursiveTypeIndexes (types : List RecType) : List RecType := markRecursiveFrom 0 types

/-- What `decodeSection` stores for the type section. -/
def typeSection : ReadM (List RecType) := return markRecursiveTypeIndexes (← decodeTypeSection)

/-! ## The shape of decoded types -/

/-- The heap types the binary format has. -/
def PlainHeap : HeapType → Prop
  | .abs _ => True
  | .typeIndex _ => True
  | _ => False

def PlainVal : ValType → Prop
  | .ref r => PlainHeap r.heap
  | _ => True

def PlainField (f : FieldType) : Prop :=
  match f.storage with
  | .val v => PlainVal v
  | .packed _ => True

def PlainComp : CompType → Prop
  | .func ps rs => (ps.length < 2 ^ 32 ∧ ∀ v ∈ ps, PlainVal v) ∧ rs.length < 2 ^ 32 ∧ ∀ v ∈ rs, PlainVal v
  | .struct fs => fs.length < 2 ^ 32 ∧ ∀ f ∈ fs, PlainField f
  | .array f => PlainField f

def PlainGroup (rt : RecType) : Prop :=
  rt.subTypes.length < 2 ^ 32 ∧ ∀ st ∈ rt.subTypes, PlainComp st.comp

/-- Vectors count their elements in 32 bits and heap types are abstract or indexed. -/
def PlainTypes (types : List RecType) : Prop := ∀ rt ∈ types, PlainGroup rt

section

variable {r r' : Reader}

theorem u32_lt {n : Nat} (h : u32.run r = .ok n r') : n < 2 ^ 32 := by
  unfold u32 at h
  obtain ⟨b, t, -, h⟩ := bind_ok.1 h
  have hleb : ∀ {t}, (do return (← leb false 32) % 2 ^ 32 : ReadM Nat).run t = .ok n r' → n < 2 ^ 32 := by
    intro t ht
    obtain ⟨v, t', -, hv⟩ := bind_ok.1 ht
    rw [← (pure_ok.1 hv).1]
    exact Nat.mod_lt _ (by decide)
  cases b with
  | none => exact hleb h
  | some b =>
    simp only at h
    split at h
    · obtain ⟨-, t', -, hv⟩ := bind_ok.1 h
      rw [← (pure_ok.1 hv).1]
      omega
    · exact hleb h

theorem readN_forall {α : Type} {P : α → Prop} {fn : ReadM α}
    (hfn : ∀ {r x r'}, fn.run r = .ok x r' → P x) : ∀ {n : Nat} {xs : List α} {r r' : Reader},
    (readN fn n).run r = .ok xs r' → xs.length = n ∧ ∀ x ∈ xs, P x
  | 0, xs, r, r', h => by
    obtain ⟨rfl, -⟩ := pure_ok.1 h
    simp
  | n + 1, xs, r, r', h => by
    obtain ⟨x, t, hx, h⟩ := bind_ok.1 h
    obtain ⟨xs', t', hxs, h⟩ := bind_ok.1 h
    obtain ⟨rfl, -⟩ := pure_ok.1 h
    obtain ⟨hlen, hall⟩ := readN_forall hfn hxs
    exact ⟨by simp [hlen], List.forall_mem_cons.2 ⟨hfn hx, hall⟩⟩

theorem readVec_forall {α : Type} {P : α → Prop} {size : Nat} {fn : ReadM α}
    (hfn : ∀ {r x r'}, fn.run r = .ok x r' → P x) {xs : List α}
    (h : (readVec size fn).run r = .ok xs r') : xs.length < 2 ^ 32 ∧ ∀ x ∈ xs, P x := by
  obtain ⟨n, t, hn, h⟩ := bind_ok.1 h
  obtain ⟨-, t', -, h⟩ := bind_ok.1 h
  obtain ⟨rfl, hall⟩ := readN_forall hfn h
  exact ⟨u32_lt hn, hall⟩

theorem readMetadataVec_forall {α : Type} {P : α → Prop} {size : Nat} {fn : ReadM α}
    (hfn : ∀ {r x r'}, fn.run r = .ok x r' → P x) {xs : List α}
    (h : (readMetadataVec size fn).run r = .ok xs r') : xs.length < 2 ^ 32 ∧ ∀ x ∈ xs, P x := by
  obtain ⟨n, t, hn, h⟩ := bind_ok.1 h
  obtain ⟨s, t', -, h⟩ := bind_ok.1 h
  rw [run_ite] at h
  split at h
  · simp at h
  · obtain ⟨-, t'', -, h⟩ := bind_ok.1 h
    obtain ⟨rfl, hall⟩ := readN_forall hfn h
    exact ⟨u32_lt hn, hall⟩

theorem decodeHeapType_plain {ht : HeapType} (h : decodeHeapType.run r = .ok ht r') : PlainHeap ht := by
  obtain ⟨b, t, -, h⟩ := bind_ok.1 h
  split at h
  · obtain ⟨a, t', -, h⟩ := bind_ok.1 h
    obtain ⟨rfl, -⟩ := pure_ok.1 h
    trivial
  · obtain ⟨a, t', -, h⟩ := bind_ok.1 h
    obtain ⟨rfl, -⟩ := pure_ok.1 h
    trivial

theorem decodeRefHeapType_plain {p : Bool × HeapType} (h : decodeRefHeapType.run r = .ok p r') :
    PlainHeap p.2 := by
  obtain ⟨b, t, -, h⟩ := bind_ok.1 h
  split at h
  · obtain ⟨-, t', -, h⟩ := bind_ok.1 h
    obtain ⟨a, t', -, h⟩ := bind_ok.1 h
    obtain ⟨rfl, -⟩ := pure_ok.1 h
    trivial
  · obtain ⟨ht, t', hht, h⟩ := bind_ok.1 h
    obtain ⟨rfl, -⟩ := pure_ok.1 h
    exact decodeHeapType_plain hht

theorem decodeRefType_plain {rt : RefType} (h : decodeRefType.run r = .ok rt r') : PlainHeap rt.heap := by
  obtain ⟨b, t, -, h⟩ := bind_ok.1 h
  split at h
  · obtain ⟨p, t', hp, h⟩ := bind_ok.1 h
    obtain ⟨rfl, -⟩ := pure_ok.1 h
    exact decodeRefHeapType_plain hp
  · obtain ⟨p, t', hp, h⟩ := bind_ok.1 h
    obtain ⟨rfl, -⟩ := pure_ok.1 h
    exact decodeRefHeapType_plain hp
  · split at h
    · obtain ⟨rfl, -⟩ := pure_ok.1 h
      trivial
    · simp at h

theorem decodeValType_plain {v : ValType} (h : decodeValType.run r = .ok v r') : PlainVal v := by
  obtain ⟨b, t, -, h⟩ := bind_ok.1 h
  cases b with
  | none => simp at h
  | some b =>
    simp only [run_ite] at h
    split at h
    · obtain ⟨n, t', -, h⟩ := bind_ok.1 h
      obtain ⟨rfl, -⟩ := pure_ok.1 h
      trivial
    split at h
    · obtain ⟨-, t', -, h⟩ := bind_ok.1 h
      obtain ⟨rfl, -⟩ := pure_ok.1 h
      trivial
    split at h
    · obtain ⟨rt, t', hrt, h⟩ := bind_ok.1 h
      obtain ⟨rfl, -⟩ := pure_ok.1 h
      exact decodeRefType_plain hrt
    · simp at h

theorem decodeFieldType_plain {f : FieldType} (h : decodeFieldType.run r = .ok f r') : PlainField f := by
  obtain ⟨st, t, hst, h⟩ := bind_ok.1 h
  obtain ⟨m, t', -, h⟩ := bind_ok.1 h
  obtain ⟨rfl, -⟩ := pure_ok.1 h
  obtain ⟨b, t₁, -, hst⟩ := bind_ok.1 hst
  split at hst
  · obtain ⟨-, t₂, -, hst⟩ := bind_ok.1 hst
    obtain ⟨rfl, -⟩ := pure_ok.1 hst
    trivial
  · obtain ⟨v, t₂, hv, hst⟩ := bind_ok.1 hst
    obtain ⟨rfl, -⟩ := pure_ok.1 hst
    exact decodeValType_plain hv

theorem decodeCompType_plain {ct : CompType} (h : decodeCompType.run r = .ok ct r') : PlainComp ct := by
  obtain ⟨b, t, -, h⟩ := bind_ok.1 h
  split at h
  · obtain ⟨f, t', hf, h⟩ := bind_ok.1 h
    obtain ⟨rfl, -⟩ := pure_ok.1 h
    exact decodeFieldType_plain hf
  · obtain ⟨fs, t', hfs, h⟩ := bind_ok.1 h
    obtain ⟨rfl, -⟩ := pure_ok.1 h
    exact readVec_forall decodeFieldType_plain hfs
  · obtain ⟨ps, t', hps, h⟩ := bind_ok.1 h
    obtain ⟨rs, t'', hrs, h⟩ := bind_ok.1 h
    obtain ⟨rfl, -⟩ := pure_ok.1 h
    exact ⟨readVec_forall decodeValType_plain hps, readVec_forall decodeValType_plain hrs⟩
  · simp at h

theorem decodeSubType_plain {st : SubType} (h : decodeSubType.run r = .ok st r') : PlainComp st.comp := by
  have hrest : ∀ {final hasPrefix supers t}, (decodeSubTypeRest final hasPrefix supers).run t = .ok st r' →
      PlainComp st.comp := by
    intro final hasPrefix supers t h
    obtain ⟨p, t', -, h⟩ := bind_ok.1 h
    obtain ⟨ct, t'', hct, h⟩ := bind_ok.1 h
    obtain ⟨rfl, -⟩ := pure_ok.1 h
    exact decodeCompType_plain hct
  obtain ⟨-, t, -, h⟩ := bind_ok.1 h
  obtain ⟨b, t', -, h⟩ := bind_ok.1 h
  cases b with
  | none => simp at h
  | some b =>
    simp only [run_ite] at h
    split at h
    · obtain ⟨-, t', -, h⟩ := bind_ok.1 h
      obtain ⟨supers, t', -, h⟩ := bind_ok.1 h
      exact hrest h
    · exact hrest h

theorem decodeGroups_plain : ∀ {left free nextSlab : Nat} {rts : List RecType} {r r' : Reader},
    (decodeGroups left free nextSlab).run r = .ok rts r' → PlainTypes rts
  | 0, _, _, rts, r, r', h => by
    obtain ⟨rfl, -⟩ := pure_ok.1 h
    exact fun _ hrt => absurd hrt (by simp)
  | left + 1, free, nextSlab, rts, r, r', h => by
    rw [decodeGroups] at h
    obtain ⟨b, t, -, h⟩ := bind_ok.1 h
    split at h
    · obtain ⟨rt, t', hrt, h⟩ := bind_ok.1 h
      obtain ⟨rts', t'', hrts, h⟩ := bind_ok.1 h
      obtain ⟨rfl, -⟩ := pure_ok.1 h
      refine List.forall_mem_cons.2 ⟨?_, decodeGroups_plain hrts⟩
      obtain ⟨b', t₁, -, hrt⟩ := bind_ok.1 hrt
      split at hrt
      · obtain ⟨-, t₂, -, hrt⟩ := bind_ok.1 hrt
        obtain ⟨sts, t₂, hsts, hrt⟩ := bind_ok.1 hrt
        obtain ⟨rfl, -⟩ := pure_ok.1 hrt
        exact readMetadataVec_forall (P := fun st : SubType => PlainComp st.comp) decodeSubType_plain hsts
      · obtain ⟨st, t₂, hst, hrt⟩ := bind_ok.1 hrt
        obtain ⟨rfl, -⟩ := pure_ok.1 hrt
        exact ⟨by simp, by simpa using decodeSubType_plain hst⟩
    · obtain ⟨p, t', -, h⟩ := bind_ok.1 h
      obtain ⟨st, t'', hst, h⟩ := bind_ok.1 h
      obtain ⟨rts', t'', hrts, h⟩ := bind_ok.1 h
      obtain ⟨rfl, -⟩ := pure_ok.1 h
      exact List.forall_mem_cons.2
        ⟨⟨by simp, by simpa using decodeSubType_plain hst⟩, decodeGroups_plain hrts⟩

theorem markRecursiveValType_plain {base limit : Nat} {v : ValType} (h : PlainVal v) :
    PlainVal (markRecursiveValTypeIndexes base limit v) := by
  cases v with
  | ref rt =>
    obtain ⟨nullable, exact, bare, heap⟩ := rt
    cases heap <;> exact h
  | _ => trivial

theorem markRecursiveFieldType_plain {base limit : Nat} {f : FieldType} (h : PlainField f) :
    PlainField (markRecursiveFieldTypeIndexes base limit f) := by
  obtain ⟨st, m⟩ := f
  cases st with
  | packed p => trivial
  | val v => exact markRecursiveValType_plain (v := v) h

theorem markRecursiveCompType_plain {base limit : Nat} {ct : CompType} (h : PlainComp ct) :
    PlainComp (markRecursiveCompTypeIndexes base limit ct) := by
  cases ct with
  | func ps rs =>
    obtain ⟨⟨hpl, hp⟩, hrl, hr⟩ := h
    refine ⟨⟨by simpa using hpl, ?_⟩, by simpa using hrl, ?_⟩
    · exact List.forall_mem_map.2 fun v hv => markRecursiveValType_plain (hp v hv)
    · exact List.forall_mem_map.2 fun v hv => markRecursiveValType_plain (hr v hv)
  | struct fs =>
    exact ⟨by simpa using h.1, List.forall_mem_map.2 fun f hf => markRecursiveFieldType_plain (h.2 f hf)⟩
  | array f => exact markRecursiveFieldType_plain h

theorem markRecursive_plain : ∀ {base : Nat} {rts : List RecType}, PlainTypes rts →
    PlainTypes (markRecursiveFrom base rts)
  | _, [], _ => fun _ hrt => absurd hrt (by simp [markRecursiveFrom])
  | base, rt :: rts, h => by
    obtain ⟨hrt, hrts⟩ := List.forall_mem_cons.1 h
    refine List.forall_mem_cons.2 ⟨⟨by simpa using hrt.1, ?_⟩, markRecursive_plain hrts⟩
    exact List.forall_mem_map.2 fun st hst => markRecursiveCompType_plain (hrt.2 st hst)

theorem typeSection_plain {types : List RecType} (h : typeSection.run r = .ok types r') :
    PlainTypes types := by
  obtain ⟨raw, t, hraw, h⟩ := bind_ok.1 h
  obtain ⟨rfl, -⟩ := pure_ok.1 h
  obtain ⟨n, t₁, -, hraw⟩ := bind_ok.1 hraw
  obtain ⟨-, t₂, -, hraw⟩ := bind_ok.1 hraw
  obtain ⟨-, t₃, -, hraw⟩ := bind_ok.1 hraw
  exact markRecursive_plain (decodeGroups_plain hraw)

end

end Wago.Wasm
