/-
What the checked graphs mean. `Effect.source` says where the byte of a location comes from when an
emitted transfer is executed; the machine (`Machine`, `Exec`) carries actual bytes and the current
bytes of every semantic value, and `Graph.flow` carries, along a path, what has been established about
them. `Exec.sound` connects the two: what a path establishes is true of every machine that takes it.
-/
import Wago.RegallocCheck.Verify
import Wago.Lib.MustFlow

namespace Wago.RegallocCheck

open MustFlow

/-! ## Bytes of carriers -/

theorem Location.next_next (l : Location) (a b : Nat) : (l.next a).next b = l.next (a + b) := by
  unfold Location.next
  split
  · simp [Int32.add_assoc, Int32.ofNat_add, *]
  · simp [UInt8.add_assoc, UInt8.ofNat_add, *]

@[simp] theorem Location.bank_next (l : Location) (n : Nat) : (l.next n).bank = l.bank := by
  unfold Location.next
  split <;> rfl

/-- Different bytes of a carrier are different locations. -/
theorem Location.next_inj {l : Location} {a b : Nat} (ha : a < 256) (hb : b < 256)
    (h : l.next a = l.next b) : a = b := by
  unfold Location.next at h
  split at h
  · simp only [Location.mk.injEq, Int32.add_right_inj, true_and, and_true] at h
    have hint := congrArg Int32.toInt h
    rw [Int32.toInt_ofNat_of_lt, Int32.toInt_ofNat_of_lt] at hint <;> omega
  · simp only [Location.mk.injEq, UInt8.add_right_inj, true_and] at h
    have hnat := congrArg UInt8.toNat h
    simp at hnat
    omega

/-- The number of a location among the bytes of a carrier. -/
def offset (loc base : Location) (size : Nat) : Option Nat :=
  (List.range size).find? fun i => base.next i = loc

variable {loc base : Location}

theorem offset_eq_some {size i : Nat} (hsize : size ≤ 256) :
    offset loc base size = some i ↔ i < size ∧ base.next i = loc := by
  unfold offset
  constructor
  · intro h
    exact ⟨List.mem_range.1 (List.mem_of_find?_eq_some h), by simpa using List.find?_some h⟩
  · rintro ⟨hi, rfl⟩
    rcases hfind : (List.range size).find? fun j => base.next j = base.next i with _ | j
    · rw [List.find?_eq_none] at hfind
      exact absurd (by simp) (hfind i (List.mem_range.2 hi))
    · have hj := List.mem_range.1 (List.mem_of_find?_eq_some hfind)
      have heq : base.next j = base.next i := by simpa using List.find?_some hfind
      rw [Location.next_inj (by omega) (by omega) heq]

theorem offset_eq_none {size : Nat} :
    offset loc base size = none ↔ ∀ i < size, base.next i ≠ loc := by
  simp [offset, List.find?_eq_none]

theorem offset_isSome {size : Nat} :
    (offset loc base size).isSome = true ↔ ∃ i < size, base.next i = loc := by
  rw [Option.isSome_iff_ne_none, ne_eq, offset_eq_none]
  push Not
  rfl

/-! ## Emitted effects -/

/-- The upper half that a 32-bit write of a general register does not keep. -/
def upperHalf (loc carrier : Location) (size : Nat) : Bool :=
  carrier.bank = .gp ∧ size = 4 ∧ (offset loc (carrier.next 4) 4).isSome

/-- The bytes after the destination whose identities are lost. -/
def Effect.clears (e : Effect) (loc : Location) : Bool :=
  e.clearTo > e.size ∧ (offset loc (e.dst.next e.size.toNat) (e.clearTo - e.size).toNat).isSome

/-- The location whose old byte is found at `loc` after the effect, if the effect says so. Calls keep
the frame and nothing else. -/
def Effect.source (e : Effect) (loc : Location) : Option Location :=
  match e.kind with
  | .copy =>
    match offset loc e.dst e.size.toNat with
    | some i => some (e.src.next i)
    | none => if upperHalf loc e.dst e.size.toNat ∨ e.clears loc then none else some loc
  | .swap =>
    match offset loc e.dst e.size.toNat with
    | some i => some (e.src.next i)
    | none =>
      match offset loc e.src e.size.toNat with
      | some i => some (e.dst.next i)
      | none =>
        if upperHalf loc e.dst e.size.toNat ∨ upperHalf loc e.src e.size.toNat then none else some loc
  | .kill => if (offset loc e.dst e.size.toNat).isSome ∨ e.clears loc then none else some loc
  | .call => if loc.bank = .frame then some loc else none
  | .read => some loc
  | .other _ => none

/-! ## Machines -/

/-- The bytes of all locations, and the bytes of the values that the semantic names now stand for. -/
structure Machine (β : Type) where
  bytes : Location → β
  values : ValueID → Nat → β

variable {β : Type}

/-- Bytes from untracked addresses are arbitrary. -/
def Effect.Step (e : Effect) (bytes bytes' : Location → β) : Prop :=
  ∀ loc src, e.source loc = some src → src.bank ≠ .unknown → bytes' loc = bytes src

/-- The value's bytes are put in a carrier, and every other byte stays. -/
def Placed (loc : Location) (width : Nat) (value : Nat → β) (bytes bytes' : Location → β) : Prop :=
  ∀ l, bytes' l = match offset l loc width with
    | some i => value i
    | none => bytes l

/-- One operation. A definition gives its name a new value, whatever it is; a constant keeps its
value. -/
def Operation.Step (g : Graph) (op : Operation) (σ σ' : Machine β) : Prop :=
  match op.kind with
  | .machine => σ'.values = σ.values ∧ op.effect.Step σ.bytes σ'.bytes
  | .define => (∀ id, id ≠ op.value → σ'.values id = σ.values id) ∧
      Placed op.location (g.width op.value) (σ'.values op.value) σ.bytes σ'.bytes
  | .defineConstant => σ'.values = σ.values ∧
      Placed op.location (g.width op.value) (σ.values op.value) σ.bytes σ'.bytes
  | .use => σ' = σ
  | .unsupported => True
  | .other _ => False

inductive RunOps (g : Graph) : List Operation → Machine β → Machine β → Prop where
  | nil {σ} : RunOps g [] σ σ
  | snoc {ops op σ σ' σ''} (hops : RunOps g ops σ σ') (hop : op.Step g σ' σ'') :
      RunOps g (ops ++ [op]) σ σ''

/-- The name a successor's value has before the edge. -/
def renamedFrom (params : List Parameter) (id : ValueID) : ValueID :=
  match params.find? fun p => p.toId = id with
  | some p => p.fromId
  | none => id

/-- An edge gives all its names their new values at once. -/
def Edge.Step (e : Edge) (σ σ' : Machine β) : Prop :=
  σ'.bytes = σ.bytes ∧ ∀ id, σ'.values id = σ.values (renamedFrom e.parameters id)

/-- The carrier holds the bytes of the value its name stands for. -/
def Machine.Finds (σ : Machine β) (loc : Location) (value : ValueID) (width : Nat) : Prop :=
  ∀ part < width, σ.bytes (loc.next part) = σ.values value part

def Graph.InputsHold (g : Graph) (σ : Machine β) : Prop :=
  ∀ input ∈ g.inputs, σ.Finds input.location input.value (g.width input.value)

/-! ## What a path establishes -/

/-- A carrier that receives a value: its bytes hold that value only. -/
def placedOrigin (loc : Location) (id : ValueID) (width : Nat) (f : FlowFact)
    (elsewhere : Origin FlowFact) : Origin FlowFact :=
  match offset f.1 loc width with
  | some i => if f.2 = ⟨id, i⟩ then .always else .never
  | none => elsewhere

variable {loc : Location} {f : FlowFact} {X : Set FlowFact}

theorem holds_placedOrigin {id : ValueID} {width : Nat} {elsewhere : Origin FlowFact} :
    (placedOrigin loc id width f elsewhere).Holds X ↔
      (∀ i, offset f.1 loc width = some i → f.2 = ⟨id, i⟩) ∧
        (offset f.1 loc width = none → elsewhere.Holds X) := by
  unfold placedOrigin
  rcases offset f.1 loc width with _ | i
  · simp
  · by_cases h : f.2 = ⟨id, i⟩
    · simp [h]
    · simp [h]

def Effect.transfer (e : Effect) : Transfer FlowFact := fun f =>
  match e.source f.1 with
  | some src => .pre (src, f.2)
  | none => .never

theorem Effect.mem_transfer {e : Effect} :
    f ∈ e.transfer.apply X ↔ ∃ src, e.source f.1 = some src ∧ (src, f.2) ∈ X := by
  rw [Transfer.mem_apply, Effect.transfer]
  rcases e.source f.1 with _ | src
  · simp
  · simp

def Operation.transfer (g : Graph) (op : Operation) : Transfer FlowFact := fun f =>
  match op.kind with
  | .machine => op.effect.transfer f
  | .define =>
    placedOrigin op.location op.value (g.width op.value) f
      (if f.2.id = op.value then .never else .pre f)
  | .defineConstant => placedOrigin op.location op.value (g.width op.value) f (.pre f)
  | _ => .pre f

def transferOps (g : Graph) (ops : List Operation) : Transfer FlowFact :=
  ops.foldl (fun t op => t.andThen (op.transfer g)) Transfer.skip

def Edge.transfer (e : Edge) : Transfer FlowFact := fun f =>
  .pre (f.1, ⟨renamedFrom e.parameters f.2.id, f.2.part⟩)

/-- The graph as a system of facts: its edges are the edges of its blocks, each with the operations of
its block before it. -/
def Graph.flow (g : Graph) : System Nat (Nat × Edge) FlowFact where
  Valid e := ∃ block, g.blocks[e.1]? = some block ∧ e.2 ∈ block.edges
  src e := e.1
  tgt e := e.2.target.toNat
  transfer e := (transferOps g (g.blocks[e.1]?.elim [] (·.operations))).andThen e.2.transfer
  entry := g.entry.toNat
  initial := {f | f ∈ g.inputFacts}

/-- Machines that take a path. -/
inductive Exec (g : Graph) (σ₀ : Machine β) : List (Nat × Edge) → Machine β → Prop where
  | nil : Exec g σ₀ [] σ₀
  | snoc {p b block edge σ σ' σ''} (hp : Exec g σ₀ p σ) (hblock : g.blocks[b]? = some block)
      (hops : RunOps g block.operations σ σ') (hedge : edge.Step σ' σ'') : Exec g σ₀ (p ++ [(b, edge)]) σ''

/-! ## Checked graphs -/

theorem flowLocation_size {size : Int} {unknown : Bool} (h : flowLocation loc size unknown = true) :
    1 ≤ size ∧ size ≤ 64 := by
  unfold flowLocation at h
  split at h
  · cases h
  · next hsize =>
    simp only [maxCarrierBytes] at hsize
    omega

theorem flowLocation_bank {size : Int} (h : flowLocation loc size false = true) :
    loc.bank ≠ .unknown := by
  intro hbank
  unfold flowLocation at h
  split at h
  · cases h
  · rw [hbank] at h
    cases h

/-- What a valid effect promises, as far as its kind needs it. -/
structure Effect.Valid (e : Effect) : Prop where
  size : e.kind ≠ .call → 1 ≤ e.size ∧ e.size ≤ 64
  clearTo : 0 ≤ e.clearTo ∧ e.clearTo ≤ 64
  dst : e.kind = .copy ∨ e.kind = .swap ∨ e.kind = .kill → e.dst.bank ≠ .unknown
  known : ∀ n, e.kind ≠ .other n
  call : e.kind = .call → e.clearTo = 0 ∧ e.size = 0
  swap : e.kind = .swap → e.clearTo = 0 ∧ flowLocation e.dst e.size false = true ∧
    flowLocation e.src e.size false = true ∧ partialOverlap e.dst e.src e.size = false

theorem Effect.valid_of_returnArea {e : Effect} (h : returnAreaEffectValid e = true) : e.Valid := by
  unfold returnAreaEffectValid at h
  split at h
  · cases h
  · next hshape =>
    push Not at hshape
    obtain ⟨hdst, hsize, hclear⟩ := hshape
    have hkind : e.kind = .copy ∨ e.kind = .kill := by
      cases hk : e.kind <;> rw [hk] at h <;> simp_all
    refine ⟨fun _ => by omega, by omega, fun _ => by rw [hdst]; simp [returnAreaSink], ?_, ?_, ?_⟩ <;>
      rcases hkind with hk | hk <;> simp [hk]

theorem Effect.valid_of_machine {e : Effect} (h : machineEffectValid e = true) : e.Valid := by
  unfold machineEffectValid at h
  split at h
  · exact Effect.valid_of_returnArea h
  split at h
  · next hk =>
    simp only [Bool.decide_and, Bool.and_eq_true, decide_eq_true_eq] at h
    refine ⟨by simp [hk], by omega, by simp [hk], by simp [hk], fun _ => ⟨h.2, h.1⟩, by simp [hk]⟩
  split at h
  · cases h
  split at h
  · cases h
  split at h
  · cases h
  split at h
  · cases h
  next hcall hshape hdst hsrc _ =>
  push Not at hshape
  obtain ⟨hknown, hlow, hhigh, hclear, _, _⟩ := hshape
  simp only [maxCarrierBytes] at hhigh
  have hdst' : e.kind ≠ .read → flowLocation e.dst (max e.size e.clearTo) false = true := by
    intro hk
    by_contra hno
    exact hdst ⟨hk, hno⟩
  have hread : e.kind = .read → e.clearTo = 0 := by
    assumption
  have hmax : e.kind ≠ .read → max e.size e.clearTo ≤ 64 := fun hk => (flowLocation_size (hdst' hk)).2
  refine ⟨fun _ => by omega, ⟨by omega, ?_⟩, ?_, ?_, fun hk => absurd hk hcall, ?_⟩
  · by_cases hk : e.kind = .read
    · rw [hread hk]; omega
    · exact le_trans (le_max_right ..) (hmax hk)
  · intro hk
    exact flowLocation_bank (hdst' (by rcases hk with hk | hk | hk <;> simp [hk]))
  · intro n hk
    simp [hk, Kind.known] at hknown
  · intro hk
    have hsrc' : flowLocation e.src e.size false = true := by
      by_contra hno
      refine hsrc ⟨.inr (.inl hk), ?_⟩
      simpa [hk] using hno
    simp only [hk, ne_eq, not_true_eq_false, false_or, Bool.decide_and, Bool.and_eq_true,
      decide_eq_true_eq, Bool.not_eq_true] at h
    have hd := hdst' (by simp [hk])
    rw [h.1, max_eq_left (by omega)] at hd
    exact ⟨h.1, hd, hsrc', h.2⟩

/-- What validation promises of an operation. -/
def Operation.Checked (g : Graph) (op : Operation) : Prop :=
  match op.kind with
  | .define | .defineConstant | .use => flowLocation op.location (g.width op.value) false = true
  | .machine => op.effect.Valid
  | .unsupported => True
  | .other _ => False

structure Edge.Checked (g : Graph) (e : Edge) : Prop where
  target : e.target.toNat < g.blocks.length
  nodup : (e.parameters.map (·.toId)).Nodup
  params : ∀ p ∈ e.parameters, flowLocation p.location (g.width p.fromId) false = true ∧
    g.width p.toId = g.width p.fromId

structure Graph.Checked (g : Graph) : Prop where
  entry : g.entry.toNat < g.blocks.length
  widths : ∀ id, g.width id ≤ 64
  inputs : ∀ input ∈ g.inputs, flowLocation input.location (g.width input.value) false = true
  operations : ∀ block ∈ g.blocks, ∀ op ∈ block.operations, op.Checked g
  edges : ∀ block ∈ g.blocks, ∀ e ∈ block.edges, e.Checked g

theorem Graph.width_zero (g : Graph) : g.width 0 = 0 := rfl

variable {g : Graph}

/-- Carriers are of named values. -/
theorem Graph.named_of_flowLocation {id : ValueID} {unknown : Bool}
    (h : flowLocation loc (g.width id) unknown = true) : id ≠ 0 := by
  rintro rfl
  have hsize := flowLocation_size h
  rw [g.width_zero] at hsize
  omega

/-! ## Soundness along a path -/

/-- All facts are true of the machine, and none is about an untracked address. -/
def Sound (X : Set FlowFact) (σ : Machine β) : Prop :=
  ∀ f ∈ X, f.1.bank ≠ .unknown ∧ σ.bytes f.1 = σ.values f.2.id f.2.part

/-- Facts reach tracked locations only. -/
theorem Effect.Valid.source_tracked {e : Effect} (he : e.Valid) {loc src : Location}
    (hsource : e.source loc = some src) (hsrc : src.bank ≠ .unknown) : loc.bank ≠ .unknown := by
  unfold Effect.source at hsource
  cases hk : e.kind with
  | copy =>
    rw [hk] at hsource
    dsimp only at hsource
    split at hsource
    · next i hi =>
      obtain ⟨_, rfl⟩ := (offset_eq_some (by have := he.size (by simp [hk]); omega)).1 hi
      rw [Location.bank_next]
      exact he.dst (.inl hk)
    · split at hsource
      · cases hsource
      · cases hsource
        exact hsrc
  | swap =>
    obtain ⟨_, hdst, hsrcLoc, _⟩ := he.swap hk
    have hsize : e.size.toNat ≤ 256 := by have := he.size (by simp [hk]); omega
    rw [hk] at hsource
    dsimp only at hsource
    split at hsource
    · next i hi =>
      obtain ⟨_, rfl⟩ := (offset_eq_some hsize).1 hi
      rw [Location.bank_next]
      exact flowLocation_bank hdst
    · split at hsource
      · next i hi =>
        obtain ⟨_, rfl⟩ := (offset_eq_some hsize).1 hi
        rw [Location.bank_next]
        exact flowLocation_bank hsrcLoc
      · split at hsource
        · cases hsource
        · cases hsource
          exact hsrc
  | kill =>
    rw [hk] at hsource
    dsimp only at hsource
    split at hsource
    · cases hsource
    · cases hsource
      exact hsrc
  | call =>
    rw [hk] at hsource
    dsimp only at hsource
    split at hsource
    · cases hsource
      exact hsrc
    · cases hsource
  | read =>
    rw [hk] at hsource
    cases hsource
    exact hsrc
  | other n => exact absurd hk (he.known n)

variable {σ σ' : Machine β}

/-- A definition: its bytes hold the value, and the others are as they were. -/
theorem Sound.placed {id : ValueID} {width : Nat} (hwidth : width ≤ 64) (htracked : loc.bank ≠ .unknown)
    (hplaced : Placed loc width (σ'.values id) σ.bytes σ'.bytes)
    (hin : ∀ i, offset f.1 loc width = some i → f.2 = ⟨id, i⟩)
    (hout : offset f.1 loc width = none → f ∈ X ∧ σ'.values f.2.id = σ.values f.2.id) (hX : Sound X σ) :
    f.1.bank ≠ .unknown ∧ σ'.bytes f.1 = σ'.values f.2.id f.2.part := by
  have hbyte := hplaced f.1
  rcases hoff : offset f.1 loc width with _ | i
  · rw [hoff] at hbyte
    obtain ⟨hf, hval⟩ := hout hoff
    obtain ⟨hbank, heq⟩ := hX f hf
    exact ⟨hbank, by rw [hbyte, hval, heq]⟩
  · rw [hoff] at hbyte
    have hsym := hin i hoff
    obtain ⟨_, hloc⟩ := (offset_eq_some (by omega)).1 hoff
    refine ⟨by rw [← hloc, Location.bank_next]; exact htracked, ?_⟩
    rw [hbyte, hsym]

theorem Sound.operation (hg : g.Checked) {op : Operation} (hop : op.Checked g) (hX : Sound X σ)
    (hstep : op.Step g σ σ') (hsupported : op.kind ≠ .unsupported) :
    Sound ((op.transfer g).apply X) σ' := by
  rintro ⟨loc, v⟩ hf
  rw [Transfer.mem_apply] at hf
  unfold Operation.transfer at hf
  unfold Operation.Step at hstep
  unfold Operation.Checked at hop
  cases hk : op.kind with
  | machine =>
    rw [hk] at hf hstep hop
    dsimp only at hf hop
    obtain ⟨hvalues, hbytes⟩ := hstep
    obtain ⟨src, hsource, hsrc⟩ := Effect.mem_transfer.1 hf
    obtain ⟨hbank, heq⟩ := hX _ hsrc
    refine ⟨hop.source_tracked hsource hbank, ?_⟩
    rw [hbytes loc src hsource hbank, hvalues]
    exact heq
  | define =>
    rw [hk] at hf hstep hop
    dsimp only at hf hop
    obtain ⟨hvalues, hplaced⟩ := hstep
    obtain ⟨hin, hout⟩ := holds_placedOrigin.1 hf
    refine Sound.placed (hg.widths op.value) (flowLocation_bank hop) hplaced hin (fun hnone => ?_) hX
    have hpre := hout hnone
    split at hpre
    · exact hpre.elim
    · next hid => exact ⟨hpre, hvalues v.id hid⟩
  | defineConstant =>
    rw [hk] at hf hstep hop
    dsimp only at hf hop
    obtain ⟨hvalues, hplaced⟩ := hstep
    rw [← hvalues] at hplaced
    obtain ⟨hin, hout⟩ := holds_placedOrigin.1 hf
    exact Sound.placed (hg.widths op.value) (flowLocation_bank hop) hplaced hin
      (fun hnone => ⟨hout hnone, by rw [hvalues]⟩) hX
  | use =>
    rw [hk] at hf hstep
    subst hstep
    exact hX _ hf
  | unsupported => exact absurd hk hsupported
  | other n => rw [hk] at hop; exact hop.elim

theorem transferOps_snoc (g : Graph) (ops : List Operation) (op : Operation) :
    transferOps g (ops ++ [op]) = (transferOps g ops).andThen (op.transfer g) := by
  simp [transferOps]

theorem Sound.operations (hg : g.Checked) {ops : List Operation}
    (hops : ∀ op ∈ ops, op.Checked g ∧ op.kind ≠ .unsupported) (hX : Sound X σ) (hrun : RunOps g ops σ σ') :
    Sound ((transferOps g ops).apply X) σ' := by
  induction hrun with
  | nil => exact hX
  | @snoc ops op σ σ' σ'' _ hop ih =>
    rw [transferOps_snoc, Transfer.apply_andThen]
    obtain ⟨hchecked, hsupported⟩ := hops op (by simp)
    exact Sound.operation hg hchecked (ih (fun op h => hops op (by simp [h])) hX) hop hsupported

theorem Sound.edge {e : Edge} (hX : Sound X σ) (hstep : e.Step σ σ') : Sound (e.transfer.apply X) σ' := by
  rintro ⟨loc, v⟩ hf
  obtain ⟨hbytes, hvalues⟩ := hstep
  obtain ⟨hbank, heq⟩ := hX _ hf
  refine ⟨hbank, ?_⟩
  rw [hbytes, hvalues]
  exact heq

theorem Graph.mem_inputFacts : f ∈ g.inputFacts ↔
    ∃ input ∈ g.inputs, ∃ part < g.width input.value,
      (input.location.next part, (⟨input.value, part⟩ : Symbol)) = f := by
  simp [Graph.inputFacts]

theorem Sound.inputs {g : Graph} (hg : g.Checked) {σ : Machine β} (hσ : g.InputsHold σ) :
    Sound g.flow.initial σ := by
  intro f hf
  obtain ⟨input, hinput, part, hpart, rfl⟩ := Graph.mem_inputFacts.1 hf
  refine ⟨?_, hσ input hinput part hpart⟩
  rw [Location.bank_next]
  exact flowLocation_bank (hg.inputs input hinput)

/-- Every operation that can run is supported. -/
def Graph.Supported (g : Graph) : Prop :=
  ∀ p b, g.flow.Path p b → ∀ block, g.blocks[b]? = some block → ∀ op ∈ block.operations,
    op.kind ≠ .unsupported

/-- What a path establishes is true of every machine that takes it. -/
theorem Exec.sound (hg : g.Checked) (hsupported : g.Supported) {σ₀ σ : Machine β} (hσ₀ : g.InputsHold σ₀)
    {p : List (Nat × Edge)} {b : Nat} (hpath : g.flow.Path p b) (hexec : Exec g σ₀ p σ) :
    Sound (g.flow.along p) σ := by
  induction hpath generalizing σ with
  | nil =>
    generalize hp : ([] : List (Nat × Edge)) = p at hexec
    cases hexec with
    | nil => exact Sound.inputs hg hσ₀
    | snoc => simp at hp
  | @snoc p e hpath he ih =>
    generalize hp : p ++ [e] = q at hexec
    cases hexec with
    | nil => simp at hp
    | @snoc p' b block edge σ σ' σ'' hexec hblock hops hedge =>
      obtain ⟨rfl, hlast⟩ := List.append_inj' hp rfl
      cases hlast
      have hmem := List.mem_of_getElem? hblock
      have hsound := Sound.operations hg
        (fun op hop => ⟨hg.operations block hmem op hop, hsupported p b hpath block hblock op hop⟩)
        (ih hexec) hops
      have htransfer : g.flow.transfer (b, edge) = (transferOps g block.operations).andThen edge.transfer := by
        change (transferOps g (g.blocks[b]?.elim [] (·.operations))).andThen edge.transfer = _
        rw [hblock]
        rfl
      rw [System.along_snoc, htransfer, Transfer.apply_andThen]
      exact hsound.edge hedge

end Wago.RegallocCheck
