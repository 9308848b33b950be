/-
The three walkers over instruction immediates agree: what the skipper, the classifier and the
decoders accept, where they stop, and what the classifier reports of an instruction.
-/
import Wago.Wasm.BytecodeWalk
import Wago.Wasm.ReadLockstep

namespace Wago.Wasm

open Run

/-! ## The skipper is the classifier without its report -/

/-- A result without its value. -/
def discardResult {ε σ α : Type} : EStateM.Result ε σ α → EStateM.Result ε σ Unit
  | .ok _ s => .ok () s
  | .error e s => .error e s

section

variable {ε σ α β : Type}

theorem discardResult_bind (x : EStateM ε σ α) (f : α → β) (s : σ) :
    discardResult ((do return f (← x) : EStateM ε σ β).run s) = discardResult (x.run s) := by
  rw [EStateM.run_bind]
  cases x.run s <;> rfl

theorem discardResult_map (x : EStateM ε σ α) (f : α → β) (s : σ) :
    discardResult ((f <$> x).run s) = discardResult (x.run s) := by
  rw [run_map]
  cases x.run s <;> rfl

theorem discardResult_congr {x : EStateM ε σ α} {f : α → EStateM ε σ β} {γ : Type}
    {g : α → EStateM ε σ γ} {s : σ}
    (h : ∀ a t, discardResult ((f a).run t) = discardResult ((g a).run t)) :
    discardResult ((x >>= f).run s) = discardResult ((x >>= g).run s) := by
  rw [EStateM.run_bind, EStateM.run_bind]
  cases x.run s with
  | ok a t => exact h a t
  | error e t => rfl

@[simp] theorem discardResult_unit (res : EStateM.Result ε σ Unit) : discardResult res = res := by
  cases res <;> rfl

end

theorem skipScalarMemoryImmediate_eq (imm : InstructionImmediate) (w : MemargWidths) (mm : Bool)
    (r : Reader) : (skipScalarMemoryImmediate w mm).run r =
      discardResult ((classifyMemArgBytes imm { w with multiMemory := mm }).run r) := by
  rw [← discardResult_unit ((skipScalarMemoryImmediate w mm).run r)]
  have hoff : ∀ i, readMemOffset { w with multiMemory := mm } i = readMemOffset w i := fun _ => rfl
  refine discardResult_congr fun n t => ?_
  simp only [run_ite, hoff]
  split
  · rw [discardResult_bind, discardResult_bind]
  · cases mm with
    | false => simp [discardResult]
    | true =>
      simp only [and_true, if_true]
      split
      · refine discardResult_congr fun i u => ?_
        rw [discardResult_bind, discardResult_bind]
      · rfl

/-- The scalar loads and stores are in none of the tables looked at before them. -/
theorem scalarMemory_tables {n : Nat} (hlo : 0x28 ≤ n) (hhi : n ≤ 0x3e) :
    lookupPrefixKind simpleOpcode n = none ∧ n ∉ oneIndexOpcodes :=
  (show ∀ n < 0x3f, 0x28 ≤ n → lookupPrefixKind simpleOpcode n = none ∧ n ∉ oneIndexOpcodes by decide)
    n (by omega) hlo

theorem classifyExprOp_scalarMemory {op : UInt8} (hop : 0x28 ≤ op.toNat ∧ op.toNat ≤ 0x3e)
    (w : MemargWidths) (mm : Bool) : classifyExprOpAfterOpcodeWithWidths op w mm = do
      return (.instr, ← classifyMemArgBytes
        { kind := lookupRuns memOpcodeKind op.toNat, touchesMemory := true }
        { w with multiMemory := mm }) := by
  obtain ⟨hsimple, hone⟩ := scalarMemory_tables hop.1 hop.2
  unfold classifyExprOpAfterOpcodeWithWidths
  simp only [hsimple, if_neg hone]
  split <;> first | omega | rw [if_pos hop]

theorem viaReader_discard {α β : Type} {x : ReadM α} {y : ReadM β} {r : ExportReader}
    (h : ∀ s, discardResult (x.run s) = discardResult (y.run s)) :
    discardResult ((ExportReader.viaReader x).run r) =
      discardResult ((ExportReader.viaReader y).run r) := by
  have h := h { data := r.data, pos := r.pos, budget := none }
  unfold ExportReader.viaReader
  simp only [EStateM.run] at h ⊢
  generalize x _ = rx at *
  generalize y _ = ry at *
  cases rx <;> cases ry <;> simp_all [discardResult]

/-- The skipper and the classifier go through the same bytes: they end the same way, with the same
error and at the same position, also when they fail. -/
theorem skipInstruction_eq_classify (op : UInt8) (w : MemargWidths) (mm : Bool) (r : ExportReader) :
    (skipInstructionImmediateWithWidths op w mm).run r =
      discardResult ((classifyInstructionImmediateIntoWithWidths op w mm).run r) := by
  rw [← discardResult_unit ((skipInstructionImmediateWithWidths op w mm).run r)]
  unfold skipInstructionImmediateWithWidths
  cases hs : lookupPrefixKind simpleOpcode op.toNat with
  | some k => simp only [classifyInstructionImmediateIntoWithWidths, hs]; rfl
  | none =>
    by_cases hone : op.toNat ∈ oneIndexOpcodes
    · simp only [classifyInstructionImmediateIntoWithWidths, hs, if_pos hone, discardResult_bind]
    · by_cases hmem : 0x28 ≤ op.toNat ∧ op.toNat ≤ 0x3e
      · -- the one family with a reader of its own in the skipper
        simp only [classifyInstructionImmediateIntoWithWidths, hs, if_neg hone]
        split <;> first | omega | skip
        simp only [if_pos hmem]
        rw [classifyExprOp_scalarMemory hmem, discardResult_map]
        refine viaReader_discard fun t => ?_
        rw [discardResult_bind, discardResult_unit, skipScalarMemoryImmediate_eq]
      · simp only [classifyInstructionImmediateIntoWithWidths, hs, if_neg hone, if_neg hmem]
        split <;> first | rfl | simp only [discardResult_bind]

/-! ## The classifier on the two readers -/

/-- The exported reader stands where the module reader does. -/
def SamePlace (r : ExportReader) (s : Reader) : Prop := r.data = s.data ∧ r.pos = s.pos

section

variable {F : Err → Prop} {α : Type}

theorem Reads.samePlace {m : ExportReadM α} {m' : ReadM α} {G : List UInt8 → α → Prop}
    (hm : Reads ExportReader.rest ExportReader.advance m G)
    (hm' : Reads Reader.rest Reader.advance m' G) : Lockstep SamePlace F Eq m m' := by
  refine ⟨fun {r s} h => ?_⟩
  have hrest : r.rest = s.rest := by unfold ExportReader.rest Reader.rest; rw [h.1, h.2]
  have hplace : ∀ k, SamePlace (r.advance k) (s.advance k) := fun k => ⟨h.1, by simp [h.2]⟩
  cases hr : m.run r with
  | ok v r' =>
    obtain ⟨k, hk, rfl⟩ := (hm r r' v).1 hr
    rw [(hm' s (s.advance k) v).2 ⟨k, hrest ▸ hk, rfl⟩]
    exact .ok (hplace k) rfl
  | error e r' =>
    cases hs : m'.run s with
    | error => exact .fail
    | ok v s' =>
      obtain ⟨k, hk, rfl⟩ := (hm' s s' v).1 hs
      rw [(hm r (r.advance k) v).2 ⟨k, hrest ▸ hk, rfl⟩] at hr
      cases hr

theorem exportBytes_run (n : Nat) (r : ExportReader) : (ExportReader.bytes n).run r =
    if r.pos + n > r.data.length then
      .error (.decode { code := .indexOutOfBounds, offset := r.pos }) r
    else .ok (r.rest.take n) (r.advance n) := by
  have hget : (get : ExportReadM ExportReader).run r = .ok r r := rfl
  unfold ExportReader.bytes ExportReader.step ExportReader.jumpTo
  rw [bind_of_ok hget, bind_assoc, bind_of_ok hget, bind_assoc, bind_of_ok hget]
  split <;> rfl

theorem bytes_samePlace {n : Nat} (hn : 0 < n) :
    Lockstep SamePlace F Eq (ExportReader.bytes n) (bytes n) := by
  refine ⟨fun {r s} h => ?_⟩
  have hlen : r.pos + n > r.data.length ↔ n > s.data.length - s.pos := by rw [h.1, h.2]; omega
  have hrest : r.rest = s.rest := by unfold ExportReader.rest Reader.rest; rw [h.1, h.2]
  rw [exportBytes_run, bytes_run, hrest]
  by_cases hc : r.pos + n > r.data.length
  · rw [if_pos hc, if_pos (hlen.1 hc)]; exact .fail
  · rw [if_neg hc, if_neg (mt hlen.2 hc)]; exact .ok ⟨h.1, by simp [h.2]⟩ rfl

end

theorem viaReader_outcome {α β : Type} (x : ReadM (α × β)) (data : List UInt8) (pos : Nat) :
    Outcome (fun (r : ExportReader) (s : Reader) => r.pos = s.pos) (fun _ => False)
      (fun b p => b = p.2) ((Prod.snd <$> ExportReader.viaReader x).run ⟨data, pos⟩)
      (x.run ⟨data, pos, none⟩) := by
  rw [run_map]
  simp only [ExportReader.viaReader, EStateM.run]
  cases x _ with
  | ok p ir => exact .ok rfl rfl
  | error e ir => exact .fail

/-- The classifier on the exported reader is the one on the module reader. -/
theorem classifyInstruction_outcome (op : UInt8) (w : MemargWidths) (mm : Bool) (data : List UInt8)
    (pos : Nat) :
    Outcome (fun (r : ExportReader) (s : Reader) => r.pos = s.pos) (fun _ => False)
      (fun imm p => imm = p.2)
      ((classifyInstructionImmediateIntoWithWidths op w mm).run ⟨data, pos⟩)
      ((classifyExprOpAfterOpcodeWithWidths op w mm).run ⟨data, pos, none⟩) := by
  have hstart : SamePlace ⟨data, pos⟩ ⟨data, pos, none⟩ := ⟨rfl, rfl⟩
  have hone : ∀ {x : ExportReadM InstructionImmediate}
      {y : ReadM (DirectOpKind × InstructionImmediate)},
      Lockstep SamePlace (fun _ => False) (fun imm p => imm = p.2) x y →
      Outcome (fun (r : ExportReader) (s : Reader) => r.pos = s.pos) (fun _ => False)
        (fun imm p => imm = p.2) (x.run ⟨data, pos⟩) (y.run ⟨data, pos, none⟩) := fun h =>
    (h.outcome hstart).mono (fun _ _ h => h.2) (fun _ h => h) fun _ _ h => h
  unfold classifyInstructionImmediateIntoWithWidths
  cases hs : lookupPrefixKind simpleOpcode op.toNat with
  | some k => simp only [classifyExprOpAfterOpcodeWithWidths, hs]; exact hone (.pure rfl)
  | none =>
    by_cases hidx : op.toNat ∈ oneIndexOpcodes
    · simp only [classifyExprOpAfterOpcodeWithWidths, hs, if_pos hidx]
      exact hone ((ExportReader.u32_reads.samePlace u32_reads).map fun _ _ h => h ▸ rfl)
    · simp only [classifyExprOpAfterOpcodeWithWidths, hs, if_neg hidx]
      split
      · rename_i hop; simp only [hop]; exact hone (.pure rfl)
      · rename_i hop; simp only [hop]; exact hone (.pure rfl)
      · rename_i hop; simp only [hop]
        exact hone ((ExportReader.i32_reads.samePlace i32_reads).map fun _ _ _ => rfl)
      · rename_i hop; simp only [hop]
        exact hone ((ExportReader.i64_reads.samePlace i64_reads).map fun _ _ _ => rfl)
      · rename_i hop; simp only [hop]
        exact hone ((bytes_samePlace (by omega)).map fun _ _ _ => rfl)
      · rename_i hop; simp only [hop]
        exact hone ((bytes_samePlace (by omega)).map fun _ _ _ => rfl)
      · -- the other forms run the module reader's classifier at the same place
        exact viaReader_outcome _ data pos

/-! ## The classifier and the decoders -/

def InstructionImmediate.memArg (imm : InstructionImmediate) : MemArg :=
  { align := imm.memAlign, mem := if imm.hasMemIndex then some imm.memIndex else none
    offset := imm.memOffset }

/-- What a report says of an instruction, when it names a kind. -/
def Reports (i : Instr) (imm : InstructionImmediate) : Prop :=
  imm.kind ≠ .invalid →
    i.kind = imm.kind ∧ i.index = imm.index ∧ i.index2 = imm.index2 ∧ i.memArg = imm.memArg

section

variable {r₀ s₀ : Reader} {F : Err → Prop}

theorem reports_of_eq {i : Instr} {imm : InstructionImmediate}
    (h : (i.kind, i.index, i.index2, i.memArg) = (imm.kind, imm.index, imm.index2, imm.memArg)) :
    Reports i imm := fun _ => by simpa only [Prod.mk.injEq] using h

theorem decodeMemArg_lockstep (imm : InstructionImmediate) (w : MemargWidths) (hm : imm.hasMemIndex = false) :
    Lockstep (Aligned r₀ s₀) F (fun ma imm' => imm'.kind = imm.kind ∧ imm'.index = imm.index ∧
      imm'.index2 = imm.index2 ∧ imm'.memArg = ma) (decodeMemArgWithWidths w)
      (classifyMemArgBytes imm w) := by
  refine .bind_eq u32_lockstep fun n => ?_
  by_cases h64 : n < 64
  · rw [if_neg (by omega), if_pos h64, if_pos h64]
    exact (readMemOffset_lockstep w 0).map fun _ _ h => ⟨rfl, rfl, rfl, by simp [InstructionImmediate.memArg, hm, h]⟩
  · rw [if_neg h64, if_neg h64]
    by_cases h128 : n < 128
    · rw [if_pos ⟨by omega, h128⟩, if_pos h128]
      refine .ite (fun _ => ?_) fun _ => failHere_lockstep
      refine .bind_eq u32_lockstep fun i => ?_
      exact (readMemOffset_lockstep w i).map fun _ _ h => ⟨rfl, rfl, rfl, by simp [InstructionImmediate.memArg, h]⟩
    · rw [if_neg (by omega), if_neg h128]
      exact failHere_lockstep

variable {k : InstrKind}

/-- Instructions with one index immediate, against any report of it. -/
theorem indexInst_lockstep {imm : Nat → InstructionImmediate}
    (h : ∀ x, Reports { kind := k, index := x } (imm x)) :
    Lockstep (Aligned r₀ s₀) F Reports (indexInst k) (do return imm (← u32)) :=
  .bind_eq u32_lockstep fun x => .pure (h x)

theorem twoIndexInst_lockstep {imm : Nat → Nat → InstructionImmediate}
    (h : ∀ x y, Reports { kind := k, index := x, index2 := y } (imm x y)) :
    Lockstep (Aligned r₀ s₀) F Reports (twoIndexInst k) (do let x ← u32; return imm x (← u32)) :=
  .bind_eq u32_lockstep fun x => .bind_eq u32_lockstep fun y => .pure (h x y)

theorem decodeFC_lockstep (mm : Bool) :
    Lockstep (Aligned r₀ s₀) F Reports (decodeFCWithMultiMemory mm) (classifyFCBytes mm) := by
  refine .bind_eq u32_lockstep fun sub => ?_
  cases lookupPrefixKind fcNoImm sub with
  | some k => exact .pure (reports_of_eq rfl)
  | none =>
    simp only
    split
    · refine .bind_eq u32_lockstep fun a => .bind_eq (readMemoryIndex_lockstep mm) fun b => .pure ?_
      exact reports_of_eq rfl
    · exact indexInst_lockstep fun _ => reports_of_eq rfl
    · refine .bind_eq (readMemoryIndex_lockstep mm) fun a =>
        .bind_eq (readMemoryIndex_lockstep mm) fun b => .pure ?_
      exact reports_of_eq rfl
    · exact .bind_eq (readMemoryIndex_lockstep mm) fun _ => .pure (reports_of_eq rfl)
    · exact twoIndexInst_lockstep fun _ _ => reports_of_eq rfl
    · exact indexInst_lockstep fun _ => reports_of_eq rfl
    · exact twoIndexInst_lockstep fun _ _ => reports_of_eq rfl
    · exact indexInst_lockstep fun _ => reports_of_eq rfl
    · exact indexInst_lockstep fun _ => reports_of_eq rfl
    · exact indexInst_lockstep fun _ => reports_of_eq rfl
    · split <;> first | contradiction | exact failHere_lockstep

theorem refCastInst_lockstep {nullable : Bool}
    {imm : Bool × HeapType → InstructionImmediate} (hk : ∀ p, (imm p).kind = k)
    (hi : ∀ p, (imm p).index = 0 ∧ (imm p).index2 = 0 ∧ (imm p).memArg = {}) :
    Lockstep (Aligned r₀ s₀) F Reports (refCastInst k nullable)
      (do return imm (← decodeRefHeapType)) :=
  .bind_eq decodeRefHeapType_lockstep fun p =>
    .pure fun _ => ⟨(hk p).symm, (hi p).1.symm, (hi p).2.1.symm, (hi p).2.2.symm⟩

theorem skipRefHeapTypeBytes_bind {α : Type} (f : Unit → ReadM α) :
    (skipRefHeapTypeBytes >>= f) = (decodeRefHeapType >>= fun _ => f ()) := by
  unfold skipRefHeapTypeBytes
  simp only [bind_assoc, pure_bind]

theorem brOnCastInst_lockstep
    {imm : CastOp → Nat → HeapType → HeapType → InstructionImmediate}
    (h : ∀ c l ht₁ ht₂, Reports { kind := k, index := l, cast := c, ext := .heapTypes ht₁ ht₂ }
      (imm c l ht₁ ht₂)) :
    Lockstep (Aligned r₀ s₀) F Reports (brOnCastInst k) (do
      let c ← decodeCastOp
      let l ← u32
      let ht₁ ← decodeHeapType
      let ht₂ ← decodeHeapType
      return imm c l ht₁ ht₂) :=
  .bind_eq decodeCastOp_lockstep fun c => .bind_eq u32_lockstep fun l =>
    .bind_eq decodeHeapType_lockstep fun ht₁ => .bind_eq decodeHeapType_lockstep fun ht₂ =>
      .pure (h c l ht₁ ht₂)

theorem decodeFB_lockstep : Lockstep (Aligned r₀ s₀) F Reports decodeFB classifyFBBytes := by
  refine .bind_eq u32_lockstep fun sub => ?_
  cases lookupPrefixKind fbNoImm sub with
  | some k => exact .pure (reports_of_eq rfl)
  | none =>
    simp only
    split
    all_goals first
      | exact indexInst_lockstep fun _ => reports_of_eq rfl
      | exact twoIndexInst_lockstep fun _ _ => reports_of_eq rfl
      | exact .pure (reports_of_eq rfl)
      | skip
    · exact .bind_eq decodeHeapType_lockstep fun _ => .pure (reports_of_eq rfl)
    · exact .bind_eq decodeHeapType_lockstep fun _ => .pure (reports_of_eq rfl)
    · exact refCastInst_lockstep (fun _ => rfl) fun _ => ⟨rfl, rfl, rfl⟩
    · exact refCastInst_lockstep (fun _ => rfl) fun _ => ⟨rfl, rfl, rfl⟩
    · exact brOnCastInst_lockstep fun _ _ _ _ => reports_of_eq rfl
    · exact brOnCastInst_lockstep fun _ _ _ _ => reports_of_eq rfl
    · simp only [skipRefHeapTypeBytes_bind]
      exact refCastInst_lockstep (fun _ => rfl) fun _ => ⟨rfl, rfl, rfl⟩
    · simp only [skipRefHeapTypeBytes_bind]
      exact refCastInst_lockstep (fun _ => rfl) fun _ => ⟨rfl, rfl, rfl⟩
    · split <;> first | contradiction | exact failHere_lockstep

/-- Bytes read one at a time end as bytes read at once do. -/
theorem readN_byte_run : ∀ (n : Nat) (r : Reader),
    (n ≤ r.rest.length → ∃ bs, (readN byte n).run r = .ok bs (r.advance n)) ∧
    (r.rest.length < n → ∃ e r', (readN byte n).run r = .error e r')
  | 0, r => ⟨fun _ => ⟨[], rfl⟩, fun h => absurd h (Nat.not_lt_zero _)⟩
  | n + 1, r => by
    unfold readN
    rcases hrest : r.rest with _ | ⟨b, bs⟩
    · refine ⟨fun h => absurd h (by simp), fun _ => ⟨_, _, bind_of_error (byte_nil hrest)⟩⟩
    · have hb := byte_cons hrest
      have hrest' : (r.advance 1).rest = bs := by simp [hrest]
      obtain ⟨hok, hfail⟩ := readN_byte_run n (r.advance 1)
      rw [hrest'] at hok hfail
      rw [bind_of_ok hb]
      constructor
      · intro h
        obtain ⟨bs', hbs'⟩ := hok (by simpa using h)
        exact ⟨b :: bs', by rw [bind_of_ok hbs']; simp [Nat.add_comm 1]⟩
      · intro h
        obtain ⟨e, r', he⟩ := hfail (by simpa using h)
        exact ⟨e, r', bind_of_error he⟩

theorem readN_byte_lockstep (n : Nat) :
    Lockstep (Aligned r₀ s₀) F (fun _ _ => True) (readN byte n) (bytes n) := by
  refine ⟨fun {r s} h => ?_⟩
  have hlen : r.rest.length = s.data.length - s.pos := by rw [h.rest]; simp [Reader.rest]
  obtain ⟨hok, hfail⟩ := readN_byte_run n r
  rw [bytes_run]
  by_cases hn : n ≤ r.rest.length
  · obtain ⟨bs, hbs⟩ := hok hn
    rw [hbs, if_neg (by omega)]
    exact .ok (h.advance n) trivial
  · obtain ⟨e, r', he⟩ := hfail (by omega)
    rw [he, if_pos (by omega)]
    exact .fail

theorem decodeFD_lockstep (w : MemargWidths) :
    Lockstep (Aligned r₀ s₀) F Reports (decodeFDWithMemargWidths w) (classifyFDBytes w) := by
  refine .bind_eq u32_lockstep fun sub => ?_
  by_cases h12 : sub = 12
  · rw [if_pos h12, if_pos (.inl h12)]
    exact .bind (readN_byte_lockstep 16) fun _ _ _ => .pure fun h => absurd rfl h
  rw [if_neg h12]
  by_cases h13 : sub = 13
  · rw [if_pos h13, if_pos (.inr h13)]
    exact .bind (readN_byte_lockstep 16) fun _ _ _ => .pure fun h => absurd rfl h
  rw [if_neg h13, if_neg (by omega)]
  cases lookupPrefixKind fdNoImm sub with
  | some k => exact .pure (reports_of_eq rfl)
  | none =>
    cases lookupPrefixKind fdMem sub with
    | some k =>
      refine .bind (decodeMemArg_lockstep _ w rfl) fun ma imm h => ?_
      have hrep : ∀ lane, Reports { kind := k, ext := .memArg ma, lane } imm := fun _ _ =>
        ⟨h.1.symm, h.2.1.symm, h.2.2.1.symm, h.2.2.2.symm⟩
      exact .ite (fun _ => .bind_eq byte_lockstep fun _ => .pure (hrep _)) fun _ => .pure (hrep 0)
    | none =>
      cases lookupPrefixKind fdLane sub with
      | some k => exact .bind_eq byte_lockstep fun _ => .pure (reports_of_eq rfl)
      | none => exact failHere_lockstep

theorem atomicMemInst_lockstep (w : MemargWidths) (sub : Nat)
    {imm : InstructionImmediate} (hk : imm.kind = k) (hi : imm.index = 0 ∧ imm.index2 = 0)
    (hm : imm.hasMemIndex = false) : Lockstep (Aligned r₀ s₀) F Reports (atomicMemInst w k sub)
      (classifyMemArgBytes imm w) := by
  rw [← bind_pure (classifyMemArgBytes imm w)]
  refine .bind (decodeMemArg_lockstep imm w hm) fun ma imm' h => .pure ?_
  exact fun _ => ⟨hk.symm.trans h.1.symm, hi.1.symm.trans h.2.1.symm, hi.2.symm.trans h.2.2.1.symm,
    h.2.2.2.symm⟩

theorem structAtomicGetInst_lockstep {imm : Nat → Nat → InstructionImmediate}
    (h : ∀ x y, (imm x y).kind = .invalid) :
    Lockstep (Aligned r₀ s₀) F Reports (structAtomicGetInst k) (do
      let _ ← decodeAtomicOrder
      let x ← u32
      return imm x (← u32)) :=
  .bind_eq decodeAtomicOrder_lockstep fun _ => .bind_eq u32_lockstep fun x =>
    .bind_eq u32_lockstep fun y => .pure fun hk => absurd (h x y) hk

theorem decodeFE_lockstep (w : MemargWidths) :
    Lockstep (Aligned r₀ s₀) F Reports (decodeFEWithMemargWidths w) (classifyFEBytes w) := by
  refine .bind_eq u32_lockstep fun sub => ?_
  refine .ite (fun _ => ?_) fun h3 => ?_
  · exact .bind_eq readReservedZeroByte_lockstep fun _ => .pure (reports_of_eq rfl)
  by_cases hget : 0x5c ≤ sub ∧ sub ≤ 0x5e
  · rw [if_pos hget]
    -- the three kinds differ only in the name that the classifier does not report
    obtain rfl | rfl | rfl : sub = 0x5c ∨ sub = 0x5d ∨ sub = 0x5e := by omega
    all_goals exact structAtomicGetInst_lockstep fun _ _ => rfl
  rw [if_neg hget, if_neg (by omega), if_neg (by omega), if_neg (by omega)]
  cases lookupPrefixKind feMem sub with
  | some k => exact atomicMemInst_lockstep w sub rfl ⟨rfl, rfl⟩ rfl
  | none =>
    refine .ite (fun _ => atomicMemInst_lockstep w sub rfl ⟨rfl, rfl⟩ rfl) fun _ => ?_
    exact .ite (fun _ => atomicMemInst_lockstep w sub rfl ⟨rfl, rfl⟩ rfl) fun _ => failHere_lockstep

/-! ## Vectors

The decoders reserve the whole vector before they read it; the walkers do not. -/

/-- The reservation for the vector whose count is read at `r` fits the reader's budget. -/
def VecFits (size : Nat) (r : Reader) : Prop :=
  ∀ n r', u32.run r = .ok n r' → n ≤ r'.withBudget.remaining / (size * 8 + 16)

theorem reserve_run (count width : Nat) (r : Reader) (hw : width ≠ 0) : (reserve count width).run r =
    if count > r.withBudget.remaining / width then
      .error (.metadataLimit r.withBudget.limits.maxMetadataBytes r.pos)
        { r with budget := some r.withBudget }
    else .ok () { r with budget := some { r.withBudget with
      remaining := r.withBudget.remaining - count * width } } := by
  unfold reserve
  rw [bind_of_ok (show (get : ReadM Reader).run r = .ok r r from rfl)]
  simp only [ne_eq, hw, not_false_eq_true, true_and]
  split <;> rfl

theorem skipN_lockstep {α β : Type} {R : α → β → Prop} {fn : ReadM α} {fn' : ReadM β}
    (h : Lockstep (Aligned r₀ s₀) F R fn fn') :
    ∀ n, Lockstep (Aligned r₀ s₀) F (fun _ _ => True) (readN fn n) (skipN fn' n)
  | 0 => .pure trivial
  | n + 1 => .bind h fun _ _ _ => by
      rw [← bind_pure (skipN fn' n)]
      exact .bind (skipN_lockstep h n) fun _ _ _ => .pure trivial

variable {r s : Reader}

/-- A decoded vector against a skipped one: the decoder fails alone exactly when the vector does
not fit. -/
theorem readVec_outcome {α β : Type} {R : α → β → Prop} {size : Nat} {fn : ReadM α} {fn' : ReadM β}
    (h : Lockstep (Aligned r₀ s₀) (fun _ => ¬ VecFits size r) R fn fn')
    (hrs : Aligned r₀ s₀ r s) :
    Outcome (Aligned r₀ s₀) (fun _ => ¬ VecFits size r) (fun _ _ => VecFits size r)
      ((readVec size fn).run r) ((do skipN fn' (← u32)).run s) := by
  unfold readVec reserveDecodedSlice
  refine (u32_lockstep.outcome hrs).bind fun n n' r' s' hn _ hI hnn' => ?_
  subst hnn'
  have hfits : VecFits size r ↔ n ≤ r'.withBudget.remaining / (size * 8 + 16) := by
    constructor
    · exact fun hv => hv n r' hn
    · intro hle m t ht
      obtain ⟨rfl, rfl⟩ : n = m ∧ r' = t := by simpa [hn] using ht
      exact hle
  by_cases hle : n ≤ r'.withBudget.remaining / (size * 8 + 16)
  · have hok := reserve_run n (size * 8 + 16) r' (by omega)
    rw [if_neg (by omega)] at hok
    rw [bind_of_ok hok]
    exact ((skipN_lockstep h n).outcome (hI.left_budget _)).mono (fun _ _ h => h) (fun _ h => h)
      fun _ _ _ => hfits.2 hle
  · have herr := reserve_run n (size * 8 + 16) r' (by omega)
    rw [if_pos (by omega)] at herr
    rw [bind_of_error herr]
    generalize (skipN fn' n).run s' = res
    cases res with
    | ok => exact .left (mt hfits.1 hle)
    | error => exact .fail

/-! ## All opcodes -/

/-- What the classifier answers for an instruction without nested instructions. -/
def ReportsOp (i : Instr) (p : DirectOpKind × InstructionImmediate) : Prop :=
  p.1 = .instr ∧ Reports i p.2

/-- The vector immediates of `op` fit the budget; `r` stands after the opcode. -/
def ImmediateFits (op : UInt8) (r : Reader) : Prop :=
  match op.toNat with
  | 0x0e => VecFits sizeofUint32 r
  | 0x1c => VecFits sizeofValType r
  | 0x1f => ∀ bt r', decodeBlockType.run r = .ok bt r' → VecFits sizeofCatch r'
  | _ => True

/-- Structured instructions and the delimiters of their bodies. -/
def structuralOpcodes : List Nat := [0x02, 0x03, 0x04, 0x05, 0x0b, 0x1f]

theorem decodePlain_oneIndex (invalid : UInt8 → Nat → DecodeError) (w : MemargWidths) {op : UInt8}
    (hs : lookupPrefixKind simpleOpcode op.toNat = none) (hop : op.toNat ∈ oneIndexOpcodes) :
    decodePlain invalid w op = indexInst (oneIndexImmediateKind op) := by
  unfold decodePlain oneIndexImmediateKind
  simp only [oneIndexOpcodes, List.mem_cons, List.not_mem_nil, or_false] at hop
  simp only [hs]
  split <;> first | omega | simp only [‹op.toNat = _›] | skip
  simp only [imp_false] at *
  omega

/-- A prefixed opcode, whose classifier returns the report alone. -/
theorem prefixed_lockstep {x : ReadM Instr} {y : ReadM InstructionImmediate}
    (h : Lockstep (Aligned r₀ s₀) F Reports x y) :
    Lockstep (Aligned r₀ s₀) F ReportsOp x (do return (.instr, ← y)) := by
  rw [← bind_pure x]
  exact h.map fun _ _ h => ⟨rfl, h⟩

theorem le32_lockstep {k : DirectOpKind × InstructionImmediate} {f : Nat → Instr}
    (h : ∀ x, ReportsOp (f x) k) : Lockstep (Aligned r₀ s₀) F ReportsOp (do return f (← le32)) (do
      let _ ← bytes 4
      return k) := by
  unfold le32
  simp only [bind_assoc, pure_bind]
  exact .bind_eq (bytes_lockstep 4) fun _ => .pure (h _)

theorem le64_lockstep {k : DirectOpKind × InstructionImmediate} {f : Nat → Instr}
    (h : ∀ x, ReportsOp (f x) k) : Lockstep (Aligned r₀ s₀) F ReportsOp (do return f (← le64)) (do
      let _ ← bytes 8
      return k) := by
  unfold le64
  simp only [bind_assoc, pure_bind]
  exact .bind_eq (bytes_lockstep 8) fun _ => .pure (h _)

/-- `memory.size` and `memory.grow`: an index, or the reserved byte. -/
theorem memoryIndexInst_lockstep {imm : Nat → DirectOpKind × InstructionImmediate}
    (mm : Bool) (h : ∀ x, ReportsOp { kind := k, index := x } (imm x)) :
    Lockstep (Aligned r₀ s₀) F ReportsOp (if mm = true then indexInst k else reservedZeroInst k)
      (do return imm (← readMemoryIndex mm)) := by
  cases mm with
  | true => exact .bind_eq u32_lockstep fun x => .pure (h x)
  | false =>
    unfold readMemoryIndex reservedZeroInst
    simp only [Bool.false_eq_true, if_false, bind_assoc, pure_bind]
    exact .bind_eq readReservedZeroByte_lockstep fun _ => .pure (h 0)

/-- Every opcode without nested instructions and without a vector. -/
theorem decodePlain_lockstep (invalid : UInt8 → Nat → DecodeError) (op : UInt8) (w : MemargWidths)
    (mm : Bool) (hop : op.toNat ∉ structuralOpcodes) (h0e : op.toNat ≠ 0x0e) (h1c : op.toNat ≠ 0x1c) :
    Lockstep (Aligned r₀ s₀) F ReportsOp (decodePlain invalid { w with multiMemory := mm } op)
      (classifyExprOpAfterOpcodeWithWidths op w mm) := by
  unfold classifyExprOpAfterOpcodeWithWidths
  cases hs : lookupPrefixKind simpleOpcode op.toNat with
  | some k =>
    unfold decodePlain
    simp only [hs]
    exact .pure ⟨rfl, reports_of_eq rfl⟩
  | none =>
    by_cases hone : op.toNat ∈ oneIndexOpcodes
    · simp only [decodePlain_oneIndex invalid _ hs hone, if_pos hone]
      exact .bind_eq u32_lockstep fun _ => .pure ⟨rfl, reports_of_eq rfl⟩
    unfold decodePlain
    simp only [hs, if_neg hone]
    split
    all_goals first
      | exact absurd (by rw [‹op.toNat = _›]; decide) hone
      | exact absurd ‹op.toNat = _› h0e
      | exact absurd ‹op.toNat = _› h1c
      | simp only [‹op.toNat = _›]
      | skip
    · exact .bind_eq u32_lockstep fun _ => .bind_eq u32_lockstep fun _ => .pure ⟨rfl, reports_of_eq rfl⟩
    · exact .bind_eq u32_lockstep fun _ => .bind_eq u32_lockstep fun _ => .pure ⟨rfl, reports_of_eq rfl⟩
    · exact memoryIndexInst_lockstep mm fun _ => ⟨rfl, reports_of_eq rfl⟩
    · exact memoryIndexInst_lockstep mm fun _ => ⟨rfl, reports_of_eq rfl⟩
    · exact .bind_eq i32_lockstep fun _ => .pure ⟨rfl, reports_of_eq rfl⟩
    · exact .bind_eq i64_lockstep fun _ => .pure ⟨rfl, reports_of_eq rfl⟩
    · exact le32_lockstep fun _ => ⟨rfl, reports_of_eq rfl⟩
    · exact le64_lockstep fun _ => ⟨rfl, reports_of_eq rfl⟩
    · unfold decodeRefTypeForNull
      simp only [bind_assoc, pure_bind, skipRefHeapTypeBytes_bind]
      exact .bind_eq decodeRefHeapType_lockstep fun _ => .pure ⟨rfl, reports_of_eq rfl⟩
    · exact .pure ⟨rfl, reports_of_eq rfl⟩
    · exact .pure ⟨rfl, reports_of_eq rfl⟩
    · exact prefixed_lockstep decodeFB_lockstep
    · exact prefixed_lockstep (decodeFC_lockstep mm)
    · exact prefixed_lockstep (decodeFD_lockstep _)
    · exact prefixed_lockstep (decodeFE_lockstep _)
    · simp only [imp_false] at *
      simp only [structuralOpcodes, List.mem_cons, List.not_mem_nil, or_false] at hop
      by_cases hmem : 0x28 ≤ op.toNat ∧ op.toNat ≤ 0x3e
      · simp only [if_pos hmem]
        split <;> first | omega | skip
        refine .bind (decodeMemArg_lockstep _ _ rfl) fun ma imm h => .pure ⟨rfl, ?_⟩
        exact fun _ => ⟨h.1.symm, h.2.1.symm, h.2.2.1.symm, h.2.2.2.symm⟩
      · simp only [if_neg hmem]
        split <;> first | omega | exact ⟨fun _ => .fail⟩

theorem immediateFits_of_no_vector {op : UInt8} {r : Reader} (h0e : op.toNat ≠ 0x0e)
    (h1c : op.toNat ≠ 0x1c) (h1f : op.toNat ≠ 0x1f) : ImmediateFits op r := by
  unfold ImmediateFits
  split <;> first | contradiction | trivial

/-- A decoder that reads the vector first, then goes on as the classifier does. -/
theorem readVec_bind_outcome {α β γ δ : Type} {R : α → β → Prop} {S : γ → δ → Prop} {size : Nat}
    {fn : ReadM α} {fn' : ReadM β} {f : List α → ReadM γ} {g : ReadM δ}
    (hfn : Lockstep (Aligned r₀ s₀) (fun _ => ¬ VecFits size r) R fn fn')
    (hf : ∀ as, Lockstep (Aligned r₀ s₀) (fun _ => ¬ VecFits size r) S (f as) g)
    (hrs : Aligned r₀ s₀ r s) :
    Outcome (Aligned r₀ s₀) (fun _ => ¬ VecFits size r) (fun c d => S c d ∧ VecFits size r)
      ((readVec size fn >>= f).run r) ((do skipN fn' (← u32); g).run s) := by
  rw [show (do skipN fn' (← u32); g : ReadM δ) = ((do skipN fn' (← u32)) >>= fun _ => g) by
    simp only [bind_assoc]]
  refine (readVec_outcome hfn hrs).bind fun as _ r' s' _ _ hI hfits => ?_
  exact ((hf as).outcome hI).mono (fun _ _ h => h) (fun _ h => h) fun _ _ h => ⟨h, hfits⟩

theorem decodePlain_outcome (invalid : UInt8 → Nat → DecodeError) (op : UInt8) (w : MemargWidths)
    (mm : Bool) (hop : op.toNat ∉ structuralOpcodes) (hrs : Aligned r₀ s₀ r s) :
    Outcome (Aligned r₀ s₀) (fun _ => ¬ ImmediateFits op r)
      (fun i p => ReportsOp i p ∧ ImmediateFits op r)
      ((decodePlain invalid { w with multiMemory := mm } op).run r)
      ((classifyExprOpAfterOpcodeWithWidths op w mm).run s) := by
  have hnot : op.toNat ≠ 0x1f := fun h => hop (by rw [h]; decide)
  by_cases h0e : op.toNat = 0x0e
  · obtain rfl : op = 0x0e := UInt8.toNat_inj.1 h0e
    refine readVec_bind_outcome (S := ReportsOp) u32_lockstep (fun labels => ?_) hrs
    exact .bind_eq u32_lockstep fun x => .pure ⟨rfl, reports_of_eq rfl⟩
  by_cases h1c : op.toNat = 0x1c
  · obtain rfl : op = 0x1c := UInt8.toNat_inj.1 h1c
    have hskip : classifyExprOpAfterOpcodeWithWidths 0x1c w mm = (do
        skipN decodeValType (← u32)
        return (.instr, { kind := .select })) := by
      change (skipResultTypeBytes >>= _) = _
      simp only [skipResultTypeBytes, bind_assoc]
    rw [hskip]
    exact readVec_bind_outcome (S := ReportsOp) decodeValType_lockstep
      (fun ts => .pure ⟨rfl, reports_of_eq rfl⟩) hrs
  have hfits := immediateFits_of_no_vector (r := r) h0e h1c hnot
  exact ((decodePlain_lockstep invalid op w mm hop h0e h1c).outcome hrs).mono (fun _ _ h => h)
    (fun _ h => h) fun _ _ h => ⟨h, hfits⟩

/-! ## Single operations -/

/-- What the classifier answers for an operation. -/
def ReportsDirect : DirectOp → DirectOpKind × InstructionImmediate → Prop
  | .instr i, p => ReportsOp i p
  | .block _, p => p = (.block, { kind := .block })
  | .loop _, p => p = (.loop, { kind := .loop })
  | .if_ _, p => p = (.if_, { kind := .if_ })
  | .tryTable _ _, p => p = (.tryTable, { kind := .tryTable })
  | .else_, p => p = (.else_, {})
  | .end_, p => p = (.end_, {})

theorem decodeCatch_lockstep : Lockstep (Aligned r₀ s₀) F (fun _ _ => True) decodeCatch skipCatchBytes := by
  have htag {k : CatchKind} : Lockstep (Aligned r₀ s₀) F (fun _ _ => True)
      (do let tag ← u32; return ({ kind := k, tag, label := ← u32 } : Catch))
      (do let _ ← u32; let _ ← u32) :=
    .bind_eq u32_lockstep fun _ => .bind_eq u32_lockstep fun _ => .pure trivial
  have hall {k : CatchKind} : Lockstep (Aligned r₀ s₀) F (fun _ _ => True)
      (do return ({ kind := k, label := ← u32 } : Catch)) (do let _ ← u32) :=
    .bind_eq u32_lockstep fun _ => .pure trivial
  refine .bind_eq byte_lockstep fun b => ?_
  generalize b.toNat = n
  match n with
  | 0 => exact htag
  | 1 => exact htag
  | 2 => exact hall
  | 3 => exact hall
  | _ + 4 => exact failPrev_lockstep

theorem decodeOpAfterOpcode_plain {invalid : UInt8 → Nat → DecodeError} {op : UInt8} {w : MemargWidths}
    (hop : op.toNat ∉ structuralOpcodes) :
    decodeOpAfterOpcode invalid w op = (do return .instr (← decodePlain invalid w op)) := by
  unfold decodeOpAfterOpcode
  split <;> first | rfl | exact absurd (by rw [‹op.toNat = _›]; decide) hop

theorem decodeOp_outcome (invalid : UInt8 → Nat → DecodeError) (op : UInt8) (w : MemargWidths)
    (mm : Bool) (hrs : Aligned r₀ s₀ r s) :
    Outcome (Aligned r₀ s₀) (fun _ => ¬ ImmediateFits op r)
      (fun d p => ReportsDirect d p ∧ ImmediateFits op r)
      ((decodeOpAfterOpcode invalid { w with multiMemory := mm } op).run r)
      ((classifyExprOpAfterOpcodeWithWidths op w mm).run s) := by
  by_cases hop : op.toNat ∉ structuralOpcodes
  · rw [decodeOpAfterOpcode_plain hop, ← bind_pure (classifyExprOpAfterOpcodeWithWidths op w mm)]
    exact (decodePlain_outcome invalid op w mm hop hrs).bind fun i p _ _ _ _ hI h => .ok hI h
  · rw [not_not] at hop
    have hblock : ∀ {d : BlockType → DirectOp} {p}, (∀ bt, ReportsDirect (d bt) p) →
        ImmediateFits op r → Outcome (Aligned r₀ s₀) (fun _ => ¬ ImmediateFits op r)
          (fun d p => ReportsDirect d p ∧ ImmediateFits op r)
          ((do return d (← decodeBlockType) : ReadM DirectOp).run r)
          ((do let _ ← decodeBlockType; return p : ReadM _).run s) := fun h hf =>
      (Lockstep.bind_eq decodeBlockType_lockstep fun bt => .pure ⟨h bt, hf⟩).outcome hrs
    simp only [structuralOpcodes, List.mem_cons, List.not_mem_nil, or_false] at hop
    obtain h | h | h | h | h | h := hop
    · obtain rfl : op = 0x02 := UInt8.toNat_inj.1 h
      exact hblock (fun _ => rfl) trivial
    · obtain rfl : op = 0x03 := UInt8.toNat_inj.1 h
      exact hblock (fun _ => rfl) trivial
    · obtain rfl : op = 0x04 := UInt8.toNat_inj.1 h
      exact hblock (fun _ => rfl) trivial
    · obtain rfl : op = 0x05 := UInt8.toNat_inj.1 h
      exact .ok hrs ⟨rfl, trivial⟩
    · obtain rfl : op = 0x0b := UInt8.toNat_inj.1 h
      exact .ok hrs ⟨rfl, trivial⟩
    · obtain rfl : op = 0x1f := UInt8.toNat_inj.1 h
      have hskip : classifyExprOpAfterOpcodeWithWidths 0x1f w mm = (do
          let _ ← decodeBlockType
          skipN skipCatchBytes (← u32)
          return (.tryTable, { kind := .tryTable })) := by
        change (decodeBlockType >>= fun _ => skipCatchVecBytes >>= _) = _
        simp only [skipCatchVecBytes, bind_assoc]
      rw [hskip]
      refine (decodeBlockType_lockstep.outcome hrs).bind fun bt _ r' s' hbt _ hI _ => ?_
      have hfits : ImmediateFits 0x1f r ↔ VecFits sizeofCatch r' := by
        constructor
        · exact fun h => h bt r' hbt
        · intro h bt' t ht
          obtain ⟨-, rfl⟩ : bt = bt' ∧ r' = t := by simpa [hbt] using ht
          exact h
      rw [hfits]
      exact readVec_bind_outcome (S := ReportsDirect) decodeCatch_lockstep (fun _ => .pure rfl) hI

end

end Wago.Wasm
