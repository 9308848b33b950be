/-
The specialised rounds of the streaming validator (`stepDirectNumeric`, `stepDirectScalarImmediate`,
`stepDirectMemory`, `stepDirectControlImmediate` and `stepDirectCallImmediate` in
`validate_bytebacked.go`) are the general one: the same state, the same facts, the same error. An
operation leaves the reader where its decoder left it, so every round reads a byte, and the whole loop
is the general one, which needs no bound.
-/
import Wago.Wasm.InstrDecodeSpec
import Wago.Wasm.ValidateFunc

namespace Wago.Wasm

open Run FuncValidator

/-! ## Reads -/

theorem reading_run {α : Type} (x : ReadM α) (v : FuncValidator) : (reading x).run v =
    match x.run v.rd with
    | .ok a rd => .ok a { v with rd }
    | .error e rd => .error e { v with rd } := rfl

theorem reading_bind {α β : Type} (x : ReadM α) (f : α → ReadM β) :
    reading (x >>= f) = (reading x >>= fun a => reading (f a)) := by
  funext v
  show (reading (x >>= f)).run v = (reading x >>= fun a => reading (f a)).run v
  rw [reading_run, EStateM.run_bind, EStateM.run_bind, reading_run]
  cases x.run v.rd <;> rfl

@[simp] theorem reading_pure {α : Type} (a : α) : reading (pure a) = pure a := rfl

section

variable {fv : FuncEnv} {w : MemargWidths} {v : FuncValidator}

/-- The general round once the opcode is read. -/
def afterOpcode (fv : FuncEnv) (w : MemargWidths) (b : UInt8) : ValidateM Facts := do
  let op ← reading (decodeOpAfterOpcode directInvalid w b)
  stepDirectOp fv op
  return opFacts fv.m.types op

theorem decodeStep_run {b : UInt8} (hb : v.rd.data[v.rd.pos]? = some b) :
    (decodeStep fv w).run v = (afterOpcode fv w b).run { v with rd := v.rd.advance 1 } := by
  have hbyte : (reading byte).run v = .ok b { v with rd := v.rd.advance 1 } := by
    rw [reading_run, show byte.run v.rd = _ from byte_at v.rd.budget hb]
    rfl
  rw [decodeStep, decodeDirectOp, decodeOp, reading_bind, bind_assoc, bind_of_ok hbyte]
  rfl

/-! ## Instructions without types in their immediates -/

theorem exec_stepPlain (hfv : fv.constOnly = false) {i : Instr} (ht : i.valTypes = []) :
    fv.exec (fv.stepPlain i) = fv.exec (match opEffects i.kind with
      | some e => fv.stepEffect i.memArg e
      | none => fv.stepKind i) := by
  unfold FuncEnv.stepPlain FuncEnv.stepPrelude
  rw [hfv, ht]
  rfl

/-- An instruction that has no stack effect in the table and whose facts are those of its kind. -/
def Plain (k : InstrKind) : Prop :=
  k ≠ .brTable ∧ opEffects k = none ∧ validatedInstructionNeedsPayload k = false

/-- The round of such an instruction with one immediate. -/
theorem immediate_round (hfv : fv.constOnly = false) {α : Type} {b : UInt8} {k : InstrKind} {x : ReadM α}
    {f : α → Instr} (hdec : decodeOpAfterOpcode directInvalid w b = do return .instr (← (do return f (← x))))
    (hf : ∀ a, (f a).kind = k ∧ (f a).valTypes = []) (hk : Plain k) :
    (do let a ← reading x; fv.exec (fv.stepKind (f a)); return kindFacts k) = afterOpcode fv w b := by
  simp only [afterOpcode, hdec, reading_bind, reading_pure, bind_assoc, pure_bind]
  refine bind_congr fun a => ?_
  obtain ⟨rfl, ht⟩ := hf a
  rw [stepDirectOp, stepInstr, if_neg hk.1, exec_stepPlain hfv ht, hk.2.1, opFacts, instrFacts, hk.2.2]
  rfl

theorem index_round (hfv : fv.constOnly = false) {b : UInt8} {k : InstrKind}
    (hdec : decodeOpAfterOpcode directInvalid w b = do return .instr (← indexInst k)) (hk : Plain k) :
    (do
      let index ← reading u32
      fv.exec (fv.stepKind { kind := k, index })
      return kindFacts k) = afterOpcode fv w b :=
  immediate_round hfv hdec (fun _ => ⟨rfl, rfl⟩) hk

theorem scalarImmediate_round (hfv : fv.constOnly = false) {b : UInt8}
    (hb : (0x20 ≤ b.toNat ∧ b.toNat ≤ 0x24) ∨ (0x41 ≤ b.toNat ∧ b.toNat ≤ 0x44)) :
    (do return kindFacts (← stepDirectScalarImmediate fv b)) = afterOpcode fv w b := by
  have hcases : b ∈ ([0x20, 0x21, 0x22, 0x23, 0x24, 0x41, 0x42, 0x43, 0x44] : List UInt8) := by
    simp only [List.mem_cons, List.not_mem_nil, or_false, ← UInt8.toNat_inj, UInt8.reduceToNat]
    omega
  simp only [List.mem_cons, List.not_mem_nil, or_false] at hcases
  rcases hcases with rfl | rfl | rfl | rfl | rfl | rfl | rfl | rfl | rfl
  all_goals simp only [stepDirectScalarImmediate, UInt8.reduceToNat, bind_assoc, pure_bind]
  · exact index_round (k := .localGet) hfv rfl ⟨by decide, rfl, rfl⟩
  · exact index_round (k := .localSet) hfv rfl ⟨by decide, rfl, rfl⟩
  · exact index_round (k := .localTee) hfv rfl ⟨by decide, rfl, rfl⟩
  · rw [← index_round (k := .globalGet) hfv rfl ⟨by decide, rfl, rfl⟩]
    exact bind_congr fun index => by rw [exec_stepPlain hfv rfl]; rfl
  · rw [← index_round (k := .globalSet) hfv rfl ⟨by decide, rfl, rfl⟩]
    exact bind_congr fun index => by rw [exec_stepPlain hfv rfl]; rfl
  · exact immediate_round (f := fun c => { kind := .i32Const, i32 := c }) hfv rfl (fun _ => ⟨rfl, rfl⟩)
      ⟨by decide, rfl, rfl⟩
  · exact immediate_round (f := fun c => { kind := .i64Const, i64 := c }) hfv rfl (fun _ => ⟨rfl, rfl⟩)
      ⟨by decide, rfl, rfl⟩
  · exact immediate_round (f := fun c => { kind := .f32Const, f32Bits := c }) hfv rfl (fun _ => ⟨rfl, rfl⟩)
      ⟨by decide, rfl, rfl⟩
  · exact immediate_round (f := fun c => { kind := .f64Const, f64Bits := c }) hfv rfl (fun _ => ⟨rfl, rfl⟩)
      ⟨by decide, rfl, rfl⟩

theorem controlImmediate_round (hfv : fv.constOnly = false) {b : UInt8}
    (hb : b.toNat = 0x05 ∨ (0x0b ≤ b.toNat ∧ b.toNat ≤ 0x0d)) :
    (do
      match ← stepDirectControlImmediate fv b with
      | none => return {}
      | some kind => return kindFacts kind) = afterOpcode fv w b := by
  have hcases : b = 0x05 ∨ b = 0x0b ∨ b = 0x0c ∨ b = 0x0d := by
    simp only [← UInt8.toNat_inj, UInt8.reduceToNat]
    omega
  rcases hcases with rfl | rfl | rfl | rfl
  all_goals simp only [stepDirectControlImmediate, UInt8.reduceToNat, bind_assoc, pure_bind]
  · rfl
  · rfl
  · exact index_round (k := .br) hfv rfl ⟨by decide, rfl, rfl⟩
  · exact index_round (k := .brIf) hfv rfl ⟨by decide, rfl, rfl⟩

theorem callImmediate_round (hfv : fv.constOnly = false) {b : UInt8} (hb : b.toNat = 0x10 ∨ b.toNat = 0x12) :
    (do return kindFacts (← stepDirectCallImmediate fv b)) = afterOpcode fv w b := by
  have hcases : b = 0x10 ∨ b = 0x12 := by
    simp only [← UInt8.toNat_inj, UInt8.reduceToNat]
    exact hb
  rcases hcases with rfl | rfl
  all_goals simp only [stepDirectCallImmediate, bind_assoc, pure_bind]
  · exact index_round (k := .call) hfv rfl ⟨by decide, rfl, rfl⟩
  · exact index_round (k := .returnCall) hfv rfl ⟨by decide, rfl, rfl⟩

/-! ## Operands of the exact type -/

theorem popExpect_exact {c : CtrlFrame} {cs : List CtrlFrame} {t : ValType} {x : Val} {xs : List Val}
    (hc : v.ctrls = c :: cs) (hv : v.vals = x :: xs) (hlen : c.height ≤ xs.length)
    (hx : Val.isExactly t x = true) : (popExpect fv t).run v = .ok () { v with vals := xs } := by
  have hpop : (pop fv).run v = .ok x { v with vals := xs } := by
    simp [pop, FuncValidator.top, hc, hv, show ¬ xs.length + 1 = c.height by omega]
  have hexpect : fv.expect t x = .ok () := by
    cases x with
    | unknown => rfl
    | known t' =>
      obtain rfl : t' = t := of_decide_eq_true hx
      simp [FuncEnv.expect, FuncEnv.subtype]
  rw [popExpect, bind_of_ok hpop, hexpect]
  rfl

theorem popExpects_exact {c : CtrlFrame} {cs : List CtrlFrame} {t : ValType} : ∀ {n : Nat} {v : FuncValidator},
    v.ctrls = c :: cs → n + c.height ≤ v.vals.length → (v.vals.take n).all (Val.isExactly t) = true →
    ((List.replicate n t).forM (popExpect fv)).run v = .ok ⟨⟩ { v with vals := v.vals.drop n }
  | 0, v, _, _, _ => rfl
  | n + 1, v, hc, hlen, hall => by
    rcases hv : v.vals with _ | ⟨x, xs⟩
    · simp [hv] at hlen
    rw [hv] at hall hlen
    simp only [List.take_succ_cons, List.all_cons, Bool.and_eq_true, List.length_cons] at hall hlen
    refine (bind_of_ok (popExpect_exact hc hv (by omega) hall.1)).trans ?_
    exact popExpects_exact (v := { v with vals := xs }) hc (show n + c.height ≤ xs.length by omega) hall.2

theorem exec_scalar {e : OpEffect} {n : Nat} {input output : NumType} {arg : MemArg}
    (he : OpEffect.scalar e = some (n, input, output)) : 0 < n ∧ fv.exec (fv.stepEffect arg e) = (do
      (List.replicate n (.num input)).forM (popExpect fv)
      push (.known (.num output))) := by
  cases e <;> cases he <;> refine ⟨by decide, ?_⟩ <;>
    simp [FuncEnv.exec, FuncEnv.stepEffect, Check.popExpect, Check.push, handle, List.replicate,
      ValType.i32]

/-- Without a frame the first operand is out of range. -/
theorem popExpect_empty {β : Type} {t : ValType} {f : Unit → ValidateM β} (hc : v.ctrls = []) :
    (popExpect fv t >>= f).run v = .error .outOfRange v := by
  have htop : FuncValidator.top.run v = .error .outOfRange v := by simp [FuncValidator.top, hc]
  rw [popExpect, pop, bind_assoc, bind_assoc, bind_of_error htop]

/-- A shortcut that agrees with the slow path wherever it is taken may be left out. -/
theorem shortcut_eq {slow : ValidateM Unit} {taken : CtrlFrame → FuncValidator → Bool}
    {upd : FuncValidator → FuncValidator}
    (hempty : ∀ v, v.ctrls = [] → slow.run v = .error .outOfRange v)
    (htaken : ∀ v c cs, v.ctrls = c :: cs → taken c v = true → slow.run v = .ok ⟨⟩ (upd v)) :
    (do
      let f ← FuncValidator.top
      let v ← get
      if taken f v then set (upd v) else slow) = slow := by
  funext v
  show EStateM.run _ v = EStateM.run _ v
  rcases hc : v.ctrls with _ | ⟨c, cs⟩
  · have htop : FuncValidator.top.run v = .error .outOfRange v := by simp [FuncValidator.top, hc]
    rw [bind_of_error htop, hempty v hc]
  · have htop : FuncValidator.top.run v = .ok c v := by simp [FuncValidator.top, hc]
    rw [bind_of_ok htop, EStateM.run_bind (x := get), EStateM.run_get]
    dsimp only
    split
    · rw [htaken v c cs hc ‹_›]
      rfl
    · rfl

theorem get_top {β : Type} (k : CtrlFrame → FuncValidator → ValidateM β) :
    (do let v ← get; let f ← FuncValidator.top; k f v) = (do let f ← FuncValidator.top; let v ← get; k f v) := by
  funext v
  show EStateM.run _ v = EStateM.run _ v
  simp only [FuncValidator.top, EStateM.run_bind, EStateM.run_get]
  cases v.ctrls <;> rfl

theorem stepDirectNumeric_eq (hfv : fv.constOnly = false) (k : InstrKind) :
    stepDirectNumeric fv k = fv.exec (fv.stepPlain { kind := k }) := by
  rw [stepDirectNumeric]
  rcases hs : (opEffects k).bind OpEffect.scalar with _ | ⟨n, input, output⟩
  · rfl
  obtain ⟨e, he, hscalar⟩ := Option.bind_eq_some_iff.1 hs
  obtain ⟨hn, hexec⟩ := @exec_scalar fv _ _ _ _ (Instr.memArg { kind := k }) hscalar
  obtain ⟨m, rfl⟩ : ∃ m, n = m + 1 := ⟨n - 1, by omega⟩
  rw [exec_stepPlain hfv rfl, show opEffects (Instr.kind { kind := k }) = some e from he]
  dsimp only
  rw [hexec, get_top]
  refine shortcut_eq (fun v hc => ?_) fun v c cs hc hfast => ?_
  · rw [List.replicate_succ, show ∀ ts, ((.num input :: ts : List ValType).forM (popExpect fv)) =
      (popExpect fv (.num input) >>= fun _ => ts.forM (popExpect fv)) from fun _ => rfl, bind_assoc,
      popExpect_empty hc]
  · simp only [Bool.and_eq_true, decide_eq_true_eq] at hfast
    rw [bind_of_ok (popExpects_exact hc hfast.1.2 hfast.2)]
    rfl

theorem exec_ofExcept {α β : Type} (x : Except Err α) (f : α → Check β) :
    fv.exec (Check.ofExcept x >>= f) = (orThrow x >>= fun a => fv.exec (f a)) := by
  cases x <;> rfl

theorem stepDirectMemory_eq {k : InstrKind} {arg : MemArg} {e : OpEffect} (he : opEffects k = some e)
    (hs : OpEffect.scalar e = none) : stepDirectMemory fv k arg = fv.exec (fv.stepEffect arg e) := by
  rw [stepDirectMemory, he]
  cases e with
  | load a align =>
    dsimp only
    rw [FuncEnv.stepEffect, exec_ofExcept]
    refine bind_congr fun address => ?_
    rw [show fv.exec (do Check.popExpect address; Check.push (.known (.num a))) =
      (do popExpect fv address; push (.known (.num a))) by
        simp [FuncEnv.exec, Check.popExpect, Check.push, handle]]
    refine shortcut_eq (fun v hc => popExpect_empty hc) fun v c cs hc hfast => ?_
    simp only [Bool.and_eq_true, decide_eq_true_eq] at hfast
    have hpop := @popExpects_exact fv _ _ _ 1 _ hc (by omega) hfast.2
    rw [show (List.replicate 1 address).forM (popExpect fv) = popExpect fv address from bind_pure _] at hpop
    rw [bind_of_ok hpop]
    rfl
  | store a align =>
    dsimp only
    rw [FuncEnv.stepEffect, exec_ofExcept]
    refine bind_congr fun address => ?_
    rw [show fv.exec (do Check.popExpect (.num a); Check.popExpect address) =
      (do popExpect fv (.num a); popExpect fv address) by
        simp [FuncEnv.exec, Check.popExpect, handle]]
    refine shortcut_eq (fun v hc => popExpect_empty hc) fun v c cs hc hfast => ?_
    simp only [Bool.and_eq_true, decide_eq_true_eq] at hfast
    rcases hv : v.vals with _ | ⟨x, _ | ⟨y, ys⟩⟩
    · simp [hv] at hfast
    · simp [hv] at hfast
    simp only [hv, List.take_succ_cons, List.take_zero, List.drop_succ_cons, List.drop_zero, List.all_cons,
      List.all_nil, Bool.and_true, List.length_cons] at hfast
    rw [bind_of_ok (popExpect_exact hc hv (by simp; omega) hfast.1.2)]
    exact popExpect_exact (v := { v with vals := y :: ys }) hc rfl
      (show c.height ≤ ys.length by omega) hfast.2
  | _ => cases hs

/-! ## Rounds by opcode range -/

theorem decode_plain {b : UInt8} (hb : 0x28 ≤ b.toNat) :
    decodeOpAfterOpcode directInvalid w b = do return .instr (← decodePlain directInvalid w b) :=
  decodeOpAfterOpcode_plain (by simp [structuralOpcodes]; omega)

theorem simpleOpcode_numeric : ∀ n ∈ List.range' 0x45 0x80,
    lookupRuns simpleOpcode n ∉ [.invalid, .brTable] ∧
    validatedInstructionNeedsPayload (lookupRuns simpleOpcode n) = false := by
  decide +kernel

theorem numeric_round (hfv : fv.constOnly = false) {b : UInt8} (hb : 0x45 ≤ b.toNat ∧ b.toNat ≤ 0xc4) :
    (do
      stepDirectNumeric fv (opcodeKind simpleOpcode b)
      return kindFacts (opcodeKind simpleOpcode b)) = afterOpcode fv w b := by
  obtain ⟨hk, hp⟩ := simpleOpcode_numeric b.toNat (List.mem_range'_1.2 (by omega))
  simp only [List.mem_cons, List.not_mem_nil, or_false, not_or] at hk
  rw [afterOpcode, decode_plain (by omega), decodePlain, lookupPrefixKind]
  simp only [if_neg hk.1, reading_pure, pure_bind, stepDirectNumeric_eq hfv, opcodeKind,
    stepDirectOp, stepInstr, if_neg hk.2, opFacts, instrFacts, hp]
  rfl

theorem memOpcodeKind_effect : ∀ n ∈ List.range' 0x28 0x17, lookupRuns simpleOpcode n = .invalid ∧
    lookupRuns memOpcodeKind n ≠ .brTable ∧
    validatedInstructionNeedsPayload (lookupRuns memOpcodeKind n) = false ∧
    (opEffects (lookupRuns memOpcodeKind n)).map (fun e => (OpEffect.scalar e).isNone) = some true := by
  decide +kernel

theorem memory_round (hfv : fv.constOnly = false) {b : UInt8} (hb : 0x28 ≤ b.toNat ∧ b.toNat ≤ 0x3e) :
    (do
      let arg ← reading (decodeMemArgWithWidths w)
      stepDirectMemory fv (opcodeKind memOpcodeKind b) arg
      return kindFacts (opcodeKind memOpcodeKind b)) = afterOpcode fv w b := by
  obtain ⟨hs, hk, hp, hm⟩ := memOpcodeKind_effect b.toNat (List.mem_range'_1.2 (by omega))
  obtain ⟨e, he, hscalar⟩ := Option.map_eq_some_iff.1 hm
  have hdec : decodePlain directInvalid w b = (do
      let ma ← decodeMemArgWithWidths w
      return { kind := lookupRuns memOpcodeKind b.toNat, ext := .memArg ma }) := by
    have hnone : lookupPrefixKind simpleOpcode b.toNat = none := by simp [lookupPrefixKind, hs]
    rw [decodePlain, hnone]
    dsimp only
    split <;> first | omega | rw [if_pos hb]
  rw [afterOpcode, decode_plain (by omega), hdec]
  simp only [reading_bind, reading_pure, bind_assoc, pure_bind, stepDirectOp, stepInstr, if_neg hk, opFacts,
    instrFacts, hp]
  refine bind_congr fun arg => ?_
  rw [opcodeKind, stepDirectMemory_eq he (Option.isNone_iff_eq_none.1 hscalar), exec_stepPlain hfv rfl]
  dsimp only
  rw [he]
  rfl

theorem directStep_eq (hfv : fv.constOnly = false) : directStep fv w = decodeStep fv w := by
  funext v
  show (directStep fv w).run v = (decodeStep fv w).run v
  have hpeek : (reading peek).run v = .ok v.rd.data[v.rd.pos]? v := rfl
  rw [directStep, bind_of_ok hpeek]
  rcases hb : v.rd.data[v.rd.pos]? with _ | b
  · rfl
  have hskip {β : Type} {k : Unit → ValidateM β} :
      (reading skipByte >>= k).run v = (k ()).run { v with rd := v.rd.advance 1 } := rfl
  dsimp only
  simp only [run_ite]
  rw [decodeStep_run hb]
  split
  · rw [hskip, scalarImmediate_round hfv ‹_›]
  split
  · rw [hskip, memory_round hfv ‹_›]
  split
  · rw [hskip, numeric_round hfv ‹_›]
  split
  · exact hskip.trans (congrArg (EStateM.run · _) (controlImmediate_round hfv ‹_›))
  split
  · rw [hskip, callImmediate_round hfv ‹_›]
  · rfl

end

/-! ## Progress -/

section

variable {fv : FuncEnv}

theorem top_keeps : Keeps FuncValidator.rd FuncValidator.top :=
  .get_bind fun {v b s'} h => by
    split at h
    · cases h; rfl
    · cases h

theorem pop_keeps : Keeps FuncValidator.rd (pop fv) := by
  refine top_keeps.bind fun f => .get_bind fun {v b s'} h => ?_
  split_ifs at h
  · cases h; rfl
  · cases h
  · split at h
    · cases h; rfl
    · cases h

theorem popExpect_keeps (t : ValType) : Keeps FuncValidator.rd (popExpect fv t) := by
  refine pop_keeps.bind fun x => ?_
  split
  · exact .pure _
  · exact .throw _

theorem popAll_keeps (ts : List ValType) : Keeps FuncValidator.rd (popAll fv ts) :=
  .forM popExpect_keeps _

theorem push_keeps (x : Val) : Keeps FuncValidator.rd (push x) := .modify fun _ => rfl

theorem pushAll_keeps (ts : List ValType) : Keeps FuncValidator.rd (pushAll ts) :=
  .forM (fun t => push_keeps (.known t)) ts

theorem unreachable_keeps : Keeps FuncValidator.rd FuncValidator.unreachable :=
  .get_bind fun {v b s'} h => by
    split at h
    · cases h; rfl
    · cases h

theorem label_keeps (depth : Nat) : Keeps FuncValidator.rd (label fv depth) :=
  .get_bind fun {v b s'} h => by
    split at h
    · cases h; rfl
    · cases h

theorem localType_keeps (idx : Nat) : Keeps FuncValidator.rd (FuncValidator.localType fv idx) := by
  refine .get_bind fun {v b s'} h => ?_
  -- every branch changes at most the index of the runs and its work count
  repeat' split at h
  all_goals
    cases h
    rfl

theorem handle_keeps {β : Type} (o : Access β) : Keeps FuncValidator.rd (FuncValidator.handle fv o) := by
  cases o with
  | pop => exact pop_keeps
  | popExpect t => exact popExpect_keeps t
  | popAll ts => exact popAll_keeps ts
  | push x => exact push_keeps x
  | pushAll ts => exact pushAll_keeps ts
  | label depth => exact label_keeps depth
  | funcResults =>
    refine .get_bind fun {v b s'} h => ?_
    split at h
    · cases h; rfl
    · cases h
  | available => exact top_keeps.bind fun f => .get_bind fun {v b s'} h => by cases h; rfl
  | unreachable => exact unreachable_keeps
  | localType idx => exact localType_keeps idx
  | localIsInitialized idx t => exact .get_bind fun {v b s'} h => by cases h; rfl
  | initializeLocal idx t => exact .modify fun v => by split <;> rfl

theorem exec_keeps {α : Type} (c : Check α) : Keeps FuncValidator.rd (fv.exec c) := .program handle_keeps c

theorem markBranchTableLabel_keeps (l : Nat) : Keeps FuncValidator.rd (markBranchTableLabel l) :=
  .get_bind fun {v b s'} h => by
    split at h
    · cases h; rfl
    · cases h

theorem beginBranchTable_keeps : Keeps FuncValidator.rd beginBranchTable :=
  .modify fun v => by dsimp only; split <;> rfl

theorem branchTarget_keeps (dt : List ValType) (payload : List Val) (l : Nat) :
    Keeps FuncValidator.rd (branchTarget fv dt payload l) := by
  refine (label_keeps l).bind fun lt => (markBranchTableLabel_keeps l).bind fun new => ?_
  refine .ite (.ite (.throw _) ?_) (.pure _)
  exact (popAll_keeps lt).bind fun _ => .modify fun _ => rfl

theorem stepBrTable_keeps (i : Instr) : Keeps FuncValidator.rd (stepBrTable fv i) := by
  refine (popExpect_keeps _).bind fun _ => (label_keeps _).bind fun dt => .bind ?_ fun _ =>
    (popAll_keeps _).bind fun _ => unreachable_keeps
  exact .bind .get fun v => beginBranchTable_keeps.bind fun _ =>
    (markBranchTableLabel_keeps _).bind fun _ => .forM (branchTarget_keeps dt v.vals) _

theorem orThrow_keeps {α : Type} (x : Except Err α) : Keeps FuncValidator.rd (orThrow x) := by
  cases x with
  | ok a => exact .pure a
  | error e => exact .throw e

theorem pushCtrl_keeps (kind : CtrlKind) (ins outs : List ValType) :
    Keeps FuncValidator.rd (pushCtrl fv kind ins outs) :=
  (popAll_keeps ins).bind fun _ => .bind (.modify fun _ => rfl) fun _ => pushAll_keeps ins

theorem popCtrl_keeps : Keeps FuncValidator.rd (popCtrl fv) := by
  refine .bind .get fun v => ?_
  split
  · exact .throw _
  · refine (popAll_keeps _).bind fun _ => .bind .get fun v => .ite (.throw _) ?_
    refine .bind (.modify fun _ => rfl) fun _ => .bind (.modify fun _ => rfl) fun _ => ?_
    exact (pushAll_keeps _).bind fun _ => .pure _

theorem directPushCtrl_keeps (kind : CtrlKind) (ins outs : List ValType) :
    Keeps FuncValidator.rd (directPushCtrl fv kind ins outs) :=
  .bind .get fun _ => .ite (.throw _) (pushCtrl_keeps kind ins outs)

theorem directElse_keeps : Keeps FuncValidator.rd (directElse fv) := by
  refine .bind .get fun v => ?_
  split
  · exact .throw _
  · refine .ite (.throw _) (popCtrl_keeps.bind fun f => .bind .get fun _ => ?_)
    refine .bind (.modify fun _ => rfl) fun _ => .bind .get fun _ => .ite (.throw _) ?_
    exact .bind (.modify fun _ => rfl) fun _ => pushAll_keeps _

theorem directEnd_keeps : Keeps FuncValidator.rd (directEnd fv) := by
  refine .bind .get fun v => ?_
  split
  · exact .throw _
  · refine popCtrl_keeps.bind fun _ => .ite (.ite ?_ (.ite (.pure _) (.throw _))) (.pure _)
    exact .bind .get fun _ => .ite (.throw _) (.pure _)

theorem stepDirectOp_keeps (op : DirectOp) : Keeps FuncValidator.rd (stepDirectOp fv op) := by
  cases op with
  | instr i => exact .ite ((exec_keeps _).bind fun _ => stepBrTable_keeps i) (exec_keeps _)
  | block bt => exact (orThrow_keeps _).bind fun _ => directPushCtrl_keeps _ _ _
  | loop bt => exact (orThrow_keeps _).bind fun _ => directPushCtrl_keeps _ _ _
  | if_ bt =>
    exact (orThrow_keeps _).bind fun _ => (popExpect_keeps _).bind fun _ => directPushCtrl_keeps _ _ _
  | tryTable bt catches =>
    exact (orThrow_keeps _).bind fun _ => (exec_keeps _).bind fun _ => directPushCtrl_keeps _ _ _
  | else_ => exact directElse_keeps
  | end_ => exact directEnd_keeps

/-- A round of the loop reads at least one byte. -/
theorem decodeStep_left {w : MemargWidths} {v v' : FuncValidator} {facts : Facts}
    (h : (decodeStep fv w).run v = .ok facts v') : v'.rd.left < v.rd.left := by
  obtain ⟨op, t, hread, h⟩ := bind_ok.1 h
  obtain ⟨u, t', hstep, h⟩ := bind_ok.1 h
  obtain ⟨-, rfl⟩ := pure_ok.1 h
  rw [(stepDirectOp_keeps op).kept hstep]
  rw [reading_run] at hread
  split at hread
  · rename_i rd hop
    cases hread
    obtain ⟨hpast, hleft⟩ := decodeOp_past hop
    exact hpast.left_lt (n := 0) hleft
  · cases hread

end

/-! ## Main result -/

/-- Puts the facts of a round before those of the rounds after it. -/
def Facts.before (facts : Facts) :
    EStateM.Result Err FuncValidator Facts → EStateM.Result Err FuncValidator Facts
  | .ok rest v => .ok (facts.merge rest) v
  | .error e v => .error e v

/-- The loop of `validateFuncDirect` with the general round only, and with no bound on its rounds. -/
inductive GeneralLoop (fv : FuncEnv) (w : MemargWidths) :
    FuncValidator → EStateM.Result Err FuncValidator Facts → Prop
  | closed {v} : v.ctrls = [] → v.rd.left = 0 → GeneralLoop fv w v (.ok {} v)
  | trailing {v} : v.ctrls = [] → 0 < v.rd.left →
    GeneralLoop fv w v (.error (.decode { code := .sectionSizeMismatch, offset := v.rd.pos }) v)
  | fails {v e v'} : v.ctrls ≠ [] → (decodeStep fv w).run v = .error e v' →
    GeneralLoop fv w v (.error e v')
  | round {v facts v' r} : v.ctrls ≠ [] → (decodeStep fv w).run v = .ok facts v' →
    GeneralLoop fv w v' r → GeneralLoop fv w v (facts.before r)

theorem directLoop_general {fv : FuncEnv} {w : MemargWidths} (hfv : fv.constOnly = false) :
    ∀ (fuel : Nat) {v : FuncValidator}, v.rd.left < fuel →
      GeneralLoop fv w v ((directLoop fv w fuel).run v) := by
  intro fuel
  induction fuel with
  | zero =>
    intro v hv
    omega
  | succ fuel ih =>
    intro v hv
    rw [directLoop, directStep_eq hfv]
    change GeneralLoop fv w v ((if v.ctrls.isEmpty then _ else _ : ValidateM Facts).run v)
    rw [run_ite]
    split
    · rename_i hempty
      have hclosed : v.ctrls = [] := List.isEmpty_iff.1 hempty
      have hhas : (reading has).run v = .ok (decide (0 < v.rd.left)) v := rfl
      rw [bind_of_ok hhas, run_ite]
      split
      · rename_i hleft
        exact .trailing hclosed (of_decide_eq_true hleft)
      · rename_i hleft
        exact .closed hclosed (by simpa using hleft)
    · rename_i hopen
      rcases hround : (decodeStep fv w).run v with ⟨facts, v'⟩ | ⟨e, v'⟩
      · have hleft := decodeStep_left hround
        rw [bind_of_ok hround, EStateM.run_bind]
        have hrest := GeneralLoop.round (by simpa using hopen) hround (ih (v := v') (by omega))
        rcases hloop : (directLoop fv w fuel).run v' with ⟨rest, v''⟩ | ⟨e, v''⟩
        · rw [hloop] at hrest
          exact hrest
        · rw [hloop] at hrest
          exact hrest
      · rw [bind_of_error hround]
        exact .fails (by simpa using hopen) hround

theorem beginBody_constOnly {mv : ModuleValidator} {funcIndex : Nat} {params results : List ValType}
    {runs : List LocalRun} {v v' : FuncValidator} {fv : FuncEnv}
    (h : (beginBody mv funcIndex params results runs).run v = .ok fv v') : fv.constOnly = false := by
  unfold beginBody at h
  cases hcount : localCount params runs with
  | none => simp [hcount] at h
  | some count =>
    simp only [hcount, run_ite] at h
    split at h
    · cases h
    · obtain ⟨_, s₁, -, h⟩ := bind_ok.1 h
      obtain ⟨_, s₂, -, h⟩ := bind_ok.1 h
      cases h
      rfl

/-- The streaming validator with its specialised rounds is the one that decodes every operation: once
the body is begun, it ends as the general loop does, in the same state with the same facts or with the
same error. -/
theorem validateFuncDirect_general (mv : ModuleValidator) (funcIndex : Nat)
    (params results : List ValType) (runs : List LocalRun) (body : List UInt8) (widths : MemargWidths)
    (multiMemory : Bool) (v : FuncValidator) :
    (∃ e v', (beginBody mv funcIndex params results runs).run v = .error e v' ∧
      (validateFuncDirect mv funcIndex params results runs body widths multiMemory).run v = .error e v') ∨
    ∃ fv v', (beginBody mv funcIndex params results runs).run v = .ok fv v' ∧
      GeneralLoop fv { widths with multiMemory } { v' with rd := v'.rd.reset body }
        ((validateFuncDirect mv funcIndex params results runs body widths multiMemory).run v) := by
  rcases hbegin : (beginBody mv funcIndex params results runs).run v with ⟨fv, v'⟩ | ⟨e, v'⟩
  · refine .inr ⟨fv, v', rfl, ?_⟩
    rw [validateFuncDirect, bind_of_ok hbegin]
    refine directLoop_general (beginBody_constOnly hbegin) (body.length + 1)
      (v := { v' with rd := v'.rd.reset body }) ?_
    simp [Reader.left, Reader.reset]
  · exact .inl ⟨e, v', rfl, by rw [validateFuncDirect, bind_of_error hbegin]⟩

end Wago.Wasm
