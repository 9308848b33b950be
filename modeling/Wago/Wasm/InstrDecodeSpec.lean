/-
The tree decoder in the source's own form: its fuel never runs out, and an instruction is a single
operation followed by the bodies it opens. With it, the agreement of the three walkers.
-/
import Wago.Wasm.BytecodeWalkSpec

namespace Wago.Wasm

open Run

/-! ## Progress -/

/-- `r'` is `r` after at least `n` more bytes. -/
structure Reader.Past (r : Reader) (n : Nat) (r' : Reader) : Prop where
  data : r'.data = r.data
  pos : r.pos + n ≤ r'.pos

namespace Reader.Past

variable {r r' r'' : Reader} {m n : Nat}

theorem trans (h : r.Past m r') (h' : r'.Past n r'') : r.Past (m + n) r'' :=
  ⟨h'.data.trans h.data, by have := h.pos; have := h'.pos; omega⟩

theorem mono (h : r.Past m r') (hn : n ≤ m) : r.Past n r' := ⟨h.data, by have := h.pos; omega⟩

theorem advance (r : Reader) : r.Past 1 (r.advance 1) := ⟨rfl, Nat.le_refl _⟩

theorem of_aligned {s s' : Reader} (h : Aligned r s r' s') : r.Past 0 r' := by
  obtain ⟨k, hk, -⟩ := h.moved
  exact ⟨h.left_data, by omega⟩

theorem left_lt (h : r.Past (n + 1) r') (hr : 0 < r.left) : r'.left < r.left := by
  have := h.pos
  unfold Reader.left at *
  rw [h.data]
  omega

end Reader.Past

section

variable {r r' : Reader} {w : MemargWidths} {α : Type}

theorem byte_ok {b : UInt8} (h : byte.run r = .ok b r') :
    r' = r.advance 1 ∧ ∃ bs, r.rest = b :: bs := by
  rcases hrest : r.rest with _ | ⟨c, cs⟩
  · rw [byte_nil hrest] at h; cases h
  · rw [byte_cons hrest] at h
    obtain ⟨rfl, rfl⟩ : c = b ∧ r.advance 1 = r' := by simpa using h
    exact ⟨rfl, cs, rfl⟩

theorem decodeOp_past {inv : UInt8 → Nat → DecodeError} {d : DirectOp}
    (h : (decodeOp inv w).run r = .ok d r') : r.Past 1 r' ∧ 0 < r.left := by
  obtain ⟨op, t, hb, hd⟩ := bind_ok.1 h
  obtain ⟨rfl, bs, hrest⟩ := byte_ok hb
  obtain ⟨_, _, _, hI, _⟩ := (decodeOp_outcome inv op w w.multiMemory (Aligned.refl rfl)).of_left hd
  refine ⟨(Reader.Past.advance r).trans (.of_aligned hI), ?_⟩
  have hlen : r.rest.length = bs.length + 1 := by rw [hrest]; rfl
  unfold Reader.rest at hlen
  rw [List.length_drop] at hlen
  unfold Reader.left
  omega

/-- The error for an unknown opcode is all that the two full decoders differ in. -/
theorem decodePlain_ok {inv inv' : UInt8 → Nat → DecodeError} {op : UInt8} {i : Instr}
    (h : (decodePlain inv w op).run r = .ok i r') : (decodePlain inv' w op).run r = .ok i r' := by
  unfold decodePlain at h ⊢
  split at h
  · exact h
  · split at h <;> first | exact h | skip
    split at h
    · rw [if_pos ‹_›]; exact h
    · cases h

theorem decodeOp_ok {inv inv' : UInt8 → Nat → DecodeError} {d : DirectOp}
    (h : (decodeOp inv w).run r = .ok d r') : (decodeOp inv' w).run r = .ok d r' := by
  obtain ⟨op, t, hb, hd⟩ := bind_ok.1 h
  refine bind_ok.2 ⟨op, t, hb, ?_⟩
  unfold decodeOpAfterOpcode at hd ⊢
  split at hd <;> first | exact hd | skip
  obtain ⟨i, u, hi, hu⟩ := bind_ok.1 hd
  exact bind_ok.2 ⟨i, u, decodePlain_ok hi, hu⟩

theorem withBodies_past {expr : ReadM (List Instruction)}
    {ifBodies : ReadM (List Instruction × List Instruction)} {d : DirectOp} {inst : Instruction}
    (hexpr : ∀ {r r' body}, expr.run r = .ok body r' → r.Past 1 r')
    (hif : ∀ {r r' p}, ifBodies.run r = .ok p r' → r.Past 1 r')
    (h : (withBodies expr ifBodies d).run r = .ok inst r') : r.Past 0 r' := by
  have hone {f : List Instruction → Instruction} (h : (do return f (← expr)).run r = .ok inst r') :
      r.Past 0 r' := by
    obtain ⟨b, u, hb, hu⟩ := bind_ok.1 h
    rw [pure_ok] at hu
    exact hu.2 ▸ (hexpr hb).mono (Nat.zero_le 1)
  cases d with
  | instr i => exact (pure_ok.1 h).2 ▸ ⟨rfl, Nat.le_refl _⟩
  | block bt => exact hone h
  | loop bt => exact hone h
  | if_ bt =>
    obtain ⟨b, u, hb, hu⟩ := bind_ok.1 h
    rw [pure_ok] at hu
    exact hu.2 ▸ (hif hb).mono (Nat.zero_le 1)
  | tryTable bt cs => exact hone h
  | else_ => cases h
  | end_ => cases h

/-- Every successful call takes a byte: an opcode, or the `end` of a body. -/
theorem tree_past : ∀ fuel : Nat,
    (∀ {depth r r' inst}, (decodeInstructionLoop w fuel depth).run r = .ok inst r' →
      r.Past 1 r' ∧ 0 < r.left) ∧
    (∀ {depth r r' body}, (decodeExprLoop w fuel depth).run r = .ok body r' → r.Past 1 r') ∧
    (∀ {depth r r' inElse p}, (decodeIfLoop w fuel depth inElse).run r = .ok p r' → r.Past 1 r')
  | 0 => by
    refine ⟨fun h => ?_, fun h => ?_, fun h => ?_⟩
    · unfold decodeInstructionLoop at h; cases h
    · unfold decodeExprLoop at h; cases h
    · unfold decodeIfLoop at h; cases h
  | fuel + 1 => by
    obtain ⟨hinst, hexpr, hif⟩ := tree_past fuel
    refine ⟨fun {depth r r' inst} h => ?_, fun {depth r r' body} h => ?_,
      fun {depth r r' inElse p} h => ?_⟩
    · unfold decodeInstructionLoop at h
      rw [run_ite] at h
      split at h
      · cases h
      obtain ⟨d, t, hd, hbody⟩ := bind_ok.1 h
      obtain ⟨hpast, hleft⟩ := decodeOp_past hd
      exact ⟨hpast.trans (withBodies_past hexpr hif hbody), hleft⟩
    · unfold decodeExprLoop at h
      rw [run_ite] at h
      split at h
      · cases h
      obtain ⟨b, t, hb, hrest⟩ := bind_ok.1 h
      obtain ⟨-, rfl⟩ : _ ∧ r = t := by simpa using hb
      cases b with
      | none => cases hrest
      | some b =>
        rw [run_ite] at hrest
        split at hrest
        · obtain ⟨_, u, hu, hv⟩ := bind_ok.1 hrest
          obtain rfl : r.advance 1 = u := by simpa using hu
          rw [pure_ok] at hv
          exact hv.2 ▸ .advance r
        · obtain ⟨i, u, hu, hv⟩ := bind_ok.1 hrest
          obtain ⟨is, u', hu', hv'⟩ := bind_ok.1 hv
          rw [pure_ok] at hv'
          exact hv'.2 ▸ ((hinst hu).1.trans (hexpr hu')).mono (by omega)
    · unfold decodeIfLoop at h
      obtain ⟨b, t, hb, hrest⟩ := bind_ok.1 h
      obtain ⟨-, rfl⟩ : _ ∧ r = t := by simpa using hb
      cases b with
      | none => cases hrest
      | some b =>
        rw [run_ite] at hrest
        split at hrest
        · rw [run_ite] at hrest
          split at hrest
          · cases hrest
          · obtain ⟨_, u, hu, hv⟩ := bind_ok.1 hrest
            obtain rfl : r.advance 1 = u := by simpa using hu
            exact ((Reader.Past.advance r).trans (hif hv)).mono (by omega)
        · rw [run_ite] at hrest
          split at hrest
          · obtain ⟨_, u, hu, hv⟩ := bind_ok.1 hrest
            obtain rfl : r.advance 1 = u := by simpa using hu
            rw [pure_ok] at hv
            exact hv.2 ▸ .advance r
          · obtain ⟨i, u, hu, hv⟩ := bind_ok.1 hrest
            obtain ⟨is, u', hu', hv'⟩ := bind_ok.1 hv
            rw [pure_ok] at hv'
            exact hv'.2 ▸ ((hinst hu).1.trans (hif hu')).mono (by omega)

/-! ## Fuel -/

theorem withBodies_congr {expr expr' : ReadM (List Instruction)}
    {ifs ifs' : ReadM (List Instruction × List Instruction)} (he : expr.run r = expr'.run r)
    (hi : ifs.run r = ifs'.run r) (d : DirectOp) :
    (withBodies expr ifs d).run r = (withBodies expr' ifs' d).run r := by
  cases d <;> unfold withBodies <;> first | rfl | rw [EStateM.run_bind, EStateM.run_bind, he] |
    rw [EStateM.run_bind, EStateM.run_bind, hi]

theorem next_congr {β : Type} {x x' : ReadM α} {f g : α → ReadM β} (hx : x.run r = x'.run r)
    (h : ∀ a t, x.run r = .ok a t → (f a).run t = (g a).run t) :
    (x >>= f).run r = (x' >>= g).run r := by
  rw [bind_congr_run h, EStateM.run_bind, EStateM.run_bind, hx]

theorem peek_ok {b : Option UInt8} (h : peek.run r = .ok b r') : b = r.data[r.pos]? ∧ r = r' := by
  obtain ⟨h, h'⟩ : r.data[r.pos]? = b ∧ r = r' := by simpa using h
  exact ⟨h.symm, h'⟩

theorem left_pos_of_peek {b : UInt8} (h : some b = r.data[r.pos]?) : 0 < r.left := by
  obtain ⟨hlt, -⟩ := List.getElem?_eq_some_iff.1 h.symm
  unfold Reader.left
  omega

/-- One more unit of fuel changes nothing, once there is enough for the bytes left. -/
theorem tree_fuel_succ : ∀ fuel : Nat,
    (∀ depth r, 2 * Reader.left r ≤ fuel → 0 < fuel →
      (decodeInstructionLoop w fuel depth).run r = (decodeInstructionLoop w (fuel + 1) depth).run r) ∧
    (∀ depth r, 2 * Reader.left r < fuel →
      (decodeExprLoop w fuel depth).run r = (decodeExprLoop w (fuel + 1) depth).run r) ∧
    (∀ depth inElse r, 2 * Reader.left r < fuel →
      (decodeIfLoop w fuel depth inElse).run r = (decodeIfLoop w (fuel + 1) depth inElse).run r)
  | 0 => ⟨fun _ _ _ h => absurd h (Nat.not_lt_zero _), fun _ _ h => absurd h (Nat.not_lt_zero _),
      fun _ _ _ h => absurd h (Nat.not_lt_zero _)⟩
  | fuel + 1 => by
    obtain ⟨hinst, hexpr, hif⟩ := tree_fuel_succ fuel
    refine ⟨fun depth r hr _ => ?_, fun depth r hr => ?_, fun depth inElse r hr => ?_⟩
    · rw [decodeInstructionLoop, decodeInstructionLoop, run_ite, run_ite]
      split
      · rfl
      refine bind_congr_run fun d t hd => ?_
      obtain ⟨hpast, hleft⟩ := decodeOp_past hd
      have hlt := hpast.left_lt (n := 0) hleft
      exact withBodies_congr (hexpr _ _ (by omega)) (hif _ _ _ (by omega)) d
    · rw [decodeExprLoop, decodeExprLoop, run_ite, run_ite]
      split
      · rfl
      refine bind_congr_run fun b t hb => ?_
      obtain ⟨hpeek, rfl⟩ := peek_ok hb
      cases b with
      | none => rfl
      | some b =>
        have hleft := left_pos_of_peek hpeek
        simp only [run_ite]
        split
        · rfl
        refine next_congr (hinst (depth + 1) r (by omega) (by omega)) fun inst u hi => ?_
        have hlt := ((tree_past fuel).1 hi).1.left_lt (n := 0) hleft
        rw [EStateM.run_bind, EStateM.run_bind, hexpr depth u (by omega)]
    · rw [decodeIfLoop, decodeIfLoop]
      refine bind_congr_run fun b t hb => ?_
      obtain ⟨hpeek, rfl⟩ := peek_ok hb
      cases b with
      | none => rfl
      | some b =>
        have hleft := left_pos_of_peek hpeek
        simp only [run_ite]
        split
        · split
          · rfl
          refine bind_congr_run fun _ u hu => ?_
          obtain rfl : r.advance 1 = u := by simpa using hu
          have hlt := (Reader.Past.advance r).left_lt (n := 0) hleft
          exact hif _ _ _ (by omega)
        split
        · rfl
        refine next_congr (hinst (depth + 1) r (by omega) (by omega)) fun inst u hi => ?_
        have hlt := ((tree_past fuel).1 hi).1.left_lt (n := 0) hleft
        rw [EStateM.run_bind, EStateM.run_bind, hif depth inElse u (by omega)]

/-- Any fuel past twice the bytes left gives the same. -/
theorem tree_fuel {fuel : Nat} (h : r.exprFuel ≤ fuel) (depth : Nat) (inElse : Bool) :
    (decodeInstructionLoop w fuel depth).run r = (decodeInstructionLoop w r.exprFuel depth).run r ∧
    (decodeExprLoop w fuel depth).run r = (decodeExprLoop w r.exprFuel depth).run r ∧
    (decodeIfLoop w fuel depth inElse).run r = (decodeIfLoop w r.exprFuel depth inElse).run r := by
  induction h with
  | refl => exact ⟨rfl, rfl, rfl⟩
  | @step fuel hle ih =>
    have hfuel : 2 * r.left + 2 ≤ fuel := hle
    obtain ⟨hinst, hexpr, hif⟩ := tree_fuel_succ (w := w) fuel
    rw [← hinst depth r (by omega) (by omega), ← hexpr depth r (by omega),
      ← hif depth inElse r (by omega)]
    exact ih

/-- An instruction is one operation, then the bodies it opens. -/
theorem decodeInstruction_run {depth : Nat} (h : depth ≤ maxInstructionNestingDepth) :
    (decodeInstructionWithMemargWidths depth w).run r =
      (do withBodies (decodeExprWithMemargWidths (depth + 1) w) (decodeIfBodies (depth + 1) w)
            (← decodeOp invalidInstructionError w) : ReadM Instruction).run r := by
  change (decodeInstructionLoop w (2 * r.left + 1 + 1) depth).run r = _
  rw [decodeInstructionLoop, run_ite, if_neg (by omega)]
  refine bind_congr_run fun d t hd => ?_
  obtain ⟨hpast, hleft⟩ := decodeOp_past hd
  have hlt := hpast.left_lt (n := 0) hleft
  have hfuel : t.exprFuel ≤ 2 * r.left + 1 := by unfold Reader.exprFuel; omega
  obtain ⟨-, hexpr, hif⟩ := tree_fuel (w := w) hfuel (depth + 1) false
  exact withBodies_congr (show _ = (decodeExprWithMemargWidths (depth + 1) w).run t from hexpr)
    (show _ = (decodeIfBodies (depth + 1) w).run t from hif) d

end

/-! ## Main result -/

/-- The read `x` succeeds exactly where the classifier does and its vector fits; then both stop at
the same position, with values related by `R`. -/
structure AcceptsAs {α : Type} (fits : Prop) (R : α → InstructionImmediate → Prop)
    (x : EStateM.Result Err Reader α) (c : EStateM.Result Err ExportReader InstructionImmediate) :
    Prop where
  accepts : (∃ a r, x = .ok a r) ↔ fits ∧ ∃ imm r, c = .ok imm r
  stops : ∀ {a r imm r'}, x = .ok a r → c = .ok imm r' → r.pos = r'.pos ∧ R a imm

section

variable {data : List UInt8} {pos : Nat} {op : UInt8}

theorem byte_at (budget : Option DecodeBudget) (h : data[pos]? = some op) :
    byte.run ⟨data, pos, budget⟩ = .ok op ⟨data, pos + 1, budget⟩ := by
  have hrest : (⟨data, pos, budget⟩ : Reader).rest = op :: data.drop (pos + 1) := by
    obtain ⟨hlt, rfl⟩ := List.getElem?_eq_some_iff.1 h
    exact List.drop_eq_getElem_cons hlt
  exact byte_cons hrest

theorem acceptsAs_of_outcome {α : Type} {fits : Prop} {S : α → DirectOpKind × InstructionImmediate → Prop}
    {x : ReadM α} {w : MemargWidths} {mm : Bool} {r : Reader} (hr : r.data = data) (hpos : r.pos = pos)
    (h : ∀ {s}, r.rest = s.rest → Outcome (Aligned r s) (fun _ => ¬ fits) (fun a p => S a p ∧ fits)
      (x.run r) ((classifyExprOpAfterOpcodeWithWidths op w mm).run s)) :
    AcceptsAs fits (fun a imm => ∃ k s, (classifyExprOpAfterOpcodeWithWidths op w mm).run ⟨data, pos, none⟩ =
        .ok (k, imm) s ∧ S a (k, imm)) (x.run r)
      ((classifyInstructionImmediateIntoWithWidths op w mm).run ⟨data, pos⟩) := by
  have hout := h (s := ⟨data, pos, none⟩) (by simp [Reader.rest, hr, hpos])
  have hcls := classifyInstruction_outcome op w mm data pos
  constructor
  · constructor
    · rintro ⟨a, r', hx⟩
      obtain ⟨p, s', hs', -, -, hfits⟩ := hout.of_left hx
      obtain ⟨imm, er, her, -, -⟩ | ⟨_, _, _, hF⟩ := hcls.of_right hs'
      · exact ⟨hfits, imm, er, her⟩
      · exact hF.elim
    · rintro ⟨hfits, imm, er, her⟩
      obtain ⟨p, s', hs', -, -⟩ := hcls.of_left her
      obtain ⟨a, r', hx, -, -⟩ | ⟨_, _, _, hF⟩ := hout.of_right hs'
      · exact ⟨a, r', hx⟩
      · exact absurd hfits hF
  · intro a r' imm er hx her
    obtain ⟨p, s', hs', hpe, rfl⟩ := hcls.of_left her
    obtain ⟨p', s'', hs'', hI, hS, -⟩ := hout.of_left hx
    obtain ⟨rfl, rfl⟩ : p = p' ∧ s' = s'' := by simpa [hs'] using hs''
    exact ⟨(hI.pos_eq hpos).trans hpe.symm, p.1, s', hs', hS⟩

end

/-- Skipping, classifying and decoding one instruction whose opcode is at `pos`. The skipper and the
classifier end alike, also when they fail. The operation decoder accepts what they accept and fits
its budget, with the same stop and what the classifier reports, the structural kind included; the full
decoder is the operation decoder followed by the bodies, so it agrees with them on every opcode that
opens or closes no body. -/
theorem walkers_agree (data : List UInt8) (pos : Nat) (op : UInt8) (w : MemargWidths) (mm : Bool)
    (budget : Option DecodeBudget) (depth : Nat) (hop : data[pos]? = some op)
    (hdepth : depth ≤ maxInstructionNestingDepth) :
    let r : Reader := ⟨data, pos, budget⟩
    let skip := (skipInstructionImmediateWithWidths op w mm).run ⟨data, pos + 1⟩
    let classify := (classifyInstructionImmediateIntoWithWidths op w mm).run ⟨data, pos + 1⟩
    let structural := (classifyExprOpAfterOpcodeWithWidths op w mm).run ⟨data, pos + 1, none⟩
    let full := (decodeInstructionWithMemargWidths depth { w with multiMemory := mm }).run r
    let fits := ImmediateFits op ⟨data, pos + 1, budget⟩
    skip = discardResult classify ∧
    AcceptsAs fits (fun d imm => ∃ k s, structural = .ok (k, imm) s ∧ ReportsDirect d (k, imm))
      ((decodeDirectOp w mm).run r) classify ∧
    (∀ inst r', full = .ok inst r' ↔ ∃ d t, (decodeDirectOp w mm).run r = .ok d t ∧
      (withBodies (decodeExprWithMemargWidths (depth + 1) { w with multiMemory := mm })
        (decodeIfBodies (depth + 1) { w with multiMemory := mm }) d).run t = .ok inst r') ∧
    (op.toNat ∉ structuralOpcodes →
      AcceptsAs fits (fun inst imm => ∃ i, inst = .plain i ∧ Reports i imm) full classify) := by
  intro r skip classify structural full fits
  have hfull : ∀ inst r', full = .ok inst r' ↔ ∃ d t, (decodeDirectOp w mm).run r = .ok d t ∧
      (withBodies (decodeExprWithMemargWidths (depth + 1) { w with multiMemory := mm })
        (decodeIfBodies (depth + 1) { w with multiMemory := mm }) d).run t = .ok inst r' := by
    intro inst r'
    rw [show full = _ from decodeInstruction_run hdepth, bind_ok]
    exact ⟨fun ⟨d, t, hd, hb⟩ => ⟨d, t, decodeOp_ok hd, hb⟩,
      fun ⟨d, t, hd, hb⟩ => ⟨d, t, decodeOp_ok hd, hb⟩⟩
  have hdirect : AcceptsAs fits (fun d imm => ∃ k s, structural = .ok (k, imm) s ∧ ReportsDirect d (k, imm))
      ((decodeDirectOp w mm).run r) classify := by
    rw [show (decodeDirectOp w mm).run r = _ from bind_of_ok (byte_at budget hop)]
    exact acceptsAs_of_outcome rfl rfl fun hrest =>
      decodeOp_outcome directInvalid op w mm (Aligned.refl hrest)
  refine ⟨skipInstruction_eq_classify op w mm _, hdirect, hfull, fun hplain => ?_⟩
  have hrun : full = (do return .plain (← decodePlain invalidInstructionError
      { w with multiMemory := mm } op) : ReadM Instruction).run ⟨data, pos + 1, budget⟩ := by
    rw [show full = _ from decodeInstruction_run hdepth]
    unfold decodeOp
    rw [bind_assoc, bind_of_ok (byte_at budget hop), decodeOpAfterOpcode_plain hplain]
    simp only [bind_assoc, pure_bind, withBodies]
  have hagree : AcceptsAs fits (fun inst imm => ∃ k s, structural = .ok (k, imm) s ∧
      ∃ i, inst = .plain i ∧ ReportsOp i (k, imm)) full classify := by
    rw [hrun]
    refine acceptsAs_of_outcome (r := ⟨data, pos + 1, budget⟩)
      (S := fun inst p => ∃ i, inst = Instruction.plain i ∧ ReportsOp i p) rfl rfl fun {s} hrest => ?_
    rw [← bind_pure (classifyExprOpAfterOpcodeWithWidths op w mm)]
    exact (decodePlain_outcome invalidInstructionError op w mm hplain (Aligned.refl hrest)).bind
      fun i p _ _ _ _ hI h => .ok hI ⟨⟨i, rfl, h.1⟩, h.2⟩
  refine ⟨hagree.accepts, fun hx hc => ?_⟩
  obtain ⟨hpos, _, _, _, i, hi, hrep⟩ := hagree.stops hx hc
  exact ⟨hpos, i, hi, hrep.2⟩

/-- A load with an indexed memory argument: all three walkers stop behind it, and the report is the
decoded instruction. -/
theorem walkers_agree_indexedLoad :
    (skipInstructionImmediateWithWidths 0x28 (fixedMemargWidths true) true).run
      ⟨[0x28, 0x42, 0x01, 0x90, 0x03], 1⟩ = .ok () ⟨[0x28, 0x42, 0x01, 0x90, 0x03], 5⟩ ∧
    AcceptsAs (ImmediateFits 0x28 ⟨[0x28, 0x42, 0x01, 0x90, 0x03], 1, none⟩)
      (fun inst imm => ∃ i, inst = .plain i ∧ Reports i imm)
      ((decodeInstructionWithMemargWidths 0 (fixedMemargWidths true)).run
        ⟨[0x28, 0x42, 0x01, 0x90, 0x03], 0, none⟩)
      ((classifyInstructionImmediateIntoWithWidths 0x28 (fixedMemargWidths true) true).run
        ⟨[0x28, 0x42, 0x01, 0x90, 0x03], 1⟩) :=
  have h := walkers_agree [0x28, 0x42, 0x01, 0x90, 0x03] 0 0x28 (fixedMemargWidths true) true none 0
    rfl (by decide)
  ⟨by rw [h.1]; rfl, h.2.2.2 (by decide)⟩

/-- `end` has no immediates, so the skipper and the classifier accept it; the full decoder does not,
since it is no instruction. -/
theorem walkers_disagree_end :
    (skipInstructionImmediateWithWidths 0x0b (fixedMemargWidths false) false).run ⟨[0x0b], 1⟩ =
      .ok () ⟨[0x0b], 1⟩ ∧
    (classifyInstructionImmediateIntoWithWidths 0x0b (fixedMemargWidths false) false).run ⟨[0x0b], 1⟩ =
      .ok {} ⟨[0x0b], 1⟩ ∧
    (decodeInstructionWithMemargWidths 0 { fixedMemargWidths false with multiMemory := false }).run
      ⟨[0x0b], 0, none⟩ =
      .error (.decode { code := .invalidInstruction, offset := 0 }) ⟨[0x0b], 1, none⟩ :=
  ⟨rfl, rfl, rfl⟩

end Wago.Wasm
