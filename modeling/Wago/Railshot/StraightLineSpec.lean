/-
Widened bounds checks against the program they belong to. The lookahead compares the raw indices of
the bytecode with the index of the operand in the frame, so it is right exactly where the two number
the variables alike: for globals, and for locals of a body that starts at the bottom of the frame.
-/
import Mathlib.Tactic.Common
import Wago.Railshot.StraightLine
import Wago.Wasm.Leb

namespace Wago.Railshot

open Wago.Wasm (ExportReader ExportReadM Err)
open Wago.Wasm.ExportReader (byte u32 i32 i64)

/-! ## Reading moves forward -/

/-- A successful read leaves at most the bytes that were left before it. -/
def Consumes {α : Type} (m : ExportReadM α) : Prop :=
  ∀ (r r' : ExportReader) (v : α), m.run r = .ok v r' → r'.rest.length ≤ r.rest.length

theorem Consumes.pure {α : Type} (v : α) : Consumes (pure v : ExportReadM α) := by
  intro r r' w h
  obtain ⟨-, rfl⟩ := Run.pure_ok.1 h
  exact le_rfl

theorem Consumes.bind {α β : Type} {m : ExportReadM α} {k : α → ExportReadM β} (hm : Consumes m)
    (hk : ∀ v, Consumes (k v)) : Consumes (m >>= k) := by
  intro r r' w h
  obtain ⟨v, r₁, hv, hw⟩ := Run.bind_ok.1 h
  exact (hk v _ _ _ hw).trans (hm _ _ _ hv)

theorem Consumes.of_reads {α : Type} {m : ExportReadM α} {G : List UInt8 → α → Prop}
    (h : Wasm.Reads ExportReader.rest ExportReader.advance m G) : Consumes m := by
  intro r r' v hv
  obtain ⟨k, -, rfl⟩ := (h r r' v).1 hv
  simp

theorem consumes_u32 : Consumes u32 := .of_reads ExportReader.u32_reads

theorem consumes_memArg : Consumes readMemArg32 := by
  have hoff (memoryIndex : Nat) : Consumes (do return (memoryIndex, ← u32)) :=
    consumes_u32.bind fun _ => .pure _
  refine consumes_u32.bind fun align => ?_
  dsimp only
  split
  · exact consumes_u32.bind hoff
  · exact (Consumes.pure 0).bind hoff

theorem consumes_plain (op : UInt8) : Consumes (skipPlainImmediate op) := by
  unfold skipPlainImmediate
  split
  · exact .of_reads ExportReader.i32_reads
  split
  · exact .of_reads ExportReader.i64_reads
  · exact .pure 0

theorem byte_ok {r r' : ExportReader} {op : UInt8} (h : byte.run r = .ok op r') :
    r'.rest.length < r.rest.length := by
  rcases hr : r.rest with _ | ⟨b, bs⟩
  · rw [ExportReader.byte_nil hr] at h
    cases h
  · rw [ExportReader.byte_cons hr] at h
    cases h
    simp [hr]

/-- What follows the opcode in `readSourceOp`. -/
def readOperands (op : UInt8) : ExportReadM SourceOp :=
  if op = 0x20 then return .localGet (← u32)
  else if op = 0x23 then return .globalGet (← u32)
  else if op = 0x21 then return .localSet (← u32)
  else if op = 0x22 then return .localTee (← u32)
  else if isScalarLoad op then do
    let (memoryIndex, off) ← readMemArg32
    return if memoryIndex = 0 then .load op off else .barrier op
  else if (plainArity op).isSome then return .plain op (← skipPlainImmediate op)
  else return .barrier op

theorem readSourceOp_eq : readSourceOp = byte >>= readOperands := rfl

theorem consumes_operands (op : UInt8) : Consumes (readOperands op) := by
  unfold readOperands
  split_ifs
  · exact consumes_u32.bind fun _ => .pure _
  · exact consumes_u32.bind fun _ => .pure _
  · exact consumes_u32.bind fun _ => .pure _
  · exact consumes_u32.bind fun _ => .pure _
  · exact consumes_memArg.bind fun _ => .pure _
  · exact (consumes_plain op).bind fun _ => .pure _
  · exact .pure _

theorem readSourceOp_consumes {r r' : ExportReader} {op : SourceOp}
    (h : readSourceOp.run r = .ok op r') : r'.rest.length < r.rest.length := by
  rw [readSourceOp_eq] at h
  obtain ⟨b, r₁, hb, hop⟩ := Run.bind_ok.1 h
  exact (consumes_operands b _ _ _ hop).trans_lt (byte_ok hb)

theorem sourceOpsLoop_enough : ∀ (n : Nat) (r : ExportReader), r.rest.length ≤ n →
    sourceOpsLoop n r = sourceOps r
  | 0, r, h => by
    rw [sourceOps, Nat.le_zero.1 h]
  | n + 1, r, h => by
    rcases hlen : r.rest.length with _ | m
    · -- No byte is left, so the next instruction cannot be read.
      have herr : ∀ op r', readSourceOp.run r ≠ .ok op r' := fun op r' hr => by
        have := readSourceOp_consumes hr
        omega
      rw [sourceOps, hlen, sourceOpsLoop, sourceOpsLoop]
      cases hr : readSourceOp.run r with
      | error e r' => rfl
      | ok op r' => exact absurd hr (herr op r')
    · rw [sourceOps, hlen, sourceOpsLoop, sourceOpsLoop]
      cases hr : readSourceOp.run r with
      | error e r' => rfl
      | ok op r' =>
        have hlt := readSourceOp_consumes hr
        have hn := sourceOpsLoop_enough n r' (by omega)
        have hm := sourceOpsLoop_enough m r' (by omega)
        cases op <;> simp only [hn, hm]

/-- An instruction that is no barrier is followed by what the reader finds behind it. -/
theorem sourceOps_cons {r r' : ExportReader} {op : SourceOp} (h : readSourceOp.run r = .ok op r')
    (hop : op.isBarrier = false) : sourceOps r = op :: sourceOps r' := by
  have hlt := readSourceOp_consumes h
  obtain ⟨m, hm⟩ : ∃ m, r.rest.length = m + 1 := ⟨r.rest.length - 1, by omega⟩
  rw [sourceOps, hm, sourceOpsLoop, h]
  have hrest := sourceOpsLoop_enough m r' (by omega)
  cases op with
  | barrier op => cases hop
  | _ => simp only [hrest]

/-! ## The lookahead follows the source -/

theorem plainArity_of_straightLine (op : UInt8) (h : straightLinePlain op = true) :
    (plainArity op).isSome = true := by
  have hall : ∀ b : Fin 256, straightLinePlain (UInt8.ofFin b) = true →
      (plainArity (UInt8.ofFin b)).isSome = true := by decide +kernel
  exact hall op.toFin h

/-- How the lookahead takes an instruction: it is no barrier and does not write the variable `src` as
the raw indices have it, the variable it reads is remembered, and the extent grows only at a load
that directly follows a read of `src`. -/
structure Scans (src prev prev' : SourceKind × Nat) (extent extent' : Nat) (op : SourceOp) : Prop where
  not_barrier : op.isBarrier = false
  not_writes : op.writes 0 ≠ some src
  prev_eq : prev' = (op.reads 0).getD (.none, 0)
  extent_eq : extent' = extent ∨
    ∃ lop off, op = .load lop off ∧ prev = src ∧ extent' = off + memAccessSize lop ∧ extent < extent'

/-- One iteration stops with the extent it has, or takes the next instruction. -/
theorem straightLineLoop_step (kind : SourceKind) (idx n : Nat) (scan : ExportReader)
    (prevKind : SourceKind) (prevIdx extent : Nat) :
    straightLineLoop kind idx (n + 1) scan prevKind prevIdx extent = extent ∨
    ∃ op scan' prevKind' prevIdx' extent', readSourceOp.run scan = .ok op scan' ∧
      Scans (kind, idx) (prevKind, prevIdx) (prevKind', prevIdx') extent extent' op ∧
      straightLineLoop kind idx (n + 1) scan prevKind prevIdx extent =
        straightLineLoop kind idx n scan' prevKind' prevIdx' extent' := by
  rw [straightLineLoop, readSourceOp_eq]
  cases hb : byte.run scan with
  | error => exact .inl rfl
  | ok b r =>
    simp only [Run.bind_of_ok hb]
    unfold readOperands
    by_cases h20 : b = 0x20
    · simp only [if_pos h20]
      cases hx : u32.run r with
      | error => exact .inl rfl
      | ok x r' =>
        exact .inr ⟨.localGet x, r', .localVar, x, extent, Run.bind_of_ok hx,
          ⟨rfl, by simp [SourceOp.writes], by simp [SourceOp.reads], .inl rfl⟩, rfl⟩
    by_cases h23 : b = 0x23
    · simp only [if_neg h20, if_pos h23]
      cases hx : u32.run r with
      | error => exact .inl rfl
      | ok x r' =>
        exact .inr ⟨.globalGet x, r', .globalVar, x, extent, Run.bind_of_ok hx,
          ⟨rfl, by simp [SourceOp.writes], by simp [SourceOp.reads], .inl rfl⟩, rfl⟩
    by_cases hset : b = 0x21 ∨ b = 0x22
    · simp only [if_neg h20, if_neg h23, if_pos hset]
      cases hx : u32.run r with
      | error => exact .inl rfl
      | ok x r' =>
        by_cases hw : kind = .localVar ∧ x = idx
        · exact .inl (if_pos hw)
        · right
          rcases hset with h | h
          · exact ⟨.localSet x, r', .none, 0, extent, by simp [h, hx],
              ⟨rfl, by simpa [SourceOp.writes, eq_comm] using hw, rfl, .inl rfl⟩, if_neg hw⟩
          · exact ⟨.localTee x, r', .none, 0, extent, by simp [h, hx],
              ⟨rfl, by simpa [SourceOp.writes, eq_comm] using hw, rfl, .inl rfl⟩, if_neg hw⟩
    obtain ⟨h21, h22⟩ := not_or.1 hset
    by_cases hload : isScalarLoad b = true
    · simp only [if_neg h20, if_neg h23, if_neg hset, if_neg h21, if_neg h22, if_pos hload]
      cases hm : readMemArg32.run r with
      | error => exact .inl rfl
      | ok v r' =>
        obtain ⟨memoryIndex, off⟩ := v
        by_cases hmem : memoryIndex = 0
        · subst hmem
          have hop : (do let (memoryIndex, off) ← readMemArg32
                         return if memoryIndex = 0 then SourceOp.load b off else .barrier b).run r =
              .ok (.load b off) r' := Run.bind_of_ok hm
          simp only [ne_eq, not_true_eq_false, if_false]
          split
          case isTrue hprev =>
            split
            · exact .inl rfl
            · refine .inr ⟨.load b off, r', .none, 0, _, hop,
                ⟨rfl, by simp [SourceOp.writes], rfl, ?_⟩, rfl⟩
              split
              · exact .inr ⟨b, off, rfl, by rw [hprev.1, hprev.2], rfl, ‹_›⟩
              · exact .inl rfl
          case isFalse =>
            exact .inr ⟨.load b off, r', .none, 0, extent, hop,
              ⟨rfl, by simp [SourceOp.writes], rfl, .inl rfl⟩, rfl⟩
        · exact .inl (if_pos hmem)
    by_cases hplain : straightLinePlain b = true
    · simp only [if_neg h20, if_neg h23, if_neg hset, if_neg h21, if_neg h22, if_neg hload,
        if_pos hplain, if_pos (plainArity_of_straightLine b hplain)]
      cases hx : (skipPlainImmediate b).run r with
      | error => exact .inl rfl
      | ok imm r' =>
        exact .inr ⟨.plain b imm, r', .none, 0, extent, Run.bind_of_ok hx,
          ⟨rfl, by simp [SourceOp.writes], rfl, .inl rfl⟩, rfl⟩
    · simp only [if_neg h20, if_neg h23, if_neg hset, if_neg hload, if_neg hplain, true_or]

theorem straightLineLoop_le (kind : SourceKind) (idx : Nat) : ∀ (n : Nat) (scan : ExportReader)
    (prevKind : SourceKind) (prevIdx extent : Nat),
    extent ≤ straightLineLoop kind idx n scan prevKind prevIdx extent
  | 0, _, _, _, _ => le_rfl
  | n + 1, scan, prevKind, prevIdx, extent => by
    rcases straightLineLoop_step kind idx n scan prevKind prevIdx extent with
      h | ⟨op, scan', pk, pi, extent', -, hscan, h⟩
    · exact h.ge
    · have hrest := straightLineLoop_le kind idx n scan' pk pi extent'
      rw [h]
      rcases hscan.extent_eq with he | ⟨-, -, -, -, -, hlt⟩
      · exact he ▸ hrest
      · exact hlt.le.trans hrest

theorem LaterLoad.cons {base : Nat} {src : SourceKind × Nat} {op : SourceOp} {ops : List SourceOp}
    {extent : Nat} (hb : op.isBarrier = false) (hw : op.writes base ≠ some src)
    (h : LaterLoad base src ops extent) : LaterLoad base src (op :: ops) extent := by
  obtain ⟨before, get, lop, off, after, rfl, hbefore, hget, hextent⟩ := h
  refine ⟨op :: before, get, lop, off, after, rfl, ?_, hget, hextent⟩
  intro o ho
  rcases List.mem_cons.1 ho with rfl | ho
  · exact ⟨hb, hw⟩
  · exact hbefore o ho

/-- A larger extent is that of a load at the cursor, when the instruction before the cursor read the
variable, or of a later load. -/
theorem straightLineLoop_found {kind : SourceKind} {idx : Nat} (hkind : kind ≠ .none) :
    ∀ (n : Nat) (scan : ExportReader) (prevKind : SourceKind) (prevIdx extent : Nat),
    extent < straightLineLoop kind idx n scan prevKind prevIdx extent →
    ((prevKind, prevIdx) = (kind, idx) ∧ ∃ op off after, sourceOps scan = .load op off :: after ∧
      straightLineLoop kind idx n scan prevKind prevIdx extent = off + memAccessSize op) ∨
    LaterLoad 0 (kind, idx) (sourceOps scan)
      (straightLineLoop kind idx n scan prevKind prevIdx extent)
  | 0, _, _, _, _, h => absurd h (lt_irrefl _)
  | n + 1, scan, prevKind, prevIdx, extent, h => by
    rcases straightLineLoop_step kind idx n scan prevKind prevIdx extent with
      hstop | ⟨op, scan', pk, pi, extent', hread, hscan, hloop⟩
    · omega
    have hops := sourceOps_cons hread hscan.not_barrier
    have hle := straightLineLoop_le kind idx n scan' pk pi extent'
    rw [hloop] at h ⊢
    rw [hops]
    rcases hle.eq_or_lt with heq | hlt
    · -- The last load that raised the extent is the one at the cursor.
      rcases hscan.extent_eq with he | ⟨lop, off, rfl, hprev, hextent, -⟩
      · omega
      · exact .inl ⟨hprev, lop, off, _, rfl, by omega⟩
    · right
      rcases straightLineLoop_found hkind n scan' pk pi extent' hlt with
        ⟨hprev, lop, off, after, hafter, hextent⟩ | hlater
      · -- The load directly behind this instruction, which therefore is the read of the variable.
        have hget : op.reads 0 = some (kind, idx) := by
          have := hscan.prev_eq.symm.trans hprev
          cases hr : op.reads 0 with
          | none =>
            rw [hr] at this
            exact absurd (congrArg Prod.fst this).symm hkind
          | some v => rw [hr] at this; exact congrArg some this
        exact ⟨[], op, lop, off, after, by rw [hafter]; rfl, by simp, hget, hextent⟩
      · exact hlater.cons hscan.not_barrier hscan.not_writes

/-- A later load by the raw indices, seen from the frame: `src'` is what `src` names there. -/
theorem LaterLoad.rebase {base : Nat} {src src' : SourceKind × Nat} {ops : List SourceOp} {extent : Nat}
    (hreads : ∀ o : SourceOp, o.reads 0 = some src → o.reads base = some src')
    (hwrites : ∀ o : SourceOp, o.writes base = some src' → o.writes 0 = some src)
    (h : LaterLoad 0 src ops extent) : LaterLoad base src' ops extent := by
  obtain ⟨before, get, lop, off, after, rfl, hbefore, hget, hextent⟩ := h
  refine ⟨before, get, lop, off, after, rfl, ?_, hreads get hget, hextent⟩
  intro o ho
  exact ⟨(hbefore o ho).1, fun hw => (hbefore o ho).2 (hwrites o hw)⟩

theorem LaterLoad.of_local {base idx : Nat} {ops : List SourceOp} {extent : Nat}
    (h : LaterLoad 0 (.localVar, idx) ops extent) : LaterLoad base (.localVar, base + idx) ops extent := by
  apply h.rebase
  · intro o ho
    cases o <;> simp_all [SourceOp.reads]
  · intro o ho
    cases o <;> simp_all [SourceOp.writes]

/-- Globals have the same index in a spliced body and in its caller. -/
theorem LaterLoad.of_global {base idx : Nat} {ops : List SourceOp} {extent : Nat}
    (h : LaterLoad 0 (.globalVar, idx) ops extent) : LaterLoad base (.globalVar, idx) ops extent := by
  apply h.rebase
  · intro o ho
    cases o <;> simp_all [SourceOp.reads]
  · intro o ho
    cases o <;> simp_all [SourceOp.writes]

/-! ## A failed check is a trap of the program -/

namespace Machine

variable {M : Machine} {σ : Frame} {src : SourceKind × Nat} {op : SourceOp}

/-- An instruction that is no barrier and does not write the variable keeps its value, or the
program ends in a memory trap. -/
theorem step_keeps (hb : op.isBarrier = false) (hw : op.writes M.base ≠ some src) :
    (∃ σ', M.step σ op = .next σ' ∧ σ'.source src = σ.source src) ∨
      M.step σ op = .outOfBounds ∨ M.step σ op = .stuck := by
  have hset (x : Nat) (v : UInt64) (stack : List UInt64) (hx : (SourceKind.localVar, M.base + x) ≠ src) :
      Frame.source ⟨stack, fun y => if y = M.base + x then v else σ.locals y, σ.globals⟩ src =
        σ.source src := by
    obtain ⟨_ | _ | _, y⟩ := src
    · rfl
    · have hy : y ≠ M.base + x := fun h => hx (by rw [h])
      simp [Frame.source, hy]
    · rfl
  have hsame (stack : List UInt64) : Frame.source { σ with stack } src = σ.source src := by
    obtain ⟨_ | _ | _, y⟩ := src <;> rfl
  cases op with
  | localGet x => exact .inl ⟨_, rfl, hsame _⟩
  | globalGet x => exact .inl ⟨_, rfl, hsame _⟩
  | localSet x =>
    rcases hs : σ.stack with _ | ⟨v, stack⟩
    · simp [step, hs]
    · exact .inl ⟨_, by simp only [step, hs], hset x v stack (by simpa [SourceOp.writes] using hw)⟩
  | localTee x =>
    rcases hs : σ.stack with _ | ⟨v, stack⟩
    · simp [step, hs]
    · exact .inl ⟨_, by simp only [step, hs]; rfl, hset x v _ (by simpa [SourceOp.writes] using hw)⟩
  | load lop off =>
    rcases hs : σ.stack with _ | ⟨v, stack⟩
    · simp [step, hs]
    · by_cases hoob : address v + off + memAccessSize lop > M.memBytes
      · simp [step, hs, hoob]
      · exact .inl ⟨_, by simp only [step, hs, if_neg hoob]; rfl, hsame _⟩
  | plain pop imm =>
    rcases ha : plainArity pop with _ | ⟨operands, results⟩
    · simp [step, ha]
    · by_cases hlen : σ.stack.length < operands
      · simp [step, ha, hlen]
      · exact .inl ⟨_, by simp only [step, ha, if_neg hlen]; rfl, hsame _⟩
  | barrier => cases hb

theorem run_next {ops : List SourceOp} {σ' : Frame} (h : M.step σ op = .next σ') :
    M.run (op :: ops) σ = M.run ops σ' := by
  rw [run, h]

/-- Code that reaches a later load of the variable, whose extent lies outside the memory, traps. -/
theorem run_laterLoad {ops : List SourceOp} {extent : Nat}
    (h : LaterLoad M.base src ops extent) (hoob : M.memBytes < address (σ.source src) + extent)
    (hns : M.run ops σ ≠ .stuck) : M.run ops σ = .outOfBounds := by
  obtain ⟨before, get, lop, off, after, rfl, hbefore, hget, rfl⟩ := h
  induction before generalizing σ with
  | nil =>
    -- The read pushes the variable, and the load behind it takes it as its address.
    have hstep : M.step σ get = .next { σ with stack := σ.source src :: σ.stack } := by
      cases get <;> simp only [SourceOp.reads, Option.some.injEq, reduceCtorEq] at hget <;>
        subst hget <;> rfl
    have hload : M.step { σ with stack := σ.source src :: σ.stack } (.load lop off) = .outOfBounds :=
      if_pos (by omega)
    rw [List.nil_append, run_next hstep, run, hload]
  | cons o before ih =>
    obtain ⟨hob, how⟩ := hbefore o (by simp)
    rw [List.cons_append] at *
    rcases step_keeps hob how with ⟨σ', hstep, hsame⟩ | hstep | hstep
    · rw [run_next hstep] at *
      exact ih hns (fun o ho => hbefore o (by simp [ho])) (by rwa [hsame])
    · rw [run, hstep]
    · rw [run, hstep] at hns
      exact absurd rfl hns

end Machine

/-! ## Where widening is sound -/

theorem memLoadCheck_widened {f : FnBounds} {r : ExportReader} {top : Elem} {off size extent : Nat}
    (h : f.memLoadCheck r top off size = some extent) (hlt : off + size < extent) :
    top.boundsSource.1 ≠ .none ∧
      extent = straightLineLoadExtent r top.boundsSource.1 top.boundsSource.2 (off + size) := by
  have hextent : f.memLoadRangeExtent r top off size = extent := by
    unfold FnBounds.memLoadCheck FnBounds.memAddrExtent at h
    dsimp only at h
    split_ifs at h <;> simp only [Option.some.injEq] at h <;> omega
  unfold FnBounds.memLoadRangeExtent at hextent
  split at hextent
  · dsimp only at hextent
    split at hextent
    case isTrue hkind => exact ⟨hkind.1, hextent.symm⟩
    case isFalse => omega
  · omega

/-- The later load, by the raw indices of the body. -/
theorem laterLoad_of_widened {f : FnBounds} {r : ExportReader} {top : Elem} {off size extent : Nat}
    (h : f.memLoadCheck r top off size = some extent) (hlt : off + size < extent) :
    LaterLoad 0 top.boundsSource (sourceOps r) extent := by
  obtain ⟨hkind, hextent⟩ := memLoadCheck_widened h hlt
  rw [hextent] at hlt ⊢
  rcases straightLineLoop_found hkind _ _ _ _ _ hlt with ⟨hprev, -⟩ | hlater
  · exact absurd (congrArg Prod.fst hprev).symm hkind
  · exact hlater

theorem wideningSound_of {base : UInt32} {kind : SourceKind} (h : base = 0 ∨ kind ≠ .localVar) :
    WideningSound base kind := by
  intro f r top op off extent _ _ htop hcheck hlt
  have hkind := (memLoadCheck_widened hcheck hlt).1
  have hlater : LaterLoad base.toNat top.boundsSource (sourceOps r) extent := by
    have hraw := laterLoad_of_widened hcheck hlt
    rcases hsrc : top.boundsSource with ⟨k, idx⟩
    rw [hsrc] at hraw htop hkind
    cases k with
    | none => exact absurd rfl hkind
    | localVar =>
      rw [h.resolve_right (by simp [← htop])]
      exact hraw
    | globalVar => exact hraw.of_global
  refine ⟨hlater, fun M σ stack hbase hstack hoob hns => ?_⟩
  -- The load itself traps, or leaves the variables as they are for the later load.
  have hw : (SourceOp.load op off).writes M.base ≠ some top.boundsSource := by simp [SourceOp.writes]
  rcases Machine.step_keeps (σ := σ) rfl hw with ⟨σ', hstep, hsame⟩ | hstep | hstep
  · rw [Machine.run_next hstep] at *
    exact Machine.run_laterLoad (hbase ▸ hlater) (by rwa [hsame]) hns
  · rw [Machine.run, hstep]
  · rw [Machine.run, hstep] at hns
    exact absurd rfl hns

/-! ## Where it is not -/

/-- The rest of a body behind its first load, `local.get 0; i32.load`: a load at offset `100` from the
local with the given index. -/
def splicedRest (x : UInt32) : ExportReader :=
  ⟨Wasm.appendU32 [0x20] x.toNat ++ [0x28, 0x02, 0x64, 0x0b], 0⟩

theorem u32_one {r : ExportReader} {b : UInt8} {bs : List UInt8} (h : r.rest = b :: bs)
    (hb : b.toNat < 128) : u32.run r = .ok b.toNat (r.advance 1) :=
  (ExportReader.u32_reads _ _ _).2 ⟨1, by rw [h, Wasm.starts_unsigned_one hb]; exact ⟨rfl, rfl⟩, rfl⟩

/-- The reads of the lookahead over such a rest. -/
theorem splicedRest_reads (x : UInt32) : ∃ r₁ r₂ r₃ r₄ r₅ : ExportReader,
    byte.run (splicedRest x) = .ok 0x20 r₁ ∧ u32.run r₁ = .ok x.toNat r₂ ∧
    byte.run r₂ = .ok 0x28 r₃ ∧ readMemArg32.run r₃ = .ok (0, 100) r₄ ∧ byte.run r₄ = .ok 0x0b r₅ := by
  obtain ⟨enc, happ, henc⟩ := Wasm.appendU32Loop_spec 5 32 [0x20] x.toNat_lt (by omega) (by omega)
  have hrest : (splicedRest x).rest = 0x20 :: (enc ++ [0x28, 0x02, 0x64, 0x0b]) := by
    simp only [splicedRest, ExportReader.rest, Wasm.appendU32, happ]
    simp
  generalize splicedRest x = r at hrest
  have h₁ : (r.advance 1).rest = enc ++ [0x28, 0x02, 0x64, 0x0b] := by simp [hrest]
  have h₂ : (r.advance (1 + enc.length)).rest = [0x28, 0x02, 0x64, 0x0b] := by
    rw [ExportReader.rest_advance, hrest, Nat.add_comm, List.drop_succ_cons, List.drop_left]
  generalize hr₂ : r.advance (1 + enc.length) = r₂ at h₂
  refine ⟨r.advance 1, r₂, r₂.advance 1, r₂.advance 3, r₂.advance 4, ExportReader.byte_cons hrest, ?_,
    ExportReader.byte_cons h₂, ?_, ?_⟩
  · refine (ExportReader.u32_reads _ _ _).2 ⟨enc.length, ?_, by rw [← hr₂]; simp⟩
    rw [h₁]
    exact ⟨by simp, by rwa [List.take_left]⟩
  · have halign : u32.run (r₂.advance 1) = .ok 2 (r₂.advance 2) :=
      u32_one (show _ = 0x02 :: [0x64, 0x0b] by simp [h₂]) (by decide)
    have hoff : u32.run (r₂.advance 2) = .ok 100 (r₂.advance 3) :=
      u32_one (show _ = 0x64 :: [0x0b] by simp [h₂]) (by decide)
    simp [readMemArg32, halign, hoff]
  · exact ExportReader.byte_cons (show _ = 0x0b :: [] by simp [h₂])

/-- The function state in which nothing else decides about the check. -/
def splicedFn (base : UInt32) : FnBounds where
  guardMode := false
  boundsFacts := true
  threadedMemory0 := false
  optMemoryMinimumBounds := false
  optMultiBoundsCert := true
  m := {}
  boundsCerts := {}
  ctrl := []
  linearSumLoop := 0
  linearSumLoopDepth := 0
  localBase := base

/-- The operand `local.get 0` of a body spliced at `base`. -/
def splicedTop (base : UInt32) : Elem := .value { kind := .localRef, typ := .i32, idx := base }

theorem splicedRest_extent (base : UInt32) :
    (splicedFn base).memLoadCheck (splicedRest base) (splicedTop base) 0 4 = some 104 := by
  obtain ⟨r₁, r₂, r₃, r₄, r₅, hget, hx, hload, harg, hend⟩ := splicedRest_reads base
  have hextent : straightLineLoadExtent (splicedRest base) .localVar base.toNat 4 = 104 := by
    change straightLineLoop .localVar base.toNat (4093 + 1 + 1 + 1) _ .none 0 4 = 104
    simp [straightLineLoop, hget, hx, hload, harg, hend, isScalarLoad, straightLinePlain,
      memAccessSize]
  simp [FnBounds.memLoadCheck, FnBounds.memAddrExtent, FnBounds.memLoadRangeExtent, splicedFn,
    splicedTop, Elem.boundsSource, boundsSource, minimumMemoryAccess, FnBounds.boundsCertCovers,
    Certs.BoundsCerts.boundsCertCovers, FnBounds.hoistedLoopBoundsCover, hextent]

theorem splicedRest_ops (x : UInt32) :
    sourceOps (splicedRest x) = .localGet x.toNat :: .load 0x28 100 :: [.barrier 0x0b] := by
  obtain ⟨r₁, r₂, r₃, r₄, r₅, hget, hx, hload, harg, hend⟩ := splicedRest_reads x
  have h₁ : readSourceOp.run (splicedRest x) = .ok (.localGet x.toNat) r₂ := by
    rw [readSourceOp_eq, Run.bind_of_ok hget]
    simp [readOperands, hx]
  have h₂ : readSourceOp.run r₂ = .ok (.load 0x28 100) r₄ := by
    rw [readSourceOp_eq, Run.bind_of_ok hload]
    simp [readOperands, isScalarLoad, harg]
  have h₃ : readSourceOp.run r₄ = .ok (.barrier 0x0b) r₅ := by
    rw [readSourceOp_eq, Run.bind_of_ok hend]
    rfl
  rw [sourceOps_cons h₁ rfl, sourceOps_cons h₂ rfl]
  obtain ⟨n, hn⟩ : ∃ n, r₄.rest.length = n + 1 :=
    ⟨r₄.rest.length - 1, by have := readSourceOp_consumes h₃; omega⟩
  rw [sourceOps, hn, sourceOpsLoop, h₃]

/-- One page of memory, and every local but the body's first one is zero. -/
def splicedMachine (base : UInt32) : Machine where
  base := base.toNat
  alu _ _ _ := 0
  memBytes := 65536
  fetch _ _ := 0

def splicedFrame (base : UInt32) : Frame where
  stack := [65500]
  locals y := if y = base.toNat then 65500 else 0
  globals _ := 0

theorem splicedFrame_source (base : UInt32) :
    (splicedFrame base).source (splicedTop base).boundsSource = 65500 := by
  simp [splicedFrame, splicedTop, Elem.boundsSource, boundsSource, Frame.source]

/-- The spliced body runs to its end: the second load reads another local than the first. -/
theorem splicedRest_run {base : UInt32} (h : base ≠ 0) :
    (splicedMachine base).run (.load 0x28 0 :: sourceOps (splicedRest base)) (splicedFrame base) =
      .barrier := by
  have hne : base.toNat ≠ 0 := fun h0 => h (UInt32.toNat_inj.1 h0)
  rw [splicedRest_ops]
  simp [Machine.run, Machine.step, splicedFrame, splicedMachine, address, memAccessSize, hne]

theorem not_wideningSound_spliced {base : UInt32} (h : base ≠ 0) :
    ¬ WideningSound base .localVar := by
  intro hsound
  have hrun := (hsound (splicedFn base) (splicedRest base) (splicedTop base) 0x28 0 104 rfl rfl rfl
    (splicedRest_extent base) (by decide)).2 (splicedMachine base) (splicedFrame base) [] rfl
    (by rw [splicedFrame_source]; rfl) (by rw [splicedFrame_source]; exact (by decide : 65536 < address 65500 + 104))
  rw [splicedRest_run h] at hrun
  exact absurd (hrun nofun) nofun

/-! ## Main results -/

/-- Widening is sound exactly for bodies whose locals start at the bottom of the frame and for
addresses that do not come from a local. In any other body every widened check of a local takes its
extent from a load of another local. -/
theorem straight_line_widening_sound_iff (base : UInt32) (kind : SourceKind) :
    (WideningSound base kind ↔ base = 0 ∨ kind ≠ .localVar) ∧
    ∀ (f : FnBounds) (r : ExportReader) (top : Elem) (op : UInt8) (off extent : Nat),
      f.localBase = base → base ≠ 0 → top.boundsSource.1 = .localVar →
      f.memLoadCheck r top off (memAccessSize op) = some extent → off + memAccessSize op < extent →
      base.toNat + top.boundsSource.2 ≠ top.boundsSource.2 ∧
        LaterLoad base.toNat (.localVar, base.toNat + top.boundsSource.2) (sourceOps r) extent := by
  refine ⟨⟨fun hsound => ?_, wideningSound_of⟩, ?_⟩
  · by_contra h
    obtain ⟨hbase, hkind⟩ := not_or.1 h
    exact not_wideningSound_spliced hbase (not_not.1 hkind ▸ hsound)
  · intro f r top op off extent _ hbase htop hcheck hlt
    have hne : base.toNat ≠ 0 := fun h0 => hbase (UInt32.toNat_inj.1 h0)
    have hraw := laterLoad_of_widened hcheck hlt
    rcases hsrc : top.boundsSource with ⟨k, idx⟩
    rw [hsrc] at hraw htop
    cases htop
    exact ⟨by omega, hraw.of_local⟩

/-- A helper `(param i32 i32)` with body `local.get 0; i32.load; local.get 1; i32.load offset=100; …`
spliced into a function with one local: the check of its first load is widened to `104` bytes, which
fails at address `65500` of a one-page memory, while the program runs to its end. -/
theorem straight_line_widening_traps_spliced :
    (splicedFn 1).memLoadCheck ⟨[0x20, 0x01, 0x28, 0x02, 0x64, 0x0b], 0⟩ (splicedTop 1) 0 4 = some 104 ∧
      65536 < address ((splicedFrame 1).source (splicedTop 1).boundsSource) + 104 ∧
      (splicedMachine 1).run
        (.load 0x28 0 :: sourceOps ⟨[0x20, 0x01, 0x28, 0x02, 0x64, 0x0b], 0⟩) (splicedFrame 1) =
          .barrier := by
  refine ⟨by rfl, by decide, by rfl⟩

end Wago.Railshot
