/-
Parallel register moves: the scheduler of `shared/regcopy.go` and the operation window of
`amd64/regcopy.go`.

The callbacks act on what has been emitted so far. Loops count their iterations down from a fuel;
one iteration settles one destination, so that 64 are always enough.
-/
import Mathlib.Algebra.Order.Ring.Int
import Mathlib.Data.Finset.Image
import Mathlib.Data.List.Perm.Basic
import Wago.Lib.Bitmap
import Wago.Lib.ParallelMove

namespace Wago.Railshot

open List
open BitVec hiding and_assoc and_comm

open Bitmap (bit lowest)

abbrev Reg := UInt8

/-- A request `dst = src`. -/
structure RegMove where
  dst : Reg
  src : Reg
deriving DecidableEq, Repr

def RegMove.nontrivial (m : RegMove) : Bool := m.dst ≠ m.src

/-- The target callbacks. -/
structure Emitter (σ : Type*) where
  move : Reg → Reg → σ → σ
  swap : Reg → Reg → σ → σ

/-! ## Scheduler -/

/-- What the first loop of `ResolveRegMoves` fills. -/
structure MoveGraph where
  src : Reg → Reg := fun _ => 0
  pending : BitVec 64 := 0
  sources : BitVec 64 := 0

def MoveGraph.add (g : MoveGraph) (m : RegMove) : MoveGraph :=
  if m.dst ≠ m.src then
    { src := Function.update g.src m.dst m.src
      pending := g.pending ||| bit m.dst.toNat
      sources := g.sources ||| bit m.src.toNat }
  else g

def moveGraph (moves : List RegMove) : MoveGraph := moves.foldl MoveGraph.add {}

/-- `R(bits.TrailingZeros64(m))`. -/
def lowestReg (m : BitVec 64) : Reg := UInt8.ofNat (lowest m)

theorem and_sub_one_lt {d : BitVec 64} (h : d ≠ 0) : (d &&& (d - 1)).toNat < d.toNat := by
  have hpos : 0 < d.toNat := Nat.pos_of_ne_zero fun h0 => h (eq_of_toNat_eq h0)
  have hone : (1 : BitVec 64).toNat = 1 := rfl
  have hsub : (d - 1).toNat = d.toNat - 1 := by
    rw [toNat_sub_of_le (le_def.2 (by rw [hone]; omega)), hone]
  have hle : (d &&& (d - 1)).toNat ≤ (d - 1).toNat := by
    rw [toNat_and]
    exact Nat.and_le_right
  omega

/-- The scan of the pending moves for another one from `source`. -/
def sourceUsed (src : Reg → Reg) (source : Reg) (d : BitVec 64) : Bool :=
  if h : d = 0 then false
  else if src (lowestReg d) = source then true
  else sourceUsed src source (d &&& (d - 1))
termination_by d.toNat
decreasing_by exact and_sub_one_lt h

/-- The variables of the loops. `handled` lists the destinations in the order they are taken out of
`pending`; the code does not keep it. -/
structure Schedule (σ : Type*) where
  pending : BitVec 64
  ready : BitVec 64
  handled : List Reg
  out : σ

section

variable {σ : Type*} (src : Reg → Reg) (e : Emitter σ)

/-- `pending &^= 1 << dst`. -/
def Schedule.handle (s : Schedule σ) (dst : Reg) : Schedule σ :=
  { s with pending := s.pending &&& ~~~ bit dst.toNat, handled := s.handled ++ [dst] }

/-- One iteration of the loop over ready destinations. -/
def readyStep (s : Schedule σ) : Schedule σ :=
  let dst := lowestReg s.ready
  let source := src dst
  let s := { s with out := e.move dst source s.out }.handle dst
  let s := { s with ready := s.ready &&& (s.ready - 1) }
  let sourceBit := bit source.toNat
  if s.pending &&& sourceBit = 0 then s
  else if sourceUsed src source s.pending then s
  else { s with ready := s.ready ||| sourceBit }

def readyLoop : Nat → Schedule σ → Option (Schedule σ)
  | 0, s => if s.ready = 0 then some s else none
  | fuel + 1, s => if s.ready = 0 then some s else readyLoop fuel (readyStep src e s)

/-- The walk around one cycle, with the statement that follows it. -/
def rotateLoop (start : Reg) : Nat → Reg → Schedule σ → Option (Schedule σ)
  | 0, dst, s => if src dst = start then some (s.handle dst) else none
  | fuel + 1, dst, s =>
    let source := src dst
    if source = start then some (s.handle dst)
    else rotateLoop start fuel source ({ s with out := e.swap dst source s.out }.handle dst)

def cycleLoop : Nat → Schedule σ → Option (Schedule σ)
  | 0, s => if s.pending = 0 then some s else none
  | fuel + 1, s =>
    if s.pending = 0 then some s
    else
      let start := lowestReg s.pending
      (rotateLoop src e start fuel start s).bind (cycleLoop fuel)

end

def resolveRegMoves {σ : Type*} (fuel : Nat) (moves : List RegMove) (e : Emitter σ) (out : σ) :
    Option (Schedule σ) :=
  let g := moveGraph moves
  (readyLoop g.src e fuel
    { pending := g.pending, ready := g.pending &&& ~~~ g.sources, handled := [], out }).bind
    (cycleLoop g.src e fuel)

/-! ## Machine operations and their window -/

inductive MachineOpKind
  | machineMove
  | machineSwap
deriving DecidableEq, Repr

structure MachineOp where
  kind : MachineOpKind
  dst : Reg
  src : Reg
deriving DecidableEq, Repr

def Emitter.emit {σ : Type*} (e : Emitter σ) (out : σ) (op : MachineOp) : σ :=
  match op.kind with
  | .machineSwap => e.swap op.dst op.src out
  | .machineMove => e.move op.dst op.src out

def maxMachineWindow : Nat := 24

/-- The operations held back; there is no room for more than `maxMachineWindow`. -/
structure MachineWindow where
  ops : List MachineOp
  bounded : ops.length ≤ maxMachineWindow

namespace MachineWindow

variable {σ : Type*} (e : Emitter σ)

def flush (w : MachineWindow × σ) : MachineWindow × σ :=
  (⟨[], Nat.zero_le _⟩, w.1.ops.foldl e.emit w.2)

def append (op : MachineOp) (w : MachineWindow × σ) : MachineWindow × σ :=
  if h : w.1.ops.length = maxMachineWindow then (⟨[op], Nat.le_of_ble_eq_true rfl⟩, (flush e w).2)
  else (⟨w.1.ops ++ [op], by have := w.1.bounded; simp; omega⟩, w.2)

/-- The callbacks `resolveRegMovesWindow` passes on. -/
def emitter : Emitter (MachineWindow × σ) where
  move dst src := append e ⟨.machineMove, dst, src⟩
  swap a b := append e ⟨.machineSwap, a, b⟩

end MachineWindow

def Schedule.map {σ τ : Type*} (φ : σ → τ) (s : Schedule σ) : Schedule τ :=
  { pending := s.pending, ready := s.ready, handled := s.handled, out := φ s.out }

def resolveRegMovesWindow {σ : Type*} (fuel : Nat) (moves : List RegMove) (e : Emitter σ) (out : σ) :
    Option (Schedule σ) :=
  (resolveRegMoves fuel moves (MachineWindow.emitter e) (⟨[], Nat.zero_le _⟩, out)).map
    (Schedule.map fun w => (MachineWindow.flush e w).2)

/-! ## Callbacks

The scheduler looks at nothing the callbacks produce, so that a map between what two targets emit
carries one run to the other. -/

section

variable {σ τ : Type*} {φ : σ → τ} {e : Emitter σ} {e' : Emitter τ}

/-- `φ` takes each emission of `e` to the same emission of `e'`. -/
structure Emitter.Maps (φ : σ → τ) (e : Emitter σ) (e' : Emitter τ) : Prop where
  move : ∀ d r s, φ (e.move d r s) = e'.move d r (φ s)
  swap : ∀ a b s, φ (e.swap a b s) = e'.swap a b (φ s)

namespace Emitter.Maps

variable (h : Emitter.Maps φ e e') (src : Reg → Reg)

include h

theorem handleSwap (s : Schedule σ) (a b : Reg) :
    ({ s with out := e.swap a b s.out }.handle a).map φ =
      { s.map φ with out := e'.swap a b (s.map φ).out }.handle a := by
  simp only [Schedule.handle, Schedule.map, h.swap]

theorem readyStep (s : Schedule σ) : (readyStep src e s).map φ = readyStep src e' (s.map φ) := by
  unfold Railshot.readyStep
  dsimp only [Schedule.handle, Schedule.map]
  split
  · simp only [h.move]
  · split
    · simp only [h.move]
    · simp only [h.move]

theorem readyLoop : ∀ (fuel : Nat) (s : Schedule σ),
    (readyLoop src e fuel s).map (Schedule.map φ) = readyLoop src e' fuel (s.map φ)
  | 0, s => by
    rw [Railshot.readyLoop, Railshot.readyLoop, apply_ite (Option.map _)]
    rfl
  | fuel + 1, s => by
    rw [Railshot.readyLoop, Railshot.readyLoop, apply_ite (Option.map _), readyLoop fuel, h.readyStep]
    rfl

theorem rotateLoop (start : Reg) : ∀ (fuel : Nat) (dst : Reg) (s : Schedule σ),
    (rotateLoop src e start fuel dst s).map (Schedule.map φ) = rotateLoop src e' start fuel dst (s.map φ)
  | 0, dst, s => by
    rw [Railshot.rotateLoop, Railshot.rotateLoop, apply_ite (Option.map _)]
    rfl
  | fuel + 1, dst, s => by
    rw [Railshot.rotateLoop, Railshot.rotateLoop, apply_ite (Option.map _), rotateLoop start fuel,
      h.handleSwap]
    rfl

theorem cycleLoop : ∀ (fuel : Nat) (s : Schedule σ),
    (cycleLoop src e fuel s).map (Schedule.map φ) = cycleLoop src e' fuel (s.map φ)
  | 0, s => by
    rw [Railshot.cycleLoop, Railshot.cycleLoop, apply_ite (Option.map _)]
    rfl
  | fuel + 1, s => by
    rw [Railshot.cycleLoop, Railshot.cycleLoop, apply_ite (Option.map _), Option.map_bind]
    dsimp only
    rw [← h.rotateLoop, Option.bind_map]
    simp only [Function.comp_def, cycleLoop fuel]
    rfl

theorem resolveRegMoves (fuel : Nat) (moves : List RegMove) (out : σ) :
    (resolveRegMoves fuel moves e out).map (Schedule.map φ) = resolveRegMoves fuel moves e' (φ out) := by
  unfold Railshot.resolveRegMoves
  dsimp only
  rw [Option.map_bind]
  have hready := h.readyLoop (moveGraph moves).src fuel
    { pending := (moveGraph moves).pending
      ready := (moveGraph moves).pending &&& ~~~ (moveGraph moves).sources, handled := [], out }
  rw [show Schedule.map φ _ = Schedule.mk _ _ [] (φ out) from rfl] at hready
  rw [← hready, Option.bind_map]
  simp only [Function.comp_def, h.cycleLoop]

end Emitter.Maps

end

/-! ## Masks as sets of registers -/

def regs (m : BitVec 64) : Finset Reg := ((Finset.range 64).filter (m.getLsbD ·)).image UInt8.ofNat

theorem toNat_ofNat_of_lt {i : Nat} (h : i < 64) : (UInt8.ofNat i).toNat = i :=
  Nat.mod_eq_of_lt (Nat.lt_trans h (by decide))

variable {m : BitVec 64}

@[simp] theorem mem_regs {r : Reg} : r ∈ regs m ↔ m.getLsbD r.toNat = true := by
  simp only [regs, Finset.mem_image, Finset.mem_filter, Finset.mem_range]
  constructor
  · rintro ⟨i, ⟨hi, hm⟩, rfl⟩
    rwa [toNat_ofNat_of_lt hi]
  · intro hm
    exact ⟨r.toNat, ⟨lt_of_getLsbD hm, hm⟩, UInt8.ofNat_toNat⟩

theorem card_regs_le (m : BitVec 64) : (regs m).card ≤ 64 :=
  calc (regs m).card ≤ ((Finset.range 64).filter (m.getLsbD ·)).card := Finset.card_image_le
    _ ≤ (Finset.range 64).card := Finset.card_filter_le _ _
    _ = 64 := Finset.card_range 64

theorem regs_eq_empty : regs m = ∅ ↔ m = 0 := by
  rw [Bitmap.eq_zero_iff, Finset.eq_empty_iff_forall_notMem]
  constructor
  · intro h i
    by_contra hi
    have hset : m.getLsbD i = true := by simpa using hi
    refine h (UInt8.ofNat i) (mem_regs.2 ?_)
    rwa [toNat_ofNat_of_lt (lt_of_getLsbD hset)]
  · intro h r hr
    rw [mem_regs, h] at hr
    cases hr

theorem getLsbD_bit_reg {r s : Reg} : (bit r.toNat).getLsbD s.toNat = true ↔ s = r ∧ r.toNat < 64 := by
  simp only [Bitmap.getLsbD_bit, Bool.and_eq_true, decide_eq_true_eq, UInt8.toNat_inj]
  constructor
  · rintro ⟨h, rfl⟩
    exact ⟨rfl, h⟩
  · rintro ⟨rfl, h⟩
    exact ⟨h, rfl⟩

theorem mem_regs_andNot {m n : BitVec 64} {r : Reg} :
    r ∈ regs (m &&& ~~~ n) ↔ r ∈ regs m ∧ r ∉ regs n := by
  simp only [mem_regs, getLsbD_and, getLsbD_not, Bool.and_eq_true, decide_eq_true_eq,
    Bool.not_eq_true', Bool.not_eq_true]
  exact ⟨fun h => ⟨h.1, h.2.2⟩, fun h => ⟨h.1, lt_of_getLsbD h.1, h.2⟩⟩

theorem regs_andNot (m : BitVec 64) (r : Reg) : regs (m &&& ~~~ bit r.toNat) = (regs m).erase r := by
  ext s
  rw [mem_regs_andNot, mem_regs (m := bit _), getLsbD_bit_reg, Finset.mem_erase, and_comm]
  refine and_congr_left fun hs => not_congr ⟨And.left, ?_⟩
  rintro rfl
  exact ⟨rfl, lt_of_getLsbD (mem_regs.1 hs)⟩

theorem mem_regs_or_bit {r s : Reg} :
    s ∈ regs (m ||| bit r.toNat) ↔ s ∈ regs m ∨ s = r ∧ r.toNat < 64 := by
  rw [mem_regs, mem_regs, getLsbD_or, Bool.or_eq_true, getLsbD_bit_reg]

theorem and_bit_eq_zero {r : Reg} : m &&& bit r.toNat = 0 ↔ r ∉ regs m := by
  rw [← regs_eq_empty, Finset.eq_empty_iff_forall_notMem]
  simp only [mem_regs, getLsbD_and, Bool.and_eq_true, getLsbD_bit_reg]
  constructor
  · intro h hr
    exact h r ⟨hr, rfl, lt_of_getLsbD hr⟩
  · rintro h s ⟨hs, rfl, -⟩
    exact h hs

theorem toNat_lowestReg (h : m ≠ 0) : (lowestReg m).toNat = lowest m :=
  toNat_ofNat_of_lt (Bitmap.lowest_spec h).1

theorem lowestReg_mem (h : m ≠ 0) : lowestReg m ∈ regs m := by
  rw [mem_regs, toNat_lowestReg h]
  exact (Bitmap.lowest_spec h).2.1

theorem regs_and_sub_one (h : m ≠ 0) : regs (m &&& (m - 1)) = (regs m).erase (lowestReg m) := by
  ext s
  rw [Finset.mem_erase, mem_regs, mem_regs, Bitmap.getLsbD_and_sub_one h, ← toNat_lowestReg h]
  simp only [Bool.and_eq_true, decide_eq_true_eq, ne_eq, UInt8.toNat_inj]
  exact and_comm

theorem sourceUsed_iff {src : Reg → Reg} {source : Reg} (d : BitVec 64) :
    sourceUsed src source d = true ↔ ∃ r ∈ regs d, src r = source := by
  induction d using sourceUsed.induct src source with
  | case1 =>
    rw [sourceUsed, dif_pos rfl, regs_eq_empty.2 rfl]
    simp
  | case2 d h hsrc =>
    rw [sourceUsed, dif_neg h, if_pos hsrc]
    exact ⟨fun _ => ⟨_, lowestReg_mem h, hsrc⟩, fun _ => rfl⟩
  | case3 d h hsrc ih =>
    rw [sourceUsed, dif_neg h, if_neg hsrc, ih, regs_and_sub_one h]
    constructor
    · rintro ⟨r, hr, hrs⟩
      exact ⟨r, Finset.mem_of_mem_erase hr, hrs⟩
    · rintro ⟨r, hr, hrs⟩
      refine ⟨r, Finset.mem_erase.2 ⟨?_, hr⟩, hrs⟩
      rintro rfl
      exact hsrc hrs

/-! ## The move graph -/

/-- `g` holds the moves of `ms` that are not trivial. -/
structure Records (ms : List RegMove) (g : MoveGraph) : Prop where
  src : ∀ m ∈ ms, m.dst ≠ m.src → g.src m.dst = m.src
  pending : ∀ r, r ∈ regs g.pending ↔ ∃ m ∈ ms, m.dst ≠ m.src ∧ m.dst = r
  sources : ∀ r, r ∈ regs g.sources ↔ r.toNat < 64 ∧ ∃ m ∈ ms, m.dst ≠ m.src ∧ m.src = r

theorem Records.add {ms : List RegMove} {g : MoveGraph} {m : RegMove} (h : Records ms g)
    (hlt : m.dst.toNat < 64) (hnew : ∀ n ∈ ms, n.dst ≠ m.dst) : Records (ms ++ [m]) (g.add m) := by
  have hmem : ∀ (p : RegMove → Prop), (∃ n ∈ ms ++ [m], n.dst ≠ n.src ∧ p n) ↔
      (∃ n ∈ ms, n.dst ≠ n.src ∧ p n) ∨ m.dst ≠ m.src ∧ p m := by
    intro p
    simp only [mem_append, mem_singleton, or_and_right, exists_or, exists_eq_left]
  unfold MoveGraph.add
  split
  · rename_i hne
    refine ⟨?_, fun r => ?_, fun r => ?_⟩
    · intro n hn hnt
      show Function.update g.src m.dst m.src n.dst = n.src
      rcases mem_append.1 hn with hn | hn
      · rw [Function.update_of_ne (hnew n hn), h.src n hn hnt]
      · rw [mem_singleton.1 hn, Function.update_self]
    · rw [mem_regs_or_bit, h.pending, hmem]
      refine or_congr_right ⟨?_, ?_⟩
      · rintro ⟨rfl, -⟩
        exact ⟨hne, rfl⟩
      · rintro ⟨-, rfl⟩
        exact ⟨rfl, hlt⟩
    · rw [mem_regs_or_bit, h.sources, hmem, and_or_left]
      refine or_congr_right ⟨?_, ?_⟩
      · rintro ⟨rfl, hr⟩
        exact ⟨hr, hne, rfl⟩
      · rintro ⟨hr, -, rfl⟩
        exact ⟨rfl, hr⟩
  · rename_i htriv
    refine ⟨?_, fun r => ?_, fun r => ?_⟩
    · intro n hn hnt
      rcases mem_append.1 hn with hn | hn
      · exact h.src n hn hnt
      · exact absurd (mem_singleton.1 hn ▸ hnt) htriv
    · rw [h.pending, hmem, or_iff_left fun hm => htriv hm.1]
    · rw [h.sources, hmem, or_iff_left fun hm => htriv hm.1]

theorem moveGraph_records (moves : List RegMove) (hnd : (moves.map RegMove.dst).Nodup)
    (hlt : ∀ m ∈ moves, m.dst.toNat < 64) : Records moves (moveGraph moves) := by
  suffices hrun : ∀ (rest done : List RegMove) (g : MoveGraph), Records done g →
      ((done ++ rest).map RegMove.dst).Nodup → (∀ m ∈ rest, m.dst.toNat < 64) →
      Records (done ++ rest) (rest.foldl MoveGraph.add g) by
    exact hrun moves [] {} ⟨by simp, by simp, by simp⟩ hnd hlt
  intro rest
  induction rest with
  | nil => intro done g h _ _; simpa using h
  | cons m rest ih =>
    intro done g h hnd hlt
    have hnew : ∀ n ∈ done, n.dst ≠ m.dst := by
      intro n hn heq
      rw [map_append, nodup_append] at hnd
      exact hnd.2.2 _ (mem_map_of_mem hn) _ (mem_map_of_mem (mem_cons_self ..)) heq
    have := ih (done ++ [m]) (g.add m) (h.add (hlt m (mem_cons_self ..)) hnew)
      (by simpa using hnd) fun n hn => hlt n (mem_cons_of_mem _ hn)
    simpa using this

/-! ## Runs on a register file -/

/-- A target that runs each operation at once. -/
def machine (α : Type*) : Emitter (Reg → α) where
  move := ParallelMove.move
  swap := ParallelMove.swap

section

variable {α : Type*} {src : Reg → Reg} {o : Reg → α} {D : Finset Reg}

/-- Each destination is listed once, when it is no longer pending. -/
structure Listed {σ : Type*} (D : Finset Reg) (s : Schedule σ) : Prop where
  nodup : s.handled.Nodup
  mem : ∀ d, d ∈ s.handled ↔ d ∈ D ∧ d ∉ regs s.pending

theorem Listed.handle {σ : Type*} {s : Schedule σ} {d : Reg} (h : Listed D s) (hD : d ∈ D)
    (hd : d ∈ regs s.pending) : Listed D (s.handle d) := by
  refine ⟨?_, fun r => ?_⟩
  · refine nodup_append.2 ⟨h.nodup, nodup_singleton d, ?_⟩
    rintro a ha b hb rfl
    rw [mem_singleton.1 hb] at ha
    exact ((h.mem d).1 ha).2 hd
  · show r ∈ s.handled ++ [d] ↔ r ∈ D ∧ r ∉ regs (s.pending &&& ~~~ bit d.toNat)
    rw [mem_append, mem_singleton, h.mem, regs_andNot, Finset.mem_erase]
    constructor
    · rintro (⟨hr, hn⟩ | rfl)
      · exact ⟨hr, fun h => hn h.2⟩
      · exact ⟨hD, fun h => h.1 rfl⟩
    · rintro ⟨hr, hn⟩
      by_cases hrd : r = d
      · exact .inr hrd
      · exact .inl ⟨hr, fun hp => hn ⟨hrd, hp⟩⟩

/-- The invariant of the loop over ready destinations: ready are the pending ones nothing pending
reads. -/
structure ReadyInv (src : Reg → Reg) (o : Reg → α) (D : Finset Reg) (s : Schedule (Reg → α)) : Prop where
  part : ParallelMove.Partway src o D (regs s.pending) s.out
  listed : Listed D s
  ready : ∀ d, d ∈ regs s.ready ↔ d ∈ regs s.pending ∧ ∀ r ∈ regs s.pending, src r ≠ d

theorem ReadyInv.step {s : Schedule (Reg → α)} (h : ReadyInv src o D s) (hready : s.ready ≠ 0) :
    ReadyInv src o D (readyStep src (machine α) s) ∧
      regs (readyStep src (machine α) s).pending = (regs s.pending).erase (lowestReg s.ready) := by
  obtain ⟨hmem, hfree⟩ := (h.ready _).1 (lowestReg_mem hready)
  unfold readyStep
  generalize hdst : lowestReg s.ready = dst at hmem hfree
  have hD := h.part.sub hmem
  have hpart := h.part.move hmem hfree
  have hlisted : Listed D ({ s with out := (machine α).move dst (src dst) s.out }.handle dst) :=
    Listed.handle (s := { s with out := _ }) ⟨h.listed.nodup, h.listed.mem⟩ hD hmem
  rw [← regs_andNot] at hpart ⊢
  have hrest : ∀ d, d ∈ regs (s.ready &&& (s.ready - 1)) ↔
      d ≠ dst ∧ d ∈ regs s.pending ∧ ∀ r ∈ regs s.pending, src r ≠ d := by
    intro d
    rw [regs_and_sub_one hready, Finset.mem_erase, h.ready, hdst]
  -- only the source just read can have become ready, and only if no other pending move reads it
  have hkeep : (∀ d, d ∈ regs (s.pending &&& ~~~ bit dst.toNat) → d = src dst →
        ∃ r ∈ regs (s.pending &&& ~~~ bit dst.toNat), src r = src dst) →
      ∀ d, d ∈ regs (s.ready &&& (s.ready - 1)) ↔ d ∈ regs (s.pending &&& ~~~ bit dst.toNat) ∧
        ∀ r ∈ regs (s.pending &&& ~~~ bit dst.toNat), src r ≠ d := by
    intro hsrc d
    rw [hrest]
    constructor
    · rintro ⟨hne, hp, hn⟩
      refine ⟨?_, fun r hr => hn r ?_⟩
      · rw [regs_andNot]
        exact Finset.mem_erase.2 ⟨hne, hp⟩
      · rw [regs_andNot] at hr
        exact Finset.mem_of_mem_erase hr
    · rintro ⟨hp, hn⟩
      have hd : d ≠ src dst := by
        intro heq
        obtain ⟨r, hr, hrs⟩ := hsrc d hp heq
        exact hn r hr (hrs.trans heq.symm)
      rw [regs_andNot] at hp hn
      refine ⟨(Finset.mem_erase.1 hp).1, Finset.mem_of_mem_erase hp, fun r hr => ?_⟩
      by_cases hrd : r = dst
      · rw [hrd]
        exact hd.symm
      · exact hn r (Finset.mem_erase.2 ⟨hrd, hr⟩)
  dsimp only [Schedule.handle]
  split
  · rename_i hz
    refine ⟨⟨hpart, ⟨hlisted.nodup, hlisted.mem⟩, hkeep ?_⟩, rfl⟩
    rintro d hd rfl
    exact absurd hd (and_bit_eq_zero.1 hz)
  · rename_i hnz
    split
    · rename_i hused
      exact ⟨⟨hpart, ⟨hlisted.nodup, hlisted.mem⟩, hkeep fun d _ _ => (sourceUsed_iff _).1 hused⟩, rfl⟩
    · rename_i hunused
      have hsrc : src dst ∈ regs (s.pending &&& ~~~ bit dst.toNat) := by
        by_contra hn
        exact hnz (and_bit_eq_zero.2 hn)
      have hnone : ∀ r ∈ regs (s.pending &&& ~~~ bit dst.toNat), src r ≠ src dst := fun r hr heq =>
        hunused ((sourceUsed_iff _).2 ⟨r, hr, heq⟩)
      refine ⟨⟨hpart, ⟨hlisted.nodup, hlisted.mem⟩, fun d => ?_⟩, rfl⟩
      show d ∈ regs (s.ready &&& (s.ready - 1) ||| bit (src dst).toNat) ↔ _
      rw [mem_regs_or_bit]
      by_cases hd : d = src dst
      · rw [hd]
        exact ⟨fun _ => ⟨hsrc, hnone⟩, fun _ => .inr ⟨rfl, lt_of_getLsbD (mem_regs.1 hsrc)⟩⟩
      · rw [or_iff_left fun h => hd h.1, hrest]
        simp only [regs_andNot, Finset.mem_erase]
        constructor
        · rintro ⟨hne, hp, hn⟩
          exact ⟨⟨hne, hp⟩, fun r hr => hn r hr.2⟩
        · rintro ⟨⟨hne, hp⟩, hn⟩
          refine ⟨hne, hp, fun r hr => ?_⟩
          by_cases hrd : r = dst
          · rw [hrd]
            exact fun h => hd h.symm
          · exact hn r ⟨hrd, hr⟩

theorem ReadyInv.run : ∀ (fuel : Nat) (s : Schedule (Reg → α)), ReadyInv src o D s →
    (regs s.pending).card ≤ fuel →
    ∃ s', readyLoop src (machine α) fuel s = some s' ∧ ReadyInv src o D s' ∧ s'.ready = 0
  | 0, s, h, hcard => by
    have hnone : s.pending = 0 := regs_eq_empty.1 (Finset.card_eq_zero.1 (Nat.le_zero.1 hcard))
    have hready : s.ready = 0 := by
      rw [← regs_eq_empty, Finset.eq_empty_iff_forall_notMem]
      intro d hd
      have := ((h.ready d).1 hd).1
      rw [regs_eq_empty.2 hnone] at this
      exact Finset.notMem_empty d this
    exact ⟨s, by rw [readyLoop, if_pos hready], h, hready⟩
  | fuel + 1, s, h, hcard => by
    rw [readyLoop]
    by_cases hready : s.ready = 0
    · exact ⟨s, if_pos hready, h, hready⟩
    · obtain ⟨hstep, hpending⟩ := h.step hready
      have hmem := ((h.ready _).1 (lowestReg_mem hready)).1
      rw [if_neg hready]
      apply ReadyInv.run fuel _ hstep
      rw [hpending, Finset.card_erase_of_mem hmem]
      omega

/-- With nothing ready every pending destination is read, so what is left are cycles. -/
theorem ReadyInv.cyclic {s : Schedule (Reg → α)} (h : ReadyInv src o D s) (hready : s.ready = 0) :
    ParallelMove.Cyclic src (regs s.pending) := by
  apply ParallelMove.cyclic_of_read
  intro d hd
  by_contra hno
  have : d ∈ regs s.ready := (h.ready d).2 ⟨hd, fun r hr hrd => hno ⟨r, hr, hrd⟩⟩
  rw [regs_eq_empty.2 hready] at this
  exact Finset.notMem_empty d this

/-- The invariant of the loop over cycles. -/
structure CycleInv (src : Reg → Reg) (o : Reg → α) (D : Finset Reg) (s : Schedule (Reg → α)) : Prop where
  part : ParallelMove.Partway src o D (regs s.pending) s.out
  cyclic : ParallelMove.Cyclic src (regs s.pending)
  listed : Listed D s

theorem rotateLoop_inv {start : Reg} : ∀ (fuel : Nat) (dst : Reg) (s : Schedule (Reg → α)),
    ParallelMove.Rotating src o D (regs s.pending) start dst s.out → Listed D s →
    (regs s.pending).card ≤ fuel + 1 →
    ∃ s', rotateLoop src (machine α) start fuel dst s = some s' ∧ CycleInv src o D s' ∧
      (regs s'.pending).card < (regs s.pending).card := by
  have hlast : ∀ (dst : Reg) (s : Schedule (Reg → α)),
      ParallelMove.Rotating src o D (regs s.pending) start dst s.out → Listed D s → src dst = start →
      CycleInv src o D (s.handle dst) ∧ (regs (s.handle dst).pending).card < (regs s.pending).card := by
    intro dst s h hl heq
    obtain ⟨hpart, hcyc⟩ := h.finish heq
    rw [← regs_andNot] at hpart hcyc
    refine ⟨⟨hpart, hcyc, hl.handle (h.sub h.mem) h.mem⟩, ?_⟩
    rw [Schedule.handle, regs_andNot]
    exact Finset.card_erase_lt_of_mem h.mem
  intro fuel
  induction fuel with
  | zero =>
    intro dst s h hl hcard
    have heq : src dst = start := by
      by_contra hne
      -- two different pending registers would be left
      have hsub : {dst, src dst} ⊆ regs s.pending := by
        intro r hr
        rcases Finset.mem_insert.1 hr with rfl | hr
        · exact h.mem
        · rw [Finset.mem_singleton.1 hr]
          exact h.source_mem hne
      have := Finset.card_le_card hsub
      rw [Finset.card_pair (h.source_ne hne).symm] at this
      omega
    exact ⟨_, by rw [rotateLoop, if_pos heq], hlast dst s h hl heq⟩
  | succ fuel ih =>
    intro dst s h hl hcard
    rw [rotateLoop]
    by_cases heq : src dst = start
    · exact ⟨_, if_pos heq, hlast dst s h hl heq⟩
    · have hrot := h.swap heq
      rw [← regs_andNot] at hrot
      have hlt : (regs (s.pending &&& ~~~ bit dst.toNat)).card < (regs s.pending).card := by
        rw [regs_andNot]
        exact Finset.card_erase_lt_of_mem h.mem
      have hl' := hl.handle (h.sub h.mem) h.mem
      obtain ⟨s', hrun, hinv, hcard'⟩ := ih (src dst)
        { pending := s.pending &&& ~~~ bit dst.toNat, ready := s.ready, handled := s.handled ++ [dst]
          out := ParallelMove.swap dst (src dst) s.out }
        hrot ⟨hl'.nodup, hl'.mem⟩ (Nat.le_of_lt_succ (Nat.lt_of_lt_of_le hlt hcard))
      exact ⟨s', by rw [← hrun]; exact if_neg heq, hinv, Nat.lt_trans hcard' hlt⟩

theorem CycleInv.run : ∀ (fuel : Nat) (s : Schedule (Reg → α)), CycleInv src o D s →
    (regs s.pending).card ≤ fuel →
    ∃ s', cycleLoop src (machine α) fuel s = some s' ∧ CycleInv src o D s' ∧ s'.pending = 0
  | 0, s, h, hcard => by
    have hnone : s.pending = 0 := regs_eq_empty.1 (Finset.card_eq_zero.1 (Nat.le_zero.1 hcard))
    exact ⟨s, by rw [cycleLoop, if_pos hnone], h, hnone⟩
  | fuel + 1, s, h, hcard => by
    rw [cycleLoop]
    by_cases hnone : s.pending = 0
    · exact ⟨s, if_pos hnone, h, hnone⟩
    · have hstart := lowestReg_mem hnone
      obtain ⟨s₁, hrot, hinv, hlt⟩ :=
        rotateLoop_inv fuel _ s (ParallelMove.Rotating.enter h.part h.cyclic hstart) h.listed hcard
      obtain ⟨s', hrun, hs'⟩ := CycleInv.run fuel s₁ hinv (by omega)
      refine ⟨s', ?_, hs'⟩
      rw [if_neg hnone]
      dsimp only
      rw [hrot, Option.bind_some, hrun]

/-- On a register file the scheduler returns, and leaves the parallel move made. -/
theorem resolveRegMoves_machine {moves : List RegMove} {fuel : Nat}
    (hnd : (moves.map RegMove.dst).Nodup) (hlt : ∀ m ∈ moves, m.dst.toNat < 64) (hfuel : 64 ≤ fuel)
    (o : Reg → α) :
    ∃ s, resolveRegMoves fuel moves (machine α) o = some s ∧
      s.handled.Perm ((moves.filter RegMove.nontrivial).map RegMove.dst) ∧
      (∀ m ∈ moves, s.out m.dst = o m.src) ∧ ∀ r, (∀ m ∈ moves, m.dst ≠ r) → s.out r = o r := by
  have hg := moveGraph_records moves hnd hlt
  unfold resolveRegMoves
  dsimp only
  generalize moveGraph moves = g at hg
  have hinit : ReadyInv g.src o (regs g.pending)
      { pending := g.pending, ready := g.pending &&& ~~~ g.sources, handled := [], out := o } := by
    refine ⟨ParallelMove.Partway.start .., ⟨nodup_nil, by simp⟩, fun d => ?_⟩
    rw [mem_regs_andNot, hg.sources]
    refine and_congr_right fun hd => ?_
    have hd64 := lt_of_getLsbD (mem_regs.1 hd)
    constructor
    · intro hno r hr hrd
      obtain ⟨m, hm, hmt, rfl⟩ := (hg.pending r).1 hr
      exact hno ⟨hd64, m, hm, hmt, by rw [← hrd, hg.src m hm hmt]⟩
    · rintro hno ⟨-, m, hm, hmt, rfl⟩
      exact hno m.dst ((hg.pending _).2 ⟨m, hm, hmt, rfl⟩) (hg.src m hm hmt)
  have hcard : ∀ w, (regs w).card ≤ fuel := fun w => Nat.le_trans (card_regs_le w) hfuel
  obtain ⟨s₁, hready, hinv₁, hzero⟩ := hinit.run fuel _ (hcard _)
  have hcyc : CycleInv g.src o (regs g.pending) s₁ := ⟨hinv₁.part, hinv₁.cyclic hzero, hinv₁.listed⟩
  obtain ⟨s, hcycle, hinv, hdone⟩ := CycleInv.run fuel s₁ hcyc (hcard _)
  have hempty := regs_eq_empty.2 hdone
  have hpart := hinv.part
  rw [hempty] at hpart
  obtain ⟨hmoved, hkept⟩ := hpart.finished
  refine ⟨s, by rw [hready, Option.bind_some, hcycle], ?_, ?_, ?_⟩
  · have hnd' : ((moves.filter RegMove.nontrivial).map RegMove.dst).Nodup :=
      (filter_sublist.map _).nodup hnd
    refine (perm_ext_iff_of_nodup hinv.listed.nodup hnd').2 fun d => ?_
    rw [hinv.listed.mem, hempty, hg.pending]
    simp [RegMove.nontrivial, and_assoc]
  · intro m hm
    by_cases hmt : m.dst = m.src
    · have hout : m.dst ∉ regs g.pending := by
        rw [hg.pending]
        rintro ⟨n, hn, hnt, heq⟩
        -- distinct destinations make `n` the trivial move itself
        have : n = m := inj_on_of_nodup_map hnd hn hm heq
        exact hnt (this ▸ hmt)
      rw [hkept _ hout, hmt]
    · rw [hmoved _ ((hg.pending _).2 ⟨m, hm, hmt, rfl⟩), hg.src m hm hmt]
  · intro r hr
    apply hkept
    rw [hg.pending]
    rintro ⟨m, hm, -, rfl⟩
    exact hr m hm rfl

end

/-! ## Emitted operations -/

/-- The operations in the order they are emitted. -/
def recorder : Emitter (List MachineOp) where
  move dst src ops := ops ++ [⟨.machineMove, dst, src⟩]
  swap a b ops := ops ++ [⟨.machineSwap, a, b⟩]

theorem recorder_maps {σ : Type*} (e : Emitter σ) (out : σ) :
    Emitter.Maps (fun ops => ops.foldl e.emit out) recorder e where
  move _ _ _ := by simp [recorder, Emitter.emit]
  swap _ _ _ := by simp [recorder, Emitter.emit]

theorem flush_append {σ : Type*} (e : Emitter σ) (op : MachineOp) (w : MachineWindow × σ) :
    (MachineWindow.flush e (MachineWindow.append e op w)).2 = e.emit (MachineWindow.flush e w).2 op := by
  unfold MachineWindow.append
  split
  · rfl
  · simp [MachineWindow.flush]

theorem window_maps {σ : Type*} (e : Emitter σ) :
    Emitter.Maps (fun w => (MachineWindow.flush e w).2) (MachineWindow.emitter e) e where
  move dst src w := flush_append e ⟨.machineMove, dst, src⟩ w
  swap a b w := flush_append e ⟨.machineSwap, a, b⟩ w

/-- Holding operations back in the window changes nothing. -/
theorem resolveRegMovesWindow_eq {σ : Type*} (fuel : Nat) (moves : List RegMove) (e : Emitter σ) (out : σ) :
    resolveRegMovesWindow fuel moves e out = resolveRegMoves fuel moves e out :=
  (window_maps e).resolveRegMoves fuel moves (⟨[], Nat.zero_le _⟩, out)

/-- For moves with distinct destinations below 64 one sequence of operations is emitted, whatever
the target and with or without the window; it settles each move that is not trivial once, and run in
order it makes all moves at once. -/
theorem resolveRegMoves_parallel (moves : List RegMove) (hnd : (moves.map RegMove.dst).Nodup)
    (hlt : ∀ m ∈ moves, m.dst.toNat < 64) (fuel : Nat) (hfuel : 64 ≤ fuel) :
    ∃ (ops : List MachineOp) (handled : List Reg),
      (∀ (σ : Type) (e : Emitter σ) (out : σ),
        ((resolveRegMoves fuel moves e out).map fun s => (s.handled, s.out)) =
            some (handled, ops.foldl e.emit out) ∧
          ((resolveRegMovesWindow fuel moves e out).map fun s => (s.handled, s.out)) =
            some (handled, ops.foldl e.emit out)) ∧
      handled.Perm ((moves.filter RegMove.nontrivial).map RegMove.dst) ∧
      ∀ (α : Type) (file : Reg → α),
        (∀ m ∈ moves, ops.foldl (machine α).emit file m.dst = file m.src) ∧
          ∀ r, (∀ m ∈ moves, m.dst ≠ r) → ops.foldl (machine α).emit file r = file r := by
  -- the run on any target is the recorded run replayed on it
  have hreplay : ∀ (σ : Type) (e : Emitter σ) (out : σ), resolveRegMoves fuel moves e out =
      (resolveRegMoves fuel moves recorder []).map (Schedule.map fun ops => ops.foldl e.emit out) :=
    fun σ e out => ((recorder_maps e out).resolveRegMoves fuel moves []).symm
  obtain ⟨s₀, hs₀, hperm, -, -⟩ := resolveRegMoves_machine hnd hlt hfuel fun _ => ()
  rw [hreplay] at hs₀
  obtain ⟨s, hs, rfl⟩ := Option.map_eq_some_iff.1 hs₀
  have hrun : ∀ (σ : Type) (e : Emitter σ) (out : σ), resolveRegMoves fuel moves e out =
      some (s.map fun ops => ops.foldl e.emit out) := by
    intro σ e out
    rw [hreplay, hs]
    rfl
  refine ⟨s.out, s.handled, ?_, hperm, ?_⟩
  · intro σ e out
    rw [resolveRegMovesWindow_eq, hrun]
    exact ⟨rfl, rfl⟩
  · intro α file
    obtain ⟨s', hs', -, hmoved⟩ := resolveRegMoves_machine hnd hlt hfuel file
    rw [hrun] at hs'
    cases hs'
    exact hmoved

/-- A chain, a fan-out and a cycle at once. -/
theorem resolveRegMoves_parallel_mixed :
    ∃ (ops : List MachineOp) (handled : List Reg),
      (resolveRegMovesWindow 64 [⟨1, 0⟩, ⟨2, 1⟩, ⟨3, 1⟩, ⟨4, 5⟩, ⟨5, 6⟩, ⟨6, 4⟩, ⟨7, 7⟩] recorder []).map
          (fun s => (s.handled, s.out)) = some (handled, ops.foldl recorder.emit []) ∧
        handled.Perm [1, 2, 3, 4, 5, 6] := by
  obtain ⟨ops, handled, hrun, hperm, -⟩ := resolveRegMoves_parallel
    [⟨1, 0⟩, ⟨2, 1⟩, ⟨3, 1⟩, ⟨4, 5⟩, ⟨5, 6⟩, ⟨6, 4⟩, ⟨7, 7⟩] (by decide) (by decide) 64 (Nat.le_refl 64)
  exact ⟨ops, handled, (hrun _ recorder []).2, hperm⟩

end Wago.Railshot
