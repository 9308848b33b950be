/-
A part of the A64 machine: moves of wide immediates, ORR with a bit mask, and the branches with a
19-bit or 26-bit displacement, decoded from words and executed on registers and flags. A block runs
the words from an address on until one of them branches.
-/
import Wago.Lib.BitRun
import Wago.Lib.CodeImage

namespace Wago.A64

open BitRun CodeImage BitVec

/-! ## Bit masks -/

/-- The position of the highest set bit of `N:NOT(imms)`, if there is one. -/
def elementLog (immN : BitVec 1) (imms : BitVec 6) : Option Nat :=
  (List.range 7).reverse.find? fun i => (immN ++ ~~~imms).getLsbD i

/-- `DecodeBitMasks` for an immediate: the element size comes from the leading bits of `N:NOT(imms)`,
an element is a run of ones rotated right, and the element is repeated over the word. -/
def decodeBitMasks (width : Nat) (immN : BitVec 1) (immr imms : BitVec 6) : Option (BitVec width) :=
  match elementLog immN imms with
  | none => none
  | some len =>
    let levels := 2 ^ len - 1
    if len < 1 ∨ width < 2 ^ len ∨ imms.toNat &&& levels = levels then none
    else
      let s := imms.toNat &&& levels
      let r := immr.toNat &&& levels
      some (replicate width (2 ^ len) (rotatedRun (2 ^ len) (s + 1) r))

/-! ## Instructions -/

inductive MoveOp where
  | movn
  | movz
  | movk
deriving DecidableEq, Repr

inductive Instr where
  | nop
  | b (imm : BitVec 26)
  | bCond (cond : BitVec 4) (imm : BitVec 19)
  /-- CBZ, and CBNZ with `nonzero`; `wide` is the 64-bit form. -/
  | compareBranch (wide nonzero : Bool) (rt : BitVec 5) (imm : BitVec 19)
  | moveWide (wide : Bool) (op : MoveOp) (hw : BitVec 2) (imm : BitVec 16) (rd : BitVec 5)
  | orrImm (wide : Bool) (immN : BitVec 1) (immr imms : BitVec 6) (rn rd : BitVec 5)
deriving DecidableEq, Repr

def moveOpOf (opc : BitVec 2) : Option MoveOp :=
  match opc.toNat with
  | 0 => some .movn
  | 2 => some .movz
  | 3 => some .movk
  | _ => none

def decode (w : BitVec 32) : Option Instr :=
  let hi := w.extractLsb' 24 8
  let imm19 := w.extractLsb' 5 19
  let lo := w.extractLsb' 0 5
  let wide := w.getLsbD 31
  if w = 0xD503201F#32 then some .nop
  else if w.extractLsb' 26 6 = 0b000101#6 then some (.b (w.extractLsb' 0 26))
  else if hi = 0x54#8 ∧ lo.getLsbD 4 = false then some (.bCond (lo.setWidth 4) imm19)
  else if hi &&& 0x7E#8 = 0x34#8 then some (.compareBranch (hi.getLsbD 7) (hi.getLsbD 0) lo imm19)
  else if w.extractLsb' 23 6 = 0b100101#6 then
    -- a 32-bit move has two halfwords to choose from
    if wide = false ∧ w.getLsbD 22 = true then none
    else
      (moveOpOf (w.extractLsb' 29 2)).map fun op =>
        .moveWide wide op (w.extractLsb' 21 2) (w.extractLsb' 5 16) lo
  else if w.extractLsb' 23 6 = 0b100100#6 ∧ w.extractLsb' 29 2 = 0b01#2 then
    if wide = false ∧ w.getLsbD 22 = true then none
    else
      some (.orrImm wide (w.extractLsb' 22 1) (w.extractLsb' 16 6) (w.extractLsb' 10 6)
        (w.extractLsb' 5 5) lo)
  else none

/-! ## Execution -/

structure Flags where
  n : Bool
  z : Bool
  c : Bool
  v : Bool
deriving DecidableEq, Repr

def conditionHolds (f : Flags) (cond : BitVec 4) : Bool :=
  let result := match (cond.extractLsb' 1 3).toNat with
    | 0 => f.z
    | 1 => f.c
    | 2 => f.n
    | 3 => f.v
    | 4 => f.c && !f.z
    | 5 => f.n == f.v
    | 6 => f.n == f.v && !f.z
    | _ => true
  if cond.getLsbD 0 && cond != 0xF#4 then !result else result

/-- Register 31 of `regs` is the stack pointer. -/
structure State where
  pc : BitVec 64
  regs : BitVec 5 → BitVec 64
  flags : Flags

/-- A source operand: number 31 is the zero register. -/
def State.get (s : State) (r : BitVec 5) : BitVec 64 := if r = 31#5 then 0#64 else s.regs r

/-- A destination operand: writes to the zero register are lost. -/
def State.set (s : State) (r : BitVec 5) (v : BitVec 64) : State :=
  if r = 31#5 then s else { s with regs := Function.update s.regs r v }

/-- A destination where number 31 is the stack pointer. -/
def State.setSp (s : State) (r : BitVec 5) (v : BitVec 64) : State :=
  { s with regs := Function.update s.regs r v }

def State.next (s : State) : State := { s with pc := s.pc + 4 }

/-- The sum of an address and a displacement in words. -/
def branchTo {n : Nat} (pc : BitVec 64) (imm : BitVec n) : BitVec 64 :=
  pc + (imm ++ 0#2).signExtend 64

def moveResult (width : Nat) (op : MoveOp) (pos : Nat) (imm : BitVec 16) (old : BitVec width) :
    BitVec width :=
  let start := match op with
    | .movk => old
    | _ => BitVec.ofNat width 0
  let result := (start &&& ~~~ ((0xffff#16).setWidth width <<< pos)) ||| (imm.setWidth width <<< pos)
  match op with
  | .movn => ~~~ result
  | _ => result

/-- The state after the instruction, and whether it branched. -/
def Instr.exec (s : State) : Instr → Option (State × Bool)
  | .nop => some (s.next, false)
  | .b imm => some ({ s with pc := branchTo s.pc imm }, true)
  | .bCond cond imm =>
    if conditionHolds s.flags cond then some ({ s with pc := branchTo s.pc imm }, true)
    else some (s.next, false)
  | .compareBranch wide nonzero rt imm =>
    let zero := if wide then s.get rt == 0#64 else (s.get rt).setWidth 32 == 0#32
    if zero != nonzero then some ({ s with pc := branchTo s.pc imm }, true)
    else some (s.next, false)
  | .moveWide wide op hw imm rd =>
    let pos := 16 * hw.toNat
    let v := if wide then moveResult 64 op pos imm (s.get rd)
      else (moveResult 32 op pos imm ((s.get rd).setWidth 32)).setWidth 64
    some ((s.set rd v).next, false)
  | .orrImm wide immN immr imms rn rd =>
    if wide then
      (decodeBitMasks 64 immN immr imms).map fun mask => ((s.setSp rd (s.get rn ||| mask)).next, false)
    else
      (decodeBitMasks 32 immN immr imms).map fun mask =>
        ((s.setSp rd (((s.get rn).setWidth 32 ||| mask).setWidth 64)).next, false)

def step (mem : BitVec 64 → BitVec 8) (s : State) : Option (State × Bool) :=
  (decode (fetch mem s.pc)).bind (Instr.exec s)

/-- Runs the next `n` words, up to the first branch that is taken. -/
def runBlock (mem : BitVec 64 → BitVec 8) : Nat → State → Option State
  | 0, s => some s
  | n + 1, s =>
    match step mem s with
    | none => none
    | some (s', true) => some s'
    | some (s', false) => runBlock mem n s'

/-! ## Words with a 19-bit displacement -/

/-- A word by its high byte, the 19 bits of a displacement and the low five bits. -/
def join19 (hi : BitVec 8) (imm : BitVec 19) (lo : BitVec 5) : BitVec 32 := hi ++ imm ++ lo

section Join19

variable (hi : BitVec 8) (imm : BitVec 19) (lo : BitVec 5)

theorem join19_toNat :
    (join19 hi imm lo).toNat = hi.toNat * 2 ^ 24 + imm.toNat * 2 ^ 5 + lo.toNat := by
  simp only [join19, append_toNat]
  omega

theorem join19_fields : (join19 hi imm lo).extractLsb' 24 8 = hi ∧
    (join19 hi imm lo).extractLsb' 5 19 = imm ∧ (join19 hi imm lo).extractLsb' 0 5 = lo ∧
    (join19 hi imm lo).extractLsb' 26 6 = hi.extractLsb' 2 6 := by
  have h := join19_toNat hi imm lo
  have := hi.isLt
  have := imm.isLt
  have := lo.isLt
  refine ⟨?_, ?_, ?_, ?_⟩
  all_goals
    apply eq_of_toNat_eq
    simp only [BitVec.extractLsb'_toNat, Nat.shiftRight_eq_div_pow]
    omega

theorem join19_inj {hi' : BitVec 8} {imm' : BitVec 19} {lo' : BitVec 5}
    (h : join19 hi imm lo = join19 hi' imm' lo') : hi = hi' ∧ imm = imm' ∧ lo = lo' := by
  obtain ⟨h1, h2, h3, -⟩ := join19_fields hi imm lo
  obtain ⟨h1', h2', h3', -⟩ := join19_fields hi' imm' lo'
  rw [h] at h1 h2 h3
  exact ⟨h1.symm.trans h1', h2.symm.trans h2', h3.symm.trans h3'⟩

end Join19

theorem join19_extract (w : BitVec 32) :
    join19 (w.extractLsb' 24 8) (w.extractLsb' 5 19) (w.extractLsb' 0 5) = w := by
  apply eq_of_toNat_eq
  have hw := w.isLt
  rw [join19_toNat]
  simp only [BitVec.extractLsb'_toNat, Nat.shiftRight_eq_div_pow]
  omega

theorem join19_or (hi hi' : BitVec 8) (imm imm' : BitVec 19) (lo lo' : BitVec 5) :
    join19 hi imm lo ||| join19 hi' imm' lo' = join19 (hi ||| hi') (imm ||| imm') (lo ||| lo') := by
  have h : (hi ++ imm ++ lo) ||| (hi' ++ imm' ++ lo') =
      ((hi ++ imm) ||| (hi' ++ imm')) ++ (lo ||| lo') := or_append
  have h' : (hi ++ imm) ||| (hi' ++ imm') = (hi ||| hi') ++ (imm ||| imm') := or_append
  rw [h'] at h
  exact h

theorem join19_and (hi hi' : BitVec 8) (imm imm' : BitVec 19) (lo lo' : BitVec 5) :
    join19 hi imm lo &&& join19 hi' imm' lo' = join19 (hi &&& hi') (imm &&& imm') (lo &&& lo') := by
  have h : (hi ++ imm ++ lo) &&& (hi' ++ imm' ++ lo') =
      ((hi ++ imm) &&& (hi' ++ imm')) ++ (lo &&& lo') := and_append
  have h' : (hi ++ imm) &&& (hi' ++ imm') = (hi &&& hi') ++ (imm &&& imm') := and_append
  rw [h'] at h
  exact h

theorem join19_xor (hi hi' : BitVec 8) (imm imm' : BitVec 19) (lo lo' : BitVec 5) :
    join19 hi imm lo ^^^ join19 hi' imm' lo' = join19 (hi ^^^ hi') (imm ^^^ imm') (lo ^^^ lo') := by
  have h : (hi ++ imm ++ lo) ^^^ (hi' ++ imm' ++ lo') =
      ((hi ++ imm) ^^^ (hi' ++ imm')) ++ (lo ^^^ lo') := xor_append
  have h' : (hi ++ imm) ^^^ (hi' ++ imm') = (hi ^^^ hi') ++ (imm ^^^ imm') := xor_append
  rw [h'] at h
  exact h

/-! ## Conditional branches -/

def Instr.Conditional : Instr → Prop
  | .bCond .. | .compareBranch .. => True
  | _ => False

/-- What a conditional branch tests. -/
def Instr.condition (s : State) : Instr → Bool
  | .bCond cond _ => conditionHolds s.flags cond
  | .compareBranch wide nonzero rt _ =>
    (if wide then s.get rt == 0#64 else (s.get rt).setWidth 32 == 0#32) != nonzero
  | _ => false

def Instr.retarget (imm : BitVec 19) : Instr → Instr
  | .bCond cond _ => .bCond cond imm
  | .compareBranch wide nonzero rt _ => .compareBranch wide nonzero rt imm
  | i => i

theorem Instr.Conditional.exec {i : Instr} (h : i.Conditional) (imm : BitVec 19) (s : State) :
    (i.retarget imm).exec s =
      if i.condition s then some ({ s with pc := branchTo s.pc imm }, true)
      else some (s.next, false) := by
  cases i with
  | bCond => rfl
  | compareBranch => rfl
  | _ => exact h.elim

theorem decode_nop : decode 0xD503201F#32 = some .nop := by
  rw [decode]
  rfl

theorem decode_b (imm : BitVec 26) : decode (0b000101#6 ++ imm) = some (.b imm) := by
  have happ : ((0b000101#6 ++ imm : BitVec 32)).toNat = 5 * 2 ^ 26 + imm.toNat := by
    rw [append_toNat]
    rfl
  have hlt := imm.isLt
  have hne : (0b000101#6 ++ imm : BitVec 32) ≠ 0xD503201F#32 := by
    intro h
    have := congrArg BitVec.toNat h
    rw [happ] at this
    simp only [toNat_ofNat] at this
    omega
  have hop : (0b000101#6 ++ imm : BitVec 32).extractLsb' 26 6 = 0b000101#6 := by
    apply eq_of_toNat_eq
    simp only [BitVec.extractLsb'_toNat, Nat.shiftRight_eq_div_pow, happ, toNat_ofNat]
    omega
  have himm : (0b000101#6 ++ imm : BitVec 32).extractLsb' 0 26 = imm := by
    apply eq_of_toNat_eq
    simp only [BitVec.extractLsb'_toNat, Nat.shiftRight_eq_div_pow, happ]
    omega
  rw [decode, if_neg hne, if_pos hop, himm]

/-- The words that decode to a conditional branch, by their high byte and low bits. -/
theorem decode_join19 (hi : BitVec 8) (imm : BitVec 19) (lo : BitVec 5) :
    decode (join19 hi imm lo) =
      if hi = 0x54#8 ∧ lo.getLsbD 4 = false then some (.bCond (lo.setWidth 4) imm)
      else if hi &&& 0x7E#8 = 0x34#8 then
        some (.compareBranch (hi.getLsbD 7) (hi.getLsbD 0) lo imm)
      else decode (join19 hi imm lo) := by
  obtain ⟨h1, h2, h3, h4⟩ := join19_fields hi imm lo
  have hnop : join19 hi imm lo = 0xD503201F#32 → hi = 0xD5#8 := by
    intro h
    rw [← h1, h]
    rfl
  split
  · next hc =>
    obtain ⟨rfl, hlo⟩ := hc
    rw [decode]
    simp only [h1, h2, h3, h4]
    rw [if_neg (fun h => absurd (hnop h) (by decide)), if_neg (by decide), if_pos ⟨trivial, hlo⟩]
  · split
    · next hc hb =>
      have hb6 : ∀ hi : BitVec 8, hi &&& 0x7E#8 = 0x34#8 →
          hi ≠ 0xD5#8 ∧ hi.extractLsb' 2 6 ≠ 0b000101#6 := by decide
      rw [decode]
      simp only [h1, h2, h3, h4]
      rw [if_neg (fun h => (hb6 hi hb).1 (hnop h)), if_neg (hb6 hi hb).2, if_neg hc, if_pos hb]
    · rfl

theorem conditional_cases {hi : BitVec 8} {imm : BitVec 19} {lo : BitVec 5} {i : Instr}
    (h : decode (join19 hi imm lo) = some i) (hc : i.Conditional) :
    (hi = 0x54#8 ∧ lo.getLsbD 4 = false) ∨ hi &&& 0x7E#8 = 0x34#8 := by
  obtain ⟨h1, h2, h3, h4⟩ := join19_fields hi imm lo
  rw [decode] at h
  simp only [h1, h3] at h
  by_contra hno
  obtain ⟨hno1, hno2⟩ := not_or.1 hno
  rw [if_neg hno1, if_neg hno2] at h
  repeat' split at h
  all_goals
    first
    | contradiction
    | (cases h; exact hc)
    | (rw [Option.map_eq_some_iff] at h; obtain ⟨op, -, rfl⟩ := h; exact hc)

/-- A conditional branch with another displacement is the same branch to elsewhere. -/
theorem decode_retarget {hi : BitVec 8} {imm : BitVec 19} {lo : BitVec 5} {i : Instr}
    (h : decode (join19 hi imm lo) = some i) (hc : i.Conditional) (imm' : BitVec 19) :
    decode (join19 hi imm' lo) = some (i.retarget imm') := by
  rw [decode_join19] at h ⊢
  rcases conditional_cases (by rwa [← decode_join19] at h) hc with hb | hb
  · rw [if_pos hb] at h ⊢
    cases h
    rfl
  · have hno : ¬ (hi = 0x54#8 ∧ lo.getLsbD 4 = false) := by
      rintro ⟨rfl, -⟩
      exact absurd hb (by decide)
    rw [if_neg hno, if_pos hb] at h ⊢
    cases h
    rfl

/-! ## Immediate moves -/

/-- The high byte of a wide-immediate move. -/
def moveByte : Bool → MoveOp → BitVec 8
  | false, .movn => 0x12#8
  | false, .movz => 0x52#8
  | false, .movk => 0x72#8
  | true, .movn => 0x92#8
  | true, .movz => 0xD2#8
  | true, .movk => 0xF2#8

def moveWord (wide : Bool) (op : MoveOp) (hw : BitVec 2) (imm : BitVec 16) (rd : BitVec 5) :
    BitVec 32 :=
  join19 (moveByte wide op) (1#1 ++ hw ++ imm) rd

def orrWord (wide : Bool) (immN : BitVec 1) (immr imms : BitVec 6) (rn rd : BitVec 5) : BitVec 32 :=
  join19 (if wide then 0xB2#8 else 0x32#8) (0#1 ++ immN ++ immr ++ imms ++ rn) rd

/-- The fields of the immediate moves, by the parts of the word. -/
theorem join19_class (hi : BitVec 8) (imm : BitVec 19) (lo : BitVec 5) :
    (join19 hi imm lo).extractLsb' 23 6 = (hi.extractLsb' 0 5 ++ imm.extractLsb' 18 1 : BitVec 6) ∧
    (join19 hi imm lo).extractLsb' 29 2 = hi.extractLsb' 5 2 ∧
    (join19 hi imm lo).getLsbD 31 = hi.getLsbD 7 ∧
    (join19 hi imm lo).getLsbD 22 = imm.getLsbD 17 := by
  have hval := join19_toNat hi imm lo
  have := imm.isLt
  have := lo.isLt
  refine ⟨?_, ?_, ?_, ?_⟩
  · apply eq_of_toNat_eq
    simp only [append_toNat, BitVec.extractLsb'_toNat, Nat.shiftRight_eq_div_pow]
    omega
  · apply eq_of_toNat_eq
    simp only [BitVec.extractLsb'_toNat, Nat.shiftRight_eq_div_pow]
    omega
  · rw [Bool.eq_iff_iff, BitVec.getLsbD, BitVec.getLsbD, Nat.testBit_eq_decide_div_mod_eq,
      Nat.testBit_eq_decide_div_mod_eq, decide_eq_true_eq, decide_eq_true_eq]
    omega
  · rw [Bool.eq_iff_iff, BitVec.getLsbD, BitVec.getLsbD, Nat.testBit_eq_decide_div_mod_eq,
      Nat.testBit_eq_decide_div_mod_eq, decide_eq_true_eq, decide_eq_true_eq]
    omega

/-- A part of the 19 bits. -/
theorem join19_part (hi : BitVec 8) (imm : BitVec 19) (lo : BitVec 5) {a n : Nat} (h : a + n ≤ 19) :
    (join19 hi imm lo).extractLsb' (5 + a) n = imm.extractLsb' a n := by
  apply eq_of_getLsbD_eq
  intro i hi'
  rw [getLsbD_extractLsb', getLsbD_extractLsb', join19, getLsbD_append,
    getLsbD_append, if_neg (by omega), if_pos (by omega)]
  rw [show 5 + a + i - 5 = a + i by omega]

theorem decode_moveWord (wide : Bool) (op : MoveOp) (hw : BitVec 2) (imm : BitVec 16)
    (rd : BitVec 5) (h : wide = true ∨ hw.toNat < 2) :
    decode (moveWord wide op hw imm rd) = some (.moveWide wide op hw imm rd) := by
  have happ : (1#1 ++ hw ++ imm : BitVec 19).toNat = 2 ^ 18 + hw.toNat * 2 ^ 16 + imm.toNat := by
    simp only [append_toNat, toNat_ofNat]
    omega
  have hhw := join19_part (moveByte wide op) (1#1 ++ hw ++ imm) rd (show 16 + 2 ≤ 19 by omega)
  have himm := join19_part (moveByte wide op) (1#1 ++ hw ++ imm) rd (show 0 + 16 ≤ 19 by omega)
  obtain ⟨h1, -, h3, h4⟩ := join19_fields (moveByte wide op) (1#1 ++ hw ++ imm) rd
  obtain ⟨hc, hopc, hwide, h22⟩ := join19_class (moveByte wide op) (1#1 ++ hw ++ imm) rd
  rw [← moveWord] at hhw himm h1 h3 h4 hc hopc hwide h22
  generalize moveWord wide op hw imm rd = w at hhw himm h1 h3 h4 hc hopc hwide h22
  generalize (1#1 ++ hw ++ imm : BitVec 19) = field at *
  have := hw.isLt
  have := imm.isLt
  have hhw' : w.extractLsb' 21 2 = hw := by
    refine hhw.trans (eq_of_toNat_eq ?_)
    simp only [BitVec.extractLsb'_toNat, Nat.shiftRight_eq_div_pow]
    omega
  have himm' : w.extractLsb' 5 16 = imm := by
    refine himm.trans (eq_of_toNat_eq ?_)
    simp only [BitVec.extractLsb'_toNat, Nat.shiftRight_eq_div_pow]
    omega
  have htop : field.extractLsb' 18 1 = 1#1 := by
    apply eq_of_toNat_eq
    simp only [BitVec.extractLsb'_toNat, Nat.shiftRight_eq_div_pow, toNat_ofNat]
    omega
  have hnarrow : ¬ (wide = false ∧ w.getLsbD 22 = true) := by
    rintro ⟨rfl, hbit⟩
    have hsmall : hw.toNat < 2 := by simpa using h
    rw [h22, BitVec.getLsbD, Nat.testBit_eq_decide_div_mod_eq, decide_eq_true_eq] at hbit
    omega
  rw [htop] at hc
  have hnop : w ≠ 0xD503201F#32 := by
    rintro rfl
    revert h1
    cases wide <;> cases op <;> decide
  have hbyte : moveOpOf ((moveByte wide op).extractLsb' 5 2) = some op ∧
      (moveByte wide op).getLsbD 7 = wide ∧
      ((moveByte wide op).extractLsb' 0 5 ++ 1#1 : BitVec 6) = 0b100101#6 ∧
      (moveByte wide op).extractLsb' 2 6 ≠ 0b000101#6 ∧ moveByte wide op ≠ 0x54#8 ∧
      moveByte wide op &&& 0x7E#8 ≠ 0x34#8 := by
    cases wide <;> cases op <;> decide
  obtain ⟨hop, hsf, hcls, hb, hbc, hcb⟩ := hbyte
  rw [decode, if_neg hnop]
  simp only [h1, h3, h4, hhw', himm', hopc, hop, hc, hcls]
  rw [if_neg hb, if_neg (fun h => hbc h.1), if_neg hcb, if_pos trivial, hwide, hsf]
  rw [if_neg hnarrow]
  rfl

theorem decode_orrWord (wide : Bool) (immN : BitVec 1) (immr imms : BitVec 6) (rn rd : BitVec 5)
    (h : wide = true ∨ immN = 0#1) :
    decode (orrWord wide immN immr imms rn rd) = some (.orrImm wide immN immr imms rn rd) := by
  have happ : (0#1 ++ immN ++ immr ++ imms ++ rn : BitVec 19).toNat =
      immN.toNat * 2 ^ 17 + immr.toNat * 2 ^ 11 + imms.toNat * 2 ^ 5 + rn.toNat := by
    simp only [append_toNat, toNat_ofNat]
    omega
  have hn := join19_part (if wide then 0xB2#8 else 0x32#8) (0#1 ++ immN ++ immr ++ imms ++ rn) rd
    (show 17 + 1 ≤ 19 by omega)
  have hr := join19_part (if wide then 0xB2#8 else 0x32#8) (0#1 ++ immN ++ immr ++ imms ++ rn) rd
    (show 11 + 6 ≤ 19 by omega)
  have hs := join19_part (if wide then 0xB2#8 else 0x32#8) (0#1 ++ immN ++ immr ++ imms ++ rn) rd
    (show 5 + 6 ≤ 19 by omega)
  have hrn := join19_part (if wide then 0xB2#8 else 0x32#8) (0#1 ++ immN ++ immr ++ imms ++ rn) rd
    (show 0 + 5 ≤ 19 by omega)
  obtain ⟨h1, -, h3, h4⟩ := join19_fields (if wide then 0xB2#8 else 0x32#8)
    (0#1 ++ immN ++ immr ++ imms ++ rn) rd
  obtain ⟨hc, hopc, hwide, h22⟩ := join19_class (if wide then 0xB2#8 else 0x32#8)
    (0#1 ++ immN ++ immr ++ imms ++ rn) rd
  rw [← orrWord] at hn hr hs hrn h1 h3 h4 hc hopc hwide h22
  generalize orrWord wide immN immr imms rn rd = w at hn hr hs hrn h1 h3 h4 hc hopc hwide h22 ⊢
  generalize (0#1 ++ immN ++ immr ++ imms ++ rn : BitVec 19) = field at *
  have := immN.isLt
  have := immr.isLt
  have := imms.isLt
  have := rn.isLt
  have part : ∀ {a n : Nat} {x : BitVec n}, field.toNat / 2 ^ a % 2 ^ n = x.toNat →
      field.extractLsb' a n = x := by
    intro a n x h
    apply eq_of_toNat_eq
    rw [BitVec.extractLsb'_toNat, Nat.shiftRight_eq_div_pow, h]
  have hn' : w.extractLsb' 22 1 = immN := hn.trans (part (by omega))
  have hr' : w.extractLsb' 16 6 = immr := hr.trans (part (by omega))
  have hs' : w.extractLsb' 10 6 = imms := hs.trans (part (by omega))
  have hrn' : w.extractLsb' 5 5 = rn := hrn.trans (part (by omega))
  have htop : field.extractLsb' 18 1 = 0#1 := part (by rw [toNat_ofNat]; omega)
  have hnarrow : ¬ (wide = false ∧ w.getLsbD 22 = true) := by
    rintro ⟨rfl, hbit⟩
    have hzero : immN = 0#1 := by simpa using h
    have hz : immN.toNat = 0 := by rw [hzero]; rfl
    rw [h22, BitVec.getLsbD, Nat.testBit_eq_decide_div_mod_eq, decide_eq_true_eq] at hbit
    omega
  rw [htop] at hc
  have hnop : w ≠ 0xD503201F#32 := by
    rintro rfl
    revert h1
    cases wide <;> decide
  have hbyte : ∀ wide : Bool, (if wide then 0xB2#8 else 0x32#8).extractLsb' 5 2 = 0b01#2 ∧
      (if wide then 0xB2#8 else 0x32#8).getLsbD 7 = wide ∧
      ((if wide then 0xB2#8 else 0x32#8).extractLsb' 0 5 ++ 0#1 : BitVec 6) = 0b100100#6 ∧
      (if wide then 0xB2#8 else 0x32#8).extractLsb' 2 6 ≠ 0b000101#6 ∧
      (if wide then 0xB2#8 else 0x32#8) ≠ 0x54#8 ∧
      (if wide then 0xB2#8 else 0x32#8) &&& 0x7E#8 ≠ 0x34#8 := by decide
  obtain ⟨hop, hsf, hcls, hb, hbc, hcb⟩ := hbyte wide
  rw [decode, if_neg hnop]
  simp only [h1, h3, h4, hn', hr', hs', hrn', hopc, hop, hc, hcls]
  rw [if_neg hb, if_neg (fun h => hbc h.1), if_neg hcb, if_neg (by decide), if_pos ⟨trivial, trivial⟩,
    hwide, hsf, if_neg hnarrow]

/-! ## Straight-line code for one register -/

/-- The word replaces the register by a function of it and goes on. -/
def Updates (d : BitVec 5) (w : BitVec 32) (f : BitVec 64 → BitVec 64) : Prop :=
  ∃ i, decode w = some i ∧ ∀ s, i.exec s = some ((s.set d (f (s.get d))).next, false)

section Updates

variable {d : BitVec 5} {mem : BitVec 64 → BitVec 8}

theorem State.get_set (hd : d ≠ 31#5) (s : State) (v : BitVec 64) : (s.set d v).get d = v := by
  simp [State.set, State.get, hd]

theorem State.set_get (s : State) : s.set d (s.get d) = s := by
  rw [State.set]
  split
  · rfl
  · next h => simp [State.get, h]

theorem State.set_set (s : State) (v v' : BitVec 64) : (s.set d v).set d v' = s.set d v' := by
  by_cases h : d = 31#5 <;> simp [State.set, h]

theorem State.set_next (s : State) (v : BitVec 64) : s.next.set d v = (s.set d v).next := by
  by_cases h : d = 31#5 <;> simp [State.set, State.next, h]

@[simp] theorem State.set_pc (s : State) (v : BitVec 64) : (s.set d v).pc = s.pc := by
  rw [State.set]
  split <;> rfl

/-- A block of such words applies their functions in order. -/
theorem runBlock_updates (hd : d ≠ 31#5) : ∀ (ws : List (BitVec 32)) (fs : List (BitVec 64 → BitVec 64))
    (s : State), List.Forall₂ (Updates d) ws fs → Loaded mem s.pc (ws.flatMap wordBytes) →
    runBlock mem ws.length s = some { s.set d (fs.foldl (fun v f => f v) (s.get d)) with
      pc := s.pc + BitVec.ofNat 64 (4 * ws.length) }
  | [], fs, s, h, _ => by
    cases h
    rw [List.foldl_nil, State.set_get, List.length_nil, Nat.mul_zero, BitVec.add_zero]
    rfl
  | w :: ws, fs, s, h, hl => by
    cases h with
    | cons hw hws =>
      next f fs =>
      obtain ⟨i, hdec, hexec⟩ := hw
      have hfetch : fetch mem s.pc = w := by
        have := @Loaded.fetch _ _ _ hl 0 (by simp)
        simpa [wordAt_wordBytes] using this
      have hstep : step mem s = some ((s.set d (f (s.get d))).next, false) := by
        rw [step, hfetch, hdec]
        exact hexec s
      have hpc : (s.set d (f (s.get d))).next.pc = s.pc + 4 := by
        rw [State.next, State.set_pc]
      have hget : (s.set d (f (s.get d))).next.get d = f (s.get d) := State.get_set hd s _
      have hrest := runBlock_updates hd ws fs (s.set d (f (s.get d))).next hws
        (by rw [hpc]; exact hl.right)
      rw [List.length_cons, runBlock, hstep]
      simp only
      rw [hrest, hget, hpc, State.set_next, State.set_set, List.foldl_cons, BitVec.add_assoc,
        Nat.mul_succ, Nat.add_comm, ofNat_add]
      rfl

end Updates

end Wago.A64
