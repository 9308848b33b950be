/-
A part of the RV64I machine: the integer instructions that build constants and the transfers, with
their encodings. An address space holds the code; a step fetches, decodes and executes one word.
-/
import Wago.Lib.CodeImage

namespace Wago.Rv64

open CodeImage List

/-! ## Instructions and their words -/

inductive Instr where
  | lui (rd : BitVec 5) (imm : BitVec 20)
  | auipc (rd : BitVec 5) (imm : BitVec 20)
  | addi (rd rs1 : BitVec 5) (imm : BitVec 12)
  | addiw (rd rs1 : BitVec 5) (imm : BitVec 12)
  | slli (rd rs1 : BitVec 5) (shamt : BitVec 6)
  | srli (rd rs1 : BitVec 5) (shamt : BitVec 6)
  | jalr (rd rs1 : BitVec 5) (imm : BitVec 12)
deriving DecidableEq, Repr

def iFormat (imm : BitVec 12) (rs1 : BitVec 5) (funct3 : BitVec 3) (rd : BitVec 5)
    (opcode : BitVec 7) : BitVec 32 :=
  imm ++ rs1 ++ funct3 ++ rd ++ opcode

def uFormat (imm : BitVec 20) (rd : BitVec 5) (opcode : BitVec 7) : BitVec 32 :=
  imm ++ rd ++ opcode

def opcodeOf (w : BitVec 32) : BitVec 7 := w.extractLsb' 0 7
def rdOf (w : BitVec 32) : BitVec 5 := w.extractLsb' 7 5
def funct3Of (w : BitVec 32) : BitVec 3 := w.extractLsb' 12 3
def rs1Of (w : BitVec 32) : BitVec 5 := w.extractLsb' 15 5
def immIOf (w : BitVec 32) : BitVec 12 := w.extractLsb' 20 12
def immUOf (w : BitVec 32) : BitVec 20 := w.extractLsb' 12 20

def decode (w : BitVec 32) : Option Instr :=
  let rd := rdOf w
  let rs1 := rs1Of w
  let imm := immIOf w
  match (opcodeOf w).toNat, (funct3Of w).toNat with
  | 0x37, _ => some (.lui rd (immUOf w))
  | 0x17, _ => some (.auipc rd (immUOf w))
  | 0x13, 0 => some (.addi rd rs1 imm)
  | 0x1b, 0 => some (.addiw rd rs1 imm)
  | 0x13, 1 => if imm.extractLsb' 6 6 = 0 then some (.slli rd rs1 (imm.setWidth 6)) else none
  | 0x13, 5 => if imm.extractLsb' 6 6 = 0 then some (.srli rd rs1 (imm.setWidth 6)) else none
  | 0x67, 0 => some (.jalr rd rs1 imm)
  | _, _ => none

section Fields

variable (imm : BitVec 12) (imm20 : BitVec 20) (rs1 rd : BitVec 5) (funct3 : BitVec 3)
  (opcode : BitVec 7)

theorem iFormat_toNat : (iFormat imm rs1 funct3 rd opcode).toNat =
    opcode.toNat + rd.toNat * 2 ^ 7 + funct3.toNat * 2 ^ 12 + rs1.toNat * 2 ^ 15 +
      imm.toNat * 2 ^ 20 := by
  simp only [iFormat, append_toNat]
  omega

theorem uFormat_toNat : (uFormat imm20 rd opcode).toNat =
    opcode.toNat + rd.toNat * 2 ^ 7 + imm20.toNat * 2 ^ 12 := by
  simp only [uFormat, append_toNat]
  omega

/-- Reading back the fields of an I-format word. -/
theorem iFormat_fields : opcodeOf (iFormat imm rs1 funct3 rd opcode) = opcode ∧
    rdOf (iFormat imm rs1 funct3 rd opcode) = rd ∧
    funct3Of (iFormat imm rs1 funct3 rd opcode) = funct3 ∧
    rs1Of (iFormat imm rs1 funct3 rd opcode) = rs1 ∧
    immIOf (iFormat imm rs1 funct3 rd opcode) = imm := by
  have h := iFormat_toNat imm rs1 rd funct3 opcode
  generalize iFormat imm rs1 funct3 rd opcode = w at h
  have := opcode.isLt
  have := rd.isLt
  have := funct3.isLt
  have := rs1.isLt
  have := imm.isLt
  refine ⟨?_, ?_, ?_, ?_, ?_⟩
  all_goals
    apply BitVec.eq_of_toNat_eq
    simp only [opcodeOf, rdOf, funct3Of, rs1Of, immIOf, BitVec.extractLsb'_toNat,
      Nat.shiftRight_eq_div_pow]
    omega

theorem uFormat_fields : opcodeOf (uFormat imm20 rd opcode) = opcode ∧
    rdOf (uFormat imm20 rd opcode) = rd ∧ immUOf (uFormat imm20 rd opcode) = imm20 := by
  have h := uFormat_toNat imm20 rd opcode
  generalize uFormat imm20 rd opcode = w at h
  have := opcode.isLt
  have := rd.isLt
  have := imm20.isLt
  refine ⟨?_, ?_, ?_⟩
  all_goals
    apply BitVec.eq_of_toNat_eq
    simp only [opcodeOf, rdOf, immUOf, BitVec.extractLsb'_toNat, Nat.shiftRight_eq_div_pow]
    omega

end Fields

theorem decode_lui (rd : BitVec 5) (imm : BitVec 20) :
    decode (uFormat imm rd 0x37#7) = some (.lui rd imm) := by
  obtain ⟨h1, h2, h3⟩ := uFormat_fields imm rd 0x37#7
  simp [decode, h1, h2, h3]

theorem decode_auipc (rd : BitVec 5) (imm : BitVec 20) :
    decode (uFormat imm rd 0x17#7) = some (.auipc rd imm) := by
  obtain ⟨h1, h2, h3⟩ := uFormat_fields imm rd 0x17#7
  simp [decode, h1, h2, h3]

theorem decode_addi (rd rs1 : BitVec 5) (imm : BitVec 12) :
    decode (iFormat imm rs1 0#3 rd 0x13#7) = some (.addi rd rs1 imm) := by
  obtain ⟨h1, h2, h3, h4, h5⟩ := iFormat_fields imm rs1 rd 0#3 0x13#7
  simp [decode, h1, h2, h3, h4, h5]

theorem decode_addiw (rd rs1 : BitVec 5) (imm : BitVec 12) :
    decode (iFormat imm rs1 0#3 rd 0x1b#7) = some (.addiw rd rs1 imm) := by
  obtain ⟨h1, h2, h3, h4, h5⟩ := iFormat_fields imm rs1 rd 0#3 0x1b#7
  simp [decode, h1, h2, h3, h4, h5]

theorem decode_jalr (rd rs1 : BitVec 5) (imm : BitVec 12) :
    decode (iFormat imm rs1 0#3 rd 0x67#7) = some (.jalr rd rs1 imm) := by
  obtain ⟨h1, h2, h3, h4, h5⟩ := iFormat_fields imm rs1 rd 0#3 0x67#7
  simp [decode, h1, h2, h3, h4, h5]

theorem decode_slli (rd rs1 : BitVec 5) (shamt : BitVec 6) :
    decode (iFormat (shamt.setWidth 12) rs1 1#3 rd 0x13#7) = some (.slli rd rs1 shamt) := by
  obtain ⟨h1, h2, h3, h4, h5⟩ := iFormat_fields (shamt.setWidth 12) rs1 rd 1#3 0x13#7
  have hz : (shamt.setWidth 12).extractLsb' 6 6 = 0 := by
    ext i hi
    simp
  simp [decode, h1, h2, h3, h4, h5, hz]

theorem decode_srli (rd rs1 : BitVec 5) (shamt : BitVec 6) :
    decode (iFormat (shamt.setWidth 12) rs1 5#3 rd 0x13#7) = some (.srli rd rs1 shamt) := by
  obtain ⟨h1, h2, h3, h4, h5⟩ := iFormat_fields (shamt.setWidth 12) rs1 rd 5#3 0x13#7
  have hz : (shamt.setWidth 12).extractLsb' 6 6 = 0 := by
    ext i hi
    simp
  simp [decode, h1, h2, h3, h4, h5, hz]

/-! ## Execution -/

structure State where
  pc : BitVec 64
  regs : BitVec 5 → BitVec 64

/-- Register `x0` reads as zero and ignores writes. -/
def State.get (s : State) (r : BitVec 5) : BitVec 64 := if r = 0#5 then 0 else s.regs r

def State.set (s : State) (r : BitVec 5) (v : BitVec 64) : State :=
  if r = 0#5 then s else { s with regs := Function.update s.regs r v }

def State.next (s : State) : State := { s with pc := s.pc + 4 }

def Instr.exec (s : State) : Instr → State
  | .lui rd imm => (s.set rd ((imm ++ 0#12).signExtend 64)).next
  | .auipc rd imm => (s.set rd (s.pc + (imm ++ 0#12).signExtend 64)).next
  | .addi rd rs1 imm => (s.set rd (s.get rs1 + imm.signExtend 64)).next
  | .addiw rd rs1 imm =>
    (s.set rd (((s.get rs1 + imm.signExtend 64).setWidth 32).signExtend 64)).next
  | .slli rd rs1 shamt => (s.set rd (s.get rs1 <<< shamt.toNat)).next
  | .srli rd rs1 shamt => (s.set rd (s.get rs1 >>> shamt.toNat)).next
  | .jalr rd rs1 imm =>
    { s.set rd (s.pc + 4) with pc := (s.get rs1 + imm.signExtend 64) &&& ~~~ 1#64 }

def step (mem : BitVec 64 → BitVec 8) (s : State) : Option State :=
  (decode (fetch mem s.pc)).map (Instr.exec s)

def run (mem : BitVec 64 → BitVec 8) : Nat → State → Option State
  | 0, s => some s
  | n + 1, s => (step mem s).bind (run mem n)

/-- The register an instruction writes. -/
def Instr.dest : Instr → BitVec 5
  | .lui rd _ | .auipc rd _ | .addi rd _ _ | .addiw rd _ _ | .slli rd _ _ | .srli rd _ _
  | .jalr rd _ _ => rd

/-- The instruction goes on to the next word. -/
def Instr.Straight : Instr → Prop
  | .jalr .. => False
  | _ => True

section Run

variable {mem : BitVec 64 → BitVec 8} {s : State}

@[simp] theorem State.set_pc (r : BitVec 5) (v : BitVec 64) : (s.set r v).pc = s.pc := by
  rw [State.set]
  split <;> rfl

theorem State.get_set {r : BitVec 5} (h : r ≠ 0#5) (v : BitVec 64) : (s.set r v).get r = v := by
  simp [State.set, State.get, h]

theorem Instr.Straight.pc {i : Instr} (h : i.Straight) : (i.exec s).pc = s.pc + 4 := by
  cases i with
  | jalr => exact h.elim
  | _ => simp [Instr.exec, State.next]

theorem step_of_decode {i : Instr} (h : decode (fetch mem s.pc) = some i) :
    step mem s = some (i.exec s) := by
  rw [step, h]
  rfl

/-- Straight-line code in memory runs to its end, one instruction after another. -/
theorem run_straight : ∀ (is : List Instr) (ws : List (BitVec 32)) (s : State),
    ws.map decode = is.map some → (∀ i ∈ is, i.Straight) →
    Loaded mem s.pc (ws.flatMap wordBytes) → run mem ws.length s = some (is.foldl Instr.exec s)
  | [], ws, s, hd, _, _ => by
    rw [map_nil, map_eq_nil_iff] at hd
    rw [hd]
    rfl
  | i :: is, [], s, hd, _, _ => by simp at hd
  | i :: is, w :: ws, s, hd, hs, hl => by
    obtain ⟨hw, hd⟩ := List.cons.inj hd
    have hfetch : fetch mem s.pc = w := by
      have := @Loaded.fetch _ _ _ hl 0 (by simp)
      simpa [wordAt_wordBytes] using this
    rw [length_cons, run, step_of_decode (by rw [hfetch]; exact hw), Option.bind_some,
      foldl_cons]
    apply run_straight is ws _ hd (fun j hj => hs j (mem_cons_of_mem i hj))
    rw [(hs i mem_cons_self).pc]
    exact hl.right

theorem foldl_pc : ∀ (is : List Instr) (s : State), (∀ i ∈ is, i.Straight) →
    (is.foldl Instr.exec s).pc = s.pc + BitVec.ofNat 64 (4 * is.length)
  | [], s, _ => by simp
  | i :: is, s, h => by
    rw [foldl_cons, foldl_pc is _ (fun j hj => h j (mem_cons_of_mem i hj)),
      (h i mem_cons_self).pc, length_cons, BitVec.add_assoc]
    congr 1
    rw [Nat.mul_succ, Nat.add_comm, BitVec.ofNat_add]
    rfl

end Run

/-! ## Blocks that set one register -/

/-- The words are straight-line code that writes `d` alone and leaves `v` there. -/
structure Builds (d : BitVec 5) (v : BitVec 64) (ws : List (BitVec 32)) (is : List Instr) : Prop where
  decodes : ws.map decode = is.map some
  straight : ∀ i ∈ is, i.Straight
  dest : ∀ i ∈ is, i.dest = d
  effect : ∀ s, (is.foldl Instr.exec s).regs = (s.set d v).regs

section Builds

variable {d : BitVec 5} {v v' : BitVec 64} {ws : List (BitVec 32)} {is : List Instr}

theorem Builds.single {w : BitVec 32} {i : Instr} (hw : decode w = some i) (hi : i.Straight)
    (hdest : i.dest = d) (heff : ∀ s, (i.exec s).regs = (s.set d v).regs) : Builds d v [w] [i] where
  decodes := by simp [hw]
  straight := by
    intro j hj
    rw [mem_singleton.1 hj]
    exact hi
  dest := by
    intro j hj
    rw [mem_singleton.1 hj]
    exact hdest
  effect := heff

/-- One more instruction, whose result depends on the register built so far only. -/
theorem Builds.snoc (h : Builds d v ws is) (hd : d ≠ 0#5) {w : BitVec 32} {i : Instr}
    (hw : decode w = some i) (hi : i.Straight) (hdest : i.dest = d)
    (heff : ∀ s : State, s.get d = v → (i.exec s).regs = (s.set d v').regs) :
    Builds d v' (ws ++ [w]) (is ++ [i]) where
  decodes := by simp [h.decodes, hw]
  straight := by
    intro j hj
    rcases mem_append.1 hj with hj | hj
    · exact h.straight j hj
    · rw [mem_singleton.1 hj]; exact hi
  dest := by
    intro j hj
    rcases mem_append.1 hj with hj | hj
    · exact h.dest j hj
    · rw [mem_singleton.1 hj]; exact hdest
  effect := by
    intro s
    have hs := h.effect s
    rw [foldl_append, foldl_cons, foldl_nil]
    generalize is.foldl Instr.exec s = t at hs
    have hget : t.get d = v := by
      rw [State.get, hs]
      exact State.get_set hd v
    rw [heff t hget]
    simp [State.set, hd, hs]

theorem Builds.length_eq (h : Builds d v ws is) : ws.length = is.length := by
  simpa using congrArg List.length h.decodes

theorem Builds.mem_dest (h : Builds d v ws is) {w : BitVec 32} (hw : w ∈ ws) :
    ∃ i, decode w = some i ∧ i.dest = d := by
  have hmem : decode w ∈ is.map some := by
    rw [← h.decodes]
    exact mem_map_of_mem hw
  obtain ⟨i, hi, heq⟩ := mem_map.1 hmem
  exact ⟨i, heq.symm, h.dest i hi⟩

theorem Builds.run (h : Builds d v ws is) {mem : BitVec 64 → BitVec 8} {s : State}
    (hl : Loaded mem s.pc (ws.flatMap wordBytes)) :
    run mem ws.length s =
      some { pc := s.pc + BitVec.ofNat 64 (4 * ws.length), regs := (s.set d v).regs } := by
  rw [run_straight is ws s h.decodes h.straight hl, h.length_eq, ← foldl_pc is s h.straight,
    ← h.effect s]

end Builds

end Wago.Rv64
