/-
The riscv64 encoder (`encoder/riscv64/asm.go`, `constant.go`, `branch.go`): the emitters the constant
sequences and long transfers are made of, `Constant64`, and the AUIPC/JALR envelope with its fixup.

Both split a signed number into a rounded high part and a signed low part of twelve bits. A constant
outside 32 bits is built from its rounded upper part, shifted and corrected; after three such steps
every 64-bit value is inside.
-/
import Wago.Lib.Rv64

namespace Wago.Riscv64

open CodeImage Rv64

/-! ## The assembler -/

/-- A `uint8`; numbers above 31 are refused by `registers`. -/
abbrev Reg := Nat

def scratch1 : Reg := 31
def ra : Reg := 1

structure Asm where
  B : List (BitVec 8) := []
  err : Option String := none
deriving DecidableEq, Repr

/-- The low `n` bits of a signed number, as the conversion to `uint32` and a mask give them. -/
def bits (n : Nat) (x : Int) : Nat := (x % 2 ^ n).toNat

namespace Asm

def fail (a : Asm) (message : String) : Asm :=
  match a.err with
  | none => { a with err := some ("riscv64: " ++ message) }
  | some _ => a

def registers (a : Asm) (regs : List Reg) : Asm × Bool :=
  if a.err ≠ none then (a, false)
  else if regs.any (· > 31) then (a.fail "register outside x0..x31", false)
  else (a, true)

def word (a : Asm) (w : BitVec 32) : Asm :=
  let a := if a.B.length % 4 ≠ 0 then a.fail "unaligned code buffer" else a
  if a.err = none then { a with B := a.B ++ wordBytes w } else a

def i (a : Asm) (op f3 : Nat) (dst src : Reg) (imm : Int) : Asm :=
  match a.registers [dst, src] with
  | (a, false) => a
  | (a, true) =>
    if imm < -2048 ∨ imm > 2047 then a.fail "immediate outside signed 12-bit range"
    else
      a.word (BitVec.ofNat 32
        (op ||| dst <<< 7 ||| f3 <<< 12 ||| src <<< 15 ||| bits 12 imm <<< 20))

def u (a : Asm) (op : Nat) (dst : Reg) (imm20 : Nat) : Asm :=
  match a.registers [dst] with
  | (a, false) => a
  | (a, true) =>
    if imm20 > 0xfffff then a.fail "upper immediate outside 20-bit field"
    else a.word (BitVec.ofNat 32 (op ||| dst <<< 7 ||| imm20 <<< 12))

def addi (a : Asm) (dst src : Reg) (imm : Int) : Asm := a.i 0x13 0 dst src imm
def addiw (a : Asm) (dst src : Reg) (imm : Int) : Asm := a.i 0x1b 0 dst src imm
def lui (a : Asm) (dst : Reg) (imm20 : Nat) : Asm := a.u 0x37 dst imm20
def auipc (a : Asm) (dst : Reg) (imm20 : Nat) : Asm := a.u 0x17 dst imm20
def jalr (a : Asm) (link base : Reg) (offset : Int) : Asm := a.i 0x67 0 link base offset

def shift (a : Asm) (dst src : Reg) (count : Nat) (right arithmetic word : Bool) : Asm :=
  let limit := if word then 32 else 64
  let op := if word then 0x1b else 0x13
  if count ≥ limit then a.fail "shift count outside instruction width"
  else
    let f3 := if right then 5 else 1
    let imm := if arithmetic then count ||| 0x400 else count
    a.i op f3 dst src imm

def slli (a : Asm) (dst src : Reg) (count : Nat) : Asm := a.shift dst src count false false false
def srli (a : Asm) (dst src : Reg) (count : Nat) : Asm := a.shift dst src count true false false

def zeroExtend32 (a : Asm) (dst src : Reg) : Asm :=
  match a.registers [dst, src] with
  | (a, false) => a
  | (a, true) => (a.slli dst src 32).srli dst dst 32

/-! ## Constants -/

/-- The sign-extended low twelve bits, `int64(int32(uint32(value)<<20) >> 20)`. -/
def low (value : Int) : Int := ((BitVec.ofInt 32 value <<< 20).sshiftRight 20).toInt

/-- The upper part, rounded so that `low` corrects it. -/
def upper (value : Int) : Int :=
  if low value < 0 then (value >>> (12 : Nat)) + 1 else value >>> (12 : Nat)

theorem natAbs_upper_lt {value : Int} (h : ¬ (-2 ^ 31 ≤ value ∧ value ≤ 2 ^ 31 - 1)) :
    (upper value).natAbs < value.natAbs := by
  simp only [upper, Int.shiftRight_eq_div_pow]
  split <;> omega

/-- `value` is an `int64`. -/
def constant64 (a : Asm) (dst : Reg) (value : Int) : Asm :=
  match a.registers [dst] with
  | (a, false) => a
  | (a, true) =>
    if value ≥ -2048 ∧ value ≤ 2047 then a.addi dst 0 value
    else if -2 ^ 31 ≤ value ∧ value ≤ 2 ^ 31 - 1 then
      let a := a.lui dst (bits 20 ((value + 2048) >>> (12 : Nat)))
      -- ADDIW undoes the sign extension of LUI where the rounding crosses bit 31
      if low value ≠ 0 then a.addiw dst dst (low value) else a
    else
      let a := (a.constant64 dst (upper value)).slli dst dst 12
      if low value ≠ 0 then a.addi dst dst (low value) else a
termination_by value.natAbs
decreasing_by exact natAbs_upper_lt (by assumption)

/-- `value` is a `uint32`. -/
def constant32 (a : Asm) (dst : Reg) (value : Nat) : Asm :=
  let a := a.constant64 dst (BitVec.ofNat 32 value).toInt
  if value >>> 31 ≠ 0 then a.zeroExtend32 dst dst else a

/-! ## Long transfers -/

/-- The second component is the site, or `-1`. -/
def jumpLong (a : Asm) (call : Bool) : Asm × Int :=
  let pos := a.B.length
  let link := if call then ra else 0
  let a := (a.auipc scratch1 0).jalr link scratch1 0
  if a.err ≠ none then (a, -1) else (a, pos)

def putEnvelope (a : Asm) (site : Nat) (hi lo : BitVec 32) : Asm :=
  { a with B := putWord (putWord a.B site hi) (site + 4) lo }

/-- The second component is the error. -/
def patchLong (a : Asm) (site target : Int) : Asm × Option String :=
  if a.err ≠ none then (a, a.err)
  else if site < 0 ∨ site % 4 ≠ 0 ∨ target % 4 ≠ 0 ∨ site > a.B.length - 8 then
    (a, some "riscv64: invalid long fixup site or alignment")
  else
    let hiWord := wordAt a.B site.toNat
    let loWord := wordAt a.B (site.toNat + 4)
    if hiWord &&& 0xfff ≠ BitVec.ofNat 32 (0x17 ||| scratch1 <<< 7) ∨
        loWord &&& 0xfffff ≠ BitVec.ofNat 32 (0x67 ||| scratch1 <<< 15) ∧
          loWord &&& 0xfffff ≠ BitVec.ofNat 32 (0x67 ||| ra <<< 7 ||| scratch1 <<< 15) then
      (a, some "riscv64: fixup site is not a long transfer envelope")
    else if target < -2 ^ 63 + site then
      (a, some "riscv64: long fixup displacement overflows")
    else
      let delta := target - site
      if delta < -2 ^ 31 - 2048 ∨ delta > 2 ^ 31 - 2048 - 1 then
        (a, some ("riscv64: long fixup displacement " ++ toString delta ++ " is out of range"))
      else
        let high := (delta + 2048) >>> (12 : Nat)
        let low := delta - high * 2 ^ 12
        (a.putEnvelope site.toNat (hiWord &&& 0xfff ||| BitVec.ofNat 32 (bits 20 high) <<< 12)
          (loWord &&& 0xfffff ||| BitVec.ofNat 32 (bits 12 low) <<< 20), none)

end Asm

/-! ## What the emitters emit -/

/-- Nothing has failed yet, and the next word has its place. -/
structure Ready (a : Asm) : Prop where
  err : a.err = none
  aligned : a.B.length % 4 = 0

def Asm.append (a : Asm) (ws : List (BitVec 32)) : Asm := { a with B := a.B ++ ws.flatMap wordBytes }

theorem flatMap_wordBytes_length (ws : List (BitVec 32)) :
    (ws.flatMap wordBytes).length = 4 * ws.length := by
  induction ws with
  | nil => rfl
  | cons w ws ih => simp [ih]; omega

theorem Asm.append_append (a : Asm) (ws ws' : List (BitVec 32)) :
    (a.append ws).append ws' = a.append (ws ++ ws') := by
  simp [Asm.append]

namespace Ready

variable {a : Asm} (h : Ready a)

include h

theorem append (ws : List (BitVec 32)) : Ready (a.append ws) where
  err := h.err
  aligned := by
    have := h.aligned
    simp only [Asm.append, List.length_append, flatMap_wordBytes_length]
    omega

theorem registers {regs : List Reg} (hr : ∀ r ∈ regs, r ≤ 31) : a.registers regs = (a, true) := by
  have hany : regs.any (· > 31) = false := by
    rw [List.any_eq_false]
    intro r hmem
    simpa using hr r hmem
  simp [Asm.registers, h.err, hany]

theorem word (w : BitVec 32) : a.word w = a.append [w] := by
  simp [Asm.word, h.aligned, h.err, Asm.append]

end Ready

theorem bits_lt (n : Nat) (x : Int) : bits n x < 2 ^ n := by
  have hpos : (0 : Int) < 2 ^ n := Int.pow_pos (by decide)
  rw [bits, Int.toNat_lt (Int.emod_nonneg x hpos.ne')]
  push_cast
  exact Int.emod_lt_of_pos x hpos

theorem ofNat_bits (n : Nat) (x : Int) : BitVec.ofNat n (bits n x) = BitVec.ofInt n x := by
  apply BitVec.eq_of_toNat_eq
  rw [BitVec.toNat_ofNat, Nat.mod_eq_of_lt (bits_lt n x), BitVec.toNat_ofInt, bits]
  push_cast
  rfl

/-- The word that `i` puts together has the architecture's I format. -/
theorem iWord_eq {op f3 dst src : Nat} (hop : op < 128) (hf : f3 < 8) (hd : dst ≤ 31)
    (hs : src ≤ 31) (imm : Int) :
    BitVec.ofNat 32 (op ||| dst <<< 7 ||| f3 <<< 12 ||| src <<< 15 ||| bits 12 imm <<< 20) =
      iFormat (BitVec.ofInt 12 imm) (BitVec.ofNat 5 src) (BitVec.ofNat 3 f3) (BitVec.ofNat 5 dst)
        (BitVec.ofNat 7 op) := by
  have hb := bits_lt 12 imm
  rw [or_shiftLeft_eq_add (x := op) (by omega), or_shiftLeft_eq_add (k := 12) (by omega),
    or_shiftLeft_eq_add (k := 15) (by omega), or_shiftLeft_eq_add (k := 20) (by omega),
    ← ofNat_bits]
  apply BitVec.eq_of_toNat_eq
  rw [iFormat_toNat]
  simp only [BitVec.toNat_ofNat]
  omega

theorem uWord_eq {op dst : Nat} (imm20 : Nat) (hop : op < 128) (hd : dst ≤ 31) :
    BitVec.ofNat 32 (op ||| dst <<< 7 ||| imm20 <<< 12) =
      uFormat (BitVec.ofNat 20 imm20) (BitVec.ofNat 5 dst) (BitVec.ofNat 7 op) := by
  rw [or_shiftLeft_eq_add (x := op) (by omega), or_shiftLeft_eq_add (k := 12) (by omega)]
  apply BitVec.eq_of_toNat_eq
  rw [uFormat_toNat]
  simp only [BitVec.toNat_ofNat]
  omega

namespace Ready

variable {a : Asm} (h : Ready a) {dst src : Reg} (hd : dst ≤ 31)

include h hd

theorem i {op f3 : Nat} (hop : op < 128) (hf : f3 < 8) (hs : src ≤ 31) {imm : Int}
    (h0 : -2048 ≤ imm) (h1 : imm ≤ 2047) :
    a.i op f3 dst src imm = a.append [iFormat (BitVec.ofInt 12 imm) (BitVec.ofNat 5 src)
      (BitVec.ofNat 3 f3) (BitVec.ofNat 5 dst) (BitVec.ofNat 7 op)] := by
  rw [Asm.i, h.registers (by simp [hd, hs]), ← iWord_eq hop hf hd hs imm, ← h.word]
  simp only
  rw [if_neg (by omega)]

theorem u {op : Nat} (hop : op < 128) {imm20 : Nat} (hi : imm20 < 2 ^ 20) :
    a.u op dst imm20 = a.append [uFormat (BitVec.ofNat 20 imm20) (BitVec.ofNat 5 dst)
      (BitVec.ofNat 7 op)] := by
  rw [Asm.u, h.registers (by simpa using hd), ← uWord_eq imm20 hop hd, ← h.word]
  simp only
  rw [if_neg (by omega)]

end Ready

end Wago.Riscv64
