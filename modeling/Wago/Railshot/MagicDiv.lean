/-
Constant-divisor strength reduction (`amd64/magicdiv.go`, `amd64/bounded_unsigned_div.go`,
`arm64/magic_wide_u32.go`). A lowering is the content of the result register as a function of the
register that holds the dividend; every allocated register is a variable. An `i32` register may carry
anything in its upper half.
-/
import Mathlib.Data.Nat.Bitwise
import Wago.Railshot.MemoryMinBounds
import Wago.Railshot.MagicNum

namespace Wago.Railshot

open BitVec

/-! ## Instructions -/

abbrev Word := BitVec 64

abbrev opWidth : Bool → Nat
  | true => 64
  | false => 32

/-- The operand an instruction of width `w` reads. -/
def lo (w : Bool) (x : Word) : BitVec (opWidth w) := x.setWidth _

/-- The register after a result of width `w`; a 32-bit result clears the upper half. -/
def written (w : Bool) (y : BitVec (opWidth w)) : Word := y.setWidth 64

namespace X86

def add (w : Bool) (x y : Word) : Word := written w (lo w x + lo w y)
def sub (w : Bool) (x y : Word) : Word := written w (lo w x - lo w y)
def and (w : Bool) (x y : Word) : Word := written w (lo w x &&& lo w y)
def imul (w : Bool) (x y : Word) : Word := written w (lo w x * lo w y)
def neg (w : Bool) (x : Word) : Word := written w (-lo w x)
def mov32 (x : Word) : Word := written false (lo false x)

/-- No instruction is emitted for a count of zero. -/
def shr (w : Bool) (x : Word) (count : Nat) : Word :=
  if count = 0 then x else written w (lo w x >>> (count % opWidth w))

def sar (w : Bool) (x : Word) (count : Nat) : Word :=
  if count = 0 then x else written w ((lo w x).sshiftRight (count % opWidth w))

/-- `RDX` after `mul` and `imul` of `RAX`. -/
def mul (w : Bool) (rax r : Word) : Word := written w (mulHighU (lo w r) (lo w rax))
def imulHigh (w : Bool) (rax r : Word) : Word := written w (mulHighS (lo w r) (lo w rax))

end X86

/-! ## Lowerings -/

/-- Why a lowering leaves no result: it does not apply, the generated code traps, or the compiler
panics. -/
inductive Stop
  | fallback
  | trapDivOverflow
  | panic
deriving DecidableEq, Repr

def orPanic {α : Type} : Option α → Except Stop α
  | some a => .ok a
  | none => .error .panic

def log2u (v : Nat) : Nat := if v > 1 then log2u (v >>> 1) + 1 else 0
decreasing_by rw [Nat.shiftRight_eq_div_pow]; omega

/-- `and reg, imm`, with a wide mask loaded into a scratch first. -/
def andImm (reg : Word) (imm : Int) (w : Bool) : Word :=
  if -2 ^ 31 ≤ imm ∧ imm < 2 ^ 31 then X86.and w reg ((BitVec.ofInt 32 imm).signExtend 64)
  else X86.and w reg (BitVec.ofInt 64 imm)

def remFromQuot (nreg q d : Word) (w : Bool) : Word := X86.sub w nreg (X86.imul w d q)

def unsignedMagic32Wide (res : Word) (d : Nat) (wantRem : Bool) : Word :=
  let res := X86.mov32 res
  let q := X86.mul true res (BitVec.ofNat 64 ((2 ^ 64 - 1) / d + 1))
  if wantRem then X86.sub false res (X86.imul false q (BitVec.ofNat 64 d)) else X86.mov32 q

def unsignedMagic32ProductShift (res : Word) (d magic shift : Nat) (wantRem : Bool) : Word :=
  let q := X86.mov32 res
  let mr := (BitVec.ofNat 32 magic).setWidth 64
  let q := X86.imul true q mr
  let q := X86.shr true q (32 + shift)
  if wantRem then X86.sub false res (X86.imul false q (BitVec.ofNat 64 d)) else q

def divConstUnsignedMagic (res : Word) (d : Nat) (w wantRem : Bool) : Except Stop Word := do
  let m ← orPanic (magicU d (opWidth w))
  if !w && !m.add then return unsignedMagic32ProductShift res d m.magic m.shift wantRem
  if !w then return unsignedMagic32Wide res d wantRem
  let q := X86.mul w res (BitVec.ofNat 64 m.magic)
  let q := if m.add then X86.add w (X86.shr w (X86.sub w res q) 1) q else q
  let q := X86.shr w q m.shift
  return if wantRem then remFromQuot res q (BitVec.ofNat 64 d) w else q

def divConstUnsigned (res : Word) (d : Nat) (w wantRem : Bool) : Except Stop Word :=
  if d = 1 then .ok (if wantRem then 0 else res)
  else if d &&& (d - 1) = 0 then
    .ok (if wantRem then andImm res ((d - 1 : Nat) : Int) w else X86.shr w res (log2u d))
  else divConstUnsignedMagic res d w wantRem

/-- `2 ^ k - 1` below zero, `0` otherwise. -/
def signBias (res : Word) (k : Nat) (w : Bool) : Word :=
  X86.shr w (X86.sar w res (opWidth w - 1)) (opWidth w - k)

/-- The magnitude of an `int64` as a `uint64`. -/
def magnitude (d : Word) : Word := if d.toInt < 0 then -d else d

/-- The quotient by the positive magnitude: rounding down is turned into cutting by the sign bit. -/
def signedMagicQuot (res : Word) (m : Magic Int) (w : Bool) : Word :=
  let q := X86.imulHigh w res (BitVec.ofInt 64 m.magic)
  let q := if m.add then X86.add w q res else q
  let q := X86.sar w q m.shift
  let sign := X86.shr w q (opWidth w - 1)
  X86.add w q sign

def divConstSignedMagic (res d : Word) (w wantRem : Bool) : Except Stop Word := do
  let m ← orPanic (magicS (magnitude d).toNat (opWidth w))
  let q := signedMagicQuot res m w
  let q := if d.toInt < 0 then X86.neg w q else q
  return if wantRem then remFromQuot res q d w else q

/-- The branch for a magnitude that is a power of two. -/
def divConstSignedPow2 (res d : Word) (w wantRem : Bool) : Word :=
  let ad := magnitude d
  let k := log2u ad.toNat
  let bias := signBias res k w
  let res := X86.add w res bias
  if wantRem then X86.sub w (andImm res (ad - 1).toInt w) bias
  else
    let res := X86.sar w res k
    if d.toInt < 0 then X86.neg w res else res

def divConstSigned (res d : Word) (w wantRem : Bool) : Except Stop Word :=
  if wantRem && (d.toInt == 1 || d.toInt == -1) then .ok 0
  else if d.toInt = 1 then .ok res
  else if d.toInt = -1 then
    if lo w res = BitVec.intMin _ then .error .trapDivOverflow else .ok (X86.neg w res)
  else if magnitude d &&& (magnitude d - 1) = 0 then .ok (divConstSignedPow2 res d w wantRem)
  else divConstSignedMagic res d w wantRem

/-- The mask of an immediate `and` under the dividend. -/
def boundedUnsignedDividend (e : Elem) : Option (BitVec 32) :=
  let maskOf : Elem → Option (BitVec 32)
    | .value st =>
      if st.kind = .const then
        let mask := st.cval.toBitVec.setWidth 32
        if 0 < mask.toNat ∧ mask.toNat ≤ 65535 then some mask else none
      else none
    | _ => none
  match e with
  | .deferred .i32 .and arg0 arg1 => (maskOf arg0).or (maskOf arg1)
  | _ => none

/-- The first shift, from `s` on, at which the rounded-up reciprocal is exact up to `max`. -/
def reciprocalFrom (max d : Nat) : (left s : Nat) → Option (Nat × Nat)
  | 0, _ => none
  | left + 1, s =>
    let power := 2 ^ s
    let m := (power + d - 1) / d
    let error := m * d - power
    if m ≤ 0x7fffffff ∧ max * error < power then some (m, s) else reciprocalFrom max d left (s + 1)

def boundedUnsignedReciprocal (max d : Nat) : Option (Nat × Nat) :=
  if max = 0 ∨ max > 65535 ∨ d < 3 ∨ d > 0x7fffffff ∨ d &&& (d - 1) = 0 then none
  else reciprocalFrom max d 32 0

def divConstUnsignedBounded (res : Word) (d max multiplier shift : Nat) (rem : Bool) : Word :=
  let wide : Bool := max * multiplier > 0xffffffff
  let res := if wide then X86.mov32 res else res
  let q := X86.imul wide res ((BitVec.ofNat 32 multiplier).signExtend 64)
  let q := X86.shr wide q shift
  if rem then X86.sub false res (X86.imul false q (BitVec.ofNat 64 d)) else q

structure DivOptions where
  magicDiv : Bool
  magicDivSigned : Bool
  boundedUnsignedDiv : Bool

def WOp.signedDiv (op : WOp) : Bool := op = .divS || op = .remS
def WOp.wantRem (op : WOp) : Bool := op = .remU || op = .remS

def strengthReducibleWithMagic (o : DivOptions) (c : Word) (w signed : Bool) : Bool :=
  if c = 0 then false
  else
    let ad := if signed then magnitude c else if w then c else (c.setWidth 32).setWidth 64
    if ad &&& (ad - 1) = 0 then true
    else if signed then o.magicDiv && o.magicDivSigned
    else o.magicDiv

/-- Bound, multiplier and shift for a dividend under a mask. -/
def boundedDivision (o : DivOptions) (op : WOp) (w : Bool) (arg0 : Elem) (d : Nat) : Option (Nat × Nat × Nat) :=
  if o.boundedUnsignedDiv && !w && !op.signedDiv then
    (boundedUnsignedDividend arg0).bind fun bound =>
      (boundedUnsignedReciprocal bound.toNat d).map fun r => (bound.toNat, r)
  else none

def tryDivByConst (o : DivOptions) (op : WOp) (w : Bool) (arg0 : Elem) (c res : Word) : Except Stop Word :=
  if c = 0 then .error .fallback
  else if !strengthReducibleWithMagic o c w op.signedDiv then .error .fallback
  else
    let d := (c.setWidth 32).toNat
    match boundedDivision o op w arg0 d with
    | some (bound, mult, shift) => .ok (divConstUnsignedBounded res d bound mult shift op.wantRem)
    | none =>
      if op.signedDiv then divConstSigned res c w op.wantRem
      else divConstUnsigned res (if w then c.toNat else d) w op.wantRem

/-! ### arm64 -/

def wideReciprocalU32 (divisor : Nat) : Nat := (2 ^ 64 - 1) / divisor + 1

/-- The `W` move clears the upper half before `UMULH` reads all of it. -/
def magicWideU32Quotient (dividend : Word) (divisor : Nat) : Word :=
  let q : Word := (dividend.setWidth 32).setWidth 64
  mulHighU q (BitVec.ofNat 64 (wideReciprocalU32 divisor))

/-! ## WebAssembly division -/

/-- `none` is the trap. -/
def wasmDivRem {W : Nat} (op : WOp) (n d : BitVec W) : Option (BitVec W) :=
  if d = 0 then none
  else match op with
    | .divU => some (n / d)
    | .remU => some (n % d)
    | .divS => if n = BitVec.intMin W ∧ d = -1 then none else some (n.sdiv d)
    | .remS => some (n.srem d)
    | _ => none

/-- The `i32` a node computes; `ρ` gives what is neither a constant nor a mask. -/
def Elem.word (ρ : Elem → BitVec 32) : Elem → BitVec 32
  | .value st => if st.kind = .const then st.cval.toBitVec.setWidth 32 else ρ (.value st)
  | .deferred .i32 .and arg0 arg1 => arg0.word ρ &&& arg1.word ρ
  | e => ρ e

/-! ## Operands -/

theorem opWidth_le (w : Bool) : opWidth w ≤ 64 := by cases w <;> decide

theorem two_le_opWidth (w : Bool) : 2 ≤ opWidth w := by cases w <;> decide

@[simp] theorem lo_written (w : Bool) (y : BitVec (opWidth w)) : lo w (written w y) = y := by
  rw [lo, written, setWidth_setWidth_of_le _ (opWidth_le w), setWidth_eq]

theorem toNat_lo_true (x : Word) : (lo true x).toNat = x.toNat := by
  rw [lo, toNat_setWidth, Nat.mod_eq_of_lt x.isLt]

theorem toNat_written (w : Bool) (y : BitVec (opWidth w)) : (written w y).toNat = y.toNat := by
  rw [written, toNat_setWidth, Nat.mod_eq_of_lt]
  exact Nat.lt_of_lt_of_le y.isLt (Nat.pow_le_pow_right (by decide) (opWidth_le w))

theorem toNat_mov32 (x : Word) : (X86.mov32 x).toNat = (lo false x).toNat := toNat_written false _

variable {k : Nat}

namespace X86

variable (w : Bool) (x y : Word)

@[simp] theorem lo_add : lo w (add w x y) = lo w x + lo w y := lo_written ..
@[simp] theorem lo_sub : lo w (sub w x y) = lo w x - lo w y := lo_written ..
@[simp] theorem lo_and : lo w (and w x y) = lo w x &&& lo w y := lo_written ..
@[simp] theorem lo_imul : lo w (imul w x y) = lo w x * lo w y := lo_written ..
@[simp] theorem lo_neg : lo w (neg w x) = -lo w x := lo_written ..
@[simp] theorem lo_mov32 : lo false (mov32 x) = lo false x := lo_written ..
@[simp] theorem lo_mul : lo w (mul w x y) = mulHighU (lo w y) (lo w x) := lo_written ..
@[simp] theorem lo_imulHigh : lo w (imulHigh w x y) = mulHighS (lo w y) (lo w x) := lo_written ..

theorem lo_shr (h : k < opWidth w) : lo w (shr w x k) = lo w x >>> k := by
  unfold shr
  split
  · rename_i h0
    rw [h0, ushiftRight_zero]
  · rw [lo_written, Nat.mod_eq_of_lt h]

theorem lo_sar (h : k < opWidth w) : lo w (sar w x k) = (lo w x).sshiftRight k := by
  unfold sar
  split
  · rename_i h0
    rw [h0, sshiftRight_zero]
  · rw [lo_written, Nat.mod_eq_of_lt h]

end X86

theorem lo_andImm (w : Bool) (x : Word) (imm : Int) :
    lo w (andImm x imm w) = lo w x &&& lo w (BitVec.ofInt 64 imm) := by
  unfold andImm
  split
  · rename_i h
    have : (BitVec.ofInt 32 imm).signExtend 64 = BitVec.ofInt 64 imm := by
      rw [BitVec.signExtend, toInt_ofInt_eq_self (by decide) h.1 (by simpa using h.2)]
    rw [this, X86.lo_and]
  · rw [X86.lo_and]

/-! ## Powers of two -/

theorem log2u_eq (v : Nat) : log2u v = v.log2 := by
  induction v using log2u.induct with
  | case1 v h ih =>
    rw [log2u, if_pos h, ih, Nat.shiftRight_eq_div_pow, Nat.pow_one, Nat.log2_def v, if_pos (by omega)]
  | case2 v h =>
    rw [log2u, if_neg h, Nat.log2_def, if_neg (by omega)]

/-- The test `d & (d - 1) == 0`. -/
theorem and_pred_eq_zero {d : Nat} (h : d ≠ 0) : d &&& (d - 1) = 0 ↔ d = 2 ^ d.log2 := by
  have hle : 2 ^ d.log2 ≤ d := Nat.log2_self_le h
  have hlt : d < 2 ^ (d.log2 + 1) := Nat.lt_log2_self
  constructor
  · intro hand
    by_contra hne
    -- otherwise both words have the top bit of `d`
    have hbit : ∀ x, 2 ^ d.log2 ≤ x → x < 2 ^ (d.log2 + 1) → x.testBit d.log2 = true := by
      intro x hx hx'
      rw [Nat.pow_succ] at hx'
      rw [Nat.testBit_eq_decide_div_mod_eq, Nat.div_eq_of_lt_le (k := 1) (by omega) (by omega)]
      rfl
    have hand' : (d &&& (d - 1)).testBit d.log2 = true := by
      rw [Nat.testBit_and, hbit d hle hlt, hbit (d - 1) (by omega) (by omega)]
      rfl
    rw [hand, Nat.zero_testBit] at hand'
    cases hand'
  · intro heq
    rw [heq, Nat.and_two_pow_sub_one_eq_mod, Nat.mod_self]

theorem two_pow_log2_lt {d : Nat} (h : d ≠ 0) (hand : d &&& (d - 1) ≠ 0) : 2 ^ d.log2 < d :=
  Nat.lt_of_le_of_ne (Nat.log2_self_le h) fun heq => hand ((and_pred_eq_zero h).2 heq.symm)

section

variable {W : Nat}

theorem sdiv_eq_ofInt (x d : BitVec W) : x.sdiv d = BitVec.ofInt W (x.toInt.tdiv d.toInt) := by
  apply eq_of_toInt_eq
  rw [toInt_sdiv, toInt_ofInt]

theorem srem_eq_ofInt (x d : BitVec W) : x.srem d = BitVec.ofInt W (x.toInt.tmod d.toInt) := by
  rw [← toInt_srem, ofInt_toInt]

theorem ofInt_sub_eq (a b : Int) : BitVec.ofInt W (a - b) = BitVec.ofInt W a - BitVec.ofInt W b := by
  rw [Int.sub_eq_add_neg, ofInt_add, ofInt_neg, BitVec.sub_eq_add_neg]

/-- The remainder from the quotient. -/
theorem sub_mul_sdiv (n d : BitVec W) : n - d * n.sdiv d = n.srem d := by
  rw [srem_eq_ofInt, Int.tmod_def, ofInt_sub_eq, ofInt_mul, ofInt_toInt, ofInt_toInt,
    ← sdiv_eq_ofInt]

theorem sub_mul_udiv (n d : BitVec W) : n - d * (n / d) = n % d := by
  have hle : d.toNat * (n.toNat / d.toNat) ≤ n.toNat := Nat.mul_div_le ..
  have hmul : (d * (n / d)).toNat = d.toNat * (n.toNat / d.toNat) := by
    rw [toNat_mul, toNat_udiv, Nat.mod_eq_of_lt (Nat.lt_of_le_of_lt hle n.isLt)]
  apply eq_of_toNat_eq
  rw [toNat_sub_of_le (le_def.2 (by rw [hmul]; exact hle)), hmul, toNat_umod,
    Nat.mod_def]

theorem ushiftRight_eq_udiv {d : BitVec W} (hd : d.toNat = 2 ^ k) (n : BitVec W) :
    n >>> k = n / d := by
  apply eq_of_toNat_eq
  rw [toNat_ushiftRight, Nat.shiftRight_eq_div_pow, toNat_udiv, hd]

theorem and_mask_eq_umod {d mask : BitVec W} (hd : d.toNat = 2 ^ k) (hm : mask.toNat = 2 ^ k - 1)
    (n : BitVec W) : n &&& mask = n % d := by
  apply eq_of_toNat_eq
  rw [toNat_and, hm, Nat.and_two_pow_sub_one_eq_mod, toNat_umod, hd]

/-! ### Signed -/

/-- `2 ^ k - 1` below zero, `0` otherwise. -/
theorem bias_eq (hk : k < W) (x : BitVec W) :
    (x.sshiftRight (W - 1)) >>> (W - k) = BitVec.ofInt W (if x.toInt < 0 then 2 ^ k - 1 else 0) := by
  have hhalf : 2 ^ W = 2 * 2 ^ (W - 1) := by rw [← Nat.pow_succ']; congr 1; omega
  have hhalfI : (2 : Int) ^ W = 2 * 2 ^ (W - 1) := by exact_mod_cast hhalf
  have hlo : -2 ^ (W - 1) ≤ x.toInt := le_toInt x
  have hhi : x.toInt < 2 ^ (W - 1) := toInt_lt
  have hposI : (0 : Int) < 2 ^ (W - 1) := Int.pow_pos (by decide)
  have hsar : (x.sshiftRight (W - 1)) = BitVec.ofInt W (if x.toInt < 0 then -1 else 0) := by
    apply eq_of_toInt_eq
    rw [toInt_sshiftRight, Int.shiftRight_eq_div_pow]
    have hcast : ((2 ^ (W - 1) : Nat) : Int) = 2 ^ (W - 1) := by norm_cast
    split
    · rw [toInt_ofInt_of_bounds (by omega) (by omega) (by omega), hcast]
      rw [Int.ediv_eq_iff_of_pos hposI]
      omega
    · rw [toInt_ofInt_of_bounds (by omega) (by omega) (by omega), hcast]
      exact Int.ediv_eq_zero_of_lt (by omega) hhi
  rw [hsar]
  split
  · apply eq_of_toNat_eq
    have hones : (BitVec.ofInt W (-1)).toNat = 2 ^ W - 1 := by
      rw [ofInt_neg, show BitVec.ofInt W 1 = 1#W from rfl, neg_one_eq_allOnes,
        toNat_allOnes]
    have hkW : 2 ^ W = 2 ^ k * 2 ^ (W - k) := by rw [← Nat.pow_add]; congr 1; omega
    have hpos := Nat.two_pow_pos (W - k)
    have hle : 2 ^ k ≤ 2 ^ W := Nat.pow_le_pow_right (by decide) (by omega)
    have hk0 := Nat.two_pow_pos k
    have hnat : (2 : Int) ^ k - 1 = ((2 ^ k - 1 : Nat) : Int) := by
      rw [Int.natCast_sub hk0]
      norm_cast
    rw [toNat_ushiftRight, hones, Nat.shiftRight_eq_div_pow, hnat, ofInt_natCast,
      toNat_ofNat, Nat.mod_eq_of_lt (by omega)]
    refine Nat.div_eq_of_lt_le ?_ ?_
    · rw [Nat.sub_mul, ← hkW]
      omega
    · rw [Nat.sub_add_cancel hk0, ← hkW]
      omega
  · simp

/-- The dividend moved toward zero, so that rounding down cuts. -/
theorem biased_ediv (x : Int) (k : Nat) :
    (x + if x < 0 then 2 ^ k - 1 else 0) / 2 ^ k = x.tdiv (2 ^ k) := by
  have hpos : (0 : Int) < 2 ^ k := Int.pow_pos (by decide)
  split
  · rename_i hx
    obtain ⟨p, rfl⟩ : ∃ p, x = -p := ⟨-x, by omega⟩
    have hdiv := Int.mul_ediv_add_emod p (2 ^ k)
    have hmod := Int.emod_nonneg p (Int.ne_of_gt hpos)
    have hlt := Int.emod_lt_of_pos p hpos
    rw [Int.neg_tdiv, Int.tdiv_eq_ediv_of_nonneg (by omega), Int.ediv_eq_iff_of_pos hpos, Int.neg_mul,
      Int.mul_comm (p / 2 ^ k)]
    omega
  · rename_i hx
    rw [Int.add_zero, Int.tdiv_eq_ediv_of_nonneg (by omega)]

theorem toInt_biased (hk : k < W) (x : BitVec W) :
    (x + BitVec.ofInt W (if x.toInt < 0 then 2 ^ k - 1 else 0)).toInt =
      x.toInt + if x.toInt < 0 then 2 ^ k - 1 else 0 := by
  have hlo : -2 ^ (W - 1) ≤ x.toInt := le_toInt x
  have hhi : x.toInt < 2 ^ (W - 1) := toInt_lt
  have hle : (2 : Int) ^ k ≤ 2 ^ (W - 1) := by
    exact_mod_cast Nat.pow_le_pow_right (by decide : 0 < 2) (by omega : k ≤ W - 1)
  have hpos : (0 : Int) < 2 ^ k := Int.pow_pos (by decide)
  have hsum : x + BitVec.ofInt W (if x.toInt < 0 then 2 ^ k - 1 else 0) =
      BitVec.ofInt W (x.toInt + if x.toInt < 0 then 2 ^ k - 1 else 0) := by
    rw [ofInt_add, ofInt_toInt]
  rw [hsum]
  split
  · exact toInt_ofInt_of_bounds (by omega) (by omega) (by omega)
  · exact toInt_ofInt_of_bounds (by omega) (by omega) (by omega)

theorem biased_sshiftRight (hk : k < W) (x : BitVec W) :
    (x + BitVec.ofInt W (if x.toInt < 0 then 2 ^ k - 1 else 0)).sshiftRight k =
      BitVec.ofInt W (x.toInt.tdiv (2 ^ k)) := by
  rw [← ofInt_toInt (x := (_ : BitVec W).sshiftRight k), toInt_sshiftRight, toInt_biased hk,
    Int.shiftRight_eq_div_pow, ← biased_ediv]
  norm_cast

/-- Low bits do not depend on the sign reading. -/
theorem toInt_emod_two_pow (hk : k ≤ W) (y : BitVec W) :
    y.toInt % 2 ^ k = ((y.toNat % 2 ^ k : Nat) : Int) := by
  have hpow : ((2 ^ W : Nat) : Int) = 2 ^ k * 2 ^ (W - k) := by
    rw [← Int.pow_add, show k + (W - k) = W by omega]
    norm_cast
  rw [toInt_eq_toNat_cond]
  split
  · norm_cast
  · rw [hpow, Int.sub_mul_emod_self_left]
    norm_cast

theorem biased_mask (hk : k < W) {mask : BitVec W} (hm : mask.toNat = 2 ^ k - 1) (x : BitVec W) :
    ((x + BitVec.ofInt W (if x.toInt < 0 then 2 ^ k - 1 else 0)) &&& mask) -
        BitVec.ofInt W (if x.toInt < 0 then 2 ^ k - 1 else 0) = BitVec.ofInt W (x.toInt.tmod (2 ^ k)) := by
  have hand : ∀ y : BitVec W, y &&& mask = BitVec.ofInt W (y.toInt % 2 ^ k) := by
    intro y
    have hle : 2 ^ k ≤ 2 ^ W := Nat.pow_le_pow_right (by decide) (Nat.le_of_lt hk)
    have hlt := Nat.mod_lt y.toNat (Nat.two_pow_pos k)
    apply eq_of_toNat_eq
    rw [toNat_and, hm, Nat.and_two_pow_sub_one_eq_mod, toInt_emod_two_pow (Nat.le_of_lt hk),
      ofInt_natCast, toNat_ofNat, Nat.mod_eq_of_lt (Nat.lt_of_lt_of_le hlt hle)]
  rw [hand, toInt_biased hk, ← ofInt_sub_eq, Int.emod_def, biased_ediv, Int.tmod_def]
  congr 1
  omega

end

/-! ## Divisors -/

section

variable {w : Bool}

theorem lo_signExtend (d : BitVec (opWidth w)) : lo w (d.signExtend 64) = d := by
  have hle := opWidth_le w
  apply eq_of_getLsbD_eq
  intro i hi
  rw [lo, getLsbD_setWidth, getLsbD_signExtend, if_pos hi]
  simp [hi, Nat.lt_of_lt_of_le hi hle]

theorem lo_ofNat (d : BitVec (opWidth w)) : lo w (BitVec.ofNat 64 d.toNat) = d := by
  have hlt := Nat.lt_of_lt_of_le d.isLt (Nat.pow_le_pow_right (by decide) (opWidth_le w) : 2 ^ opWidth w ≤ 2 ^ 64)
  apply eq_of_toNat_eq
  rw [lo, toNat_setWidth, toNat_ofNat, Nat.mod_eq_of_lt hlt, Nat.mod_eq_of_lt d.isLt]

theorem toNat_magnitude (c : Word) : (magnitude c).toNat = c.toInt.natAbs := by
  have hlt := c.isLt
  unfold magnitude
  rw [toInt_eq_toNat_cond]
  split
  · rw [if_neg (by omega)]
    omega
  · rw [if_pos (by omega), toNat_neg, Nat.mod_eq_of_lt (by omega)]
    omega

theorem toInt_signExtend (d : BitVec (opWidth w)) : (d.signExtend 64).toInt = d.toInt :=
  toInt_signExtend_of_le (opWidth_le w)

end

/-! ## Unsigned lowerings -/

/-- What a division leaves, from the quotient in a register. -/
def quotRem {W : Nat} (wantRem : Bool) (n d : BitVec W) : BitVec W := if wantRem then n % d else n / d

@[simp] theorem quotRem_true {W : Nat} (n d : BitVec W) : quotRem true n d = n % d := rfl
@[simp] theorem quotRem_false {W : Nat} (n d : BitVec W) : quotRem false n d = n / d := rfl

variable {w : Bool}

theorem lo_remFromQuot {res q c : Word} {d : BitVec (opWidth w)} (hc : lo w c = d)
    (hq : lo w q = lo w res / d) (wantRem : Bool) :
    lo w (if wantRem then remFromQuot res q c w else q) = quotRem wantRem (lo w res) d := by
  cases wantRem with
  | false => exact hq
  | true =>
    show lo w (remFromQuot res q c w) = _
    rw [remFromQuot, X86.lo_sub, X86.lo_imul, hc, hq, sub_mul_udiv]
    rfl

section

variable {res q : Word} {d : BitVec (opWidth false)}

theorem lo_of_toNat (hq : q.toNat = (lo false res).toNat / d.toNat) : lo false q = lo false res / d := by
  apply eq_of_toNat_eq
  rw [lo, toNat_setWidth, hq, toNat_udiv, Nat.mod_eq_of_lt]
  exact Nat.lt_of_le_of_lt (Nat.div_le_self _ _) (lo false res).isLt

theorem lo_rem_of_toNat (hq : q.toNat = (lo false res).toNat / d.toNat) :
    lo false (X86.sub false res (X86.imul false q (BitVec.ofNat 64 d.toNat))) = lo false res % d := by
  have hd : lo false (BitVec.ofNat 64 d.toNat) = d := lo_ofNat d
  rw [X86.lo_sub, X86.lo_imul, hd, lo_of_toNat hq, BitVec.mul_comm]
  exact sub_mul_udiv (lo false res) d

/-- `⌈2 ^ 64 / d⌉`, as the code computes it. -/
theorem wideReciprocal_mul (hd : 0 < k) :
    ∃ e < k, ((2 ^ 64 - 1) / k + 1) * k = 2 ^ 64 + e := by
  have h := Nat.div_add_mod' (2 ^ 64 - 1) k
  have hlt := Nat.mod_lt (2 ^ 64 - 1) hd
  exact ⟨k - 1 - (2 ^ 64 - 1) % k, by omega, by rw [Nat.add_mul]; omega⟩

theorem toNat_wideReciprocal (hd : 1 < k) :
    (BitVec.ofNat 64 ((2 ^ 64 - 1) / k + 1)).toNat = (2 ^ 64 - 1) / k + 1 := by
  rw [toNat_ofNat, Nat.mod_eq_of_lt]
  have : (2 ^ 64 - 1) / k ≤ (2 ^ 64 - 1) / 2 := Nat.div_le_div_left hd (by decide)
  omega

/-- A 32-bit dividend times the widened reciprocal: the error stays under one part in `k`. -/
theorem wideReciprocal_div {n k : Nat} (hn : n < 2 ^ 32) (hk : 0 < k) (hk32 : k < 2 ^ 32) :
    n * ((2 ^ 64 - 1) / k + 1) / 2 ^ 64 = n / k := by
  obtain ⟨e, he, hmul⟩ := wideReciprocal_mul hk
  refine Reciprocal.div_eq hk hmul ?_
  calc n * e < 2 ^ 32 * 2 ^ 32 := Nat.mul_lt_mul'' hn (Nat.lt_trans he hk32)
    _ = 2 ^ 64 := by decide

theorem unsignedMagic32Wide_spec (hd : 1 < d.toNat) (wantRem : Bool) :
    lo false (unsignedMagic32Wide res d.toNat wantRem) = quotRem wantRem (lo false res) d := by
  have hq : (X86.mul true (X86.mov32 res) (BitVec.ofNat 64 ((2 ^ 64 - 1) / d.toNat + 1))).toNat =
      (lo false (X86.mov32 res)).toNat / d.toNat := by
    rw [X86.mul, toNat_written, toNat_mulHighU, toNat_lo_true, toNat_lo_true, toNat_wideReciprocal hd,
      toNat_mov32, X86.lo_mov32, Nat.mul_comm]
    exact wideReciprocal_div (lo false res).isLt (by omega) d.isLt
  unfold unsignedMagic32Wide
  dsimp only
  cases wantRem with
  | false =>
    rw [if_neg (by decide), X86.lo_mov32, lo_of_toNat hq, X86.lo_mov32]
    rfl
  | true =>
    rw [if_pos rfl, lo_rem_of_toNat hq, X86.lo_mov32]
    rfl

theorem unsignedMagic32ProductShift_spec {m : Magic Nat} (hlo : 2 ^ d.toNat.log2 < d.toNat)
    (hm : magicU d.toNat 32 = some m) (hadd : m.add = false) (wantRem : Bool) :
    lo false (unsignedMagic32ProductShift res d.toNat m.magic m.shift wantRem) =
      quotRem wantRem (lo false res) d := by
  have h0 : 0 < d.toNat := Nat.lt_of_le_of_lt (Nat.zero_le _) hlo
  obtain ⟨m', e, hm', hmagic, hshift, hpos, he, hmul⟩ := magicU_spec (W := 32) (by decide) hlo d.isLt
  obtain rfl : m = m' := Option.some.inj (hm.symm.trans hm')
  simp only [hadd, Bool.toNat_false, Nat.add_zero, Nat.zero_mul] at he hmul
  have hn : (lo false res).toNat < 2 ^ 32 := (lo false res).isLt
  have hmr : ((BitVec.ofNat 32 m.magic).setWidth 64).toNat = m.magic := by
    rw [toNat_setWidth, toNat_ofNat, Nat.mod_eq_of_lt hmagic, Nat.mod_eq_of_lt (by omega)]
  have hprod : (lo false res).toNat * m.magic < 2 ^ 64 :=
    calc (lo false res).toNat * m.magic < 2 ^ 32 * 2 ^ 32 := Nat.mul_lt_mul'' hn hmagic
      _ = 2 ^ 64 := by decide
  have hq : (X86.shr true (X86.imul true (X86.mov32 res) ((BitVec.ofNat 32 m.magic).setWidth 64))
      (32 + m.shift)).toNat = (lo false res).toNat / d.toNat := by
    rw [← toNat_lo_true, X86.lo_shr true _ (show 32 + m.shift < 64 by omega), X86.lo_imul,
      toNat_ushiftRight, Nat.shiftRight_eq_div_pow, toNat_mul, toNat_lo_true, toNat_lo_true,
      toNat_mov32, hmr, Nat.mod_eq_of_lt hprod]
    refine Reciprocal.div_eq h0 hmul ?_
    calc (lo false res).toNat * e < 2 ^ 32 * e := Nat.mul_lt_mul_of_pos_right hn hpos
      _ ≤ 2 ^ 32 * 2 ^ m.shift := Nat.mul_le_mul_left _ he
      _ = 2 ^ (32 + m.shift) := (Nat.pow_add ..).symm
  unfold unsignedMagic32ProductShift
  dsimp only
  cases wantRem with
  | false =>
    rw [if_neg (by decide), lo_of_toNat hq]
    rfl
  | true =>
    rw [if_pos rfl, lo_rem_of_toNat hq]
    rfl

end

theorem divConstUnsignedMagic_spec {res : Word} {d : BitVec (opWidth w)}
    (hlo : 2 ^ d.toNat.log2 < d.toNat) (wantRem : Bool) :
    ∃ r, divConstUnsignedMagic res d.toNat w wantRem = .ok r ∧ lo w r = quotRem wantRem (lo w res) d := by
  obtain ⟨m, e, hm, -, hshift, -⟩ := magicU_spec (opWidth_le w) hlo d.isLt
  unfold divConstUnsignedMagic
  rw [hm]
  cases w with
  | false =>
    have h1 : 1 < d.toNat := Nat.lt_of_le_of_lt Nat.one_le_two_pow hlo
    cases hadd : m.add with
    | false =>
      refine ⟨unsignedMagic32ProductShift res d.toNat m.magic m.shift wantRem, ?_,
        unsignedMagic32ProductShift_spec hlo hm hadd wantRem⟩
      simp [orPanic, hadd, bind, Except.bind, pure, Except.pure]
    | true =>
      refine ⟨unsignedMagic32Wide res d.toNat wantRem, ?_, unsignedMagic32Wide_spec h1 wantRem⟩
      simp [orPanic, hadd, bind, Except.bind, pure, Except.pure]
  | true =>
    refine ⟨_, rfl, lo_remFromQuot (lo_ofNat d) ?_ wantRem⟩
    have hquot := unsignedQuotient_eq (opWidth_le true) hlo d.isLt hm (lo true res)
    rw [ofNat_toNat, setWidth_eq] at hquot
    rw [← hquot, X86.lo_shr true _ hshift]
    cases m.add with
    | false =>
      rw [if_neg (by decide), X86.lo_mul]
      rfl
    | true =>
      rw [if_pos rfl, X86.lo_add, X86.lo_shr true _ (by decide), X86.lo_sub, X86.lo_mul]
      rfl

theorem divConstUnsigned_spec {res : Word} {d : BitVec (opWidth w)} (hd : d ≠ 0)
    (wantRem : Bool) :
    ∃ r, divConstUnsigned res d.toNat w wantRem = .ok r ∧ lo w r = quotRem wantRem (lo w res) d := by
  have h0 : d.toNat ≠ 0 := fun h => hd (eq_of_toNat_eq h)
  unfold divConstUnsigned
  split
  · rename_i h1
    refine ⟨_, rfl, ?_⟩
    have hn := (lo w res).isLt
    cases wantRem with
    | false =>
      apply eq_of_toNat_eq
      show (lo w res).toNat = (lo w res / d).toNat
      rw [toNat_udiv, h1, Nat.div_one]
    | true =>
      apply eq_of_toNat_eq
      show (lo w 0).toNat = (lo w res % d).toNat
      rw [toNat_umod, h1, Nat.mod_one]
      simp [lo]
  · split
    · rename_i h1 hand
      have hpow := (and_pred_eq_zero h0).1 hand
      have hk : d.toNat.log2 < opWidth w := (Nat.log2_lt h0).2 d.isLt
      refine ⟨_, rfl, ?_⟩
      cases wantRem with
      | false =>
        rw [if_neg (by decide), quotRem_false, log2u_eq, X86.lo_shr w _ hk, ushiftRight_eq_udiv hpow]
      | true =>
        have hlt := d.isLt
        have hle : 2 ^ opWidth w ≤ 2 ^ 64 := Nat.pow_le_pow_right (by decide) (opWidth_le w)
        have hmask : (lo w (BitVec.ofInt 64 ((d.toNat - 1 : Nat) : Int))).toNat = 2 ^ d.toNat.log2 - 1 := by
          rw [← hpow, ofInt_natCast, lo, toNat_setWidth, toNat_ofNat,
            Nat.mod_eq_of_lt (Nat.lt_of_le_of_lt (Nat.sub_le _ _) (Nat.lt_of_lt_of_le hlt hle)),
            Nat.mod_eq_of_lt (Nat.lt_of_le_of_lt (Nat.sub_le _ _) hlt)]
        rw [if_pos rfl, quotRem_true, lo_andImm, and_mask_eq_umod hpow hmask]
    · rename_i h1 hand
      exact divConstUnsignedMagic_spec (two_pow_log2_lt h0 hand) wantRem

/-! ## Signed lowerings -/

def quotRemS {W : Nat} (wantRem : Bool) (n d : BitVec W) : BitVec W := if wantRem then n.srem d else n.sdiv d

section

variable {W : Nat} {n d : BitVec W}

/-- The quotient by the magnitude, negated for a negative divisor. -/
theorem sdiv_of_natAbs (n d : BitVec W) :
    (if d.toInt < 0 then -BitVec.ofInt W (n.toInt.tdiv d.toInt.natAbs) else
      BitVec.ofInt W (n.toInt.tdiv d.toInt.natAbs)) = n.sdiv d := by
  rw [sdiv_eq_ofInt]
  split
  · rename_i hneg
    rw [Int.ofNat_natAbs_of_nonpos (Int.le_of_lt hneg), Int.tdiv_neg, ofInt_neg, BitVec.neg_neg]
  · rename_i hpos
    rw [Int.natAbs_of_nonneg (Int.not_lt.1 hpos)]

theorem srem_of_natAbs (n d : BitVec W) : BitVec.ofInt W (n.toInt.tmod d.toInt.natAbs) = n.srem d := by
  rw [srem_eq_ofInt]
  rcases Int.natAbs_eq d.toInt with h | h
  · rw [← h]
  · conv_rhs => rw [h, Int.tmod_neg]

theorem natAbs_toInt_le (d : BitVec W) : d.toInt.natAbs ≤ 2 ^ (W - 1) := by
  have hlo : -2 ^ (W - 1) ≤ d.toInt := le_toInt d
  have hhi : d.toInt < 2 ^ (W - 1) := toInt_lt
  have hcast : ((2 ^ (W - 1) : Nat) : Int) = 2 ^ (W - 1) := by norm_cast
  omega

/-- A magnitude that is not a power of two is not that of the least word. -/
theorem natAbs_lt_of_log2 (hlo : 2 ^ d.toInt.natAbs.log2 < d.toInt.natAbs) :
    d.toInt.natAbs < 2 ^ (W - 1) := by
  refine Nat.lt_of_le_of_ne (natAbs_toInt_le d) fun heq => ?_
  rw [heq, Nat.log2_two_pow] at hlo
  exact Nat.lt_irrefl _ hlo

end

section

variable {w : Bool} {res : Word} {d : BitVec (opWidth w)}

theorem lo_ofInt (w : Bool) (x : Int) : lo w (BitVec.ofInt 64 x) = BitVec.ofInt (opWidth w) x := by
  have hdvd : ((2 ^ opWidth w : Nat) : Int) ∣ ((2 ^ 64 : Nat) : Int) := by
    exact_mod_cast Nat.pow_dvd_pow 2 (opWidth_le w)
  have hpos : (0 : Int) < ((2 ^ opWidth w : Nat) : Int) := by exact_mod_cast Nat.two_pow_pos _
  apply eq_of_toNat_eq
  rw [lo, toNat_setWidth, toNat_ofInt, toNat_ofInt, ← Int.emod_emod_of_dvd x hdvd,
    Int.toNat_emod (Int.emod_nonneg _ (by decide)) (Int.le_of_lt hpos), Int.toNat_natCast]

theorem lo_signedRem {q c : Word} (hc : lo w c = d) (hq : lo w q = (lo w res).sdiv d) (wantRem : Bool) :
    lo w (if wantRem then remFromQuot res q c w else q) = quotRemS wantRem (lo w res) d := by
  cases wantRem with
  | false => exact hq
  | true =>
    rw [if_pos rfl, remFromQuot, X86.lo_sub, X86.lo_imul, hc, hq, sub_mul_sdiv]
    rfl

theorem lo_negIf (neg : Prop) [Decidable neg] (q : Word) :
    lo w (if neg then X86.neg w q else q) = if neg then -lo w q else lo w q := by
  split
  · rw [X86.lo_neg]
  · rfl

theorem divConstSignedMagic_spec (hlo : 2 ^ d.toInt.natAbs.log2 < d.toInt.natAbs) (wantRem : Bool) :
    ∃ r, divConstSignedMagic res (d.signExtend 64) w wantRem = .ok r ∧
      lo w r = quotRemS wantRem (lo w res) d := by
  have hW := two_le_opWidth w
  have hlt := natAbs_lt_of_log2 hlo
  obtain ⟨m, M, e, hm, -, -, -, -, hshift, -⟩ := magicS_spec hW (opWidth_le w) hlo hlt
  have hquot : lo w (signedMagicQuot res m w) =
      BitVec.ofInt _ ((lo w res).toInt.tdiv d.toInt.natAbs) := by
    rw [← signedQuotient_ofInt hW (opWidth_le w) hlo hlt hm (lo w res), signedMagicQuot, X86.lo_add,
      X86.lo_shr w _ (by omega), X86.lo_sar w _ hshift]
    cases hadd : m.add with
    | false =>
      rw [if_neg (by decide), X86.lo_imulHigh, lo_ofInt]
      rfl
    | true =>
      rw [if_pos rfl, X86.lo_add, X86.lo_imulHigh, lo_ofInt]
      rfl
  unfold divConstSignedMagic
  rw [toNat_magnitude, toInt_signExtend, hm]
  refine ⟨_, rfl, lo_signedRem (lo_signExtend d) ?_ wantRem⟩
  rw [lo_negIf, hquot, sdiv_of_natAbs]

/-- Magnitudes that are powers of two. -/
theorem divConstSignedPow2_spec (hpow : d.toInt.natAbs = 2 ^ k) (hk0 : 0 < k) (wantRem : Bool) :
    lo w (divConstSignedPow2 res (d.signExtend 64) w wantRem) = quotRemS wantRem (lo w res) d := by
  have hW := two_le_opWidth w
  have hk : k < opWidth w := by
    have hle := natAbs_toInt_le d
    rw [hpow] at hle
    have := (Nat.pow_le_pow_iff_right (by decide : 1 < 2)).1 hle
    omega
  have hmag : (magnitude (d.signExtend 64)).toNat = 2 ^ k := by
    rw [toNat_magnitude, toInt_signExtend, hpow]
  have hbias : lo w (signBias res k w) =
      BitVec.ofInt _ (if (lo w res).toInt < 0 then 2 ^ k - 1 else 0) := by
    rw [signBias, X86.lo_shr w _ (by omega), X86.lo_sar w _ (by omega), bias_eq hk]
  have hcast : ((d.toInt.natAbs : Nat) : Int) = 2 ^ k := by rw [hpow]; norm_cast
  unfold divConstSignedPow2
  dsimp only
  rw [hmag, log2u_eq, Nat.log2_two_pow]
  cases wantRem with
  | false =>
    rw [if_neg (by decide), toInt_signExtend, lo_negIf, X86.lo_sar w _ hk, X86.lo_add, hbias,
      biased_sshiftRight hk, ← hcast, sdiv_of_natAbs]
    rfl
  | true =>
    have hkpos := Nat.two_pow_pos k
    have hlt : 2 ^ k < 2 ^ opWidth w := Nat.pow_lt_pow_right (by decide) hk
    have hmask : (lo w (BitVec.ofInt 64 (magnitude (d.signExtend 64) - 1).toInt)).toNat = 2 ^ k - 1 := by
      have hone : (1 : Word).toNat = 1 := rfl
      rw [ofInt_toInt, lo, toNat_setWidth,
        toNat_sub_of_le (le_def.2 (by rw [hmag, hone]; exact hkpos)), hmag, hone,
        Nat.mod_eq_of_lt (Nat.lt_of_le_of_lt (Nat.sub_le _ _) hlt)]
    rw [if_pos rfl, X86.lo_sub, lo_andImm, X86.lo_add, hbias, biased_mask hk hmask, ← hcast, srem_of_natAbs]
    rfl

theorem toInt_neg_one {W : Nat} (hW : 2 ≤ W) : (-1 : BitVec W).toInt = -1 := by
  have hle : (2 : Int) ≤ 2 ^ (W - 1) := by
    exact_mod_cast Nat.pow_le_pow_right (by decide : 0 < 2) (by omega : 1 ≤ W - 1)
  rw [show (-1 : BitVec W) = BitVec.ofInt W (-1) from (ofInt_neg (w := W) (n := 1)).symm]
  exact toInt_ofInt_of_bounds (by omega) (by omega) (by omega)

/-- Either the overflow of the least dividend by `-1`, which traps, or the result. -/
theorem divConstSigned_spec (hd : d ≠ 0) (wantRem : Bool) :
    (wantRem = false ∧ lo w res = BitVec.intMin _ ∧ d = -1 ∧
        divConstSigned res (d.signExtend 64) w wantRem = .error .trapDivOverflow) ∨
      (¬ (wantRem = false ∧ lo w res = BitVec.intMin _ ∧ d = -1) ∧
        ∃ r, divConstSigned res (d.signExtend 64) w wantRem = .ok r ∧
          lo w r = quotRemS wantRem (lo w res) d) := by
  have hneg1 : d = -1 ↔ d.toInt = -1 := by
    rw [← toInt_inj, toInt_neg_one (two_le_opWidth w)]
  rw [hneg1]
  unfold divConstSigned
  rw [toInt_signExtend]
  split
  · -- the remainder by one or minus one
    rename_i h
    obtain ⟨rfl, hunit⟩ : wantRem = true ∧ (d.toInt = 1 ∨ d.toInt = -1) := by simpa using h
    refine .inr ⟨fun h => Bool.noConfusion h.1, _, rfl, ?_⟩
    have htmod : (lo w res).toInt.tmod d.toInt = 0 := by
      rcases hunit with h1 | h1
      · rw [h1, Int.tmod_one]
      · rw [h1, Int.tmod_neg, Int.tmod_one]
    rw [quotRemS, if_pos rfl, srem_eq_ofInt, htmod]
    simp [lo]
  · rename_i hrem
    split
    · rename_i h1
      have hw : wantRem = false := by simpa [h1] using hrem
      subst hw
      refine .inr ⟨fun h => by omega, _, rfl, ?_⟩
      rw [quotRemS, if_neg (by decide), sdiv_eq_ofInt, h1, Int.tdiv_one, ofInt_toInt]
    · rename_i h1
      split
      · rename_i hm1
        have hw : wantRem = false := by simpa [hm1] using hrem
        subst hw
        split
        · rename_i hmin
          exact .inl ⟨rfl, hmin, hm1, rfl⟩
        · rename_i hmin
          refine .inr ⟨fun h => hmin h.2.1, _, rfl, ?_⟩
          rw [quotRemS, if_neg (by decide), sdiv_eq_ofInt, hm1, Int.tdiv_neg, Int.tdiv_one, ofInt_neg,
            ofInt_toInt, X86.lo_neg]
      · rename_i hm1
        refine .inr ⟨fun h => hm1 h.2.2, ?_⟩
        have h0 : d.toInt ≠ 0 := fun h => hd (eq_of_toInt_eq (by simpa using h))
        have hand : magnitude (d.signExtend 64) &&& (magnitude (d.signExtend 64) - 1) = 0 ↔
            d.toInt.natAbs &&& (d.toInt.natAbs - 1) = 0 := by
          have hmag : (magnitude (d.signExtend 64)).toNat = d.toInt.natAbs := by
            rw [toNat_magnitude, toInt_signExtend]
          have hone : (1 : Word).toNat = 1 := rfl
          rw [← toNat_inj, toNat_and,
            toNat_sub_of_le (le_def.2 (by rw [hmag, hone]; omega)), hmag, hone]
          rfl
        split
        · rename_i hz
          have hpow := (and_pred_eq_zero (by omega)).1 (hand.1 hz)
          refine ⟨_, rfl, divConstSignedPow2_spec hpow ?_ wantRem⟩
          rw [Nat.pos_iff_ne_zero]
          intro hlog
          rw [hlog] at hpow
          omega
        · rename_i hz
          exact divConstSignedMagic_spec (two_pow_log2_lt (by omega) fun h => hz (hand.2 h)) wantRem

end

/-! ## Bounded dividends -/

theorem reciprocalFrom_spec {max d : Nat} (hd : 0 < d) : ∀ (left s : Nat) {m k : Nat},
    reciprocalFrom max d left s = some (m, k) →
    k < s + left ∧ m ≤ 0x7fffffff ∧ ∃ e, m * d = 2 ^ k + e ∧ max * e < 2 ^ k
  | 0, _, _, _, h => by cases h
  | left + 1, s, m, k, h => by
    unfold reciprocalFrom at h
    dsimp only at h
    split at h
    · rename_i hok
      obtain ⟨rfl, rfl⟩ := Prod.mk.inj (Option.some.inj h)
      have hge : 2 ^ s ≤ (2 ^ s + d - 1) / d * d := by
        have h1 := Nat.div_add_mod' (2 ^ s + d - 1) d
        have h2 := Nat.mod_lt (2 ^ s + d - 1) hd
        omega
      exact ⟨by omega, hok.1, _, (Nat.add_sub_of_le hge).symm, hok.2⟩
    · obtain ⟨hk, hrest⟩ := reciprocalFrom_spec hd left (s + 1) h
      exact ⟨by omega, hrest⟩

theorem boundedUnsignedReciprocal_spec {max d m k : Nat} (h : boundedUnsignedReciprocal max d = some (m, k)) :
    0 < d ∧ k < 32 ∧ m ≤ 0x7fffffff ∧ ∃ e, m * d = 2 ^ k + e ∧ max * e < 2 ^ k := by
  unfold boundedUnsignedReciprocal at h
  split at h
  · cases h
  · have hd : 0 < d := by omega
    obtain ⟨hk, hrest⟩ := reciprocalFrom_spec hd 32 0 h
    exact ⟨hd, by omega, hrest⟩

/-- The dividend under a mask is at most the mask. -/
theorem boundedUnsignedDividend_spec {e : Elem} {b : BitVec 32} (h : boundedUnsignedDividend e = some b)
    (ρ : Elem → BitVec 32) : (e.word ρ).toNat ≤ b.toNat := by
  unfold boundedUnsignedDividend at h
  dsimp only at h
  split at h
  · rename_i arg0 arg1
    rw [Elem.word, toNat_and]
    rcases Option.or_eq_some_iff.1 h with h0 | ⟨-, h1⟩
    · split at h0
      · split at h0
        · rename_i st hconst
          split at h0
          · cases h0
            rw [Elem.word, if_pos hconst]
            exact Nat.and_le_left
          · cases h0
        · cases h0
      · cases h0
    · split at h1
      · split at h1
        · rename_i st hconst
          split at h1
          · cases h1
            rw [Elem.word.eq_1 _ st, if_pos hconst]
            exact Nat.and_le_right
          · cases h1
        · cases h1
      · cases h1
  · cases h

theorem toNat_shr_written (y : BitVec (opWidth w)) (hk : k < opWidth w) :
    (X86.shr w (written w y) k).toNat = y.toNat / 2 ^ k := by
  unfold X86.shr
  split
  · rename_i h0
    rw [toNat_written, h0, Nat.pow_zero, Nat.div_one]
  · rw [toNat_written, lo_written, Nat.mod_eq_of_lt hk, toNat_ushiftRight, Nat.shiftRight_eq_div_pow]

theorem divConstUnsignedBounded_spec {res : Word} {d : BitVec (opWidth false)} {max m k : Nat}
    (hrec : boundedUnsignedReciprocal max d.toNat = some (m, k)) (hres : (lo false res).toNat ≤ max)
    (wantRem : Bool) :
    lo false (divConstUnsignedBounded res d.toNat max m k wantRem) = quotRem wantRem (lo false res) d := by
  obtain ⟨hd, hk, hm, e, hmul, herr⟩ := boundedUnsignedReciprocal_spec hrec
  have hn : (lo false res).toNat < 2 ^ 32 := (lo false res).isLt
  have hdiv : (lo false res).toNat * m / 2 ^ k = (lo false res).toNat / d.toNat :=
    Reciprocal.div_eq hd hmul (Nat.lt_of_le_of_lt (Nat.mul_le_mul_right e hres) herr)
  have himm : ((BitVec.ofNat 32 m).signExtend 64).toNat = m := by
    have hlt : m < 2 ^ 32 := by omega
    rw [BitVec.signExtend, toInt_eq_toNat_of_lt, ofInt_natCast, toNat_ofNat, toNat_ofNat,
      Nat.mod_eq_of_lt hlt, Nat.mod_eq_of_lt (by omega)]
    rw [toNat_ofNat, Nat.mod_eq_of_lt hlt]
    omega
  unfold divConstUnsignedBounded
  dsimp only
  -- with or without the widening the product is exact
  have hfinish : ∀ (res' q : Word), lo false res' = lo false res →
      q.toNat = (lo false res).toNat * m / 2 ^ k →
      lo false (if wantRem then X86.sub false res' (X86.imul false q (BitVec.ofNat 64 d.toNat)) else q) =
        quotRem wantRem (lo false res) d := by
    intro res' q hres' hq
    have hq' : q.toNat = (lo false res').toNat / d.toNat := by rw [hq, hdiv, hres']
    cases wantRem with
    | false => rw [if_neg (by decide), lo_of_toNat hq', hres', quotRem_false]
    | true => rw [if_pos rfl, lo_rem_of_toNat hq', hres', quotRem_true]
  by_cases hwide : max * m > 0xffffffff
  · rw [decide_eq_true hwide, if_pos rfl]
    refine hfinish _ _ (X86.lo_mov32 res) ?_
    have hprod : (lo false res).toNat * m < 2 ^ 64 := by
      calc (lo false res).toNat * m < 2 ^ 32 * 2 ^ 32 := Nat.mul_lt_mul'' hn (by omega)
        _ = 2 ^ 64 := by decide
    rw [X86.imul, toNat_shr_written _ (show k < 64 by omega), toNat_mul, toNat_lo_true, toNat_lo_true,
      toNat_mov32, himm, Nat.mod_eq_of_lt hprod]
  · simp only [decide_eq_false hwide, Bool.false_eq_true, if_false]
    refine hfinish _ _ rfl ?_
    have hprod : (lo false res).toNat * m < 2 ^ 32 := by
      have := Nat.mul_le_mul_right m hres
      omega
    have hm32 : (lo false ((BitVec.ofNat 32 m).signExtend 64)).toNat = m := by
      rw [lo, toNat_setWidth, himm, Nat.mod_eq_of_lt (show m < 2 ^ 32 by omega)]
    rw [X86.imul, toNat_shr_written _ hk, toNat_mul, hm32, Nat.mod_eq_of_lt hprod]

/-! ## Exactness -/

/-- What a lowering of `n / d` or `n % d` has to leave. -/
def Exact (o : DivOptions) (op : WOp) (w : Bool) (n d : BitVec (opWidth w)) : Except Stop Word → Prop
  | .ok r => wasmDivRem op n d = some (lo w r)
  | .error .trapDivOverflow => wasmDivRem op n d = none ∧ d ≠ 0
  | .error .fallback => d = 0 ∨ o.magicDiv = false ∨ o.magicDivSigned = false
  | .error .panic => False

theorem wasmDivRem_unsigned {W : Nat} {op : WOp} {n d : BitVec W} (hop : op = .divU ∨ op = .remU) (hd : d ≠ 0) :
    wasmDivRem op n d = some (quotRem op.wantRem n d) := by
  rcases hop with rfl | rfl
  · exact if_neg hd
  · exact if_neg hd

theorem wasmDivRem_signed {W : Nat} {op : WOp} {n d : BitVec W} (hop : op = .divS ∨ op = .remS) (hd : d ≠ 0) :
    wasmDivRem op n d =
      if op.wantRem = false ∧ n = BitVec.intMin W ∧ d = -1 then none else some (quotRemS op.wantRem n d) := by
  rcases hop with rfl | rfl
  · refine (if_neg hd).trans ?_
    simp [WOp.wantRem, quotRemS]
  · refine (if_neg hd).trans ?_
    simp [WOp.wantRem, quotRemS]

theorem magic_disabled {o : DivOptions} {c : Word} {w signed : Bool} (hc : c ≠ 0)
    (h : strengthReducibleWithMagic o c w signed = false) : o.magicDiv = false ∨ o.magicDivSigned = false := by
  unfold strengthReducibleWithMagic at h
  rw [if_neg hc] at h
  dsimp only at h
  generalize (if signed = true then magnitude c else if w = true then c else _) = ad at h
  split at h
  · cases h
  · split at h
    · exact Bool.and_eq_false_iff.1 h
    · exact .inl h

theorem boundedDivision_spec {o : DivOptions} {op : WOp} {arg0 : Elem} {d bound m k : Nat}
    (h : boundedDivision o op w arg0 d = some (bound, m, k)) :
    w = false ∧ op.signedDiv = false ∧ boundedUnsignedReciprocal bound d = some (m, k) ∧
      ∀ ρ, (arg0.word ρ).toNat ≤ bound := by
  unfold boundedDivision at h
  split at h
  · rename_i hguard
    obtain ⟨⟨-, hw⟩, hs⟩ : (o.boundedUnsignedDiv = true ∧ w = false) ∧ op.signedDiv = false := by
      simpa using hguard
    obtain ⟨b, hb, h⟩ := Option.bind_eq_some_iff.1 h
    obtain ⟨⟨m', k'⟩, hr, heq⟩ := Option.map_eq_some_iff.1 h
    cases heq
    exact ⟨hw, hs, hr, boundedUnsignedDividend_spec hb⟩
  · cases h

/-- The divisor as the unsigned lowerings take it. -/
theorem unsigned_divisor (w : Bool) (d : BitVec (opWidth w)) :
    (if w then (d.signExtend 64).toNat else ((d.signExtend 64).setWidth 32).toNat) = d.toNat := by
  cases w with
  | false => exact congrArg BitVec.toNat (lo_signExtend d)
  | true =>
    have := congrArg BitVec.toNat (lo_signExtend d)
    rwa [toNat_lo_true] at this

theorem tryDivByConst_exact (o : DivOptions) {op : WOp}
    (hop : op = .divU ∨ op = .remU ∨ op = .divS ∨ op = .remS) (w : Bool) (arg0 : Elem)
    (ρ : Elem → BitVec 32) (res : Word) (hres : res.setWidth 32 = arg0.word ρ) (d : BitVec (opWidth w)) :
    Exact o op w (lo w res) d (tryDivByConst o op w arg0 (d.signExtend 64) res) := by
  have hzero : d.signExtend 64 = 0 ↔ d = 0 := by
    rw [← toInt_inj, toInt_signExtend, ← toInt_inj]
    simp
  unfold tryDivByConst
  split
  · rename_i h
    exact .inl (hzero.1 h)
  rename_i hc
  have hd : d ≠ 0 := fun h => hc (hzero.2 h)
  split
  · rename_i h
    exact .inr (magic_disabled hc (by simpa using h))
  dsimp only
  split
  · rename_i bound mult shift hb
    obtain ⟨rfl, hs, hrec, hle⟩ := boundedDivision_spec hb
    have hu : op = .divU ∨ op = .remU := by
      rcases hop with h | h | rfl | rfl
      · exact .inl h
      · exact .inr h
      · cases hs
      · cases hs
    have hdiv := unsigned_divisor false d
    rw [if_neg (by decide)] at hdiv
    rw [hdiv] at hrec ⊢
    have hbound : (lo false res).toNat ≤ bound := by
      have := hle ρ
      rwa [← hres] at this
    show wasmDivRem op _ d = some _
    rw [wasmDivRem_unsigned hu hd, divConstUnsignedBounded_spec hrec hbound]
  · have hkind : (op = .divU ∨ op = .remU) ∧ op.signedDiv = false ∨
        (op = .divS ∨ op = .remS) ∧ op.signedDiv = true := by
      rcases hop with rfl | rfl | rfl | rfl
      · exact .inl ⟨.inl rfl, rfl⟩
      · exact .inl ⟨.inr rfl, rfl⟩
      · exact .inr ⟨.inl rfl, rfl⟩
      · exact .inr ⟨.inr rfl, rfl⟩
    rcases hkind with ⟨hu, hs⟩ | ⟨hs', hs⟩
    · rw [hs, if_neg (by decide), unsigned_divisor]
      obtain ⟨r, hr, hlo⟩ := @divConstUnsigned_spec _ res _ hd op.wantRem
      rw [hr]
      show wasmDivRem op _ d = some _
      rw [wasmDivRem_unsigned hu hd, hlo]
    · rw [hs, if_pos rfl]
      rcases @divConstSigned_spec _ res _ hd op.wantRem with ⟨hrem, hmin, hone, htrap⟩ | ⟨hno, r, hr, hlo⟩
      · rw [htrap]
        exact ⟨by rw [wasmDivRem_signed hs' hd, if_pos ⟨hrem, hmin, hone⟩], hd⟩
      · rw [hr]
        show wasmDivRem op _ d = some _
        rw [wasmDivRem_signed hs' hd, if_neg hno, hlo]

theorem magicWideU32Quotient_exact (dividend : Word) {divisor : Nat} (h1 : 1 < divisor) (h32 : divisor < 2 ^ 32) :
    magicWideU32Quotient dividend divisor = (dividend.setWidth 32 / BitVec.ofNat 32 divisor).setWidth 64 := by
  unfold magicWideU32Quotient
  generalize dividend.setWidth 32 = n
  have hn := n.isLt
  have hzext : (n.setWidth 64).toNat = n.toNat := by
    rw [toNat_setWidth, Nat.mod_eq_of_lt (by omega)]
  apply eq_of_toNat_eq
  rw [toNat_mulHighU, wideReciprocalU32, toNat_wideReciprocal h1, hzext, wideReciprocal_div hn (by omega) h32,
    toNat_setWidth, toNat_udiv, toNat_ofNat, Nat.mod_eq_of_lt h32, Nat.mod_eq_of_lt]
  exact Nat.lt_of_le_of_lt (Nat.div_le_self _ _) (by omega)

/-- Strength reduction of constant divisions is exact. For every option setting, operation, width,
divisor and dividend, whatever the upper half of an `i32` register holds, the amd64 lowering leaves
the quotient or the remainder, traps where WebAssembly does, and is given up only for a zero divisor
or with magic numbers switched off. The formulas of the two derivations give the quotient for both
widths, and so does the arm64 reciprocal. -/
theorem constant_division_exact :
    (∀ (o : DivOptions) (op : WOp), op = .divU ∨ op = .remU ∨ op = .divS ∨ op = .remS →
      ∀ (w : Bool) (arg0 : Elem) (ρ : Elem → BitVec 32) (res : Word), res.setWidth 32 = arg0.word ρ →
        ∀ d : BitVec (opWidth w),
          Exact o op w (lo w res) d (tryDivByConst o op w arg0 (d.signExtend 64) res)) ∧
      (∀ (w : Bool) (d : BitVec (opWidth w)), d ≠ 0 → d.toNat &&& (d.toNat - 1) ≠ 0 →
        ∃ m, magicU d.toNat (opWidth w) = some m ∧
          ∀ n, unsignedQuotient (BitVec.ofNat _ m.magic) m.shift m.add n = n / d) ∧
      (∀ (w : Bool) (d : BitVec (opWidth w)), d ≠ 0 → d.toInt.natAbs &&& (d.toInt.natAbs - 1) ≠ 0 →
        ∃ m, magicS d.toInt.natAbs (opWidth w) = some m ∧
          ∀ n, (if d.toInt < 0 then -signedQuotient (BitVec.ofInt _ m.magic) m.shift m.add n
            else signedQuotient (BitVec.ofInt _ m.magic) m.shift m.add n) = n.sdiv d) ∧
      ∀ (dividend : Word) (divisor : Nat), 1 < divisor → divisor < 2 ^ 32 →
        magicWideU32Quotient dividend divisor = (dividend.setWidth 32 / BitVec.ofNat 32 divisor).setWidth 64 := by
  refine ⟨?_, ?_, ?_, ?_⟩
  · intro o op hop w arg0 ρ res hres d
    exact tryDivByConst_exact o hop w arg0 ρ res hres d
  · intro w d hd hand
    have h0 : d.toNat ≠ 0 := fun h => hd (BitVec.eq_of_toNat_eq h)
    have hlo := two_pow_log2_lt h0 hand
    obtain ⟨m, -, hm, -⟩ := magicU_spec (opWidth_le w) hlo d.isLt
    refine ⟨m, hm, fun n => ?_⟩
    rw [unsignedQuotient_eq (opWidth_le w) hlo d.isLt hm, BitVec.ofNat_toNat, BitVec.setWidth_eq]
  · intro w d hd hand
    have h0 : d.toInt.natAbs ≠ 0 := fun h => hd (BitVec.eq_of_toInt_eq (by simpa using h))
    have hlo := two_pow_log2_lt h0 hand
    have hlt := natAbs_lt_of_log2 hlo
    obtain ⟨m, -, -, hm, -⟩ := magicS_spec (two_le_opWidth w) (opWidth_le w) hlo hlt
    refine ⟨m, hm, fun n => ?_⟩
    rw [signedQuotient_ofInt (two_le_opWidth w) (opWidth_le w) hlo hlt hm, sdiv_of_natAbs]
  · intro dividend divisor h1 h32
    exact magicWideU32Quotient_exact dividend h1 h32

/-- The least `i32` by minus seven, in a register with a dirty upper half. -/
theorem constant_division_exact_seven :
    Exact ⟨true, true, true⟩ .remS false (lo false 0xdead000080000000) (-7)
      (tryDivByConst ⟨true, true, true⟩ .remS false .nil ((-7 : BitVec 32).signExtend 64) 0xdead000080000000) :=
  constant_division_exact.1 ⟨true, true, true⟩ .remS (.inr (.inr (.inr rfl))) false .nil (fun _ => 0x80000000)
    0xdead000080000000 (by decide) (-7)

end Wago.Railshot
