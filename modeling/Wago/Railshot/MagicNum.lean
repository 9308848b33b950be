/-
Magic numbers for constant division (`magicnum.go`): the derivation of the multiplier and the
formulas its comments give for the quotient. `uint64` values are naturals, reduced where the code can
wrap around.
-/
import Mathlib.Data.Nat.Bitwise
import Wago.Lib.Reciprocal

namespace Wago.Railshot

open BitVec hiding not_not
open Nat

/-! ## Derivation -/

/-- `bits.Div64`; `none` is its panic on a quotient that does not fit. -/
def div64 (hi lo y : Nat) : Option (Nat × Nat) :=
  if y ≤ hi then none else some ((hi * 2 ^ 64 + lo) / y, (hi * 2 ^ 64 + lo) % y)

def divPow2By64 (exp d : Nat) : Option (Nat × Nat) :=
  if exp < 64 then div64 0 (2 ^ exp) d else div64 (2 ^ (exp - 64) % 2 ^ 64) 0 d

def truncW (v W : Nat) : Nat := if W ≥ 64 then v else v &&& (2 ^ W - 1)

def signW (m W : Nat) : Int :=
  if W ≥ 64 then if m < 2 ^ 63 then m else (m : Int) - 2 ^ 64
  else if m &&& 2 ^ (W - 1) ≠ 0 then (m : Int) - 2 ^ W else m

/-- The low 64 bits of twice the proposed multiplier, rounded up. -/
def doubledMagic (pm rem d : Nat) : Nat :=
  let pm := pm * 2 % 2 ^ 64
  let pm := if rem ≥ d - rem then (pm + 1) % 2 ^ 64 else pm
  (pm + 1) % 2 ^ 64

structure Magic (α : Type) where
  magic : α
  shift : Nat
  add : Bool
deriving DecidableEq, Repr

def magicU (d W : Nat) : Option (Magic Nat) := do
  let fl := Nat.log2 d
  let (pm, rem) ← divPow2By64 (W + fl) d
  let e := d - rem
  if e < 2 ^ fl then return ⟨truncW ((pm + 1) % 2 ^ 64) W, fl, false⟩
  else return ⟨truncW (doubledMagic pm rem d) W, fl, true⟩

def magicS (ad W : Nat) : Option (Magic Int) := do
  let fl := Nat.log2 ad
  let (pm, rem) ← divPow2By64 (W - 1 + fl) ad
  let e := ad - rem
  if e < 2 ^ fl then return ⟨signW (truncW ((pm + 1) % 2 ^ 64) W) W, fl - 1, false⟩
  else return ⟨signW (truncW (doubledMagic pm rem ad) W) W, fl, true⟩

/-! ## Formulas -/

section

variable {W : Nat}

def mulHighU (x y : BitVec W) : BitVec W := BitVec.ofNat W (x.toNat * y.toNat / 2 ^ W)

def mulHighS (x y : BitVec W) : BitVec W := BitVec.ofInt W (x.toInt * y.toInt / 2 ^ W)

def unsignedQuotient (magic : BitVec W) (shift : Nat) (add : Bool) (n : BitVec W) : BitVec W :=
  let q := mulHighU magic n
  let q := if add then ((n - q) >>> 1) + q else q
  q >>> shift

def signedQuotient (magic : BitVec W) (shift : Nat) (addN : Bool) (n : BitVec W) : BitVec W :=
  let q := mulHighS magic n
  let q := if addN then q + n else q
  let q := q.sshiftRight shift
  q + q >>> (W - 1)

end

/-! ## The multiplier is a rounded-up reciprocal -/

theorem divPow2By64_eq {exp d : Nat} (hd : 0 < d) (hexp : exp < 128) (hfit : 2 ^ exp < d * 2 ^ 64) :
    divPow2By64 exp d = some (2 ^ exp / d, 2 ^ exp % d) := by
  unfold divPow2By64
  split
  · rw [div64, if_neg (by omega)]
    simp
  · rename_i hge
    have hsplit : 2 ^ exp = 2 ^ (exp - 64) * 2 ^ 64 := by
      rw [← Nat.pow_add]
      congr 1
      omega
    have hlt : 2 ^ (exp - 64) < 2 ^ 64 := Nat.pow_lt_pow_right (by decide) (by omega)
    have hhi : 2 ^ (exp - 64) < d := by
      rw [hsplit] at hfit
      exact Nat.lt_of_mul_lt_mul_right hfit
    rw [mod_eq_of_lt hlt, div64, if_neg (by omega), Nat.add_zero, ← hsplit]

theorem truncW_eq {v W : Nat} (hv : v < 2 ^ 64) (hW : W ≤ 64) : truncW v W = v % 2 ^ W := by
  unfold truncW
  split
  · have : W = 64 := by omega
    rw [this, mod_eq_of_lt hv]
  · rw [and_two_pow_sub_one_eq_mod]

/-- Reductions to 64 bits do not show in the low `W` bits. -/
theorem mod_mod_word {W : Nat} (hW : W ≤ 64) (x : Nat) : x % 2 ^ 64 % 2 ^ W = x % 2 ^ W :=
  mod_mod_of_dvd x (Nat.pow_dvd_pow 2 hW)

theorem doubledMagic_mod {P d W : Nat} (hd : 0 < d) (hW : W ≤ 64) :
    doubledMagic (P / d) (P % d) d % 2 ^ W = (2 * P / d + 1) % 2 ^ W := by
  have hstep : doubledMagic (P / d) (P % d) d = (2 * P / d + 1) % 2 ^ 64 := by
    rw [Reciprocal.double_div hd]
    unfold doubledMagic
    dsimp only
    split
    · omega
    · omega
  rw [hstep, mod_mod_word hW]

theorem doubledMagic_lt (pm rem d : Nat) : doubledMagic pm rem d < 2 ^ 64 :=
  mod_lt _ (by decide)

section

variable {d W fl : Nat}

/-- Rounded up, `2 ^ (K + fl) / d` stays below the next power of two. -/
theorem succ_div_lt {K : Nat} (hlo : 2 ^ fl < d) (hhi : d < 2 ^ (fl + 1)) (hK : fl + 1 ≤ K) :
    2 ^ (K + fl) / d + 1 < 2 ^ K := by
  have hd : 0 < d := by omega
  have hmul := Reciprocal.succ_div_mul hd (2 ^ (K + fl))
  have hpow : 2 ^ (K + fl) = 2 ^ K * 2 ^ fl := Nat.pow_add ..
  have hle : 2 ^ (fl + 1) ≤ 2 ^ K := Nat.pow_le_pow_right (by decide) hK
  by_contra hge
  have h1 : 2 ^ K * (2 ^ fl + 1) ≤ (2 ^ (K + fl) / d + 1) * d := Nat.mul_le_mul (by omega) hlo
  rw [Nat.mul_add, Nat.mul_one, ← hpow] at h1
  omega

theorem le_div {K : Nat} (hlo : 0 < d) (hhi : d ≤ 2 ^ fl) : 2 ^ K ≤ 2 ^ (K + fl) / d := by
  rw [Nat.le_div_iff_mul_le hlo, Nat.pow_add]
  exact Nat.mul_le_mul_left _ hhi

/-- Multiplier, shift and error of the unsigned derivation. -/
theorem magicU_spec (hW : W ≤ 64) (hlo : 2 ^ d.log2 < d) (hd : d < 2 ^ W) :
    ∃ (m : Magic Nat) (e : Nat), magicU d W = some m ∧ m.magic < 2 ^ W ∧ m.shift < W ∧ 0 < e ∧
      e ≤ 2 ^ (m.shift + m.add.toNat) ∧
      (m.magic + m.add.toNat * 2 ^ W) * d = 2 ^ (W + (m.shift + m.add.toNat)) + e := by
  have h0 : 0 < d := Nat.lt_of_le_of_lt (Nat.zero_le _) hlo
  have hhi : d < 2 ^ (d.log2 + 1) := lt_log2_self
  have hfl : d.log2 < W := (log2_lt (by omega)).2 hd
  unfold magicU
  generalize d.log2 = fl at hlo hhi hfl
  have hdiv : divPow2By64 (W + fl) d = some (2 ^ (W + fl) / d, 2 ^ (W + fl) % d) := by
    refine divPow2By64_eq h0 (by omega) ?_
    calc 2 ^ (W + fl) = 2 ^ fl * 2 ^ W := by rw [Nat.add_comm, Nat.pow_add]
      _ < d * 2 ^ W := Nat.mul_lt_mul_of_pos_right hlo (Nat.two_pow_pos W)
      _ ≤ d * 2 ^ 64 := Nat.mul_le_mul_left d (Nat.pow_le_pow_right (by decide) hW)
  have hrem := mod_lt (2 ^ (W + fl)) h0
  have hmagic := succ_div_lt hlo hhi hfl
  have hword : 2 ^ W ≤ 2 ^ 64 := Nat.pow_le_pow_right (by decide) hW
  simp only [hdiv, Option.bind_eq_bind, Option.bind_some]
  split
  · rename_i he
    refine ⟨_, d - 2 ^ (W + fl) % d, rfl, ?_, hfl, by omega, Nat.le_of_lt he, ?_⟩
    · rw [truncW_eq (mod_lt _ (by decide)) hW]
      exact mod_lt _ (Nat.two_pow_pos W)
    · rw [mod_eq_of_lt (by omega), truncW_eq (by omega) hW, mod_eq_of_lt hmagic]
      simpa using Reciprocal.succ_div_mul h0 (2 ^ (W + fl))
  · -- the multiplier has bit `W` set, which the truncation drops
    have htwice : 2 * 2 ^ (W + fl) = 2 ^ (W + (fl + 1)) := by rw [← Nat.add_assoc, Nat.pow_succ]; omega
    have hge : 2 ^ W ≤ 2 * 2 ^ (W + fl) / d := htwice ▸ le_div h0 (Nat.le_of_lt hhi)
    have hlt : 2 * 2 ^ (W + fl) / d + 1 < 2 * 2 ^ W := by
      have := succ_div_lt (K := W + 1) hlo hhi (by omega)
      rwa [show W + 1 + fl = W + (fl + 1) by omega, ← htwice, Nat.pow_succ, Nat.mul_comm (2 ^ W)] at this
    have hval : truncW (doubledMagic (2 ^ (W + fl) / d) (2 ^ (W + fl) % d) d) W =
        2 * 2 ^ (W + fl) / d + 1 - 2 ^ W := by
      rw [truncW_eq (doubledMagic_lt ..) hW, doubledMagic_mod h0 hW, mod_eq_sub_mod (by omega),
        mod_eq_of_lt (by omega)]
    have hmod := mod_lt (2 * 2 ^ (W + fl)) h0
    refine ⟨_, d - 2 * 2 ^ (W + fl) % d, rfl, ?_, hfl, by omega, ?_, ?_⟩
    · show truncW _ W < 2 ^ W
      omega
    · show d - 2 * 2 ^ (W + fl) % d ≤ 2 ^ (fl + 1)
      omega
    · show (truncW _ W + 1 * 2 ^ W) * d = 2 ^ (W + (fl + 1)) + _
      rw [hval, ← htwice, ← Reciprocal.succ_div_mul h0]
      congr 1
      omega

theorem signW_of_lt {m : Nat} (hW0 : 0 < W) (hW : W ≤ 64) (h : m < 2 ^ (W - 1)) : signW m W = m := by
  unfold signW
  split
  · have : W = 64 := by omega
    subst this
    rw [if_pos h]
  · rw [if_neg]
    rw [not_not, and_two_pow, testBit_lt_two_pow h]
    simp

theorem signW_of_ge {m : Nat} (hW0 : 0 < W) (hW : W ≤ 64) (hlo : 2 ^ (W - 1) ≤ m) (hhi : m < 2 ^ W) :
    signW m W = (m : Int) - 2 ^ W := by
  unfold signW
  split
  · have : W = 64 := by omega
    subst this
    rw [if_neg (Nat.not_lt.2 hlo)]
  · rw [if_pos]
    rw [and_two_pow]
    have hdiv : m / 2 ^ (W - 1) = 1 := by
      have hpow : 2 ^ W = 2 * 2 ^ (W - 1) := by rw [← Nat.pow_succ']; congr 1; omega
      exact Nat.div_eq_of_lt_le (by omega) (by omega)
    have hbit : m.testBit (W - 1) = true := by
      rw [testBit_eq_decide_div_mod_eq, hdiv]
      rfl
    rw [hbit]
    have := Nat.two_pow_pos (W - 1)
    simp

/-- The same for the signed derivation; the error is small against half the words. -/
theorem magicS_spec (hW0 : 2 ≤ W) (hW : W ≤ 64) (hlo : 2 ^ d.log2 < d) (hd : d < 2 ^ (W - 1)) :
    ∃ (m : Magic Int) (M e : Nat), magicS d W = some m ∧ M < 2 ^ W ∧
      m.magic = (M : Int) - m.add.toNat * 2 ^ W ∧ -2 ^ (W - 1) ≤ m.magic ∧ m.magic < 2 ^ (W - 1) ∧
      m.shift < W ∧ 0 < e ∧ e < 2 ^ (m.shift + 1) ∧ M * d = 2 ^ (W + m.shift) + e := by
  have h0 : 0 < d := Nat.lt_of_le_of_lt (Nat.zero_le _) hlo
  have hhi : d < 2 ^ (d.log2 + 1) := lt_log2_self
  have hfl : d.log2 < W - 1 := (log2_lt (by omega)).2 hd
  have hfl0 : 0 < d.log2 := by
    rw [Nat.pos_iff_ne_zero]
    intro hz
    rw [hz] at hlo hhi
    omega
  unfold magicS
  generalize d.log2 = fl at hlo hhi hfl hfl0
  have hdiv : divPow2By64 (W - 1 + fl) d = some (2 ^ (W - 1 + fl) / d, 2 ^ (W - 1 + fl) % d) := by
    refine divPow2By64_eq h0 (by omega) ?_
    calc 2 ^ (W - 1 + fl) = 2 ^ fl * 2 ^ (W - 1) := by rw [Nat.add_comm, Nat.pow_add]
      _ < d * 2 ^ (W - 1) := Nat.mul_lt_mul_of_pos_right hlo (Nat.two_pow_pos _)
      _ ≤ d * 2 ^ 64 := Nat.mul_le_mul_left d (Nat.pow_le_pow_right (by decide) (by omega))
  have hrem := mod_lt (2 ^ (W - 1 + fl)) h0
  have hword : 2 ^ W ≤ 2 ^ 64 := Nat.pow_le_pow_right (by decide) hW
  have hhalf : 2 ^ W = 2 * 2 ^ (W - 1) := by rw [← Nat.pow_succ']; congr 1; omega
  have hhalfI : (2 : Int) ^ W = 2 * 2 ^ (W - 1) := by exact_mod_cast hhalf
  have hposI : (0 : Int) < 2 ^ (W - 1) := Int.pow_pos (by decide)
  have hposN : 0 < 2 ^ (W - 1) := Nat.two_pow_pos _
  have hcast : ((2 ^ (W - 1) : Nat) : Int) = 2 ^ (W - 1) := by norm_cast
  simp only [hdiv, Option.bind_eq_bind, Option.bind_some]
  split
  · rename_i he
    have hmagic := succ_div_lt (K := W - 1) hlo hhi hfl
    have hval : signW (truncW ((2 ^ (W - 1 + fl) / d + 1) % 2 ^ 64) W) W =
        ((2 ^ (W - 1 + fl) / d + 1 : Nat) : Int) := by
      rw [mod_eq_of_lt (by omega), truncW_eq (by omega) hW, mod_eq_of_lt (by omega),
        signW_of_lt (by omega) hW hmagic]
    refine ⟨_, 2 ^ (W - 1 + fl) / d + 1, d - 2 ^ (W - 1 + fl) % d, rfl, by omega, ?_, ?_, ?_, ?_,
      by omega, ?_, ?_⟩
    · show signW _ W = _ - ((false.toNat : Nat) : Int) * 2 ^ W
      rw [hval]
      simp
    · show -2 ^ (W - 1) ≤ signW _ W
      rw [hval]
      exact Int.le_trans (by omega) (Int.natCast_nonneg _)
    · show signW _ W < 2 ^ (W - 1)
      rw [hval]
      omega
    · show fl - 1 < W
      omega
    · show _ < 2 ^ (fl - 1 + 1)
      rwa [Nat.sub_add_cancel hfl0]
    · show _ = 2 ^ (W + (fl - 1)) + _
      rw [show W + (fl - 1) = W - 1 + fl by omega]
      exact Reciprocal.succ_div_mul h0 _
  · -- the multiplier is at least half the words, so that it is read as a negative number
    have htwice : 2 * 2 ^ (W - 1 + fl) = 2 ^ (W + fl) := by rw [← Nat.pow_succ']; congr 1; omega
    have hge : 2 ^ (W - 1) ≤ 2 * 2 ^ (W - 1 + fl) / d := by
      have := le_div (K := W - 1) h0 (Nat.le_of_lt hhi)
      rwa [show W - 1 + (fl + 1) = W + fl by omega, ← htwice] at this
    have hlt : 2 * 2 ^ (W - 1 + fl) / d + 1 < 2 ^ W := by
      have := succ_div_lt (K := W) hlo hhi (by omega)
      rwa [← htwice] at this
    have hval : signW (truncW (doubledMagic (2 ^ (W - 1 + fl) / d) (2 ^ (W - 1 + fl) % d) d) W) W =
        ((2 * 2 ^ (W - 1 + fl) / d + 1 : Nat) : Int) - 2 ^ W := by
      rw [truncW_eq (doubledMagic_lt ..) hW, doubledMagic_mod h0 hW, mod_eq_of_lt hlt,
        signW_of_ge (by omega) hW (by omega) hlt]
    have hmod := mod_lt (2 * 2 ^ (W - 1 + fl)) h0
    refine ⟨_, 2 * 2 ^ (W - 1 + fl) / d + 1, d - 2 * 2 ^ (W - 1 + fl) % d, rfl, hlt, ?_, ?_, ?_, ?_,
      by omega, ?_, ?_⟩
    · show signW _ W = _ - ((true.toNat : Nat) : Int) * 2 ^ W
      rw [hval]
      simp
    · show -2 ^ (W - 1) ≤ signW _ W
      have : ((2 ^ (W - 1) : Nat) : Int) ≤ ((2 * 2 ^ (W - 1 + fl) / d + 1 : Nat) : Int) := by
        exact_mod_cast le_succ_of_le hge
      rw [hval]
      omega
    · show signW _ W < 2 ^ (W - 1)
      rw [hval]
      have : ((2 * 2 ^ (W - 1 + fl) / d + 1 : Nat) : Int) < 2 ^ W := by exact_mod_cast hlt
      omega
    · show fl < W
      omega
    · show _ < 2 ^ (fl + 1)
      omega
    · show _ = 2 ^ (W + fl) + _
      rw [← htwice]
      exact Reciprocal.succ_div_mul h0 _

end

/-! ## The formulas give the quotient -/

section

variable {W : Nat}

theorem toNat_mulHighU (x y : BitVec W) : (mulHighU x y).toNat = x.toNat * y.toNat / 2 ^ W := by
  rw [mulHighU, toNat_ofNat, mod_eq_of_lt]
  apply Nat.div_lt_of_lt_mul
  exact Nat.mul_lt_mul'' x.isLt y.isLt

/-- Halving the sum of `q` and `n` without the carry. -/
theorem toNat_average {n q : BitVec W} (h : q.toNat ≤ n.toNat) :
    ((n - q) >>> 1 + q).toNat = (n.toNat + q.toNat) / 2 := by
  have hlt := n.isLt
  have hsub : (n - q).toNat = n.toNat - q.toNat := toNat_sub_of_le (le_def.2 h)
  rw [toNat_add, toNat_ushiftRight, hsub, shiftRight_eq_div_pow, mod_eq_of_lt]
  · omega
  · omega

theorem unsignedQuotient_eq {d : Nat} (hW : W ≤ 64) (hlo : 2 ^ d.log2 < d) (hd : d < 2 ^ W)
    {m : Magic Nat} (hm : magicU d W = some m) (n : BitVec W) :
    unsignedQuotient (BitVec.ofNat W m.magic) m.shift m.add n = n / BitVec.ofNat W d := by
  have h0 : 0 < d := Nat.lt_of_le_of_lt (Nat.zero_le _) hlo
  obtain ⟨m', e, hm', hmagic, -, hpos, he, hmul⟩ := magicU_spec hW hlo hd
  obtain rfl : m = m' := Option.some.inj (hm.symm.trans hm')
  have hn := n.isLt
  have herr : n.toNat * e < 2 ^ (W + (m.shift + m.add.toNat)) := by
    rw [Nat.pow_add]
    calc n.toNat * e < 2 ^ W * e := Nat.mul_lt_mul_of_pos_right hn hpos
      _ ≤ _ := Nat.mul_le_mul_left _ he
  have hdiv := Reciprocal.div_eq h0 hmul herr
  apply eq_of_toNat_eq
  have htoNat : (BitVec.ofNat W m.magic).toNat = m.magic := by
    rw [toNat_ofNat, mod_eq_of_lt hmagic]
  rw [toNat_udiv, toNat_ofNat, mod_eq_of_lt hd, ← hdiv, unsignedQuotient]
  generalize m.magic = magic at *
  generalize m.shift = shift at *
  cases m.add with
  | false =>
    simp only [Bool.false_eq_true, if_false, Bool.toNat_false, Nat.add_zero, Nat.zero_mul]
    rw [toNat_ushiftRight, toNat_mulHighU, htoNat, shiftRight_eq_div_pow, Nat.div_div_eq_div_mul,
      ← Nat.pow_add, Nat.mul_comm]
  | true =>
    have hq : (mulHighU (BitVec.ofNat W magic) n).toNat = magic * n.toNat / 2 ^ W := by
      rw [toNat_mulHighU, htoNat]
    have hle : (mulHighU (BitVec.ofNat W magic) n).toNat ≤ n.toNat := by
      rw [hq]
      apply Nat.div_le_of_le_mul
      exact Nat.mul_le_mul_right _ (Nat.le_of_lt hmagic)
    simp only [if_true, Bool.toNat_true, Nat.one_mul]
    rw [toNat_ushiftRight, toNat_average hle, hq, shiftRight_eq_div_pow]
    -- `n` plus the high half is the high half of the product with the whole multiplier
    have hsum : n.toNat + magic * n.toNat / 2 ^ W = n.toNat * (magic + 2 ^ W) / 2 ^ W := by
      rw [Nat.mul_add, add_mul_div_right _ _ (Nat.two_pow_pos W), Nat.mul_comm n.toNat magic, Nat.add_comm]
    rw [hsum, Nat.div_div_eq_div_mul, Nat.div_div_eq_div_mul]
    congr 1
    rw [Nat.pow_add, Nat.pow_succ]
    ring

theorem toInt_ofInt_of_bounds (hW : 0 < W) {x : Int} (hlo : -2 ^ (W - 1) ≤ x) (hhi : x < 2 ^ (W - 1)) :
    (BitVec.ofInt W x).toInt = x := by
  refine toInt_ofInt_eq_self hW hlo ?_
  omega

/-- The top bit as a word. -/
theorem ushiftRight_last (hW : 0 < W) (x : BitVec W) :
    x >>> (W - 1) = BitVec.ofInt W (if x.toInt < 0 then 1 else 0) := by
  have hhalf : 2 ^ W = 2 * 2 ^ (W - 1) := by rw [← Nat.pow_succ']; congr 1; omega
  have hx := x.isLt
  have hpos := Nat.two_pow_pos (W - 1)
  apply eq_of_toNat_eq
  rw [toNat_ushiftRight, shiftRight_eq_div_pow, toInt_eq_toNat_cond]
  by_cases h : 2 * x.toNat < 2 ^ W
  · rw [if_pos h, if_neg (by omega), div_eq_of_lt (by omega)]
    simp
  · rw [if_neg h, if_pos (by omega), Nat.div_eq_of_lt_le (k := 1) (by omega) (by omega)]
    show 1 = ((1 : Int) % ((2 ^ W : Nat) : Int)).toNat
    rw [Int.emod_eq_of_lt (by decide) (by omega)]
    rfl

theorem signedQuotient_ofInt {d : Nat} (hW0 : 2 ≤ W) (hW : W ≤ 64) (hlo : 2 ^ d.log2 < d) (hd : d < 2 ^ (W - 1))
    {m : Magic Int} (hm : magicS d W = some m) (n : BitVec W) :
    signedQuotient (BitVec.ofInt W m.magic) m.shift m.add n = BitVec.ofInt W (n.toInt.tdiv d) := by
  have h0 : 0 < d := Nat.lt_of_le_of_lt (Nat.zero_le _) hlo
  obtain ⟨m', M, e, hm', hM, hmagic, hmlo, hmhi, -, hpos, he, hmul⟩ := magicS_spec hW0 hW hlo hd
  obtain rfl : m = m' := Option.some.inj (hm.symm.trans hm')
  have hhalf : 2 ^ W = 2 * 2 ^ (W - 1) := by rw [← Nat.pow_succ']; congr 1; omega
  have hhalfI : (2 : Int) ^ W = 2 * 2 ^ (W - 1) := by exact_mod_cast hhalf
  have hposI : (0 : Int) < 2 ^ (W - 1) := Int.pow_pos (by decide)
  have hcast : ((2 ^ (W - 1) : Nat) : Int) = 2 ^ (W - 1) := by norm_cast
  have hnlo : -2 ^ (W - 1) ≤ n.toInt := le_toInt n
  have hnhi : n.toInt < 2 ^ (W - 1) := toInt_lt
  -- with or without the correction the high half of the product with the whole multiplier
  have hhigh : (if m.add then mulHighS (BitVec.ofInt W m.magic) n + n else mulHighS (BitVec.ofInt W m.magic) n) =
      BitVec.ofInt W (n.toInt * M / 2 ^ W) := by
    rw [mulHighS, toInt_ofInt_of_bounds (by omega) hmlo hmhi, hmagic]
    cases m.add with
    | false =>
      rw [if_neg (by decide), Bool.toNat_false, Int.natCast_zero, Int.zero_mul, Int.sub_zero, Int.mul_comm]
    | true =>
      rw [if_pos rfl, Bool.toNat_true, Int.natCast_one, Int.one_mul]
      have hfloor : ((M : Int) - 2 ^ W) * n.toInt / 2 ^ W = n.toInt * M / 2 ^ W + -n.toInt := by
        rw [show ((M : Int) - 2 ^ W) * n.toInt = n.toInt * M + 2 ^ W * -n.toInt by ring,
          Int.add_mul_ediv_left _ _ (by omega)]
      calc BitVec.ofInt W (((M : Int) - 2 ^ W) * n.toInt / 2 ^ W) + n
          = BitVec.ofInt W (n.toInt * M / 2 ^ W + -n.toInt) + BitVec.ofInt W n.toInt := by
            rw [hfloor, ofInt_toInt]
        _ = BitVec.ofInt W (n.toInt * M / 2 ^ W) := by rw [← ofInt_add]; congr 1; omega
  have hQ : (BitVec.ofInt W (n.toInt * M / 2 ^ W)).toInt = n.toInt * M / 2 ^ W := by
    have hMI : (M : Int) < 2 ^ W := by exact_mod_cast hM
    have hM0 : (0 : Int) ≤ M := Int.natCast_nonneg M
    apply toInt_ofInt_of_bounds (by omega)
    · apply Int.le_ediv_of_mul_le (by omega)
      calc -2 ^ (W - 1) * (2 : Int) ^ W ≤ -2 ^ (W - 1) * M :=
            Int.mul_le_mul_of_nonpos_left (by omega) (Int.le_of_lt hMI)
        _ ≤ n.toInt * M := Int.mul_le_mul_of_nonneg_right hnlo hM0
    · apply Int.ediv_lt_of_lt_mul (by omega)
      calc n.toInt * M ≤ (2 ^ (W - 1) - 1) * M := Int.mul_le_mul_of_nonneg_right (by omega) hM0
        _ ≤ (2 ^ (W - 1) - 1) * 2 ^ W := Int.mul_le_mul_of_nonneg_left (Int.le_of_lt hMI) (by omega)
        _ < 2 ^ (W - 1) * 2 ^ W := by rw [Int.sub_mul]; omega
  have hT : ((BitVec.ofInt W (n.toInt * M / 2 ^ W)).sshiftRight m.shift).toInt =
      n.toInt * M / ((2 ^ (W + m.shift) : Nat) : Int) := by
    rw [toInt_sshiftRight, hQ, Int.shiftRight_eq_div_pow, Int.ediv_ediv_of_nonneg (by omega), Nat.pow_add]
    norm_cast
  have herr : n.toInt.natAbs * e < 2 ^ (W + m.shift) := by
    have habs : n.toInt.natAbs ≤ 2 ^ (W - 1) := by omega
    calc n.toInt.natAbs * e ≤ 2 ^ (W - 1) * e := Nat.mul_le_mul_right e habs
      _ < 2 ^ (W - 1) * 2 ^ (m.shift + 1) := Nat.mul_lt_mul_of_pos_left he (Nat.two_pow_pos _)
      _ = 2 ^ (W + m.shift) := by rw [← Nat.pow_add]; congr 1; omega
  have htdiv := Reciprocal.tdiv_eq h0 hmul hpos herr
  have hsign : n.toInt * M / ((2 ^ (W + m.shift) : Nat) : Int) < 0 ↔ n.toInt < 0 := by
    have hP : (0 : Int) < ((2 ^ (W + m.shift) : Nat) : Int) := by exact_mod_cast Nat.two_pow_pos _
    have hM0 : (0 : Int) < M := by
      rw [Int.natCast_pos, Nat.pos_iff_ne_zero]
      rintro rfl
      omega
    constructor
    · intro hneg
      by_contra hn
      exact absurd (Int.ediv_nonneg (Int.mul_nonneg (Int.not_lt.1 hn) (Int.le_of_lt hM0)) (Int.le_of_lt hP))
        (Int.not_le.2 hneg)
    · intro hn
      exact Int.ediv_neg_of_neg_of_pos (Int.mul_neg_of_neg_of_pos hn hM0) hP
  unfold signedQuotient
  dsimp only
  rw [hhigh, ushiftRight_last (by omega), hT]
  simp only [hsign]
  rw [← htdiv, ofInt_add, ← hT, ofInt_toInt]

end

end Wago.Railshot
