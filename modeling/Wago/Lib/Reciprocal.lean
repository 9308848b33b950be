/-
Division by a constant through a multiplication by a rounded-up reciprocal. With `m * d = P + e` the
quotient of `n * m` by `P` is off from `n / d` by less than one part in `d` as long as `n * e < P`,
so that rounding down gives the same integer.
-/
import Mathlib.Algebra.Order.Ring.Int
import Mathlib.Tactic.Common
import Mathlib.Tactic.Ring

namespace Wago.Reciprocal

section

variable {d m P e n : Nat}

/-- What the product leaves over a multiple of `P`. -/
theorem mul_eq (hm : m * d = P + e) : n * m = n / d * P + (n / d * e + n % d * m) := by
  calc n * m = (n / d * d + n % d) * m := by rw [Nat.div_add_mod']
    _ = n / d * (m * d) + n % d * m := by ring
    _ = n / d * P + (n / d * e + n % d * m) := by rw [hm]; ring

theorem rest_lt (hd : 0 < d) (hm : m * d = P + e) (he : n * e < P) : n / d * e + n % d * m < P := by
  have hr : n % d + 1 ≤ d := Nat.mod_lt n hd
  refine Nat.lt_of_mul_lt_mul_right (a := d) ?_
  calc (n / d * e + n % d * m) * d = (n / d * d + n % d) * e + n % d * P := by
        rw [Nat.add_mul, Nat.mul_assoc (n % d), hm]; ring
    _ = n * e + n % d * P := by rw [Nat.div_add_mod']
    _ < P + n % d * P := Nat.add_lt_add_right he _
    _ = (n % d + 1) * P := by ring
    _ ≤ d * P := Nat.mul_le_mul_right P hr
    _ = P * d := Nat.mul_comm ..

theorem div_eq (hd : 0 < d) (hm : m * d = P + e) (he : n * e < P) : n * m / P = n / d := by
  rw [mul_eq hm, Nat.mul_comm, Nat.mul_add_div (by omega), Nat.div_eq_of_lt (rest_lt hd hm he),
    Nat.add_zero]

theorem rest_pos (hm : m * d = P + e) (he : 0 < e) (hn : 0 < n) : 0 < n / d * e + n % d * m := by
  have hmpos : 0 < m := Nat.pos_of_ne_zero (by rintro rfl; omega)
  rcases Nat.eq_zero_or_pos (n / d) with hq | hq
  · have hr : 0 < n % d := by
      have := Nat.div_add_mod n d
      rw [hq] at this
      omega
    have := Nat.mul_pos hr hmpos
    omega
  · have := Nat.mul_pos hq he
    omega

/-- Rounding down a negative product goes one below the quotient that is cut toward zero. -/
theorem neg_div_eq (hd : 0 < d) (hm : m * d = P + e) (hpos : 0 < e) (hn : 0 < n) (he : n * e < P) :
    -((n : Int) * m) / P = -((n / d : Nat) : Int) - 1 := by
  have hP : (0 : Int) < P := by omega
  have hlt := rest_lt hd hm he
  have hrest := rest_pos hm hpos hn
  have hmul : (n : Int) * m = (n / d : Nat) * P + ((n / d * e + n % d * m : Nat) : Int) := by
    exact_mod_cast mul_eq hm
  generalize n / d * e + n % d * m = x at hlt hrest hmul
  generalize n / d = q at hmul
  have : -((n : Int) * m) = (P - x : Int) + P * (-(q : Int) - 1) := by rw [hmul]; ring
  rw [this, Int.add_mul_ediv_left _ _ (Int.ne_of_gt hP), Int.ediv_eq_zero_of_lt (by omega) (by omega)]
  omega

/-- The same for a signed dividend: the quotient rounded down, raised by one below zero, is the one
cut toward zero. -/
theorem tdiv_eq {x : Int} (hd : 0 < d) (hm : m * d = P + e) (hpos : 0 < e) (he : x.natAbs * e < P) :
    x * m / P + (if x < 0 then 1 else 0) = x.tdiv d := by
  rcases Int.lt_or_le x 0 with hx | hx
  · rw [if_pos hx]
    obtain ⟨k, rfl⟩ := Int.eq_negSucc_of_lt_zero hx
    have hneg : Int.negSucc k = -((k + 1 : Nat) : Int) := rfl
    have hdiv := neg_div_eq (n := k + 1) hd hm hpos (Nat.succ_pos k) he
    rw [hneg, Int.neg_mul, hdiv, Int.neg_tdiv, ← Int.ofNat_tdiv]
    omega
  · rw [if_neg (by omega)]
    obtain ⟨k, rfl⟩ := Int.eq_ofNat_of_zero_le hx
    rw [Int.natAbs_natCast] at he
    rw [← Int.ofNat_tdiv, Int.add_zero, ← div_eq hd hm he]
    norm_cast

end

section

variable {d P : Nat}

/-- The reciprocal that is one above the exact quotient. -/
theorem succ_div_mul (hd : 0 < d) (P : Nat) : (P / d + 1) * d = P + (d - P % d) := by
  have h := Nat.div_add_mod' P d
  have hlt := Nat.mod_lt P hd
  rw [Nat.add_mul]
  omega

theorem double_div (hd : 0 < d) (P : Nat) :
    2 * P / d = 2 * (P / d) + if d - P % d ≤ P % d then 1 else 0 := by
  have h := Nat.div_add_mod P d
  have hlt := Nat.mod_lt P hd
  generalize P / d = q at h ⊢
  generalize P % d = r at h hlt ⊢
  rw [show 2 * P = 2 * r + d * (2 * q) by rw [← h]; ring, Nat.add_mul_div_left _ _ hd, Nat.add_comm]
  congr 1
  split
  · exact Nat.div_eq_of_lt_le (by omega) (by omega)
  · exact Nat.div_eq_of_lt (by omega)

end

end Wago.Reciprocal
