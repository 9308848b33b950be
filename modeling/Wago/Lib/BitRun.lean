/-
Words made of repeated rotated runs of ones: words by their bits, periods of a word, and the number
of its set bits. At the end, upper bounds of unsigned words: a bound is not a bit mask, since a value
below `5` can have bit `1`, but its all-ones envelope is, and that is computed by shifting the bound
over itself.
-/
import Mathlib.Data.Finset.Card
import Mathlib.Data.Nat.Bitwise
import Mathlib.Tactic.Common
import Wago.Lib.Bitmap

namespace Wago.BitRun

open Nat Finset

/-! ## Words by their bits -/

/-- The word with these bits. -/
def ofBits (bit : Nat → Bool) : (width : Nat) → BitVec width
  | 0 => 0#0
  | width + 1 => BitVec.cons (bit width) (ofBits bit width)

@[simp] theorem getLsbD_ofBits (bit : Nat → Bool) : ∀ (width i : Nat),
    (ofBits bit width).getLsbD i = (decide (i < width) && bit i)
  | 0, i => by simp [ofBits]
  | width + 1, i => by
    rw [ofBits, BitVec.getLsbD_cons, getLsbD_ofBits bit width i]
    by_cases h : i = width
    · simp [h]
    · by_cases h' : i < width
      · simp [h, h', lt_succ_of_lt h']
      · simp [h, h', show ¬ i < width + 1 by omega]

/-- The low `n` bits of an element of `e` bits, rotated right by `r`. -/
def rotatedRun (e n r : Nat) : Nat → Bool := fun i => decide ((i + r) % e < n)

/-- The word that repeats an element of `e` bits. -/
def replicate (width e : Nat) (bit : Nat → Bool) : BitVec width := ofBits (fun i => bit (i % e)) width

/-- A mask of the low bits. -/
theorem getLsbD_lowMask {n : Nat} (hn : n ≤ 64) (i : Nat) :
    ((1#64 <<< n) - 1#64).getLsbD i = decide (i < n) := by
  have hval : ((1#64 <<< n) - 1#64).toNat = 2 ^ n - 1 := by
    rcases Nat.lt_or_eq_of_le hn with h | rfl
    · have hpow : 2 ^ n < 2 ^ 64 := Nat.pow_lt_pow_right (by decide) h
      have hpos : 0 < 2 ^ n := Nat.two_pow_pos n
      rw [BitVec.toNat_sub, BitVec.toNat_shiftLeft, shiftLeft_eq]
      simp only [BitVec.toNat_ofNat]
      omega
    · rfl
  rw [BitVec.getLsbD, hval, testBit_two_pow_sub_one]

/-! ## Periods -/

def Periodic {w : Nat} (e : Nat) (v : BitVec w) : Prop :=
  ∀ i, i + e < w → v.getLsbD (i + e) = v.getLsbD i

section Periodic

variable {w e : Nat} {v : BitVec w}

theorem Periodic.mul (h : Periodic e v) (m : Nat) : Periodic (e * m) v := by
  induction m with
  | zero => intro i _; rfl
  | succ m ih =>
    intro i hi
    rw [mul_succ, ← Nat.add_assoc] at hi ⊢
    rw [h (i + e * m) hi, ih i (by omega)]

theorem Periodic.mod (h : Periodic e v) {i : Nat} (hi : i < w) : v.getLsbD i = v.getLsbD (i % e) := by
  have := h.mul (i / e) (i % e) (by rw [mod_add_div]; exact hi)
  rwa [mod_add_div] at this

theorem Periodic.trivial (h : w ≤ e) : Periodic e v := by
  intro i hi
  omega

theorem replicate_periodic {bit : Nat → Bool} : Periodic e (replicate w e bit) := by
  intro i hi
  simp [replicate, hi, show i < w by omega, -BitVec.getLsbD_eq_getElem]

/-- A word of period `2 * e` has period `e` when its first two elements agree. -/
theorem Periodic.half (h : Periodic (2 * e) v) (h0 : 0 < e)
    (hsame : ∀ i < e, i + e < w → v.getLsbD (i + e) = v.getLsbD i) : Periodic e v := by
  intro i hi
  have hlt : i % (2 * e) < 2 * e := mod_lt _ (by omega)
  rw [h.mod (show i < w by omega), h.mod hi]
  generalize hj : i % (2 * e) = j at hlt
  have hsum : (i + e) % (2 * e) = (j + e) % (2 * e) := by rw [← hj, mod_add_mod]
  have hjw : j ≤ i := by rw [← hj]; exact mod_le _ _
  rw [hsum]
  by_cases hje : j < e
  · rw [mod_eq_of_lt (by omega)]
    exact hsame j hje (by omega)
  · rw [mod_eq_sub_mod (by omega), mod_eq_of_lt (by omega), show j + e - 2 * e = j - e by omega]
    have := hsame (j - e) (by omega) (by omega)
    rw [show j - e + e = j by omega] at this
    exact this.symm

end Periodic

/-! ## Rotated runs -/

theorem mod_of_lt_double {n e : Nat} (h : n < 2 * e) : n % e = if n < e then n else n - e := by
  split
  · next h' => exact mod_eq_of_lt h'
  · rw [mod_eq_sub_mod (by omega), mod_eq_of_lt (by omega)]

theorem rotatedRun_of_lt {e n r i : Nat} (hi : i < e) (hr : r < e) :
    rotatedRun e n r i = true ↔ if i + r < e then i + r < n else i + r - e < n := by
  rw [rotatedRun, decide_eq_true_eq, mod_of_lt_double (by omega)]
  split <;> rfl

/-- A proper run has no shorter period: the halves of its element differ somewhere. -/
theorem rotatedRun_halves {e n r : Nat} (hn : 0 < n) (hne : n < 2 * e) (hr : r < 2 * e) :
    ∃ i < e, rotatedRun (2 * e) n r (i + e) ≠ rotatedRun (2 * e) n r i := by
  -- the place where the run starts, or the one behind its end, if the run is longer than a half
  have key : ∀ j < 2 * e, ∀ a b : Bool, a ≠ b → rotatedRun (2 * e) n r j = a →
      (∀ j' < 2 * e, (j' = j + e ∨ j = j' + e) → rotatedRun (2 * e) n r j' = b) →
      ∃ i < e, rotatedRun (2 * e) n r (i + e) ≠ rotatedRun (2 * e) n r i := by
    intro j hj a b hab h1 h2
    by_cases hje : j < e
    · refine ⟨j, hje, ?_⟩
      rw [h1, h2 (j + e) (by omega) (.inl rfl)]
      exact hab.symm
    · refine ⟨j - e, by omega, ?_⟩
      rw [h2 (j - e) (by omega) (.inr (by omega)), show j - e + e = j by omega, h1]
      exact hab
  by_cases hlong : n ≤ e
  · apply key (if r = 0 then 0 else 2 * e - r) (by split <;> omega) true false (by decide)
    · rw [rotatedRun_of_lt (by split <;> omega) hr]
      split <;> split <;> omega
    · intro j' hj' hcase
      rw [Bool.eq_false_iff, ne_eq, rotatedRun_of_lt hj' hr]
      split at hcase <;> split <;> omega
  · apply key (if r ≤ n then n - r else n + 2 * e - r) (by split <;> omega) false true (by decide)
    · rw [Bool.eq_false_iff, ne_eq, rotatedRun_of_lt (by split <;> omega) hr]
      split <;> split <;> omega
    · intro j' hj' hcase
      rw [rotatedRun_of_lt hj' hr]
      split at hcase <;> split <;> omega

/-- A proper run has set and clear bits. -/
theorem rotatedRun_mixed {e n r : Nat} (hn : 0 < n) (hne : n < e) (hr : r < e) :
    (∃ i < e, rotatedRun e n r i = true) ∧ ∃ i < e, rotatedRun e n r i = false := by
  constructor
  · refine ⟨if r = 0 then 0 else e - r, by split <;> omega, ?_⟩
    rw [rotatedRun_of_lt (by split <;> omega) hr]
    split <;> split <;> omega
  · refine ⟨if r ≤ n then n - r else n + e - r, by split <;> omega, ?_⟩
    rw [Bool.eq_false_iff, ne_eq, rotatedRun_of_lt (by split <;> omega) hr]
    split <;> split <;> omega

/-! ## Counting bits -/

def setBits (v : BitVec 64) : Finset Nat := (Finset.range 64).filter fun i => v.getLsbD i = true

theorem mem_setBits {v : BitVec 64} {i : Nat} : i ∈ setBits v ↔ v.getLsbD i = true := by
  rw [setBits, mem_filter, mem_range]
  constructor
  · exact fun h => h.2
  · intro h
    refine ⟨?_, h⟩
    by_contra hge
    rw [BitVec.getLsbD_of_ge _ _ (by omega)] at h
    cases h

theorem setBits_eq_empty {v : BitVec 64} : setBits v = ∅ ↔ v = 0 := by
  rw [Bitmap.eq_zero_iff, eq_empty_iff_forall_notMem]
  simp only [mem_setBits, Bool.not_eq_true]

/-- `v &= v - 1` takes one bit away. -/
theorem card_setBits_and_sub_one {v : BitVec 64} (h : v ≠ 0) :
    (setBits (v &&& (v - 1#64))).card + 1 = (setBits v).card := by
  obtain ⟨-, hset, -⟩ := Bitmap.lowest_spec h
  have herase : setBits (v &&& (v - 1#64)) = (setBits v).erase (Bitmap.lowest v) := by
    ext i
    have hbit : (v &&& (v - 1#64)).getLsbD i = (v.getLsbD i && decide (i ≠ Bitmap.lowest v)) :=
      Bitmap.getLsbD_and_sub_one h i
    rw [mem_setBits, mem_erase, mem_setBits, hbit, Bool.and_eq_true, decide_eq_true_eq]
    exact and_comm
  rw [herase]
  exact card_erase_add_one (mem_setBits.2 hset)

/-- A rotated run keeps its length. -/
theorem card_rotatedRun {e n r : Nat} (hn : n ≤ e) (hr : r < e) :
    ((Finset.range e).filter fun i => rotatedRun e n r i = true).card = n := by
  conv_rhs => rw [← card_range n]
  symm
  apply card_bij (fun j _ => if r ≤ j then j - r else j + e - r)
  · intro j hj
    rw [mem_range] at hj
    rw [mem_filter, mem_range, rotatedRun_of_lt (by split <;> omega) hr]
    split <;> split <;> omega
  · intro j hj j' hj' heq
    rw [mem_range] at hj hj'
    split at heq <;> split at heq <;> omega
  · intro i hi
    rw [mem_filter, mem_range] at hi
    rw [rotatedRun_of_lt hi.1 hr] at hi
    obtain ⟨hie, hi⟩ := hi
    split at hi
    · exact ⟨i + r, mem_range.2 hi, by rw [if_pos (by omega)]; omega⟩
    · exact ⟨i + r - e, mem_range.2 hi, by rw [if_neg (by omega)]; omega⟩

end Wago.BitRun

namespace Wago.Envelope

/-- Bit `i` of `y` is set exactly when one of the `d` bits of `x` from `i` on is. -/
def Smears (d x y : Nat) : Prop := ∀ i, y.testBit i = true ↔ ∃ j, i ≤ j ∧ j < i + d ∧ x.testBit j = true

theorem Smears.refl (x : Nat) : Smears 1 x x := by
  intro i
  constructor
  · intro h
    exact ⟨i, le_rfl, by omega, h⟩
  · rintro ⟨j, hij, hji, h⟩
    obtain rfl : i = j := by omega
    exact h

theorem Smears.double {d x y : Nat} (h : Smears d x y) : Smears (2 * d) x (y ||| y >>> d) := by
  intro i
  rw [Nat.testBit_or, Nat.testBit_shiftRight, Bool.or_eq_true, h i, h (d + i)]
  constructor
  · rintro (⟨j, hij, hji, hj⟩ | ⟨j, hij, hji, hj⟩)
    · exact ⟨j, hij, by omega, hj⟩
    · exact ⟨j, by omega, by omega, hj⟩
  · rintro ⟨j, hij, hji, hj⟩
    rcases Nat.lt_or_ge j (i + d) with hlt | hge
    · exact .inl ⟨j, hij, hlt, hj⟩
    · exact .inr ⟨j, by omega, by omega, hj⟩

/-- Every bit below a value's bound is below a set bit of the bound. -/
theorem exists_testBit_ge {v a i : Nat} (hva : v ≤ a) (hv : v.testBit i = true) :
    ∃ j, i ≤ j ∧ a.testBit j = true :=
  Nat.exists_ge_and_testBit_of_ge_two_pow ((Nat.ge_two_pow_of_testBit hv).trans hva)

/-- A smeared bound has every bit that a value within the bound has. -/
theorem Smears.covers {d a y v : Nat} (h : Smears d a y) (had : a < 2 ^ d) (hva : v ≤ a) (i : Nat)
    (hv : v.testBit i = true) : y.testBit i = true := by
  obtain ⟨j, hij, hj⟩ := exists_testBit_ge hva hv
  have hjd : j < d := by
    by_contra hge
    have hlt : a < 2 ^ j := had.trans_le (Nat.pow_le_pow_right (by decide) (by omega))
    rw [Nat.testBit_lt_two_pow hlt] at hj
    cases hj
  exact (h i).2 ⟨j, hij, by omega, hj⟩

/-- Disjunctions and exclusive disjunctions of bounded values stay below the disjunction of the
envelopes. -/
theorem combine_le {d a b ya yb x y z : Nat} (ha : Smears d a ya) (hb : Smears d b yb)
    (had : a < 2 ^ d) (hbd : b < 2 ^ d) (hx : x ≤ a) (hy : y ≤ b)
    (hz : ∀ i, z.testBit i = true → x.testBit i = true ∨ y.testBit i = true) : z ≤ ya ||| yb := by
  apply Nat.le_of_testBit
  intro i hi
  rw [Nat.testBit_or, Bool.or_eq_true]
  exact (hz i hi).imp (ha.covers had hx i) (hb.covers hbd hy i)

end Wago.Envelope
