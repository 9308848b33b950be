/-
Bitmaps kept in 64-bit words: single bits, the lowest set bit of a word, and a two-level map whose
summary word says which words are not empty.
-/
import Mathlib.Algebra.Order.Ring.Int
import Mathlib.Tactic.Common

namespace Wago.Bitmap

/-! ## Bits of a word -/

def bit (k : Nat) : BitVec 64 := 1#64 <<< k

@[simp] theorem getLsbD_bit (k i : Nat) : (bit k).getLsbD i = (decide (i < 64) && decide (i = k)) := by
  simp only [bit, BitVec.getLsbD_shiftLeft, BitVec.getLsbD_one]
  rcases Nat.lt_trichotomy i k with h | h | h
  · simp [h, Nat.ne_of_lt h]
  · simp [h]
  · have : i - k ≠ 0 := by omega
    simp [this, Nat.ne_of_gt h]

/-- `w` with bit `k` set to `v`. -/
def setBit (w : BitVec 64) (k : Nat) (v : Bool) : BitVec 64 :=
  if v then w ||| bit k else w &&& ~~~ bit k

theorem getLsbD_setBit {w : BitVec 64} {k : Nat} (hk : k < 64) (v : Bool) (i : Nat) :
    (setBit w k v).getLsbD i = if i = k then v else w.getLsbD i := by
  by_cases hi : i < 64
  · cases v <;> by_cases h : i = k <;>
      simp [setBit, -BitVec.getLsbD_eq_getElem, BitVec.getLsbD_or, BitVec.getLsbD_and,
        BitVec.getLsbD_not, hi, h, hk]
  · have hne : i ≠ k := by omega
    have hge : 64 ≤ i := by omega
    simp [BitVec.getLsbD_of_ge _ _ hge, hne]

theorem eq_zero_iff (w : BitVec 64) : w = 0 ↔ ∀ i, w.getLsbD i = false := by
  constructor
  · rintro rfl i
    simp
  · intro h
    apply BitVec.eq_of_getLsbD_eq
    intro i _
    simp [h i]

/-- The index of the lowest set bit, `64` when there is none. -/
def lowest (w : BitVec 64) : Nat := ((List.range 64).find? w.getLsbD).getD 64

theorem lowest_spec {w : BitVec 64} (h : w ≠ 0) :
    lowest w < 64 ∧ w.getLsbD (lowest w) = true ∧ ∀ i < lowest w, w.getLsbD i = false := by
  unfold lowest
  rcases hf : (List.range 64).find? w.getLsbD with _ | k
  · have hall : ∀ i, w.getLsbD i = false := fun i => by
      by_cases hi : i < 64
      · simpa using List.find?_eq_none.1 hf i (by simpa using hi)
      · exact BitVec.getLsbD_of_ge _ _ (by omega)
    exact absurd ((eq_zero_iff w).2 hall) h
  · obtain ⟨hk, as, bs, hsplit, has⟩ := List.find?_eq_some_iff_append.1 hf
    have hlen : as.length = k := by
      have := congrArg (fun l => l[as.length]?) hsplit
      simp only [List.getElem?_append_right (Nat.le_refl _), Nat.sub_self, List.getElem?_cons_zero]
        at this
      have hlt : as.length < 64 := by
        have := congrArg List.length hsplit
        simp at this
        omega
      rw [List.getElem?_range hlt] at this
      simpa using this
    have hk64 : k < 64 := by
      have := congrArg List.length hsplit
      simp at this
      omega
    refine ⟨hk64, hk, fun i hi => ?_⟩
    have hmem : i ∈ as := by
      have hget := congrArg (fun l => l[i]?) hsplit
      simp only [Option.getD_some] at hi
      rw [List.getElem?_range (by omega), List.getElem?_append_left (by omega)] at hget
      exact List.mem_of_getElem? hget.symm
    simpa using has i hmem

/-- `w &= w - 1` takes the lowest set bit out. -/
theorem getLsbD_and_sub_one {w : BitVec 64} (h : w ≠ 0) (i : Nat) :
    (w &&& (w - 1)).getLsbD i = (w.getLsbD i && decide (i ≠ lowest w)) := by
  obtain ⟨hk, hset, hlow⟩ := lowest_spec h
  generalize lowest w = k at hk hset hlow ⊢
  -- below the next bit, `w` is `2 ^ k` and `w - 1` is `2 ^ k - 1`
  have hmod : w.toNat % 2 ^ (k + 1) = 2 ^ k := by
    apply Nat.eq_of_testBit_eq
    intro j
    rw [Nat.testBit_mod_two_pow, Nat.testBit_two_pow]
    rcases Nat.lt_trichotomy j k with hj | hj | hj
    · have := hlow j hj
      rw [BitVec.getLsbD] at this
      simp [this, Nat.ne_of_gt hj]
    · rw [BitVec.getLsbD] at hset
      simp [hj, hset]
    · simp [Nat.not_lt.2 hj, Nat.ne_of_lt hj]
  have hpos : 0 < 2 ^ k := Nat.two_pow_pos k
  have hlt : 2 ^ k < 2 ^ (k + 1) := Nat.pow_lt_pow_right (by decide) (Nat.lt_succ_self k)
  obtain ⟨m, hw⟩ : ∃ m, w.toNat = 2 ^ (k + 1) * m + 2 ^ k :=
    ⟨w.toNat / 2 ^ (k + 1), by rw [← hmod, Nat.div_add_mod]⟩
  have hsub : (w - 1).toNat = 2 ^ (k + 1) * m + (2 ^ k - 1) := by
    have hone : (1 : BitVec 64).toNat = 1 := rfl
    rw [BitVec.toNat_sub_of_le (BitVec.le_def.2 (by rw [hone]; omega)), hone]
    omega
  rw [BitVec.getLsbD_and]
  simp only [BitVec.getLsbD]
  rw [hsub, hw, Nat.testBit_two_pow_mul_add _ hlt,
    Nat.testBit_two_pow_mul_add _ (Nat.lt_of_le_of_lt (Nat.sub_le _ _) hlt)]
  split
  · rw [Nat.testBit_two_pow, Nat.testBit_two_pow_sub_one]
    rcases Nat.lt_trichotomy i k with hi | hi | hi
    · simp [Nat.ne_of_gt hi]
    · simp [hi]
    · omega
  · have : i ≠ k := by omega
    simp [this]

/-! ## Arrays of words -/

/-- Bit `i` of a word array. -/
def get (w : Nat → BitVec 64) (i : Nat) : Bool := (w (i / 64)).getLsbD (i % 64)

def put (w : Nat → BitVec 64) (i : Nat) (v : Bool) : Nat → BitVec 64 :=
  fun k => if k = i / 64 then setBit (w k) (i % 64) v else w k

theorem get_put (w : Nat → BitVec 64) (i : Nat) (v : Bool) (j : Nat) :
    get (put w i v) j = if j = i then v else get w j := by
  unfold get put
  by_cases hw : j / 64 = i / 64
  · rw [if_pos hw, getLsbD_setBit (Nat.mod_lt _ (by decide))]
    by_cases hj : j = i
    · simp [hj]
    · have : j % 64 ≠ i % 64 := by omega
      simp [hj, this]
  · have hj : j ≠ i := fun h => hw (by rw [h])
    simp [hw, hj]

/-- The summary has a bit for each nonempty word, and no word beyond the summary is in use. -/
def Summarizes (words : Nat → BitVec 64) (summary : BitVec 64) : Prop :=
  ∀ k, words k ≠ 0 ↔ summary.getLsbD k = true

variable {words : Nat → BitVec 64} {summary : BitVec 64}

/-- Marking a bit in both levels. -/
theorem Summarizes.put_true (h : Summarizes words summary) {i : Nat} (hi : i / 64 < 64) :
    Summarizes (put words i true) (setBit summary (i / 64) true) := by
  intro k
  rw [getLsbD_setBit hi]
  by_cases hk : k = i / 64
  · simp only [hk, if_true, iff_true]
    intro h0
    have := (eq_zero_iff _).1 h0 (i % 64)
    have hget := get_put words i true i
    unfold get at hget
    rw [this] at hget
    simp at hget
  · simp only [put, if_neg hk]
    exact h k

/-- Clearing a bit, and the summary bit with the last one of a word. -/
theorem Summarizes.put_false (h : Summarizes words summary) {i : Nat} (hi : i / 64 < 64) :
    Summarizes (put words i false)
      (if put words i false (i / 64) = 0 then setBit summary (i / 64) false else summary) := by
  intro k
  by_cases hk : k = i / 64
  · subst hk
    split
    case isTrue h0 => rw [getLsbD_setBit hi]; simp [h0]
    case isFalse h0 =>
      refine ⟨fun _ => (h _).1 fun hz => h0 ?_, fun _ => h0⟩
      rw [put, if_pos rfl, hz]
      simp [setBit]
  · have hword : put words i false k = words k := if_neg hk
    rw [hword]
    split
    · rw [getLsbD_setBit hi, if_neg hk]
      exact h k
    · exact h k

/-- The words from `k` on. -/
def above (w : BitVec 64) (k : Nat) : BitVec 64 := w &&& (BitVec.allOnes 64 <<< k)

theorem getLsbD_above (w : BitVec 64) (k i : Nat) :
    (above w k).getLsbD i = (w.getLsbD i && decide (k ≤ i)) := by
  by_cases hi : i < 64
  · rw [above, BitVec.getLsbD_and, BitVec.getLsbD_shiftLeft, BitVec.getLsbD_allOnes]
    by_cases hk : k ≤ i
    · simp [hi, hk, Nat.not_lt.2 hk, Nat.lt_of_le_of_lt (Nat.sub_le i k) hi]
    · simp [hk, Nat.lt_of_not_le hk]
  · rw [BitVec.getLsbD_of_ge _ _ (by omega), BitVec.getLsbD_of_ge _ _ (by omega), Bool.false_and]

/-- The first set bit above `i`: the rest of the bit's word, then the first word the summary has. -/
def nextSet (words : Nat → BitVec 64) (summary : BitVec 64) (i : Nat) : Option Nat :=
  let word := i / 64
  let candidates := above (words word) (i % 64 + 1)
  if candidates ≠ 0 then some (word * 64 + lowest candidates)
  else
    let remaining := above summary (word + 1)
    if remaining = 0 then none
    else some (lowest remaining * 64 + lowest (words (lowest remaining)))

theorem nextSet_some (h : Summarizes words summary) {i j : Nat} (hj : nextSet words summary i = some j) :
    i < j ∧ get words j = true := by
  unfold nextSet at hj
  simp only at hj
  split at hj
  case isTrue hc =>
    obtain ⟨hlt, hset, -⟩ := lowest_spec hc
    obtain rfl := Option.some.inj hj
    rw [getLsbD_above] at hset
    simp only [Bool.and_eq_true, decide_eq_true_eq] at hset
    generalize lowest (above (words (i / 64)) (i % 64 + 1)) = l at *
    refine ⟨by omega, ?_⟩
    unfold get
    rw [show (i / 64 * 64 + l) / 64 = i / 64 by omega, show (i / 64 * 64 + l) % 64 = l by omega]
    exact hset.1
  case isFalse hc =>
    split at hj
    · cases hj
    case isFalse hr =>
      obtain rfl := Option.some.inj hj
      obtain ⟨hlt, hset, -⟩ := lowest_spec hr
      rw [getLsbD_above] at hset
      simp only [Bool.and_eq_true, decide_eq_true_eq] at hset
      obtain ⟨hwlt, hwset, -⟩ := lowest_spec ((h _).2 hset.1)
      refine ⟨by omega, ?_⟩
      unfold get
      generalize lowest (above summary (i / 64 + 1)) = k at *
      rw [show (k * 64 + lowest (words k)) / 64 = k by omega,
        show (k * 64 + lowest (words k)) % 64 = lowest (words k) by omega]
      exact hwset

theorem nextSet_none (h : Summarizes words summary) {i : Nat} (hj : nextSet words summary i = none)
    {j : Nat} (hij : i < j) : get words j = false := by
  unfold nextSet at hj
  simp only at hj
  split at hj
  · cases hj
  case isFalse hc =>
    split at hj
    case isTrue hr =>
      rw [not_not, eq_zero_iff] at hc
      rw [eq_zero_iff] at hr
      unfold get
      by_cases hw : j / 64 = i / 64
      · have hbit := hc (j % 64)
        rw [getLsbD_above, Bool.and_eq_false_iff] at hbit
        rw [hw]
        refine hbit.resolve_right ?_
        simp only [decide_eq_false_iff_not, not_not]
        omega
      · have hbit := hr (j / 64)
        rw [getLsbD_above, Bool.and_eq_false_iff] at hbit
        have hsum := hbit.resolve_right (by simp only [decide_eq_false_iff_not, not_not]; omega)
        have hzero : words (j / 64) = 0 := by
          by_contra hne
          rw [(h _).1 hne] at hsum
          cases hsum
        simp [hzero]
    · cases hj

end Wago.Bitmap
