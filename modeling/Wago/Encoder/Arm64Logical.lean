/-
The logical-immediate encoder against `DecodeBitMasks`. The element-size search finds the smallest
period of the constant that is a power of two. A proper run of ones has no shorter period than its
element, so that the search stops at the element a field describes, and the rotation search finds
the run again.
-/
import Wago.Encoder.Arm64

namespace Wago.Arm64

open BitRun A64
open BitVec hiding not_not not_or replicate

/-! ## The loops -/

theorem bitCountLoop_eq : ∀ (fuel : Nat) (x : BitVec 64), (setBits x).card ≤ fuel →
    bitCountLoop fuel x = (setBits x).card
  | 0, x, h => by
    rw [bitCountLoop]
    omega
  | fuel + 1, x, h => by
    rw [bitCountLoop]
    split
    · next hx => rw [setBits_eq_empty.2 hx, Finset.card_empty]
    · next hx =>
      have hcard := card_setBits_and_sub_one hx
      rw [bitCountLoop_eq fuel _ (by omega)]
      exact hcard

theorem bitCount_eq (x : BitVec 64) : bitCount x = (setBits x).card := by
  apply bitCountLoop_eq
  exact (Finset.card_filter_le _ _).trans (by rw [Finset.card_range])

/-- The comparison of the two lowest elements. -/
theorem halves_agree {imm : BitVec 64} {n : Nat} (hn : n ≤ 32) :
    imm &&& ((1#64 <<< n) - 1#64) = (imm >>> n) &&& ((1#64 <<< n) - 1#64) ↔
      ∀ i < n, imm.getLsbD (i + n) = imm.getLsbD i := by
  constructor
  · intro h i hi
    have hbit := congrArg (fun v => v.getLsbD i) h
    simp only [getLsbD_and, getLsbD_ushiftRight, getLsbD_lowMask (show n ≤ 64 by omega),
      hi, decide_true, Bool.and_true] at hbit
    rw [hbit, Nat.add_comm]
  · intro h
    apply eq_of_getLsbD_eq
    intro i _
    simp only [getLsbD_and, getLsbD_ushiftRight, getLsbD_lowMask (show n ≤ 64 by omega)]
    by_cases hi : i < n
    · rw [Nat.add_comm n i, h i hi]
    · simp [hi]

/-- A power of two that is a period of the word, with a half that is not one unless it is 2. -/
structure Element (imm : BitVec 64) (size : Nat) : Prop where
  log : ∃ k, 1 ≤ k ∧ k ≤ 6 ∧ size = 2 ^ k
  period : Periodic size imm
  least : size = 2 ∨ ¬ Periodic (size / 2) imm

theorem elementSizeLoop_spec {imm : BitVec 64} : ∀ (fuel : Nat), fuel ≤ 5 →
    Periodic (2 ^ (fuel + 1)) imm → Element imm (elementSizeLoop imm fuel (2 ^ (fuel + 1)))
  | 0, _, h => ⟨⟨1, by omega, by omega, rfl⟩, h, .inl rfl⟩
  | fuel + 1, hf, h => by
    have hpow : 2 ^ (fuel + 1 + 1) = 2 * 2 ^ (fuel + 1) := by rw [Nat.pow_succ, Nat.mul_comm]
    have hpos : 2 ≤ 2 ^ (fuel + 1) := by
      rw [Nat.pow_succ]
      have := Nat.two_pow_pos fuel
      omega
    have hle : 2 ^ (fuel + 1) ≤ 2 ^ 5 := Nat.pow_le_pow_right (by omega) hf
    have hdiv : 2 ^ (fuel + 1 + 1) / 2 = 2 ^ (fuel + 1) := by omega
    rw [elementSizeLoop, if_pos (by omega)]
    simp only [hdiv]
    split
    · next hne =>
      refine ⟨⟨fuel + 2, by omega, by omega, by rw [← Nat.pow_succ]⟩, ?_, ?_⟩
      · rw [Nat.mul_comm, ← hpow]
        exact h
      · right
        rw [Nat.mul_div_cancel _ (by omega)]
        intro hper
        apply hne
        rw [halves_agree (by omega)]
        intro i hi
        exact hper i (by omega)
    · next heq =>
      rw [not_not, halves_agree (by omega)] at heq
      apply elementSizeLoop_spec fuel (by omega)
      apply Periodic.half _ (by omega) (fun i hi _ => heq i hi)
      rw [← hpow]
      exact h

theorem elementSize_spec (imm : BitVec 64) : Element imm (elementSize imm) :=
  elementSizeLoop_spec 5 (by omega) (Periodic.trivial (by omega))

/-- There is only one such size. -/
theorem Element.unique {imm : BitVec 64} {e e' : Nat} (h : Element imm e) (h' : Element imm e') :
    e = e' := by
  -- a smaller element size would be a period of half the larger one
  have smaller : ∀ {e e' : Nat}, Element imm e → Element imm e' → ¬ e < e' := by
    intro e e' h h' hlt
    obtain ⟨k, hk, -, rfl⟩ := h.log
    obtain ⟨k', hk', -, rfl⟩ := h'.log
    have hkk : k < k' := (Nat.pow_lt_pow_iff_right (by omega)).1 hlt
    rcases h'.least with h2 | hno
    · have : k' = 1 := Nat.pow_right_injective (le_refl 2) (h2.trans (Nat.pow_one 2).symm)
      omega
    · apply hno
      have hmul := h.period.mul (2 ^ (k' - 1 - k))
      rw [← Nat.pow_add, show k + (k' - 1 - k) = k' - 1 by omega] at hmul
      have hhalf : 2 ^ k' = 2 ^ (k' - 1) * 2 := by
        rw [← Nat.pow_succ, Nat.succ_eq_add_one, Nat.sub_add_cancel hk']
      rwa [hhalf, Nat.mul_div_cancel _ (by omega)]
  have h1 := smaller h h'
  have h2 := smaller h' h
  omega

/-! ## The rotation -/

theorem getLsbD_elementMask {size : Nat} (hs : size ≤ 64) (i : Nat) :
    (if size < 64 then (1#64 <<< size) - 1#64 else ~~~ 0#64).getLsbD i = decide (i < size) := by
  split
  · exact getLsbD_lowMask hs i
  · rw [show size = 64 by omega, getLsbD_not, getLsbD_zero]
    simp

/-- Bit by bit, a candidate is the run rotated right by what is left of the element. -/
theorem getLsbD_candidate {size ones k : Nat} (hs : size ≤ 64) (ho : ones < size) (hk : k < size)
    {i : Nat} (hi : i < size) :
    (((((1#64 <<< ones) - 1#64) <<< k) ||| (((1#64 <<< ones) - 1#64) >>> (size - k))) &&&
      (if size < 64 then (1#64 <<< size) - 1#64 else ~~~ 0#64)).getLsbD i =
      rotatedRun size ones ((size - k) % size) i := by
  have hrot : rotatedRun size ones ((size - k) % size) i =
      decide (if k ≤ i then i - k < ones else i + (size - k) < ones) := by
    have hr : (size - k) % size < size := Nat.mod_lt _ (by omega)
    have hmod := mod_of_lt_double (show size - k < 2 * size by omega)
    rw [Bool.eq_iff_iff, rotatedRun_of_lt hi hr, decide_eq_true_eq]
    split at hmod <;> split <;> split <;> omega
  rw [hrot]
  simp only [getLsbD_and, getLsbD_or, getLsbD_shiftLeft,
    getLsbD_ushiftRight, getLsbD_lowMask (show ones ≤ 64 by omega), getLsbD_elementMask hs,
    hi, decide_true, Bool.and_true]
  by_cases hki : k ≤ i
  · have hout : ¬ size - k + i < ones := by omega
    simp [hki, hout, show i < 64 by omega, show ¬ i < k by omega]
  · simp [hki, show i < k by omega, Nat.add_comm]

theorem candidate_iff {imm : BitVec 64} {size ones k : Nat} (hs : size ≤ 64) (ho : ones < size)
    (hk : k < size) :
    ((((1#64 <<< ones) - 1#64) <<< k) ||| (((1#64 <<< ones) - 1#64) >>> (size - k))) &&&
        (if size < 64 then (1#64 <<< size) - 1#64 else ~~~ 0#64) =
      imm &&& (if size < 64 then (1#64 <<< size) - 1#64 else ~~~ 0#64) ↔
    ∀ i < size, imm.getLsbD i = rotatedRun size ones ((size - k) % size) i := by
  constructor
  · intro h i hi
    have hbit := congrArg (fun v => v.getLsbD i) h
    rw [getLsbD_candidate hs ho hk hi, getLsbD_and, getLsbD_elementMask hs] at hbit
    simpa [hi, -getLsbD_eq_getElem] using hbit.symm
  · intro h
    apply eq_of_getLsbD_eq
    intro i _
    by_cases hi : i < size
    · rw [getLsbD_candidate hs ho hk hi, getLsbD_and, getLsbD_elementMask hs, h i hi]
      simp [hi]
    · rw [getLsbD_and, getLsbD_and, getLsbD_elementMask hs]
      simp [hi]

/-! ## The fields -/

/-- The `imms` field of an element size and a number of ones. -/
def immsField (size ones : Nat) : Nat :=
  ((~~~ BitVec.ofNat 32 (size <<< 1 - 1) &&& 0x3F#32) ||| BitVec.ofNat 32 (ones - 1)).toNat

theorem immsField_spec {k ones : Nat} (hk : 1 ≤ k) (hk' : k ≤ 6) (h0 : 0 < ones)
    (h1 : ones < 2 ^ k) :
    immsField (2 ^ k) ones < 64 ∧
      elementLog (BitVec.ofNat 1 (if 2 ^ k = 64 then 1 else 0))
        (BitVec.ofNat 6 (immsField (2 ^ k) ones)) = some k ∧
      immsField (2 ^ k) ones &&& (2 ^ k - 1) = ones - 1 := by
  have hlt : ones < 64 := lt_of_lt_of_le h1 (Nat.pow_le_pow_right (by omega) hk')
  -- one check for each size and number of ones
  have hall : ∀ (k : Fin 7) (ones : Fin 64), 1 ≤ k.val ∧ 0 < ones.val ∧ ones.val < 2 ^ k.val →
      immsField (2 ^ k.val) ones < 64 ∧
        elementLog (BitVec.ofNat 1 (if 2 ^ k.val = 64 then 1 else 0))
          (BitVec.ofNat 6 (immsField (2 ^ k.val) ones)) = some k.val ∧
        immsField (2 ^ k.val) ones &&& (2 ^ k.val - 1) = ones.val - 1 := by decide +kernel
  exact hall ⟨k, by omega⟩ ⟨ones, hlt⟩ ⟨hk, h0, h1⟩

/-- What the fields of an element size, a number of ones and a rotation decode to. -/
theorem decode_fields {k ones immr : Nat} (width : Nat) (hk : 1 ≤ k) (hk' : k ≤ 6)
    (hw : 2 ^ k ≤ width) (h0 : 0 < ones) (h1 : ones < 2 ^ k) (hr : immr < 2 ^ k) :
    decodeBitMasks width (BitVec.ofNat 1 (if 2 ^ k = 64 then 1 else 0)) (BitVec.ofNat 6 immr)
      (BitVec.ofNat 6 (immsField (2 ^ k) ones)) =
      some (replicate width (2 ^ k) (rotatedRun (2 ^ k) ones immr)) := by
  obtain ⟨hlt, hlog, hand⟩ := immsField_spec hk hk' h0 h1
  have hpow : 2 ^ k ≤ 2 ^ 6 := Nat.pow_le_pow_right (by omega) hk'
  have himms : (BitVec.ofNat 6 (immsField (2 ^ k) ones)).toNat = immsField (2 ^ k) ones := by
    rw [toNat_ofNat, Nat.mod_eq_of_lt hlt]
  have himmr : (BitVec.ofNat 6 immr).toNat &&& (2 ^ k - 1) = immr := by
    rw [toNat_ofNat, Nat.mod_eq_of_lt (show immr < 2 ^ 6 by omega),
      Nat.and_two_pow_sub_one_eq_mod, Nat.mod_eq_of_lt hr]
  rw [decodeBitMasks, hlog]
  simp only [himms, hand, himmr]
  rw [if_neg (by omega), Nat.sub_add_cancel h0]

theorem elementLog_le {immN : BitVec 1} {imms : BitVec 6} {len : Nat}
    (h : elementLog immN imms = some len) : len ≤ 6 := by
  have := List.mem_of_find?_eq_some h
  simp only [List.mem_reverse, List.mem_range] at this
  omega

/-- Whatever decodes is a repeated rotated run. -/
theorem decode_run {width : Nat} {immN : BitVec 1} {immr imms : BitVec 6} {v : BitVec width}
    (h : decodeBitMasks width immN immr imms = some v) :
    ∃ k ones r, 1 ≤ k ∧ k ≤ 6 ∧ 2 ^ k ≤ width ∧ 0 < ones ∧ ones < 2 ^ k ∧ r < 2 ^ k ∧
      v = replicate width (2 ^ k) (rotatedRun (2 ^ k) ones r) := by
  rw [decodeBitMasks] at h
  split at h
  · cases h
  · next len hlog =>
    simp only at h
    split at h
    · cases h
    · next hok =>
      simp only [not_or, not_lt] at hok
      obtain ⟨h1, hw, hs⟩ := hok
      have hpos := Nat.two_pow_pos len
      rw [Nat.and_two_pow_sub_one_eq_mod] at hs
      have hmod := Nat.mod_lt imms.toNat hpos
      rw [Nat.and_two_pow_sub_one_eq_mod, Nat.and_two_pow_sub_one_eq_mod] at h
      exact ⟨len, imms.toNat % 2 ^ len + 1, immr.toNat % 2 ^ len, h1, elementLog_le hlog, hw,
        by omega, by omega, Nat.mod_lt _ hpos, (Option.some.inj h).symm⟩

/-! ## The encoder -/

/-- The constant repeats an element of `2 ^ k` bits, a proper run of ones rotated right by `r`. -/
structure RunOf (imm : BitVec 64) (k ones r : Nat) : Prop where
  one_le : 1 ≤ k
  le_six : k ≤ 6
  pos : 0 < ones
  lt : ones < 2 ^ k
  rot : r < 2 ^ k
  period : Periodic (2 ^ k) imm
  bits : ∀ i < 2 ^ k, imm.getLsbD i = rotatedRun (2 ^ k) ones r i

section RunOf

variable {imm : BitVec 64} {k ones r : Nat}

variable (h : RunOf imm k ones r)

include h

theorem RunOf.size_le : 2 ^ k ≤ 64 :=
  Nat.pow_le_pow_right (by omega) h.le_six

/-- The run is the word, at every width the element fits. -/
theorem RunOf.replicate_eq {width : Nat} (hw : width ≤ 64) :
    replicate width (2 ^ k) (rotatedRun (2 ^ k) ones r) = imm.setWidth width := by
  apply eq_of_getLsbD_eq
  intro i hi
  rw [replicate, getLsbD_ofBits, getLsbD_setWidth, h.period.mod (show i < 64 by omega),
    h.bits _ (Nat.mod_lt _ (Nat.two_pow_pos k))]

theorem RunOf.mixed : imm ≠ 0#64 ∧ imm ≠ ~~~ 0#64 := by
  have hsize := h.size_le
  obtain ⟨⟨i, hi, hset⟩, j, hj, hclear⟩ := rotatedRun_mixed h.pos h.lt h.rot
  rw [← h.bits i hi] at hset
  rw [← h.bits j hj] at hclear
  constructor
  · rintro rfl
    rw [getLsbD_zero] at hset
    cases hset
  · rintro rfl
    rw [getLsbD_not, getLsbD_zero] at hclear
    simp [show j < 64 by omega] at hclear

theorem RunOf.element : Element imm (2 ^ k) := by
  refine ⟨⟨k, h.one_le, h.le_six, rfl⟩, h.period, ?_⟩
  rcases Nat.eq_or_lt_of_le h.one_le with h1 | h1
  · left
    rw [← h1, Nat.pow_one]
  · right
    have hsize := h.size_le
    obtain ⟨e, he⟩ : ∃ e, 2 ^ k = 2 * e :=
      ⟨2 ^ (k - 1), by rw [Nat.mul_comm, ← Nat.pow_succ, Nat.succ_eq_add_one, Nat.sub_add_cancel h.one_le]⟩
    have hlt := h.lt
    have hrot := h.rot
    have hbits := h.bits
    rw [he] at hlt hrot hbits hsize
    obtain ⟨i, hi, hne⟩ := rotatedRun_halves h.pos hlt hrot
    rw [he, Nat.mul_div_cancel_left _ (by omega)]
    intro hper
    apply hne
    rw [← hbits (i + e) (by omega), ← hbits i (by omega)]
    exact hper i (by omega)

theorem RunOf.bitCount_eq :
    bitCount (imm &&& (if 2 ^ k < 64 then (1#64 <<< 2 ^ k) - 1#64 else ~~~ 0#64)) = ones := by
  rw [Arm64.bitCount_eq, ← card_rotatedRun (Nat.le_of_lt h.lt) h.rot]
  congr 1
  ext i
  rw [mem_setBits, Finset.mem_filter, Finset.mem_range, getLsbD_and,
    getLsbD_elementMask h.size_le, Bool.and_eq_true, decide_eq_true_eq]
  constructor
  · rintro ⟨hset, hi⟩
    exact ⟨hi, by rw [← h.bits i hi]; exact hset⟩
  · rintro ⟨hi, hset⟩
    exact ⟨by rw [h.bits i hi]; exact hset, hi⟩

/-- The encoder finds every repeated rotated run. -/
theorem RunOf.encode : encodeBits imm ≠ none := by
  have hsize : elementSize imm = 2 ^ k := (elementSize_spec imm).unique h.element
  have hpos := h.pos
  have hlt := h.lt
  have hr := h.rot
  -- the rotation to the left that undoes `r`
  have hfound : ((List.range (2 ^ k)).find? fun j =>
      ((((1#64 <<< ones) - 1#64) <<< j) ||| (((1#64 <<< ones) - 1#64) >>> (2 ^ k - j))) &&&
        (if 2 ^ k < 64 then (1#64 <<< 2 ^ k) - 1#64 else ~~~ 0#64) =
      imm &&& (if 2 ^ k < 64 then (1#64 <<< 2 ^ k) - 1#64 else ~~~ 0#64)).isSome := by
    rw [List.find?_isSome]
    refine ⟨(2 ^ k - r) % 2 ^ k, List.mem_range.2 (Nat.mod_lt _ (by omega)), ?_⟩
    rw [decide_eq_true_eq, candidate_iff h.size_le hlt (Nat.mod_lt _ (by omega))]
    intro i hi
    have hback : (2 ^ k - (2 ^ k - r) % 2 ^ k) % 2 ^ k = r := by
      rw [mod_of_lt_double (show 2 ^ k - r < 2 * 2 ^ k by omega)]
      rw [mod_of_lt_double (by split <;> omega)]
      split <;> split <;> omega
    rw [hback]
    exact h.bits i hi
  rw [encodeBits, if_neg (fun hbad => hbad.elim h.mixed.1 h.mixed.2)]
  simp only [hsize, h.bitCount_eq]
  rw [if_neg (by omega)]
  obtain ⟨rot, hrot⟩ := Option.isSome_iff_exists.1 hfound
  rw [hrot]
  simp

omit h in
/-- What an encoding says about the constant. -/
theorem encodeBits_spec {n immr imms : Nat} (h : encodeBits imm = some (n, immr, imms)) :
    ∃ k ones, RunOf imm k ones immr ∧ n = (if 2 ^ k = 64 then 1 else 0) ∧
      imms = immsField (2 ^ k) ones := by
  obtain ⟨⟨k, h1, h6, hsize⟩, hper, -⟩ := elementSize_spec imm
  have hle : 2 ^ k ≤ 2 ^ 6 := Nat.pow_le_pow_right (by omega) h6
  rw [encodeBits] at h
  split at h
  · cases h
  · simp only [hsize] at h hper
    generalize hones : bitCount (imm &&& (if 2 ^ k < 64 then (1#64 <<< 2 ^ k) - 1#64 else ~~~ 0#64)) =
      ones at h
    have hcount : ones ≤ 2 ^ k := by
      rw [← hones, Arm64.bitCount_eq]
      calc (setBits _).card ≤ (Finset.range (2 ^ k)).card := by
            apply Finset.card_le_card
            intro i hi
            rw [mem_setBits, getLsbD_and, getLsbD_elementMask hle, Bool.and_eq_true,
              decide_eq_true_eq] at hi
            exact Finset.mem_range.2 hi.2
        _ = 2 ^ k := Finset.card_range _
    split at h
    · cases h
    · next hok =>
      split at h
      · cases h
      · next rot hrot =>
        have hmem := List.mem_range.1 (List.mem_of_find?_eq_some hrot)
        have hcand := List.find?_some hrot
        rw [decide_eq_true_eq, candidate_iff hle (by omega) hmem] at hcand
        simp only [Option.some.injEq, Prod.mk.injEq] at h
        obtain ⟨rfl, rfl, rfl⟩ := h
        exact ⟨k, ones, ⟨h1, h6, by omega, by omega, Nat.mod_lt _ (by omega), hper, hcand⟩, rfl, rfl⟩

end RunOf

theorem runOf_replicate {k ones r : Nat} (h1 : 1 ≤ k) (h6 : k ≤ 6) (h0 : 0 < ones)
    (hlt : ones < 2 ^ k) (hr : r < 2 ^ k) :
    RunOf (replicate 64 (2 ^ k) (rotatedRun (2 ^ k) ones r)) k ones r where
  one_le := h1
  le_six := h6
  pos := h0
  lt := hlt
  rot := hr
  period := replicate_periodic
  bits := by
    intro i hi
    have hle : 2 ^ k ≤ 2 ^ 6 := Nat.pow_le_pow_right (by omega) h6
    rw [replicate, getLsbD_ofBits, Nat.mod_eq_of_lt hi]
    simp [show i < 64 by omega]

/-! ### 64-bit constants -/

theorem encode64_fields {c : BitVec 64} {n immr imms : Nat}
    (h : encodeLogicalImm c true = some (n, immr, imms)) :
    decodeBitMasks 64 (BitVec.ofNat 1 n) (BitVec.ofNat 6 immr) (BitVec.ofNat 6 imms) = some c ∧
      n < 2 ∧ immr < 64 ∧ imms < 64 := by
  obtain ⟨k, ones, hrun, rfl, rfl⟩ := encodeBits_spec h
  have hsize := hrun.size_le
  have hrot := hrun.rot
  refine ⟨?_, by split <;> omega, by omega,
    (immsField_spec hrun.one_le hrun.le_six hrun.pos hrun.lt).1⟩
  rw [decode_fields 64 hrun.one_le hrun.le_six hsize hrun.pos hrun.lt hrot,
    hrun.replicate_eq (le_refl 64), setWidth_eq]

theorem encode64_of_decode {c : BitVec 64} {immN : BitVec 1} {immr imms : BitVec 6}
    (h : decodeBitMasks 64 immN immr imms = some c) : encodeLogicalImm c true ≠ none := by
  obtain ⟨k, ones, r, h1, h6, -, h0, hlt, hr, rfl⟩ := decode_run h
  exact (runOf_replicate h1 h6 h0 hlt hr).encode

/-! ### 32-bit constants -/

/-- The constant in both halves, as the encoder repeats it. -/
def doubled (c : BitVec 32) : BitVec 64 :=
  (c.setWidth 64 &&& 0xFFFFFFFF#64) ||| ((c.setWidth 64 &&& 0xFFFFFFFF#64) <<< 32)

theorem getLsbD_doubled (c : BitVec 32) {i : Nat} (hi : i < 64) :
    (doubled c).getLsbD i = c.getLsbD (i % 32) := by
  have hmask : (0xFFFFFFFF#64) = (1#64 <<< 32) - 1#64 := rfl
  have hlow : ∀ j, (c.setWidth 64 &&& 0xFFFFFFFF#64).getLsbD j = c.getLsbD j := by
    intro j
    rw [getLsbD_and, hmask, getLsbD_lowMask (by omega), getLsbD_setWidth]
    by_cases hj : j < 32
    · simp [hj, show j < 64 by omega]
    · rw [getLsbD_of_ge c j (by omega)]
      simp
  rw [doubled, getLsbD_or, getLsbD_shiftLeft, hlow, hlow]
  by_cases h32 : i < 32
  · simp [h32, hi, Nat.mod_eq_of_lt h32, -getLsbD_eq_getElem]
  · rw [getLsbD_of_ge c i (by omega), Nat.mod_eq_sub_mod (by omega),
      Nat.mod_eq_of_lt (show i - 32 < 32 by omega)]
    simp [h32, hi]

theorem doubled_periodic (c : BitVec 32) : Periodic 32 (doubled c) := by
  intro i hi
  rw [getLsbD_doubled c hi, getLsbD_doubled c (by omega), Nat.add_mod_right]

theorem setWidth_doubled (c : BitVec 32) : (doubled c).setWidth 32 = c := by
  apply eq_of_getLsbD_eq
  intro i hi
  rw [getLsbD_setWidth, getLsbD_doubled c (by omega), Nat.mod_eq_of_lt hi]
  simp [hi]

theorem RunOf.le_five {c : BitVec 32} {k ones r : Nat} (h : RunOf (doubled c) k ones r) : k ≤ 5 := by
  by_contra hk
  obtain rfl : k = 6 := by
    have := h.le_six
    omega
  rcases h.element.least with h2 | hno
  · cases h2
  · exact hno (doubled_periodic c)

theorem encode32_fields {c : BitVec 32} {n immr imms : Nat}
    (h : encodeLogicalImm (c.setWidth 64) false = some (n, immr, imms)) :
    decodeBitMasks 32 (BitVec.ofNat 1 n) (BitVec.ofNat 6 immr) (BitVec.ofNat 6 imms) = some c ∧
      n = 0 ∧ immr < 64 ∧ imms < 64 := by
  obtain ⟨k, ones, hrun, rfl, rfl⟩ := @encodeBits_spec (doubled c) _ _ _ h
  have hk := hrun.le_five
  have hsize : 2 ^ k ≤ 2 ^ 5 := Nat.pow_le_pow_right (by omega) hk
  have hrot := hrun.rot
  refine ⟨?_, if_neg (by omega), by omega,
    (immsField_spec hrun.one_le hrun.le_six hrun.pos hrun.lt).1⟩
  rw [decode_fields 32 hrun.one_le hrun.le_six hsize hrun.pos hrun.lt hrot,
    hrun.replicate_eq (by omega), setWidth_doubled]

theorem encode32_of_decode {c : BitVec 32} {immN : BitVec 1} {immr imms : BitVec 6}
    (h : decodeBitMasks 32 immN immr imms = some c) :
    encodeLogicalImm (c.setWidth 64) false ≠ none := by
  obtain ⟨k, ones, r, h1, h6, hw, h0, hlt, hr, rfl⟩ := decode_run h
  have hk : k ≤ 5 := (Nat.pow_le_pow_iff_right (a := 2) (by omega)).1 hw
  have hdvd : 2 ^ k ∣ 32 := Nat.pow_dvd_pow 2 hk
  have heq : doubled (replicate 32 (2 ^ k) (rotatedRun (2 ^ k) ones r)) =
      replicate 64 (2 ^ k) (rotatedRun (2 ^ k) ones r) := by
    apply eq_of_getLsbD_eq
    intro i hi
    rw [getLsbD_doubled _ hi, replicate, replicate, getLsbD_ofBits, getLsbD_ofBits,
      Nat.mod_mod_of_dvd _ hdvd]
    simp [hi, Nat.mod_lt]
  have henc := (runOf_replicate h1 h6 h0 hlt hr).encode
  rw [← heq] at henc
  exact henc

end Wago.Arm64
