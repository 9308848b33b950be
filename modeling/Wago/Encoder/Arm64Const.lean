/-
What the constant sequences of the arm64 encoder leave in their destination. A constant is looked at
by halfwords: a starting MOVZ or MOVN fills all of them but one with zeros or ones, and each MOVK
puts one more in its place.
-/
import Wago.Encoder.Arm64Logical

namespace Wago.Arm64

open CodeImage A64
open BitVec hiding not_not

/-! ## The words -/

theorem r_toNat (x : Reg) : (r x).toNat = (x.setWidth 5).toNat := by
  have := x.isLt
  rw [r, toNat_and]
  simp only [toNat_setWidth, toNat_ofNat]
  rw [show 31 % 2 ^ 32 = 2 ^ 5 - 1 from rfl, Nat.and_two_pow_sub_one_eq_mod]
  omega

theorem shifted_toNat {x k n : Nat} (hx : x < 2 ^ n) (hkn : n + k ≤ 32) :
    (BitVec.ofNat 32 x <<< k).toNat = x * 2 ^ k := by
  have hmul : x * 2 ^ k < 2 ^ 32 := by
    calc x * 2 ^ k < 2 ^ n * 2 ^ k := Nat.mul_lt_mul_of_pos_right hx (Nat.two_pow_pos k)
      _ = 2 ^ (n + k) := (Nat.pow_add 2 n k).symm
      _ ≤ 2 ^ 32 := Nat.pow_le_pow_right (by omega) hkn
  have hx32 : x < 2 ^ 32 := lt_of_le_of_lt (Nat.le_mul_of_pos_right x (Nat.two_pow_pos k)) hmul
  rw [toNat_shiftLeft, toNat_ofNat, Nat.mod_eq_of_lt hx32, Nat.shiftLeft_eq,
    Nat.mod_eq_of_lt hmul]

variable {base : BitVec 32}

theorem movWide_word (wide : Bool) (op : MoveOp)
    (hbase : base.toNat = (moveByte wide op).toNat * 2 ^ 24 + 2 ^ 23) (rd : Reg) (imm : BitVec 16)
    (hw : Nat) :
    base ||| ((BitVec.ofNat 32 hw &&& 3#32) <<< 21) ||| (imm.setWidth 32 <<< 5) ||| r rd =
      moveWord wide op (BitVec.ofNat 2 hw) imm (rd.setWidth 5) := by
  have himm := imm.isLt
  have hrd := (rd.setWidth 5).isLt
  have hmask : BitVec.ofNat 32 hw &&& 3#32 = BitVec.ofNat 32 (hw % 2 ^ 2) := by
    apply eq_of_toNat_eq
    rw [toNat_and]
    simp only [toNat_ofNat]
    rw [show 3 % 2 ^ 32 = 2 ^ 2 - 1 from rfl, Nat.and_two_pow_sub_one_eq_mod]
    omega
  have hlt : hw % 2 ^ 2 < 2 ^ 2 := Nat.mod_lt _ (by omega)
  have himm' : imm.setWidth 32 = BitVec.ofNat 32 imm.toNat := by
    apply eq_of_toNat_eq
    rw [toNat_setWidth, toNat_ofNat]
  apply eq_of_toNat_eq
  rw [moveWord, join19_toNat, toNat_or, toNat_or, toNat_or, hbase, hmask, himm',
    shifted_toNat hlt (by omega), shifted_toNat himm (by omega), r_toNat]
  simp only [append_toNat, toNat_ofNat]
  rw [or_eq_add_of_mod (b := hw % 2 ^ 2 * 2 ^ 21) (k := 23) (by omega) (by omega),
    or_eq_add_of_mod (b := imm.toNat * 2 ^ 5) (k := 21) (by omega) (by omega),
    or_eq_add_of_mod (k := 5) (by omega) (by omega)]
  omega

theorem orr_word (wide : Bool) {n immr imms : Nat} (hn : n < 2) (hr : immr < 64)
    (hs : imms < 64) (hbase : base.toNat = (if wide then 0xB2 else 0x32) * 2 ^ 24) (rn rd : Reg) :
    base ||| (BitVec.ofNat 32 n <<< 22) ||| (BitVec.ofNat 32 immr <<< 16) |||
        (BitVec.ofNat 32 imms <<< 10) ||| (r rn <<< 5) ||| r rd =
      orrWord wide (BitVec.ofNat 1 n) (BitVec.ofNat 6 immr) (BitVec.ofNat 6 imms) (rn.setWidth 5)
        (rd.setWidth 5) := by
  have hrd := (rd.setWidth 5).isLt
  have hrn := (rn.setWidth 5).isLt
  have hrn' : r rn = BitVec.ofNat 32 (rn.setWidth 5).toNat := by
    apply eq_of_toNat_eq
    rw [r_toNat, toNat_ofNat, Nat.mod_eq_of_lt (by omega)]
  have hbyte : (if wide then 0xB2#8 else 0x32#8).toNat = if wide then 0xB2 else 0x32 := by
    cases wide <;> rfl
  apply eq_of_toNat_eq
  rw [orrWord, join19_toNat, toNat_or, toNat_or, toNat_or, toNat_or,
    toNat_or, hbase, hbyte, hrn', shifted_toNat (n := 1) hn (by omega),
    shifted_toNat (n := 6) hr (by omega), shifted_toNat (n := 6) hs (by omega),
    shifted_toNat hrn (by omega), r_toNat]
  simp only [append_toNat, toNat_ofNat]
  generalize (if wide = true then 0xB2 else 0x32) = byte
  rw [or_eq_add_of_mod (b := n * 2 ^ 22) (k := 24) (by omega) (by omega),
    or_eq_add_of_mod (b := immr * 2 ^ 16) (k := 22) (by omega) (by omega),
    or_eq_add_of_mod (b := imms * 2 ^ 10) (k := 16) (by omega) (by omega),
    or_eq_add_of_mod (b := (rn.setWidth 5).toNat * 2 ^ 5) (k := 10) (by omega) (by omega),
    or_eq_add_of_mod (k := 5) (by omega) (by omega)]
  omega

/-! ## What the words do -/

/-- The function of a wide-immediate move on its register. -/
def moveFn (wide : Bool) (op : MoveOp) (imm : BitVec 16) (hw : Nat) (v : BitVec 64) : BitVec 64 :=
  if wide then moveResult 64 op (16 * hw) imm v
  else (moveResult 32 op (16 * hw) imm (v.setWidth 32)).setWidth 64

theorem move_updates (wide : Bool) (op : MoveOp) (imm : BitVec 16) {hw : Nat}
    (h : hw < if wide then 4 else 2) (d : BitVec 5) :
    Updates d (moveWord wide op (BitVec.ofNat 2 hw) imm d) (moveFn wide op imm hw) := by
  have hlt : (BitVec.ofNat 2 hw).toNat = hw := by
    rw [toNat_ofNat, Nat.mod_eq_of_lt]
    split at h <;> omega
  refine ⟨_, decode_moveWord wide op _ imm d ?_, ?_⟩
  · cases wide with
    | true => exact .inl rfl
    | false => exact .inr (by rw [hlt]; simpa using h)
  · intro s
    rw [Instr.exec, hlt]
    rfl

variable {d : BitVec 5}

theorem orr_updates (wide : Bool) {immN : BitVec 1} {immr imms : BitVec 6} {c : BitVec 64}
    (hN : wide = true ∨ immN = 0#1) (hd : d ≠ 31#5)
    (hdec : if wide then decodeBitMasks 64 immN immr imms = some c
      else (decodeBitMasks 32 immN immr imms).map (BitVec.setWidth 64) = some c) :
    Updates d (orrWord wide immN immr imms 31#5 d) (fun _ => c) := by
  refine ⟨_, decode_orrWord wide immN immr imms 31#5 d hN, ?_⟩
  intro s
  have hzero : s.get 31#5 = 0#64 := rfl
  have hset : ∀ v, s.setSp d v = s.set d v := by
    intro v
    rw [State.setSp, State.set, if_neg hd]
  cases wide with
  | true =>
    rw [if_pos rfl] at hdec
    rw [Instr.exec, if_pos rfl, hdec, hzero, Option.map_some, zero_or, hset]
  | false =>
    rw [if_neg (by decide), Option.map_eq_some_iff] at hdec
    obtain ⟨mask, hmask, rfl⟩ := hdec
    rw [Instr.exec, if_neg (by decide), hmask, hzero, Option.map_some, hset]
    simp

/-! ## Halfwords -/

theorem getLsbD_half {w : Nat} (v : BitVec w) (j : Nat) {t : Nat} (ht : t < 16) :
    (half v j).getLsbD t = v.getLsbD (16 * j + t) := by
  rw [half, getLsbD_setWidth, getLsbD_ushiftRight]
  simp [ht]

theorem eq_of_halves {w n : Nat} (hw : w = 16 * n) {v v' : BitVec w}
    (h : ∀ j < n, half v j = half v' j) : v = v' := by
  apply eq_of_getLsbD_eq
  intro i hi
  have hbit := congrArg (fun b => b.getLsbD (i % 16)) (h (i / 16) (by omega))
  rwa [getLsbD_half _ _ (by omega), getLsbD_half _ _ (by omega), Nat.div_add_mod] at hbit

theorem half_zero {w : Nat} (j : Nat) : half (BitVec.ofNat w 0) j = 0#16 := by
  simp [half]

theorem half_not {w n : Nat} (hw : w = 16 * n) (v : BitVec w) {j : Nat} (hj : j < n) :
    half (~~~ v) j = ~~~ half v j := by
  apply eq_of_getLsbD_eq
  intro t ht
  rw [getLsbD_half _ _ ht, getLsbD_not, getLsbD_not, getLsbD_half _ _ ht]
  simp [ht, show 16 * j + t < w by omega]

/-- Putting a halfword in its place. -/
theorem half_insert {w n : Nat} (hw : w = 16 * n) (v : BitVec w) (imm : BitVec 16) {i j : Nat}
    (hj : j < n) :
    half ((v &&& ~~~ ((0xffff#16).setWidth w <<< (16 * i))) ||| (imm.setWidth w <<< (16 * i))) j =
      if j = i then imm else half v j := by
  have hones : ∀ t, (0xffff#16).getLsbD t = decide (t < 16) := by
    intro t
    rw [show 0xffff#16 = BitVec.allOnes 16 from rfl, getLsbD_allOnes]
  apply eq_of_getLsbD_eq
  intro t ht
  have hin : 16 * j + t < w := by omega
  rw [getLsbD_half _ _ ht]
  simp only [getLsbD_or, getLsbD_and, getLsbD_not, getLsbD_shiftLeft,
    getLsbD_setWidth, hones, hin, decide_true, Bool.true_and]
  split
  · next h =>
    subst h
    simp [ht, show t < w by omega, show ¬ 16 * j + t < 16 * j by omega]
  · next h =>
    rw [getLsbD_half _ _ ht]
    by_cases hlt : j < i
    · simp [show 16 * j + t < 16 * i by omega]
    · have hout : ¬ 16 * j + t - 16 * i < 16 := by omega
      simp [hout, getLsbD_of_ge imm (16 * j + t - 16 * i) (by omega)]

theorem half_moveResult {w n : Nat} (hw : w = 16 * n) (op : MoveOp) (imm : BitVec 16)
    (old : BitVec w) {i j : Nat} (hj : j < n) :
    half (moveResult w op (16 * i) imm old) j =
      match op with
      | .movz => if j = i then imm else 0#16
      | .movk => if j = i then imm else half old j
      | .movn => if j = i then ~~~ imm else 0xffff#16 := by
  cases op with
  | movz => simp only [moveResult, half_insert hw _ _ hj, half_zero]
  | movk => simp only [moveResult, half_insert hw _ _ hj]
  | movn =>
    simp only [moveResult, half_not hw _ hj, half_insert hw _ _ hj, half_zero]
    split <;> rfl

/-! ## 64-bit constants -/

def Asm.emit (a : Asm) (ws : List (BitVec 32)) : Asm := { a with B := a.B ++ ws.flatMap wordBytes }

/-- The words added to `a` apply these functions to register `d`. -/
structure Emitted (a a' : Asm) (d : BitVec 5) (ws : List (BitVec 32))
    (fs : List (BitVec 64 → BitVec 64)) : Prop where
  asm : a' = a.emit ws
  words : List.Forall₂ (Updates d) ws fs

def applyAll (fs : List (BitVec 64 → BitVec 64)) (v : BitVec 64) : BitVec 64 :=
  fs.foldl (fun v f => f v) v

theorem applyAll_snoc (fs : List (BitVec 64 → BitVec 64)) (f : BitVec 64 → BitVec 64)
    (v : BitVec 64) : applyAll (fs ++ [f]) v = f (applyAll fs v) := by
  simp [applyAll]

variable {rd : Reg}

section Emitted

variable {a a' : Asm} {d : BitVec 5} {ws : List (BitVec 32)} {fs : List (BitVec 64 → BitVec 64)}

theorem Emitted.nil (a : Asm) (d : BitVec 5) : Emitted a a d [] [] := by
  refine ⟨?_, .nil⟩
  simp [Asm.emit]

theorem Emitted.snoc (h : Emitted a a' d ws fs) {w : BitVec 32} {f : BitVec 64 → BitVec 64}
    (hw : Updates d w f) : Emitted a (a'.word w) d (ws ++ [w]) (fs ++ [f]) := by
  refine ⟨?_, List.rel_append h.words (.cons hw .nil)⟩
  rw [h.asm]
  simp [Asm.emit, Asm.word]

/-- One wide-immediate move more. -/
theorem Emitted.move (wide : Bool) (op : MoveOp) (h : Emitted a a' (rd.setWidth 5) ws fs)
    (hbase : base.toNat = (moveByte wide op).toNat * 2 ^ 24 + 2 ^ 23)
    (imm : BitVec 16) {hw : Nat} (hhw : hw < if wide then 4 else 2) :
    ∃ w, Emitted a (a'.movWide base rd imm hw) (rd.setWidth 5) (ws ++ [w])
      (fs ++ [moveFn wide op imm hw]) := by
  refine ⟨moveWord wide op (BitVec.ofNat 2 hw) imm (rd.setWidth 5), ?_⟩
  rw [Asm.movWide, movWide_word wide op hbase rd imm hw]
  exact h.snoc (move_updates wide op imm hhw (rd.setWidth 5))

end Emitted

/-- After `i` rounds: nothing is emitted and every halfword so far is the filler, or the register has
the halfwords so far and the filler in the others. -/
structure LoopInv (a : Asm) (d : BitVec 5) (val : BitVec 64) (fill : BitVec 16) (i : Nat)
    (st : Asm × Bool) : Prop where
  first : st.2 = true → st.1 = a ∧ ∀ j < i, half val j = fill
  later : st.2 = false → ∃ ws fs, Emitted a st.1 d ws fs ∧
    ∀ v, ∀ j < 4, half (applyAll fs v) j = if j < i then half val j else fill

section LoopInv

variable {a : Asm} {rd : Reg} {val : BitVec 64} {fill : BitVec 16} {i : Nat} {st : Asm × Bool}

theorem LoopInv.keep (h : LoopInv a d val fill i st) (hv : half val i = fill) :
    LoopInv a d val fill (i + 1) st where
  first := by
    intro hf
    obtain ⟨ha, hall⟩ := h.first hf
    refine ⟨ha, fun j hj => ?_⟩
    by_cases hji : j = i
    · rw [hji, hv]
    · exact hall j (by omega)
  later := by
    intro hf
    obtain ⟨ws, fs, hem, hval⟩ := h.later hf
    refine ⟨ws, fs, hem, fun v j hj => ?_⟩
    rw [hval v j hj]
    by_cases hji : j = i
    · rw [hji, hv]
      simp
    · simp only [show j < i + 1 ↔ j < i by omega]

/-- The first halfword that is not the filler. -/
theorem LoopInv.start (op : MoveOp) (h : LoopInv a (rd.setWidth 5) val fill i (a, true))
    (hbase : base.toNat = (moveByte true op).toNat * 2 ^ 24 + 2 ^ 23) (hi : i < 4)
    {imm : BitVec 16}
    (hop : ∀ v, ∀ j < 4, half (moveFn true op imm i v) j = if j = i then half val i else fill) :
    LoopInv a (rd.setWidth 5) val fill (i + 1) (a.movWide base rd imm i, false) where
  first := by simp
  later := by
    intro _
    obtain ⟨w, hem⟩ := (Emitted.nil a (rd.setWidth 5)).move true op hbase imm hi
    refine ⟨_, _, hem, fun v j hj => ?_⟩
    rw [applyAll_snoc, hop _ j hj]
    obtain ⟨-, hall⟩ := h.first rfl
    by_cases hji : j = i
    · simp [hji]
    · by_cases hlt : j < i
      · simp [hji, show j < i + 1 by omega, hall j hlt]
      · simp [hji, show ¬ j < i + 1 by omega]

/-- A halfword put in its place. -/
theorem LoopInv.insert {a' : Asm} (h : LoopInv a (rd.setWidth 5) val fill i (a', false)) (hi : i < 4) :
    LoopInv a (rd.setWidth 5) val fill (i + 1) (a'.movk64 rd (half val i) i, false) where
  first := by simp
  later := by
    intro _
    obtain ⟨ws, fs, hem, hval⟩ := h.later rfl
    obtain ⟨w, hem'⟩ := hem.move true .movk (show (0xF2800000#32).toNat = _ from rfl) (half val i) hi
    refine ⟨_, _, hem', fun v j hj => ?_⟩
    rw [applyAll_snoc, moveFn, if_pos rfl, half_moveResult (n := 4) rfl .movk _ _ hj]
    simp only
    by_cases hji : j = i
    · simp [hji]
    · simp only [hji, if_false, hval v j hj, show j < i + 1 ↔ j < i by omega]

end LoopInv

variable {a : Asm} {val : BitVec 64}

theorem movzRound_inv {i : Nat} (hi : i < 4)
    {st : Asm × Bool} (h : LoopInv a (rd.setWidth 5) val 0#16 i st) :
    LoopInv a (rd.setWidth 5) val 0#16 (i + 1) (Asm.movzRound rd val st i) := by
  obtain ⟨a', first⟩ := st
  cases first with
  | true =>
    obtain rfl := (h.first rfl).1
    rw [Asm.movzRound]
    simp only [if_true]
    split
    · apply h.start .movz rfl hi
      intro v j hj
      rw [moveFn, if_pos rfl, half_moveResult (n := 4) rfl .movz _ _ hj]
    · next hz => exact h.keep (not_not.1 hz)
  | false =>
    rw [Asm.movzRound]
    simp only [Bool.false_eq_true, if_false]
    split
    · exact h.insert hi
    · next hz => exact h.keep (not_not.1 hz)

theorem movnRound_inv {i : Nat} (hi : i < 4)
    {st : Asm × Bool} (h : LoopInv a (rd.setWidth 5) val 0xFFFF#16 i st) :
    LoopInv a (rd.setWidth 5) val 0xFFFF#16 (i + 1) (Asm.movnRound rd val st i) := by
  obtain ⟨a', first⟩ := st
  have hnot : half (~~~ val) i = ~~~ half val i := half_not (n := 4) rfl val hi
  cases first with
  | true =>
    obtain rfl := (h.first rfl).1
    rw [Asm.movnRound]
    simp only [if_true]
    split
    · apply h.start .movn rfl hi
      intro v j hj
      rw [moveFn, if_pos rfl, half_moveResult (n := 4) rfl .movn _ _ hj, hnot]
      simp only [BitVec.not_not]
    · next hz =>
      apply h.keep
      rw [not_not, hnot] at hz
      rw [← BitVec.not_not (b := half val i), hz]
      rfl
  | false =>
    rw [Asm.movnRound]
    simp only [Bool.false_eq_true, if_false]
    split
    · exact h.insert hi
    · next hz => exact h.keep (not_not.1 hz)

/-- Four rounds. -/
theorem rounds_inv {fill : BitVec 16}
    {round : Asm × Bool → Nat → Asm × Bool}
    (hround : ∀ i < 4, ∀ st, LoopInv a d val fill i st → LoopInv a d val fill (i + 1) (round st i)) :
    ∀ n ≤ 4, LoopInv a d val fill n ((List.range n).foldl round (a, true))
  | 0, _ => ⟨fun _ => ⟨rfl, by omega⟩, by simp⟩
  | n + 1, hn => by
    rw [List.range_succ, List.foldl_append]
    exact hround n (by omega) _ (rounds_inv hround n (by omega))

/-- The words that were added leave the constant in the register, whatever it held. -/
def Leaves (a a' : Asm) (d : BitVec 5) (v : BitVec 64) : Prop :=
  ∃ ws fs, Emitted a a' d ws fs ∧ ∀ old, applyAll fs old = v

theorem LoopInv.leaves (op : MoveOp) {fill : BitVec 16}
    {st : Asm × Bool} (h : LoopInv a (rd.setWidth 5) val fill 4 st)
    (hbase : base.toNat = (moveByte true op).toNat * 2 ^ 24 + 2 ^ 23)
    (hop : ∀ v, ∀ j < 4, half (moveFn true op 0#16 0 v) j = fill) :
    Leaves a (if st.2 then st.1.movWide base rd 0#16 0 else st.1) (rd.setWidth 5) val := by
  obtain ⟨a', first⟩ := st
  cases first with
  | true =>
    obtain ⟨rfl, hall⟩ := h.first rfl
    obtain ⟨w, hem⟩ := (Emitted.nil a' (rd.setWidth 5)).move true op hbase 0#16
      (show 0 < if true then 4 else 2 by decide)
    refine ⟨_, _, hem, fun old => eq_of_halves (n := 4) rfl fun j hj => ?_⟩
    rw [applyAll_snoc, hop _ j hj, hall j hj]
  | false =>
    obtain ⟨ws, fs, hem, hval⟩ := h.later rfl
    refine ⟨ws, fs, hem, fun old => eq_of_halves (n := 4) rfl fun j hj => ?_⟩
    rw [hval old j hj, if_pos hj]

theorem movWideWords_leaves (a : Asm) (rd : Reg) (val : BitVec 64) :
    Leaves a (a.movWideWords rd val) (rd.setWidth 5) val := by
  rw [Asm.movWideWords]
  split
  · apply (rounds_inv (fun i hi st h => movnRound_inv hi h) 4 (le_refl 4)).leaves .movn rfl
    intro v j hj
    rw [moveFn, if_pos rfl, half_moveResult (n := 4) rfl .movn _ _ hj]
    simp only
    split <;> rfl
  · apply (rounds_inv (fun i hi st h => movzRound_inv hi h) 4 (le_refl 4)).leaves .movz rfl
    intro v j hj
    rw [moveFn, if_pos rfl, half_moveResult (n := 4) rfl .movz _ _ hj]
    simp only
    split <;> rfl

/-- ORR with the zero register, when the constant has an encoding. -/
theorem orrImm64_leaves {a a' : Asm} (hd : rd.setWidth 5 ≠ 31#5)
    (h : a.orrImm64 rd xzr val = some a') : Leaves a a' (rd.setWidth 5) val := by
  rw [Asm.orrImm64, Asm.logicalImm] at h
  split at h
  · cases h
  · next n immr imms henc =>
    obtain ⟨hdec, hn, hr, hs⟩ := encode64_fields henc
    rw [orr_word true hn hr hs rfl xzr rd] at h
    cases h
    refine ⟨_, _, (Emitted.nil a (rd.setWidth 5)).snoc (orr_updates true (.inl rfl) hd hdec), ?_⟩
    intro old
    rfl

/-- The ORR where it is tried and the constant has an encoding, the moves otherwise. -/
theorem leaves_of_choice {a w : Asm} {o : Option Asm} {v : BitVec 64} (c : Prop)
    [Decidable c] (ho : ∀ a', o = some a' → Leaves a a' d v) (hw : Leaves a w d v) :
    Leaves a (if c then o.getD w else w) d v := by
  split
  · cases h : o with
    | none => exact hw
    | some a' => exact ho a' h
  · exact hw

theorem movImm64_leaves (a : Asm) (hd : rd.setWidth 5 ≠ 31#5) (val : BitVec 64) :
    Leaves a (a.movImm64 rd val) (rd.setWidth 5) val := by
  rw [Asm.movImm64]
  exact leaves_of_choice _ (fun a' h => orrImm64_leaves hd h) (movWideWords_leaves a rd val)

/-! ## 32-bit constants -/

theorem orrImm32_leaves {a a' : Asm} (hd : rd.setWidth 5 ≠ 31#5) {u : BitVec 32}
    (h : a.orrImm32 rd xzr u = some a') : Leaves a a' (rd.setWidth 5) (u.setWidth 64) := by
  rw [Asm.orrImm32, Asm.logicalImm32] at h
  split at h
  · cases h
  · next n immr imms henc =>
    obtain ⟨hdec, rfl, hr, hs⟩ := encode32_fields henc
    have hword := orr_word false (show 0 < 2 by omega) hr hs
      (show (0x32000000#32).toNat = _ from rfl) xzr rd
    have hzero : (BitVec.ofNat 32 0) <<< 22 = 0#32 := rfl
    rw [hzero, or_zero] at hword
    rw [if_neg (by simp), hword] at h
    cases h
    refine ⟨_, _, (Emitted.nil a (rd.setWidth 5)).snoc
      (orr_updates false (.inr rfl) hd (c := u.setWidth 64) ?_), ?_⟩
    · rw [if_neg (by decide)]
      have hdec' : decodeBitMasks 32 0#1 (BitVec.ofNat 6 immr) (BitVec.ofNat 6 imms) = some u := hdec
      rw [hdec']
      rfl
    · intro old
      rfl

/-- The last 32-bit move decides the value; the ones before it only through their low word. -/
theorem applyAll_moveFn32 (op : MoveOp) (imm : BitVec 16) (hw : Nat)
    (fs : List (BitVec 64 → BitVec 64)) (old : BitVec 64) :
    applyAll (fs ++ [moveFn false op imm hw]) old =
      (moveResult 32 op (16 * hw) imm ((applyAll fs old).setWidth 32)).setWidth 64 := by
  rw [applyAll_snoc, moveFn, if_neg (by decide)]

theorem setWidth_low (x : BitVec 32) : (x.setWidth 64).setWidth 32 = x := by
  apply eq_of_toNat_eq
  have := x.isLt
  simp only [toNat_setWidth]
  omega

/-- One or two moves that end with the halfwords of `u`. -/
theorem one_move_leaves (op : MoveOp)
    (hbase : base.toNat = (moveByte false op).toNat * 2 ^ 24 + 2 ^ 23) {imm : BitVec 16} {hw : Nat}
    (hhw : hw < 2) {u : BitVec 32}
    (hval : ∀ old, ∀ j < 2, half (moveResult 32 op (16 * hw) imm old) j = half u j) :
    Leaves a (a.movWide base rd imm hw) (rd.setWidth 5) (u.setWidth 64) := by
  obtain ⟨w, hem⟩ := (Emitted.nil a (rd.setWidth 5)).move false op hbase imm hhw
  refine ⟨_, _, hem, fun old => ?_⟩
  rw [applyAll_moveFn32]
  congr 1
  exact eq_of_halves (n := 2) rfl fun j hj => hval _ j hj

theorem two_moves_leaves (op : MoveOp)
    (hbase : base.toNat = (moveByte false op).toNat * 2 ^ 24 + 2 ^ 23) {imm : BitVec 16}
    {u : BitVec 32} (hval : ∀ old, half (moveResult 32 op 0 imm old) 0 = half u 0) :
    Leaves a ((a.movWide base rd imm 0).movk32 rd (half u 1) 1) (rd.setWidth 5) (u.setWidth 64) := by
  obtain ⟨w, hem⟩ := (Emitted.nil a (rd.setWidth 5)).move false op hbase imm
    (show 0 < if false then 4 else 2 by decide)
  obtain ⟨w', hem'⟩ := hem.move false .movk (show (0x72800000#32).toNat = _ from rfl) (half u 1)
    (show 1 < if false then 4 else 2 by decide)
  refine ⟨_, _, hem', fun old => ?_⟩
  rw [applyAll_moveFn32, applyAll_moveFn32, setWidth_low]
  congr 1
  apply eq_of_halves (n := 2) rfl
  intro j hj
  rw [half_moveResult (n := 2) rfl .movk _ _ hj]
  simp only
  split
  · next h => rw [h]
  · obtain rfl : j = 0 := by omega
    exact hval _

theorem movWideWords32_leaves (a : Asm) (rd : Reg) (u : BitVec 32) (negative : Bool) :
    Leaves a (a.movWideWords32 rd (half u 0) (half u 1) negative) (rd.setWidth 5) (u.setWidth 64) := by
  have hz : ∀ (imm : BitVec 16) (i : Nat) (old : BitVec 32), ∀ j < 2,
      half (moveResult 32 .movz (16 * i) imm old) j = if j = i then imm else 0#16 :=
    fun imm i old j hj => half_moveResult (n := 2) rfl .movz imm old hj
  have hn : ∀ (imm : BitVec 16) (i : Nat) (old : BitVec 32), ∀ j < 2,
      half (moveResult 32 .movn (16 * i) imm old) j = if j = i then ~~~ imm else 0xffff#16 :=
    fun imm i old j hj => half_moveResult (n := 2) rfl .movn imm old hj
  have pair : ∀ {j : Nat}, j < 2 → j = 0 ∨ j = 1 := by omega
  cases negative with
  | true =>
    rw [Asm.movWideWords32, if_pos rfl]
    split
    · split
      · apply two_moves_leaves .movn rfl
        intro old
        have := hn (~~~ half u 0) 0 old 0 (by omega)
        simpa using this
      · next hhi =>
        rw [not_not] at hhi
        apply one_move_leaves .movn rfl (by omega)
        intro old j hj
        rw [hn _ _ _ j hj]
        rcases pair hj with rfl | rfl <;> simp [hhi]
    · next hlo =>
      rw [not_not] at hlo
      split
      · apply one_move_leaves .movn rfl (by omega)
        intro old j hj
        rw [hn _ _ _ j hj]
        rcases pair hj with rfl | rfl <;> simp [hlo]
      · next hhi =>
        rw [not_not] at hhi
        apply one_move_leaves .movn rfl (by omega)
        intro old j hj
        rw [hn _ _ _ j hj]
        rcases pair hj with rfl | rfl <;> simp [hlo, hhi]
  | false =>
    rw [Asm.movWideWords32, if_neg (by decide)]
    split
    · split
      · apply two_moves_leaves .movz rfl
        intro old
        have := hz (half u 0) 0 old 0 (by omega)
        simpa using this
      · next hhi =>
        rw [not_not] at hhi
        apply one_move_leaves .movz rfl (by omega)
        intro old j hj
        rw [hz _ _ _ j hj]
        rcases pair hj with rfl | rfl <;> simp [hhi]
    · next hlo =>
      rw [not_not] at hlo
      apply one_move_leaves .movz rfl (by omega)
      intro old j hj
      rw [hz _ _ _ j hj]
      rcases pair hj with rfl | rfl <;> simp [hlo]

theorem half32 (u : BitVec 32) : u.setWidth 16 = half u 0 ∧ (u >>> 16).setWidth 16 = half u 1 := by
  simp [half]

theorem movImm32_leaves (a : Asm) (hd : rd.setWidth 5 ≠ 31#5) (u : BitVec 32) :
    Leaves a (a.movImm32 rd u) (rd.setWidth 5) (u.setWidth 64) := by
  obtain ⟨hlo, hhi⟩ := half32 u
  rw [Asm.movImm32]
  split
  · split
    · next hneg =>
      -- the high halfword is all ones
      have hones : half u 1 = 0xffff#16 := by
        have hle := le_def.1 hneg.2
        have hlt := u.isLt
        apply eq_of_toNat_eq
        simp only [half, toNat_setWidth, toNat_ushiftRight, Nat.shiftRight_eq_div_pow,
          toNat_ofNat] at hle ⊢
        omega
      apply one_move_leaves .movn rfl (by omega)
      intro old j hj
      rw [half_moveResult (n := 2) rfl .movn _ _ hj, hlo]
      rcases (by omega : j = 0 ∨ j = 1) with rfl | rfl <;> simp [hones]
    · exact movImm64_leaves a hd _
  · rw [hlo, hhi]
    exact leaves_of_choice _ (fun a' h => orrImm32_leaves hd h) (movWideWords32_leaves a rd u _)

/-! ## Executing a constant -/

/-- Running the words that were added, from wherever they are loaded. -/
theorem Leaves.run {a a' : Asm} {v : BitVec 64} (hd : d ≠ 31#5)
    (h : Leaves a a' d v) :
    ∃ ws, a' = a.emit ws ∧ ∀ mem (s : State), Loaded mem s.pc (ws.flatMap wordBytes) →
      runBlock mem ws.length s = some { s.set d v with
        pc := s.pc + BitVec.ofNat 64 (4 * ws.length) } := by
  obtain ⟨ws, fs, hem, hval⟩ := h
  refine ⟨ws, hem.asm, fun mem s hl => ?_⟩
  rw [runBlock_updates hd ws fs s hem.words hl]
  have hv : fs.foldl (fun v f => f v) (s.get d) = v := hval _
  rw [hv]

/-- The logical-immediate encoder succeeds exactly on the constants that some field decodes to, its
fields decode to the constant, and the sequences for constants leave them in the destination, in
every configuration of the encoder. -/
theorem logicalImm_movImm_spec (c : BitVec 64) (u : BitVec 32) (a : Asm) (rd : Reg)
    (hd : rd.setWidth 5 ≠ 31#5) :
    (encodeLogicalImm c true ≠ none ↔ ∃ n immr imms, decodeBitMasks 64 n immr imms = some c) ∧
    (∀ n immr imms, encodeLogicalImm c true = some (n, immr, imms) →
      n < 2 ∧ immr < 64 ∧ imms < 64 ∧
      decodeBitMasks 64 (BitVec.ofNat 1 n) (BitVec.ofNat 6 immr) (BitVec.ofNat 6 imms) = some c) ∧
    (encodeLogicalImm (u.setWidth 64) false ≠ none ↔
      ∃ n immr imms, decodeBitMasks 32 n immr imms = some u) ∧
    (∀ n immr imms, encodeLogicalImm (u.setWidth 64) false = some (n, immr, imms) →
      n = 0 ∧ immr < 64 ∧ imms < 64 ∧
      decodeBitMasks 32 (BitVec.ofNat 1 n) (BitVec.ofNat 6 immr) (BitVec.ofNat 6 imms) = some u) ∧
    (∃ ws, a.movImm64 rd c = a.emit ws ∧
      ∀ mem (s : State), Loaded mem s.pc (ws.flatMap wordBytes) →
        runBlock mem ws.length s = some { s.set (rd.setWidth 5) c with
          pc := s.pc + BitVec.ofNat 64 (4 * ws.length) }) ∧
    (∃ ws, a.movImm32 rd u = a.emit ws ∧
      ∀ mem (s : State), Loaded mem s.pc (ws.flatMap wordBytes) →
        runBlock mem ws.length s = some { s.set (rd.setWidth 5) (u.setWidth 64) with
          pc := s.pc + BitVec.ofNat 64 (4 * ws.length) }) := by
  refine ⟨⟨?_, ?_⟩, ?_, ⟨?_, ?_⟩, ?_, (movImm64_leaves a hd c).run hd, (movImm32_leaves a hd u).run hd⟩
  · intro h
    obtain ⟨⟨n, immr, imms⟩, henc⟩ := Option.ne_none_iff_exists'.1 h
    exact ⟨_, _, _, (encode64_fields henc).1⟩
  · rintro ⟨n, immr, imms, hdec⟩
    exact encode64_of_decode hdec
  · intro n immr imms henc
    obtain ⟨hdec, hn, hr, hs⟩ := encode64_fields henc
    exact ⟨hn, hr, hs, hdec⟩
  · intro h
    obtain ⟨⟨n, immr, imms⟩, henc⟩ := Option.ne_none_iff_exists'.1 h
    exact ⟨_, _, _, (encode32_fields henc).1⟩
  · rintro ⟨n, immr, imms, hdec⟩
    exact encode32_of_decode hdec
  · intro n immr imms henc
    obtain ⟨hdec, hn, hr, hs⟩ := encode32_fields henc
    exact ⟨hn, hr, hs, hdec⟩

/-- Into `x9`, with the default configuration: a repeated mask, and a 32-bit value of one halfword. -/
theorem logicalImm_movImm_x9 :
    (9#8 : Reg).setWidth 5 ≠ 31#5 ∧
      encodeLogicalImm 0x00ff00ff00ff00ff#64 true = some (0, 0, 0x27) ∧
      decodeBitMasks 64 0#1 0#6 0x27#6 = some 0x00ff00ff00ff00ff#64 := by
  have hspec := logicalImm_movImm_spec 0x00ff00ff00ff00ff#64 0x1234#32 {} 9#8 (by decide)
  have henc : encodeLogicalImm 0x00ff00ff00ff00ff#64 true = some (0, 0, 0x27) := by decide +kernel
  exact ⟨by decide, henc, (hspec.2.1 0 0 0x27 henc).2.2.2⟩

end Wago.Arm64
