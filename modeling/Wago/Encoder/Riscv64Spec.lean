/-
What the riscv64 constant sequences compute, and where a patched long transfer goes, on the machine
of `Wago.Lib.Rv64`.
-/
import Wago.Encoder.Riscv64

namespace Wago.Riscv64

open CodeImage Rv64
open BitVec hiding not_not

/-! ## Arithmetic of the two parts -/

theorem low_eq (value : Int) : Asm.low value = value.bmod 4096 := by
  rw [Asm.low, toInt_sshiftRight, toInt_shiftLeft, toNat_ofInt,
    Int.shiftRight_eq_div_pow]
  simp only [Nat.shiftLeft_eq, Int.bmod]
  push_cast
  omega

/-- The rounded upper part and the signed low part make up the value. -/
theorem upper_low (value : Int) : Asm.upper value * 4096 + Asm.low value = value ∧
    -2048 ≤ Asm.low value ∧ Asm.low value ≤ 2047 := by
  rw [Asm.upper, low_eq, Int.shiftRight_eq_div_pow]
  simp only [Int.bmod]
  split <;> split <;> omega

theorem signExtend_imm12 {x : Int} (h0 : -2048 ≤ x) (h1 : x ≤ 2047) :
    (BitVec.ofInt 12 x).signExtend 64 = BitVec.ofInt 64 x := by
  rw [BitVec.signExtend, toInt_ofInt]
  congr 1
  simp only [Int.bmod]
  split <;> omega

theorem signExtend_imm20 (x : Int) :
    (BitVec.ofInt 20 x ++ 0#12).signExtend 64 = BitVec.ofInt 64 ((x * 4096).bmod (2 ^ 32)) := by
  have happ : BitVec.ofInt 20 x ++ 0#12 = BitVec.ofInt 32 (x * 4096) := by
    apply eq_of_toNat_eq
    rw [append_toNat]
    simp only [toNat_ofInt, toNat_ofNat]
    omega
  rw [happ, BitVec.signExtend, toInt_ofInt]

theorem signExtend_word (x : Int) :
    ((BitVec.ofInt 64 x).setWidth 32).signExtend 64 = BitVec.ofInt 64 (x.bmod (2 ^ 32)) := by
  have hlow : (BitVec.ofInt 64 x).setWidth 32 = BitVec.ofInt 32 x := by
    apply eq_of_toNat_eq
    simp only [toNat_setWidth, toNat_ofInt]
    omega
  rw [hlow, BitVec.signExtend, toInt_ofInt]

theorem ofInt_shiftLeft (x : Int) (n : Nat) :
    BitVec.ofInt 64 x <<< n = BitVec.ofInt 64 (x * 2 ^ n) := by
  rw [shiftLeft_eq_mul_twoPow, ofInt_mul]
  congr 1
  apply eq_of_toNat_eq
  rw [toNat_twoPow, toNat_ofInt]
  norm_cast

/-! ## Constants -/

/-- The logical shifts of a register in place. -/
theorem shift_eq {a : Asm} (h : Ready a) {dst count : Nat} (right : Bool) (hd : dst ≤ 31)
    (hc : count < 64) :
    a.shift dst dst count right false false = a.append [iFormat ((BitVec.ofNat 6 count).setWidth 12)
      (BitVec.ofNat 5 dst) (if right then 5#3 else 1#3) (BitVec.ofNat 5 dst) 0x13#7] := by
  have himm : (BitVec.ofNat 6 count).setWidth 12 = BitVec.ofInt 12 count := by
    apply eq_of_toNat_eq
    simp only [toNat_setWidth, toNat_ofNat, toNat_ofInt]
    omega
  rw [himm, Asm.shift]
  simp only [Bool.false_eq_true, if_false]
  rw [if_neg (by omega), h.i hd (by omega) (by split <;> omega) hd (by omega) (by omega)]
  cases right <;> rfl

theorem ofNat5_ne_zero {dst : Nat} (h0 : dst ≠ 0) (h1 : dst ≤ 31) : BitVec.ofNat 5 dst ≠ 0#5 := by
  intro h
  have := congrArg BitVec.toNat h
  simp only [toNat_ofNat] at this
  omega

/-- The emitter adds words that build the value in `dst`, at most `n` of them. -/
def Emits (a a' : Asm) (dst : Nat) (v : Int) (n : Nat) : Prop :=
  ∃ ws is, a' = a.append ws ∧ ws.length ≤ n ∧
    Builds (BitVec.ofNat 5 dst) (BitVec.ofInt 64 v) ws is

theorem Emits.mono {a a' : Asm} {dst : Nat} {v : Int} {m n : Nat} (h : Emits a a' dst v m) (hmn : m ≤ n) :
    Emits a a' dst v n := by
  obtain ⟨ws, is, heq, hlen, hb⟩ := h
  exact ⟨ws, is, heq, hlen.trans hmn, hb⟩

theorem Emits.ready {a a' : Asm} {dst : Nat} {v : Int} {n : Nat} (h : Emits a a' dst v n) (ha : Ready a) :
    Ready a' := by
  obtain ⟨ws, is, rfl, -, -⟩ := h
  exact ha.append ws

/-- One more word that computes from `dst` to `dst`. -/
theorem Emits.snoc {a a' : Asm} {dst : Nat} {v v' : Int} {n : Nat} (h : Emits a a' dst v n)
    (h0 : dst ≠ 0) (h1 : dst ≤ 31) {w : BitVec 32} {i : Instr} (hw : decode w = some i) (hi : i.Straight)
    (hdest : i.dest = BitVec.ofNat 5 dst)
    (heff : ∀ s : State, s.get (BitVec.ofNat 5 dst) = BitVec.ofInt 64 v →
      (i.exec s).regs = (s.set (BitVec.ofNat 5 dst) (BitVec.ofInt 64 v')).regs) :
    Emits a (a'.append [w]) dst v' (n + 1) := by
  obtain ⟨ws, is, rfl, hlen, hb⟩ := h
  refine ⟨ws ++ [w], is ++ [i], ?_, ?_, hb.snoc (ofNat5_ne_zero h0 h1) hw hi hdest heff⟩
  · rw [Asm.append_append]
  · rw [List.length_append, List.length_singleton]
    omega

section Constant

variable {a : Asm} (ha : Ready a) {dst : Nat} (h0 : dst ≠ 0) (h1 : dst ≤ 31)

include ha h0 h1

/-- ADDI with the low part, skipped when it is zero. -/
theorem emits_addi_low {a' : Asm} {v l : Int} {n : Nat} (h : Emits a a' dst v n)
    (hl : -2048 ≤ l) (hu : l ≤ 2047) :
    Emits a (if l ≠ 0 then a'.addi dst dst l else a') dst (v + l) (n + 1) := by
  split
  · rw [Asm.addi, (h.ready ha).i h1 (by omega) (by omega) h1 hl hu]
    apply h.snoc h0 h1 (decode_addi _ _ _) trivial rfl
    intro s hs
    rw [Instr.exec, hs, signExtend_imm12 hl hu, ← ofInt_add]
    rfl
  · next hz =>
    have hz : l = 0 := by omega
    rw [hz, add_zero]
    exact h.mono (by omega)

omit h0 in
theorem emits_small {v : Int} (hl : -2048 ≤ v) (hu : v ≤ 2047) :
    Emits a (a.addi dst 0 v) dst v 1 := by
  rw [Asm.addi, ha.i h1 (by omega) (by omega) (by decide) hl hu]
  refine ⟨_, _, rfl, le_refl _, Builds.single (decode_addi _ _ _) trivial rfl ?_⟩
  intro s
  have hzero : s.get (BitVec.ofNat 5 0) = 0#64 := rfl
  rw [Instr.exec, hzero, signExtend_imm12 hl hu, BitVec.zero_add]
  rfl

omit h0 in
theorem emits_lui (x : Int) :
    Emits a (a.lui dst (bits 20 x)) dst ((x * 4096).bmod (2 ^ 32)) 1 := by
  rw [Asm.lui, ha.u h1 (by omega) (bits_lt 20 x), ofNat_bits]
  refine ⟨_, _, rfl, le_refl _, Builds.single (decode_lui _ _) trivial rfl ?_⟩
  intro s
  rw [Instr.exec, signExtend_imm20]
  rfl

/-- A value of 32 bits takes LUI and ADDIW. -/
theorem emits_word {v : Int} (hl : -2 ^ 31 ≤ v) (hu : v ≤ 2 ^ 31 - 1) :
    Emits a (if Asm.low v ≠ 0 then
        (a.lui dst (bits 20 ((v + 2048) >>> (12 : Nat)))).addiw dst dst (Asm.low v)
      else a.lui dst (bits 20 ((v + 2048) >>> (12 : Nat)))) dst v 2 := by
  have hlui := emits_lui ha h1 ((v + 2048) >>> (12 : Nat))
  obtain ⟨-, hll, hlu⟩ := upper_low v
  split
  · rw [Asm.addiw, (hlui.ready ha).i h1 (by omega) (by omega) h1 hll hlu]
    apply hlui.snoc h0 h1 (decode_addiw _ _ _) trivial rfl
    intro s hs
    rw [Instr.exec, hs, signExtend_imm12 hll hlu, ← ofInt_add, signExtend_word]
    have hv : (((v + 2048) >>> (12 : Nat) * 4096).bmod (2 ^ 32) + Asm.low v).bmod (2 ^ 32) = v := by
      rw [low_eq, Int.shiftRight_eq_div_pow]
      simp only [Int.bmod]
      omega
    rw [hv]
    rfl
  · next hz =>
    have hv : ((v + 2048) >>> (12 : Nat) * 4096).bmod (2 ^ 32) = v := by
      rw [not_not, low_eq] at hz
      rw [Int.shiftRight_eq_div_pow]
      simp only [Int.bmod] at hz ⊢
      omega
    rw [hv] at hlui
    exact hlui.mono (by omega)

theorem emits_int32 {v : Int} (hl : -2 ^ 31 ≤ v) (hu : v ≤ 2 ^ 31 - 1) :
    Emits a (a.constant64 dst v) dst v 2 := by
  rw [Asm.constant64, ha.registers (by simpa using h1)]
  simp only
  split
  · next hs => exact (emits_small ha h1 hs.1 hs.2).mono (by omega)
  · rw [if_pos ⟨hl, hu⟩]
    exact emits_word ha h0 h1 hl hu

/-- Twelve more bits take two more instructions. -/
theorem emits_constant64 : ∀ (k : Nat) (v : Int), v.natAbs ≤ 2 ^ (27 + 12 * k) →
    Emits a (a.constant64 dst v) dst v (2 + 2 * k)
  | 0, v, hk => emits_int32 ha h0 h1 (by omega) (by omega)
  | k + 1, v, hk => by
    by_cases hw : -2 ^ 31 ≤ v ∧ v ≤ 2 ^ 31 - 1
    · exact (emits_int32 ha h0 h1 hw.1 hw.2).mono (by omega)
    · obtain ⟨hsum, hll, hlu⟩ := upper_low v
      have hpow : 2 ^ (27 + 12 * (k + 1)) = 2 ^ (27 + 12 * k) * 4096 := by
        rw [show 27 + 12 * (k + 1) = 27 + 12 * k + 12 by omega, pow_add _ _ 12]
        rfl
      have hup := emits_constant64 k (Asm.upper v) (by omega)
      have hshift : Emits a ((a.constant64 dst (Asm.upper v)).slli dst dst 12) dst
          (Asm.upper v * 4096) (2 + 2 * k + 1) := by
        rw [Asm.slli, shift_eq (hup.ready ha) false h1 (by omega)]
        apply hup.snoc h0 h1 (decode_slli _ _ 12#6) trivial rfl
        intro s hs
        rw [Instr.exec, hs, show (12#6).toNat = 12 from rfl, ofInt_shiftLeft]
        rfl
      have hlow := emits_addi_low ha h0 h1 hshift hll hlu
      rw [hsum] at hlow
      rw [Asm.constant64, ha.registers (by simpa using h1)]
      simp only
      rw [if_neg (by omega), if_neg hw]
      exact hlow.mono (by omega)

theorem emits_int64 (v : BitVec 64) : Emits a (a.constant64 dst v.toInt) dst v.toInt 8 := by
  apply emits_constant64 ha h0 h1 3
  have hlt := v.toInt_lt
  have hle := v.le_toInt
  omega

/-- A 32-bit carrier is left zero-extended. -/
theorem emits_constant32 (value : BitVec 32) :
    Emits a (a.constant32 dst value.toNat) dst value.toNat 4 := by
  have hlt := value.isLt
  have hsigned := emits_int32 ha h0 h1 value.le_toInt (Int.le_sub_one_of_lt value.toInt_lt)
  rw [Asm.constant32, ofNat_toNat, setWidth_eq]
  simp only [Nat.shiftRight_eq_div_pow]
  have hint := toInt_eq_toNat_cond value
  split
  · rw [Asm.zeroExtend32, (hsigned.ready ha).registers (by simp [h1])]
    simp only
    have hleft : Emits a ((a.constant64 dst value.toInt).slli dst dst 32) dst
        (value.toInt * 2 ^ 32) 3 := by
      rw [Asm.slli, shift_eq (hsigned.ready ha) false h1 (by omega)]
      apply hsigned.snoc h0 h1 (decode_slli _ _ 32#6) trivial rfl
      intro s hs
      rw [Instr.exec, hs, show (32#6).toNat = 32 from rfl, ofInt_shiftLeft]
      rfl
    rw [Asm.srli, shift_eq (hleft.ready ha) true h1 (by omega)]
    apply hleft.snoc h0 h1 (decode_srli _ _ 32#6) trivial rfl
    intro s hs
    have hval : BitVec.ofInt 64 (value.toInt * 2 ^ 32) >>> 32 = BitVec.ofInt 64 value.toNat := by
      apply eq_of_toNat_eq
      simp only [toNat_ushiftRight, toNat_ofInt, Nat.shiftRight_eq_div_pow]
      rw [hint]
      split <;> omega
    rw [Instr.exec, hs, show (32#6).toNat = 32 from rfl, hval]
    rfl
  · have hv : value.toInt = value.toNat := by
      rw [hint, if_pos (by omega)]
    rw [← hv]
    exact hsigned.mono (by omega)

end Constant

/-- Four words are needed. -/
theorem emits_constant32_top :
    Emits {} (({} : Asm).constant32 5 (2 ^ 31 + 1)) 5 (2 ^ 31 + 1 : Nat) 4 ∧
      (({} : Asm).constant32 5 (2 ^ 31 + 1)).B.length = 4 * 4 :=
  ⟨emits_constant32 ⟨rfl, rfl⟩ (by decide) (by decide) 0x80000001#32, by
    rw [Asm.constant32, Asm.constant64]
    decide⟩

/-! ## Long transfers -/

/-- The displacements an AUIPC and a JALR reach together. -/
def Reaches (delta : Int) : Prop :=
  ∃ high low : Int, -2 ^ 19 ≤ high ∧ high < 2 ^ 19 ∧ -2 ^ 11 ≤ low ∧ low < 2 ^ 11 ∧
    delta = high * 2 ^ 12 + low

theorem reaches_iff (delta : Int) :
    Reaches delta ↔ -2 ^ 31 - 2048 ≤ delta ∧ delta ≤ 2 ^ 31 - 2048 - 1 := by
  constructor
  · rintro ⟨high, low, h1, h2, h3, h4, rfl⟩
    omega
  · rintro ⟨h1, h2⟩
    exact ⟨(delta + 2048) / 4096, delta - (delta + 2048) / 4096 * 4096, by omega, by omega, by omega,
      by omega, by omega⟩

/-- An AUIPC/JALR pair through `x31` at an aligned site, with whatever displacement it has. -/
structure Envelope (code : List (BitVec 8)) (site : Nat) (link : BitVec 5) : Prop where
  aligned : site % 4 = 0
  inside : site + 8 ≤ code.length
  hi : ∃ imm, wordAt code site = uFormat imm 31#5 0x17#7
  lo : ∃ imm, wordAt code (site + 4) = iFormat imm 31#5 0#3 link 0x67#7
  link : link = 0#5 ∨ link = 1#5

/-- Two emitted words, read back. -/
theorem wordAt_append_two (code : List (BitVec 8)) (w w' : BitVec 32) :
    wordAt (code ++ [w, w'].flatMap wordBytes) code.length = w ∧
      wordAt (code ++ [w, w'].flatMap wordBytes) (code.length + 4) = w' := by
  have hflat : [w, w'].flatMap wordBytes = wordBytes w ++ (wordBytes w' ++ []) := by
    rw [List.flatMap_cons, List.flatMap_cons, List.flatMap_nil]
  have h0 := wordAt_append_right code (wordBytes w ++ (wordBytes w' ++ [])) 0
  have h4 := wordAt_append_right code (wordBytes w ++ (wordBytes w' ++ [])) 4
  have hsecond := wordAt_append_right (wordBytes w) (wordBytes w' ++ []) 0
  rw [wordAt_wordBytes, Nat.add_zero] at h0
  rw [wordAt_wordBytes, wordBytes_length, Nat.add_zero] at hsecond
  rw [hflat]
  exact ⟨h0, h4.trans hsecond⟩

/-- `JumpLong` emits an envelope at the site it returns. -/
theorem jumpLong_envelope {a : Asm} (ha : Ready a) (call : Bool) :
    ∃ a', a.jumpLong call = (a', (a.B.length : Int)) ∧ Ready a' ∧
      Envelope a'.B a.B.length (if call then 1#5 else 0#5) := by
  have hlink : (if call then ra else 0) ≤ 31 := by cases call <;> decide
  have hau : a.auipc scratch1 0 = a.append [uFormat 0#20 31#5 0x17#7] :=
    ha.u (by decide) (by decide) (by decide)
  have hja : (a.append [uFormat 0#20 31#5 0x17#7]).jalr (if call then ra else 0) scratch1 0 =
      a.append [uFormat 0#20 31#5 0x17#7,
        iFormat 0#12 31#5 0#3 (if call then 1#5 else 0#5) 0x67#7] := by
    rw [Asm.jalr, (ha.append _).i hlink (by decide) (by decide) (by decide) (by decide) (by decide),
      Asm.append_append]
    cases call <;> rfl
  have hready := ha.append [uFormat 0#20 31#5 0x17#7,
    iFormat 0#12 31#5 0#3 (if call then 1#5 else 0#5) 0x67#7]
  refine ⟨_, ?_, hready, ?_⟩
  · rw [Asm.jumpLong]
    simp only [hau, hja, hready.err, ne_eq, not_true_eq_false, if_false]
  · obtain ⟨hw, hw'⟩ := wordAt_append_two a.B (uFormat 0#20 31#5 0x17#7)
      (iFormat 0#12 31#5 0#3 (if call then 1#5 else 0#5) 0x67#7)
    exact {
      aligned := ha.aligned
      inside := by simp [Asm.append]
      hi := ⟨_, hw⟩
      lo := ⟨_, hw'⟩
      link := by cases call <;> simp }

/-! ### The words of a fixup -/

theorem and_mask_toNat (w : BitVec 32) {m : BitVec 32} {k : Nat} (hm : m.toNat = 2 ^ k - 1) :
    (w &&& m).toNat = w.toNat % 2 ^ k := by
  rw [toNat_and, hm, Nat.and_two_pow_sub_one_eq_mod]

/-- Replacing the bits from `k` up. -/
theorem or_field_toNat {m : BitVec 32} {k n : Nat} (hm : m.toNat < 2 ^ k) (hkn : k + n = 32)
    (x : Int) :
    (m ||| BitVec.ofNat 32 (bits n x) <<< k).toNat = m.toNat + bits n x * 2 ^ k := by
  have hb := bits_lt n x
  have hmul : bits n x * 2 ^ k < 2 ^ 32 := by
    rw [← hkn, Nat.pow_add, Nat.mul_comm]
    exact Nat.mul_lt_mul_of_pos_left hb (Nat.two_pow_pos k)
  have hb32 : bits n x < 2 ^ 32 := lt_of_lt_of_le hb (Nat.pow_le_pow_right (by omega) (by omega))
  rw [toNat_or, toNat_shiftLeft, toNat_ofNat, Nat.mod_eq_of_lt hb32,
    Nat.shiftLeft_eq, Nat.mod_eq_of_lt hmul, ← Nat.shiftLeft_eq, or_shiftLeft_eq_add hm,
    Nat.shiftLeft_eq]

theorem patched_hi (imm : BitVec 20) (x : Int) :
    (uFormat imm 31#5 0x17#7 &&& 0xfff#32) ||| BitVec.ofNat 32 (bits 20 x) <<< 12 =
      uFormat (BitVec.ofInt 20 x) 31#5 0x17#7 := by
  have hmask := and_mask_toNat (uFormat imm 31#5 0x17#7) (m := 0xfff#32) (k := 12) rfl
  have hb := bits_lt 20 x
  rw [uFormat_toNat] at hmask
  apply eq_of_toNat_eq
  rw [or_field_toNat (k := 12) (by rw [hmask]; omega) (by omega), hmask, uFormat_toNat, ← ofNat_bits]
  simp only [toNat_ofNat]
  omega

theorem patched_lo (imm : BitVec 12) (link : BitVec 5) (x : Int) :
    (iFormat imm 31#5 0#3 link 0x67#7 &&& 0xfffff#32) ||| BitVec.ofNat 32 (bits 12 x) <<< 20 =
      iFormat (BitVec.ofInt 12 x) 31#5 0#3 link 0x67#7 := by
  have hmask := and_mask_toNat (iFormat imm 31#5 0#3 link 0x67#7) (m := 0xfffff#32) (k := 20) rfl
  have hb := bits_lt 12 x
  have hl := link.isLt
  rw [iFormat_toNat] at hmask
  apply eq_of_toNat_eq
  rw [or_field_toNat (k := 20) (by rw [hmask]; omega) (by omega), hmask, iFormat_toNat, ← ofNat_bits]
  simp only [toNat_ofNat]
  omega

/-- The shape test of `PatchLong` lets every envelope through. -/
theorem Envelope.shape {code : List (BitVec 8)} {site : Nat} {link : BitVec 5}
    (h : Envelope code site link) :
    ¬ (wordAt code site &&& 0xfff ≠ BitVec.ofNat 32 (0x17 ||| scratch1 <<< 7) ∨
      wordAt code (site + 4) &&& 0xfffff ≠ BitVec.ofNat 32 (0x67 ||| scratch1 <<< 15) ∧
        wordAt code (site + 4) &&& 0xfffff ≠
          BitVec.ofNat 32 (0x67 ||| ra <<< 7 ||| scratch1 <<< 15)) := by
  obtain ⟨imm, hhi⟩ := h.hi
  obtain ⟨imm', hlo⟩ := h.lo
  have hmhi := and_mask_toNat (wordAt code site) (m := 0xfff#32) (k := 12) rfl
  have hmlo := and_mask_toNat (wordAt code (site + 4)) (m := 0xfffff#32) (k := 20) rfl
  rw [hhi, uFormat_toNat] at hmhi
  rw [hlo, iFormat_toNat] at hmlo
  have e1 : wordAt code site &&& 0xfff = BitVec.ofNat 32 (0x17 ||| scratch1 <<< 7) := by
    apply eq_of_toNat_eq
    rw [hhi]
    refine hmhi.trans ?_
    simp only [toNat_ofNat]
    rw [show 0x17 ||| scratch1 <<< 7 = 0xf97 from rfl]
    omega
  intro hbad
  rcases hbad with hbad | ⟨hz, hr⟩
  · exact hbad e1
  · rcases h.link with hl | hl
    · apply hz
      apply eq_of_toNat_eq
      rw [hlo]
      refine hmlo.trans ?_
      rw [hl, show 0x67 ||| scratch1 <<< 15 = 0xf8067 from rfl]
      simp only [toNat_ofNat]
      omega
    · apply hr
      apply eq_of_toNat_eq
      rw [hlo]
      refine hmlo.trans ?_
      rw [hl, show 0x67 ||| ra <<< 7 ||| scratch1 <<< 15 = 0xf80e7 from rfl]
      simp only [toNat_ofNat]
      omega

/-! ### Executing a patched envelope -/

theorem and_not_one {x : BitVec 64} (h : x.toNat % 2 = 0) : x &&& ~~~ 1#64 = x := by
  ext i hi
  rw [getElem_and, getElem_not, getElem_one]
  by_cases h0 : i = 0
  · subst h0
    have hbit : x[0] = false := by
      rw [getElem_eq_testBit_toNat, Nat.testBit_zero, h]
      rfl
    simp [hbit]
  · simp [h0]

theorem even_address {base : BitVec 64} {target : Int} (hb : base.toNat % 2 = 0)
    (ht : target % 4 = 0) : (base + BitVec.ofInt 64 target).toNat % 2 = 0 := by
  simp only [toNat_add, toNat_ofInt]
  omega

/-- An envelope whose two parts add up to the displacement goes to the target: the link register has
the address after it, and `x31` is used up. -/
theorem envelope_run {mem : BitVec 64 → BitVec 8} {base : BitVec 64} {code : List (BitVec 8)}
    {site : Nat} {link : BitVec 5} {high low target : Int} (hl : Loaded mem base code)
    (hin : site + 8 ≤ code.length) (hhi : wordAt code site = uFormat (BitVec.ofInt 20 high) 31#5 0x17#7)
    (hlo : wordAt code (site + 4) = iFormat (BitVec.ofInt 12 low) 31#5 0#3 link 0x67#7)
    (h1 : -2 ^ 19 ≤ high) (h2 : high < 2 ^ 19) (h3 : -2048 ≤ low) (h4 : low ≤ 2047)
    (hsum : high * 4096 + low = target - site) (hb : base.toNat % 2 = 0) (ht : target % 4 = 0)
    {s : State} (hpc : s.pc = base + BitVec.ofNat 64 site) :
    ∃ x, run mem 2 s = some
      { pc := base + BitVec.ofInt 64 target
        regs := ((s.set 31#5 x).set link (s.pc + 8)).regs } := by
  have hauipc : step mem s = some (Instr.exec s (.auipc 31#5 (BitVec.ofInt 20 high))) := by
    apply step_of_decode
    rw [hpc, hl.fetch (by omega), hhi]
    exact decode_auipc _ _
  have hoff : (BitVec.ofInt 20 high ++ 0#12).signExtend 64 = BitVec.ofInt 64 (high * 4096) := by
    rw [signExtend_imm20]
    congr 1
    simp only [Int.bmod]
    omega
  rw [Instr.exec, hoff] at hauipc
  refine ⟨s.pc + BitVec.ofInt 64 (high * 4096), ?_⟩
  generalize hs' : s.set 31#5 (s.pc + BitVec.ofInt 64 (high * 4096)) = s' at hauipc ⊢
  have hpc' : s'.pc = s.pc := by rw [← hs', State.set_pc]
  have hget : s'.next.get 31#5 = s.pc + BitVec.ofInt 64 (high * 4096) := by
    have hset := State.get_set (s := s) (r := 31#5) (by decide) (s.pc + BitVec.ofInt 64 (high * 4096))
    rwa [hs'] at hset
  have hjalr : step mem s'.next =
      some (Instr.exec s'.next (.jalr link 31#5 (BitVec.ofInt 12 low))) := by
    apply step_of_decode
    have haddr : s'.next.pc = base + BitVec.ofNat 64 (site + 4) := by
      rw [State.next, hpc', hpc, ofNat_add, BitVec.add_assoc]
      rfl
    rw [haddr, hl.fetch (by omega), hlo]
    exact decode_jalr _ _ _
  have hdest : s.pc + BitVec.ofInt 64 (high * 4096) + BitVec.ofInt 64 low =
      base + BitVec.ofInt 64 target := by
    rw [hpc, show target = site + (high * 4096 + low) by omega, ofInt_add, ofInt_add,
      BitVec.add_assoc, BitVec.add_assoc]
    rfl
  rw [Instr.exec, hget, signExtend_imm12 h3 h4, hdest, and_not_one (even_address hb ht)] at hjalr
  have hret : s'.next.pc + 4 = s.pc + 8 := by
    rw [State.next, hpc', BitVec.add_assoc]
    rfl
  rw [hret] at hjalr
  rw [run, hauipc, Option.bind_some, run, hjalr, Option.bind_some, run]
  have hregs : (s'.next.set link (s.pc + 8)).regs = (s'.set link (s.pc + 8)).regs := by
    rw [State.set, State.set]
    split <;> rfl
  rw [hregs]

/-- What `PatchLong` does with an envelope: it refuses, or it writes both parts. -/
theorem patchLong_cases {a : Asm} (herr : a.err = none) {site : Nat} {link : BitVec 5}
    (h : Envelope a.B site link) (target : Int) :
    (∃ message, a.patchLong site target = (a, some message) ∧
      ¬ ((target - site) % 4 = 0 ∧ Reaches (target - site))) ∨
    (∃ high low : Int, target % 4 = 0 ∧ -2 ^ 19 ≤ high ∧ high < 2 ^ 19 ∧ -2048 ≤ low ∧ low ≤ 2047 ∧
      high * 4096 + low = target - site ∧
      a.patchLong site target = (a.putEnvelope site (uFormat (BitVec.ofInt 20 high) 31#5 0x17#7)
        (iFormat (BitVec.ofInt 12 low) 31#5 0#3 link 0x67#7), none)) := by
  have hal := h.aligned
  have hin := h.inside
  obtain ⟨imm, hhi⟩ := h.hi
  obtain ⟨imm', hlo⟩ := h.lo
  rw [reaches_iff, Asm.patchLong, if_neg (by simp [herr])]
  simp only [Int.toNat_natCast]
  split
  · left
    refine ⟨_, rfl, ?_⟩
    omega
  · next hargs =>
    rw [if_neg h.shape]
    split
    · left
      refine ⟨_, rfl, ?_⟩
      omega
    · split
      · left
        refine ⟨_, rfl, ?_⟩
        omega
      · right
        simp only [Int.shiftRight_eq_div_pow]
        refine ⟨(target - site + 2048) / 4096, target - site - (target - site + 2048) / 4096 * 4096,
          by omega, by omega, by omega, by omega, by omega, by omega, ?_⟩
        rw [hhi, hlo]
        have hp := patched_hi imm ((target - site + 2048) / 4096)
        have hq := patched_lo imm' link (target - site - (target - site + 2048) / 4096 * 4096)
        rw [← hp, ← hq]
        rfl

/-- The site keeps its envelope, with the new parts, and no byte outside it changes. -/
theorem putEnvelope_spec {a : Asm} {site : Nat} (hin : site + 8 ≤ a.B.length) (hi lo : BitVec 32) :
    (a.putEnvelope site hi lo).B.length = a.B.length ∧
      wordAt (a.putEnvelope site hi lo).B site = hi ∧
      wordAt (a.putEnvelope site hi lo).B (site + 4) = lo ∧
      ∀ i, i < site ∨ site + 8 ≤ i → (a.putEnvelope site hi lo).B[i]? = a.B[i]? := by
  simp only [Asm.putEnvelope]
  refine ⟨by simp, ?_, ?_, ?_⟩
  · rw [wordAt_putWord_of_disjoint _ _ (by omega), wordAt_putWord _ _ (by omega)]
  · exact wordAt_putWord _ _ (by rw [putWord_length]; omega)
  · intro i hi
    rw [putWord_getElem? _ _ _ (by omega), putWord_getElem? _ _ _ (by omega)]

/-- `Constant64` builds every value in at most eight words that write the destination alone.
`PatchLong` accepts an envelope's target exactly when the displacement is aligned and in reach; the
patched envelope then goes there, and otherwise the code is as it was. -/
theorem constant64_patchLong_spec
    (a : Asm) (ha : Ready a) (dst : Nat) (h0 : dst ≠ 0) (h1 : dst ≤ 31) (v : BitVec 64)
    (b : Asm) (hb : b.err = none) (site : Nat) (link : BitVec 5) (he : Envelope b.B site link)
    (target : Int) :
    (∃ ws, a.constant64 dst v.toInt = a.append ws ∧ ws.length ≤ 8 ∧
      (∀ w ∈ ws, ∃ i, decode w = some i ∧ i.dest = BitVec.ofNat 5 dst) ∧
      ∀ mem (s : State), Loaded mem s.pc (ws.flatMap wordBytes) →
        run mem ws.length s = some
          { pc := s.pc + BitVec.ofNat 64 (4 * ws.length)
            regs := Function.update s.regs (BitVec.ofNat 5 dst) v }) ∧
    ((b.patchLong site target).2 = none ↔
      (target - site) % 4 = 0 ∧ Reaches (target - site)) ∧
    ((b.patchLong site target).2 = none →
      Envelope (b.patchLong site target).1.B site link ∧
      (∀ i, i < site ∨ site + 8 ≤ i → (b.patchLong site target).1.B[i]? = b.B[i]?) ∧
      ∀ mem base (s : State), base.toNat % 2 = 0 →
        Loaded mem base (b.patchLong site target).1.B → s.pc = base + BitVec.ofNat 64 site →
        ∃ x, run mem 2 s = some
          { pc := base + BitVec.ofInt 64 target
            regs := ((s.set 31#5 x).set link (s.pc + 8)).regs }) ∧
    ((b.patchLong site target).2 ≠ none → (b.patchLong site target).1.B = b.B) := by
  refine ⟨?_, ?_⟩
  · obtain ⟨ws, is, heq, hlen, hbuilds⟩ := emits_int64 ha h0 h1 v
    rw [BitVec.ofInt_toInt] at hbuilds
    refine ⟨ws, heq, hlen, fun w hw => hbuilds.mem_dest hw, ?_⟩
    intro mem s hl
    rw [hbuilds.run hl, State.set, if_neg (ofNat5_ne_zero h0 h1)]
  · rcases patchLong_cases hb he target with ⟨message, heq, hno⟩ | ⟨high, low, ht, h2, h3, h4, h5, hsum, heq⟩
    · rw [heq]
      refine ⟨iff_of_false (by simp) hno, by simp, ?_⟩
      intro _
      rfl
    · have hal := he.aligned
      obtain ⟨hlen, hhi, hlo, hframe⟩ := putEnvelope_spec he.inside
        (uFormat (BitVec.ofInt 20 high) 31#5 0x17#7)
        (iFormat (BitVec.ofInt 12 low) 31#5 0#3 link 0x67#7)
      rw [heq]
      refine ⟨?_, ?_, by simp⟩
      · refine iff_of_true rfl ⟨by omega, ⟨high, low, h2, h3, by omega, by omega, by omega⟩⟩
      · intro _
        have hin := he.inside
        refine ⟨⟨hal, by rw [hlen]; exact hin, ⟨_, hhi⟩, ⟨_, hlo⟩, he.link⟩, hframe, ?_⟩
        intro mem base s hbase hl hpc
        exact envelope_run hl (by rw [hlen]; exact hin) hhi hlo h2 h3 h4 h5 hsum hbase ht hpc

/-- A constant in `x5` and a call out of an empty buffer, sixteen bytes ahead. -/
theorem constant64_patchLong_first :
    (∃ ws, ({} : Asm).constant64 5 (0x7fffffffffffffff#64).toInt = Asm.append {} ws ∧
      ws.length ≤ 8) ∧
    ∃ b : Asm, Envelope b.B 0 1#5 ∧ (b.patchLong (0 : Nat) 16).2 = none := by
  obtain ⟨b, hjump, hready, henv⟩ := jumpLong_envelope (a := {}) ⟨rfl, rfl⟩ true
  have hspec := constant64_patchLong_spec {} ⟨rfl, rfl⟩ 5 (by decide) (by decide) 0x7fffffffffffffff#64
    b hready.err 0 1#5 henv 16
  obtain ⟨ws, heq, hlen, -⟩ := hspec.1
  exact ⟨⟨ws, heq, hlen⟩, b, henv, hspec.2.1.2 ⟨by decide, (reaches_iff _).2 (by decide)⟩⟩

end Wago.Riscv64
