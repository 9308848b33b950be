/-
The LEB128 readers and the encoders of `encode.go` against the grammar of `Wago.Lib.Leb128`. Both
loops are shown to accept exactly the encodings of the grammar at any width up to 64, with the encoded
value and the encoding's length; the one-byte fast paths are then shown to agree with the loops. Each
encoder appends its bytes to the output so far.
-/
import Mathlib.Algebra.Order.Ring.Int
import Wago.Lib.Leb128
import Wago.Wasm.ReaderExport

namespace Wago.Wasm

open Leb128

/-! ## The encoders of `encode.go` -/

/-- The loop of `appendU32`; `left` bounds the groups of seven bits, five for a `uint32`. -/
def appendU32Loop : (left : Nat) → List UInt8 → Nat → List UInt8
  | 0, out, _ => out
  | left + 1, out, v =>
    let b := v &&& 0x7f
    let v := v >>> 7
    if v ≠ 0 then appendU32Loop left (out ++ [(b ||| 0x80).toUInt8]) v
    else out ++ [b.toUInt8]

def appendU32 (out : List UInt8) (v : Nat) : List UInt8 := appendU32Loop 5 out v

/-- The loop of `appendS64` on an `int64`, shifted arithmetically; at most ten groups. -/
def appendS64Loop : (left : Nat) → List UInt8 → Int → List UInt8
  | 0, out, _ => out
  | left + 1, out, v =>
    let b := (v % 128).toNat
    let v := v >>> (7 : Nat)
    let sign := b &&& 0x40 != 0
    let more := !((v == 0 && !sign) || (v == -1 && sign))
    if more then appendS64Loop left (out ++ [(b ||| 0x80).toUInt8]) v
    else out ++ [b.toUInt8]

def appendS64 (out : List UInt8) (v : Int) : List UInt8 := appendS64Loop 10 out v

/-! ## Bits of one byte -/

theorem and_7f (b : Nat) : b &&& 0x7f = b % 128 := Nat.and_two_pow_sub_one_eq_mod b 7

theorem and_80_eq_zero {b : Nat} (h : b < 256) : b &&& 0x80 = 0 ↔ b < 128 := by
  have table : ∀ b < 256, (b &&& 0x80 = 0 ↔ b < 128) := by decide +kernel
  exact table b h

theorem and_40_eq_zero {b : Nat} (h : b < 128) : b &&& 0x40 = 0 ↔ b < 64 := by
  have table : ∀ b < 128, (b &&& 0x40 = 0 ↔ b < 64) := by decide +kernel
  exact table b h

variable {signed : Bool}

/-- The unused bits of a terminal byte pass the check exactly when the byte fits the bits left. -/
theorem lebTerminalOk_iff {N shift b : Nat} (hs : shift < N) (hb : b < 128) :
    lebTerminalOk signed N (shift + 7) b = true ↔ LastFits signed (N - shift) b := by
  have tableU : ∀ n < 7, 0 < n → ∀ b < 128,
      (b &&& (((1 <<< (7 - n)) - 1) <<< (7 - (7 - n))) = 0 ↔ b < 2 ^ n) := by decide +kernel
  have tableS : ∀ n < 7, 0 < n → ∀ b < 128,
      (if b &&& (1 <<< (7 - (7 - n) - 1)) != 0 then
          b &&& (((1 <<< (7 - n)) - 1) <<< (7 - (7 - n))) ==
            ((1 <<< (7 - n)) - 1) <<< (7 - (7 - n))
        else b &&& (((1 <<< (7 - n)) - 1) <<< (7 - (7 - n))) == 0) =
        decide (b < 64 ∧ b < 2 ^ (n - 1) ∨ 64 ≤ b ∧ 128 ≤ b + 2 ^ (n - 1)) := by decide +kernel
  unfold lebTerminalOk
  split
  · have he : shift + 7 - N = 7 - (N - shift) := by omega
    cases signed with
    | false => simpa [he, LastFits] using tableU (N - shift) (by omega) (by omega) b hb
    | true =>
      have := tableS (N - shift) (by omega) (by omega) b hb
      simp only [he, Bool.true_and, this, decide_eq_true_eq, LastFits]
  · have h6 : 2 ^ 6 ≤ 2 ^ (N - shift - 1) := Nat.pow_le_pow_right (by omega) (by omega)
    have h7 : 2 ^ 7 ≤ 2 ^ (N - shift) := Nat.pow_le_pow_right (by omega) (by omega)
    cases signed <;> simp only [LastFits, true_iff] <;> omega

/-- Both readers make the same range check on a terminal byte. -/
theorem leb128RangeOk_terminal {N shift b : Nat} (hs : shift < N) :
    ExportReader.leb128RangeOk signed N (shift + 7) b = lebTerminalOk signed N (shift + 7) b := by
  have table : ∀ e < 7, 0 < e →
      (0xFF <<< ((7 - e - 1) + 1)) &&& 0x7F = ((1 <<< e) - 1) <<< (7 - e) ∧ 6 - e = 7 - e - 1 := by
    decide +kernel
  unfold ExportReader.leb128RangeOk lebTerminalOk
  split
  · obtain ⟨hm, hu⟩ := table (shift + 7 - N) (by omega) (by omega)
    simp only [hu, hm]
  · rfl

/-! ## Accumulating a byte -/

/-- `uint64(z)` of a mathematical integer. -/
def wrap64 (z : Int) : Nat := (z % 2 ^ 64).toNat

theorem eq_wrap64 {v : Nat} {z q : Int} (hv : v < 2 ^ 64) (h : (v : Int) = z + 2 ^ 64 * q) :
    v = wrap64 z := by
  have : z % 2 ^ 64 = v := by
    rw [show z = (v : Int) + 2 ^ 64 * (-q) by rw [h]; ring, Int.add_mul_emod_self_left]
    exact Int.emod_eq_of_lt (by omega) (by exact_mod_cast hv)
  rw [wrap64, this, Int.toNat_natCast]

theorem wrap64_natCast {v : Nat} (h : v < 2 ^ 64) : wrap64 v = v :=
  (eq_wrap64 (q := 0) h (by simp)).symm

theorem toInt64_wrap64 {z : Int} (hlo : -2 ^ 63 ≤ z) (hhi : z < 2 ^ 63) : toInt64 (wrap64 z) = z := by
  unfold toInt64 wrap64
  rw [Int.bmod_def]
  norm_num at hlo hhi ⊢
  omega

theorem toInt32_wrap64 {z : Int} (hlo : -2 ^ 31 ≤ z) (hhi : z < 2 ^ 31) : toInt32 (wrap64 z) = z := by
  unfold toInt32 wrap64
  rw [Int.bmod_def]
  norm_num at hlo hhi ⊢
  omega

theorem or_shift {result shift x : Nat} (hr : result < 2 ^ shift) :
    result ||| x <<< shift = result + 2 ^ shift * x := by
  rw [Nat.or_comm, ← Nat.shiftLeft_add_eq_or_of_lt hr, Nat.shiftLeft_eq, Nat.mul_comm, Nat.add_comm]

theorem shiftLeft_mod {shift x : Nat} (hs : shift ≤ 64) :
    (x <<< shift) % 2 ^ 64 = (x % 2 ^ (64 - shift)) <<< shift := by
  rw [Nat.shiftLeft_eq, Nat.shiftLeft_eq, Nat.mul_comm, Nat.mul_comm _ (2 ^ shift),
    ← Nat.mul_mod_mul_left, ← Nat.pow_add, Nat.add_sub_cancel' hs]

theorem two_pow_64_split {k : Nat} (hk : k ≤ 64) : 2 ^ k * 2 ^ (64 - k) = 2 ^ 64 := by
  rw [← Nat.pow_add]; congr 1; omega

variable {result shift b : Nat}

/-- Bits of a byte that land past bit 63 are dropped, which is arithmetic modulo `2^64`. -/
theorem accumulate_mod (hr : result < 2 ^ shift) (hs : shift < 64) :
    ∃ q : Nat, (result ||| ((b &&& 0x7f) <<< shift) % 2 ^ 64) + 2 ^ 64 * q =
        result + 2 ^ shift * (b % 128) ∧
      (result ||| ((b &&& 0x7f) <<< shift) % 2 ^ 64) < 2 ^ 64 := by
  have h64 := two_pow_64_split hs.le
  rw [and_7f, shiftLeft_mod hs.le, or_shift hr]
  refine ⟨b % 128 / 2 ^ (64 - shift), ?_, ?_⟩
  · have hdm := Nat.mod_add_div (b % 128) (2 ^ (64 - shift))
    conv_rhs => rw [← hdm]
    rw [← h64]; ring
  · have hlt : b % 128 % 2 ^ (64 - shift) < 2 ^ (64 - shift) := Nat.mod_lt _ (Nat.two_pow_pos _)
    have := Nat.mul_le_mul_left (2 ^ shift) hlt
    rw [h64, Nat.mul_succ] at this
    omega

theorem accumulate_lt (hr : result < 2 ^ shift) :
    result + 2 ^ shift * (b % 128) < 2 ^ (shift + 7) := by
  have hb : b % 128 < 128 := Nat.mod_lt _ (by omega)
  have : 2 ^ shift * (b % 128 + 1) ≤ 2 ^ shift * 2 ^ 7 := Nat.mul_le_mul_left _ (by omega)
  rw [Nat.pow_add]; rw [Nat.mul_add] at this; omega

/-- A continuation byte lands below bit 64 as a whole. -/
theorem accumulate (hr : result < 2 ^ shift) (hs : shift + 7 < 64) :
    result ||| ((b &&& 0x7f) <<< shift) % 2 ^ 64 = result + 2 ^ shift * (b % 128) := by
  obtain ⟨q, hq, -⟩ := accumulate_mod (b := b) hr (by omega)
  have hlt := accumulate_lt (b := b) hr
  have : 2 ^ (shift + 7) ≤ 2 ^ 64 := Nat.pow_le_pow_right (by omega) (by omega)
  omega

/-- Setting the bits from `k` up adds `2^64 - 2^k`. -/
theorem or_ones {x k : Nat} (hx : x < 2 ^ k) (hk : k < 64) :
    (x ||| ((2 ^ 64 - 1) <<< k) % 2 ^ 64) + 2 ^ k = x + 2 ^ 64 := by
  have h64 := two_pow_64_split hk.le
  have hp := Nat.two_pow_pos (64 - k)
  have hones : (2 ^ 64 - 1) % 2 ^ (64 - k) = 2 ^ (64 - k) - 1 := by
    have hsplit : 2 ^ 64 - 1 = 2 ^ (64 - k) * (2 ^ k - 1) + (2 ^ (64 - k) - 1) := by
      have := Nat.two_pow_pos k
      rw [Nat.mul_sub_one, Nat.mul_comm, h64]
      have : 2 ^ (64 - k) ≤ 2 ^ 64 := Nat.pow_le_pow_right (by omega) (by omega)
      omega
    rw [hsplit, Nat.mul_add_mod, Nat.mod_eq_of_lt (by omega)]
  have : 2 ^ k ≤ 2 ^ 64 := Nat.pow_le_pow_right (by omega) (by omega)
  rw [shiftLeft_mod hk.le, or_shift hx, hones, Nat.mul_sub_one, h64]
  omega

/-- The value of a terminal byte: its seven bits are a number at its place, two's complement when
signed. -/
theorem lebSignExtend_terminal (hr : result < 2 ^ shift)
    (hs : shift < 64) (hb : b < 128) :
    lebSignExtend signed (shift + 7) b (result ||| ((b &&& 0x7f) <<< shift) % 2 ^ 64) =
      wrap64 (result + 2 ^ shift * lastValue signed b) := by
  obtain ⟨q, hq, hlt⟩ := accumulate_mod (b := b) hr hs
  rw [Nat.mod_eq_of_lt hb] at hq
  generalize (result ||| ((b &&& 0x7f) <<< shift) % 2 ^ 64) = x at hq hlt
  have hq' : (x : Int) + 2 ^ 64 * q = result + 2 ^ shift * b := by exact_mod_cast hq
  unfold lebSignExtend
  by_cases hneg : signed = true ∧ 64 ≤ b
  · have hval : lastValue signed b = b - 128 := if_pos hneg
    obtain ⟨rfl, h40⟩ := hneg
    have : b &&& 0x40 ≠ 0 := by rw [Ne, and_40_eq_zero hb]; omega
    have hp7 : (2 : Int) ^ (shift + 7) = 2 ^ shift * 128 := by rw [pow_add]; rfl
    rw [hval]
    by_cases h7 : shift + 7 < 64
    · -- the accumulator ends below bit 64 and is sign-extended
      have hx7 : x < 2 ^ (shift + 7) := by
        have := accumulate_lt (b := b) hr
        rw [Nat.mod_eq_of_lt hb] at this
        omega
      have hones := or_ones hx7 h7
      have hones' : ((x ||| ((2 ^ 64 - 1) <<< (shift + 7)) % 2 ^ 64 : Nat) : Int) + 2 ^ (shift + 7) =
        x + 2 ^ 64 := by exact_mod_cast hones
      simp only [h7, this, Bool.true_and, decide_true, bne_iff_ne, ne_eq, not_false_eq_true, if_true]
      refine eq_wrap64 (q := 1 - q) ?_ (by linarith)
      have : 2 ^ (shift + 7) ≤ 2 ^ 64 := Nat.pow_le_pow_right (by omega) (by omega)
      omega
    · -- the sign bit is bit 63 or above: nothing is left to extend
      have h64 : (2 : Int) ^ (shift + 7) = 2 ^ 64 * 2 ^ (shift + 7 - 64) := by
        rw [← pow_add]; congr 1; omega
      simp only [h7, Bool.true_and, decide_false, Bool.false_and, Bool.false_eq_true, if_false]
      exact eq_wrap64 hlt (q := 2 ^ (shift + 7 - 64) - q) (by linarith)
  · have hval : lastValue signed b = b := if_neg hneg
    have hnone : ¬ (signed && shift + 7 < 64 && b &&& 0x40 != 0) = true := by
      simp only [Bool.and_eq_true, bne_iff_ne, Ne, and_40_eq_zero hb]
      rintro ⟨⟨hsigned, -⟩, h40⟩; exact hneg ⟨hsigned, by omega⟩
    rw [if_neg hnone, hval]
    exact eq_wrap64 hlt (q := -q) (by linarith)

/-- Folding a continuation byte into the accumulator is the grammar's continuation step. -/
theorem accumulate_more {m : Int} (hb : 128 ≤ b) (hb' : b < 256) :
    ((result + 2 ^ shift * (b % 128) : Nat) : Int) + 2 ^ (shift + 7) * m =
      result + 2 ^ shift * (2 ^ 7 * m + (b - 2 ^ 7)) := by
  have : ((b % 128 : Nat) : Int) = b - 2 ^ 7 := by omega
  push_cast at this ⊢
  rw [this, pow_add]
  ring

/-! ## The loops

Both loops read a byte, add it at its place and go on while the continuation bit is set; they
differ in when the length and range checks are made. `LebLoop` is what they share. -/

/-- What one iteration of a LEB128 loop does on a cursor with bytes `rest` left. -/
structure LebLoop {σ : Type} (rest : σ → List UInt8) (advance : σ → Nat → σ) (signed : Bool) (N : Nat)
    (loop : Nat → Nat → Nat → EStateM Err σ Nat) : Prop where
  rest_advance : ∀ {r n}, rest (advance r n) = (rest r).drop n
  advance_advance : ∀ {r m n}, advance (advance r m) n = advance r (m + n)
  nil : ∀ {r r' left shift result v}, rest r = [] → ¬ (loop left shift result).run r = .ok v r'
  last : ∀ {r r' left shift result v} {b : UInt8} {bs}, rest r = b :: bs → b.toNat < 128 →
    shift < N → ((loop (left + 1) shift result).run r = .ok v r' ↔
      lebTerminalOk signed N (shift + 7) b.toNat = true ∧
      v = lebSignExtend signed (shift + 7) b.toNat
        (result ||| ((b.toNat &&& 0x7f) <<< shift) % 2 ^ 64) ∧ r' = advance r 1)
  more : ∀ {r left shift result} {b : UInt8} {bs}, rest r = b :: bs → 128 ≤ b.toNat → shift + 7 < N →
    (loop (left + 1) shift result).run r =
      (loop left (shift + 7) (result ||| ((b.toNat &&& 0x7f) <<< shift) % 2 ^ 64)).run (advance r 1)
  tooLong : ∀ {r r' shift result v} {b : UInt8} {bs}, rest r = b :: bs → 128 ≤ b.toNat → shift < N →
    N ≤ shift + 7 → ¬ (loop 1 shift result).run r = .ok v r'

variable {N : Nat}

/-- Such a loop accepts exactly what the grammar has at the bits left, and adds the encoded value at
its place. The induction is on the iterations left, which are `⌈(N - shift)/7⌉`. -/
theorem LebLoop.ok_iff {σ : Type} {rest : σ → List UInt8} {advance : σ → Nat → σ}
    {loop : Nat → Nat → Nat → EStateM Err σ Nat}
    (hl : LebLoop rest advance signed N loop) (hN : N ≤ 64) :
    ∀ (left shift result : Nat) (r r' : σ) (v : Nat), N ≤ shift + 7 * left →
      shift + 7 * left < N + 7 → shift < N → result < 2 ^ shift →
      ((loop left shift result).run r = .ok v r' ↔ ∃ z k,
        Starts (Encodes signed (N - shift)) (rest r) z k ∧ v = wrap64 (result + 2 ^ shift * z) ∧
        r' = advance r k)
  | 0, _, _, _, _, _, h1, _, hs, _ => by omega
  | left + 1, shift, result, r, r', v, h1, h2, hs, hr => by
    rcases hrest : rest r with _ | ⟨b, bs⟩
    · simp [hl.nil hrest, not_starts_nil]
    · have hb' := b.toNat_lt
      rcases Nat.lt_or_ge b.toNat 128 with hb | hb
      · rw [hl.last hrest hb hs, lebSignExtend_terminal hr (by omega) hb]
        simp only [starts_last hb, lebTerminalOk_iff hs hb]
        constructor
        · rintro ⟨hfit, hv, hr'⟩
          exact ⟨_, 1, ⟨hfit, rfl, rfl⟩, hv, hr'⟩
        · rintro ⟨z, k, ⟨hfit, rfl, rfl⟩, hv, hr'⟩
          exact ⟨hfit, hv, hr'⟩
      · simp only [starts_more hb]
        rcases Nat.lt_or_ge (shift + 7) N with hs7 | hs7
        · rw [hl.more hrest hb hs7, accumulate hr (by omega),
            hl.ok_iff hN left _ _ _ _ _ (by omega) (by omega) hs7 (accumulate_lt hr), Nat.sub_add_eq]
          simp only [hl.rest_advance, hrest, List.drop_succ_cons, List.drop_zero, hl.advance_advance,
            accumulate_more hb hb', Nat.add_comm 1]
          constructor
          · rintro ⟨m, k, hst, hv, hr'⟩
            exact ⟨_, _, ⟨by omega, m, k, hst, rfl, rfl⟩, hv, hr'⟩
          · rintro ⟨z, k, ⟨-, m, l, hst, rfl, rfl⟩, hv, hr'⟩
            exact ⟨m, l, hst, hv, hr'⟩
        · -- the last permitted byte still has its continuation bit set
          obtain rfl : left = 0 := by omega
          constructor
          · exact fun h => absurd h (hl.tooLong hrest hb hs hs7)
          · rintro ⟨z, k, ⟨h7, -⟩, -⟩; omega

/-- The read `m` succeeds exactly on the byte strings that start with an encoding in `G`, returns
the encoded value and advances by the encoding's length. -/
def Reads {σ α : Type} (rest : σ → List UInt8) (advance : σ → Nat → σ) (m : EStateM Err σ α)
    (G : List UInt8 → α → Prop) : Prop :=
  ∀ r r' v, m.run r = .ok v r' ↔ ∃ k, Starts G (rest r) v k ∧ r' = advance r k

variable {α : Type} {G : List UInt8 → α → Prop}

section

variable {σ β : Type} {rest : σ → List UInt8} {advance : σ → Nat → σ}

/-- The whole loop, from an empty accumulator, then a conversion of the accumulator. -/
theorem LebLoop.reads {loop : Nat → Nat → Nat → EStateM Err σ Nat}
    (hl : LebLoop rest advance signed N loop) (h0 : 0 < N) (hN : N ≤ 64) {f : Nat → α}
    (hG : ∀ bs w, G bs w ↔ ∃ z, Encodes signed N bs z ∧ w = f (wrap64 z)) :
    Reads rest advance (do return f (← loop ((N + 6) / 7) 0 0)) G := by
  intro r r' w
  have hok : ∀ v t, (loop ((N + 6) / 7) 0 0).run r = .ok v t ↔
      ∃ z k, Starts (Encodes signed N) (rest r) z k ∧ v = wrap64 z ∧ t = advance r k := by
    intro v t
    simpa using hl.ok_iff hN ((N + 6) / 7) 0 0 r t v (by omega) (by omega) h0 (by omega)
  simp only [Run.bind_ok, Run.pure_ok, hok, Starts, hG]
  constructor
  · rintro ⟨v, t, ⟨z, k, ⟨hk, hz⟩, rfl, rfl⟩, rfl, rfl⟩
    exact ⟨k, ⟨hk, z, hz, rfl⟩, rfl⟩
  · rintro ⟨k, ⟨hk, z, hz, rfl⟩, rfl⟩
    exact ⟨_, _, ⟨z, k, ⟨hk, hz⟩, rfl, rfl⟩, rfl, rfl⟩

/-- A one-byte fast path in front of a read keeps what is read, when it returns what the grammar
gives a terminal byte. -/
theorem Reads.fastPath {m slow : EStateM Err σ α} {c : Nat → α}
    (hslow : Reads rest advance slow G)
    (hone : ∀ b : UInt8, b.toNat < 128 → ∀ bs v k, Starts G (b :: bs) v k ↔ v = c b.toNat ∧ k = 1)
    (hfast : ∀ {r b bs}, rest r = b :: bs → b.toNat < 128 → m.run r = .ok (c b.toNat) (advance r 1))
    (hmore : ∀ {r b bs}, rest r = b :: bs → 128 ≤ b.toNat → m.run r = slow.run r)
    (hnil : ∀ {r}, rest r = [] → m.run r = slow.run r) : Reads rest advance m G := by
  intro r r' v
  rcases hr : rest r with _ | ⟨b, bs⟩
  · rw [hnil hr, hslow, hr]
  · rcases Nat.lt_or_ge b.toNat 128 with hb | hb
    · simp only [hfast hr hb, hone b hb, EStateM.Result.ok.injEq]
      constructor
      · rintro ⟨rfl, rfl⟩; exact ⟨1, ⟨rfl, rfl⟩, rfl⟩
      · rintro ⟨k, ⟨rfl, rfl⟩, rfl⟩; exact ⟨rfl, rfl⟩
    · rw [hmore hr hb, hslow, hr]

end

/-! ### The widths -/

theorem unsigned_iff (hN : N ≤ 64) {f : Nat → Nat} (hf : ∀ v < 2 ^ N, f v = v)
    (bs : List UInt8) (w : Nat) :
    Unsigned N bs w ↔ ∃ z, Encodes false N bs z ∧ w = f (wrap64 z) := by
  have h64 : 2 ^ N ≤ 2 ^ 64 := Nat.pow_le_pow_right (by omega) hN
  constructor
  · intro h
    have hlt := h.lt_two_pow
    exact ⟨w, ⟨w, rfl, h⟩, by rw [wrap64_natCast (by omega), hf w hlt]⟩
  · rintro ⟨_, ⟨v, rfl, h⟩, rfl⟩
    have hlt := h.lt_two_pow
    rwa [wrap64_natCast (by omega), hf v hlt]

theorem signed_iff {f : Nat → Int}
    (hf : ∀ z : Int, -2 ^ (N - 1) ≤ z → z < 2 ^ (N - 1) → f (wrap64 z) = z) (bs : List UInt8)
    (w : Int) : Signed N bs w ↔ ∃ z, Encodes true N bs z ∧ w = f (wrap64 z) := by
  constructor
  · intro h; exact ⟨w, h, (hf w h.range.1 h.range.2).symm⟩
  · rintro ⟨z, h, rfl⟩
    have hr := Signed.range h
    rwa [hf z hr.1 hr.2]

theorem starts_unsigned_one {b : UInt8} (hb : b.toNat < 128) (bs : List UInt8) (v k : Nat) :
    Starts (Unsigned 32) (b :: bs) v k ↔ v = b.toNat ∧ k = 1 := by
  rw [Unsigned.starts_cons]
  constructor
  · rintro (⟨-, -, hv, hk⟩ | ⟨hge, -⟩)
    · exact ⟨hv, hk⟩
    · omega
  · rintro ⟨hv, hk⟩; exact .inl ⟨hb, by omega, hv, hk⟩

theorem starts_signed_one {b : UInt8} (hb : b.toNat < 128) (bs : List UInt8) (v : Int) (k : Nat) :
    Starts (Signed 32) (b :: bs) v k ↔ v = oneByteInt32 b.toNat ∧ k = 1 := by
  have table : ∀ b < 128, oneByteInt32 b = lastValue true b := by decide +kernel
  rw [← starts_signed, starts_last hb, table _ hb]
  have hfit : LastFits true 32 b.toNat := by simp only [LastFits]; omega
  simp [hfit]

/-! ### The module reader -/

section

variable {signed : Bool} {N left shift result v : Nat} {r r' : Reader} {b : UInt8} {bs : List UInt8}

theorem lebLoop_nil (h : r.rest = []) : ¬ (lebLoop signed N left shift result).run r = .ok v r' := by
  cases left with
  | zero => simp [lebLoop]
  | succ left => rw [lebLoop, Run.bind_of_error (byte_nil h)]; simp

/-- A continuation byte within the width hands over to the next iteration. -/
theorem lebLoop_more (h : r.rest = b :: bs) (hb : 128 ≤ b.toNat) (hs : shift < N) (hN : N ≤ 64) :
    (lebLoop signed N (left + 1) shift result).run r =
      (lebLoop signed N left (shift + 7) (result ||| ((b.toNat &&& 0x7f) <<< shift) % 2 ^ 64)).run
        (r.advance 1) := by
  have hcont : ¬ b.toNat &&& 0x80 = 0 := by rw [and_80_eq_zero b.toNat_lt]; omega
  have hs64 : shift < 64 := by omega
  have h64 : ¬ (shift ≥ 64 ∧ b.toNat &&& 0x7f ≠ 0) := by omega
  have hmax : ¬ shift + 7 ≥ N + 7 := by omega
  rw [lebLoop, Run.bind_of_ok (byte_cons h)]
  simp only [h64, hs64, hcont, hmax, if_true, if_false]

theorem lebLoop_last (h : r.rest = b :: bs) (hb : b.toNat < 128) (hs : shift < 64) :
    (lebLoop signed N (left + 1) shift result).run r = .ok v r' ↔
      lebTerminalOk signed N (shift + 7) b.toNat = true ∧
      v = lebSignExtend signed (shift + 7) b.toNat
        (result ||| ((b.toNat &&& 0x7f) <<< shift) % 2 ^ 64) ∧ r' = r.advance 1 := by
  have hcont : b.toNat &&& 0x80 = 0 := by rw [and_80_eq_zero b.toNat_lt]; omega
  have h64 : ¬ (shift ≥ 64 ∧ b.toNat &&& 0x7f ≠ 0) := by omega
  rw [lebLoop, Run.bind_of_ok (byte_cons h)]
  simp only [h64, hs, hcont, if_true, if_false, Run.run_ite]
  split <;> simp [*, eq_comm]

end

theorem lebLoop_lebLoop (signed : Bool) (hN : N ≤ 64) :
    LebLoop Reader.rest Reader.advance signed N (lebLoop signed N) where
  rest_advance := Reader.rest_advance _ _
  advance_advance := Reader.advance_advance _ _ _
  nil := lebLoop_nil
  last h hb hs := lebLoop_last h hb (by omega)
  more h hb hs := lebLoop_more h hb (by omega) hN
  tooLong h hb hs _ := by rw [lebLoop_more h hb hs hN, lebLoop]; simp

theorem leb_reads (h0 : 0 < N) (hN : N ≤ 64) {f : Nat → α}
    (hG : ∀ bs w, G bs w ↔ ∃ z, Encodes signed N bs z ∧ w = f (wrap64 z)) :
    Reads Reader.rest Reader.advance (do return f (← leb signed N)) G :=
  (lebLoop_lebLoop signed hN).reads h0 hN hG

theorem u32_reads : Reads Reader.rest Reader.advance u32 (Unsigned 32) := by
  have hslow : Reads Reader.rest Reader.advance (do return (← leb false 32) % 2 ^ 32) (Unsigned 32) :=
    leb_reads (f := (· % 2 ^ 32)) (by omega) (by omega)
      (unsigned_iff (by omega) fun v hv => Nat.mod_eq_of_lt hv)
  refine hslow.fastPath (c := id) (fun b hb => starts_unsigned_one hb) ?_ ?_ ?_
  · intro r b bs h hb; simp [u32, Reader.rest_cons h, hb]
  · intro r b bs h hb
    have : ¬ b.toNat < 128 := by omega
    simp [u32, Reader.rest_cons h, this]
  · intro r h; simp [u32, Reader.rest_nil h]

theorem i32_reads : Reads Reader.rest Reader.advance i32 (Signed 32) := by
  have hslow : Reads Reader.rest Reader.advance (do return toInt32 (← leb true 32)) (Signed 32) :=
    leb_reads (by omega) (by omega) (signed_iff fun z => toInt32_wrap64)
  refine hslow.fastPath (fun b hb => starts_signed_one hb) ?_ ?_ ?_
  · intro r b bs h hb; simp [i32, Reader.rest_cons h, hb]
  · intro r b bs h hb
    have : ¬ b.toNat < 128 := by omega
    simp [i32, Reader.rest_cons h, this]
  · intro r h; simp [i32, Reader.rest_nil h]

theorem u64_reads : Reads Reader.rest Reader.advance u64 (Unsigned 64) := by
  have h : Reads Reader.rest Reader.advance (do return id (← leb false 64)) (Unsigned 64) :=
    leb_reads (by omega) (by omega) (unsigned_iff (by omega) fun v _ => rfl)
  simpa [u64] using h

theorem s33_reads : Reads Reader.rest Reader.advance s33 (Signed 33) :=
  leb_reads (by omega) (by omega) (signed_iff fun z hlo hhi =>
    toInt64_wrap64 (by norm_num at hlo ⊢; omega) (by norm_num at hhi ⊢; omega))

theorem i64_reads : Reads Reader.rest Reader.advance i64 (Signed 64) :=
  leb_reads (by omega) (by omega) (signed_iff fun z => toInt64_wrap64)

/-! ### The exported reader -/

namespace ExportReader

section

variable {signed : Bool} {N left shift result v : Nat} {r r' : ExportReader} {b : UInt8}
  {bs : List UInt8}

theorem leb128Loop_nil (h : r.rest = []) :
    ¬ (leb128Loop signed N left shift result).run r = .ok v r' := by
  cases left <;> rw [leb128Loop, Run.bind_of_error (byte_nil h)] <;> simp

theorem leb128Loop_more (h : r.rest = b :: bs) (hb : 128 ≤ b.toNat) (hs : shift + 7 < N) :
    (leb128Loop signed N (left + 1) shift result).run r =
      (leb128Loop signed N left (shift + 7) (result ||| ((b.toNat &&& 0x7f) <<< shift) % 2 ^ 64)).run
        (r.advance 1) := by
  have hcont : b.toNat &&& 0x80 ≠ 0 := by rw [Ne, and_80_eq_zero b.toNat_lt]; omega
  have hrange : leb128RangeOk signed N (shift + 7) b.toNat = true := if_neg (by omega)
  rw [leb128Loop, Run.bind_of_ok (byte_cons h)]
  simp only [hrange, if_true, if_pos hcont]

theorem leb128Loop_last (h : r.rest = b :: bs) (hb : b.toNat < 128) (hs : shift < N) :
    (leb128Loop signed N (left + 1) shift result).run r = .ok v r' ↔
      lebTerminalOk signed N (shift + 7) b.toNat = true ∧
      v = lebSignExtend signed (shift + 7) b.toNat
        (result ||| ((b.toNat &&& 0x7f) <<< shift) % 2 ^ 64) ∧ r' = r.advance 1 := by
  have hcont : ¬ b.toNat &&& 0x80 ≠ 0 := by rw [Ne, and_80_eq_zero b.toNat_lt]; omega
  rw [leb128Loop, Run.bind_of_ok (byte_cons h)]
  simp only [leb128RangeOk_terminal hs, if_neg hcont, Run.run_ite]
  split <;> simp [*, eq_comm]

/-- A last permitted byte with its continuation bit set fails, in the range check or one read later. -/
theorem leb128Loop_tooLong (h : r.rest = b :: bs) (hb : 128 ≤ b.toNat) :
    ¬ (leb128Loop signed N 1 shift result).run r = .ok v r' := by
  have hcont : b.toNat &&& 0x80 ≠ 0 := by rw [Ne, and_80_eq_zero b.toNat_lt]; omega
  rw [leb128Loop, Run.bind_of_ok (byte_cons h)]
  simp only [if_pos hcont, Run.run_ite]
  split
  · rw [leb128Loop, Run.bind_ok]; rintro ⟨_, _, -, hfail⟩; simp at hfail
  · simp

end

theorem lebLoop_leb128Loop (signed : Bool) (N : Nat) :
    LebLoop rest advance signed N (leb128Loop signed N) where
  rest_advance := rest_advance _ _
  advance_advance := advance_advance _ _ _
  nil := leb128Loop_nil
  last := leb128Loop_last
  more := leb128Loop_more
  tooLong h hb _ _ := leb128Loop_tooLong h hb

theorem leb128_reads (h0 : 0 < N) (hN : N ≤ 64) {f : Nat → α}
    (hG : ∀ bs w, G bs w ↔ ∃ z, Encodes signed N bs z ∧ w = f (wrap64 z)) :
    Reads rest advance (do return f (← leb128 signed N)) G :=
  (lebLoop_leb128Loop signed N).reads h0 hN hG

theorem u32_reads : Reads rest advance u32 (Unsigned 32) := by
  have hslow : Reads rest advance (do return (← leb128 false 32) % 2 ^ 32) (Unsigned 32) :=
    leb128_reads (f := (· % 2 ^ 32)) (by omega) (by omega)
      (unsigned_iff (by omega) fun v hv => Nat.mod_eq_of_lt hv)
  refine hslow.fastPath (c := id) (fun b hb => starts_unsigned_one hb) ?_ ?_ ?_
  · intro r b bs h hb; simp [u32, rest_cons h, hb]
  · intro r b bs h hb
    have : ¬ b.toNat < 128 := by omega
    simp [u32, rest_cons h, this]
  · intro r h; simp [u32, rest_nil h]

theorem i32_reads : Reads rest advance i32 (Signed 32) := by
  have hslow : Reads rest advance (do return toInt32 (← leb128 true 32)) (Signed 32) :=
    leb128_reads (by omega) (by omega) (signed_iff fun z => toInt32_wrap64)
  refine hslow.fastPath (fun b hb => starts_signed_one hb) ?_ ?_ ?_
  · intro r b bs h hb; simp [i32, rest_cons h, hb]
  · intro r b bs h hb
    have : ¬ b.toNat < 128 := by omega
    simp [i32, rest_cons h, this]
  · intro r h; simp [i32, rest_nil h]

theorem u64_reads : Reads rest advance u64 (Unsigned 64) := by
  have h : Reads rest advance (do return id (← leb128 false 64)) (Unsigned 64) :=
    leb128_reads (by omega) (by omega) (unsigned_iff (by omega) fun v _ => rfl)
  simpa [u64] using h

theorem s33_reads : Reads rest advance s33 (Signed 33) :=
  leb128_reads (by omega) (by omega) (signed_iff fun z hlo hhi =>
    toInt64_wrap64 (by norm_num at hlo ⊢; omega) (by norm_num at hhi ⊢; omega))

theorem i64_reads : Reads rest advance i64 (Signed 64) :=
  leb128_reads (by omega) (by omega) (signed_iff fun z => toInt64_wrap64)

end ExportReader

/-! ## The encoders -/

theorem toNat_toUInt8_of_lt {b : Nat} (h : b < 128) : b.toUInt8.toNat = b := by
  simp; omega

theorem toNat_or_80 {b : Nat} (h : b < 128) : (b ||| 0x80).toUInt8.toNat = b + 2 ^ 7 := by
  have table : ∀ b < 128, (b ||| 0x80).toUInt8.toNat = b + 2 ^ 7 := by decide +kernel
  exact table b h

theorem appendU32Loop_spec : ∀ (left N : Nat) (out : List UInt8) {v : Nat}, v < 2 ^ N → N ≤ 7 * left →
    0 < N → ∃ enc, appendU32Loop left out v = out ++ enc ∧ Unsigned N enc v
  | 0, N, _, _, _, hl, h0 => by omega
  | left + 1, N, out, v, hv, hl, h0 => by
    simp only [appendU32Loop, and_7f, Nat.shiftRight_eq_div_pow]
    have hb : v % 128 < 128 := Nat.mod_lt _ (by omega)
    by_cases hv0 : v / 2 ^ 7 = 0
    · rw [if_neg (by simpa using hv0)]
      have hbv : (v % 128).toUInt8.toNat = v := by rw [toNat_toUInt8_of_lt hb]; omega
      refine ⟨[(v % 128).toUInt8], rfl, ?_⟩
      have h := Unsigned.last (N := N) (b := (v % 128).toUInt8) (by omega) (by omega)
      rwa [hbv] at h
    · have hN : 7 < N := by
        by_contra hN
        have : 2 ^ N ≤ 2 ^ 7 := Nat.pow_le_pow_right (by omega) (by omega)
        omega
      rw [if_pos hv0]
      have hlt : v / 2 ^ 7 < 2 ^ (N - 7) := by
        rw [two_pow_split hN] at hv
        exact Nat.div_lt_of_lt_mul hv
      obtain ⟨enc, henc, hu⟩ :=
        appendU32Loop_spec left (N - 7) (out ++ [(v % 128 ||| 0x80).toUInt8]) hlt (by omega) (by omega)
      refine ⟨(v % 128 ||| 0x80).toUInt8 :: enc, by rw [henc, List.append_assoc]; rfl, ?_⟩
      have h := Unsigned.more (b := (v % 128 ||| 0x80).toUInt8) (by rw [toNat_or_80 hb]; omega) hN hu
      rwa [toNat_or_80 hb, Nat.add_sub_cancel, show 2 ^ 7 * (v / 2 ^ 7) + v % 128 = v by omega] at h

/-- The loop stops exactly when the seven bits written sign-extend to the whole value. -/
theorem appendS64Loop_spec : ∀ (left N : Nat) (out : List UInt8) {v : Int}, -2 ^ (N - 1) ≤ v →
    v < 2 ^ (N - 1) → N ≤ 7 * left → 0 < N →
    ∃ enc, appendS64Loop left out v = out ++ enc ∧ Signed N enc v
  | 0, N, _, _, _, _, hl, h0 => by omega
  | left + 1, N, out, v, hlo, hhi, hl, h0 => by
    have hb : (v % 128).toNat < 128 := by omega
    have hshift : v >>> (7 : Nat) = v / 128 := Int.shiftRight_eq_div_pow v 7
    simp only [appendS64Loop, hshift]
    have h40 := and_40_eq_zero hb
    have hval : ((v % 128).toNat : Int) = v % 128 := by omega
    generalize hbv : (v % 128).toNat = b at *
    have hmore : (!((v / 128 == 0 && !(b &&& 0x40 != 0)) || (v / 128 == -1 && b &&& 0x40 != 0))) =
        decide (¬ (v / 128 = 0 ∧ b < 64 ∨ v / 128 = -1 ∧ 64 ≤ b)) := by
      have hsign : (b &&& 0x40 != 0) = decide (64 ≤ b) := by
        rw [Bool.eq_iff_iff, bne_iff_ne, Ne, h40, decide_eq_true_eq]; omega
      rw [hsign, Bool.eq_iff_iff]
      simp
    rw [hmore]
    by_cases hstop : v / 128 = 0 ∧ b < 64 ∨ v / 128 = -1 ∧ 64 ≤ b
    · rw [if_neg (by rw [decide_eq_true_eq]; exact not_not_intro hstop)]
      refine ⟨[b.toUInt8], rfl, ?_⟩
      have hb8 := toNat_toUInt8_of_lt hb
      obtain ⟨hq, h6⟩ | ⟨hq, h6⟩ := hstop
      · have hv : v = b := by omega
        have h := Signed.pos (N := N) (b := b.toUInt8) (by omega)
          (by rw [hb8]; rw [hv] at hhi; exact_mod_cast hhi)
        rwa [hb8, ← hv] at h
      · have hv : v = b - 2 ^ 7 := by omega
        have h := Signed.neg (N := N) (b := b.toUInt8) (by omega) (by omega)
          (by rw [hb8]; zify; rw [hv] at hlo; linarith)
        rwa [hb8, ← hv] at h
    · have hN : 7 < N := by
        by_contra hN
        have : (2 : Int) ^ (N - 1) ≤ 2 ^ 6 := pow_le_pow_right₀ (by omega) (by omega)
        omega
      have hs : (2 : Int) ^ (N - 1) = 128 * 2 ^ (N - 7 - 1) := by
        rw [show (128 : Int) = 2 ^ 7 by norm_num, ← pow_add]; congr 1; omega
      rw [if_pos (by rw [decide_eq_true_eq]; exact hstop)]
      obtain ⟨enc, henc, hu⟩ := appendS64Loop_spec left (N - 7) (out ++ [(b ||| 0x80).toUInt8])
        (v := v / 128) (by omega) (by omega) (by omega) (by omega)
      refine ⟨(b ||| 0x80).toUInt8 :: enc, by rw [henc, List.append_assoc]; rfl, ?_⟩
      have h := Signed.more (b := (b ||| 0x80).toUInt8) (by rw [toNat_or_80 hb]; omega) hN hu
      rwa [toNat_or_80 hb, show (2 : Int) ^ 7 * (v / 128) + (((b + 2 ^ 7 : Nat) : Int) - 2 ^ 7) = v by
        push_cast; omega] at h

/-! ## Main result -/

/-- One integer type of the format: both readers accept exactly the encodings in `G`, these are
between one and `maxLen` bytes long, and the readers agree. -/
structure LebType {α : Type} (module : ReadM α) (exported : ExportReadM α)
    (G : List UInt8 → α → Prop) (maxLen : Nat) : Prop where
  module_reads : Reads Reader.rest Reader.advance module G
  exported_reads : Reads ExportReader.rest ExportReader.advance exported G
  length : ∀ bs v, G bs v → 0 < bs.length ∧ bs.length ≤ maxLen
  agree : ∀ data pos budget v pos',
    module.run ⟨data, pos, budget⟩ = .ok v ⟨data, pos', budget⟩ ↔
      exported.run ⟨data, pos⟩ = .ok v ⟨data, pos'⟩

theorem LebType.of_reads {module : ReadM α} {exported : ExportReadM α}
    {maxLen : Nat} (hm : Reads Reader.rest Reader.advance module G)
    (he : Reads ExportReader.rest ExportReader.advance exported G)
    (hl : ∀ bs v, G bs v → 0 < bs.length ∧ bs.length ≤ maxLen) :
    LebType module exported G maxLen where
  module_reads := hm
  exported_reads := he
  length := hl
  agree data pos budget v pos' := by
    rw [hm, he]
    simp [Reader.rest, ExportReader.rest, Reader.advance, ExportReader.advance]

/-- Reading at the end of `out` what an encoder appended to it. -/
theorem LebType.read_appended {module : ReadM α} {exported : ExportReadM α}
    {maxLen : Nat} (h : LebType module exported G maxLen)
    {out appended : List UInt8} {v : α} (happ : ∃ enc, appended = out ++ enc ∧ G enc v)
    (suffix : List UInt8) (budget : Option DecodeBudget) :
    module.run ⟨appended ++ suffix, out.length, budget⟩ =
        .ok v ⟨appended ++ suffix, appended.length, budget⟩ ∧
      exported.run ⟨appended ++ suffix, out.length⟩ = .ok v ⟨appended ++ suffix, appended.length⟩ := by
  obtain ⟨enc, rfl, henc⟩ := happ
  have hm : module.run ⟨out ++ enc ++ suffix, out.length, budget⟩ =
      .ok v ⟨out ++ enc ++ suffix, (out ++ enc).length, budget⟩ := by
    rw [h.module_reads]
    refine ⟨enc.length, ?_, by simp [Reader.advance]⟩
    simp only [Reader.rest, List.append_assoc, List.drop_left]
    exact ⟨by simp, by rwa [List.take_left]⟩
  exact ⟨hm, (h.agree ..).1 hm⟩

theorem lebType_unsigned {module : ReadM Nat} {exported : ExportReadM Nat} (h0 : 0 < N)
    (hm : Reads Reader.rest Reader.advance module (Unsigned N))
    (he : Reads ExportReader.rest ExportReader.advance exported (Unsigned N)) :
    LebType module exported (Unsigned N) ((N + 6) / 7) :=
  .of_reads hm he fun _ _ h => ⟨List.length_pos_iff.2 h.ne_nil, h.length_le h0⟩

theorem lebType_signed {module : ReadM Int} {exported : ExportReadM Int} (h0 : 0 < N)
    (hm : Reads Reader.rest Reader.advance module (Signed N))
    (he : Reads ExportReader.rest ExportReader.advance exported (Signed N)) :
    LebType module exported (Signed N) ((N + 6) / 7) :=
  .of_reads hm he fun _ _ h => ⟨List.length_pos_iff.2 h.ne_nil, h.length_le h0⟩

/-- Both readers read exactly the encodings of each integer type, and read back what the encoders
write, whatever stands before and behind it. -/
theorem leb128_readers_encoders :
    LebType u32 ExportReader.u32 (Unsigned 32) 5 ∧
    LebType i32 ExportReader.i32 (Signed 32) 5 ∧
    LebType s33 ExportReader.s33 (Signed 33) 5 ∧
    LebType u64 ExportReader.u64 (Unsigned 64) 10 ∧
    LebType i64 ExportReader.i64 (Signed 64) 10 ∧
    (∀ (v : UInt32) (out suffix : List UInt8) (budget : Option DecodeBudget),
      u32.run ⟨appendU32 out v.toNat ++ suffix, out.length, budget⟩ =
          .ok v.toNat ⟨appendU32 out v.toNat ++ suffix, (appendU32 out v.toNat).length, budget⟩ ∧
        ExportReader.u32.run ⟨appendU32 out v.toNat ++ suffix, out.length⟩ =
          .ok v.toNat ⟨appendU32 out v.toNat ++ suffix, (appendU32 out v.toNat).length⟩) ∧
    (∀ (z : Int64) (out suffix : List UInt8) (budget : Option DecodeBudget),
      i64.run ⟨appendS64 out z.toInt ++ suffix, out.length, budget⟩ =
          .ok z.toInt ⟨appendS64 out z.toInt ++ suffix, (appendS64 out z.toInt).length, budget⟩ ∧
        ExportReader.i64.run ⟨appendS64 out z.toInt ++ suffix, out.length⟩ =
          .ok z.toInt ⟨appendS64 out z.toInt ++ suffix, (appendS64 out z.toInt).length⟩) := by
  have hu32 := lebType_unsigned (by omega) u32_reads ExportReader.u32_reads
  have hs64 := lebType_signed (by omega) i64_reads ExportReader.i64_reads
  refine ⟨hu32, lebType_signed (by omega) i32_reads ExportReader.i32_reads,
    lebType_signed (by omega) s33_reads ExportReader.s33_reads,
    lebType_unsigned (by omega) u64_reads ExportReader.u64_reads, hs64, ?_, ?_⟩
  · intro v out
    exact hu32.read_appended (appendU32Loop_spec 5 32 out v.toNat_lt (by omega) (by omega))
  · intro z out
    exact hs64.read_appended (appendS64Loop_spec 10 64 out z.le_toInt z.toInt_lt (by omega) (by omega))

end Wago.Wasm
