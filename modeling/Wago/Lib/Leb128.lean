/-
The LEB128 integer grammar of the WebAssembly binary format, as relations between a width, a byte
string and the integer it encodes. Proven here: encodings are nonempty and at most `⌈N/7⌉` bytes
long, values lie in the range of the width, and what the first byte of an encoding says about the
rest. At the end, words of any self-delimiting code: `Agree x y c` says that the words `x` and `y`,
whatever follows them, can only be told equal when `c` holds; it is closed under concatenation, so the
injectivity of a serialiser is proved part by part.
-/
import Mathlib.Algebra.Order.Ring.Int
import Mathlib.Data.List.Basic
import Mathlib.Tactic.Linarith
import Mathlib.Tactic.Ring

namespace Leb128

/-- `Unsigned N bs v`: the byte string `bs` is an encoding of `v` at width `N`. -/
inductive Unsigned : Nat → List UInt8 → Nat → Prop
  | last {N : Nat} {b : UInt8} (h7 : b.toNat < 2 ^ 7) (hN : b.toNat < 2 ^ N) : Unsigned N [b] b.toNat
  | more {N : Nat} {b : UInt8} {bs : List UInt8} {m : Nat} (h7 : 2 ^ 7 ≤ b.toNat) (hN : 7 < N)
      (h : Unsigned (N - 7) bs m) : Unsigned N (b :: bs) (2 ^ 7 * m + (b.toNat - 2 ^ 7))

/-- `Signed N bs z`: the byte string `bs` is a two's complement encoding of `z` at width `N`. -/
inductive Signed : Nat → List UInt8 → Int → Prop
  | pos {N : Nat} {b : UInt8} (h6 : b.toNat < 2 ^ 6) (hN : b.toNat < 2 ^ (N - 1)) :
      Signed N [b] b.toNat
  | neg {N : Nat} {b : UInt8} (h6 : 2 ^ 6 ≤ b.toNat) (h7 : b.toNat < 2 ^ 7)
      (hN : 2 ^ 7 ≤ b.toNat + 2 ^ (N - 1)) : Signed N [b] (b.toNat - 2 ^ 7)
  | more {N : Nat} {b : UInt8} {bs : List UInt8} {m : Int} (h7 : 2 ^ 7 ≤ b.toNat) (hN : 7 < N)
      (h : Signed (N - 7) bs m) : Signed N (b :: bs) (2 ^ 7 * m + (b.toNat - 2 ^ 7))

/-- The first `k` bytes of `bs` encode `v` in the encoding relation `G`. -/
def Starts {α : Type} (G : List UInt8 → α → Prop) (bs : List UInt8) (v : α) (k : Nat) : Prop :=
  k ≤ bs.length ∧ G (bs.take k) v

variable {bs : List UInt8} {b : UInt8}

theorem eq_zero_of_take {k : Nat} (hk : k + 1 ≤ (b :: bs).length)
    (h : bs.take k = []) : k = 0 := by
  rcases List.take_eq_nil_iff.1 h with h | rfl
  · exact h
  · simpa using hk

theorem two_pow_split {N : Nat} (h : 7 < N) : (2 : Nat) ^ N = 2 ^ 7 * 2 ^ (N - 7) := by
  rw [← Nat.pow_add]; congr 1; omega

namespace Unsigned

theorem ne_nil {N v bs} (h : Unsigned N bs v) : bs ≠ [] := by cases h <;> simp

theorem length_le : ∀ {N v bs}, 0 < N → Unsigned N bs v → bs.length ≤ (N + 6) / 7
  | N, _, _, hN, .last _ _ => by simp; omega
  | N, _, _, _, .more _ h7 h => by
    have := length_le (by omega) h
    simp only [List.length_cons]; omega

theorem lt_two_pow : ∀ {N v bs}, Unsigned N bs v → v < 2 ^ N
  | _, _, _, .last _ hN => hN
  | N, _, _, .more (b := b) (m := m) _ hN h => by
    have hm := lt_two_pow h
    have hb := b.toNat_lt
    rw [two_pow_split hN]
    omega

theorem starts_cons {N v k} :
    Starts (Unsigned N) (b :: bs) v k ↔
      (b.toNat < 2 ^ 7 ∧ b.toNat < 2 ^ N ∧ v = b.toNat ∧ k = 1) ∨
      (2 ^ 7 ≤ b.toNat ∧ 7 < N ∧ ∃ m l, Starts (Unsigned (N - 7)) bs m l ∧
        v = 2 ^ 7 * m + (b.toNat - 2 ^ 7) ∧ k = l + 1) := by
  constructor
  · rintro ⟨hk, h⟩
    rcases k with _ | k
    · exact absurd rfl h.ne_nil
    · rw [List.take_succ_cons] at h
      generalize hcs : bs.take k = cs at h
      cases h with
      | last h7 hN => exact .inl ⟨h7, hN, rfl, by rw [eq_zero_of_take hk hcs]⟩
      | more h7 hN h => exact .inr ⟨h7, hN, _, k, ⟨by simpa using hk, hcs ▸ h⟩, rfl, rfl⟩
  · rintro (⟨h7, hN, rfl, rfl⟩ | ⟨h7, hN, m, l, ⟨hl, h⟩, hv, rfl⟩)
    · exact ⟨by simp, .last h7 hN⟩
    · refine ⟨by simpa using hl, ?_⟩
      rw [List.take_succ_cons, hv]
      exact Unsigned.more h7 hN h

end Unsigned

namespace Signed

theorem ne_nil {N z bs} (h : Signed N bs z) : bs ≠ [] := by cases h <;> simp

theorem length_le : ∀ {N z bs}, 0 < N → Signed N bs z → bs.length ≤ (N + 6) / 7
  | N, _, _, hN, .pos _ _ => by simp; omega
  | N, _, _, hN, .neg _ _ _ => by simp; omega
  | N, _, _, _, .more _ h7 h => by
    have := length_le (by omega) h
    simp only [List.length_cons]; omega

theorem range : ∀ {N z bs}, Signed N bs z → -2 ^ (N - 1) ≤ z ∧ z < 2 ^ (N - 1)
  | N, _, _, .pos (b := b) _ hN => by
    have : (b.toNat : Int) < 2 ^ (N - 1) := by exact_mod_cast hN
    constructor <;> omega
  | N, _, _, .neg (b := b) _ h7 hN => by
    have : (2 : Int) ^ 7 ≤ b.toNat + 2 ^ (N - 1) := by exact_mod_cast hN
    constructor <;> omega
  | N, _, _, .more (b := b) (m := m) h7 hN h => by
    obtain ⟨hlo, hhi⟩ := range h
    have hb := b.toNat_lt
    have hs : (2 : Int) ^ (N - 1) = 2 ^ 7 * 2 ^ (N - 7 - 1) := by
      rw [← pow_add]; congr 1; omega
    constructor <;> omega

theorem starts_cons {N z k} :
    Starts (Signed N) (b :: bs) z k ↔
      (b.toNat < 2 ^ 6 ∧ b.toNat < 2 ^ (N - 1) ∧ z = b.toNat ∧ k = 1) ∨
      (2 ^ 6 ≤ b.toNat ∧ b.toNat < 2 ^ 7 ∧ 2 ^ 7 ≤ b.toNat + 2 ^ (N - 1) ∧
        z = b.toNat - 2 ^ 7 ∧ k = 1) ∨
      (2 ^ 7 ≤ b.toNat ∧ 7 < N ∧ ∃ m l, Starts (Signed (N - 7)) bs m l ∧
        z = 2 ^ 7 * m + (b.toNat - 2 ^ 7) ∧ k = l + 1) := by
  constructor
  · rintro ⟨hk, h⟩
    rcases k with _ | k
    · exact absurd rfl h.ne_nil
    · rw [List.take_succ_cons] at h
      generalize hcs : bs.take k = cs at h
      cases h with
      | pos h6 hN => exact .inl ⟨h6, hN, rfl, by rw [eq_zero_of_take hk hcs]⟩
      | neg h6 h7 hN => exact .inr (.inl ⟨h6, h7, hN, rfl, by rw [eq_zero_of_take hk hcs]⟩)
      | more h7 hN h => exact .inr (.inr ⟨h7, hN, _, k, ⟨by simpa using hk, hcs ▸ h⟩, rfl, rfl⟩)
  · rintro (⟨h6, hN, rfl, rfl⟩ | ⟨h6, h7, hN, rfl, rfl⟩ | ⟨h7, hN, m, l, ⟨hl, h⟩, rfl, rfl⟩)
    · exact ⟨by simp, .pos h6 hN⟩
    · exact ⟨by simp, .neg h6 h7 hN⟩
    · refine ⟨by simpa using hl, ?_⟩
      rw [List.take_succ_cons]
      exact Signed.more h7 hN h

end Signed

/-! ## Both signs at once -/

/-- `Unsigned` and `Signed` as one relation, with the sign as a parameter. -/
def Encodes (signed : Bool) (N : Nat) (bs : List UInt8) (z : Int) : Prop :=
  match signed with
  | false => ∃ v : Nat, z = v ∧ Unsigned N bs v
  | true => Signed N bs z

/-- What the grammar asks of a terminal byte when `N` bits are left. -/
def LastFits (signed : Bool) (N b : Nat) : Prop :=
  match signed with
  | false => b < 2 ^ N
  | true => b < 64 ∧ b < 2 ^ (N - 1) ∨ 64 ≤ b ∧ 128 ≤ b + 2 ^ (N - 1)

/-- The value of a terminal byte at its place. -/
def lastValue (signed : Bool) (b : Nat) : Int :=
  if signed ∧ 64 ≤ b then b - 128 else b

theorem not_starts_nil {signed N z k} : ¬ Starts (Encodes signed N) [] z k := by
  rintro ⟨-, h⟩
  cases signed with
  | false => obtain ⟨v, -, h⟩ := h; exact h.ne_nil (by simp)
  | true => exact Signed.ne_nil h (by simp)

theorem starts_unsigned {N k} {z : Int} :
    Starts (Encodes false N) bs z k ↔ ∃ v : Nat, z = v ∧ Starts (Unsigned N) bs v k := by
  simp only [Starts, Encodes]
  exact ⟨fun ⟨hk, v, hz, h⟩ => ⟨v, hz, hk, h⟩, fun ⟨v, hz, hk, h⟩ => ⟨hk, v, hz, h⟩⟩

theorem starts_signed {N k} {z : Int} :
    Starts (Encodes true N) bs z k ↔ Starts (Signed N) bs z k := Iff.rfl

/-- A terminal byte is the whole encoding. -/
theorem starts_last {signed N z k} (hb : b.toNat < 128) :
    Starts (Encodes signed N) (b :: bs) z k ↔
      LastFits signed N b.toNat ∧ z = lastValue signed b.toNat ∧ k = 1 := by
  cases signed with
  | false =>
    simp only [starts_unsigned, Unsigned.starts_cons, LastFits, lastValue, Bool.false_eq_true,
      false_and, if_false]
    constructor
    · rintro ⟨v, rfl, ⟨-, hN, rfl, rfl⟩ | ⟨hge, -⟩⟩
      · exact ⟨hN, rfl, rfl⟩
      · omega
    · rintro ⟨hN, rfl, rfl⟩
      exact ⟨_, rfl, .inl ⟨hb, hN, rfl, rfl⟩⟩
  | true =>
    simp only [starts_signed, Signed.starts_cons, LastFits, lastValue, true_and]
    constructor
    · rintro (⟨h6, hN, rfl, rfl⟩ | ⟨h6, h7, hN, rfl, rfl⟩ | ⟨hge, -⟩)
      · exact ⟨.inl ⟨h6, hN⟩, by rw [if_neg (by omega)], rfl⟩
      · exact ⟨.inr ⟨h6, hN⟩, by rw [if_pos (by omega)]; rfl, rfl⟩
      · omega
    · rintro ⟨⟨h6, hN⟩ | ⟨h6, hN⟩, rfl, rfl⟩
      · exact .inl ⟨h6, hN, by rw [if_neg (by omega)], rfl⟩
      · exact .inr (.inl ⟨h6, hb, hN, by rw [if_pos h6]; rfl, rfl⟩)

/-- A continuation byte asks for an encoding of the remaining bits behind it. -/
theorem starts_more {signed N z k} (hb : 128 ≤ b.toNat) :
    Starts (Encodes signed N) (b :: bs) z k ↔
      7 < N ∧ ∃ m l, Starts (Encodes signed (N - 7)) bs m l ∧
        z = 2 ^ 7 * m + (b.toNat - 2 ^ 7) ∧ k = l + 1 := by
  cases signed with
  | false =>
    simp only [starts_unsigned, Unsigned.starts_cons]
    constructor
    · rintro ⟨v, hz, ⟨hlt, -⟩ | ⟨-, hN, m, l, hst, hv, rfl⟩⟩
      · omega
      · exact ⟨hN, m, l, ⟨m, rfl, hst⟩, by omega, rfl⟩
    · rintro ⟨hN, m, l, ⟨v, rfl, hst⟩, hz, rfl⟩
      exact ⟨2 ^ 7 * v + (b.toNat - 2 ^ 7), by omega, .inr ⟨hb, hN, v, l, hst, rfl, rfl⟩⟩
  | true =>
    simp only [starts_signed, Signed.starts_cons]
    constructor
    · rintro (⟨hlt, -⟩ | ⟨-, hlt, -⟩ | ⟨-, hN, m, l, hst, hz, rfl⟩)
      · omega
      · omega
      · exact ⟨hN, m, l, hst, hz, rfl⟩
    · rintro ⟨hN, m, l, hst, hz, rfl⟩
      exact .inr (.inr ⟨hb, hN, m, l, hst, hz, rfl⟩)

end Leb128

namespace PrefixCode

variable {α : Type} {x y x' y' : List α} {c c' : Prop}

def Agree (x y : List α) (c : Prop) : Prop := ∀ r r', x ++ r = y ++ r' ↔ c ∧ r = r'

theorem Agree.eq_iff (h : Agree x y c) : x = y ↔ c := by
  have := h [] []
  simpa using this

theorem Agree.congr (h : Agree x y c) (hc : c ↔ c') : Agree x y c' := fun r r' => by rw [h r r', hc]

theorem agree_nil : Agree ([] : List α) [] True := fun r r' => by simp

theorem agree_of_length (h : x.length = y.length) : Agree x y (x = y) := fun r r' =>
  ⟨fun he => List.append_inj he h, fun ⟨hx, hr⟩ => by rw [hx, hr]⟩

theorem agree_single (a b : α) : Agree [a] [b] (a = b) := fun r r' => by simp

/-- Words that differ in the first letter. -/
theorem agree_mismatch {a b : α} (h : a ≠ b) : Agree (a :: x) (b :: y) False := fun r r' => by simp [h]

/-- The second part has to agree only where the first does. -/
theorem Agree.append_of (h : Agree x y c) (h' : c → Agree x' y' c') :
    Agree (x ++ x') (y ++ y') (c ∧ c') := fun r r' => by
  rw [List.append_assoc, List.append_assoc, h, and_assoc]
  exact and_congr_right fun hc => h' hc r r'

theorem Agree.append (h : Agree x y c) (h' : Agree x' y' c') : Agree (x ++ x') (y ++ y') (c ∧ c') :=
  h.append_of fun _ => h'

theorem Agree.cons (a : α) (h : Agree x y c) : Agree (a :: x) (a :: y) c := fun r r' => by
  rw [List.cons_append, List.cons_append, List.cons_inj_right]
  exact h r r'

/-- Lists of words of one length, compared through images of what they encode. -/
theorem agree_flatMap {β γ δ : Type} {f : β → List α} {g : γ → List α} {p : β → δ} {q : γ → δ} :
    ∀ {bs : List β} {cs : List γ}, bs.length = cs.length →
      (∀ b ∈ bs, ∀ c ∈ cs, Agree (f b) (g c) (p b = q c)) →
      Agree (bs.flatMap f) (cs.flatMap g) (bs.map p = cs.map q)
  | [], [], _, _ => agree_nil.congr (by simp)
  | b :: bs, c :: cs, hlen, h => by
    have hhead := h b (by simp) c (by simp)
    have htail : Agree (bs.flatMap f) (cs.flatMap g) (bs.map p = cs.map q) :=
      agree_flatMap (by simpa using hlen) fun b' hb c' hc => h b' (by simp [hb]) c' (by simp [hc])
    rw [List.flatMap_cons, List.flatMap_cons]
    exact (hhead.append htail).congr (by simp)

end PrefixCode
