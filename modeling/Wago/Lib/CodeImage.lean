/-
Machine code as bytes: little-endian 32-bit words at byte offsets of an image, and the same words
fetched from an address space the image is loaded into. At the end, a byte-addressed memory that is
read and written by such words.
-/
import Mathlib.Algebra.Order.Ring.Int
import Mathlib.Data.BitVec
import Mathlib.Tactic.Common

namespace Wago.CodeImage

/-! ## Fields of a word -/

theorem append_toNat {m n : Nat} (x : BitVec m) (y : BitVec n) :
    (x ++ y).toNat = x.toNat * 2 ^ n + y.toNat := by
  rw [BitVec.toNat_append, ← Nat.shiftLeft_add_eq_or_of_lt y.isLt, Nat.shiftLeft_eq]

/-- A field above the bits that are in use is added to them. -/
theorem or_shiftLeft_eq_add {x k : Nat} (h : x < 2 ^ k) (y : Nat) :
    x ||| y <<< k = x + y * 2 ^ k := by
  rw [Nat.or_comm, ← Nat.shiftLeft_add_eq_or_of_lt h, Nat.shiftLeft_eq, Nat.add_comm]

/-- A field below the bits that are in use. -/
theorem or_eq_add_of_mod {a b k : Nat} (ha : a % 2 ^ k = 0) (hb : b < 2 ^ k) : a ||| b = a + b := by
  obtain ⟨m, rfl⟩ := Nat.dvd_of_mod_eq_zero ha
  rw [Nat.two_pow_add_eq_or_of_lt hb]

/-! ## Words of an image -/

/-- The bytes of a word, in memory order. -/
def wordBytes (w : BitVec 32) : List (BitVec 8) :=
  [w.extractLsb' 0 8, w.extractLsb' 8 8, w.extractLsb' 16 8, w.extractLsb' 24 8]

def joinBytes (b0 b1 b2 b3 : BitVec 8) : BitVec 32 := b3 ++ b2 ++ b1 ++ b0

/-- The word at a byte offset; bytes past the end read as zero. -/
def wordAt (code : List (BitVec 8)) (pos : Nat) : BitVec 32 :=
  joinBytes (code.getD pos 0) (code.getD (pos + 1) 0) (code.getD (pos + 2) 0) (code.getD (pos + 3) 0)

def putWord (code : List (BitVec 8)) (pos : Nat) (w : BitVec 32) : List (BitVec 8) :=
  (((code.set pos (w.extractLsb' 0 8)).set (pos + 1) (w.extractLsb' 8 8)).set (pos + 2)
    (w.extractLsb' 16 8)).set (pos + 3) (w.extractLsb' 24 8)

theorem joinBytes_extract (w : BitVec 32) :
    joinBytes (w.extractLsb' 0 8) (w.extractLsb' 8 8) (w.extractLsb' 16 8) (w.extractLsb' 24 8) = w := by
  apply BitVec.eq_of_toNat_eq
  have hw := w.isLt
  simp only [joinBytes, append_toNat, BitVec.extractLsb'_toNat, Nat.shiftRight_eq_div_pow]
  omega

@[simp] theorem wordBytes_length (w : BitVec 32) : (wordBytes w).length = 4 := rfl

@[simp] theorem putWord_length (code : List (BitVec 8)) (pos : Nat) (w : BitVec 32) :
    (putWord code pos w).length = code.length := by
  simp [putWord]

theorem putWord_getElem? (code : List (BitVec 8)) (pos : Nat) (w : BitVec 32) {i : Nat}
    (h : i < pos ∨ pos + 4 ≤ i) : (putWord code pos w)[i]? = code[i]? := by
  rw [putWord, List.getElem?_set_ne (by omega), List.getElem?_set_ne (by omega),
    List.getElem?_set_ne (by omega), List.getElem?_set_ne (by omega)]

theorem wordAt_congr {code code' : List (BitVec 8)} {pos pos' : Nat}
    (h : ∀ i < 4, code[pos + i]? = code'[pos' + i]?) : wordAt code pos = wordAt code' pos' := by
  simp only [wordAt, List.getD_eq_getElem?_getD]
  rw [show code[pos]? = code'[pos']? from h 0 (by omega), h 1 (by omega), h 2 (by omega),
    h 3 (by omega)]

theorem wordAt_putWord_of_disjoint (code : List (BitVec 8)) (w : BitVec 32) {pos pos' : Nat}
    (h : pos' + 4 ≤ pos ∨ pos + 4 ≤ pos') : wordAt (putWord code pos w) pos' = wordAt code pos' := by
  apply wordAt_congr
  intro i hi
  exact putWord_getElem? code pos w (by omega)

theorem wordAt_putWord (code : List (BitVec 8)) (w : BitVec 32) {pos : Nat}
    (h : pos + 4 ≤ code.length) : wordAt (putWord code pos w) pos = w := by
  have h0 : pos < code.length := by omega
  have h1 : pos + 1 < code.length := by omega
  have h2 : pos + 2 < code.length := by omega
  have h3 : pos + 3 < code.length := by omega
  conv => rhs; rw [← joinBytes_extract w]
  simp [wordAt, putWord, h0, h1, h2, h3]

theorem wordAt_append_right (code rest : List (BitVec 8)) (pos : Nat) :
    wordAt (code ++ rest) (code.length + pos) = wordAt rest pos := by
  apply wordAt_congr
  intro i hi
  rw [List.getElem?_append_right (by omega)]
  congr 1
  omega

theorem wordAt_wordBytes (w : BitVec 32) (rest : List (BitVec 8)) :
    wordAt (wordBytes w ++ rest) 0 = w :=
  joinBytes_extract w

/-! ## Loaded images -/

def fetch (mem : BitVec 64 → BitVec 8) (pc : BitVec 64) : BitVec 32 :=
  joinBytes (mem pc) (mem (pc + 1)) (mem (pc + 2)) (mem (pc + 3))

/-- The image is in memory from `base` on. -/
def Loaded (mem : BitVec 64 → BitVec 8) (base : BitVec 64) (code : List (BitVec 8)) : Prop :=
  ∀ i (h : i < code.length), mem (base + BitVec.ofNat 64 i) = code[i]

theorem Loaded.fetch {mem : BitVec 64 → BitVec 8} {base : BitVec 64} {code : List (BitVec 8)}
    (h : Loaded mem base code) {pos : Nat} (hp : pos + 4 ≤ code.length) :
    fetch mem (base + BitVec.ofNat 64 pos) = wordAt code pos := by
  have byte : ∀ i, pos + i < code.length →
      mem (base + BitVec.ofNat 64 pos + BitVec.ofNat 64 i) = code.getD (pos + i) 0 := by
    intro i hi
    rw [BitVec.add_assoc, ← BitVec.ofNat_add, h (pos + i) hi]
    simp [hi]
  rw [CodeImage.fetch, wordAt]
  congr 1
  · simpa using byte 0 (by omega)
  · exact byte 1 (by omega)
  · exact byte 2 (by omega)
  · exact byte 3 (by omega)

theorem Loaded.right {mem : BitVec 64 → BitVec 8} {base : BitVec 64} {code rest : List (BitVec 8)}
    (h : Loaded mem base (code ++ rest)) :
    Loaded mem (base + BitVec.ofNat 64 code.length) rest := by
  intro i hi
  rw [BitVec.add_assoc, ← BitVec.ofNat_add, h (code.length + i) (by simp only [List.length_append]; omega)]
  simp

end Wago.CodeImage

namespace Wago.ByteMem

def read32 (m : Nat → UInt8) (off : Nat) : Nat :=
  (m off).toNat + (m (off + 1)).toNat * 2 ^ 8 + (m (off + 2)).toNat * 2 ^ 16 +
    (m (off + 3)).toNat * 2 ^ 24

def write32 (m : Nat → UInt8) (off v : Nat) : Nat → UInt8 := fun k =>
  if off ≤ k ∧ k < off + 4 then UInt8.ofNat (v / 2 ^ (8 * (k - off))) else m k

/-- Every byte of `[lo, hi)` set to `v`. -/
def fill (m : Nat → UInt8) (lo hi : Nat) (v : UInt8) : Nat → UInt8 := fun k =>
  if lo ≤ k ∧ k < hi then v else m k

theorem read32_congr {m m' : Nat → UInt8} {off : Nat}
    (h : ∀ k, off ≤ k → k < off + 4 → m k = m' k) : read32 m off = read32 m' off := by
  unfold read32
  rw [h off (by omega) (by omega), h (off + 1) (by omega) (by omega), h (off + 2) (by omega) (by omega),
    h (off + 3) (by omega) (by omega)]

theorem write32_of_lt {m : Nat → UInt8} {off v k : Nat} (h : k < off) : write32 m off v k = m k :=
  if_neg (by omega)

theorem write32_of_ge {m : Nat → UInt8} {off v k : Nat} (h : off + 4 ≤ k) : write32 m off v k = m k :=
  if_neg (by omega)

theorem fill_of_lt {m : Nat → UInt8} {lo hi k : Nat} {v : UInt8} (h : k < lo) : fill m lo hi v k = m k :=
  if_neg (by omega)

theorem fill_of_ge {m : Nat → UInt8} {lo hi k : Nat} {v : UInt8} (h : hi ≤ k) : fill m lo hi v k = m k :=
  if_neg (by omega)

theorem toNat_write32 (m : Nat → UInt8) (off v i : Nat) (hi : i < 4) :
    (write32 m off v (off + i)).toNat = v / 2 ^ (8 * i) % 2 ^ 8 := by
  rw [write32, if_pos (by omega), Nat.add_sub_cancel_left]
  exact UInt8.toNat_ofNat

theorem read32_write32 (m : Nat → UInt8) (off : Nat) {v : Nat} (hv : v < 2 ^ 32) :
    read32 (write32 m off v) off = v := by
  have h0 := toNat_write32 m off v 0 (by decide)
  rw [Nat.add_zero] at h0
  unfold read32
  rw [h0, toNat_write32 m off v 1 (by decide), toNat_write32 m off v 2 (by decide),
    toNat_write32 m off v 3 (by decide)]
  omega

/-- Words that do not overlap keep each other. -/
theorem read32_write32_of_disjoint {m : Nat → UInt8} {off off' v : Nat}
    (h : off' + 4 ≤ off ∨ off + 4 ≤ off') : read32 (write32 m off v) off' = read32 m off' := by
  apply read32_congr
  intro k hlo hhi
  rcases h with h | h
  · exact write32_of_lt (by omega)
  · exact write32_of_ge (by omega)

end Wago.ByteMem
