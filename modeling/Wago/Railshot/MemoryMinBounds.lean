/-
Operand stack nodes of the amd64 backend (`stack.go`, `op.go`), and accesses proved inside the declared
minimum of their memory (`shared/memory_min_bounds.go`, `amd64/memory_min_bounds.go`). A node is a value
with its storage or a deferred operation over its operand subtrees. The address expression gets an
unsigned upper bound by a walk with a node budget; an access whose largest address still fits the
minimum needs no run-time check.
-/
import Mathlib.Algebra.Order.Ring.Int
import Mathlib.Tactic.Common
import Wago.Lib.BitRun
import Wago.Wasm.Module

namespace Wago.Railshot

open Wago.Wasm (MemType Module)

/-! ## Operand stack nodes -/

inductive MachineType
  | none | i32 | i64 | f32 | f64 | v128 | custom
  deriving DecidableEq, Repr

/-- Where a value lives. -/
inductive StorageKind
  | invalid | const | funcRef | reg | slot | localRef | localReg | globalRef | globReg | memRef
  deriving DecidableEq, Repr

/-- `wOp`; `shared.IntOp` numbers the same operations in the same order up to `eqz`. -/
inductive WOp
  | none | add | sub | and | or | xor | shl | shrU | shrS | rotl | rotr | mul | divU | divS | remU
  | remS | clz | ctz | popcnt | wrap | sExt32 | zExt32 | sExt8 | sExt16 | eq | ne | ltS | ltU | gtS
  | gtU | leS | leU | geS | geU | eqz | fEq | fNe | fLt | fGt | fLe | fGe
  deriving DecidableEq, Repr

structure Storage where
  kind : StorageKind
  typ : MachineType
  cval : Int64 := 0
  idx : UInt32 := 0
  slot : UInt32 := 0
  reg : UInt8 := 0
  deriving DecidableEq, Repr

/-- `*elem`: the null pointer, a value, or a deferred operation. -/
inductive Elem
  | nil
  | value (st : Storage)
  | deferred (typ : MachineType) (op : WOp) (arg0 arg1 : Elem)
  deriving DecidableEq, Repr

/-- A value node that holds a constant of the given type. -/
def Elem.constOf (typ : MachineType) : Elem → Option Int64
  | .value st => if st.kind = .const ∧ st.typ = typ then some st.cval else none
  | _ => none

/-! ## The bound of one operation -/

def addressLimit (wide : Bool) : UInt64 := if wide then 0xffffffffffffffff else 0xffffffff

def shiftMask (wide : Bool) : UInt64 := if wide then 63 else 31

/-- The smallest all-ones word above `x`. -/
def envelope (x : UInt64) : UInt64 :=
  let x := x ||| (x >>> 1)
  let x := x ||| (x >>> 2)
  let x := x ||| (x >>> 4)
  let x := x ||| (x >>> 8)
  let x := x ||| (x >>> 16)
  x ||| (x >>> 32)

/-- Bounds on the operands to a bound on the result, where no wrap-around can happen; the whole
domain otherwise. -/
def unsignedOperationMaximum (op : WOp) (a b rightConstant : UInt64) (rightIsConstant wide : Bool) :
    UInt64 :=
  let limit := addressLimit wide
  let a := if a > limit then limit else a
  let b := if b > limit then limit else b
  match op with
  | .and => if a < b then a else b
  | .or | .xor => envelope a ||| envelope b
  | .add => if b ≤ limit - a then a + b else limit
  | .mul => if b = 0 then 0 else if a ≤ limit / b then a * b else limit
  | .shl =>
    if rightIsConstant then
      let shift := rightConstant &&& shiftMask wide
      if a ≤ limit >>> shift then a <<< shift else limit
    else limit
  | .shrU => if rightIsConstant then a >>> (rightConstant &&& shiftMask wide) else a
  | _ => limit

/-! ## The walk over an address expression -/

def addressType (wide : Bool) : MachineType := if wide then .i64 else .i32

/-- The operations the walk looks through. -/
def WOp.bounded : WOp → Bool
  | .add | .and | .or | .xor | .mul | .shl | .shrU => true
  | _ => false

/-- The constant of a node, as the unsigned address it denotes. -/
def constAddress (wide : Bool) (cval : Int64) : UInt64 :=
  if wide then cval.toUInt64 else cval.toUInt64.toUInt32.toUInt64

/-- The second component is the budget that is left. -/
def unsignedAddressMaximum (wide : Bool) : Elem → Int → UInt64 × Int
  | .nil, budget => (addressLimit wide, budget)
  | .value st, budget =>
    if budget ≤ 0 ∨ st.typ ≠ addressType wide then (addressLimit wide, budget)
    else if st.kind = .const then (constAddress wide st.cval, budget - 1)
    else (addressLimit wide, budget - 1)
  | .deferred typ op left right, budget =>
    if budget ≤ 0 ∨ typ ≠ addressType wide then (addressLimit wide, budget)
    else if !op.bounded then (addressLimit wide, budget - 1)
    else
      let (a, budget) := unsignedAddressMaximum wide left (budget - 1)
      let (b, budget) := unsignedAddressMaximum wide right budget
      let constant := right.constOf (addressType wide)
      let value := (constant.map Int64.toUInt64).getD 0
      (unsignedOperationMaximum op a b value constant.isSome wide, budget)

/-! ## The access test -/

/-- `maximum + offset + size` fits the declared minimum, tested by subtractions that cannot wrap. -/
def provenMinimumAccess (mt : MemType) (maximum offset : UInt64) (size : Int64) : Bool :=
  if size ≤ 0 ∨ mt.limits.min > 2 ^ 48 - 1 ∨ (!mt.limits.addr64 ∧ mt.limits.min > 65536) then false
  else
    let minimum := UInt64.ofNat mt.limits.min <<< 16
    if size.toUInt64 > minimum then false
    else
      let available := minimum - size.toUInt64
      offset ≤ available && maximum ≤ available - offset

def minimumMemoryAccess (optMemoryMinimumBounds : Bool) (m : Module) (back : Elem)
    (memoryIndex : Nat) (offset : UInt64) (size : Int64) : Bool :=
  if !optMemoryMinimumBounds then false
  else
    match m.memoryType memoryIndex with
    | none => false
    | some mt =>
      if !provenMinimumAccess mt 0 offset size then false
      else provenMinimumAccess mt (unsignedAddressMaximum mt.limits.addr64 back 32).1 offset size

/-! ## What an address expression computes -/

def addressWidth (wide : Bool) : Nat := if wide then 64 else 32

/-- The result of a bounded operation on words of the address type, `none` for the others. -/
def WOp.apply {w : Nat} : WOp → BitVec w → BitVec w → Option (BitVec w)
  | .add, x, y => some (x + y)
  | .and, x, y => some (x &&& y)
  | .or, x, y => some (x ||| y)
  | .xor, x, y => some (x ^^^ y)
  | .mul, x, y => some (x * y)
  | .shl, x, y => some (x <<< (y.toNat % w))
  | .shrU, x, y => some (x >>> (y.toNat % w))
  | _, _, _ => Option.none

/-- The run-time value of an expression. `ρ` gives the value of every node that the expression does not
determine: registers, slots, locals, globals, loads, other operations, and operands of another
type. -/
def Elem.eval (wide : Bool) (ρ : Elem → BitVec (addressWidth wide)) :
    Elem → BitVec (addressWidth wide)
  | .nil => ρ .nil
  | .value st =>
    match (Elem.value st).constOf (addressType wide) with
    | some c => c.toBitVec.setWidth _
    | none => ρ (.value st)
  | .deferred typ op left right =>
    if typ = addressType wide then
      (op.apply (left.eval wide ρ) (right.eval wide ρ)).getD
        (ρ (.deferred typ op left right))
    else ρ (.deferred typ op left right)

/-! ## The bound is above every value -/

theorem addressLimit_toNat (wide : Bool) : (addressLimit wide).toNat = 2 ^ addressWidth wide - 1 := by
  cases wide <;> rfl

theorem toNat_le_limit {wide : Bool} (x : BitVec (addressWidth wide)) :
    x.toNat ≤ (addressLimit wide).toNat := by
  have := x.isLt
  rw [addressLimit_toNat]
  omega

theorem toNat_shiftMask (c : UInt64) (wide : Bool) :
    (c &&& shiftMask wide).toNat = c.toNat % addressWidth wide := by
  cases wide
  · rw [UInt64.toNat_and, show (shiftMask false).toNat = 2 ^ 5 - 1 from rfl, Nat.and_two_pow_sub_one_eq_mod]
    rfl
  · rw [UInt64.toNat_and, show (shiftMask true).toNat = 2 ^ 6 - 1 from rfl, Nat.and_two_pow_sub_one_eq_mod]
    rfl

theorem smears_envelope (x : UInt64) : Envelope.Smears 64 x.toNat (envelope x).toNat := by
  unfold envelope
  simp only [UInt64.toNat_or, UInt64.toNat_shiftRight]
  exact (Envelope.Smears.refl x.toNat).double.double.double.double.double.double

section Operation

variable {wide : Bool} {x y z : BitVec (addressWidth wide)} {a b c : UInt64} {known : Bool}

theorem le_clamp (h : x.toNat ≤ a.toNat) :
    x.toNat ≤ (if a > addressLimit wide then addressLimit wide else a).toNat := by
  split
  · exact toNat_le_limit x
  · exact h

theorem clamp_le (a : UInt64) (wide : Bool) :
    (if a > addressLimit wide then addressLimit wide else a) ≤ addressLimit wide := by
  split
  · exact UInt64.le_refl _
  · exact UInt64.not_lt.1 ‹_›

theorem add_le_maximum (hx : x.toNat ≤ a.toNat) (hy : y.toNat ≤ b.toNat) (ha : a ≤ addressLimit wide) :
    (x + y).toNat ≤ (if b ≤ addressLimit wide - a then a + b else addressLimit wide).toNat := by
  split
  case isTrue h =>
    have hsub := UInt64.toNat_sub_of_le _ _ ha
    have hb : b.toNat ≤ (addressLimit wide).toNat - a.toNat := hsub ▸ UInt64.le_iff_toNat_le.1 h
    have ha' : a.toNat ≤ (addressLimit wide).toNat := UInt64.le_iff_toNat_le.1 ha
    have hsum : a.toNat + b.toNat < 2 ^ 64 := by
      have := (addressLimit wide).toNat_lt
      omega
    rw [UInt64.toNat_add, Nat.mod_eq_of_lt hsum, BitVec.toNat_add]
    exact (Nat.mod_le _ _).trans (by omega)
  case isFalse => exact toNat_le_limit _

theorem mul_le_maximum (hx : x.toNat ≤ a.toNat) (hy : y.toNat ≤ b.toNat) :
    (x * y).toNat ≤
      (if b = 0 then 0 else if a ≤ addressLimit wide / b then a * b else addressLimit wide).toNat := by
  split
  case isTrue h =>
    have hy0 : y.toNat = 0 := by simpa [h] using hy
    simp [BitVec.toNat_mul, hy0]
  case isFalse hb =>
    split
    case isTrue h =>
      have hb : 0 < b.toNat := Nat.pos_of_ne_zero fun h0 => hb (UInt64.toNat_inj.1 h0)
      have hab : a.toNat * b.toNat ≤ (addressLimit wide).toNat := by
        rw [UInt64.le_iff_toNat_le, UInt64.toNat_div] at h
        exact (Nat.le_div_iff_mul_le hb).1 h
      rw [UInt64.toNat_mul, Nat.mod_eq_of_lt (hab.trans_lt (addressLimit wide).toNat_lt),
        BitVec.toNat_mul]
      exact (Nat.mod_le _ _).trans (Nat.mul_le_mul hx hy)
    case isFalse => exact toNat_le_limit _

theorem toNat_shift (c : UInt64) (wide : Bool) :
    (c &&& shiftMask wide).toNat % 64 = c.toNat % addressWidth wide := by
  rw [toNat_shiftMask, Nat.mod_eq_of_lt]
  cases wide
  · exact (Nat.mod_lt _ (by decide)).trans (by decide)
  · exact Nat.mod_lt _ (by decide)

theorem shl_le_maximum (hx : x.toNat ≤ a.toNat) :
    (x <<< (c.toNat % addressWidth wide)).toNat ≤
      (if a ≤ addressLimit wide >>> (c &&& shiftMask wide) then a <<< (c &&& shiftMask wide)
        else addressLimit wide).toNat := by
  split
  case isTrue h =>
    rw [UInt64.le_iff_toNat_le, UInt64.toNat_shiftRight, toNat_shift, Nat.shiftRight_eq_div_pow,
      Nat.le_div_iff_mul_le (Nat.two_pow_pos _)] at h
    rw [UInt64.toNat_shiftLeft, toNat_shift, Nat.shiftLeft_eq,
      Nat.mod_eq_of_lt (h.trans_lt (addressLimit wide).toNat_lt), BitVec.toNat_shiftLeft,
      Nat.shiftLeft_eq]
    exact (Nat.mod_le _ _).trans (Nat.mul_le_mul_right _ hx)
  case isFalse => exact toNat_le_limit _

theorem shrU_le_maximum (hx : x.toNat ≤ a.toNat) :
    (x >>> (c.toNat % addressWidth wide)).toNat ≤ (a >>> (c &&& shiftMask wide)).toNat := by
  rw [UInt64.toNat_shiftRight, toNat_shift, BitVec.toNat_ushiftRight]
  simp only [Nat.shiftRight_eq_div_pow]
  exact Nat.div_le_div_right hx

theorem and_le_maximum (hx : x.toNat ≤ a.toNat) (hy : y.toNat ≤ b.toNat) :
    (x &&& y).toNat ≤ (if a < b then a else b).toNat := by
  rw [BitVec.toNat_and]
  split
  · exact Nat.and_le_left.trans hx
  · exact Nat.and_le_right.trans hy

theorem combine_le_maximum (hx : x.toNat ≤ a.toNat) (hy : y.toNat ≤ b.toNat)
    (hz : ∀ i, z.toNat.testBit i = true → x.toNat.testBit i = true ∨ y.toNat.testBit i = true) :
    z.toNat ≤ (envelope a ||| envelope b).toNat := by
  rw [UInt64.toNat_or]
  exact Envelope.combine_le (smears_envelope a) (smears_envelope b) a.toNat_lt b.toNat_lt hx hy hz

/-- `c` is what the code takes for the right operand when it is a constant. -/
theorem apply_le_maximum {op : WOp} (hz : op.apply x y = some z) (hx : x.toNat ≤ a.toNat)
    (hy : y.toNat ≤ b.toNat)
    (hc : known = true → y.toNat % addressWidth wide = c.toNat % addressWidth wide) :
    z.toNat ≤ (unsignedOperationMaximum op a b c known wide).toNat := by
  replace hx := le_clamp hx
  replace hy := le_clamp hy
  have ha := clamp_le a wide
  simp only [unsignedOperationMaximum]
  generalize (if a > addressLimit wide then addressLimit wide else a) = a at hx ha
  generalize (if b > addressLimit wide then addressLimit wide else b) = b at hy
  cases op <;> simp only [WOp.apply, Option.some.injEq, reduceCtorEq] at hz <;> subst hz
  case and => exact and_le_maximum hx hy
  case or =>
    refine combine_le_maximum hx hy fun i hi => ?_
    simpa [BitVec.toNat_or, Nat.testBit_or] using hi
  case xor =>
    refine combine_le_maximum hx hy fun i hi => ?_
    rw [BitVec.toNat_xor, Nat.testBit_xor] at hi
    cases hxi : x.toNat.testBit i <;> simp_all
  case add => exact add_le_maximum hx hy ha
  case mul => exact mul_le_maximum hx hy
  case shl =>
    cases known
    case true =>
      rw [hc rfl]
      exact shl_le_maximum hx
    case false => exact toNat_le_limit _
  case shrU =>
    cases known
    case true =>
      rw [hc rfl]
      exact shrU_le_maximum hx
    case false =>
      rw [BitVec.toNat_ushiftRight]
      exact Nat.shiftRight_le _ _ |>.trans hx

end Operation

theorem toNat_toUInt64 (c : Int64) : c.toUInt64.toNat = c.toBitVec.toNat := rfl

theorem toNat_constAddress (wide : Bool) (c : Int64) :
    (constAddress wide c).toNat = (c.toBitVec.setWidth (addressWidth wide)).toNat := by
  cases wide
  · simp [constAddress, addressWidth, toNat_toUInt64]
  · simp [constAddress, addressWidth, toNat_toUInt64]

/-- The value of a constant operand and the word the code reads from it agree as shift counts. -/
theorem eval_constOf {wide : Bool} {ρ : Elem → BitVec (addressWidth wide)} {e : Elem} {c : Int64}
    (h : e.constOf (addressType wide) = some c) :
    (e.eval wide ρ).toNat % addressWidth wide = c.toUInt64.toNat % addressWidth wide := by
  cases e with
  | nil => cases h
  | deferred => cases h
  | value st =>
    simp only [Elem.eval, h, BitVec.toNat_setWidth]
    cases wide
    · exact Nat.mod_mod_of_dvd _ (by decide)
    · exact Nat.mod_mod_of_dvd _ (by decide)

/-- Whatever the budget is, the computed maximum is at least the value of the expression. -/
theorem eval_le_maximum (wide : Bool) (ρ : Elem → BitVec (addressWidth wide)) (e : Elem)
    (budget : Int) : (e.eval wide ρ).toNat ≤ (unsignedAddressMaximum wide e budget).1.toNat := by
  induction e generalizing budget with
  | nil => exact toNat_le_limit _
  | value st =>
    unfold unsignedAddressMaximum
    split
    · exact toNat_le_limit _
    case isFalse hb =>
      split
      · have hst : (Elem.value st).constOf (addressType wide) = some st.cval := by
          simp_all [Elem.constOf]
        rw [Elem.eval, hst, toNat_constAddress]
      · exact toNat_le_limit _
  | deferred typ op left right ihl ihr =>
    simp only [unsignedAddressMaximum]
    split
    · exact toNat_le_limit _
    split
    · exact toNat_le_limit _
    case isFalse hb hop =>
      have htyp : typ = addressType wide := by simpa using (not_or.1 hb).2
      obtain ⟨z, hz⟩ : ∃ z, op.apply (left.eval wide ρ) (right.eval wide ρ) = some z := by
        cases op <;> simp_all [WOp.bounded, WOp.apply]
      rw [Elem.eval, if_pos htyp, hz, Option.getD_some]
      refine apply_le_maximum hz (ihl _) (ihr _) fun hk => ?_
      obtain ⟨c, hc⟩ := Option.isSome_iff_exists.1 hk
      rw [eval_constOf hc, hc]
      rfl

/-! ## The access test is exact -/

theorem toNat_toUInt64_of_pos {size : Int64} (h : 0 < size.toInt) :
    (size.toUInt64.toNat : Int) = size.toInt := by
  have hint : size.toInt = size.toBitVec.toInt := rfl
  have hlt := size.toBitVec.isLt
  rw [toNat_toUInt64]
  rw [BitVec.toInt_eq_toNat_cond] at hint
  split at hint
  · exact hint.symm
  · omega

theorem toNat_minimum {min : Nat} (h : min < 2 ^ 48) :
    (UInt64.ofNat min <<< 16).toNat = min * 65536 := by
  have hmin : (UInt64.ofNat min).toNat = min :=
    UInt64.toNat_ofNat_of_lt' (by simp only [UInt64.size]; omega)
  rw [UInt64.toNat_shiftLeft, hmin]
  change min <<< 16 % 2 ^ 64 = _
  rw [Nat.shiftLeft_eq, Nat.mod_eq_of_lt (by omega)]

theorem provenMinimumAccess_iff (mt : MemType) (maximum offset : UInt64) (size : Int64) :
    provenMinimumAccess mt maximum offset size = true ↔
      0 < size.toInt ∧ mt.limits.min < 2 ^ 48 ∧ (mt.limits.addr64 = false → mt.limits.min ≤ 65536) ∧
        maximum.toNat + offset.toNat + size.toInt ≤ mt.limits.min * 65536 := by
  unfold provenMinimumAccess
  simp only [Int64.le_iff_toInt_le, Int64.toInt_zero]
  split
  case isTrue h =>
    simp only [Bool.false_eq_true, false_iff]
    rintro ⟨hsize, hmin, hpages, -⟩
    rcases h with h | h | ⟨h32, h⟩
    · omega
    · omega
    · exact absurd (hpages (by simpa using h32)) (by omega)
  case isFalse h =>
    rw [not_or, not_or, not_and] at h
    obtain ⟨hsize, hmin, hpages⟩ := h
    have hsize : 0 < size.toInt := by omega
    have hmin : mt.limits.min < 2 ^ 48 := by omega
    have hm := toNat_minimum hmin
    have hs := toNat_toUInt64_of_pos hsize
    simp only [gt_iff_lt, UInt64.lt_iff_toNat_lt, hm]
    split
    case isTrue hbig =>
      simp only [Bool.false_eq_true, false_iff]
      rintro ⟨-, -, -, hfit⟩
      omega
    case isFalse hfits =>
      have havail : (UInt64.ofNat mt.limits.min <<< 16 - size.toUInt64).toNat =
          mt.limits.min * 65536 - size.toUInt64.toNat := by
        rw [UInt64.toNat_sub_of_le _ _ (UInt64.le_iff_toNat_le.2 (by omega)), hm]
      simp only [Bool.and_eq_true, decide_eq_true_eq]
      constructor
      · rintro ⟨hoff, hmax⟩
        rw [UInt64.le_iff_toNat_le, UInt64.toNat_sub_of_le _ _ hoff, havail] at hmax
        rw [UInt64.le_iff_toNat_le, havail] at hoff
        exact ⟨hsize, hmin, fun h32 => by simpa [h32] using hpages, by omega⟩
      · rintro ⟨-, -, -, hfit⟩
        have hoff : offset ≤ UInt64.ofNat mt.limits.min <<< 16 - size.toUInt64 := by
          rw [UInt64.le_iff_toNat_le, havail]
          omega
        refine ⟨hoff, ?_⟩
        rw [UInt64.le_iff_toNat_le, UInt64.toNat_sub_of_le _ _ hoff, havail]
        omega

theorem minimumMemoryAccess_proven {opt : Bool} {m : Module} {back : Elem} {memoryIndex : Nat}
    {offset : UInt64} {size : Int64}
    (h : minimumMemoryAccess opt m back memoryIndex offset size = true) :
    ∃ mt, m.memoryType memoryIndex = some mt ∧
      provenMinimumAccess mt (unsignedAddressMaximum mt.limits.addr64 back 32).1 offset size = true := by
  unfold minimumMemoryAccess at h
  split at h
  · cases h
  split at h
  · cases h
  case h_2 mt hmt =>
    split at h
    · cases h
    · exact ⟨mt, hmt, h⟩

/-- The unsigned maximum bounds every value of the expression, and an access that the minimum proof
accepts ends inside the declared minimum whatever the address evaluates to. The sum is taken in the
integers, so no carry is lost. -/
theorem minimum_memory_proof_sound :
    (∀ (wide : Bool) (ρ : Elem → BitVec (addressWidth wide)) (e : Elem) (budget : Int),
      (e.eval wide ρ).toNat ≤ (unsignedAddressMaximum wide e budget).1.toNat) ∧
    ∀ (opt : Bool) (m : Module) (back : Elem) (memoryIndex : Nat) (offset : UInt64) (size : Int64),
      minimumMemoryAccess opt m back memoryIndex offset size = true →
      ∃ mt, m.memoryType memoryIndex = some mt ∧
        ∀ ρ : Elem → BitVec (addressWidth mt.limits.addr64),
          (back.eval mt.limits.addr64 ρ).toNat + offset.toNat + size.toInt ≤ mt.limits.min * 65536 ∧
            mt.limits.min * 65536 < 2 ^ 64 := by
  refine ⟨eval_le_maximum, fun opt m back memoryIndex offset size h => ?_⟩
  obtain ⟨mt, hmt, hproven⟩ := minimumMemoryAccess_proven h
  obtain ⟨-, hmin, -, hfit⟩ := (provenMinimumAccess_iff _ _ _ _).1 hproven
  refine ⟨mt, hmt, fun ρ => ⟨?_, by omega⟩⟩
  have := eval_le_maximum mt.limits.addr64 ρ back 32
  omega

theorem minimum_memory_proof_masked_index :
    let m : Module := { memories := [⟨⟨1, none, false⟩, false⟩] }
    let back : Elem := .deferred .i32 .and (.value { kind := .localRef, typ := .i32 })
      (.value { kind := .const, typ := .i32, cval := 0xfff0 })
    minimumMemoryAccess true m back 0 8 8 = true ∧
      ∃ mt, m.memoryType 0 = some mt ∧
        ∀ ρ : Elem → BitVec (addressWidth mt.limits.addr64),
          (back.eval mt.limits.addr64 ρ).toNat + (8 : UInt64).toNat + (8 : Int64).toInt ≤
              mt.limits.min * 65536 ∧ mt.limits.min * 65536 < 2 ^ 64 :=
  ⟨by decide, minimum_memory_proof_sound.2 true _ _ 0 8 8 (by decide)⟩

end Wago.Railshot
