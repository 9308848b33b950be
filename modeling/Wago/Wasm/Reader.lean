/-
The error values of the frontend (positioned decode errors, validation errors with the function they
belong to, the untyped decode-limit errors), the module reader (`reader.go`) and its allocation budget
(`decode_budget.go`). A read is a state transformer over the cursor that keeps the cursor also when it
fails, since callers observe the position after a failed read.
-/
import Mathlib.Algebra.Order.Ring.Int
import Wago.Lib.Run

namespace Wago.Wasm

/-! ## Errors -/

inductive DecodeErrorCode
  | indexOutOfBounds | malformedLEB | badMagic | badVersion | invalidSection | sectionOrder
  | duplicateSection | sectionSizeMismatch | invalidType | invalidLimits | invalidImport
  | invalidExport | invalidInstruction | invalidBlockType | instructionNestingLimitExceeded
  | invalidModule | legacyExceptionHandling
  deriving DecidableEq, Repr

structure DecodeError where
  code : DecodeErrorCode
  offset : Nat
  sectionID : UInt8 := 0
  sectionStart : Nat := 0
  sectionEnd : Nat := 0
  deriving DecidableEq, Repr

inductive ValidationErrorCode
  | typeMismatch | unknownType | unknownFunc | unknownTable | unknownMemory | unknownGlobal
  | unknownTag | unknownLabel | unknownLocal | uninitializedLocal | immutableGlobal
  | invalidAlignment | invalidSharedMemory | invalidLimitRange | invalidDataCount
  | constExprRequired | duplicateExport | unsupportedValidationOpcode | unsupportedFeature
  | resourceLimitExceeded
  deriving DecidableEq, Repr

structure ValidationError where
  code : ValidationErrorCode
  func : Int
  detail : String
  deriving DecidableEq, Repr

/-- Any error the frontend returns. The three limit errors are the `fmt.Errorf` errors of
`decode_budget.go`, with the numbers they print. -/
inductive Err
  | decode (e : DecodeError)
  | validation (e : ValidationError)
  | metadataLimit (limit offset : Nat)
  | typeCountLimit (limit : Nat)
  | groupCountLimit (limit : Nat)
  /-- A slice access out of range, which panics in the source. -/
  | outOfRange
  deriving DecidableEq, Repr

/-- Legacy exception-handling opcodes get their own code; every other unsupported opcode is an
invalid instruction. -/
def invalidInstructionError (op : UInt8) (offset : Nat) : DecodeError :=
  match op.toNat with
  | 0x06 | 0x07 | 0x09 | 0x18 | 0x19 => { code := .legacyExceptionHandling, offset }
  | _ => { code := .invalidInstruction, offset }

structure DecodeLimits where
  maxTypes : Nat
  maxMetadataBytes : Nat
  deriving DecidableEq, Repr

def defaultDecodeLimits : DecodeLimits := { maxTypes := 100000, maxMetadataBytes := 256 <<< 20 }

structure DecodeBudget where
  remaining : Nat
  types : Nat
  limits : DecodeLimits
  deriving DecidableEq, Repr

/-- Zero limits select the defaults. -/
def newDecodeBudget (limits : DecodeLimits) : DecodeBudget :=
  let maxTypes := if limits.maxTypes = 0 then defaultDecodeLimits.maxTypes else limits.maxTypes
  let maxMetadataBytes :=
    if limits.maxMetadataBytes = 0 then defaultDecodeLimits.maxMetadataBytes
    else limits.maxMetadataBytes
  { remaining := maxMetadataBytes, types := 0, limits := { maxTypes, maxMetadataBytes } }

structure Reader where
  data : List UInt8
  pos : Nat
  budget : Option DecodeBudget
  deriving DecidableEq, Repr

abbrev ReadM := EStateM Err Reader

def newReader (data : List UInt8) : Reader := { data, pos := 0, budget := none }

namespace Reader

/-- Re-points the reader at a new buffer; the budget stays. -/
def reset (r : Reader) (data : List UInt8) : Reader := { r with data, pos := 0 }

def left (r : Reader) : Nat := r.data.length - r.pos

/-- The bytes still to be read. -/
def rest (r : Reader) : List UInt8 := r.data.drop r.pos

def advance (r : Reader) (n : Nat) : Reader := { r with pos := r.pos + n }

@[simp] theorem advance_data (r : Reader) (n : Nat) : (r.advance n).data = r.data := rfl
@[simp] theorem advance_pos (r : Reader) (n : Nat) : (r.advance n).pos = r.pos + n := rfl
@[simp] theorem advance_budget (r : Reader) (n : Nat) : (r.advance n).budget = r.budget := rfl
@[simp] theorem rest_advance (r : Reader) (n : Nat) : (r.advance n).rest = r.rest.drop n := by
  simp [rest, List.drop_drop]
@[simp] theorem advance_zero (r : Reader) : r.advance 0 = r := rfl
@[simp] theorem advance_advance (r : Reader) (m n : Nat) :
    (r.advance m).advance n = r.advance (m + n) := by simp [advance, Nat.add_assoc]

theorem rest_cons {r : Reader} {b : UInt8} {bs : List UInt8} (h : r.rest = b :: bs) :
    r.data[r.pos]? = some b := by
  have := congrArg List.head? h
  simpa [rest] using this

theorem rest_nil {r : Reader} (h : r.rest = []) : r.data[r.pos]? = none := by
  have := congrArg List.head? h
  simpa [rest] using this

end Reader

/-! ## Primitive reads -/

def failWith {α : Type} (e : Err) : ReadM α := throw e

/-- A positioned decode error at the current offset. -/
def failHere {α : Type} (code : DecodeErrorCode) : ReadM α := do
  throw (.decode { code, offset := (← get).pos })

def off : ReadM Nat := return (← get).pos

def has : ReadM Bool := return decide (0 < (← get).left)

def peek : ReadM (Option UInt8) := do
  let r ← get
  return r.data[r.pos]?

def skipByte : ReadM Unit := modify (·.advance 1)

def byte : ReadM UInt8 := do
  match ← peek with
  | none => failHere .indexOutOfBounds
  | some b => do skipByte; return b

def bytes (n : Nat) : ReadM (List UInt8) := do
  let r ← get
  if n > r.data.length - r.pos then failHere .indexOutOfBounds
  else do
    set (r.advance n)
    return r.rest.take n

section

variable {α : Type} {r : Reader} {b : UInt8} {bs : List UInt8}

@[simp] theorem failWith_run (e : Err) : (failWith e : ReadM α).run r = .error e r := rfl

@[simp] theorem failHere_run (code : DecodeErrorCode) :
    (failHere code : ReadM α).run r = .error (.decode { code, offset := r.pos }) r := rfl

@[simp] theorem off_run : off.run r = .ok r.pos r := rfl

@[simp] theorem has_run : has.run r = .ok (decide (0 < r.left)) r := rfl

@[simp] theorem peek_run : peek.run r = .ok r.data[r.pos]? r := rfl

@[simp] theorem skipByte_run : skipByte.run r = .ok () (r.advance 1) := rfl

theorem byte_cons (h : r.rest = b :: bs) : byte.run r = .ok b (r.advance 1) := by
  simp [byte, Reader.rest_cons h]

theorem byte_nil (h : r.rest = []) :
    byte.run r = .error (.decode { code := .indexOutOfBounds, offset := r.pos }) r := by
  simp [byte, Reader.rest_nil h]

end

/-- Little-endian value of a byte string. -/
def littleEndian : List UInt8 → Nat
  | [] => 0
  | b :: bs => b.toNat + 2 ^ 8 * littleEndian bs

def le32 : ReadM Nat := return littleEndian (← bytes 4)

def le64 : ReadM Nat := return littleEndian (← bytes 8)

/-! ## LEB128 -/

/-- The check on the terminal byte `b`: the bits past `maxBits` are zero, or copies of the sign
bit. `shift` counts the bits read, this byte included. -/
def lebTerminalOk (signed : Bool) (maxBits shift b : Nat) : Bool :=
  if shift > maxBits then
    let extra := shift - maxBits
    let used := 7 - extra
    let mask := ((1 <<< extra) - 1) <<< used
    if signed && b &&& (1 <<< (used - 1)) != 0 then b &&& mask == mask
    else b &&& mask == 0
  else true

/-- `result |= ^uint64(0) << shift`, for a negative terminal byte that leaves high bits unset. -/
def lebSignExtend (signed : Bool) (shift b result : Nat) : Nat :=
  if signed && shift < 64 && b &&& 0x40 != 0 then result ||| ((2 ^ 64 - 1) <<< shift) % 2 ^ 64
  else result

/-- The loop of `leb`, with the iterations left before `i ≥ (maxBits+6)/7`. -/
def lebLoop (signed : Bool) (maxBits : Nat) : (left shift result : Nat) → ReadM Nat
  | 0, _, _ => failHere .malformedLEB
  | left + 1, shift, result => do
    let b := (← byte).toNat
    if shift ≥ 64 ∧ b &&& 0x7f ≠ 0 then failHere .malformedLEB
    else
      let result := if shift < 64 then result ||| ((b &&& 0x7f) <<< shift) % 2 ^ 64 else result
      let shift := shift + 7
      if b &&& 0x80 = 0 then
        if lebTerminalOk signed maxBits shift b then return lebSignExtend signed shift b result
        else failHere .malformedLEB
      else if shift ≥ maxBits + 7 then failHere .malformedLEB
      else lebLoop signed maxBits left shift result

def leb (signed : Bool) (maxBits : Nat) : ReadM Nat := lebLoop signed maxBits ((maxBits + 6) / 7) 0 0

/-- The Go conversions `int64(v)` and `int32(v)` of an unsigned value. -/
def toInt64 (v : Nat) : Int := Int.bmod v (2 ^ 64)
def toInt32 (v : Nat) : Int := Int.bmod v (2 ^ 32)

/-- The value of a one-byte `i32` encoding: `value |= ^int32(0x7f)` when the sign bit is set. -/
def oneByteInt32 (b : Nat) : Int :=
  toInt32 (if b &&& 0x40 != 0 then b ||| (2 ^ 32 - 1 - 0x7f) else b)

def u32 : ReadM Nat := do
  match ← peek with
  | some b =>
    if b.toNat < 0x80 then do skipByte; return b.toNat
    else return (← leb false 32) % 2 ^ 32
  | none => return (← leb false 32) % 2 ^ 32

def u64 : ReadM Nat := leb false 64

def s33 : ReadM Int := return toInt64 (← leb true 33)

def i32 : ReadM Int := do
  match ← peek with
  | some b =>
    if b.toNat < 0x80 then do skipByte; return oneByteInt32 b.toNat
    else return toInt32 (← leb true 32)
  | none => return toInt32 (← leb true 32)

def i64 : ReadM Int := return toInt64 (← leb true 64)

/-! ## Budget -/

/-- The budget is created with the default limits by the first reservation. -/
def Reader.withBudget (r : Reader) : DecodeBudget :=
  r.budget.getD (newDecodeBudget { maxTypes := 0, maxMetadataBytes := 0 })

def reserve (count width : Nat) : ReadM Unit := do
  let r ← get
  let budget := r.withBudget
  if width ≠ 0 ∧ count > budget.remaining / width then do
    set { r with budget := some budget }
    failWith (.metadataLimit budget.limits.maxMetadataBytes r.pos)
  else
    set { r with budget := some { budget with remaining := budget.remaining - count * width } }

/-- `size` is the size in bytes of the decoded element type. -/
def reserveDecodedSlice (size n : Nat) : ReadM Unit := reserve n (size * 8 + 16)

def reserveMetadataStorage (size n : Nat) : ReadM Unit :=
  if n = 0 then pure ()
  else do
    reserve n size
    reserve 1 (min (n * size) 8192)

def reserveType : ReadM Unit := do
  let r ← get
  let budget := r.withBudget
  if budget.types ≥ budget.limits.maxTypes then do
    set { r with budget := some budget }
    failWith (.typeCountLimit budget.limits.maxTypes)
  else set { r with budget := some { budget with types := budget.types + 1 } }

/-! ## Vectors -/

/-- `n` reads in a row. -/
def readN {α : Type} (fn : ReadM α) : Nat → ReadM (List α)
  | 0 => return []
  | n + 1 => do
    let v ← fn
    return v :: (← readN fn n)

def readVec {α : Type} (size : Nat) (fn : ReadM α) : ReadM (List α) := do
  let n ← u32
  reserveDecodedSlice size n
  readN fn n

/-- Every structured metadata entry takes at least one encoded byte, so a count above the bytes
left is refused before anything is reserved. -/
def readMetadataVec {α : Type} (size : Nat) (fn : ReadM α) : ReadM (List α) := do
  let n ← u32
  if n > (← get).left then failHere .indexOutOfBounds
  else do
    reserveMetadataStorage size n
    readN fn n

end Wago.Wasm
