/-
The exported bytecode reader (`reader_export.go`), the cursor the walkers and the code generators
use. It has no budget and its own LEB128 loop.
-/
import Wago.Wasm.Reader

namespace Wago.Wasm

structure ExportReader where
  data : List UInt8
  pos : Nat
  deriving DecidableEq, Repr

abbrev ExportReadM := EStateM Err ExportReader

namespace ExportReader

def rest (r : ExportReader) : List UInt8 := r.data.drop r.pos

def advance (r : ExportReader) (n : Nat) : ExportReader := { r with pos := r.pos + n }

@[simp] theorem advance_data (r : ExportReader) (n : Nat) : (r.advance n).data = r.data := rfl
@[simp] theorem advance_pos (r : ExportReader) (n : Nat) : (r.advance n).pos = r.pos + n := rfl
@[simp] theorem rest_advance (r : ExportReader) (n : Nat) : (r.advance n).rest = r.rest.drop n := by
  simp [rest, List.drop_drop]
@[simp] theorem advance_zero (r : ExportReader) : r.advance 0 = r := rfl
@[simp] theorem advance_advance (r : ExportReader) (m n : Nat) :
    (r.advance m).advance n = r.advance (m + n) := by simp [advance, Nat.add_assoc]

theorem rest_cons {r : ExportReader} {b : UInt8} {bs : List UInt8} (h : r.rest = b :: bs) :
    r.data[r.pos]? = some b := by
  have := congrArg List.head? h
  simpa [rest] using this

theorem rest_nil {r : ExportReader} (h : r.rest = []) : r.data[r.pos]? = none := by
  have := congrArg List.head? h
  simpa [rest] using this

def failHere {α : Type} (code : DecodeErrorCode) : ExportReadM α := do
  throw (.decode { code, offset := (← get).pos })

/-- Moves the cursor to an absolute position in `[0, len]`. -/
def jumpTo (pos : Nat) : ExportReadM Unit := do
  let r ← get
  if pos > r.data.length then failHere .indexOutOfBounds else set { r with pos }

def step (count : Nat) : ExportReadM Unit := do jumpTo ((← get).pos + count)

def peek : ExportReadM (Option UInt8) := do
  let r ← get
  return r.data[r.pos]?

def skipByte : ExportReadM Unit := modify (·.advance 1)

def byte : ExportReadM UInt8 := do
  match ← peek with
  | none => failHere .indexOutOfBounds
  | some b => do skipByte; return b

section

variable {α : Type} {r : ExportReader} {b : UInt8} {bs : List UInt8}

@[simp] theorem failHere_run (code : DecodeErrorCode) :
    (failHere code : ExportReadM α).run r = .error (.decode { code, offset := r.pos }) r := rfl

@[simp] theorem peek_run : peek.run r = .ok r.data[r.pos]? r := rfl

@[simp] theorem skipByte_run : skipByte.run r = .ok () (r.advance 1) := rfl

theorem byte_cons (h : r.rest = b :: bs) : byte.run r = .ok b (r.advance 1) := by
  simp [byte, rest_cons h]

theorem byte_nil (h : r.rest = []) :
    byte.run r = .error (.decode { code := .indexOutOfBounds, offset := r.pos }) r := by
  simp [byte, rest_nil h]

end

def bytes (n : Nat) : ExportReadM (List UInt8) := do
  let r ← get
  step n
  return r.rest.take n

/-- The range check on a byte that reaches past `maxBits`; unlike the module reader's it is made on
every byte, before the continuation bit is looked at. -/
def leb128RangeOk (signedInt : Bool) (maxBits bitsWritten b : Nat) : Bool :=
  if bitsWritten > maxBits then
    let excess := bitsWritten - maxBits
    let bitMask := (0xFF <<< ((6 - excess) + 1)) &&& 0x7F
    if signedInt && b &&& (1 <<< (6 - excess)) != 0 then b &&& bitMask == bitMask
    else b &&& bitMask == 0
  else true

/-- The loop of `leb128`. `left` counts the iterations with `bitsWritten < maxBits`; the one after
them still reads its byte and then fails. -/
def leb128Loop (signedInt : Bool) (maxBits : Nat) : (left bitsWritten result : Nat) → ExportReadM Nat
  | 0, _, _ => do
    let _ ← byte
    failHere .malformedLEB
  | left + 1, bitsWritten, result => do
    let b := (← byte).toNat
    let result := result ||| ((b &&& 0x7F) <<< bitsWritten) % 2 ^ 64
    let bitsWritten := bitsWritten + 7
    if leb128RangeOk signedInt maxBits bitsWritten b then
      if b &&& 0x80 ≠ 0 then leb128Loop signedInt maxBits left bitsWritten result
      else return lebSignExtend signedInt bitsWritten b result
    else failHere .malformedLEB

def leb128 (signedInt : Bool) (maxBits : Nat) : ExportReadM Nat :=
  leb128Loop signedInt maxBits ((maxBits + 6) / 7) 0 0

def u32 : ExportReadM Nat := do
  match ← peek with
  | some b =>
    if b.toNat < 0x80 then do skipByte; return b.toNat
    else return (← leb128 false 32) % 2 ^ 32
  | none => return (← leb128 false 32) % 2 ^ 32

def u64 : ExportReadM Nat := leb128 false 64

def s33 : ExportReadM Int := return toInt64 (← leb128 true 33)

def i32 : ExportReadM Int := do
  match ← peek with
  | some b =>
    if b.toNat < 0x80 then do skipByte; return oneByteInt32 b.toNat
    else return toInt32 (← leb128 true 32)
  | none => return toInt32 (← leb128 true 32)

def i64 : ExportReadM Int := return toInt64 (← leb128 true 64)

end ExportReader

end Wago.Wasm
