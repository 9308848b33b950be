/-
The type syntax of the frontend (`types.go`) and its structural identity (`equal.go`). The packed
two-word encodings of the source are inductive types here; `bare` keeps whether the binary used a
one-byte reference shorthand, which is no part of a type's identity.
-/
import Mathlib.Algebra.Order.Ring.Int

namespace Wago.Wasm

inductive NumType
  | i32 | i64 | f32 | f64
  deriving DecidableEq, Repr

inductive AbsHeapType
  | string | exn | array | struct | i31 | eq | any | externHeap | func | none | noExtern | noFunc | noExn
  deriving DecidableEq, Repr

/-- A type index, relative to its own recursion group when `isRec` is set. -/
structure TypeIdx where
  index : Nat
  isRec : Bool := false
  deriving DecidableEq, Repr

inductive CompTypeKind
  | array | struct | func
  deriving DecidableEq, Repr

/-- The coordinates of a resolved definition, with the kind of its component when it is known. -/
structure DefCoord where
  group : Nat
  member : Nat
  kind : Option CompTypeKind
  deriving DecidableEq, Repr

inductive HeapType
  | abs (a : AbsHeapType)
  | typeIndex (t : TypeIdx)
  | defType (d : Option DefCoord)
  /-- Validator-only; it has no binary encoding. -/
  | bottom
  deriving DecidableEq, Repr

structure RefType where
  nullable : Bool
  exact : Bool
  bare : Bool
  heap : HeapType
  deriving DecidableEq, Repr

inductive ValType
  | num (n : NumType)
  | vec
  | ref (r : RefType)
  | bot
  deriving DecidableEq, Repr

inductive Mut
  | const | var
  deriving DecidableEq, Repr

inductive PackType
  | i16 | i8
  deriving DecidableEq, Repr

inductive StorageType
  | val (v : ValType)
  | packed (p : PackType)
  deriving DecidableEq, Repr

structure FieldType where
  storage : StorageType
  mutability : Mut
  deriving DecidableEq, Repr

inductive CompType
  | array (field : FieldType)
  | struct (fields : List FieldType)
  | func (params results : List ValType)
  deriving DecidableEq, Repr

structure SubType where
  final : Bool
  supers : List TypeIdx
  describes : Option TypeIdx
  descriptor : Option TypeIdx
  comp : CompType
  /-- False for the compact form without a `sub` prefix. -/
  hasPrefix : Bool
  deriving DecidableEq, Repr

structure RecType where
  subTypes : List SubType
  deriving DecidableEq, Repr

def CompType.kind : CompType → CompTypeKind
  | .array _ => .array
  | .struct _ => .struct
  | .func _ _ => .func

/-! ## Constructors of the source -/

def absRef (abs : AbsHeapType) : RefType :=
  { nullable := true, exact := false, bare := true, heap := .abs abs }

/-- `Ref(nullable, heap, exact)`. -/
def mkRef (nullable : Bool) (heap : HeapType) (exact : Bool) : RefType :=
  { nullable, exact, bare := false, heap }

def RefType.withNullable (rt : RefType) (nullable : Bool) : RefType := { rt with nullable }

def RefType.withHeap (rt : RefType) (heap : HeapType) : RefType := { rt with heap }

namespace ValType

def i32 : ValType := .num .i32
def i64 : ValType := .num .i64
def f32 : ValType := .num .f32
def f64 : ValType := .num .f64
def v128 : ValType := .vec
def funcRef : ValType := .ref (absRef .func)
def anyRef : ValType := .ref (absRef .any)
def eqRef : ValType := .ref (absRef .eq)
def i31Ref : ValType := .ref (absRef .i31)
def stringRef : ValType := .ref (mkRef true (.abs .string) false)

end ValType

def valTypeDefaultable : ValType → Bool
  | .ref r => r.nullable
  | _ => true

/-! ## Structural identity -/

def equalHeapType : HeapType → HeapType → Bool
  | .abs a, .abs b => a = b
  | .typeIndex a, .typeIndex b => a = b
  | .defType none, .defType none => true
  | .defType (some a), .defType (some b) => a.group = b.group && a.member = b.member
  | .bottom, .bottom => true
  | _, _ => false

def equalRefType (a b : RefType) : Bool :=
  a.nullable == b.nullable && a.exact == b.exact && equalHeapType a.heap b.heap

def equalValType : ValType → ValType → Bool
  | .num a, .num b => a = b
  | .vec, .vec => true
  | .ref a, .ref b => equalRefType a b
  | .bot, .bot => true
  | _, _ => false

@[simp] theorem equalHeapType_refl (a : HeapType) : equalHeapType a a = true := by
  cases a with
  | defType d => cases d <;> simp [equalHeapType]
  | _ => simp [equalHeapType]

@[simp] theorem equalRefType_refl (a : RefType) : equalRefType a a = true := by simp [equalRefType]

@[simp] theorem equalValType_refl (a : ValType) : equalValType a a = true := by
  cases a <;> simp [equalValType]

end Wago.Wasm
