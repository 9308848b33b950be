/-
Decoded instructions (`types.go`): the flat payload of an instruction without a body, the tree that
`decodeExpr` builds, and the operations the byte-streaming validator sees one at a time.
-/
import Wago.Wasm.InstrKind
import Wago.Wasm.Types

namespace Wago.Wasm

structure MemArg where
  align : Nat := 0
  /-- Absent unless the alignment field carries the memory-index bit. -/
  mem : Option Nat := none
  offset : Nat := 0
  deriving DecidableEq, Repr

inductive AtomicOrder
  | seqCst | acqRel
  deriving DecidableEq, Repr

structure CastOp where
  sourceNullable : Bool := false
  targetNullable : Bool := false
  deriving DecidableEq, Repr

inductive BlockType
  | void
  | val (t : ValType)
  | typeIndex (t : TypeIdx)
  deriving DecidableEq, Repr

inductive CatchKind
  | tag | ref | all | allRef
  deriving DecidableEq, Repr

structure Catch where
  kind : CatchKind
  tag : Nat := 0
  label : Nat
  deriving DecidableEq, Repr

/-- The boxed payloads of `instrExt`, of which the decoder fills one group an instruction. The
control-flow payloads are in `Instruction`. -/
inductive InstrExt
  | none
  | indices (labels : List Nat)
  | valTypes (ts : List ValType)
  | memArg (arg : MemArg)
  | lanes (ls : List UInt8)
  | refType (rt : RefType)
  | heapType (ht : HeapType)
  | heapTypes (ht₁ ht₂ : HeapType)
  deriving DecidableEq

/-- An instruction without nested instructions. -/
structure Instr where
  kind : InstrKind
  index : Nat := 0
  index2 : Nat := 0
  i32 : Int := 0
  i64 : Int := 0
  f32Bits : Nat := 0
  f64Bits : Nat := 0
  lane : UInt8 := 0
  atomicOp : Nat := 0
  atomicOrder : AtomicOrder := .seqCst
  cast : CastOp := {}
  ext : InstrExt := .none
  deriving DecidableEq

namespace Instr

def indices (i : Instr) : List Nat :=
  match i.ext with
  | .indices ls => ls
  | _ => []

def valTypes (i : Instr) : List ValType :=
  match i.ext with
  | .valTypes ts => ts
  | _ => []

def memArg (i : Instr) : MemArg :=
  match i.ext with
  | .memArg m => m
  | _ => {}

def lanes (i : Instr) : List UInt8 :=
  match i.ext with
  | .lanes ls => ls
  | _ => []

/-- An instruction decoded without a reference or heap type payload has none to show; nothing reads
it there. -/
def refType (i : Instr) : RefType :=
  match i.ext with
  | .refType rt => rt
  | _ => mkRef false .bottom false

def heapType (i : Instr) : HeapType :=
  match i.ext with
  | .heapType ht => ht
  | .heapTypes ht _ => ht
  | _ => .bottom

def heapType2 (i : Instr) : HeapType :=
  match i.ext with
  | .heapTypes _ ht => ht
  | _ => .bottom

end Instr

inductive Instruction
  | plain (i : Instr)
  | block (bt : BlockType) (body : List Instruction)
  | loop (bt : BlockType) (body : List Instruction)
  /-- A missing `else` and an empty one decode to the same tree. -/
  | if_ (bt : BlockType) (thenBody elseBody : List Instruction)
  | tryTable (bt : BlockType) (catches : List Catch) (body : List Instruction)

/-- What the streaming validator decodes in one step: structured instructions come without their
bodies, and the delimiters are operations of their own. -/
inductive DirectOp
  | instr (i : Instr)
  | block (bt : BlockType)
  | loop (bt : BlockType)
  | if_ (bt : BlockType)
  | tryTable (bt : BlockType) (catches : List Catch)
  | else_
  | end_
  deriving DecidableEq

end Wago.Wasm
