/-
Bounds checks of scalar loads (`amd64/memory.go`) and the lookahead that widens one to cover later
loads from the same base. The lookahead reads raw bytecode from the compiler's own reader; the
operand it starts from names its local by the index in the caller's frame, which for a body spliced
by inlining is the body's own index plus `localBase`.
-/
import Wago.Railshot.BoundsCert
import Wago.Railshot.MemoryMinBounds
import Wago.Wasm.ReaderExport

namespace Wago.Railshot

open Wago.Wasm (ExportReader ExportReadM Module)
open Wago.Wasm.ExportReader (byte u32 i32 i64)
open Certs (BoundsCerts)

/-! ## The source of an address -/

/-- The kinds `0`, `1` and `2` of `boundsSource`. -/
inductive SourceKind
  | none | localVar | globalVar
  deriving DecidableEq, Repr

def SourceKind.toUInt8 : SourceKind → UInt8
  | .none => 0
  | .localVar => 1
  | .globalVar => 2

/-- The stable carrier of an address operand. -/
def boundsSource (s : Storage) : SourceKind × Nat :=
  match s.kind with
  | .localReg | .localRef => (.localVar, s.idx.toNat)
  | .globReg => (.globalVar, s.idx.toNat)
  | _ => (.none, 0)

def Elem.boundsSource : Elem → SourceKind × Nat
  | .value st => Railshot.boundsSource st
  | _ => (.none, 0)

/-! ## The lookahead -/

def memAccessSize (op : UInt8) : Nat :=
  match op with
  | 0x2c | 0x2d | 0x30 | 0x31 | 0x3a | 0x3c => 1
  | 0x2e | 0x2f | 0x32 | 0x33 | 0x3b | 0x3d => 2
  | 0x28 | 0x2a | 0x34 | 0x35 | 0x36 | 0x38 | 0x3e => 4
  | 0x29 | 0x2b | 0x37 | 0x39 => 8
  | _ => 0

def isScalarLoad (op : UInt8) : Bool := 0x28 ≤ op && op ≤ 0x35

/-- A memory immediate of a 32-bit memory: the memory index and the offset. -/
def readMemArg32 : ExportReadM (Nat × Nat) := do
  let align ← u32
  let memoryIndex ← if 64 ≤ align ∧ align < 128 then u32 else pure 0
  return (memoryIndex, ← u32)

/-- What may stand between the loads besides reads and writes of locals: `nop`, `drop`, `select`,
integer constants and instructions that cannot trap. -/
def straightLinePlain (op : UInt8) : Bool :=
  op == 0x01 || op == 0x1a || op == 0x1b || op == 0x41 || op == 0x42 ||
    (0x45 ≤ op && op ≤ 0x6c) || (0x71 ≤ op && op ≤ 0x7e) || (0x83 ≤ op && op ≤ 0x8a) ||
    op == 0xa7 || op == 0xac || op == 0xad

/-- `skipImmediates` on these instructions. -/
def skipPlainImmediate (op : UInt8) : ExportReadM Int :=
  if op = 0x41 then i32 else if op = 0x42 then i64 else pure 0

def maxStraightLineRangeOps : Nat := 4096

/-- The loop of `straightLineLoadExtent`; `prevKind` and `prevIdx` are the variable that the
instruction before the cursor read. -/
def straightLineLoop (kind : SourceKind) (idx : Nat) :
    (n : Nat) → ExportReader → (prevKind : SourceKind) → (prevIdx extent : Nat) → Nat
  | 0, _, _, _, extent => extent
  | n + 1, scan, prevKind, prevIdx, extent =>
    match byte.run scan with
    | .error _ _ => extent
    | .ok op scan =>
      if op = 0x20 then
        match u32.run scan with
        | .error _ _ => extent
        | .ok x scan => straightLineLoop kind idx n scan .localVar x extent
      else if op = 0x23 then
        match u32.run scan with
        | .error _ _ => extent
        | .ok x scan => straightLineLoop kind idx n scan .globalVar x extent
      else if op = 0x21 ∨ op = 0x22 then
        match u32.run scan with
        | .error _ _ => extent
        | .ok x scan =>
          if kind = .localVar ∧ x = idx then extent else straightLineLoop kind idx n scan .none 0 extent
      else if isScalarLoad op then
        match readMemArg32.run scan with
        | .error _ _ => extent
        | .ok (memoryIndex, off) scan =>
          if memoryIndex ≠ 0 then extent
          else if prevKind = kind ∧ prevIdx = idx then
            let candidate := off + memAccessSize op
            if candidate > 0x7fffffff then extent
            else straightLineLoop kind idx n scan .none 0 (if candidate > extent then candidate else extent)
          else straightLineLoop kind idx n scan .none 0 extent
      else if straightLinePlain op then
        match (skipPlainImmediate op).run scan with
        | .error _ _ => extent
        | .ok _ scan => straightLineLoop kind idx n scan .none 0 extent
      else extent

def straightLineLoadExtent (r : ExportReader) (kind : SourceKind) (idx extent : Nat) : Nat :=
  straightLineLoop kind idx maxStraightLineRangeOps r .none 0 extent

/-! ## The check of a load -/

/-- What `memLoad` and `memAddr` read of the function being compiled. -/
structure FnBounds where
  guardMode : Bool
  boundsFacts : Bool
  threadedMemory0 : Bool
  optMemoryMinimumBounds : Bool
  optMultiBoundsCert : Bool
  m : Module
  boundsCerts : BoundsCerts
  /-- For each open control frame, outermost first, whether it is a loop. -/
  ctrl : List Bool
  linearSumLoop : UInt32
  linearSumLoopDepth : Nat
  /-- Where the locals of the body being compiled start in the frame. -/
  localBase : UInt32

namespace FnBounds

variable (f : FnBounds)

def boundsCertCovers (kind : SourceKind) (idx extent : Nat) : Bool :=
  f.boundsCerts.boundsCertCovers f.optMultiBoundsCert kind.toUInt8 (UInt32.ofNat idx) extent

/-- The index of the innermost loop frame, plus one. -/
def innermostLoop (ctrl : List Bool) : Nat :=
  match ctrl.reverse.findIdx? id with
  | none => 0
  | some i => ctrl.length - i

def hoistedLoopBoundsCover (kind : SourceKind) (idx : Nat) : Bool :=
  kind = .localVar && f.linearSumLoopDepth != 0 && f.linearSumLoop.toNat % 2 ^ 16 = idx + 1 &&
    innermostLoop f.ctrl = f.linearSumLoopDepth

/-- `rangeExtent` of `memLoad`. -/
def memLoadRangeExtent (r : ExportReader) (top : Elem) (off size : Nat) : Nat :=
  if f.boundsFacts && !f.guardMode && !f.threadedMemory0 && off + size ≤ 0x7fffffff then
    let (kind, idx) := top.boundsSource
    if kind ≠ .none ∧ !f.boundsCertCovers kind idx (off + size) then
      straightLineLoadExtent r kind idx (off + size)
    else 0
  else 0

/-- The extent above the address register that `memAddr` compares with the memory size, `none` when
it emits no check. -/
def memAddrExtent (top : Elem) (off size rangeExtent : Nat) : Option Nat :=
  let minimumAccess := !f.guardMode && minimumMemoryAccess f.optMemoryMinimumBounds f.m top 0
    (UInt64.ofNat off) (Int64.ofNat size)
  let (kind, idx) := top.boundsSource
  -- An offset that does not fit the displacement is added to the register first.
  let adjusted := off + size > 0x7fffffff ∧ off ≠ 0
  let kind := if adjusted then .none else kind
  let rangeExtent := if adjusted then 0 else rangeExtent
  let extent := if adjusted then size else off + size
  if f.guardMode || minimumAccess then none
  else if f.hoistedLoopBoundsCover kind idx then none
  else if f.boundsFacts && f.boundsCertCovers kind idx extent then none
  else some (if rangeExtent > extent then rangeExtent else extent)

/-- The check that `memLoad` emits for a load from memory `0` at address operand `top`. -/
def memLoadCheck (r : ExportReader) (top : Elem) (off size : Nat) : Option Nat :=
  f.memAddrExtent top off size (f.memLoadRangeExtent r top off size)

end FnBounds

/-! ## The source program -/

/-- An instruction of straight-line code. `barrier` is any instruction that may transfer control,
have a side effect or trap for another reason than a memory access. -/
inductive SourceOp
  | localGet (x : Nat)
  | globalGet (x : Nat)
  | localSet (x : Nat)
  | localTee (x : Nat)
  | load (op : UInt8) (off : Nat)
  | plain (op : UInt8) (imm : Int)
  | barrier (op : UInt8)
  deriving DecidableEq, Repr

/-- Operands and results of the instructions that compute on the operand stack alone and never trap.
Division, remainder and the trapping truncations are not among them. -/
def plainArity (op : UInt8) : Option (Nat × Nat) :=
  if op = 0x01 then some (0, 0)
  else if op = 0x1a then some (1, 0)
  else if op = 0x1b then some (3, 1)
  else if op = 0x41 ∨ op = 0x42 then some (0, 1)
  else if op = 0x45 ∨ op = 0x50 then some (1, 1)
  else if 0x46 ≤ op ∧ op ≤ 0x66 then some (2, 1)
  else if 0x67 ≤ op ∧ op ≤ 0x69 then some (1, 1)
  else if 0x6a ≤ op ∧ op ≤ 0x6c then some (2, 1)
  else if 0x71 ≤ op ∧ op ≤ 0x78 then some (2, 1)
  else if 0x79 ≤ op ∧ op ≤ 0x7b then some (1, 1)
  else if 0x7c ≤ op ∧ op ≤ 0x7e then some (2, 1)
  else if 0x83 ≤ op ∧ op ≤ 0x8a then some (2, 1)
  else if op = 0xa7 ∨ op = 0xac ∨ op = 0xad then some (1, 1)
  else none

/-- The next instruction of a body. -/
def readSourceOp : ExportReadM SourceOp := do
  let op ← byte
  if op = 0x20 then return .localGet (← u32)
  else if op = 0x23 then return .globalGet (← u32)
  else if op = 0x21 then return .localSet (← u32)
  else if op = 0x22 then return .localTee (← u32)
  else if isScalarLoad op then
    let (memoryIndex, off) ← readMemArg32
    return if memoryIndex = 0 then .load op off else .barrier op
  else if (plainArity op).isSome then return .plain op (← skipPlainImmediate op)
  else return .barrier op

/-- The instructions from the cursor on, up to the first barrier. -/
def sourceOpsLoop : Nat → ExportReader → List SourceOp
  | 0, _ => []
  | n + 1, r =>
    match readSourceOp.run r with
    | .error _ _ => []
    | .ok (.barrier op) _ => [.barrier op]
    | .ok op r => op :: sourceOpsLoop n r

def sourceOps (r : ExportReader) : List SourceOp := sourceOpsLoop r.rest.length r

namespace SourceOp

/-- The variable an instruction reads, a local by its index in the frame. -/
def reads (base : Nat) : SourceOp → Option (SourceKind × Nat)
  | .localGet x => some (.localVar, base + x)
  | .globalGet x => some (.globalVar, x)
  | _ => none

def writes (base : Nat) : SourceOp → Option (SourceKind × Nat)
  | .localSet x | .localTee x => some (.localVar, base + x)
  | _ => none

def isBarrier : SourceOp → Bool
  | .barrier _ => true
  | _ => false

end SourceOp

/-! ## Running it -/

/-- What a run of straight-line code does not change: where the body's locals start, what the plain
instructions compute, the bytes of memory `0` and what loads read from it. -/
structure Machine where
  base : Nat
  alu : UInt8 → Int → List UInt64 → UInt64
  memBytes : Nat
  fetch : UInt8 → Nat → UInt64

structure Frame where
  stack : List UInt64
  locals : Nat → UInt64
  globals : Nat → UInt64

/-- How a piece of straight-line code ends: at a barrier or at its end, in an out-of-bounds trap, or
for want of operands, which validated code never does. -/
inductive Outcome
  | next (σ : Frame)
  | barrier
  | outOfBounds
  | stuck

def Frame.source (σ : Frame) : SourceKind × Nat → UInt64
  | (.none, _) => 0
  | (.localVar, x) => σ.locals x
  | (.globalVar, x) => σ.globals x

/-- Addresses are the low half of an operand. -/
def address (v : UInt64) : Nat := v.toNat % 2 ^ 32

namespace Machine

variable (M : Machine)

def step (σ : Frame) : SourceOp → Outcome
  | .localGet x => .next { σ with stack := σ.locals (M.base + x) :: σ.stack }
  | .globalGet x => .next { σ with stack := σ.globals x :: σ.stack }
  | .localSet x =>
    match σ.stack with
    | [] => .stuck
    | v :: stack =>
      .next { σ with stack := stack, locals := fun y => if y = M.base + x then v else σ.locals y }
  | .localTee x =>
    match σ.stack with
    | [] => .stuck
    | v :: _ => .next { σ with locals := fun y => if y = M.base + x then v else σ.locals y }
  | .load op off =>
    match σ.stack with
    | [] => .stuck
    | v :: stack =>
      if address v + off + memAccessSize op > M.memBytes then .outOfBounds
      else .next { σ with stack := M.fetch op (address v + off) :: stack }
  | .plain op imm =>
    match plainArity op with
    | none => .stuck
    | some (operands, results) =>
      if σ.stack.length < operands then .stuck
      else
        let result := M.alu op imm (σ.stack.take operands)
        .next { σ with stack := List.replicate results result ++ σ.stack.drop operands }
  | .barrier _ => .barrier

def run : List SourceOp → Frame → Outcome
  | [], σ => .next σ
  | op :: ops, σ =>
    match M.step σ op with
    | .next σ => run ops σ
    | o => o

end Machine

/-! ## Sound widening -/

/-- A later load of the same straight-line code that reads its address directly from the variable
`src` and ends at `extent`, with no barrier and no write to the variable before it. -/
def LaterLoad (base : Nat) (src : SourceKind × Nat) (ops : List SourceOp) (extent : Nat) : Prop :=
  ∃ before get op off after, ops = before ++ get :: .load op off :: after ∧
    (∀ o ∈ before, o.isBarrier = false ∧ o.writes base ≠ some src) ∧
    get.reads base = some src ∧ extent = off + memAccessSize op

/-- Checks for addresses of the given kind, in bodies whose locals start at `base`, are widened only
to a later load's extent. When the widened check fails, the program itself traps out of bounds
before its next barrier, for every memory size and every content of the variables. -/
def WideningSound (base : UInt32) (kind : SourceKind) : Prop :=
  ∀ (f : FnBounds) (r : ExportReader) (top : Elem) (op : UInt8) (off extent : Nat),
    f.localBase = base → isScalarLoad op → top.boundsSource.1 = kind →
    f.memLoadCheck r top off (memAccessSize op) = some extent → off + memAccessSize op < extent →
    LaterLoad base.toNat top.boundsSource (sourceOps r) extent ∧
      ∀ (M : Machine) (σ : Frame) (stack : List UInt64), M.base = base.toNat →
        σ.stack = σ.source top.boundsSource :: stack →
        M.memBytes < address (σ.source top.boundsSource) + extent →
        M.run (.load op off :: sourceOps r) σ ≠ .stuck →
        M.run (.load op off :: sourceOps r) σ = .outOfBounds

end Wago.Railshot
