/-
The stack effects the validator looks up by instruction kind: scalar and memory instructions
(`validate_ops.go`), linear-memory atomics and SIMD (`validate_proposal.go`).
-/
import Wago.Wasm.InstrKind
import Wago.Wasm.Types

namespace Wago.Wasm

/-! ## Scalar and memory instructions -/

inductive OpEffect
  /-- Pops `a`, pushes `a`. -/
  | unary (a : NumType)
  /-- Pops `a` twice, pushes `a`. -/
  | binary (a : NumType)
  /-- Pops `a` twice, pushes an `i32`. -/
  | compare (a : NumType)
  /-- Pops `a`, pushes an `i32`. -/
  | test (a : NumType)
  | conv (a b : NumType)
  /-- Pops an address, pushes `a`; `align` is the exponent of the natural alignment. -/
  | load (a : NumType) (align : Nat)
  | store (a : NumType) (align : Nat)
  deriving DecidableEq, Repr

/-- The kinds one line of a table is about. -/
inductive KindSet
  /-- From `first` to `last` in the order of declaration. -/
  | range (first last : InstrKind)
  | kinds (ks : List InstrKind)

def KindSet.contains (k : InstrKind) : KindSet → Bool
  | .range first last => first.ctorIdx ≤ k.ctorIdx && k.ctorIdx ≤ last.ctorIdx
  | .kinds ks => ks.any fun k' => k'.ctorIdx == k.ctorIdx

def opEffectTable : List (KindSet × OpEffect) :=
  [(.kinds [.i32Eqz], .test .i32),
   (.kinds [.i64Eqz], .test .i64),
   (.range .i32Eq .i32GeU, .compare .i32),
   (.range .i64Eq .i64GeU, .compare .i64),
   (.range .f32Eq .f32Ge, .compare .f32),
   (.range .f64Eq .f64Ge, .compare .f64),
   (.range .i32Clz .i32Popcnt, .unary .i32),
   (.range .i64Clz .i64Popcnt, .unary .i64),
   (.range .f32Abs .f32Sqrt, .unary .f32),
   (.range .f64Abs .f64Sqrt, .unary .f64),
   (.range .i32Extend8S .i32Extend16S, .unary .i32),
   (.range .i64Extend8S .i64Extend32S, .unary .i64),
   (.range .i32Add .i32Rotr, .binary .i32),
   (.range .i64Add .i64Rotr, .binary .i64),
   (.range .f32Add .f32Copysign, .binary .f32),
   (.range .f64Add .f64Copysign, .binary .f64),
   (.kinds [.i32WrapI64], .conv .i64 .i32),
   (.kinds [.i32TruncF32S, .i32TruncF32U, .i32ReinterpretF32], .conv .f32 .i32),
   (.kinds [.i32TruncF64S, .i32TruncF64U], .conv .f64 .i32),
   (.kinds [.i64ExtendI32S, .i64ExtendI32U], .conv .i32 .i64),
   (.kinds [.i64TruncF32S, .i64TruncF32U], .conv .f32 .i64),
   (.kinds [.i64TruncF64S, .i64TruncF64U, .i64ReinterpretF64], .conv .f64 .i64),
   (.kinds [.f32ConvertI32S, .f32ConvertI32U, .f32ReinterpretI32], .conv .i32 .f32),
   (.kinds [.f32ConvertI64S, .f32ConvertI64U], .conv .i64 .f32),
   (.kinds [.f32DemoteF64], .conv .f64 .f32),
   (.kinds [.f64ConvertI32S, .f64ConvertI32U], .conv .i32 .f64),
   (.kinds [.f64ConvertI64S, .f64ConvertI64U, .f64ReinterpretI64], .conv .i64 .f64),
   (.kinds [.f64PromoteF32], .conv .f32 .f64),
   (.kinds [.i32Load], .load .i32 2),
   (.kinds [.i64Load], .load .i64 3),
   (.kinds [.f32Load], .load .f32 2),
   (.kinds [.f64Load], .load .f64 3),
   (.kinds [.i32Load8S, .i32Load8U], .load .i32 0),
   (.kinds [.i32Load16S, .i32Load16U], .load .i32 1),
   (.kinds [.i64Load8S, .i64Load8U], .load .i64 0),
   (.kinds [.i64Load16S, .i64Load16U], .load .i64 1),
   (.kinds [.i64Load32S, .i64Load32U], .load .i64 2),
   (.kinds [.i32Store], .store .i32 2),
   (.kinds [.i64Store], .store .i64 3),
   (.kinds [.f32Store], .store .f32 2),
   (.kinds [.f64Store], .store .f64 3),
   (.kinds [.i32Store8], .store .i32 0),
   (.kinds [.i32Store16], .store .i32 1),
   (.kinds [.i64Store8], .store .i64 0),
   (.kinds [.i64Store16], .store .i64 1),
   (.kinds [.i64Store32], .store .i64 2)]

def opEffects (k : InstrKind) : Option OpEffect :=
  (opEffectTable.find? fun e => e.1.contains k).map (·.2)

/-! ## Atomics -/

structure AtomicEffect where
  typ : NumType
  align : Nat
  deriving DecidableEq, Repr

def atomicLoadEffects : List AtomicEffect :=
  [⟨.i32, 2⟩, ⟨.i64, 3⟩, ⟨.i32, 0⟩, ⟨.i32, 1⟩, ⟨.i64, 0⟩, ⟨.i64, 1⟩, ⟨.i64, 2⟩]

/-- The entry of a kind in a table that starts at `first`. -/
def lookupAtomicEffect (table : List AtomicEffect) (first kind : InstrKind) : Option AtomicEffect :=
  if first.ctorIdx ≤ kind.ctorIdx then table[kind.ctorIdx - first.ctorIdx]? else none

/-- The seven widths of a read-modify-write operation repeat from sub-opcode 30 on. -/
def atomicRmwEffect (op : Nat) : AtomicEffect :=
  let op := if op = 0 then 30 else op
  match (op - 30) % 7 with
  | 0 => ⟨.i32, 2⟩
  | 1 => ⟨.i64, 3⟩
  | 2 => ⟨.i32, 0⟩
  | 3 => ⟨.i32, 1⟩
  | pos => ⟨.i64, pos - 4⟩

def atomicCmpxchgEffect (op : Nat) : AtomicEffect :=
  let op := if op = 0 then 72 else op
  match op with
  | 72 => ⟨.i32, 2⟩
  | 73 => ⟨.i64, 3⟩
  | 74 => ⟨.i32, 0⟩
  | 75 => ⟨.i32, 1⟩
  | op => ⟨.i64, op - 76⟩

/-! ## SIMD -/

inductive SimdEffectCat
  | load | store | memLoadLane | memStoreLane
  | splat (scalar : NumType)
  | extract (scalar : NumType)
  | replace (scalar : NumType)
  | shift | unary | binary | ternary | popV128PushI32 | bitselect | const
  deriving DecidableEq, Repr

structure SimdEffect where
  cat : SimdEffectCat
  align : Nat := 0
  laneLimit : Nat := 0
  deriving DecidableEq, Repr

/-- Loads with the exponent of their natural alignment. -/
def simdLoads : List (InstrKind × Nat) :=
  [(.v128Load, 4), (.v128Load8x8S, 3), (.v128Load8x8U, 3), (.v128Load16x4S, 3),
   (.v128Load16x4U, 3), (.v128Load32x2S, 3), (.v128Load32x2U, 3), (.v128Load8Splat, 0),
   (.v128Load16Splat, 1), (.v128Load32Splat, 2), (.v128Load64Splat, 3), (.v128Load32Zero, 2),
   (.v128Load64Zero, 3)]

def simdMemLane : List (InstrKind × Nat) :=
  [(.v128Load8Lane, 0), (.v128Load16Lane, 1), (.v128Load32Lane, 2), (.v128Load64Lane, 3),
   (.v128Store8Lane, 0), (.v128Store16Lane, 1), (.v128Store32Lane, 2), (.v128Store64Lane, 3)]

def simdLaneLimits : List (InstrKind × Nat) :=
  [(.i8x16ExtractLaneS, 16), (.i8x16ExtractLaneU, 16), (.i8x16ReplaceLane, 16),
   (.i16x8ExtractLaneS, 8), (.i16x8ExtractLaneU, 8), (.i16x8ReplaceLane, 8),
   (.i32x4ExtractLane, 4), (.i32x4ReplaceLane, 4), (.f32x4ExtractLane, 4), (.f32x4ReplaceLane, 4),
   (.i64x2ExtractLane, 2), (.i64x2ReplaceLane, 2), (.f64x2ExtractLane, 2), (.f64x2ReplaceLane, 2),
   (.v128Load8Lane, 16), (.v128Store8Lane, 16), (.v128Load16Lane, 8), (.v128Store16Lane, 8),
   (.v128Load32Lane, 4), (.v128Store32Lane, 4), (.v128Load64Lane, 2), (.v128Store64Lane, 2)]

def simdSplat : List (InstrKind × NumType) :=
  [(.i8x16Splat, .i32), (.i16x8Splat, .i32), (.i32x4Splat, .i32), (.i64x2Splat, .i64),
   (.f32x4Splat, .f32), (.f64x2Splat, .f64)]

def simdExtract : List (InstrKind × NumType) :=
  [(.i8x16ExtractLaneS, .i32), (.i8x16ExtractLaneU, .i32), (.i16x8ExtractLaneS, .i32),
   (.i16x8ExtractLaneU, .i32), (.i32x4ExtractLane, .i32), (.i64x2ExtractLane, .i64),
   (.f32x4ExtractLane, .f32), (.f64x2ExtractLane, .f64)]

def simdReplace : List (InstrKind × NumType) :=
  [(.i8x16ReplaceLane, .i32), (.i16x8ReplaceLane, .i32), (.i32x4ReplaceLane, .i32),
   (.i64x2ReplaceLane, .i64), (.f32x4ReplaceLane, .f32), (.f64x2ReplaceLane, .f64)]

def simdShift : List InstrKind :=
  [.i8x16Shl, .i8x16ShrS, .i8x16ShrU, .i16x8Shl, .i16x8ShrS, .i16x8ShrU, .i32x4Shl, .i32x4ShrS,
   .i32x4ShrU, .i64x2Shl, .i64x2ShrS, .i64x2ShrU]

def simdUnary : List InstrKind :=
  [.i8x16Swizzle, .v128Not, .f32x4DemoteF64x2Zero, .f64x2PromoteLowF32x4, .i8x16Abs, .i8x16Neg,
   .i8x16Popcnt, .i16x8ExtaddPairwiseI8x16S, .i16x8ExtaddPairwiseI8x16U,
   .i32x4ExtaddPairwiseI16x8S, .i32x4ExtaddPairwiseI16x8U, .f32x4Ceil, .f32x4Floor, .f32x4Trunc,
   .f32x4Nearest, .f64x2Ceil, .f64x2Floor, .f64x2Trunc, .f64x2Nearest, .i16x8Abs, .i16x8Neg,
   .i32x4Abs, .i32x4Neg, .i64x2Abs, .i64x2Neg, .i64x2ExtendLowI32x4S, .i64x2ExtendHighI32x4S,
   .i64x2ExtendLowI32x4U, .i64x2ExtendHighI32x4U, .f32x4Abs, .f32x4Neg, .f32x4Sqrt, .f64x2Abs,
   .f64x2Neg, .f64x2Sqrt, .i32x4TruncSatF32x4S, .i32x4TruncSatF32x4U, .f32x4ConvertI32x4S,
   .f32x4ConvertI32x4U, .i32x4TruncSatF64x2SZero, .i32x4TruncSatF64x2UZero, .f64x2ConvertLowI32x4S,
   .f64x2ConvertLowI32x4U, .i32x4RelaxedTruncF32x4S, .i32x4RelaxedTruncF32x4U,
   .i32x4RelaxedTruncZeroF64x2S, .i32x4RelaxedTruncZeroF64x2U, .i16x8ExtendLowI8x16S,
   .i16x8ExtendHighI8x16S, .i16x8ExtendLowI8x16U, .i16x8ExtendHighI8x16U, .i32x4ExtendLowI16x8S,
   .i32x4ExtendHighI16x8S, .i32x4ExtendLowI16x8U, .i32x4ExtendHighI16x8U]

def simdBinary : List InstrKind :=
  [.i8x16Shuffle, .i8x16RelaxedSwizzle, .v128And, .v128Andnot, .v128Or, .v128Xor, .i8x16Eq,
   .i8x16Ne, .i8x16LtS, .i8x16LtU, .i8x16GtS, .i8x16GtU, .i8x16LeS, .i8x16LeU, .i8x16GeS,
   .i8x16GeU, .i16x8Eq, .i16x8Ne, .i16x8LtS, .i16x8LtU, .i16x8GtS, .i16x8GtU, .i16x8LeS, .i16x8LeU,
   .i16x8GeS, .i16x8GeU, .i32x4Eq, .i32x4Ne, .i32x4LtS, .i32x4LtU, .i32x4GtS, .i32x4GtU, .i32x4LeS,
   .i32x4LeU, .i32x4GeS, .i32x4GeU, .f32x4Eq, .f32x4Ne, .f32x4Lt, .f32x4Gt, .f32x4Le, .f32x4Ge,
   .f64x2Eq, .f64x2Ne, .f64x2Lt, .f64x2Gt, .f64x2Le, .f64x2Ge, .i8x16NarrowI16x8S,
   .i8x16NarrowI16x8U, .i8x16Shl, .i8x16ShrS, .i8x16ShrU, .i8x16Add, .i8x16AddSatS, .i8x16AddSatU,
   .i8x16Sub, .i8x16SubSatS, .i8x16SubSatU, .i8x16MinS, .i8x16MinU, .i8x16MaxS, .i8x16MaxU,
   .i8x16AvgrU, .i16x8Q15mulrSatS, .i16x8NarrowI32x4S, .i16x8NarrowI32x4U, .i16x8Shl, .i16x8ShrS,
   .i16x8ShrU, .i16x8Add, .i16x8AddSatS, .i16x8AddSatU, .i16x8Sub, .i16x8SubSatS, .i16x8SubSatU,
   .i16x8Mul, .i16x8MinS, .i16x8MinU, .i16x8MaxS, .i16x8MaxU, .i16x8AvgrU, .i16x8ExtmulLowI8x16S,
   .i16x8ExtmulHighI8x16S, .i16x8ExtmulLowI8x16U, .i16x8ExtmulHighI8x16U, .i32x4Add, .i32x4Sub,
   .i32x4Mul, .i32x4MinS, .i32x4MinU, .i32x4MaxS, .i32x4MaxU, .i32x4DotI16x8S,
   .i32x4ExtmulLowI16x8S, .i32x4ExtmulHighI16x8S, .i32x4ExtmulLowI16x8U, .i32x4ExtmulHighI16x8U,
   .i64x2Add, .i64x2Sub, .i64x2Mul, .i64x2ExtmulLowI32x4S, .i64x2ExtmulHighI32x4S,
   .i64x2ExtmulLowI32x4U, .i64x2ExtmulHighI32x4U, .i64x2Eq, .i64x2Ne, .i64x2LtS, .i64x2GtS,
   .i64x2LeS, .i64x2GeS, .f32x4Add, .f32x4Sub, .f32x4Mul, .f32x4Div, .f32x4Min, .f32x4Max,
   .f32x4Pmin, .f32x4Pmax, .f64x2Add, .f64x2Sub, .f64x2Mul, .f64x2Div, .f64x2Min, .f64x2Max,
   .f64x2Pmin, .f64x2Pmax, .f32x4RelaxedMin, .f32x4RelaxedMax, .f64x2RelaxedMin, .f64x2RelaxedMax,
   .i16x8RelaxedQ15mulrS, .i16x8RelaxedDotI8x16I7x16S]

def simdTernary : List InstrKind :=
  [.f32x4RelaxedMadd, .f32x4RelaxedNmadd, .f64x2RelaxedMadd, .f64x2RelaxedNmadd,
   .i32x4RelaxedDotI8x16I7x16AddS]

def simdTests : List InstrKind :=
  [.v128AnyTrue, .i8x16AllTrue, .i16x8AllTrue, .i32x4AllTrue, .i64x2AllTrue, .i8x16Bitmask,
   .i16x8Bitmask, .i32x4Bitmask, .i64x2Bitmask]

def simdSelects : List InstrKind :=
  [.v128Bitselect, .i8x16RelaxedLaneselect, .i16x8RelaxedLaneselect, .i32x4RelaxedLaneselect,
   .i64x2RelaxedLaneselect]

/-- The effect the table is left with for `k` once `init` has filled it: a later line overwrites an
earlier one, but the binary line leaves the shifts it also lists. -/
def simdEffectOf (k : InstrKind) : Option SimdEffect :=
  if k = .v128Const then some { cat := .const }
  else if k ∈ simdSelects then some { cat := .bitselect }
  else if k ∈ simdTests then some { cat := .popV128PushI32 }
  else if k ∈ simdTernary then some { cat := .ternary }
  else if k ∈ simdShift then some { cat := .shift }
  else if k ∈ simdBinary ∨ k = .i8x16Swizzle then some { cat := .binary }
  else if k ∈ simdUnary then some { cat := .unary }
  else
    match simdReplace.lookup k, simdExtract.lookup k, simdSplat.lookup k with
    | some t, _, _ => some { cat := .replace t }
    | _, some t, _ => some { cat := .extract t }
    | _, _, some t => some { cat := .splat t }
    | none, none, none =>
      match simdMemLane.lookup k, simdLoads.lookup k with
      | some align, _ =>
        if InstrKind.v128Store8Lane.ctorIdx ≤ k.ctorIdx ∧ k.ctorIdx ≤ InstrKind.v128Store64Lane.ctorIdx then
          some { cat := .memStoreLane, align }
        else some { cat := .memLoadLane, align }
      | none, some align => some { cat := .load, align }
      | none, none => if k = .v128Store then some { cat := .store } else none

def simdEffects (k : InstrKind) : Option SimdEffect :=
  (simdEffectOf k).map fun e => { e with laneLimit := (simdLaneLimits.lookup k).getD 0 }

end Wago.Wasm
