/-
The block heap of the Tiny profile (`tiny_alloc.go`). The heap is an array of blocks; a span is a run
of blocks with its length in the tags of its first and last block. Free spans are kept in size bins:
exact bins for small spans, eight bins to each power of two for the larger ones. The spans of a bin
are linked through the first eight bytes of their payload.
-/
import Wago.Lib.Bitmap
import Wago.Lib.CodeImage

namespace Wago.Gc

/-! ## Configuration -/

structure TinyConfig where
  heapBytes : UInt32
  blockBytes : UInt32
  pacingStepLimit : UInt32
  poisonFreed : Bool
  deriving DecidableEq, Repr

def tinyNearExhaustionStepLimit : UInt32 := 32

/-- The block number that stands for none. -/
def tinyNoBlock : Nat := 2 ^ 32 - 1

inductive TinyConfigError
  | heapSizeZero | blockSizeNotPowerOfTwo | blockSizeBelowAlignment | pacingStepLimit
  | heapSizeNotMultiple | blockCountOutOfRange
  deriving DecidableEq, Repr

def validateTinyConfig (config : TinyConfig) : Except TinyConfigError Unit := do
  if config.heapBytes = 0 then throw .heapSizeZero
  if config.blockBytes = 0 ∨ config.blockBytes &&& (config.blockBytes - 1) ≠ 0 then
    throw .blockSizeNotPowerOfTwo
  if config.blockBytes < 8 then throw .blockSizeBelowAlignment
  if config.pacingStepLimit > tinyNearExhaustionStepLimit then throw .pacingStepLimit
  if config.heapBytes % config.blockBytes ≠ 0 then throw .heapSizeNotMultiple
  let blocks := config.heapBytes / config.blockBytes
  if blocks = 0 ∨ blocks.toNat = tinyNoBlock then throw .blockCountOutOfRange

/-! ## The heap -/

/-- `spans` stands for `span16` or `span32`, whichever the block count selects. -/
structure TinyHeap where
  mem : Nat → UInt8
  spans : Nat → Nat
  usedStarts : Nat → BitVec 64
  binHeads : Nat → Nat
  binWords : Nat → BitVec 64
  binSummary : BitVec 64
  blockCount : Nat
  blockBytes : Nat
  poisonFreed : Bool

inductive TinyError
  | invalidBlockSize | sizeOverflow | exhausted | invalidFreeOffset | invalidFreeSpan
  deriving DecidableEq, Repr

def tinyExactBins : Nat := 64
def tinySecondLevelBits : Nat := 3
def tinySecondLevelBins : Nat := 1 <<< tinySecondLevelBits
def tinyFreeLinkBytes : Nat := 8

def tinyBinForSize (size : Nat) : Nat :=
  if size ≤ tinyExactBins then size - 1
  else
    let fl := Nat.log2 size
    let base := 1 <<< fl
    let width := base >>> tinySecondLevelBits
    let sl := (size - base) / width
    tinyExactBins + (fl - 6) * tinySecondLevelBins + sl

namespace TinyHeap

variable (h : TinyHeap)

/-! ### Tags -/

def spanSize (b : Nat) : Nat := if b ≥ h.blockCount then 0 else h.spans b

/-- Heaps of up to `65535` blocks have 16-bit tags. -/
def tagLimit : Nat := if h.blockCount ≤ 2 ^ 16 - 1 then 2 ^ 16 else 2 ^ 32

def putSpanSize (b size : Nat) : TinyHeap :=
  { h with spans := Function.update h.spans b (size % h.tagLimit) }

def isUsedStart (b : Nat) : Bool := Bitmap.get h.usedStarts b

def setUsedStart (b : Nat) (used : Bool) : TinyHeap :=
  { h with usedStarts := Bitmap.put h.usedStarts b used }

def setSpan (b size : Nat) (used : Bool) : TinyHeap :=
  ((h.putSpanSize b size).putSpanSize (b + size - 1) size).setUsedStart b used

def clearSpan (b size : Nat) : TinyHeap :=
  let h := h.putSpanSize b 0
  let h := if size > 1 then h.putSpanSize (b + size - 1) 0 else h
  h.setUsedStart b false

/-! ### Links -/

def nextFree (b : Nat) : Nat := ByteMem.read32 h.mem (b * h.blockBytes)

def prevFree (b : Nat) : Nat := ByteMem.read32 h.mem (b * h.blockBytes + 4)

def setFreeLinks (b next prev : Nat) : TinyHeap :=
  let off := b * h.blockBytes
  { h with mem := ByteMem.write32 (ByteMem.write32 h.mem off next) (off + 4) prev }

def markBin (bin : Nat) (nonempty : Bool) : TinyHeap :=
  let word := bin / 64
  let binWords := Bitmap.put h.binWords bin nonempty
  if nonempty then
    { h with binWords, binSummary := Bitmap.setBit h.binSummary word true }
  else if binWords word = 0 then
    { h with binWords, binSummary := Bitmap.setBit h.binSummary word false }
  else { h with binWords }

def setBinHead (bin b : Nat) : TinyHeap := { h with binHeads := Function.update h.binHeads bin b }

def insertFree (b size : Nat) : TinyHeap :=
  let bin := tinyBinForSize size
  let head := h.binHeads bin
  let h := h.setFreeLinks b head tinyNoBlock
  let h := if head ≠ tinyNoBlock then h.setFreeLinks head (h.nextFree head) b else h
  (h.setBinHead bin b).markBin bin true

/-- What stands before the node, the bin's head or a node, continues behind it. -/
def bypassPrev (bin next prev : Nat) : TinyHeap :=
  if prev = tinyNoBlock then h.setBinHead bin next
  else h.setFreeLinks prev next (h.prevFree prev)

def bypassNext (next prev : Nat) : TinyHeap :=
  if next ≠ tinyNoBlock then h.setFreeLinks next (h.nextFree next) prev else h

def unmarkEmptyBin (bin : Nat) : TinyHeap :=
  if h.binHeads bin = tinyNoBlock then h.markBin bin false else h

def removeFree (b size : Nat) : TinyHeap :=
  let bin := tinyBinForSize size
  let next := h.nextFree b
  let prev := h.prevFree b
  ((h.bypassPrev bin next prev).bypassNext next prev).unmarkEmptyBin bin

/-! ### Searching -/

/-- The walk over the request's own bin. A list has at most one node to a block. -/
def findInBin (need : Nat) : (fuel : Nat) → (b : Nat) → Option Nat
  | 0, _ => none
  | fuel + 1, b =>
    if b = tinyNoBlock then none
    else if h.spanSize b ≥ need then some b
    else findInBin need fuel (h.nextFree b)

def firstSpanAfterBin (bin : Nat) : Nat :=
  match Bitmap.nextSet h.binWords h.binSummary bin with
  | none => tinyNoBlock
  | some bin => h.binHeads bin

def findFreeSpan (need : Nat) : Nat :=
  let bin := tinyBinForSize need
  match h.findInBin need (h.blockCount + 1) (h.binHeads bin) with
  | some b => b
  | none => h.firstSpanAfterBin bin

/-! ### Allocation and release -/

/-- The offset and the byte count of the span that was taken. -/
def alloc (size : UInt32) : Except TinyError ((Nat × Nat) × TinyHeap) := do
  if h.blockBytes = 0 then throw .invalidBlockSize
  let need := (size.toNat + h.blockBytes - 1) / h.blockBytes
  if need = 0 ∨ need > 2 ^ 32 - 1 then throw .sizeOverflow
  if need > h.blockCount then throw .exhausted
  let b := h.findFreeSpan need
  if b = tinyNoBlock then throw .exhausted
  let span := h.spanSize b
  let h := h.removeFree b span
  let h := if span = need then h.setUsedStart b true
    else
      let h := (h.clearSpan b span).setSpan b need true
      (h.setSpan (b + need) (span - need) false).insertFree (b + need) (span - need)
  return ((b * h.blockBytes, need * h.blockBytes), h)

def poison (lo hi : Nat) : TinyHeap := { h with mem := ByteMem.fill h.mem lo hi 0xdd }

/-- The links of a span that was merged into its neighbour. -/
def poisonLinks (b : Nat) : TinyHeap :=
  if h.poisonFreed then h.poison (b * h.blockBytes) (b * h.blockBytes + tinyFreeLinkBytes) else h

/-- Merges the span at `b` into a free span that ends at `b`. -/
def mergePrev (b span : Nat) : TinyHeap × Nat × Nat :=
  if b > 0 then
    let prevSize := h.spanSize (b - 1)
    if prevSize > 0 ∧ prevSize ≤ b then
      let prev := b - prevSize
      if !h.isUsedStart prev ∧ h.spanSize prev = prevSize ∧ prev + prevSize = b then
        let h := (h.removeFree prev prevSize).poisonLinks prev
        let h := (h.clearSpan prev prevSize).clearSpan b span
        (h.setSpan prev (prevSize + span) false, prev, prevSize + span)
      else (h, b, span)
    else (h, b, span)
  else (h, b, span)

/-- Merges a free span that starts behind the span at `b` into it. -/
def mergeNext (b span : Nat) : TinyHeap × Nat :=
  let next := b + span
  if next < h.blockCount then
    let nextSize := h.spanSize next
    if nextSize > 0 ∧ nextSize ≤ h.blockCount - next ∧ !h.isUsedStart next then
      let h := (h.removeFree next nextSize).poisonLinks next
      let h := (h.clearSpan b span).clearSpan next nextSize
      (h.setSpan b (span + nextSize) false, span + nextSize)
    else (h, span)
  else (h, span)

def freeSpan (off : UInt32) (poison : Bool) : Except TinyError TinyHeap := do
  if h.blockBytes = 0 ∨ off.toNat % h.blockBytes ≠ 0 then throw .invalidFreeOffset
  let b := off.toNat / h.blockBytes
  if b ≥ h.blockCount ∨ !h.isUsedStart b ∨ h.spanSize b = 0 then throw .invalidFreeSpan
  let span := h.spanSize b
  let h := if poison then h.poison (b * h.blockBytes) ((b + span) * h.blockBytes) else h
  let h := h.setUsedStart b false
  let (h, b, span) := h.mergePrev b span
  let (h, span) := h.mergeNext b span
  return h.insertFree b span

def free (off : UInt32) : Except TinyError TinyHeap := h.freeSpan off h.poisonFreed

def freeWithoutPoison (off : UInt32) : Except TinyError TinyHeap := h.freeSpan off false

end TinyHeap

def newTinyHeap (mem : Nat → UInt8) (blocks blockBytes : Nat) (poisonFreed : Bool) : TinyHeap :=
  let h : TinyHeap :=
    { mem, blockCount := blocks, blockBytes, poisonFreed, spans := fun _ => 0, usedStarts := fun _ => 0,
      binHeads := fun _ => tinyNoBlock, binWords := fun _ => 0, binSummary := 0 }
  (h.setSpan 0 blocks false).insertFree 0 blocks

/-- The heap of a collector with this configuration. -/
def TinyConfig.newHeap (config : TinyConfig) (mem : Nat → UInt8) : TinyHeap :=
  newTinyHeap mem (config.heapBytes / config.blockBytes).toNat config.blockBytes.toNat
    config.poisonFreed

end Wago.Gc
