/-
The heap of the Throughput profile (`throughput_alloc.go`). Spans come from the index of free spans,
lowest address first, or from the bump behind all spans. A release puts the span back into the index
at once, or leaves it pending until an allocation misses or everything is reconciled.
-/
import Wago.Gc.SpanArena

namespace Wago.Gc

inductive FailurePoint
  | promotionPlan | promotionDestination | promotionCommit | handlePublication | objectCardGrowth
  | slotCardGrowth | backingGrowth | throughputReconciliation
  deriving DecidableEq, Repr

inductive ThroughputError
  | heapExhausted | allocationTooLarge | noSizeClass (size : Nat) | indexChangedAllocation
  | indexChangedRunAllocation | indexChangedCoalescing | invalidFreeSpan | invalidDeferredFreeSpan
  | overlappingFreeSpan | metadataExhausted | reservationTooLarge | injectedFailure
  | cannotRollBack (cause : ThroughputError)
  deriving DecidableEq, Repr

/-! ## Size classes -/

def throughputClassSizes : List Nat :=
  [32, 48, 64, 96, 128, 192, 256, 384, 512, 768, 1024, 1536, 2048, 3072, 4096, 8192, 16384, 32768]

def throughputClassSize (cls : Nat) : Nat := throughputClassSizes.getD cls 0

def supportedThroughputClassLimit (limit : Nat) : Bool := throughputClassSizes.contains limit

/-- The number of bits of `x`. -/
def bitsLen32 (x : Nat) : Nat := if x = 0 then 0 else Nat.log2 x + 1

/-- The class before the limit is looked at. -/
def throughputClass (size : Nat) : Nat :=
  if size ≤ 128 then
    if size ≤ 32 then 0
    else if size ≤ 64 then ((size - 1) >>> 4) - 1
    else if size ≤ 96 then 3
    else 4
  else
    let exponent := bitsLen32 (size - 1)
    if size ≤ 4096 then
      let cls := 2 * (exponent - 5)
      if size ≤ 3 <<< (exponent - 2) then cls - 1 else cls
    else exponent + 2

/-! ## The heap -/

structure ThroughputHeap where
  memLen : Nat
  limit : Nat
  pageBytes : Nat
  classLimit : Nat
  bump : Nat
  spanRoot : Nat
  freeNodeHead : Nat
  spanNodes : SpanNodes
  /-- The length of the arena. -/
  nodeCount : Nat
  pendingFree : List ThroughputFreeSpan
  freeBytes : Nat
  pendingBytes : Nat
  spanCount : Nat
  /-- The failure that debug builds inject: where, and after how many passes. -/
  armed : Option (FailurePoint × Nat)

structure ThroughputConfig where
  heapBytes : UInt32
  pageBytes : UInt32
  classLimit : UInt32
  deriving DecidableEq, Repr

inductive ThroughputConfigError
  | invalidDefaults | pageSize | limitBelowPage | unsupportedClassLimit (limit : UInt32)
  deriving DecidableEq, Repr

def ThroughputHeap.init (cfg : ThroughputConfig) : Except ThroughputConfigError ThroughputHeap := do
  if cfg.heapBytes = 0 ∨ cfg.pageBytes = 0 ∨ cfg.classLimit = 0 then throw .invalidDefaults
  if cfg.pageBytes < 4096 ∨ cfg.pageBytes &&& (cfg.pageBytes - 1) ≠ 0 then throw .pageSize
  if cfg.heapBytes < cfg.pageBytes then throw .limitBelowPage
  if !supportedThroughputClassLimit cfg.classLimit.toNat then
    throw (.unsupportedClassLimit cfg.classLimit)
  return {
    memLen := 0, limit := cfg.heapBytes.toNat, pageBytes := cfg.pageBytes.toNat
    classLimit := cfg.classLimit.toNat, bump := 0, spanRoot := throughputNoSlot
    freeNodeHead := throughputNoSlot, spanNodes := fun _ => .zero, nodeCount := 0, pendingFree := []
    freeBytes := 0, pendingBytes := 0, spanCount := 0, armed := none }

abbrev ThroughputM := EStateM ThroughputError ThroughputHeap

def injectFailure (point : FailurePoint) : ThroughputM Unit := do
  let h ← get
  match h.armed with
  | none => return
  | some (p, after) =>
    if p ≠ point then return
    else if after > 0 then set { h with armed := some (p, after - 1) }
    else
      set { h with armed := none }
      throw .injectedFailure

namespace ThroughputHeap

variable (h : ThroughputHeap)

/-- A bound on the depth of the tree. -/
def depth : Nat := h.nodeCount + 1

def classFor (size : Nat) : Option Nat :=
  if size > 32768 then none
  else
    let cls := throughputClass size
    if throughputClassSize cls ≤ h.classLimit then some cls else none

def handleAllocSize (e : HandleEntry) : Nat :=
  let cls := (e.cls &&& handleClassMask).toNat
  let allocSize :=
    if e.space ≠ .large ∧ cls < throughputClassSizes.length ∧ throughputClassSize cls ≤ h.classLimit then
      throughputClassSize cls
    else 0
  let allocSize := if allocSize = 0 then align16 e.size else allocSize
  if e.cls &&& handleAbsorbedTailBit ≠ 0 then add32 allocSize 16 else allocSize

/-! ### The free index -/

def findSpan (size : Nat) : Nat :=
  if h.spanRoot = throughputNoSlot ∨ (h.spanNodes h.spanRoot).maxSize < size then throughputNoSlot
  else SpanNodes.findSpan h.spanNodes size h.depth h.spanRoot

def spanNeighbors (off : Nat) : Nat × Nat :=
  SpanNodes.spanNeighbors h.spanNodes off h.depth h.spanRoot throughputNoSlot throughputNoSlot

def acquireSpanNode : Except ThroughputError (ThroughputHeap × Nat) :=
  if h.freeNodeHead ≠ throughputNoSlot then
    let idx := h.freeNodeHead
    .ok ({ h with
      freeNodeHead := (h.spanNodes idx).nextFree
      spanNodes := Function.update h.spanNodes idx .zero }, idx)
  else if h.nodeCount ≥ throughputNoSlot then .error .metadataExhausted
  else
    let idx := h.nodeCount
    .ok ({ h with
      spanNodes := Function.update h.spanNodes idx .zero
      nodeCount := h.nodeCount + 1 }, idx)

def releaseSpanNode (idx : Nat) : ThroughputHeap :=
  let node : ThroughputSpanNode :=
    { off := 0, size := 0, maxSize := 0, left := throughputNoSlot, right := throughputNoSlot
      nextFree := h.freeNodeHead, height := 0 }
  { h with spanNodes := Function.update h.spanNodes idx node, freeNodeHead := idx }

def insertFreeSpanNode (span : ThroughputFreeSpan) (idx : Nat) : ThroughputHeap :=
  let node : ThroughputSpanNode :=
    { off := span.off, size := span.size, maxSize := span.size, left := throughputNoSlot
      right := throughputNoSlot, nextFree := throughputNoSlot, height := 1 }
  let (spanNodes, spanRoot) :=
    SpanNodes.insertAVL h.depth (Function.update h.spanNodes idx node) h.spanRoot idx
  { h with spanNodes, spanRoot, freeBytes := h.freeBytes + span.size, spanCount := h.spanCount + 1 }

/-- The heap, the slot that is left over, and whether there was a span at the offset. -/
def removeFreeSpan (off : Nat) : ThroughputHeap × Nat × Bool :=
  let idx := SpanNodes.findSpanByOffset h.spanNodes off h.depth h.spanRoot
  if idx = throughputNoSlot then (h, throughputNoSlot, false)
  else
    let size := (h.spanNodes idx).size
    let (spanNodes, spanRoot, removed, ok) := SpanNodes.removeAVL h.depth h.spanNodes h.spanRoot off
    let h := { h with spanNodes, spanRoot }
    if !ok then (h, throughputNoSlot, false)
    else ({ h with freeBytes := h.freeBytes - size, spanCount := h.spanCount - 1 }, removed, true)

def replaceFreeSpan (oldOff : Nat) (span : ThroughputFreeSpan) : ThroughputHeap × Bool :=
  let (spanNodes, spanRoot, ok) :=
    SpanNodes.replaceFreeSpanAVL h.depth h.spanNodes h.spanRoot oldOff span
  ({ h with spanNodes, spanRoot }, ok)

/-- Takes a span that ends where `span` starts out of the index and puts it in front of `span`. -/
def absorbPred (span : ThroughputFreeSpan) (pred : Nat) : ThroughputHeap × ThroughputFreeSpan × Nat :=
  if pred ≠ throughputNoSlot then
    let p := h.spanNodes pred
    if add32 p.off p.size = span.off then
      let (h, reuse, _) := h.removeFreeSpan p.off
      (h, ⟨p.off, add32 span.size p.size⟩, reuse)
    else (h, span, throughputNoSlot)
  else (h, span, throughputNoSlot)

/-- Takes a span that starts where `span` ends out of the index and puts it behind `span`. -/
def absorbSucc (span : ThroughputFreeSpan) (succ : Nat) : ThroughputHeap × ThroughputFreeSpan × Nat :=
  if succ ≠ throughputNoSlot then
    let s := h.spanNodes succ
    if add32 span.off span.size = s.off then
      let (h, extra, _) := h.removeFreeSpan s.off
      (h, ⟨span.off, add32 span.size s.size⟩, extra)
    else (h, span, throughputNoSlot)
  else (h, span, throughputNoSlot)

def releaseIfSome (idx : Nat) : ThroughputHeap :=
  if idx ≠ throughputNoSlot then h.releaseSpanNode idx else h

/-- The slot for a new span: one that was left over, or a fresh one. -/
def reuseSpanNode (reuse : Nat) : Except ThroughputError (ThroughputHeap × Nat) :=
  if reuse = throughputNoSlot then h.acquireSpanNode else .ok (h, reuse)

/-- The insertion of a span that was merged with its neighbours. -/
def placeFreeSpan (span : ThroughputFreeSpan) (reuse extra : Nat) :
    Except ThroughputError ThroughputHeap :=
  if add32 span.off span.size = h.bump then
    .ok (({ h with bump := span.off }.releaseIfSome reuse).releaseIfSome extra)
  else
    let (reuse, extra) := if reuse = throughputNoSlot then (extra, throughputNoSlot) else (reuse, extra)
    match h.reuseSpanNode reuse with
    | .error e => .error e
    | .ok (h, reuse) => .ok ((h.releaseIfSome extra).insertFreeSpanNode span reuse)

/-- The one neighbour that a span is adjacent to, with the span merged into it. -/
def mergeOne (span : ThroughputFreeSpan) (pred succ : Nat) (predAdjacent : Bool) :
    Nat × ThroughputFreeSpan :=
  if predAdjacent then
    let p := h.spanNodes pred
    (p.off, ⟨p.off, add32 span.size p.size⟩)
  else
    let s := h.spanNodes succ
    (s.off, ⟨span.off, add32 span.size s.size⟩)

/-- No path that fails has written to the heap before. -/
def insertFreeSpan (span : ThroughputFreeSpan) : Except ThroughputError ThroughputHeap :=
  if span.size = 0 ∨ span.off % 16 ≠ 0 ∨ span.size % 16 ≠ 0 ∨ add32 span.off span.size < span.off ∨
      add32 span.off span.size > h.bump then
    .error .invalidFreeSpan
  else
    let (pred, succ) := h.spanNeighbors span.off
    let p := h.spanNodes pred
    let s := h.spanNodes succ
    if pred ≠ throughputNoSlot ∧ add32 p.off p.size > span.off then .error .overlappingFreeSpan
    else if succ ≠ throughputNoSlot ∧ add32 span.off span.size > s.off then .error .overlappingFreeSpan
    else
      let predAdjacent : Bool := pred ≠ throughputNoSlot ∧ add32 p.off p.size = span.off
      let succAdjacent : Bool := succ ≠ throughputNoSlot ∧ add32 span.off span.size = s.off
      let (oldOff, merged) := h.mergeOne span pred succ predAdjacent
      if predAdjacent ≠ succAdjacent ∧ add32 merged.off merged.size ≠ h.bump then
        match h.replaceFreeSpan oldOff merged with
        | (_, false) => .error .indexChangedCoalescing
        | (h, true) => .ok { h with freeBytes := h.freeBytes + span.size }
      else
        let (h, span, reuse) := h.absorbPred span pred
        let (h, span, extra) := h.absorbSucc span succ
        h.placeFreeSpan span reuse extra

end ThroughputHeap

/-! ## Release and reconciliation -/

def setFromExcept (r : Except ThroughputError ThroughputHeap) : ThroughputM Unit :=
  match r with
  | .error e => throw e
  | .ok h => set h

/-- Where a release looks at the entry before anything else. -/
def ThroughputHeap.badFree (h : ThroughputHeap) (e : HandleEntry) : Bool :=
  let allocSize := h.handleAllocSize e
  allocSize = 0 ∨ e.off % 16 ≠ 0 ∨ add32 e.off allocSize < e.off ∨ add32 e.off allocSize > h.bump

def throughputFree (e : HandleEntry) : ThroughputM Unit := do
  let h ← get
  if h.badFree e then throw .invalidFreeSpan
  setFromExcept (h.insertFreeSpan ⟨e.off, h.handleAllocSize e⟩)

def deferFree (e : HandleEntry) : ThroughputM Unit := do
  let h ← get
  if h.badFree e then throw .invalidDeferredFreeSpan
  let span : ThroughputFreeSpan := ⟨e.off, h.handleAllocSize e⟩
  set { h with
    pendingFree := h.pendingFree ++ [span]
    pendingBytes := h.pendingBytes + span.size }

/-- The last pending span goes into the index. It stays pending when that fails. -/
def sweepOnePending : ThroughputM Unit := do
  let h ← get
  match h.pendingFree.getLast? with
  | none => return
  | some span =>
    injectFailure .throughputReconciliation
    let h ← get
    setFromExcept (h.insertFreeSpan span)
    modify fun h => { h with
      pendingFree := h.pendingFree.dropLast
      pendingBytes := h.pendingBytes - span.size }

def isAscending : List ThroughputFreeSpan → Bool
  | previous :: current :: rest =>
    ¬ current.off < add32 previous.off previous.size ∧ isAscending (current :: rest)
  | _ => true

def isDescending : List ThroughputFreeSpan → Bool
  | previous :: current :: rest =>
    ¬ add32 current.off current.size > previous.off ∧ isDescending (current :: rest)
  | _ => true

/-- Adjacent spans of an ordered list become one; `last` is the span that may still grow. -/
def collapseFrom (ascending descending : Bool) (last : ThroughputFreeSpan) :
    List ThroughputFreeSpan → List ThroughputFreeSpan
  | [] => [last]
  | span :: rest =>
    if ascending ∧ add32 last.off last.size = span.off then
      collapseFrom ascending descending ⟨last.off, add32 last.size span.size⟩ rest
    else if descending ∧ add32 span.off span.size = last.off then
      collapseFrom ascending descending ⟨span.off, add32 last.size span.size⟩ rest
    else last :: collapseFrom ascending descending span rest

def collapsePending (pending : List ThroughputFreeSpan) : List ThroughputFreeSpan :=
  match pending with
  | [] => []
  | first :: rest =>
    if isAscending pending ∨ isDescending pending then
      collapseFrom (isAscending pending) (isDescending pending) first rest
    else pending

def sweepPending : (count : Nat) → ThroughputM Unit
  | 0 => return
  | count + 1 => do
    if (← get).pendingFree ≠ [] then
      sweepOnePending
      sweepPending count

def sweepAllPending : ThroughputM Unit := do
  modify fun h => { h with pendingFree := collapsePending h.pendingFree }
  sweepPending (← get).pendingFree.length

/-! ## Allocation -/

/-- The bytes and the class of an allocation. -/
def ThroughputHeap.sizeClass (h : ThroughputHeap) (size : UInt32) (sp : SpaceKind) :
    Except ThroughputError (Nat × UInt16) :=
  let allocSize := align16 size.toNat
  if sp ≠ .large ∧ allocSize ≤ h.classLimit then
    match h.classFor allocSize with
    | none => .error (.noSizeClass allocSize)
    | some cls => .ok (throughputClassSize cls, UInt16.ofNat cls)
  else .ok (allocSize, UInt16.ofNat throughputClassSizes.length)

def align64 (v a : Nat) : Nat := if a ≤ 1 then v else andNot (v + a - 1) (a - 1)

def throughputReservationLen (bytes pageBytes limit : Nat) : Except ThroughputError Nat :=
  let needLen := align64 bytes pageBytes
  let needLen := if needLen > limit then bytes else needLen
  if needLen > 2 ^ 32 - 1 then .error .reservationTooLarge else .ok needLen

/-- The length that the backing grows to. -/
def ThroughputHeap.reserve (h : ThroughputHeap) (needed : Nat) : Nat :=
  if h.memLen ≥ h.pageBytes then
    let step := if h.memLen / 2 < h.pageBytes then h.pageBytes else h.memLen / 2
    let grown := align64 (h.memLen + step) h.pageBytes
    let grown := if grown > h.limit then h.limit else grown
    if grown > needed then grown else needed
  else needed

def growBacking (needed : Nat) : ThroughputM Unit := do
  injectFailure .backingGrowth
  let h ← get
  let reserve := h.reserve needed
  if reserve > h.limit ∨ reserve > 2 ^ 32 - 1 then throw .reservationTooLarge
  set { h with memLen := reserve }

/-- Takes bytes behind all spans. -/
def grow (size : Nat) : ThroughputM Nat := do
  let h ← get
  let off := align16 h.bump
  let last := off + size
  if last > h.limit ∨ last > 2 ^ 32 - 1 then throw .heapExhausted
  match throughputReservationLen last h.pageBytes h.limit with
  | .error e => throw e
  | .ok needLen =>
    if needLen > h.memLen then growBacking needLen
    modify fun h => { h with bump := last }
    return off

/-- The search of an allocation: while nothing fits, pending spans go into the index. -/
def findReconciling (allocSize : Nat) : (count : Nat) → ThroughputM Nat
  | 0 => return (← get).findSpan allocSize
  | count + 1 => do
    let h ← get
    let idx := h.findSpan allocSize
    if idx = throughputNoSlot ∧ h.pendingFree ≠ [] then
      sweepOnePending
      findReconciling allocSize count
    else return idx

/-- Takes the first bytes of an indexed span. A rest below 32 bytes goes with them; the result is the
offset and that rest. -/
def consumeSpan (idx consumed : Nat) (changed : ThroughputError) : ThroughputM (Nat × Nat) := do
  let h ← get
  let span : ThroughputFreeSpan := ⟨(h.spanNodes idx).off, (h.spanNodes idx).size⟩
  if span.size - consumed ≥ 32 then
    let (h, ok) := h.replaceFreeSpan span.off ⟨add32 span.off consumed, span.size - consumed⟩
    if !ok then throw changed
    set { h with freeBytes := h.freeBytes - consumed }
    return (span.off, 0)
  else
    let (h, reusable, ok) := h.removeFreeSpan span.off
    if !ok then throw changed
    set (h.releaseSpanNode reusable)
    return (span.off, span.size - consumed)

def newEntry (off size : Nat) (cls : UInt16) (space : SpaceKind) : HandleEntry :=
  { off, size, cls, space }

/-- The end of an allocation: from the span that was found, or from behind all spans. -/
def allocFound (size : UInt32) (sp : SpaceKind) (allocSize : Nat) (cls : UInt16) (idx : Nat) :
    ThroughputM HandleEntry := do
  if idx ≠ throughputNoSlot then
    let (off, tail) ← consumeSpan idx allocSize .indexChangedAllocation
    return newEntry off size.toNat (if tail ≠ 0 then cls ||| handleAbsorbedTailBit else cls) sp
  else
    let off ← grow allocSize
    return newEntry off size.toNat cls sp

def throughputAlloc (size : UInt32) (sp : SpaceKind) : ThroughputM HandleEntry := do
  if size.toNat > 2 ^ 32 - 1 - 15 then throw .allocationTooLarge
  let h ← get
  match h.sizeClass size sp with
  | .error e => throw e
  | .ok (allocSize, cls) =>
    let idx ← findReconciling allocSize h.pendingFree.length
    allocFound size sp allocSize cls idx

structure ThroughputAllocRun where
  off : Nat
  allocSize : Nat
  lastAllocSize : Nat
  cls : UInt16
  deriving DecidableEq, Repr

/-- `count` spans of one size next to each other, if the first fit has room for all of them. -/
def tryAllocRun (size : UInt32) (count : Nat) (sp : SpaceKind) :
    ThroughputM (Option ThroughputAllocRun) := do
  if count < 2 ∨ size.toNat > 2 ^ 32 - 1 - 15 then return none
  let h ← get
  match h.sizeClass size sp with
  | .error e => throw e
  | .ok (allocSize, cls) =>
    let total := allocSize * count % 2 ^ 64
    if total > 2 ^ 32 - 1 then return none
    let idx := h.findSpan allocSize
    if idx ≠ throughputNoSlot then
      if (h.spanNodes idx).size < total then return none
      let (off, tail) ← consumeSpan idx total .indexChangedRunAllocation
      return some { off, allocSize, lastAllocSize := add32 allocSize tail, cls }
    else if h.pendingFree ≠ [] then return none
    else
      let off := align16 h.bump
      let last := off + total
      if last > h.limit ∨ last > h.memLen then return none
      set { h with bump := last }
      return some { off, allocSize, lastAllocSize := allocSize, cls }

/-- The entry that a promotion makes of the `k`-th span of a run (`collect.go`). -/
def ThroughputAllocRun.entry (run : ThroughputAllocRun) (size : UInt32) (count : Nat) (sp : SpaceKind)
    (k : Nat) : HandleEntry :=
  let cls := if k = count - 1 ∧ run.lastAllocSize ≠ run.allocSize then run.cls ||| handleAbsorbedTailBit
    else run.cls
  newEntry (add32 run.off (k * run.allocSize % 2 ^ 32)) size.toNat cls sp

def ThroughputAllocRun.entries (run : ThroughputAllocRun) (size : UInt32) (count : Nat)
    (sp : SpaceKind) : List HandleEntry := (List.range count).map (run.entry size count sp)

/-! ## Transactions -/

structure ThroughputAllocTransaction where
  memLen : Nat
  bump : Nat
  deriving DecidableEq, Repr

def ThroughputHeap.beginAllocTransaction (h : ThroughputHeap) : ThroughputAllocTransaction :=
  { memLen := h.memLen, bump := h.bump }

def restoreAllocTransaction (tx : ThroughputAllocTransaction) : ThroughputM Unit :=
  modify fun h => { h with memLen := tx.memLen, bump := tx.bump }

def rollbackSuccessfulAlloc (e : HandleEntry) (initialBump : Nat) : ThroughputM Unit := do
  if e.off ≥ initialBump then return
  let h ← get
  match (throughputFree e).run h with
  | .ok _ h => set h
  | .error err _ => throw (.cannotRollBack err)

/-- Unwinding a transaction: its allocations from the last to the first, then the bump. -/
def rollback (tx : ThroughputAllocTransaction) : List HandleEntry → ThroughputM Unit
  | [] => restoreAllocTransaction tx
  | e :: earlier => do
    rollbackSuccessfulAlloc e tx.bump
    rollback tx earlier

end Wago.Gc
