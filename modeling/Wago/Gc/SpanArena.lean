/-
Sizes of objects and the entries of the handle table (`layout.go`, `desc.go`, `collector.go`,
`survivor.go`), and the free spans of the throughput heap in an AVL tree ordered by address
(`throughput_alloc.go`). The nodes stand in an arena and refer to each other by their slots; every node
keeps its height and the largest span size below it. Recursions and walks over the tree take a bound
on the depth.
-/
import Mathlib.Algebra.Order.Ring.Int
import Mathlib.Logic.Function.Basic
import Mathlib.Tactic.Common
import Wago.Lib.Extents

namespace Wago.Gc

/-! ## Sizes and handle entries -/

/-- Addition of 32-bit words. -/
def add32 (a b : Nat) : Nat := (a + b) % 2 ^ 32

theorem add32_eq {a b : Nat} (h : a + b < 2 ^ 32) : add32 a b = a + b := Nat.mod_eq_of_lt h

/-- The bits of `x` outside `m`. -/
def andNot (x m : Nat) : Nat := x - (x &&& m)

def align (v a : Nat) : Nat :=
  if a ≤ 1 then v else andNot (add32 v (a - 1)) (a - 1)

def align16 (v : Nat) : Nat := align v 16

theorem andNot_fifteen (x : Nat) : andNot x 15 = x / 16 * 16 := by
  have h : x &&& 15 = x % 16 := Nat.and_two_pow_sub_one_eq_mod x 4
  unfold andNot
  rw [h]
  omega

theorem align16_eq {v : Nat} (h : v ≤ 2 ^ 32 - 16) : align16 v = (v + 15) / 16 * 16 := by
  change andNot (add32 v 15) 15 = _
  rw [andNot_fifteen, add32_eq (by omega)]

theorem align16_mod (v : Nat) : align16 v % 16 = 0 := by
  change andNot (add32 v 15) 15 % 16 = 0
  rw [andNot_fifteen]
  omega

theorem align16_lt (v : Nat) : align16 v < 2 ^ 32 := by
  change andNot (add32 v 15) 15 < _
  have : add32 v 15 < 2 ^ 32 := Nat.mod_lt _ (by decide)
  rw [andNot_fifteen]
  omega

theorem align16_of_mod {v : Nat} (hv : v % 16 = 0) (hlt : v < 2 ^ 32) : align16 v = v := by
  rw [align16_eq (by omega)]
  omega

/-! ## Handles -/

inductive SpaceKind
  | free | nursery | old | large | tiny
  deriving DecidableEq, Repr

/-- `cls` is the source's `class`. -/
structure HandleEntry where
  off : Nat
  size : Nat
  cls : UInt16
  space : SpaceKind
  deriving DecidableEq, Repr

def handleAbsorbedTailBit : UInt16 := (1 : UInt16) <<< 12
def handleClassMask : UInt16 := ((1 : UInt16) <<< 5) - 1

def throughputNoSlot : Nat := 2 ^ 32 - 1

abbrev ThroughputFreeSpan := Extents.Extent

structure ThroughputSpanNode where
  off : Nat
  size : Nat
  maxSize : Nat
  left : Nat
  right : Nat
  nextFree : Nat
  height : Nat
  deriving DecidableEq, Repr

/-- The source's zero node. -/
def ThroughputSpanNode.zero : ThroughputSpanNode := ⟨0, 0, 0, 0, 0, 0, 0⟩

abbrev SpanNodes := Nat → ThroughputSpanNode

namespace SpanNodes

variable (s : SpanNodes)

def nodeHeight (idx : Nat) : Nat := if idx = throughputNoSlot then 0 else (s idx).height

def nodeMax (idx : Nat) : Nat := if idx = throughputNoSlot then 0 else (s idx).maxSize

def setLeft (idx left : Nat) : SpanNodes := Function.update s idx { s idx with left }

def setRight (idx right : Nat) : SpanNodes := Function.update s idx { s idx with right }

def setSpan (idx : Nat) (span : ThroughputFreeSpan) : SpanNodes :=
  Function.update s idx { s idx with off := span.off, size := span.size }

/-- Heights are bytes. -/
def updateNode (idx : Nat) : SpanNodes :=
  let n := s idx
  let leftHeight := nodeHeight s n.left
  let rightHeight := nodeHeight s n.right
  Function.update s idx
    { n with
      height := (max leftHeight rightHeight + 1) % 2 ^ 8
      maxSize := max n.size (max (nodeMax s n.left) (nodeMax s n.right)) }

def rotateLeft (root : Nat) : SpanNodes × Nat :=
  let right := (s root).right
  let middle := (s right).left
  let s := setLeft s right root
  let s := setRight s root middle
  let s := updateNode s root
  let s := updateNode s right
  (s, right)

def rotateRight (root : Nat) : SpanNodes × Nat :=
  let left := (s root).left
  let middle := (s left).right
  let s := setRight s left root
  let s := setLeft s root middle
  let s := updateNode s root
  let s := updateNode s left
  (s, left)

/-- The left child of `root` after it was turned, if its right subtree is the higher one. -/
def straightenLeft (root left : Nat) : SpanNodes :=
  if nodeHeight s (s left).left < nodeHeight s (s left).right then
    let (s, left) := rotateLeft s left
    setLeft s root left
  else s

def straightenRight (root right : Nat) : SpanNodes :=
  if nodeHeight s (s right).right < nodeHeight s (s right).left then
    let (s, right) := rotateRight s right
    setRight s root right
  else s

def rebalance (root : Nat) : SpanNodes × Nat :=
  if root = throughputNoSlot then (s, root)
  else
    let s := updateNode s root
    let n := s root
    let balance : Int := nodeHeight s n.left - nodeHeight s n.right
    if balance > 1 then rotateRight (straightenLeft s root n.left) root
    else if balance < -1 then rotateLeft (straightenRight s root n.right) root
    else (s, root)

def insertAVL : (fuel : Nat) → SpanNodes → (root idx : Nat) → SpanNodes × Nat
  | 0, s, root, _ => (s, root)
  | fuel + 1, s, root, idx =>
    if root = throughputNoSlot then (s, idx)
    else if (s idx).off < (s root).off then
      let (s, left) := insertAVL fuel s (s root).left idx
      rebalance (setLeft s root left) root
    else
      let (s, right) := insertAVL fuel s (s root).right idx
      rebalance (setRight s root right) root

def leftmost : (fuel : Nat) → (idx : Nat) → Nat
  | 0, idx => idx
  | fuel + 1, idx => if (s idx).left ≠ throughputNoSlot then leftmost fuel (s idx).left else idx

/-- The new root, the slot that is left over, and whether there was a span at the offset. -/
def removeAVL : (fuel : Nat) → SpanNodes → (root off : Nat) → SpanNodes × Nat × Nat × Bool
  | 0, s, root, _ => (s, root, throughputNoSlot, false)
  | fuel + 1, s, root, off =>
    if root = throughputNoSlot then (s, root, throughputNoSlot, false)
    else if off < (s root).off then
      let (s, left, removed, ok) := removeAVL fuel s (s root).left off
      let s := setLeft s root left
      if !ok then (s, root, removed, false)
      else
        let (s, root) := rebalance s root
        (s, root, removed, true)
    else if off > (s root).off then
      let (s, right, removed, ok) := removeAVL fuel s (s root).right off
      let s := setRight s root right
      if !ok then (s, root, removed, false)
      else
        let (s, root) := rebalance s root
        (s, root, removed, true)
    else if (s root).left = throughputNoSlot then (s, (s root).right, root, true)
    else if (s root).right = throughputNoSlot then (s, (s root).left, root, true)
    else
      let succ := leftmost s fuel (s root).right
      let s := setSpan s root ⟨(s succ).off, (s succ).size⟩
      let (s, right, removed, _) := removeAVL fuel s (s root).right (s root).off
      let (s, root) := rebalance (setRight s root right) root
      (s, root, removed, true)

def replaceFreeSpanAVL : (fuel : Nat) → SpanNodes → (root oldOff : Nat) → ThroughputFreeSpan →
    SpanNodes × Nat × Bool
  | 0, s, root, _, _ => (s, root, false)
  | fuel + 1, s, root, oldOff, span =>
    if root = throughputNoSlot then (s, root, false)
    else if oldOff < (s root).off then
      let (s, left, ok) := replaceFreeSpanAVL fuel s (s root).left oldOff span
      let s := setLeft s root left
      (if ok then updateNode s root else s, root, ok)
    else if oldOff > (s root).off then
      let (s, right, ok) := replaceFreeSpanAVL fuel s (s root).right oldOff span
      let s := setRight s root right
      (if ok then updateNode s root else s, root, ok)
    else (updateNode (setSpan s root span) root, root, true)

/-! ## Searching -/

/-- The lowest span of at least `size` bytes, by the subtree maxima. -/
def findSpan (size : Nat) : (fuel : Nat) → (idx : Nat) → Nat
  | 0, _ => throughputNoSlot
  | fuel + 1, idx =>
    if idx = throughputNoSlot then throughputNoSlot
    else
      let n := s idx
      if n.left ≠ throughputNoSlot ∧ (s n.left).maxSize ≥ size then findSpan size fuel n.left
      else if n.size ≥ size then idx
      else findSpan size fuel n.right

def findSpanByOffset (off : Nat) : (fuel : Nat) → (idx : Nat) → Nat
  | 0, _ => throughputNoSlot
  | fuel + 1, idx =>
    if idx = throughputNoSlot then throughputNoSlot
    else
      let n := s idx
      if off < n.off then findSpanByOffset off fuel n.left
      else if off > n.off then findSpanByOffset off fuel n.right
      else idx

/-- The spans around an offset, from those found so far. -/
def spanNeighbors (off : Nat) : (fuel : Nat) → (idx pred succ : Nat) → Nat × Nat
  | 0, _, pred, succ => (pred, succ)
  | fuel + 1, idx, pred, succ =>
    if idx = throughputNoSlot then (pred, succ)
    else
      let n := s idx
      if off ≤ n.off then spanNeighbors off fuel n.left pred idx
      else spanNeighbors off fuel n.right idx succ

end SpanNodes

end Wago.Gc
