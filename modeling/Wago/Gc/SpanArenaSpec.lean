/-
The arena of span nodes holds an AVL tree. Each operation of the arena does to the tree what the
operation on trees does, leaves heights and maxima exact, and writes to no slot outside the tree.
-/
import Wago.Gc.SpanArena
import Wago.Lib.Avl

namespace Wago.Gc

open List Function

open Wago.Avl (AvlTree)
open Wago.Extents (Extent)

abbrev SpanTree := AvlTree Nat ThroughputFreeSpan

/-- The slot of a tree's root. -/
def rootSlot : SpanTree → Nat
  | .nil => throughputNoSlot
  | .node _ i _ _ => i

abbrev spanMax (t : SpanTree) : Nat := t.maxWeight Extent.size

namespace SpanNodes

/-- The slot `i` holds the span `b` and links to the two subtrees. -/
structure NodeAt (s : SpanNodes) (l : SpanTree) (i : Nat) (b : ThroughputFreeSpan) (r : SpanTree) :
    Prop where
  off : (s i).off = b.off
  size : (s i).size = b.size
  left : (s i).left = rootSlot l
  right : (s i).right = rootSlot r

/-- The arena holds the tree, with its heights and maxima. -/
def Rep (s : SpanNodes) : SpanTree → Prop
  | .nil => True
  | .node l i b r => NodeAt s l i b r ∧ (s i).height = (AvlTree.node l i b r).height ∧
    (s i).maxSize = spanMax (.node l i b r) ∧ Rep s l ∧ Rep s r

theorem NodeAt.of_eq {s : SpanNodes} {l r : SpanTree} {i : Nat} {b : ThroughputFreeSpan}
    {n : ThroughputSpanNode} (heq : s i = n)
    (h : n.off = b.off ∧ n.size = b.size ∧ n.left = rootSlot l ∧ n.right = rootSlot r) :
    NodeAt s l i b r := by
  subst heq
  exact ⟨h.1, h.2.1, h.2.2.1, h.2.2.2⟩

theorem NodeAt.congr {s s' : SpanNodes} {l r : SpanTree} {i : Nat} {b : ThroughputFreeSpan}
    (h : NodeAt s l i b r) (heq : s' i = s i) : NodeAt s' l i b r :=
  .of_eq heq ⟨h.off, h.size, h.left, h.right⟩

theorem Rep.congr {s s' : SpanNodes} : ∀ {t : SpanTree}, Rep s t → (∀ j ∈ t.slots, s' j = s j) → Rep s' t
  | .nil, _, _ => trivial
  | .node l i b r, ⟨hn, hh, hm, hl, hr⟩, heq => by
    have hi : s' i = s i := heq i (by simp [AvlTree.slots])
    exact ⟨hn.congr hi, by rw [hi]; exact hh, by rw [hi]; exact hm,
      hl.congr fun j hj => heq j (by simp [AvlTree.slots, hj]),
      hr.congr fun j hj => heq j (by simp [AvlTree.slots, hj])⟩

/-- The slots of a tree are different and none of them is the slot that stands for none. -/
structure Slots (l : List Nat) : Prop where
  nodup : l.Nodup
  valid : ∀ i ∈ l, i ≠ throughputNoSlot

theorem Slots.perm {l l' : List Nat} (h : Slots l) (hp : l.Perm l') : Slots l' :=
  ⟨hp.nodup_iff.1 h.nodup, fun i hi => h.valid i (hp.mem_iff.2 hi)⟩

/-- The parts of a node's slots. -/
theorem Slots.node {l r : List Nat} {i : Nat} (h : Slots (l ++ i :: r)) :
    Slots l ∧ Slots r ∧ i ≠ throughputNoSlot ∧ i ∉ l ∧ i ∉ r ∧ ∀ j ∈ l, j ∉ r := by
  have hnd := h.nodup
  rw [nodup_append] at hnd
  obtain ⟨hl, hr, hlr⟩ := hnd
  obtain ⟨hir, hr⟩ := nodup_cons.1 hr
  exact ⟨⟨hl, fun j hj => h.valid j (by simp [hj])⟩, ⟨hr, fun j hj => h.valid j (by simp [hj])⟩,
    h.valid i (by simp), fun hi => hlr i hi i (by simp) rfl, hir,
    fun j hj hj' => hlr j hj j (by simp [hj']) rfl⟩

section Metadata

variable {s : SpanNodes} {t : SpanTree}

theorem rootSlot_eq_none_iff (hs : Slots t.slots) : rootSlot t = throughputNoSlot ↔ t = .nil := by
  cases t with
  | nil => simp [rootSlot]
  | node l i b r =>
    have := hs.valid i (by simp [AvlTree.slots])
    simp [rootSlot, this]

theorem Rep.nodeHeight (h : Rep s t) (hs : Slots t.slots) :
    SpanNodes.nodeHeight s (rootSlot t) = t.height := by
  cases t with
  | nil => rfl
  | node l i b r =>
    unfold SpanNodes.nodeHeight
    rw [if_neg fun h0 => by simpa using (rootSlot_eq_none_iff hs).1 h0]
    exact h.2.1

theorem Rep.nodeMax (h : Rep s t) (hs : Slots t.slots) : SpanNodes.nodeMax s (rootSlot t) = spanMax t := by
  cases t with
  | nil => rfl
  | node l i b r =>
    unfold SpanNodes.nodeMax
    rw [if_neg fun h0 => by simpa using (rootSlot_eq_none_iff hs).1 h0]
    exact h.2.2.1

end Metadata

/-! ## Updating a node -/

/-- A node whose height and maximum may be stale, over subtrees that are held. -/
structure Open (s : SpanNodes) (l : SpanTree) (i : Nat) (b : ThroughputFreeSpan) (r : SpanTree) :
    Prop where
  node : NodeAt s l i b r
  left : Rep s l
  right : Rep s r
  slots : Slots (l.slots ++ i :: r.slots)

section Update

variable {s : SpanNodes} {l r : SpanTree} {i : Nat} {b : ThroughputFreeSpan}

theorem Rep.toOpen (h : Rep s (.node l i b r)) (hs : Slots (AvlTree.node l i b r).slots) : Open s l i b r :=
  ⟨h.1, h.2.2.2.1, h.2.2.2.2, hs⟩

theorem updateNode_ne {j : Nat} (h : j ≠ i) : updateNode s i j = s j := update_of_ne h _ _

theorem setLeft_ne {j k : Nat} (h : j ≠ i) : setLeft s i k j = s j := update_of_ne h _ _

theorem setRight_ne {j k : Nat} (h : j ≠ i) : setRight s i k j = s j := update_of_ne h _ _

theorem setSpan_ne {j : Nat} {c : ThroughputFreeSpan} (h : j ≠ i) : setSpan s i c j = s j :=
  update_of_ne h _ _

/-- A node written over two subtrees that are held elsewhere. -/
theorem Open.update {n : ThroughputSpanNode} (hl : Rep s l) (hr : Rep s r)
    (hs : Slots (l.slots ++ i :: r.slots))
    (hn : n.off = b.off ∧ n.size = b.size ∧ n.left = rootSlot l ∧ n.right = rootSlot r) :
    Open (Function.update s i n) l i b r := by
  obtain ⟨-, -, -, hil, hir, -⟩ := hs.node
  exact ⟨.of_eq (update_self _ _ _) hn,
    hl.congr fun j hj => update_of_ne (show j ≠ i from fun he => hil (he ▸ hj)) _ _,
    hr.congr fun j hj => update_of_ne (show j ≠ i from fun he => hir (he ▸ hj)) _ _, hs⟩

theorem Open.updateNode (h : Open s l i b r) (hh : max l.height r.height + 1 < 2 ^ 8) :
    Rep (updateNode s i) (.node l i b r) := by
  obtain ⟨hsl, hsr, -⟩ := h.slots.node
  have heq : SpanNodes.updateNode s i i =
      { s i with height := max l.height r.height + 1, maxSize := spanMax (.node l i b r) } := by
    unfold SpanNodes.updateNode
    dsimp only
    rw [update_self, h.node.left, h.node.right, h.left.nodeHeight hsl, h.right.nodeHeight hsr,
      h.left.nodeMax hsl, h.right.nodeMax hsr, h.node.size, Nat.mod_eq_of_lt hh]
    rfl
  have ho : Open (SpanNodes.updateNode s i) l i b r :=
    .update h.left h.right h.slots ⟨h.node.off, h.node.size, h.node.left, h.node.right⟩
  exact ⟨ho.node, by rw [heq]; rfl, by rw [heq], ho.left, ho.right⟩

/-- A new left subtree, whose slots are new or those of the old one. -/
theorem Open.setLeft {l' : SpanTree} (hn : NodeAt s l i b r) (hl : Rep s l') (hr : Rep s r)
    (hs : Slots (l'.slots ++ i :: r.slots)) : Open (setLeft s i (rootSlot l')) l' i b r :=
  .update hl hr hs ⟨hn.off, hn.size, rfl, hn.right⟩

theorem Open.setRight {r' : SpanTree} (hn : NodeAt s l i b r) (hl : Rep s l) (hr : Rep s r')
    (hs : Slots (l.slots ++ i :: r'.slots)) : Open (setRight s i (rootSlot r')) l i b r' :=
  .update hl hr hs ⟨hn.off, hn.size, hn.left, rfl⟩

theorem Open.setSpan (h : Open s l i b r) (c : ThroughputFreeSpan) : Open (setSpan s i c) l i c r :=
  .update h.left h.right h.slots ⟨rfl, rfl, h.node.left, h.node.right⟩

end Update

/-! ## Rotations -/

section Rotate

variable {s : SpanNodes} {l m r : SpanTree} {i j : Nat} {b c : ThroughputFreeSpan}

/-- What an operation leaves behind: the arena holds `t`, and only slots of `own` were written. -/
structure Holds (s s' : SpanNodes) (own : List Nat) (t : SpanTree) : Prop where
  rep : Rep s' t
  slots : Slots t.slots
  frame : ∀ j, j ∉ own → s' j = s j

theorem Open.rotateLeft (h : Open s l i b (.node m j c r)) (hh : max l.height m.height + 2 < 2 ^ 8)
    (hr : r.height + 1 < 2 ^ 8) : ∃ s', SpanNodes.rotateLeft s i = (s', j) ∧
      Holds s s' [i, j] (.node (.node l i b m) j c r) := by
  have hslots : Slots ((l.slots ++ i :: m.slots) ++ j :: r.slots) := by
    have := h.slots
    simpa [AvlTree.slots] using this
  obtain ⟨hlim, -, -, hjlim, hjr, hdisj⟩ := hslots.node
  have hij : j ≠ i := fun he => hjlim (by simp [he])
  obtain ⟨hjn, -, -, hm, hr'⟩ := h.right
  -- The links are set, then the two nodes are updated from below.
  have hs₁ : ∀ k, k ≠ j → SpanNodes.setLeft s j i k = s k := fun k hk => setLeft_ne hk
  have ho₁ : Open (SpanNodes.setRight (SpanNodes.setLeft s j i) i (rootSlot m)) l i b m :=
    .setRight (h.node.congr (hs₁ i hij.symm))
      (h.left.congr fun k hk => hs₁ k fun he => hjlim (by simp [← he, hk]))
      (hm.congr fun k hk => hs₁ k fun he => hjlim (by simp [← he, hk])) hlim
  have hframe : ∀ k, k ≠ i → SpanNodes.updateNode (SpanNodes.setRight (SpanNodes.setLeft s j i) i
      (rootSlot m)) i k = SpanNodes.setLeft s j i k := fun k hk => by
    rw [updateNode_ne hk, setRight_ne hk]
  have ho₂ : Open (SpanNodes.updateNode (SpanNodes.setRight (SpanNodes.setLeft s j i) i (rootSlot m)) i)
      (.node l i b m) j c r := by
    refine ⟨.of_eq ((hframe j hij).trans (update_self _ _ _))
      ⟨hjn.off, hjn.size, rfl, hjn.right⟩, ho₁.updateNode (by omega), hr'.congr fun k hk => ?_, hslots⟩
    rw [hframe k fun he => hdisj k (by simp [he]) hk, hs₁ k fun he => hjr (he ▸ hk)]
  refine ⟨_, ?_, ho₂.updateNode (by simp only [AvlTree.height]; omega), by simpa [AvlTree.slots] using hslots,
    fun k hk => ?_⟩
  · unfold SpanNodes.rotateLeft
    dsimp only
    rw [show (s i).right = j from h.node.right, hjn.left]
  · simp only [mem_cons, not_mem_nil, or_false, not_or] at hk
    rw [updateNode_ne hk.2, hframe k hk.1, hs₁ k hk.2]

theorem Open.rotateRight (h : Open s (.node l j c m) i b r) (hh : max m.height r.height + 2 < 2 ^ 8)
    (hl : l.height + 1 < 2 ^ 8) : ∃ s', SpanNodes.rotateRight s i = (s', j) ∧
      Holds s s' [i, j] (.node l j c (.node m i b r)) := by
  have hslots : Slots (l.slots ++ j :: (m.slots ++ i :: r.slots)) := by
    have := h.slots
    simpa [AvlTree.slots] using this
  obtain ⟨-, hmir, -, hjl, hjmir, hdisj⟩ := hslots.node
  have hij : j ≠ i := fun he => hjmir (by simp [he])
  obtain ⟨hjn, -, -, hl', hm⟩ := h.left
  have hs₁ : ∀ k, k ≠ j → SpanNodes.setRight s j i k = s k := fun k hk => setRight_ne hk
  have ho₁ : Open (SpanNodes.setLeft (SpanNodes.setRight s j i) i (rootSlot m)) m i b r :=
    .setLeft (h.node.congr (hs₁ i hij.symm))
      (hm.congr fun k hk => hs₁ k fun he => hjmir (by simp [← he, hk]))
      (h.right.congr fun k hk => hs₁ k fun he => hjmir (by simp [← he, hk])) hmir
  have hframe : ∀ k, k ≠ i → SpanNodes.updateNode (SpanNodes.setLeft (SpanNodes.setRight s j i) i
      (rootSlot m)) i k = SpanNodes.setRight s j i k := fun k hk => by
    rw [updateNode_ne hk, setLeft_ne hk]
  have ho₂ : Open (SpanNodes.updateNode (SpanNodes.setLeft (SpanNodes.setRight s j i) i (rootSlot m)) i)
      l j c (.node m i b r) := by
    refine ⟨.of_eq ((hframe j hij).trans (update_self _ _ _))
      ⟨hjn.off, hjn.size, hjn.left, rfl⟩, hl'.congr fun k hk => ?_, ho₁.updateNode (by omega), hslots⟩
    rw [hframe k fun he => hdisj k hk (by simp [he]), hs₁ k fun he => hjl (he ▸ hk)]
  refine ⟨_, ?_, ho₂.updateNode (by simp only [AvlTree.height]; omega), by simpa [AvlTree.slots] using hslots,
    fun k hk => ?_⟩
  · unfold SpanNodes.rotateRight
    dsimp only
    rw [show (s i).left = j from h.node.left, hjn.right]
  · simp only [mem_cons, not_mem_nil, or_false, not_or] at hk
    rw [updateNode_ne hk.2, hframe k hk.1, hs₁ k hk.2]

end Rotate

/-! ## Rebalancing -/

section Rebalance

variable {s : SpanNodes} {l r : SpanTree} {i : Nat} {b : ThroughputFreeSpan}

theorem Open.straightenLeft {ll lr : SpanTree} {j : Nat} {c : ThroughputFreeSpan}
    (h : Open s (.node ll j c lr) i b r) (hh : max ll.height lr.height + 2 < 2 ^ 8) :
    ∃ s', SpanNodes.straightenLeft s i j = s' ∧
      Open s' (AvlTree.node ll j c lr).straightenLeft i b r ∧
      ∀ k, k ∉ (AvlTree.node ll j c lr).slots ++ i :: r.slots → s' k = s k := by
  obtain ⟨hsl, hsr, hi, hil, hir, hlr⟩ := h.slots.node
  obtain ⟨hsll, hslr, -, -, -, -⟩ := hsl.node
  obtain ⟨hjn, -, -, hll, hlrr⟩ := h.left
  unfold SpanNodes.straightenLeft
  rw [hjn.left, hjn.right, hll.nodeHeight hsll, hlrr.nodeHeight hslr]
  by_cases hlean : ll.height < lr.height
  · have hlean' : (AvlTree.node ll j c lr).leansRight = true := decide_eq_true hlean
    rw [if_pos hlean, AvlTree.straightenLeft, if_pos hlean']
    cases lr with
    | nil => simp [AvlTree.height] at hlean
    | node lrl k d lrr =>
      simp only [AvlTree.height] at hh
      obtain ⟨s₂, hrot, hrep, hslots, hframe⟩ := (h.left.toOpen hsl).rotateLeft (by omega) (by omega)
      have hframe' : ∀ x, x ∉ (AvlTree.node ll j c (.node lrl k d lrr)).slots → s₂ x = s x := fun x hx =>
        hframe x (by simp only [AvlTree.slots, mem_append, mem_cons, not_or] at hx ⊢; simp [hx])
      rw [hrot]
      have hall : Slots ((AvlTree.node (.node ll j c lrl) k d lrr).slots ++ i :: r.slots) := by
        have := h.slots
        simpa [AvlTree.slots] using this
      refine ⟨_, rfl, Open.setLeft (h.node.congr (hframe' i hil)) hrep
        (h.right.congr fun x hx => hframe' x fun hx' => hlr x hx' hx) hall, fun x hx => ?_⟩
      simp only [mem_append, mem_cons, not_or] at hx
      dsimp only
      rw [setLeft_ne hx.2.1, hframe' x hx.1]
  · have hlean' : ¬ (AvlTree.node ll j c lr).leansRight = true := fun he => hlean (of_decide_eq_true he)
    rw [if_neg hlean, AvlTree.straightenLeft, if_neg hlean']
    exact ⟨s, rfl, h, fun _ _ => rfl⟩

theorem Open.straightenRight {rl rr : SpanTree} {j : Nat} {c : ThroughputFreeSpan}
    (h : Open s l i b (.node rl j c rr)) (hh : max rl.height rr.height + 2 < 2 ^ 8) :
    ∃ s', SpanNodes.straightenRight s i j = s' ∧
      Open s' l i b (AvlTree.node rl j c rr).straightenRight ∧
      ∀ k, k ∉ l.slots ++ i :: (AvlTree.node rl j c rr).slots → s' k = s k := by
  obtain ⟨hsl, hsr, hi, hil, hir, hlr⟩ := h.slots.node
  obtain ⟨hsrl, hsrr, -, -, -, -⟩ := hsr.node
  obtain ⟨hjn, -, -, hrl, hrr⟩ := h.right
  unfold SpanNodes.straightenRight
  rw [hjn.left, hjn.right, hrl.nodeHeight hsrl, hrr.nodeHeight hsrr]
  by_cases hlean : rr.height < rl.height
  · have hlean' : (AvlTree.node rl j c rr).leansLeft = true := decide_eq_true hlean
    rw [if_pos hlean, AvlTree.straightenRight, if_pos hlean']
    cases rl with
    | nil => simp [AvlTree.height] at hlean
    | node rll k d rlr =>
      simp only [AvlTree.height] at hh
      obtain ⟨s₂, hrot, hrep, hslots, hframe⟩ := (h.right.toOpen hsr).rotateRight (by omega) (by omega)
      have hframe' : ∀ x, x ∉ (AvlTree.node (.node rll k d rlr) j c rr).slots → s₂ x = s x := fun x hx =>
        hframe x (by simp only [AvlTree.slots, mem_append, mem_cons, not_or] at hx ⊢; simp [hx])
      rw [hrot]
      have hall : Slots (l.slots ++ i :: (AvlTree.node rll k d (.node rlr j c rr)).slots) := by
        have := h.slots
        simpa [AvlTree.slots] using this
      refine ⟨_, rfl, Open.setRight (h.node.congr (hframe' i hir))
        (h.left.congr fun x hx => hframe' x fun hx' => hlr x hx hx') hrep hall, fun x hx => ?_⟩
      simp only [mem_append, mem_cons, not_or] at hx
      dsimp only
      rw [setRight_ne hx.2.1, hframe' x hx.2.2]
  · have hlean' : ¬ (AvlTree.node rl j c rr).leansLeft = true := fun he => hlean (of_decide_eq_true he)
    rw [if_neg hlean, AvlTree.straightenRight, if_neg hlean']
    exact ⟨s, rfl, h, fun _ _ => rfl⟩

theorem Open.rebalance (h : Open s l i b r) (hh : max l.height r.height + 4 < 2 ^ 8) :
    ∃ s', SpanNodes.rebalance s i = (s', rootSlot (AvlTree.node l i b r).rebalance) ∧
      Holds s s' (l.slots ++ i :: r.slots) (AvlTree.node l i b r).rebalance := by
  obtain ⟨hsl, hsr, hi, -, -, -⟩ := h.slots.node
  have hrep := h.updateNode (by omega)
  have ho := hrep.toOpen h.slots
  have hframe : ∀ k, k ∉ l.slots ++ i :: r.slots → SpanNodes.updateNode s i k = s k := fun k hk =>
    updateNode_ne fun he => hk (by simp [he])
  unfold SpanNodes.rebalance
  dsimp only
  rw [if_neg hi, ho.node.left, ho.node.right, ho.left.nodeHeight hsl, ho.right.nodeHeight hsr,
    AvlTree.rebalance]
  by_cases hbig : l.height > r.height + 1
  · rw [if_pos (by omega), if_pos hbig]
    cases l with
    | nil => simp [AvlTree.height] at hbig
    | node ll j c lr =>
      simp only [AvlTree.height] at hh hbig
      obtain ⟨s₂, heq, ho₂, hframe₂⟩ := ho.straightenLeft (by omega)
      change ∃ s', SpanNodes.rotateRight (SpanNodes.straightenLeft (SpanNodes.updateNode s i) i j) i = _ ∧ _
      rw [heq]
      have hslots := (AvlTree.node ll j c lr).straightenLeft_slots
      have hheight := (AvlTree.node ll j c lr).straightenLeft_height_le
      generalize (AvlTree.node ll j c lr).straightenLeft = L at ho₂ hslots hheight ⊢
      cases L with
      | nil => simp [AvlTree.slots] at hslots
      | node ll' j' c' lr' =>
        simp only [AvlTree.height] at hheight
        obtain ⟨s₃, hrot, hrep₃, hslots₃, hframe₃⟩ := ho₂.rotateRight (by omega) (by omega)
        refine ⟨s₃, hrot, hrep₃, hslots₃, fun k hk => ?_⟩
        have hk' : k ∉ [i, j'] := by
          have hj' : j' ∈ (AvlTree.node ll j c lr).slots := by rw [← hslots]; simp [AvlTree.slots]
          simp only [mem_cons, not_mem_nil, or_false, not_or]
          exact ⟨fun he => hk (by simp [he]), fun he => hk (by simp [he, hj'])⟩
        rw [hframe₃ k hk', hframe₂ k hk, hframe k hk]
  · rw [if_neg (by omega), if_neg hbig]
    by_cases hsmall : r.height > l.height + 1
    · rw [if_pos (by omega), if_pos hsmall]
      cases r with
      | nil => simp [AvlTree.height] at hsmall
      | node rl j c rr =>
        simp only [AvlTree.height] at hh hsmall
        obtain ⟨s₂, heq, ho₂, hframe₂⟩ := ho.straightenRight (by omega)
        change ∃ s', SpanNodes.rotateLeft (SpanNodes.straightenRight (SpanNodes.updateNode s i) i j) i = _ ∧ _
        rw [heq]
        have hslots := (AvlTree.node rl j c rr).straightenRight_slots
        have hheight := (AvlTree.node rl j c rr).straightenRight_height_le
        generalize (AvlTree.node rl j c rr).straightenRight = R at ho₂ hslots hheight ⊢
        cases R with
        | nil => simp [AvlTree.slots] at hslots
        | node rl' j' c' rr' =>
          simp only [AvlTree.height] at hheight
          obtain ⟨s₃, hrot, hrep₃, hslots₃, hframe₃⟩ := ho₂.rotateLeft (by omega) (by omega)
          refine ⟨s₃, hrot, hrep₃, hslots₃, fun k hk => ?_⟩
          have hk' : k ∉ [i, j'] := by
            have hj' : j' ∈ (AvlTree.node rl j c rr).slots := by rw [← hslots]; simp [AvlTree.slots]
            simp only [mem_cons, not_mem_nil, or_false, not_or]
            exact ⟨fun he => hk (by simp [he]), fun he => hk (by simp [he, hj'])⟩
          rw [hframe₃ k hk', hframe₂ k hk, hframe k hk]
    · rw [if_neg (by omega), if_neg hsmall]
      exact ⟨_, rfl, hrep, h.slots, hframe⟩

end Rebalance

/-! ## Insertion -/

theorem Rep.insertAVL {idx : Nat} {b : ThroughputFreeSpan} : ∀ {t : SpanTree} {fuel : Nat} {s : SpanNodes},
    t.height < fuel → Rep s t → Rep s (.node .nil idx b .nil) → Slots (idx :: t.slots) → t.Balanced →
    t.height + 5 < 2 ^ 8 → ∃ s', SpanNodes.insertAVL fuel s (rootSlot t) idx =
      (s', rootSlot (t.insert Extent.off idx b)) ∧
      Holds s s' (idx :: t.slots) (t.insert Extent.off idx b)
  | _, 0, _, hf, _, _, _, _, _ => absurd hf (Nat.not_lt_zero _)
  | .nil, fuel + 1, s, _, _, hidx, hs, _, _ => ⟨s, rfl, hidx, hs, fun _ _ => rfl⟩
  | .node l j c r, fuel + 1, s, hf, ht, hidx, hs, hbal, hh => by
    obtain ⟨hn, -, -, hl, hr⟩ := ht
    obtain ⟨h₁, h₂, hbl, hbr⟩ := hbal
    have hperm : (idx :: (AvlTree.node l j c r).slots).Perm ((idx :: l.slots) ++ j :: r.slots) := .refl _
    obtain ⟨hsl, -, hj, hjl, -, hdisj⟩ := (hs.perm hperm).node
    have hs' : Slots (l.slots ++ j :: idx :: r.slots) :=
      hs.perm (perm_middle.symm.trans (((List.Perm.swap j idx r.slots).append_left l.slots)))
    obtain ⟨-, hsr, -, -, hjr, hdisj'⟩ := hs'.node
    simp only [AvlTree.height] at hf hh
    have hoff : (s idx).off = b.off := hidx.1.off
    have hroot : rootSlot (.node l j c r) = j := rfl
    rw [hroot, SpanNodes.insertAVL, if_neg hj, hoff, hn.off, AvlTree.insert]
    by_cases hlt : b.off < c.off
    · rw [if_pos hlt, if_pos hlt, hn.left]
      obtain ⟨s₁, heq, hrep, -, hframe⟩ := Rep.insertAVL (show l.height < fuel by omega) hl hidx hsl hbl (by omega)
      obtain ⟨-, -, hhi⟩ := AvlTree.insert_balanced Extent.off idx b hbl
      have hslots := AvlTree.insert_slots Extent.off idx b l
      rw [heq]
      have ho := Open.setLeft (hn.congr (hframe j hjl)) hrep
        (hr.congr fun k hk => hframe k fun hk' => hdisj k hk' hk)
        (hs.perm (hperm.trans (hslots.symm.append_right _)))
      obtain ⟨s₂, heq₂, hrep₂, hslots₂, hframe₂⟩ := ho.rebalance (by omega)
      refine ⟨s₂, heq₂, hrep₂, hslots₂, fun k hk => ?_⟩
      rw [hframe₂ k fun hk' => hk ((hslots.append_right _).mem_iff.1 hk')]
      rw [setLeft_ne fun he => hk (by simp [he, AvlTree.slots]), hframe k fun hk' => hk ?_]
      simp only [AvlTree.slots, mem_cons, mem_append] at hk' ⊢
      tauto
    · rw [if_neg hlt, if_neg hlt, hn.right]
      obtain ⟨s₁, heq, hrep, -, hframe⟩ := Rep.insertAVL (show r.height < fuel by omega) hr hidx hsr hbr (by omega)
      obtain ⟨-, -, hhi⟩ := AvlTree.insert_balanced Extent.off idx b hbr
      have hslots := AvlTree.insert_slots Extent.off idx b r
      rw [heq]
      have ho := Open.setRight (hn.congr (hframe j hjr))
        (hl.congr fun k hk => hframe k (hdisj' k hk)) hrep
        (hs'.perm ((hslots.symm.cons j).append_left _))
      obtain ⟨s₂, heq₂, hrep₂, hslots₂, hframe₂⟩ := ho.rebalance (by omega)
      refine ⟨s₂, heq₂, hrep₂, hslots₂, fun k hk => ?_⟩
      simp only [AvlTree.slots, mem_cons, mem_append, not_or] at hk
      rw [hframe₂ k fun hk' => ?_, setRight_ne hk.2.2.1, hframe k (by simp [hk])]
      have := ((hslots.cons j).append_left _).mem_iff.1 hk'
      simp only [mem_cons, mem_append] at this
      tauto

/-! ## Removal -/

/-- Links, heights and maxima may differ, the spans of the slots do not. -/
def SameSpans (s s' : SpanNodes) : Prop := ∀ k, (s' k).off = (s k).off ∧ (s' k).size = (s k).size

section SameSpans

variable {s s' s'' : SpanNodes}

theorem SameSpans.refl (s : SpanNodes) : SameSpans s s := fun _ => ⟨rfl, rfl⟩

theorem SameSpans.trans (h : SameSpans s s') (h' : SameSpans s' s'') : SameSpans s s'' := fun k =>
  ⟨(h' k).1.trans (h k).1, (h' k).2.trans (h k).2⟩

theorem sameSpans_update {i : Nat} {n : ThroughputSpanNode} (ho : n.off = (s i).off)
    (hs : n.size = (s i).size) : SameSpans s (Function.update s i n) := fun k => by
  by_cases hk : k = i
  · subst hk
    rw [update_self]
    exact ⟨ho, hs⟩
  · rw [update_of_ne hk]
    exact ⟨rfl, rfl⟩

theorem sameSpans_updateNode (i : Nat) : SameSpans s (SpanNodes.updateNode s i) := sameSpans_update rfl rfl

theorem sameSpans_setLeft (i k : Nat) : SameSpans s (SpanNodes.setLeft s i k) := sameSpans_update rfl rfl

theorem sameSpans_setRight (i k : Nat) : SameSpans s (SpanNodes.setRight s i k) := sameSpans_update rfl rfl

theorem sameSpans_rotateLeft (i : Nat) : SameSpans s (SpanNodes.rotateLeft s i).1 :=
  (((sameSpans_setLeft _ _).trans (sameSpans_setRight _ _)).trans (sameSpans_updateNode _)).trans
    (sameSpans_updateNode _)

theorem sameSpans_rotateRight (i : Nat) : SameSpans s (SpanNodes.rotateRight s i).1 :=
  (((sameSpans_setRight _ _).trans (sameSpans_setLeft _ _)).trans (sameSpans_updateNode _)).trans
    (sameSpans_updateNode _)

theorem sameSpans_rebalance (i : Nat) : SameSpans s (SpanNodes.rebalance s i).1 := by
  have hleft (s : SpanNodes) (j : Nat) : SameSpans s (SpanNodes.straightenLeft s i j) := by
    unfold SpanNodes.straightenLeft
    split
    · exact (sameSpans_rotateLeft _).trans (sameSpans_setLeft _ _)
    · exact .refl s
  have hright (s : SpanNodes) (j : Nat) : SameSpans s (SpanNodes.straightenRight s i j) := by
    unfold SpanNodes.straightenRight
    split
    · exact (sameSpans_rotateRight _).trans (sameSpans_setRight _ _)
    · exact .refl s
  unfold SpanNodes.rebalance
  dsimp only
  split_ifs
  · exact .refl s
  · exact ((sameSpans_updateNode _).trans (hleft _ _)).trans (sameSpans_rotateRight _)
  · exact ((sameSpans_updateNode _).trans (hright _ _)).trans (sameSpans_rotateLeft _)
  · exact sameSpans_updateNode _

end SameSpans

section Subtree

variable {s s' : SpanNodes} {l l' r r' : SpanTree} {i : Nat} {b : ThroughputFreeSpan}

/-- An operation on the left subtree that took no slots from elsewhere. -/
theorem Open.replaceLeft (h : Open s l i b r) (hl : Holds s s' l.slots l') (hsub : l'.slots ⊆ l.slots) :
    Open (SpanNodes.setLeft s' i (rootSlot l')) l' i b r ∧
      ∀ k, k ∉ l.slots ++ i :: r.slots → SpanNodes.setLeft s' i (rootSlot l') k = s k := by
  obtain ⟨hsl, hsr, -, hil, hir, hdisj⟩ := h.slots.node
  have hslots : Slots (l'.slots ++ i :: r.slots) := by
    refine ⟨nodup_append.2 ⟨hl.slots.nodup, nodup_cons.2 ⟨hir, hsr.nodup⟩, ?_⟩, fun k hk =>
      h.slots.valid k ?_⟩
    · rintro a ha d hd rfl
      rcases mem_cons.1 hd with rfl | hd
      · exact hil (hsub ha)
      · exact hdisj _ (hsub ha) hd
    · exact mem_append.2 ((mem_append.1 hk).imp_left (@hsub k))
  refine ⟨Open.setLeft (h.node.congr (hl.frame i hil)) hl.rep
    (h.right.congr fun k hk => hl.frame k fun hk' => hdisj k hk' hk) hslots, fun k hk => ?_⟩
  simp only [mem_append, mem_cons, not_or] at hk
  rw [setLeft_ne hk.2.1, hl.frame k hk.1]

theorem Open.replaceRight (h : Open s l i b r) (hr : Holds s s' r.slots r') (hsub : r'.slots ⊆ r.slots) :
    Open (SpanNodes.setRight s' i (rootSlot r')) l i b r' ∧
      ∀ k, k ∉ l.slots ++ i :: r.slots → SpanNodes.setRight s' i (rootSlot r') k = s k := by
  obtain ⟨hsl, hsr, -, hil, hir, hdisj⟩ := h.slots.node
  have hslots : Slots (l.slots ++ i :: r'.slots) := by
    refine ⟨nodup_append.2 ⟨hsl.nodup, nodup_cons.2 ⟨fun hi => hir (hsub hi), hr.slots.nodup⟩,
      ?_⟩, fun k hk => h.slots.valid k ?_⟩
    · rintro a ha d hd rfl
      rcases mem_cons.1 hd with rfl | hd
      · exact hil ha
      · exact hdisj _ ha (hsub hd)
    · simp only [mem_append, mem_cons] at hk ⊢
      exact hk.imp_right (Or.imp_right (@hsub k))
  refine ⟨Open.setRight (h.node.congr (hr.frame i hir))
    (h.left.congr fun k hk => hr.frame k (hdisj k hk)) hr.rep hslots, fun k hk => ?_⟩
  simp only [mem_append, mem_cons, not_or] at hk
  rw [setRight_ne hk.2.1, hr.frame k hk.2.2]

end Subtree

theorem Rep.leftmost {s : SpanNodes} {d : ThroughputFreeSpan} :
    ∀ {t : SpanTree} {fuel : Nat} {rest : List ThroughputFreeSpan}, Rep s t → Slots t.slots →
    t.height ≤ fuel + 1 → t.toList = d :: rest →
    (s (SpanNodes.leftmost s fuel (rootSlot t))).off = d.off ∧
    (s (SpanNodes.leftmost s fuel (rootSlot t))).size = d.size
  | .nil, _, _, _, _, _, h => by simp [AvlTree.toList] at h
  | .node l i b r, fuel, rest, ⟨hn, _, _, hl, hr⟩, hs, hf, h => by
    obtain ⟨hsl, -⟩ := hs.node
    have hroot : rootSlot (.node l i b r) = i := rfl
    rw [hroot]
    cases l with
    | nil =>
      obtain ⟨rfl, -⟩ := List.cons.inj h
      have hleft : (s i).left = throughputNoSlot := hn.left
      have hi : SpanNodes.leftmost s fuel i = i := by
        cases fuel with
        | zero => rfl
        | succ fuel => rw [SpanNodes.leftmost, if_neg (by simp [hleft])]
      rw [hi]
      exact ⟨hn.off, hn.size⟩
    | node ll j c lr =>
      cases fuel with
      | zero =>
        simp only [AvlTree.height] at hf
        omega
      | succ fuel =>
        have hne : (s i).left ≠ throughputNoSlot := by
          rw [hn.left]
          exact hsl.valid j (by simp [AvlTree.slots])
        rw [SpanNodes.leftmost, if_pos hne, hn.left]
        obtain ⟨rest', hl'⟩ : ∃ rest', (AvlTree.node ll j c lr).toList = d :: rest' := by
          cases hll : (AvlTree.node ll j c lr).toList with
          | nil => simp [AvlTree.toList] at hll
          | cons e rest' =>
            rw [AvlTree.toList, hll] at h
            obtain ⟨rfl, -⟩ := List.cons.inj h
            exact ⟨rest', rfl⟩
        exact Rep.leftmost hl hsl (by simp only [AvlTree.height] at hf ⊢; omega) hl'

/-- What a removal does to the slots and the height. -/
theorem removed_spec {t t' : SpanTree} {l₁ l₂ : List ThroughputFreeSpan} {b : ThroughputFreeSpan} {j : Nat}
    (h : t.toList = l₁ ++ b :: l₂) (hs : AvlTree.Sorted Extent.off t.toList) (hb : t.Balanced)
    (hrem : t.remove Extent.off b.off = (t', some j)) :
    t'.slots ⊆ t.slots ∧ t'.height ≤ t.height := by
  obtain ⟨t'', j', hrem', -, hperm, hb'⟩ := AvlTree.remove_spec h hs
  rw [hrem] at hrem'
  cases hrem'
  exact ⟨fun k hk => hperm.mem_iff.2 (by simp [hk]), (hb' hb).2.1⟩

theorem Rep.removeAVL : ∀ {t : SpanTree} {fuel : Nat} {s : SpanNodes} {l₁ l₂ : List ThroughputFreeSpan}
    {b : ThroughputFreeSpan}, t.height < fuel → Rep s t → Slots t.slots → t.Balanced →
    t.height + 5 < 2 ^ 8 → t.toList = l₁ ++ b :: l₂ → AvlTree.Sorted Extent.off t.toList →
    ∃ s' t' j, SpanNodes.removeAVL fuel s (rootSlot t) b.off = (s', rootSlot t', j, true) ∧
      t.remove Extent.off b.off = (t', some j) ∧ Holds s s' t.slots t' ∧
      (∀ k, (s k).off ≠ b.off → (s' k).off = (s k).off ∧ (s' k).size = (s k).size) ∧
      (l₁ = [] → SameSpans s s')
  | _, 0, _, _, _, _, hf, _, _, _, _, _, _ => absurd hf (Nat.not_lt_zero _)
  | .nil, _ + 1, _, _, _, _, _, _, _, _, _, h, _ => by simp [AvlTree.toList] at h
  | .node l i c r, fuel + 1, s, l₁, l₂, b, hf, ht, hs, hbal, hh, h, hsort => by
    have ho := ht.toOpen hs
    obtain ⟨hn, -, -, hl, hr⟩ := ht
    obtain ⟨h₁, h₂, hbl, hbr⟩ := hbal
    obtain ⟨hsl, hsr, hi, hil, hir, hdisj⟩ := hs.node
    obtain ⟨hsortl, hsortr, -⟩ := pairwise_append.1 hsort
    replace hsortr := (pairwise_cons.1 hsortr).2
    simp only [AvlTree.height] at hf hh
    have hroot : rootSlot (.node l i c r) = i := rfl
    rw [hroot, SpanNodes.removeAVL, if_neg hi, hn.off, AvlTree.remove]
    rw [h] at hsort
    rcases AvlTree.split_node h hsort with ⟨hlt, m, hlist, -⟩ | ⟨hgt, m, hlist, hl₁⟩ | ⟨rfl, rfl, rfl⟩
    · -- The span is in the left subtree.
      obtain ⟨s₁, l', j, heq, hrem, hheld, hkeep, hfirst⟩ :=
        Rep.removeAVL (show l.height < fuel by omega) hl hsl hbl (by omega) hlist hsortl
      obtain ⟨hsub, hlo⟩ := removed_spec hlist hsortl hbl hrem
      obtain ⟨hopen, hframe⟩ := ho.replaceLeft hheld hsub
      obtain ⟨s₂, heq₂, hrep₂, hslots₂, hframe₂⟩ := hopen.rebalance (by omega)
      have hsame : SameSpans s₁ s₂ := (sameSpans_setLeft _ _).trans
        (by have := sameSpans_rebalance (s := SpanNodes.setLeft s₁ i (rootSlot l')) i; rwa [heq₂] at this)
      refine ⟨s₂, _, j, ?_, ?_, ⟨hrep₂, hslots₂, fun k hk => ?_⟩, fun k hk => ?_, fun h0 =>
        (hfirst h0).trans hsame⟩
      · rw [if_pos hlt, hn.left, heq]
        dsimp only
        rw [heq₂]
        rfl
      · rw [if_pos hlt, hrem]
      · rw [hframe₂ k fun hk' => hk (mem_append.2 ((mem_append.1 hk').imp_left (@hsub k))),
          hframe k hk]
      · obtain ⟨ho', hs'⟩ := hkeep k hk
        exact ⟨(hsame k).1.trans ho', (hsame k).2.trans hs'⟩
    · obtain ⟨s₁, r', j, heq, hrem, hheld, hkeep, -⟩ :=
        Rep.removeAVL (show r.height < fuel by omega) hr hsr hbr (by omega) hlist hsortr
      obtain ⟨hsub, hlo⟩ := removed_spec hlist hsortr hbr hrem
      obtain ⟨hopen, hframe⟩ := ho.replaceRight hheld hsub
      obtain ⟨s₂, heq₂, hrep₂, hslots₂, hframe₂⟩ := hopen.rebalance (by omega)
      have hsame : SameSpans s₁ s₂ := (sameSpans_setRight _ _).trans
        (by have := sameSpans_rebalance (s := SpanNodes.setRight s₁ i (rootSlot r')) i; rwa [heq₂] at this)
      refine ⟨s₂, _, j, ?_, ?_, ⟨hrep₂, hslots₂, fun k hk => ?_⟩, fun k hk => ?_, by simp [hl₁]⟩
      · rw [if_neg (by omega), if_pos hgt, hn.right, heq]
        dsimp only
        rw [heq₂]
        rfl
      · rw [if_neg (by omega), if_pos hgt, hrem]
      · rw [hframe₂ k fun hk' => hk ?_, hframe k hk]
        simp only [AvlTree.slots, mem_append, mem_cons] at hk' ⊢
        exact hk'.imp_right (Or.imp_right (@hsub k))
      · obtain ⟨ho', hs'⟩ := hkeep k hk
        exact ⟨(hsame k).1.trans ho', (hsame k).2.trans hs'⟩
    · rw [if_neg (Nat.lt_irrefl _), if_neg (Nat.lt_irrefl _), if_neg (Nat.lt_irrefl _),
        if_neg (Nat.lt_irrefl _), hn.left, hn.right]
      cases hll : l.toList with
      | nil =>
        obtain rfl := AvlTree.toList_eq_nil hll
        refine ⟨s, r, i, ?_, rfl, ⟨hr, hsr, fun _ _ => rfl⟩, fun _ _ => ⟨rfl, rfl⟩, fun _ => .refl s⟩
        rw [if_pos (show rootSlot AvlTree.nil = throughputNoSlot from rfl)]
      | cons e rest =>
        have hlne : rootSlot l ≠ throughputNoSlot := fun h0 => by
          rw [(rootSlot_eq_none_iff hsl).1 h0] at hll
          cases hll
        rw [if_neg hlne]
        cases hrl : r.toList with
        | nil =>
          obtain rfl := AvlTree.toList_eq_nil hrl
          refine ⟨s, l, i, ?_, rfl, ⟨hl, hsl, fun _ _ => rfl⟩, fun _ _ => ⟨rfl, rfl⟩, fun _ => .refl s⟩
          rw [if_pos (show rootSlot AvlTree.nil = throughputNoSlot from rfl)]
        | cons d rest' =>
          have hrne : rootSlot r ≠ throughputNoSlot := fun h0 => by
            rw [(rootSlot_eq_none_iff hsr).1 h0] at hrl
            cases hrl
          rw [if_neg hrne]
          obtain ⟨hdo, hds⟩ := hr.leftmost hsr (show r.height ≤ fuel + 1 by omega) hrl
          -- The next span moves into the root's slot before its own is removed.
          have hopen := ho.setSpan d
          have hlist' : r.toList = [] ++ d :: rest' := hrl
          obtain ⟨s₁, r', j, heq, hrem, hheld, -, hfirst⟩ :=
            Rep.removeAVL (show r.height < fuel by omega) hopen.right hsr hbr (by omega) hlist' hsortr
          obtain ⟨hsub, hlo⟩ := removed_spec hlist' hsortr hbr hrem
          obtain ⟨hopen', hframe⟩ := hopen.replaceRight hheld hsub
          obtain ⟨s₂, heq₂, hrep₂, hslots₂, hframe₂⟩ := hopen'.rebalance (by omega)
          have hsame : SameSpans s₁ s₂ := (sameSpans_setRight _ _).trans
            (by have := sameSpans_rebalance (s := SpanNodes.setRight s₁ i (rootSlot r')) i; rwa [heq₂] at this)
          refine ⟨s₂, _, j, ?_, ?_, ⟨hrep₂, hslots₂, fun k hk => ?_⟩, fun k hk => ?_, by simp⟩
          · dsimp only
            rw [hdo, hds, hopen.node.right, hopen.node.off, heq]
            dsimp only
            rw [heq₂]
          · dsimp only
            rw [hrem]
          · rw [hframe₂ k fun hk' => hk ?_, hframe k hk, setSpan_ne fun he => hk (by simp [he, AvlTree.slots])]
            simp only [AvlTree.slots, mem_append, mem_cons] at hk' ⊢
            exact hk'.imp_right (Or.imp_right (@hsub k))
          · have hki : k ≠ i := by
              rintro rfl
              exact hk hn.off
            obtain ⟨ho', hs'⟩ := (hfirst rfl).trans hsame k
            rw [setSpan_ne hki] at ho' hs'
            exact ⟨ho', hs'⟩

/-! ## Replacement -/

theorem rootSlot_replace (b' : ThroughputFreeSpan) (k : Nat) :
    ∀ t : SpanTree, rootSlot (t.replace Extent.off b' k) = rootSlot t
  | .nil => rfl
  | .node l i b r => by
    rw [AvlTree.replace]
    split_ifs <;> rfl

theorem Rep.replaceFreeSpanAVL (b' : ThroughputFreeSpan) : ∀ {t : SpanTree} {fuel : Nat} {s : SpanNodes}
    {l₁ l₂ : List ThroughputFreeSpan} {b : ThroughputFreeSpan}, t.height < fuel → Rep s t →
    Slots t.slots → t.height < 2 ^ 8 → t.toList = l₁ ++ b :: l₂ →
    AvlTree.Sorted Extent.off t.toList →
    ∃ s', SpanNodes.replaceFreeSpanAVL fuel s (rootSlot t) b.off b' = (s', rootSlot t, true) ∧
      Holds s s' t.slots (t.replace Extent.off b' b.off)
  | _, 0, _, _, _, _, hf, _, _, _, _, _ => absurd hf (Nat.not_lt_zero _)
  | .nil, _ + 1, _, _, _, _, _, _, _, _, h, _ => by simp [AvlTree.toList] at h
  | .node l i c r, fuel + 1, s, l₁, l₂, b, hf, ht, hs, hh, h, hsort => by
    have ho := ht.toOpen hs
    obtain ⟨hn, -, -, hl, hr⟩ := ht
    obtain ⟨hsl, hsr, hi, hil, hir, hdisj⟩ := hs.node
    obtain ⟨hsortl, hsortr, -⟩ := pairwise_append.1 hsort
    replace hsortr := (pairwise_cons.1 hsortr).2
    simp only [AvlTree.height] at hf hh
    have hroot : rootSlot (.node l i c r) = i := rfl
    rw [hroot, SpanNodes.replaceFreeSpanAVL, if_neg hi, hn.off, AvlTree.replace]
    rw [h] at hsort
    rcases AvlTree.split_node h hsort with ⟨hlt, m, hlist, -⟩ | ⟨hgt, m, hlist, -⟩ | ⟨rfl, rfl, rfl⟩
    · obtain ⟨s₁, heq, hheld⟩ :=
        Rep.replaceFreeSpanAVL b' (show l.height < fuel by omega) hl hsl (by omega) hlist hsortl
      obtain ⟨hopen, hframe⟩ := ho.replaceLeft hheld (by rw [AvlTree.replace_slots]; exact List.Subset.refl _)
      rw [rootSlot_replace] at hopen hframe
      have hrep := hopen.updateNode (by rw [AvlTree.replace_height]; omega)
      rw [if_pos hlt, if_pos hlt, hn.left, heq]
      refine ⟨_, rfl, hrep, hopen.slots, fun k hk => ?_⟩
      rw [if_pos rfl, updateNode_ne fun he => hk (by simp [he, AvlTree.slots]), hframe k hk]
    · obtain ⟨s₁, heq, hheld⟩ :=
        Rep.replaceFreeSpanAVL b' (show r.height < fuel by omega) hr hsr (by omega) hlist hsortr
      obtain ⟨hopen, hframe⟩ := ho.replaceRight hheld (by rw [AvlTree.replace_slots]; exact List.Subset.refl _)
      rw [rootSlot_replace] at hopen hframe
      have hrep := hopen.updateNode (by rw [AvlTree.replace_height]; omega)
      rw [if_neg (by omega), if_pos hgt, if_neg (by omega), if_pos hgt, hn.right, heq]
      refine ⟨_, rfl, hrep, hopen.slots, fun k hk => ?_⟩
      rw [if_pos rfl, updateNode_ne fun he => hk (by simp [he, AvlTree.slots]), hframe k hk]
    · have hopen := ho.setSpan b'
      rw [if_neg (Nat.lt_irrefl _), if_neg (Nat.lt_irrefl _), if_neg (Nat.lt_irrefl _),
        if_neg (Nat.lt_irrefl _)]
      refine ⟨_, rfl, hopen.updateNode (by omega), hopen.slots, fun k hk => ?_⟩
      have hki : k ≠ i := fun he => hk (by simp [he, AvlTree.slots])
      rw [updateNode_ne hki, setSpan_ne hki]

/-! ## Searching -/

/-- The slot `j` holds the span `b`. -/
structure SpanAt (s : SpanNodes) (j : Nat) (b : ThroughputFreeSpan) : Prop where
  valid : j ≠ throughputNoSlot
  off : (s j).off = b.off
  size : (s j).size = b.size

section Search

variable {s : SpanNodes}

theorem Rep.findSpanByOffset : ∀ {t : SpanTree} {fuel : Nat} {l₁ l₂ : List ThroughputFreeSpan}
    {b : ThroughputFreeSpan}, t.height < fuel → Rep s t → Slots t.slots → t.toList = l₁ ++ b :: l₂ →
    AvlTree.Sorted Extent.off t.toList →
    SpanAt s (SpanNodes.findSpanByOffset s b.off fuel (rootSlot t)) b
  | _, 0, _, _, _, hf, _, _, _, _ => absurd hf (Nat.not_lt_zero _)
  | .nil, _ + 1, _, _, _, _, _, _, h, _ => by simp [AvlTree.toList] at h
  | .node l i c r, fuel + 1, l₁, l₂, b, hf, ⟨hn, _, _, hl, hr⟩, hs, h, hsort => by
    obtain ⟨hsl, hsr, hi, -⟩ := hs.node
    obtain ⟨hsortl, hsortr, -⟩ := pairwise_append.1 hsort
    replace hsortr := (pairwise_cons.1 hsortr).2
    simp only [AvlTree.height] at hf
    have hroot : rootSlot (.node l i c r) = i := rfl
    rw [hroot, SpanNodes.findSpanByOffset, if_neg hi]
    dsimp only
    rw [hn.off]
    rw [h] at hsort
    rcases AvlTree.split_node h hsort with ⟨hlt, m, hlist, -⟩ | ⟨hgt, m, hlist, -⟩ | ⟨rfl, rfl, rfl⟩
    · rw [if_pos hlt, hn.left]
      exact Rep.findSpanByOffset (by omega) hl hsl hlist hsortl
    · rw [if_neg (by omega), if_pos hgt, hn.right]
      exact Rep.findSpanByOffset (by omega) hr hsr hlist hsortr
    · rw [if_neg (Nat.lt_irrefl _), if_neg (Nat.lt_irrefl _)]
      exact ⟨hi, hn.off, hn.size⟩

/-- The search for a span that is there returns the lowest one. -/
theorem Rep.findSpan {size : Nat} : ∀ {t : SpanTree} {fuel : Nat}, t.height < fuel → Rep s t →
    Slots t.slots → (∃ b ∈ t.toList, size ≤ b.size) → ∃ l₁ b l₂, t.toList = l₁ ++ b :: l₂ ∧
      (∀ x ∈ l₁, x.size < size) ∧ size ≤ b.size ∧
      SpanAt s (SpanNodes.findSpan s size fuel (rootSlot t)) b
  | _, 0, hf, _, _, _ => absurd hf (Nat.not_lt_zero _)
  | .nil, _ + 1, _, _, _, h => by simp [AvlTree.toList] at h
  | .node l i c r, fuel + 1, hf, ⟨hn, _, _, hl, hr⟩, hs, h => by
    obtain ⟨hsl, hsr, hi, -⟩ := hs.node
    simp only [AvlTree.height] at hf
    have hroot : rootSlot (.node l i c r) = i := rfl
    rw [hroot, SpanNodes.findSpan, if_neg hi]
    dsimp only
    rw [hn.left, hn.size, hn.right]
    have hleft : (rootSlot l ≠ throughputNoSlot ∧ (s (rootSlot l)).maxSize ≥ size) ↔
        ∃ b ∈ l.toList, size ≤ b.size := by
      cases l with
      | nil => simp [rootSlot, AvlTree.toList]
      | node ll j d lr =>
        have hj : rootSlot (.node ll j d lr) ≠ throughputNoSlot := hsl.valid j (by simp [AvlTree.slots])
        have hmax : (s (rootSlot (.node ll j d lr))).maxSize = spanMax (.node ll j d lr) := hl.2.2.1
        rw [hmax, ← AvlTree.le_maxWeight_iff_of_ne_nil (by simp)]
        simp [hj]
    by_cases hin : ∃ b ∈ l.toList, size ≤ b.size
    · obtain ⟨l₁, b, l₂, hlist, hsmall, hbig, hat⟩ := Rep.findSpan (show l.height < fuel by omega) hl hsl hin
      rw [if_pos (hleft.2 hin)]
      exact ⟨l₁, b, l₂ ++ c :: r.toList, by simp [AvlTree.toList, hlist], hsmall, hbig, hat⟩
    · have hlsmall : ∀ x ∈ l.toList, x.size < size := fun x hx =>
        Nat.lt_of_not_le fun hle => hin ⟨x, hx, hle⟩
      rw [if_neg fun h' => hin (hleft.1 h')]
      by_cases hc : c.size ≥ size
      · rw [if_pos hc]
        exact ⟨l.toList, c, r.toList, rfl, hlsmall, hc, hi, hn.off, hn.size⟩
      · have hright : ∃ b ∈ r.toList, size ≤ b.size := by
          obtain ⟨b, hb, hle⟩ := h
          simp only [AvlTree.toList, mem_append, mem_cons] at hb
          rcases hb with hb | rfl | hb
          · exact absurd ⟨b, hb, hle⟩ hin
          · exact absurd hle hc
          · exact ⟨b, hb, hle⟩
        obtain ⟨l₁, b, l₂, hlist, hsmall, hbig, hat⟩ :=
          Rep.findSpan (show r.height < fuel by omega) hr hsr hright
        rw [if_neg hc]
        refine ⟨l.toList ++ c :: l₁, b, l₂, by simp [AvlTree.toList, hlist], fun x hx => ?_, hbig, hat⟩
        simp only [mem_append, mem_cons] at hx
        rcases hx with hx | rfl | hx
        · exact hlsmall x hx
        · omega
        · exact hsmall x hx

/-- The slot `j` holds the span, or is `default` when there is none. -/
def Points (s : SpanNodes) (default j : Nat) : Option ThroughputFreeSpan → Prop
  | none => j = default
  | some b => SpanAt s j b

theorem Rep.spanNeighbors {off : Nat} : ∀ {t : SpanTree} {fuel pred succ : Nat}
    {l₁ l₂ : List ThroughputFreeSpan}, t.height < fuel → Rep s t → Slots t.slots →
    t.toList = l₁ ++ l₂ → (∀ x ∈ l₁, x.off < off) → (∀ x ∈ l₂, off ≤ x.off) →
    Points s pred (SpanNodes.spanNeighbors s off fuel (rootSlot t) pred succ).1 l₁.getLast? ∧
    Points s succ (SpanNodes.spanNeighbors s off fuel (rootSlot t) pred succ).2 l₂.head?
  | _, 0, _, _, _, _, hf, _, _, _, _, _ => absurd hf (Nat.not_lt_zero _)
  | .nil, fuel + 1, pred, succ, l₁, l₂, _, _, _, h, _, _ => by
    obtain ⟨rfl, rfl⟩ := append_eq_nil_iff.1 h.symm
    have hnone : rootSlot .nil = throughputNoSlot := rfl
    rw [SpanNodes.spanNeighbors, if_pos hnone]
    exact ⟨rfl, rfl⟩
  | .node l i b r, fuel + 1, pred, succ, l₁, l₂, hf, ⟨hn, _, _, hl, hr⟩, hs, h, h₁, h₂ => by
    obtain ⟨hsl, hsr, hi, -⟩ := hs.node
    have hat : SpanAt s i b := ⟨hi, hn.off, hn.size⟩
    simp only [AvlTree.height] at hf
    have hroot : rootSlot (.node l i b r) = i := rfl
    rw [hroot, SpanNodes.spanNeighbors, if_neg hi]
    dsimp only
    rw [hn.off, hn.left, hn.right]
    by_cases hle : off ≤ b.off
    · obtain ⟨m, hlist, rfl⟩ := AvlTree.split_left h fun hb => by have := h₁ b hb; omega
      rw [if_pos hle]
      obtain ⟨hp, hq⟩ := Rep.spanNeighbors (show l.height < fuel by omega) hl hsl hlist h₁
        fun x hx => h₂ x (by simp [hx])
      refine ⟨hp, ?_⟩
      cases m with
      | nil =>
        have hq' : _ = i := hq
        rw [hq']
        exact hat
      | cons x m => exact hq
    · obtain ⟨m, hlist, rfl⟩ := AvlTree.split_right h fun hb => hle (h₂ b hb)
      rw [if_neg hle]
      obtain ⟨hp, hq⟩ := Rep.spanNeighbors (show r.height < fuel by omega) hr hsr hlist
        (fun x hx => h₁ x (by simp [hx])) h₂
      refine ⟨?_, hq⟩
      rw [List.getLast?_append_cons]
      cases m with
      | nil =>
        have hp' : _ = i := hp
        rw [hp']
        exact hat
      | cons x m =>
        rw [List.getLast?_cons_cons]
        exact hp

end Search

end SpanNodes

end Wago.Gc
