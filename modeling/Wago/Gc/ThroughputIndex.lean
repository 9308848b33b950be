/-
The free index of the throughput heap. Every slot of the arena belongs to the tree, to the chain of
free nodes or to the operation under way. The spans of the tree are aligned, do not touch each other
and do not touch the bump; putting a span into the index joins it with the spans next to it and keeps
this.
-/
import Mathlib.Data.List.Nodup
import Wago.Gc.SpanArenaSpec
import Wago.Gc.ThroughputHeap

namespace Wago.Gc

open List

open Wago.Avl (AvlTree)
open Wago.Extents (Extent Apart Below Joins Packed total)

/-! ## Slots -/

/-- The chain of free nodes. -/
def FreeChain (s : SpanNodes) : (head : Nat) → List Nat → Prop
  | head, [] => head = throughputNoSlot
  | head, i :: rest => head = i ∧ FreeChain s (s i).nextFree rest

theorem FreeChain.congr {s s' : SpanNodes} : ∀ {head : Nat} {fl : List Nat}, FreeChain s head fl →
    (∀ i ∈ fl, s' i = s i) → FreeChain s' head fl
  | _, [], h, _ => h
  | _, i :: rest, ⟨hhead, hrest⟩, heq => by
    refine ⟨hhead, ?_⟩
    rw [heq i (by simp)]
    exact hrest.congr fun j hj => heq j (by simp [hj])

/-- The arena holds the tree `t` and the chain `fl`; the slots of `hand` are in neither. -/
structure SpanIndex (h : ThroughputHeap) (t : SpanTree) (fl hand : List Nat) : Prop where
  root : h.spanRoot = rootSlot t
  rep : SpanNodes.Rep h.spanNodes t
  balanced : t.Balanced
  chain : FreeChain h.spanNodes h.freeNodeHead fl
  slots : (hand ++ (t.slots ++ fl)).Perm (List.range h.nodeCount)
  count_le : h.nodeCount ≤ throughputNoSlot
  count : h.spanCount = t.toList.length

/-- What the operations on the index do not touch. -/
structure SameBase (h h' : ThroughputHeap) : Prop where
  memLen : h'.memLen = h.memLen
  limit : h'.limit = h.limit
  pageBytes : h'.pageBytes = h.pageBytes
  classLimit : h'.classLimit = h.classLimit
  pendingFree : h'.pendingFree = h.pendingFree
  pendingBytes : h'.pendingBytes = h.pendingBytes
  armed : h'.armed = h.armed

theorem SameBase.refl (h : ThroughputHeap) : SameBase h h := ⟨rfl, rfl, rfl, rfl, rfl, rfl, rfl⟩

theorem SameBase.trans {h₁ h₂ h₃ : ThroughputHeap} (a : SameBase h₁ h₂) (b : SameBase h₂ h₃) :
    SameBase h₁ h₃ :=
  ⟨b.memLen.trans a.memLen, b.limit.trans a.limit, b.pageBytes.trans a.pageBytes,
    b.classLimit.trans a.classLimit, b.pendingFree.trans a.pendingFree,
    b.pendingBytes.trans a.pendingBytes, b.armed.trans a.armed⟩

namespace SpanIndex

variable {h : ThroughputHeap} {t : SpanTree} {fl hand : List Nat}

variable (hi : SpanIndex h t fl hand)

include hi

theorem allSlots : SpanNodes.Slots (hand ++ (t.slots ++ fl)) where
  nodup := hi.slots.nodup_iff.2 nodup_range
  valid i hmem := by
    have := mem_range.1 (hi.slots.mem_iff.1 hmem)
    have := hi.count_le
    omega

theorem treeSlots : SpanNodes.Slots t.slots :=
  ⟨(nodup_append.1 (nodup_append.1 hi.allSlots.nodup).2.1).1,
    fun i hi' => hi.allSlots.valid i (by simp [hi'])⟩

theorem tree_chain : ∀ i ∈ fl, i ∉ t.slots := fun i hi' hmem =>
  (nodup_append.1 (nodup_append.1 hi.allSlots.nodup).2.1).2.2 i hmem i hi' rfl

theorem hand_rest : ∀ i ∈ hand, i ∉ t.slots ∧ i ∉ fl := fun i hi' =>
  ⟨fun hmem => (nodup_append.1 hi.allSlots.nodup).2.2 i hi' i (by simp [hmem]) rfl,
    fun hmem => (nodup_append.1 hi.allSlots.nodup).2.2 i hi' i (by simp [hmem]) rfl⟩

theorem length_le : t.slots.length ≤ h.nodeCount := by
  have := hi.slots.length_eq
  simp only [length_append, length_range] at this
  omega

theorem height_lt_depth : t.height < h.depth := by
  have := t.height_le_length
  have := hi.length_le
  unfold ThroughputHeap.depth
  omega

/-- Heights stay far below the limit of a byte. -/
theorem height_le : t.height ≤ 65 := by
  by_contra hgt
  have h₁ := hi.balanced.two_pow_le
  have h₂ := Nat.pow_le_pow_right (n := 2) (by decide) (show 33 ≤ t.height / 2 by omega)
  have h₃ := hi.length_le
  have h₄ := hi.count_le
  have h₅ : throughputNoSlot = 2 ^ 32 - 1 := rfl
  omega

section Operations

variable {b : Extent} {l₁ l₂ : List Extent}

theorem removeFreeSpan (hl : t.toList = l₁ ++ b :: l₂)
    (hs : AvlTree.Sorted Extent.off t.toList) : ∃ h' t' j, h.removeFreeSpan b.off = (h', j, true) ∧
      SpanIndex h' t' fl (j :: hand) ∧ t'.toList = l₁ ++ l₂ ∧ SameBase h h' ∧ h'.bump = h.bump ∧
      h'.freeBytes = h.freeBytes - b.size ∧
      ∀ k c, c.off ≠ b.off → SpanNodes.SpanAt h.spanNodes k c → SpanNodes.SpanAt h'.spanNodes k c := by
  have hheight := hi.height_le
  have hat := hi.rep.findSpanByOffset hi.height_lt_depth hi.treeSlots hl hs
  obtain ⟨s', t', j, heq, hrem, hheld, hkeep, -⟩ :=
    hi.rep.removeAVL hi.height_lt_depth hi.treeSlots hi.balanced (by omega) hl hs
  obtain ⟨t'', j', hrem', hlist, hperm, hbal⟩ := AvlTree.remove_spec hl hs
  rw [hrem] at hrem'
  cases hrem'
  have hfl := hi.tree_chain
  have hcount : h.spanCount - 1 = t'.toList.length := by
    rw [hi.count, hl, hlist]
    simp only [length_append, length_cons]
    omega
  refine ⟨{ h with
      spanNodes := s', spanRoot := rootSlot t', freeBytes := h.freeBytes - b.size
      spanCount := h.spanCount - 1 }, t', j, ?_,
    { root := rfl, rep := hheld.rep, balanced := (hbal hi.balanced).1
      chain := hi.chain.congr fun i hi' => hheld.frame i (hfl i hi'), slots := ?_
      count_le := hi.count_le, count := hcount },
    hlist, ⟨rfl, rfl, rfl, rfl, rfl, rfl, rfl⟩, rfl, rfl, fun k c hc hk => ?_⟩
  · unfold ThroughputHeap.removeFreeSpan
    dsimp only
    rw [hi.root, if_neg hat.valid, heq, hat.size]
    rfl
  · refine List.Perm.trans ?_ hi.slots
    have hmove : (j :: hand ++ (t'.slots ++ fl)).Perm (hand ++ j :: (t'.slots ++ fl)) :=
      perm_middle.symm
    exact hmove.trans ((hperm.symm.append_right fl).append_left hand)
  · obtain ⟨ho, hs'⟩ := hkeep k (by rw [hk.off]; exact hc)
    exact ⟨hk.valid, ho.trans hk.off, hs'.trans hk.size⟩

theorem replaceFreeSpan (b' : Extent) (hl : t.toList = l₁ ++ b :: l₂)
    (hs : AvlTree.Sorted Extent.off t.toList) : ∃ h' t', h.replaceFreeSpan b.off b' = (h', true) ∧
      SpanIndex h' t' fl hand ∧ t'.toList = l₁ ++ b' :: l₂ ∧ SameBase h h' ∧ h'.bump = h.bump ∧
      h'.freeBytes = h.freeBytes := by
  have hheight := hi.height_le
  obtain ⟨s', heq, hheld⟩ :=
    hi.rep.replaceFreeSpanAVL b' hi.height_lt_depth hi.treeSlots (by omega) hl hs
  have hlist := AvlTree.replace_toList b' hl hs
  have hfl := hi.tree_chain
  refine ⟨{ h with spanNodes := s', spanRoot := rootSlot t }, t.replace Extent.off b' b.off, ?_,
    { root := (SpanNodes.rootSlot_replace b' b.off t).symm, rep := hheld.rep
      balanced := hi.balanced.replace b' b.off
      chain := hi.chain.congr fun i hi' => hheld.frame i (hfl i hi')
      slots := by rw [AvlTree.replace_slots]; exact hi.slots
      count_le := hi.count_le, count := ?_ },
    hlist, ⟨rfl, rfl, rfl, rfl, rfl, rfl, rfl⟩, rfl, rfl⟩
  · unfold ThroughputHeap.replaceFreeSpan
    rw [hi.root, heq]
  · rw [hlist]
    rw [← hi.count.symm, hl]
    simp

omit hi in
theorem releaseSpanNode {idx : Nat} (hi : SpanIndex h t fl (idx :: hand)) :
    SpanIndex (h.releaseSpanNode idx) t (idx :: fl) hand := by
  obtain ⟨hit, hif⟩ := hi.hand_rest idx (by simp)
  have hne : ∀ k, k ≠ idx → (h.releaseSpanNode idx).spanNodes k = h.spanNodes k := fun k hk =>
    Function.update_of_ne hk _ _
  have hnext : ((h.releaseSpanNode idx).spanNodes idx).nextFree = h.freeNodeHead := by
    unfold ThroughputHeap.releaseSpanNode
    dsimp only
    rw [Function.update_self]
  refine
    { root := hi.root, rep := hi.rep.congr fun k hk => hne k fun he => hit (he ▸ hk)
      balanced := hi.balanced, chain := ⟨rfl, ?_⟩, slots := ?_, count_le := hi.count_le
      count := hi.count }
  · rw [hnext]
    exact hi.chain.congr fun k hk => hne k fun he => hif (he ▸ hk)
  · have hmove : (t.slots ++ idx :: fl).Perm (idx :: (t.slots ++ fl)) := perm_middle
    exact ((hmove.append_left hand).trans perm_middle).trans hi.slots

theorem acquireSpanNode (hlt : hand.length + t.slots.length < throughputNoSlot) :
    ∃ h' idx fl', h.acquireSpanNode = .ok (h', idx) ∧ SpanIndex h' t fl' (idx :: hand) ∧ SameBase h h' ∧
      h'.bump = h.bump ∧ h'.freeBytes = h.freeBytes := by
  have hne : ∀ i k, k ≠ i → Function.update h.spanNodes i .zero k = h.spanNodes k := fun i k hk =>
    Function.update_of_ne hk _ _
  cases fl with
  | cons i rest =>
    have hhead : h.freeNodeHead = i := hi.chain.1
    have hi₀ : i ≠ throughputNoSlot := hi.allSlots.valid i (by simp)
    have hnd : i ∉ rest := (nodup_cons.1
      (nodup_append.1 (nodup_append.1 hi.allSlots.nodup).2.1).2.1).1
    have htree := hi.tree_chain i (by simp)
    have heq : h.acquireSpanNode = .ok ({ h with
        freeNodeHead := (h.spanNodes i).nextFree
        spanNodes := Function.update h.spanNodes i .zero }, i) := by
      unfold ThroughputHeap.acquireSpanNode
      dsimp only
      rw [hhead, if_pos hi₀]
    refine ⟨_, i, rest, heq,
      { root := hi.root, rep := hi.rep.congr fun k hk => hne i k fun he => htree (he ▸ hk)
        balanced := hi.balanced
        chain := hi.chain.2.congr fun k hk => hne i k fun he => hnd (he ▸ hk)
        slots := ?_, count_le := hi.count_le, count := hi.count },
      ⟨rfl, rfl, rfl, rfl, rfl, rfl, rfl⟩, rfl, rfl⟩
    have hmove : (t.slots ++ i :: rest).Perm (i :: (t.slots ++ rest)) := perm_middle
    exact (((hmove.append_left hand).trans perm_middle).symm).trans hi.slots
  | nil =>
    have hhead : h.freeNodeHead = throughputNoSlot := hi.chain
    have hcount : h.nodeCount = hand.length + t.slots.length := by
      have := hi.slots.length_eq
      simp only [length_append, length_range, append_nil] at this
      exact this.symm
    have hfresh : h.nodeCount ∉ hand ++ (t.slots ++ []) := fun hmem =>
      absurd (mem_range.1 (hi.slots.mem_iff.1 hmem)) (Nat.lt_irrefl _)
    have heq : h.acquireSpanNode = .ok ({ h with
        spanNodes := Function.update h.spanNodes h.nodeCount .zero
        nodeCount := h.nodeCount + 1 }, h.nodeCount) := by
      unfold ThroughputHeap.acquireSpanNode
      dsimp only
      rw [if_neg (by simp [hhead]), if_neg (by omega)]
    refine ⟨_, h.nodeCount, [], heq,
      { root := hi.root
        rep := hi.rep.congr fun k hk => hne _ k fun he => hfresh (by simp [← he, hk])
        balanced := hi.balanced, chain := hhead, slots := ?_, count_le := ?_, count := hi.count },
      ⟨rfl, rfl, rfl, rfl, rfl, rfl, rfl⟩, rfl, rfl⟩
    · dsimp only
      rw [range_succ]
      exact (hi.slots.cons h.nodeCount).trans (perm_append_singleton _ _).symm
    · change h.nodeCount + 1 ≤ _
      omega

omit hi in
theorem insertFreeSpanNode {idx : Nat} (hi : SpanIndex h t fl (idx :: hand)) (hl : t.toList = l₁ ++ l₂)
    (h₁ : ∀ x ∈ l₁, x.off ≤ b.off) (h₂ : ∀ x ∈ l₂, b.off < x.off) :
    ∃ t', SpanIndex (h.insertFreeSpanNode b idx) t' fl hand ∧ t'.toList = l₁ ++ b :: l₂ ∧
      SameBase h (h.insertFreeSpanNode b idx) ∧ (h.insertFreeSpanNode b idx).bump = h.bump ∧
      (h.insertFreeSpanNode b idx).freeBytes = h.freeBytes + b.size := by
  obtain ⟨hit, hif⟩ := hi.hand_rest idx (by simp)
  have hheight := hi.height_le
  let node : ThroughputSpanNode :=
    { off := b.off, size := b.size, maxSize := b.size, left := throughputNoSlot
      right := throughputNoSlot, nextFree := throughputNoSlot, height := 1 }
  have hne : ∀ k, k ≠ idx → Function.update h.spanNodes idx node k = h.spanNodes k := fun k hk =>
    Function.update_of_ne hk _ _
  have hself : Function.update h.spanNodes idx node idx = node := Function.update_self _ _ _
  have hrep₀ : SpanNodes.Rep (Function.update h.spanNodes idx node) (.node .nil idx b .nil) := by
    refine ⟨⟨?_, ?_, ?_, ?_⟩, ?_, ?_, trivial, trivial⟩ <;> simp only [hself]
    · rfl
    · rfl
    · rfl
    · rfl
    · simp [node, AvlTree.height]
    · simp [node, spanMax, AvlTree.maxWeight]
  have hslots : SpanNodes.Slots (idx :: t.slots) :=
    ⟨nodup_cons.2 ⟨hit, hi.treeSlots.nodup⟩, fun k hk => hi.allSlots.valid k (by
      simp only [mem_cons, mem_append] at hk ⊢
      tauto)⟩
  obtain ⟨s', heq, hheld⟩ := (hi.rep.congr fun k hk => hne k fun he => hit (he ▸ hk)).insertAVL
    hi.height_lt_depth hrep₀ hslots hi.balanced (by omega)
  have hlist := AvlTree.insert_toList idx hl h₁ h₂
  have hval : h.insertFreeSpanNode b idx = { h with
      spanNodes := s', spanRoot := rootSlot (t.insert Extent.off idx b)
      freeBytes := h.freeBytes + b.size, spanCount := h.spanCount + 1 } := by
    unfold ThroughputHeap.insertFreeSpanNode
    rw [hi.root]
    dsimp only
    rw [heq]
  rw [hval]
  refine ⟨t.insert Extent.off idx b,
    { root := rfl, rep := hheld.rep
      balanced := (AvlTree.insert_balanced Extent.off idx b hi.balanced).1
      chain := hi.chain.congr fun k hk => ?_, slots := ?_, count_le := hi.count_le, count := ?_ },
    hlist, ⟨rfl, rfl, rfl, rfl, rfl, rfl, rfl⟩, rfl, rfl⟩
  · have hki : k ≠ idx := fun he => hif (he ▸ hk)
    dsimp only
    rw [hheld.frame k (by simp [hki, hi.tree_chain k hk]), hne k hki]
  · have hperm := AvlTree.insert_slots Extent.off idx b t
    refine ((hperm.append_right fl).append_left hand).trans ?_
    exact perm_middle.trans hi.slots
  · rw [hlist, hi.count, hl]
    simp only [length_append, length_cons]
    omega

end Operations

end SpanIndex

/-! ## The spans of the index -/

/-- The index holds aligned spans that touch neither each other nor the bump. -/
structure FreeIndex (h : ThroughputHeap) (t : SpanTree) : Prop where
  index : ∃ fl, SpanIndex h t fl []
  bytes : h.freeBytes = total t.toList
  aligned : ∀ a ∈ t.toList, a.off % 16 = 0 ∧ a.size % 16 = 0 ∧ 0 < a.size
  spaced : t.toList.Pairwise fun a b => a.stop < b.off
  top : ∀ a ∈ t.toList, a.stop < h.bump
  bump_lt : h.bump < 2 ^ 32
  bump_mod : h.bump % 16 = 0

/-- Spans may go and new ones come, if these are aligned and keep away from the bump. -/
theorem FreeIndex.of_list {h h' : ThroughputHeap} {t t' : SpanTree} {fl : List Nat} (hi : FreeIndex h t)
    (hidx : SpanIndex h' t' fl []) (hb : h'.bump = h.bump) (hbytes : h'.freeBytes = total t'.toList)
    (hs : t'.toList.Pairwise fun a b => a.stop < b.off)
    (hall : ∀ a ∈ t'.toList, a ∈ t.toList ∨
      (a.off % 16 = 0 ∧ a.size % 16 = 0 ∧ 0 < a.size) ∧ a.stop < h.bump) : FreeIndex h' t' where
  index := ⟨fl, hidx⟩
  bytes := hbytes
  aligned a ha := (hall a ha).elim (hi.aligned a) And.left
  spaced := hs
  top a ha := hb ▸ (hall a ha).elim (hi.top a) And.right
  bump_lt := hb ▸ hi.bump_lt
  bump_mod := hb ▸ hi.bump_mod

theorem sorted_of_spaced {l : List Extent} (h : l.Pairwise fun a b => a.stop < b.off) :
    AvlTree.Sorted Extent.off l :=
  h.imp fun {a b} hab => by unfold Extent.stop at hab; omega

/-- Spans with gaps between them are few. -/
theorem length_le_of_spaced {bound : Nat} : ∀ {l : List Extent} {lo : Nat}, lo ≤ bound →
    l.Pairwise (fun a b => a.stop < b.off) → (∀ a ∈ l, lo ≤ a.off ∧ 0 < a.size ∧ a.stop < bound) →
    lo + 2 * l.length ≤ bound
  | [], _, hlo, _, _ => hlo
  | a :: l, lo, _, hs, hall => by
    obtain ⟨hal, hs'⟩ := pairwise_cons.1 hs
    obtain ⟨hlo, hsz, htop⟩ := hall a (by simp)
    have ih := length_le_of_spaced (show a.stop + 1 ≤ bound from htop) hs' fun b hb =>
      ⟨hal b hb, (hall b (by simp [hb])).2⟩
    simp only [length_cons]
    unfold Extent.stop at ih
    omega

theorem split_sorted (off : Nat) : ∀ {l : List Extent}, AvlTree.Sorted Extent.off l →
    ∃ l₁ l₂, l = l₁ ++ l₂ ∧ (∀ x ∈ l₁, x.off < off) ∧ ∀ x ∈ l₂, off ≤ x.off
  | [], _ => ⟨[], [], rfl, by simp, by simp⟩
  | a :: l, hs => by
    obtain ⟨hal, hs'⟩ := pairwise_cons.1 hs
    by_cases ha : a.off < off
    · obtain ⟨l₁, l₂, rfl, h₁, h₂⟩ := split_sorted off hs'
      refine ⟨a :: l₁, l₂, rfl, fun x hx => ?_, h₂⟩
      rcases mem_cons.1 hx with rfl | hx
      · exact ha
      · exact h₁ x hx
    · refine ⟨[], a :: l, rfl, by simp, fun x hx => ?_⟩
      rcases mem_cons.1 hx with rfl | hx
      · omega
      · have := hal x hx
        omega

/-! ## Putting a span into the index -/

/-- The place of the span `sp` in the list of free spans: `near` are those it touches, `m` is the span
they make together. -/
structure Placed (l : List Extent) (sp : Extent) (front near back : List Extent) (m : Extent) : Prop where
  list : l = front ++ (near ++ back)
  joins : Joins sp near m
  before : ∀ x ∈ front, x.stop < m.off
  after : ∀ x ∈ back, m.stop < x.off

/-- A span that may go into the index. -/
structure Loose16 (h : ThroughputHeap) (l : List Extent) (sp : Extent) : Prop where
  off_mod : sp.off % 16 = 0
  size_mod : sp.size % 16 = 0
  pos : 0 < sp.size
  stop_le : sp.stop ≤ h.bump
  apart : ∀ a ∈ l, Apart a sp

section Place

variable {h : ThroughputHeap} {t : SpanTree} {sp m : Extent} {l front near back : List Extent}

/-- The joined span is aligned, contains the span and ends where one of its parts does. -/
theorem Placed.bounds (hp : Placed l sp front near back m)
    (hal : ∀ a ∈ l, a.off % 16 = 0 ∧ a.size % 16 = 0 ∧ 0 < a.size) (ho : sp.off % 16 = 0)
    (hs : sp.size % 16 = 0) (hpos : 0 < sp.size) :
    m.off % 16 = 0 ∧ m.size % 16 = 0 ∧ 0 < m.size ∧ m.off ≤ sp.off ∧
    (m.stop = sp.stop ∨ ∃ s ∈ l, m.stop = s.stop) := by
  have hnear : ∀ a ∈ near, a ∈ l := fun a ha => by rw [hp.list]; simp [ha]
  unfold Extent.stop
  cases hp.joins with
  | alone => exact ⟨ho, hs, hpos, Nat.le_refl _, .inl rfl⟩
  | @pred p hps =>
    obtain ⟨h₁, h₂, h₃⟩ := hal p (hnear p (by simp))
    unfold Extent.stop at hps
    exact ⟨h₁, by dsimp only; omega, by dsimp only; omega, by dsimp only; omega,
      .inl (by dsimp only; omega)⟩
  | @succ s hss =>
    obtain ⟨h₁, h₂, h₃⟩ := hal s (hnear s (by simp))
    unfold Extent.stop at hss
    exact ⟨ho, by dsimp only; omega, by dsimp only; omega, Nat.le_refl _,
      .inr ⟨s, hnear s (by simp), by dsimp only; omega⟩⟩
  | @both p s hps hss =>
    obtain ⟨h₁, h₂, h₃⟩ := hal p (hnear p (by simp))
    obtain ⟨h₄, h₅, h₆⟩ := hal s (hnear s (by simp))
    unfold Extent.stop at hps hss
    exact ⟨h₁, by dsimp only; omega, by dsimp only; omega, by dsimp only; omega,
      .inr ⟨s, hnear s (by simp), by dsimp only; omega⟩⟩

/-- The list with the joined span in place keeps its gaps. -/
theorem Placed.spaced (hp : Placed l sp front near back m)
    (hs : l.Pairwise fun a b => a.stop < b.off) :
    (front ++ m :: back).Pairwise fun a b => a.stop < b.off := by
  rw [hp.list] at hs
  obtain ⟨hf, hnb, hcross⟩ := pairwise_append.1 hs
  refine pairwise_append.2 ⟨hf, pairwise_cons.2 ⟨hp.after, (pairwise_append.1 hnb).2.1⟩, ?_⟩
  intro a ha b hb
  rcases mem_cons.1 hb with rfl | hb
  · exact hp.before a ha
  · exact hcross a ha b (by simp [hb])

theorem Placed.left_sublist (hp : Placed l sp front near back m) :
    (front ++ back).Sublist l :=
  hp.list ▸ (List.Sublist.refl front).append (sublist_append_right near back)

end Place

/-- The slots that an operation holds: none or one. -/
def handOf (idx : Nat) : List Nat := if idx = throughputNoSlot then [] else [idx]

theorem handOf_none : handOf throughputNoSlot = [] := if_pos rfl

theorem handOf_some {idx : Nat} (h : idx ≠ throughputNoSlot) : handOf idx = [idx] := if_neg h

theorem handOf_length (idx : Nat) : (handOf idx).length ≤ 1 := by
  unfold handOf
  split <;> simp

namespace SpanIndex

variable {h : ThroughputHeap} {t : SpanTree} {fl hand : List Nat} {idx reuse extra : Nat}

theorem releaseIfSome (hi : SpanIndex h t fl (handOf idx ++ hand)) :
    ∃ fl', SpanIndex (h.releaseIfSome idx) t fl' hand ∧ SameBase h (h.releaseIfSome idx) ∧
      (h.releaseIfSome idx).bump = h.bump ∧ (h.releaseIfSome idx).freeBytes = h.freeBytes := by
  unfold ThroughputHeap.releaseIfSome
  by_cases h0 : idx = throughputNoSlot
  · rw [if_neg (by simp [h0])]
    rw [h0, handOf_none] at hi
    exact ⟨fl, hi, .refl h, rfl, rfl⟩
  · rw [if_pos h0]
    rw [handOf_some h0] at hi
    exact ⟨idx :: fl, hi.releaseSpanNode, ⟨rfl, rfl, rfl, rfl, rfl, rfl, rfl⟩, rfl, rfl⟩

theorem reuseSpanNode (hi : SpanIndex h t fl (handOf reuse ++ hand))
    (hlt : hand.length + t.slots.length < throughputNoSlot) :
    ∃ h' idx fl', h.reuseSpanNode reuse = .ok (h', idx) ∧ SpanIndex h' t fl' (idx :: hand) ∧
      SameBase h h' ∧ h'.bump = h.bump ∧ h'.freeBytes = h.freeBytes := by
  unfold ThroughputHeap.reuseSpanNode
  by_cases h0 : reuse = throughputNoSlot
  · rw [if_pos h0]
    rw [h0, handOf_none] at hi
    exact hi.acquireSpanNode hlt
  · rw [if_neg h0]
    rw [handOf_some h0] at hi
    exact ⟨h, reuse, fl, rfl, hi, .refl h, rfl, rfl⟩

/-- A span that touches no span of the index goes into it, or lowers the bump. -/
theorem placeFreeSpan {front back : List Extent} {m : Extent}
    (hi : SpanIndex h t fl (handOf reuse ++ handOf extra)) (hl : t.toList = front ++ back)
    (hbefore : ∀ x ∈ front, x.stop < m.off) (hafter : ∀ x ∈ back, m.stop < x.off)
    (hstop : m.stop ≤ h.bump) (hbump : h.bump < 2 ^ 32) (hlt : t.slots.length + 1 < throughputNoSlot) :
    ∃ h' t' fl', h.placeFreeSpan m reuse extra = .ok h' ∧ SpanIndex h' t' fl' [] ∧ SameBase h h' ∧
      ((m.stop ≠ h.bump ∧ t'.toList = front ++ m :: back ∧ h'.bump = h.bump ∧
        h'.freeBytes = h.freeBytes + m.size) ∨
      (m.stop = h.bump ∧ t'.toList = front ++ back ∧ h'.bump = m.off ∧ h'.freeBytes = h.freeBytes)) := by
  have hadd : add32 m.off m.size = m.stop := add32_eq (Nat.lt_of_le_of_lt hstop hbump)
  have hstop' : m.stop = m.off + m.size := rfl
  have hone := handOf_length extra
  unfold ThroughputHeap.placeFreeSpan
  rw [hadd]
  by_cases htop : m.stop = h.bump
  · rw [if_pos htop]
    have hi' : SpanIndex { h with bump := m.off } t fl (handOf reuse ++ handOf extra) :=
      { hi with }
    obtain ⟨fl₁, hi₁, hb₁, hbump₁, hbytes₁⟩ := hi'.releaseIfSome
    rw [← append_nil (handOf extra)] at hi₁
    obtain ⟨fl₂, hi₂, hb₂, hbump₂, hbytes₂⟩ := hi₁.releaseIfSome
    have hb₀ : SameBase h { h with bump := m.off } := ⟨rfl, rfl, rfl, rfl, rfl, rfl, rfl⟩
    exact ⟨_, t, fl₂, rfl, hi₂, (hb₀.trans hb₁).trans hb₂,
      .inr ⟨htop, hl, hbump₂.trans hbump₁, hbytes₂.trans hbytes₁⟩⟩
  · rw [if_neg htop]
    -- The slot is one of those in hand, and the other one goes back.
    obtain ⟨reuse', extra', hpick, hi', hone'⟩ : ∃ reuse' extra',
        (if reuse = throughputNoSlot then (extra, throughputNoSlot) else (reuse, extra)) =
          (reuse', extra') ∧ SpanIndex h t fl (handOf reuse' ++ handOf extra') ∧
          (handOf extra').length ≤ 1 := by
      by_cases h0 : reuse = throughputNoSlot
      · refine ⟨extra, throughputNoSlot, if_pos h0, ?_, handOf_length _⟩
        rw [handOf_none, append_nil]
        rwa [h0, handOf_none] at hi
      · exact ⟨reuse, extra, if_neg h0, hi, hone⟩
    rw [hpick]
    dsimp only
    obtain ⟨h₁, idx, fl₁, heq, hi₁, hb₁, hbump₁, hbytes₁⟩ := hi'.reuseSpanNode (by omega)
    rw [heq]
    have hswap : SpanIndex h₁ t fl₁ (handOf extra' ++ [idx]) :=
      { hi₁ with slots := ((perm_append_singleton idx (handOf extra')).append_right _).trans hi₁.slots }
    obtain ⟨fl₂, hi₂, hb₂, hbump₂, hbytes₂⟩ := hswap.releaseIfSome
    obtain ⟨t', hi₃, hlist, hb₃, hbump₃, hbytes₃⟩ := hi₂.insertFreeSpanNode (b := m) hl
      (fun x hx => by have := hbefore x hx; unfold Extent.stop at this; omega)
      (fun x hx => by have := hafter x hx; omega)
    refine ⟨_, t', fl₂, rfl, hi₃, (hb₁.trans hb₂).trans hb₃, .inl ⟨htop, hlist, ?_, ?_⟩⟩
    · rw [hbump₃, hbump₂, hbump₁]
    · rw [hbytes₃, hbytes₂, hbytes₁]

end SpanIndex

/-! ### Neighbours -/

section Neighbours

variable {h : ThroughputHeap} {t : SpanTree} {sp : Extent}

theorem FreeIndex.sorted (hi : FreeIndex h t) : AvlTree.Sorted Extent.off t.toList := sorted_of_spaced hi.spaced

theorem FreeIndex.length_lt (hi : FreeIndex h t) : t.slots.length + 2 < throughputNoSlot := by
  have hlen := length_le_of_spaced (Nat.zero_le h.bump) hi.spaced fun a ha =>
    ⟨Nat.zero_le _, (hi.aligned a ha).2.2, hi.top a ha⟩
  have := t.length_toList
  have := hi.bump_lt
  have : throughputNoSlot = 2 ^ 32 - 1 := rfl
  omega

/-- The span in the slot `pred` ends where `sp` starts. -/
abbrev EndsAt (h : ThroughputHeap) (pred : Nat) (sp : Extent) : Prop :=
  pred ≠ throughputNoSlot ∧ add32 (h.spanNodes pred).off (h.spanNodes pred).size = sp.off

/-- The span in the slot `succ` starts where `sp` ends. -/
abbrev StartsAt (h : ThroughputHeap) (succ : Nat) (sp : Extent) : Prop :=
  succ ≠ throughputNoSlot ∧ add32 sp.off sp.size = (h.spanNodes succ).off

/-- The slot before a span, if the span there touches it. -/
theorem pred_cases {l₁ : List Extent} {pred : Nat} (hs : l₁.Pairwise fun a b => a.stop < b.off)
    (hle : ∀ x ∈ l₁, x.stop ≤ sp.off) (hlt : sp.off < 2 ^ 32)
    (hpt : SpanNodes.Points h.spanNodes throughputNoSlot pred l₁.getLast?) :
    (¬ (pred ≠ throughputNoSlot ∧ add32 (h.spanNodes pred).off (h.spanNodes pred).size > sp.off)) ∧
    ((¬ EndsAt h pred sp ∧ ∀ x ∈ l₁, x.stop < sp.off) ∨
    (∃ front p, l₁ = front ++ [p] ∧ p.stop = sp.off ∧ SpanNodes.SpanAt h.spanNodes pred p ∧
      EndsAt h pred sp ∧ ∀ x ∈ front, x.stop < p.off)) := by
  rcases eq_nil_or_concat l₁ with rfl | ⟨front, p, hl₁⟩
  · have hnone : pred = throughputNoSlot := hpt
    exact ⟨fun hc => hc.1 hnone, .inl ⟨fun hc => hc.1 hnone, by simp⟩⟩
  · rw [concat_eq_append] at hl₁
    subst hl₁
    rw [List.getLast?_append_cons, List.getLast?_singleton] at hpt
    have hat : SpanNodes.SpanAt h.spanNodes pred p := hpt
    have hple := hle p (by simp)
    have hadd : add32 (h.spanNodes pred).off (h.spanNodes pred).size = p.stop := by
      rw [hat.off, hat.size]
      exact add32_eq (Nat.lt_of_le_of_lt hple hlt)
    have hfront : ∀ x ∈ front, x.stop < p.off := fun x hx =>
      (pairwise_append.1 hs).2.2 x hx p (by simp)
    rw [hadd]
    refine ⟨fun hc => absurd hc.2 (by omega), ?_⟩
    by_cases heq : p.stop = sp.off
    · exact .inr ⟨front, p, rfl, heq, hat, ⟨hat.valid, hadd.trans heq⟩, hfront⟩
    · refine .inl ⟨fun hc => heq (hadd.symm.trans hc.2), fun x hx => ?_⟩
      rcases mem_append.1 hx with hx | hx
      · have h₁ := hfront x hx
        unfold Extent.stop at *
        omega
      · obtain rfl := mem_singleton.1 hx
        omega

/-- The slot behind a span, if the span there touches it. -/
theorem succ_cases {l₂ : List Extent} {succ : Nat} (hs : l₂.Pairwise fun a b => a.stop < b.off)
    (hpos : ∀ x ∈ l₂, 0 < x.size) (hle : ∀ x ∈ l₂, sp.stop ≤ x.off) (hlt : sp.stop < 2 ^ 32)
    (hpt : SpanNodes.Points h.spanNodes throughputNoSlot succ l₂.head?) :
    (¬ (succ ≠ throughputNoSlot ∧ add32 sp.off sp.size > (h.spanNodes succ).off)) ∧
    (((succ = throughputNoSlot ∨ ∃ s ∈ l₂, SpanNodes.SpanAt h.spanNodes succ s) ∧
      ∀ x ∈ l₂, sp.stop < x.off) ∨
    (∃ s back, l₂ = s :: back ∧ sp.stop = s.off ∧ SpanNodes.SpanAt h.spanNodes succ s ∧
      StartsAt h succ sp ∧ ∀ x ∈ back, s.stop < x.off)) := by
  have hadd : add32 sp.off sp.size = sp.stop := add32_eq hlt
  cases l₂ with
  | nil =>
    have hnone : succ = throughputNoSlot := hpt
    exact ⟨fun hc => hc.1 hnone, .inl ⟨.inl hnone, by simp⟩⟩
  | cons s back =>
    have hat : SpanNodes.SpanAt h.spanNodes succ s := hpt
    have hsle := hle s (by simp)
    have hback := (pairwise_cons.1 hs).1
    rw [hadd, hat.off]
    refine ⟨fun hc => absurd hc.2 (by omega), ?_⟩
    by_cases heq : sp.stop = s.off
    · exact .inr ⟨s, back, rfl, heq, hat, ⟨hat.valid, by rw [hadd, hat.off, heq]⟩, hback⟩
    · refine .inl ⟨.inr ⟨s, by simp, hat⟩, fun x hx => ?_⟩
      rcases mem_cons.1 hx with rfl | hx
      · omega
      · have h₁ := hback x hx
        have h₂ := hpos s (by simp)
        unfold Extent.stop at *
        omega

theorem FreeIndex.neighbors (hi : FreeIndex h t) (hsp : Loose16 h t.toList sp) :
    ∃ l₁ l₂ pred succ, t.toList = l₁ ++ l₂ ∧ (∀ x ∈ l₁, x.stop ≤ sp.off) ∧
      (∀ x ∈ l₂, sp.stop ≤ x.off) ∧ h.spanNeighbors sp.off = (pred, succ) ∧
      SpanNodes.Points h.spanNodes throughputNoSlot pred l₁.getLast? ∧
      SpanNodes.Points h.spanNodes throughputNoSlot succ l₂.head? := by
  obtain ⟨fl, hidx⟩ := hi.index
  obtain ⟨l₁, l₂, hl, h₁, h₂⟩ := split_sorted sp.off hi.sorted
  obtain ⟨hp, hq⟩ := @SpanNodes.Rep.spanNeighbors _ sp.off t h.depth throughputNoSlot throughputNoSlot
    l₁ l₂ hidx.height_lt_depth hidx.rep hidx.treeSlots hl h₁ h₂
  have hpos := hsp.pos
  refine ⟨l₁, l₂, _, _, hl, fun x hx => ?_, fun x hx => ?_, ?_, hp, hq⟩
  · have hap := hsp.apart x (by simp [hl, hx])
    have hlt := h₁ x hx
    have := (hi.aligned x (by simp [hl, hx])).2.2
    unfold Apart Extent.stop at *
    omega
  · have hap := hsp.apart x (by simp [hl, hx])
    have hge := h₂ x hx
    have := (hi.aligned x (by simp [hl, hx])).2.2
    unfold Apart Extent.stop at *
    omega
  · unfold ThroughputHeap.spanNeighbors
    rw [hidx.root]

end Neighbours

/-! ### Insertion -/

section Insert

variable {h : ThroughputHeap} {t : SpanTree} {sp m : Extent} {pred succ : Nat}

/-- The insertion of a span that is valid and overlaps no span of the index. -/
theorem insertFreeSpan_eq {pa sa : Bool} (hsp : Loose16 h t.toList sp) (hbump : h.bump < 2 ^ 32)
    (hnb : h.spanNeighbors sp.off = (pred, succ))
    (h₁ : ¬ (pred ≠ throughputNoSlot ∧ add32 (h.spanNodes pred).off (h.spanNodes pred).size > sp.off))
    (h₂ : ¬ (succ ≠ throughputNoSlot ∧ add32 sp.off sp.size > (h.spanNodes succ).off))
    (hpa : decide (EndsAt h pred sp) = pa) (hsa : decide (StartsAt h succ sp) = sa) :
    h.insertFreeSpan sp =
      if pa ≠ sa ∧ add32 (h.mergeOne sp pred succ pa).2.off (h.mergeOne sp pred succ pa).2.size ≠ h.bump then
        match h.replaceFreeSpan (h.mergeOne sp pred succ pa).1 (h.mergeOne sp pred succ pa).2 with
        | (_, false) => .error .indexChangedCoalescing
        | (h, true) => .ok { h with freeBytes := h.freeBytes + sp.size }
      else
        let a := h.absorbPred sp pred
        let b := a.1.absorbSucc a.2.1 succ
        b.1.placeFreeSpan b.2.1 a.2.2 b.2.2 := by
  have hadd : add32 sp.off sp.size = sp.stop := add32_eq (Nat.lt_of_le_of_lt hsp.stop_le hbump)
  have hpos := hsp.pos
  have hstop : sp.stop = sp.off + sp.size := rfl
  have hle := hsp.stop_le
  have hom := hsp.off_mod
  have hsm := hsp.size_mod
  unfold ThroughputHeap.insertFreeSpan
  rw [if_neg (by omega), hnb]
  dsimp only
  rw [if_neg h₁, if_neg h₂]
  subst hpa hsa
  rfl

/-- What an insertion does. -/
structure Inserted (h h' : ThroughputHeap) (t t' : SpanTree) (sp : Extent) : Prop where
  index : FreeIndex h' t'
  base : SameBase h h'
  placed : ∃ front near back m, Placed t.toList sp front near back m ∧
    ((m.stop ≠ h.bump ∧ t'.toList = front ++ m :: back ∧ h'.bump = h.bump) ∨
      (m.stop = h.bump ∧ t'.toList = front ++ back ∧ h'.bump = m.off))

/-- The joined span ends below the bump or at it. -/
theorem FreeIndex.joined_le {front near back : List Extent} (hi : FreeIndex h t)
    (hsp : Loose16 h t.toList sp) (hp : Placed t.toList sp front near back m) : m.stop ≤ h.bump := by
  obtain ⟨-, -, -, -, heq | ⟨s, hs, heq⟩⟩ := hp.bounds hi.aligned hsp.off_mod hsp.size_mod hsp.pos
  · exact heq ▸ hsp.stop_le
  · exact heq ▸ Nat.le_of_lt (hi.top s hs)

/-- The spans that are left touch neither each other nor the new bump. -/
theorem FreeIndex.of_placed {h' : ThroughputHeap} {t' : SpanTree} {front near back : List Extent}
    {fl : List Nat} (hi : FreeIndex h t) (hsp : Loose16 h t.toList sp)
    (hp : Placed t.toList sp front near back m) (hidx : SpanIndex h' t' fl []) (hbase : SameBase h h')
    (hcase : (m.stop ≠ h.bump ∧ t'.toList = front ++ m :: back ∧ h'.bump = h.bump ∧
        h'.freeBytes = total (front ++ back) + m.size) ∨
      (m.stop = h.bump ∧ t'.toList = front ++ back ∧ h'.bump = m.off ∧
        h'.freeBytes = total (front ++ back))) : Inserted h h' t t' sp := by
  obtain ⟨hmo, hms, hmpos, hmle, -⟩ := hp.bounds hi.aligned hsp.off_mod hsp.size_mod hsp.pos
  have hbump := hi.bump_lt
  have hmbump := hi.joined_le hsp hp
  have hold : ∀ x ∈ front ++ back, x ∈ t.toList := fun x hx => hp.left_sublist.subset hx
  rcases hcase with ⟨hne, hlist, hb, hbytes⟩ | ⟨heq, hlist, hb, hbytes⟩
  · refine ⟨hi.of_list hidx hb ?_ (hlist ▸ hp.spaced hi.spaced) fun a ha => ?_, hbase, front, near, back,
      m, hp, .inl ⟨hne, hlist, hb⟩⟩
    · rw [hbytes, hlist, Extents.total_middle]
    · rw [hlist] at ha
      rcases mem_cons.1 (perm_middle.mem_iff.1 ha) with rfl | ha
      · exact .inr ⟨⟨hmo, hms, hmpos⟩, by omega⟩
      · exact .inl (hold a ha)
  · have hm : m.stop = m.off + m.size := rfl
    refine ⟨⟨⟨fl, hidx⟩, by rw [hbytes, hlist], fun a ha => hi.aligned a (hold a (hlist ▸ ha)),
      hlist ▸ hi.spaced.sublist hp.left_sublist, fun a ha => ?_, by omega, by omega⟩, hbase, front, near, back, m,
      hp, .inr ⟨heq, hlist, hb⟩⟩
    rw [hb]
    rw [hlist] at ha
    rcases mem_append.1 ha with ha | ha
    · exact hp.before a ha
    · -- Behind the joined span there is nothing, since it ends at the bump.
      have h₁ := hp.after a ha
      have h₂ := hi.top a (hold a (by simp [ha]))
      unfold Extent.stop at h₂
      omega

theorem absorbPred_none (hn : ¬ EndsAt h pred sp) :
    h.absorbPred sp pred = (h, sp, throughputNoSlot) := by
  unfold ThroughputHeap.absorbPred
  dsimp only
  split
  · rename_i hp
    rw [if_neg fun he => hn ⟨hp, he⟩]
  · rfl

theorem absorbSucc_none (hn : ¬ StartsAt h succ sp) :
    h.absorbSucc sp succ = (h, sp, throughputNoSlot) := by
  unfold ThroughputHeap.absorbSucc
  dsimp only
  split
  · rename_i hs
    rw [if_neg fun he => hn ⟨hs, he⟩]
  · rfl

/-- A slot whose span starts further up is not adjacent. -/
theorem not_adjacent {l₂ : List Extent} {b : Extent} (hb : b.stop < 2 ^ 32)
    (hgap : succ = throughputNoSlot ∨ ∃ s ∈ l₂, SpanNodes.SpanAt h.spanNodes succ s)
    (hlt : ∀ x ∈ l₂, b.stop < x.off) : ¬ StartsAt h succ b := by
  rintro ⟨hne, heq⟩
  have hadd : add32 b.off b.size = b.stop := add32_eq hb
  rcases hgap with h0 | ⟨s, hs, hat⟩
  · exact hne h0
  · have := hlt s hs
    rw [hadd, hat.off] at heq
    omega

theorem absorbPred_some {p : Extent} {l₁ l₂ : List Extent} {fl : List Nat} (hidx : SpanIndex h t fl [])
    (hl : t.toList = l₁ ++ p :: l₂) (hs : AvlTree.Sorted Extent.off t.toList) (hps : p.stop = sp.off)
    (hlt : sp.stop < 2 ^ 32) (hat : SpanNodes.SpanAt h.spanNodes pred p) : ∃ h' t' j,
      h.absorbPred sp pred = (h', ⟨p.off, sp.size + p.size⟩, j) ∧ SpanIndex h' t' fl (handOf j) ∧
      t'.toList = l₁ ++ l₂ ∧ SameBase h h' ∧ h'.bump = h.bump ∧ h'.freeBytes = h.freeBytes - p.size ∧
      ∀ k c, c.off ≠ p.off → SpanNodes.SpanAt h.spanNodes k c → SpanNodes.SpanAt h'.spanNodes k c := by
  obtain ⟨h', t', j, heq, hidx', hlist, hb, hbump, hbytes, hkeep⟩ := hidx.removeFreeSpan hl hs
  have hj : j ≠ throughputNoSlot := hidx'.allSlots.valid j (by simp)
  unfold Extent.stop at hps hlt
  refine ⟨h', t', j, ?_, by rwa [handOf_some hj], hlist, hb, hbump, hbytes, hkeep⟩
  unfold ThroughputHeap.absorbPred
  dsimp only
  rw [if_pos hat.valid, hat.off, hat.size, add32_eq (by omega), if_pos hps, heq, add32_eq (by omega)]

theorem absorbSucc_some {b s : Extent} {l₁ l₂ : List Extent} {fl hand : List Nat}
    (hidx : SpanIndex h t fl hand) (hl : t.toList = l₁ ++ s :: l₂) (hs : AvlTree.Sorted Extent.off t.toList)
    (hss : b.stop = s.off) (hlt : b.size + s.size < 2 ^ 32) (hlt' : b.stop < 2 ^ 32)
    (hat : SpanNodes.SpanAt h.spanNodes succ s) : ∃ h' t' j,
      h.absorbSucc b succ = (h', ⟨b.off, b.size + s.size⟩, j) ∧ SpanIndex h' t' fl (handOf j ++ hand) ∧
      t'.toList = l₁ ++ l₂ ∧ SameBase h h' ∧ h'.bump = h.bump ∧ h'.freeBytes = h.freeBytes - s.size := by
  obtain ⟨h', t', j, heq, hidx', hlist, hb, hbump, hbytes, -⟩ := hidx.removeFreeSpan hl hs
  have hj : j ≠ throughputNoSlot := hidx'.allSlots.valid j (by simp)
  have hadd : add32 b.off b.size = s.off := by rw [← hss]; exact add32_eq hlt'
  refine ⟨h', t', j, ?_, by rwa [handOf_some hj], hlist, hb, hbump, hbytes⟩
  unfold ThroughputHeap.absorbSucc
  dsimp only
  rw [if_pos hat.valid, hat.off, hat.size, if_pos hadd, heq, add32_eq hlt]

/-- One neighbour grows by the span, if the two do not end at the bump. -/
theorem FreeIndex.extend {b : Extent} {front back : List Extent} (hi : FreeIndex h t)
    (hsp : Loose16 h t.toList sp) (hp : Placed t.toList sp front [b] back m)
    (hsize : m.size = sp.size + b.size) (hne : m.stop ≠ h.bump) : ∃ h' t',
      h.replaceFreeSpan b.off m = (h', true) ∧
      Inserted h { h' with freeBytes := h'.freeBytes + sp.size } t t' sp := by
  obtain ⟨fl, hidx⟩ := hi.index
  have hl : t.toList = front ++ b :: back := hp.list
  obtain ⟨h', t', hok, hidx', hlist, hbase, hb, hbytes⟩ := hidx.replaceFreeSpan m hl hi.sorted
  refine ⟨h', t', hok, hi.of_placed hsp hp { hidx' with } { hbase with } (.inl ⟨hne, hlist, hb, ?_⟩)⟩
  dsimp only
  rw [hbytes, hi.bytes, hl, Extents.total_middle]
  omega

/-- The joined span goes into the index from which its parts were taken. -/
theorem FreeIndex.settle {h₁ : ThroughputHeap} {t₁ : SpanTree} {front near back : List Extent}
    {fl : List Nat} {reuse extra : Nat} (hi : FreeIndex h t) (hsp : Loose16 h t.toList sp)
    (hp : Placed t.toList sp front near back m)
    (hidx : SpanIndex h₁ t₁ fl (handOf reuse ++ handOf extra)) (hlist : t₁.toList = front ++ back)
    (hbase : SameBase h h₁) (hb : h₁.bump = h.bump) (hbytes : h₁.freeBytes = total (front ++ back)) :
    ∃ h' t', h₁.placeFreeSpan m reuse extra = .ok h' ∧ Inserted h h' t t' sp := by
  have hlen : t₁.slots.length ≤ t.slots.length := by
    rw [← t₁.length_toList, ← t.length_toList, hlist]
    exact hp.left_sublist.length_le
  have hlt := hi.length_lt
  obtain ⟨h', t', fl', hok, hidx', hbase', hcase⟩ := hidx.placeFreeSpan hlist hp.before hp.after
    (hb.symm ▸ hi.joined_le hsp hp) (hb.symm ▸ hi.bump_lt) (by omega)
  rw [hb, hbytes] at hcase
  exact ⟨h', t', hok, hi.of_placed hsp hp hidx' (hbase.trans hbase') hcase⟩

/-- Putting a span into the index succeeds. -/
theorem FreeIndex.insertFreeSpan (hi : FreeIndex h t) (hsp : Loose16 h t.toList sp) :
    ∃ h' t', h.insertFreeSpan sp = .ok h' ∧ Inserted h h' t t' sp := by
  obtain ⟨fl, hidx⟩ := hi.index
  obtain ⟨l₁, l₂, pred, succ, hl, hle₁, hle₂, hnb, hpt, hst⟩ := hi.neighbors hsp
  have hbump := hi.bump_lt
  have hstop := hsp.stop_le
  have hspstop : sp.stop = sp.off + sp.size := rfl
  have hspaced := hi.spaced
  rw [hl] at hspaced
  obtain ⟨hs₁, hs₂, -⟩ := pairwise_append.1 hspaced
  obtain ⟨hover₁, hpred⟩ := pred_cases hs₁ hle₁ (by omega) hpt
  obtain ⟨hover₂, hsucc⟩ := succ_cases hs₂ (fun x hx => (hi.aligned x (by simp [hl, hx])).2.2) hle₂
    (by omega) hst
  rcases hpred with ⟨hnp, hgap₁⟩ | ⟨front, p, rfl, hps, hpat, hpa, hfront⟩
  · rcases hsucc with ⟨hsgap, hgap₂⟩ | ⟨s, back, rfl, hss, hsat, hsa, hback⟩
    · -- No neighbour: a slot of its own, or a lower bump.
      have hns := not_adjacent (by omega) hsgap hgap₂
      rw [insertFreeSpan_eq hsp hbump hnb hover₁ hover₂ (decide_eq_false hnp) (decide_eq_false hns),
        if_neg (by simp), absorbPred_none hnp]
      dsimp only
      rw [absorbSucc_none hns]
      have hidx₀ : SpanIndex h t fl (handOf throughputNoSlot ++ handOf throughputNoSlot) := hidx
      exact hi.settle hsp ⟨hl, .alone, hgap₁, hgap₂⟩ hidx₀ hl (.refl h) rfl (by rw [hi.bytes, hl])
    · -- The span behind grows downwards. It does not end at the bump.
      have htop := hi.top s (by simp [hl])
      have hsstop : s.stop = s.off + s.size := rfl
      have hmstop : (⟨sp.off, sp.size + s.size⟩ : Extent).stop = s.stop := by
        change sp.off + (sp.size + s.size) = s.stop
        omega
      have hmerge : h.mergeOne sp pred succ false = (s.off, ⟨sp.off, sp.size + s.size⟩) := by
        unfold ThroughputHeap.mergeOne
        rw [if_neg (by simp)]
        dsimp only
        rw [hsat.off, hsat.size, add32_eq (by omega)]
      obtain ⟨h', t', hok, hins⟩ := hi.extend hsp
        ⟨hl, .succ hss, hgap₁, fun x hx => by rw [hmstop]; exact hback x hx⟩ rfl (by omega)
      rw [insertFreeSpan_eq hsp hbump hnb hover₁ hover₂ (decide_eq_false hnp) (decide_eq_true hsa), hmerge]
      dsimp only
      rw [add32_eq (by omega), if_pos ⟨by simp, by omega⟩, hok]
      exact ⟨_, t', rfl, hins⟩
  · have hpl := hle₁ p (by simp)
    have hpstop : p.stop = p.off + p.size := rfl
    have hl' : t.toList = front ++ p :: l₂ := by simpa using hl
    have hmstop : (⟨p.off, sp.size + p.size⟩ : Extent).stop = sp.stop := by
      change p.off + (sp.size + p.size) = sp.stop
      omega
    obtain ⟨h₁, t₁, j, habs, hidx₁, hlist₁, hbase₁, hb₁, hbytes₁, hkeep⟩ :=
      absorbPred_some hidx hl' hi.sorted hps (by omega) hpat
    rw [hi.bytes, hl', Extents.total_middle, Nat.add_sub_cancel] at hbytes₁
    rcases hsucc with ⟨hsgap, hgap₂⟩ | ⟨s, back, rfl, hss, hsat, hsa, hback⟩
    · have hns := not_adjacent (by omega) hsgap hgap₂
      have hmerge : h.mergeOne sp pred succ true = (p.off, ⟨p.off, sp.size + p.size⟩) := by
        unfold ThroughputHeap.mergeOne
        rw [if_pos rfl]
        dsimp only
        rw [hpat.off, hpat.size, add32_eq (by omega)]
      have hp : Placed t.toList sp front [p] l₂ ⟨p.off, sp.size + p.size⟩ :=
        ⟨hl', .pred hps, hfront, fun x hx => by rw [hmstop]; exact hgap₂ x hx⟩
      rw [insertFreeSpan_eq hsp hbump hnb hover₁ hover₂ (decide_eq_true hpa) (decide_eq_false hns), hmerge]
      dsimp only
      rw [add32_eq (by omega)]
      by_cases htop : sp.stop = h.bump
      · -- The span before and the new one lie below the bump, which goes down to their start.
        have hsgap₁ : succ = throughputNoSlot ∨ ∃ s ∈ l₂, SpanNodes.SpanAt h₁.spanNodes succ s := by
          refine hsgap.imp_right fun ⟨s, hs, hat⟩ => ⟨s, hs, hkeep succ s (fun he => ?_) hat⟩
          have := hgap₂ s hs
          omega
        rw [if_neg fun hc => hc.2 (by omega), habs]
        dsimp only
        rw [absorbSucc_none (not_adjacent (by omega) hsgap₁ (by rw [hmstop]; exact hgap₂))]
        rw [← append_nil (handOf j), ← handOf_none] at hidx₁
        exact hi.settle hsp hp hidx₁ hlist₁ hbase₁ hb₁ hbytes₁
      · obtain ⟨h', t', hok, hins⟩ := hi.extend hsp hp rfl (by omega)
        rw [if_pos ⟨by simp, by omega⟩, hok]
        exact ⟨_, t', rfl, hins⟩
    · -- Both neighbours: the slot read for the one behind still holds its span after the removal.
      have htop := hi.top s (by simp [hl])
      have hpos := hsp.pos
      have hsstop : s.stop = s.off + s.size := rfl
      have hsort₁ : AvlTree.Sorted Extent.off t₁.toList := by
        have := hi.sorted
        rw [hl'] at this
        rw [hlist₁]
        exact this.sublist ((List.Sublist.refl front).append (sublist_cons_self p _))
      obtain ⟨h₂, t₂, k, habs₂, hidx₂, hlist₂, hbase₂, hb₂, hbytes₂⟩ := absorbSucc_some
        (b := ⟨p.off, sp.size + p.size⟩) hidx₁ hlist₁ hsort₁ (hmstop.trans hss) (by dsimp only; omega)
        (by omega) (hkeep succ s (by omega) hsat)
      rw [hbytes₁, Extents.total_middle, Nat.add_sub_cancel] at hbytes₂
      have hp : Placed t.toList sp front [p, s] back ⟨p.off, sp.size + p.size + s.size⟩ :=
        ⟨by simpa using hl', .both hps hss, hfront, fun x hx => by
          have := hback x hx
          change p.off + (sp.size + p.size + s.size) < x.off
          omega⟩
      have hswap : SpanIndex h₂ t₂ fl (handOf j ++ handOf k) :=
        { hidx₂ with slots := (perm_append_comm.append_right _).trans hidx₂.slots }
      rw [insertFreeSpan_eq hsp hbump hnb hover₁ hover₂ (decide_eq_true hpa) (decide_eq_true hsa),
        if_neg (by simp), habs]
      dsimp only
      rw [habs₂]
      exact hi.settle hsp hp hswap hlist₂ (hbase₁.trans hbase₂) (hb₂.trans hb₁) hbytes₂

end Insert

end Wago.Gc
