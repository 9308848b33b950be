/-
AVL trees whose nodes have an identity besides their value, as the nodes of a tree kept in an arena
do. A removal may move a value to another node: it says which node is left over. Rotations, insertion,
removal and replacement are described by what they do to the values in order, to the identities and to
the balance.
-/
import Mathlib.Algebra.Order.Ring.Int
import Mathlib.Data.List.Perm.Basic
import Mathlib.Order.MinMax
import Mathlib.Tactic.Common

namespace Wago.Avl

open List

inductive AvlTree (ι β : Type)
  | nil
  | node (l : AvlTree ι β) (i : ι) (b : β) (r : AvlTree ι β)
  deriving Repr

variable {ι β : Type}

namespace AvlTree

def height : AvlTree ι β → Nat
  | nil => 0
  | node l _ _ r => max l.height r.height + 1

/-- The values from left to right. -/
def toList : AvlTree ι β → List β
  | nil => []
  | node l _ b r => l.toList ++ b :: r.toList

/-- The identities from left to right. -/
def slots : AvlTree ι β → List ι
  | nil => []
  | node l i _ r => l.slots ++ i :: r.slots

def entries : AvlTree ι β → List (ι × β)
  | nil => []
  | node l i b r => l.entries ++ (i, b) :: r.entries

/-- The largest weight of a value, zero in the empty tree. -/
def maxWeight (w : β → Nat) : AvlTree ι β → Nat
  | nil => 0
  | node l _ b r => max (w b) (max (l.maxWeight w) (r.maxWeight w))

def Balanced : AvlTree ι β → Prop
  | nil => True
  | node l _ _ r => l.height ≤ r.height + 1 ∧ r.height ≤ l.height + 1 ∧ l.Balanced ∧ r.Balanced

theorem toList_eq_entries : ∀ t : AvlTree ι β, t.toList = t.entries.map Prod.snd
  | nil => rfl
  | node l _ _ r => by simp [toList, entries, toList_eq_entries l, toList_eq_entries r]

theorem slots_eq_entries : ∀ t : AvlTree ι β, t.slots = t.entries.map Prod.fst
  | nil => rfl
  | node l _ _ r => by simp [slots, entries, slots_eq_entries l, slots_eq_entries r]

theorem toList_eq_nil : ∀ {t : AvlTree ι β}, t.toList = [] → t = nil
  | nil, _ => rfl
  | node _ _ _ _, h => by simp [toList] at h

theorem length_toList (t : AvlTree ι β) : t.toList.length = t.slots.length := by
  rw [toList_eq_entries, slots_eq_entries, length_map, length_map]

theorem le_maxWeight_iff {w : β → Nat} {n : Nat} (hn : 0 < n) :
    ∀ {t : AvlTree ι β}, n ≤ t.maxWeight w ↔ ∃ b ∈ t.toList, n ≤ w b
  | nil => by simp [maxWeight, toList]; omega
  | node l i b r => by
    simp only [maxWeight, toList, le_max_iff, le_maxWeight_iff hn, mem_append, mem_cons]
    constructor
    · rintro (h | ⟨c, hc, h⟩ | ⟨c, hc, h⟩)
      · exact ⟨b, .inr (.inl rfl), h⟩
      · exact ⟨c, .inl hc, h⟩
      · exact ⟨c, .inr (.inr hc), h⟩
    · rintro ⟨c, hc | rfl | hc, h⟩
      · exact .inr (.inl ⟨c, hc, h⟩)
      · exact .inl h
      · exact .inr (.inr ⟨c, hc, h⟩)

theorem le_maxWeight_iff_of_ne_nil {w : β → Nat} {n : Nat} {t : AvlTree ι β} (ht : t ≠ nil) :
    n ≤ t.maxWeight w ↔ ∃ b ∈ t.toList, n ≤ w b := by
  rcases Nat.eq_zero_or_pos n with rfl | hn
  · obtain _ | ⟨l, i, b, r⟩ := t
    · exact absurd rfl ht
    · exact iff_of_true (Nat.zero_le _) ⟨b, by simp [toList], Nat.zero_le _⟩
  · exact le_maxWeight_iff hn

theorem height_le_length : ∀ t : AvlTree ι β, t.height ≤ t.slots.length
  | nil => Nat.le_refl 0
  | node l _ _ r => by
    have := l.height_le_length
    have := r.height_le_length
    simp only [height, slots, length_append, length_cons]
    omega

/-- A balanced tree is low. -/
theorem Balanced.two_pow_le : ∀ {t : AvlTree ι β}, t.Balanced → 2 ^ (t.height / 2) ≤ t.slots.length + 1
  | nil, _ => by simp [height, slots]
  | node l i b r, ⟨hlr, hrl, hl, hr⟩ => by
    have ihl := hl.two_pow_le
    have ihr := hr.two_pow_le
    simp only [height, slots, length_append, length_cons]
    rcases Nat.lt_or_ge (max l.height r.height) 1 with h0 | h0
    · have : (max l.height r.height + 1) / 2 = 0 := by omega
      rw [this]
      omega
    · -- Both subtrees have at least the height less two.
      have hhalf : (max l.height r.height + 1) / 2 = (max l.height r.height - 1) / 2 + 1 := by omega
      have hl' := Nat.pow_le_pow_right (n := 2) (by decide)
        (show (max l.height r.height - 1) / 2 ≤ l.height / 2 by omega)
      have hr' := Nat.pow_le_pow_right (n := 2) (by decide)
        (show (max l.height r.height - 1) / 2 ≤ r.height / 2 by omega)
      rw [hhalf, Nat.pow_succ]
      omega

/-! ## Rotations -/

def rotateLeft : AvlTree ι β → AvlTree ι β
  | node l i b (node m j c r) => node (node l i b m) j c r
  | t => t

def rotateRight : AvlTree ι β → AvlTree ι β
  | node (node l i b m) j c r => node l i b (node m j c r)
  | t => t

def leansRight : AvlTree ι β → Bool
  | nil => false
  | node l _ _ r => l.height < r.height

def leansLeft : AvlTree ι β → Bool
  | nil => false
  | node l _ _ r => r.height < l.height

/-- Makes the left subtree the higher one. -/
def straightenLeft (t : AvlTree ι β) : AvlTree ι β := if t.leansRight then t.rotateLeft else t

/-- Makes the right subtree the higher one. -/
def straightenRight (t : AvlTree ι β) : AvlTree ι β := if t.leansLeft then t.rotateRight else t

def rebalance : AvlTree ι β → AvlTree ι β
  | nil => nil
  | node l i b r =>
    if l.height > r.height + 1 then
      rotateRight (node l.straightenLeft i b r)
    else if r.height > l.height + 1 then
      rotateLeft (node l i b r.straightenRight)
    else node l i b r

@[simp] theorem rotateLeft_entries : ∀ t : AvlTree ι β, t.rotateLeft.entries = t.entries
  | nil => rfl
  | node _ _ _ nil => rfl
  | node _ _ _ (node _ _ _ _) => by simp [rotateLeft, entries]

@[simp] theorem rotateRight_entries : ∀ t : AvlTree ι β, t.rotateRight.entries = t.entries
  | nil => rfl
  | node nil _ _ _ => rfl
  | node (node _ _ _ _) _ _ _ => by simp [rotateRight, entries]

@[simp] theorem straightenLeft_entries (t : AvlTree ι β) : t.straightenLeft.entries = t.entries := by
  unfold straightenLeft
  split <;> simp

@[simp] theorem straightenRight_entries (t : AvlTree ι β) : t.straightenRight.entries = t.entries := by
  unfold straightenRight
  split <;> simp

theorem rebalance_entries : ∀ t : AvlTree ι β, t.rebalance.entries = t.entries
  | nil => rfl
  | node l i b r => by
    rw [rebalance]
    split_ifs <;> simp [entries]

theorem straightenLeft_slots (t : AvlTree ι β) : t.straightenLeft.slots = t.slots := by
  simp [slots_eq_entries]

theorem straightenRight_slots (t : AvlTree ι β) : t.straightenRight.slots = t.slots := by
  simp [slots_eq_entries]

@[simp] theorem rebalance_toList (t : AvlTree ι β) : t.rebalance.toList = t.toList := by
  simp [toList_eq_entries, rebalance_entries]

@[simp] theorem rebalance_slots (t : AvlTree ι β) : t.rebalance.slots = t.slots := by
  simp [slots_eq_entries, rebalance_entries]

theorem straightenLeft_height_le (t : AvlTree ι β) : t.straightenLeft.height ≤ t.height + 1 := by
  unfold straightenLeft
  split
  · obtain _ | ⟨l, i, b, _ | ⟨m, j, c, r⟩⟩ := t <;> simp only [rotateLeft, height] <;> omega
  · exact Nat.le_succ _

theorem straightenRight_height_le (t : AvlTree ι β) : t.straightenRight.height ≤ t.height + 1 := by
  unfold straightenRight
  split
  · obtain _ | ⟨_ | ⟨l, i, b, m⟩, j, c, r⟩ := t <;> simp only [rotateRight, height] <;> omega
  · exact Nat.le_succ _

/-- Subtrees whose heights differ by two at most become a balanced tree. -/
theorem rebalance_spec {l r : AvlTree ι β} (i : ι) (b : β) (hl : l.Balanced) (hr : r.Balanced)
    (hlr : l.height ≤ r.height + 2) (hrl : r.height ≤ l.height + 2) :
    (node l i b r).rebalance.Balanced ∧
    max l.height r.height ≤ (node l i b r).rebalance.height ∧
    (node l i b r).rebalance.height ≤ max l.height r.height + 1 ∧
    (l.height ≤ r.height + 1 → r.height ≤ l.height + 1 →
      (node l i b r).rebalance.height = max l.height r.height + 1) := by
  rw [rebalance]
  unfold straightenLeft straightenRight
  split_ifs with h₁ hlean h₂ hlean
  · -- The left subtree is too high and its own right subtree is the higher one: two rotations.
    obtain _ | ⟨ll, j, c, lr⟩ := l
    · simp [height] at h₁
    obtain ⟨_, _, hll, hlrb⟩ := hl
    obtain _ | ⟨lrl, k, d, lrr⟩ := lr
    · simp [leansRight, height] at hlean
    obtain ⟨_, _, hlrl, hlrr⟩ := hlrb
    simp only [leansRight, decide_eq_true_eq] at hlean
    simp only [height] at *
    simp only [rotateLeft, rotateRight, Balanced, height]
    exact ⟨⟨by omega, by omega, ⟨by omega, by omega, hll, hlrl⟩, by omega, by omega, hlrr, hr⟩,
      by omega, by omega, by omega⟩
  · obtain _ | ⟨ll, j, c, lr⟩ := l
    · simp [height] at h₁
    obtain ⟨_, _, hll, hlrb⟩ := hl
    simp only [leansRight, decide_eq_true_eq] at hlean
    simp only [height] at *
    simp only [rotateRight, Balanced, height]
    exact ⟨⟨by omega, by omega, hll, by omega, by omega, hlrb, hr⟩, by omega, by omega, by omega⟩
  · obtain _ | ⟨rl, j, c, rr⟩ := r
    · simp [height] at h₂
    obtain ⟨_, _, hrlb, hrr⟩ := hr
    obtain _ | ⟨rll, k, d, rlr⟩ := rl
    · simp [leansLeft, height] at hlean
    obtain ⟨_, _, hrll, hrlr⟩ := hrlb
    simp only [leansLeft, decide_eq_true_eq] at hlean
    simp only [height] at *
    simp only [rotateLeft, rotateRight, Balanced, height]
    exact ⟨⟨by omega, by omega, ⟨by omega, by omega, hl, hrll⟩, by omega, by omega, hrlr, hrr⟩,
      by omega, by omega, by omega⟩
  · obtain _ | ⟨rl, j, c, rr⟩ := r
    · simp [height] at h₂
    obtain ⟨_, _, hrlb, hrr⟩ := hr
    simp only [leansLeft, decide_eq_true_eq] at hlean
    simp only [height] at *
    simp only [rotateLeft, Balanced, height]
    exact ⟨⟨by omega, by omega, ⟨by omega, by omega, hl, hrlb⟩, hrr⟩, by omega, by omega, by omega⟩
  · exact ⟨⟨by omega, by omega, hl, hr⟩, by simp only [height]; omega, Nat.le_refl _, fun _ _ => rfl⟩

/-! ## Insertion -/

variable (key : β → Nat)

def insert (i : ι) (b : β) : AvlTree ι β → AvlTree ι β
  | nil => node nil i b nil
  | node l j c r =>
    if key b < key c then (node (l.insert i b) j c r).rebalance
    else (node l j c (r.insert i b)).rebalance

theorem insert_balanced (i : ι) (b : β) : ∀ {t : AvlTree ι β}, t.Balanced →
    (t.insert key i b).Balanced ∧ t.height ≤ (t.insert key i b).height ∧
      (t.insert key i b).height ≤ t.height + 1
  | nil, _ => by simp [insert, Balanced, height]
  | node l j c r, ⟨hlr, hrl, hl, hr⟩ => by
    unfold insert
    split
    · obtain ⟨hl', hlo, hhi⟩ := insert_balanced i b hl
      obtain ⟨hbal, h₁, h₂, h₃⟩ := rebalance_spec j c hl' hr (by omega) (by omega)
      simp only [height]
      exact ⟨hbal, by omega, by omega⟩
    · obtain ⟨hr', hlo, hhi⟩ := insert_balanced i b hr
      obtain ⟨hbal, h₁, h₂, h₃⟩ := rebalance_spec j c hl hr' (by omega) (by omega)
      simp only [height]
      exact ⟨hbal, by omega, by omega⟩

theorem insert_slots (i : ι) (b : β) : ∀ t : AvlTree ι β, (t.insert key i b).slots.Perm (i :: t.slots)
  | nil => .refl _
  | node l j c r => by
    unfold insert
    split
    · rw [rebalance_slots, slots, slots]
      exact (insert_slots i b l).append_right _
    · rw [rebalance_slots, slots, slots]
      exact (((insert_slots i b r).cons j).append_left l.slots).trans
        (((List.Perm.swap i j r.slots).append_left l.slots).trans perm_middle)

variable {key}

theorem split_left {l r l₁ l₂ : List β} {c : β} (h : l ++ c :: r = l₁ ++ l₂) (hc : c ∉ l₁) :
    ∃ m, l = l₁ ++ m ∧ l₂ = m ++ c :: r := by
  rcases append_eq_append_iff.1 h with ⟨a, rfl, ha⟩ | ⟨m, hl, hr⟩
  · cases a with
    | nil => exact ⟨[], by simp, by simpa using ha.symm⟩
    | cons d a =>
      obtain ⟨rfl, -⟩ := List.cons.inj ha
      simp at hc
  · exact ⟨m, hl, hr⟩

theorem split_right {l r l₁ l₂ : List β} {c : β} (h : l ++ c :: r = l₁ ++ l₂) (hc : c ∉ l₂) :
    ∃ m, r = m ++ l₂ ∧ l₁ = l ++ c :: m := by
  rcases append_eq_append_iff.1 h with ⟨a, rfl, ha⟩ | ⟨m, -, rfl⟩
  · cases a with
    | nil =>
      obtain rfl : l₂ = c :: r := by simpa using ha.symm
      simp at hc
    | cons d a =>
      obtain ⟨rfl, rfl⟩ := List.cons.inj ha
      exact ⟨a, rfl, rfl⟩
  · simp at hc

/-- The new value stands behind the values that are not greater. -/
theorem insert_toList (i : ι) {b : β} : ∀ {t : AvlTree ι β} {l₁ l₂ : List β}, t.toList = l₁ ++ l₂ →
    (∀ x ∈ l₁, key x ≤ key b) → (∀ x ∈ l₂, key b < key x) → (t.insert key i b).toList = l₁ ++ b :: l₂
  | nil, l₁, l₂, h, _, _ => by
    obtain ⟨rfl, rfl⟩ := append_eq_nil_iff.1 h.symm
    rfl
  | node l j c r, l₁, l₂, h, h₁, h₂ => by
    unfold insert
    split
    case isTrue hlt =>
      obtain ⟨m, hl, rfl⟩ := split_left h fun hc => by have := h₁ c hc; omega
      have := insert_toList i hl h₁ fun x hx => h₂ x (by simp [hx])
      simp [toList, this]
    case isFalse hge =>
      obtain ⟨m, hr, rfl⟩ := split_right h fun hc => hge (h₂ c hc)
      have := insert_toList i hr (fun x hx => h₁ x (by simp [hx])) h₂
      simp [toList, this]

/-! ## Removal -/

variable (key)

/-- Removes the value with a key. The node that is left over is the value's own, or the one whose value
moved there. -/
def remove : AvlTree ι β → Nat → AvlTree ι β × Option ι
  | nil, _ => (nil, none)
  | node l i b r, k =>
    if k < key b then
      match l.remove k with
      | (_, none) => (node l i b r, none)
      | (l', some j) => ((node l' i b r).rebalance, some j)
    else if key b < k then
      match r.remove k with
      | (_, none) => (node l i b r, none)
      | (r', some j) => ((node l i b r').rebalance, some j)
    else
      match l.toList, r.toList with
      | [], _ => (r, some i)
      | _, [] => (l, some i)
      | _, d :: _ =>
        let (r', x) := r.remove (key d)
        ((node l i d r').rebalance, x)

variable {key}

/-- The values in the order of their keys. -/
abbrev Sorted (key : β → Nat) (l : List β) : Prop := l.Pairwise (key · < key ·)

theorem Sorted.lt_middle {l₁ l₂ : List β} {b : β} (h : Sorted key (l₁ ++ b :: l₂)) :
    (∀ x ∈ l₁, key x < key b) ∧ ∀ x ∈ l₂, key b < key x := by
  obtain ⟨-, hb, hcross⟩ := pairwise_append.1 h
  exact ⟨fun x hx => hcross x hx b (by simp), (pairwise_cons.1 hb).1⟩

/-- Where a value stands in the list is where it stands in the tree. -/
theorem split_node {l r l₁ l₂ : List β} {b c : β} (h : l ++ c :: r = l₁ ++ b :: l₂)
    (hs : Sorted key (l₁ ++ b :: l₂)) :
    (key b < key c ∧ ∃ m, l = l₁ ++ b :: m ∧ l₂ = m ++ c :: r) ∨
    (key c < key b ∧ ∃ m, r = m ++ b :: l₂ ∧ l₁ = l ++ c :: m) ∨
    (c = b ∧ l = l₁ ∧ r = l₂) := by
  obtain ⟨h₁, h₂⟩ := hs.lt_middle
  rcases Nat.lt_trichotomy (key b) (key c) with hlt | heq | hgt
  · left
    have h' : l ++ c :: r = (l₁ ++ [b]) ++ l₂ := by simpa using h
    obtain ⟨m, hl, hr⟩ := split_left h' fun hc => by
      rcases mem_append.1 hc with hc | hc
      · have := h₁ c hc
        omega
      · rw [mem_singleton.1 hc] at hlt
        omega
    exact ⟨hlt, m, by simpa using hl, hr⟩
  · right; right
    obtain ⟨m, hl, hr⟩ := split_left h fun hc => by have := h₁ c hc; omega
    cases m with
    | nil =>
      obtain ⟨rfl, rfl⟩ := List.cons.inj hr
      exact ⟨rfl, by simpa using hl, rfl⟩
    | cons d m =>
      obtain ⟨rfl, rfl⟩ := List.cons.inj hr
      have := h₂ c (by simp)
      omega
  · right; left
    refine ⟨hgt, split_right h fun hc => ?_⟩
    rcases mem_cons.1 hc with rfl | hc
    · omega
    · have := h₂ c hc
      omega

theorem remove_spec : ∀ {t : AvlTree ι β} {l₁ l₂ : List β} {b : β}, t.toList = l₁ ++ b :: l₂ →
    Sorted key t.toList → ∃ t' j, t.remove key (key b) = (t', some j) ∧ t'.toList = l₁ ++ l₂ ∧
      t.slots.Perm (j :: t'.slots) ∧
      (t.Balanced → t'.Balanced ∧ t'.height ≤ t.height ∧ t.height ≤ t'.height + 1)
  | nil, l₁, l₂, b, h, _ => by simp [toList] at h
  | node l i c r, l₁, l₂, b, h, hs => by
    obtain ⟨hsl, hsr, -⟩ := pairwise_append.1 hs
    rw [h] at hs
    rcases split_node h hs with ⟨hlt, m, hl, rfl⟩ | ⟨hgt, m, hr, rfl⟩ | ⟨rfl, rfl, rfl⟩
    · obtain ⟨l', j, hrem, hlist, hslots, hbal⟩ := remove_spec hl hsl
      refine ⟨(node l' i c r).rebalance, j, ?_, ?_, ?_, fun ⟨h₁, h₂, hbl, hbr⟩ => ?_⟩
      · rw [remove, if_pos hlt, hrem]
      · simp [toList, hlist]
      · rw [rebalance_slots, slots, slots]
        exact hslots.append_right _
      · obtain ⟨hbl', hlo, hhi⟩ := hbal hbl
        obtain ⟨hb, h₃, h₄, h₅⟩ := rebalance_spec i c hbl' hbr (by omega) (by omega)
        simp only [height]
        exact ⟨hb, by omega, by omega⟩
    · obtain ⟨r', j, hrem, hlist, hslots, hbal⟩ := remove_spec hr (pairwise_cons.1 hsr).2
      refine ⟨(node l i c r').rebalance, j, ?_, ?_, ?_, fun ⟨h₁, h₂, hbl, hbr⟩ => ?_⟩
      · rw [remove, if_neg (by omega), if_pos hgt, hrem]
      · simp [toList, hlist]
      · rw [rebalance_slots, slots, slots]
        exact (((hslots.cons i).append_left l.slots).trans
          ((List.Perm.swap j i r'.slots).append_left l.slots)).trans perm_middle
      · obtain ⟨hbr', hlo, hhi⟩ := hbal hbr
        obtain ⟨hb, h₃, h₄, h₅⟩ := rebalance_spec i c hbl hbr' (by omega) (by omega)
        simp only [height]
        exact ⟨hb, by omega, by omega⟩
    · rw [remove, if_neg (Nat.lt_irrefl _), if_neg (Nat.lt_irrefl _)]
      cases hll : l.toList with
      | nil =>
        obtain rfl := toList_eq_nil hll
        refine ⟨r, i, rfl, rfl, .refl _, fun ⟨h₁, h₂, _, hbr⟩ => ⟨hbr, ?_⟩⟩
        simp only [height]
        omega
      | cons e rest =>
        cases hrl : r.toList with
        | nil =>
          obtain rfl := toList_eq_nil hrl
          refine ⟨l, i, rfl, by simp [hll], perm_append_comm, fun ⟨h₁, h₂, hbl, _⟩ => ⟨hbl, ?_⟩⟩
          simp only [height]
          omega
        | cons d rest =>
          -- The next value moves here, and its node is left over.
          obtain ⟨r', j, hrem, hlist, hslots, hbal⟩ :=
            remove_spec (show r.toList = [] ++ d :: rest from hrl) (pairwise_cons.1 hsr).2
          refine ⟨(node l i d r').rebalance, j, ?_, ?_, ?_, fun ⟨h₁, h₂, hbl, hbr⟩ => ?_⟩
          · dsimp only
            rw [hrem]
          · rw [rebalance_toList, toList, hlist, hll, nil_append]
          · rw [rebalance_slots, slots, slots]
            exact (((hslots.cons i).append_left _).trans
              ((List.Perm.swap j i r'.slots).append_left _)).trans perm_middle
          · obtain ⟨hbr', hlo, hhi⟩ := hbal hbr
            obtain ⟨hb, h₃, h₄, h₅⟩ := rebalance_spec i d hbl hbr' (by omega) (by omega)
            rw [height]
            exact ⟨hb, by omega, by omega⟩

/-! ## Replacement -/

variable (key)

/-- Changes the value with a key in place. -/
def replace (b' : β) : AvlTree ι β → Nat → AvlTree ι β
  | nil, _ => nil
  | node l i b r, k =>
    if k < key b then node (l.replace b' k) i b r
    else if key b < k then node l i b (r.replace b' k)
    else node l i b' r

variable {key}

theorem replace_height (b' : β) : ∀ (t : AvlTree ι β) (k : Nat), (t.replace key b' k).height = t.height
  | nil, _ => rfl
  | node l i b r, k => by
    rw [replace]
    split_ifs <;> simp [height, replace_height]

theorem replace_slots (b' : β) : ∀ (t : AvlTree ι β) (k : Nat), (t.replace key b' k).slots = t.slots
  | nil, _ => rfl
  | node l i b r, k => by
    rw [replace]
    split_ifs <;> simp [slots, replace_slots]

theorem Balanced.replace (b' : β) : ∀ {t : AvlTree ι β}, t.Balanced → ∀ k, (t.replace key b' k).Balanced
  | nil, _, _ => trivial
  | node l i b r, ⟨h₁, h₂, hl, hr⟩, k => by
    rw [AvlTree.replace]
    split_ifs
    · exact ⟨by rwa [replace_height], by rwa [replace_height], hl.replace b' k, hr⟩
    · exact ⟨by rwa [replace_height], by rwa [replace_height], hl, hr.replace b' k⟩
    · exact ⟨h₁, h₂, hl, hr⟩

theorem replace_toList (b' : β) : ∀ {t : AvlTree ι β} {l₁ l₂ : List β} {b : β}, t.toList = l₁ ++ b :: l₂ →
    Sorted key t.toList → (t.replace key b' (key b)).toList = l₁ ++ b' :: l₂
  | nil, l₁, l₂, b, h, _ => by simp [toList] at h
  | node l i c r, l₁, l₂, b, h, hs => by
    obtain ⟨hsl, hsr, -⟩ := pairwise_append.1 hs
    rw [h] at hs
    rw [replace]
    rcases split_node h hs with ⟨hlt, m, hl, rfl⟩ | ⟨hgt, m, hr, rfl⟩ | ⟨rfl, rfl, rfl⟩
    · rw [if_pos hlt, toList, replace_toList b' hl hsl]
      simp
    · rw [if_neg (by omega), if_pos hgt, toList, replace_toList b' hr (pairwise_cons.1 hsr).2]
      simp
    · rw [if_neg (Nat.lt_irrefl _), if_neg (Nat.lt_irrefl _), toList]

end AvlTree

end Wago.Avl
