/-
Doubly linked lists over arbitrary link functions. A segment runs from its first node to the node
behind its last one; inserting in front and unlinking are updates of the links at the two ends.
-/
import Mathlib.Algebra.Order.Ring.Int
import Mathlib.Data.List.Nodup
import Mathlib.Tactic.Common

namespace Wago.DList

open List Function

variable {next prev : Nat → Nat}

/-- The nodes `l` form a segment: `hd` is its first node and `lst` its last one, `bf` stands before it
and `af` behind it. An empty segment has `hd = af` and `lst = bf`. -/
def Segment (next prev : Nat → Nat) : (bf hd : Nat) → List Nat → (lst af : Nat) → Prop
  | bf, hd, [], lst, af => hd = af ∧ lst = bf
  | bf, hd, b :: bs, lst, af => hd = b ∧ prev b = bf ∧ Segment next prev b (next b) bs lst af

theorem segment_append : ∀ {l₁ l₂ : List Nat} {bf hd lst af : Nat},
    Segment next prev bf hd (l₁ ++ l₂) lst af ↔
      ∃ m n, Segment next prev bf hd l₁ m n ∧ Segment next prev m n l₂ lst af
  | [], l₂, bf, hd, lst, af => by
    constructor
    · intro h
      exact ⟨bf, hd, ⟨rfl, rfl⟩, h⟩
    · rintro ⟨m, n, ⟨rfl, rfl⟩, h⟩
      exact h
  | b :: l₁, l₂, bf, hd, lst, af => by
    simp only [cons_append, Segment, segment_append]
    constructor
    · rintro ⟨hhd, hprev, m, n, h₁, h₂⟩
      exact ⟨m, n, ⟨hhd, hprev, h₁⟩, h₂⟩
    · rintro ⟨m, n, ⟨hhd, hprev, h₁⟩, h₂⟩
      exact ⟨hhd, hprev, m, n, h₁, h₂⟩

/-- Only the links of its own nodes matter for a segment. -/
theorem Segment.congr {next' prev' : Nat → Nat} : ∀ {l : List Nat} {bf hd lst af : Nat},
    (∀ b ∈ l, next' b = next b ∧ prev' b = prev b) → Segment next prev bf hd l lst af →
    Segment next' prev' bf hd l lst af
  | [], _, _, _, _, _, h => h
  | b :: l, _, _, _, _, heq, ⟨hhd, hprev, h⟩ => by
    obtain ⟨hn, hp⟩ := heq b (by simp)
    refine ⟨hhd, hp.trans hprev, ?_⟩
    rw [hn]
    exact Segment.congr (fun c hc => heq c (by simp [hc])) h

theorem Segment.last_mem : ∀ {l : List Nat} {bf hd lst af : Nat}, Segment next prev bf hd l lst af →
    l ≠ [] → lst ∈ l
  | [b], _, _, _, _, ⟨_, _, _, hlst⟩, _ => by simp [hlst]
  | b :: c :: l, _, _, _, _, ⟨_, _, h⟩, _ => mem_cons_of_mem b (h.last_mem (by simp))

theorem Segment.head_mem {l : List Nat} {bf hd lst af : Nat} (h : Segment next prev bf hd l lst af)
    (hl : l ≠ []) : hd ∈ l := by
  cases l with
  | nil => exact absurd rfl hl
  | cons b l => simp [h.1]

/-- The nodes met from `d` on, at most `fuel` of them. -/
def walk (next : Nat → Nat) (nil : Nat) : (fuel d : Nat) → List Nat
  | 0, _ => []
  | fuel + 1, d => if d = nil then [] else d :: walk next nil fuel (next d)

/-- A nonempty segment continues at `af'` when its last node's link does. -/
theorem Segment.set_after {af' : Nat} : ∀ {l : List Nat} {bf hd lst af : Nat}, l.Nodup → l ≠ [] →
    Segment next prev bf hd l lst af →
    Segment (Function.update next lst af') prev bf hd l lst af'
  | [b], _, _, _, _, _, _, ⟨hhd, hprev, _, hlst⟩ => by
    subst hlst
    exact ⟨hhd, hprev, by simp, rfl⟩
  | b :: c :: l, _, _, lst, _, hnd, _, ⟨hhd, hprev, h⟩ => by
    obtain ⟨hb, hnd⟩ := nodup_cons.1 hnd
    have hne : b ≠ lst := fun he => hb (he ▸ h.last_mem (by simp))
    refine ⟨hhd, hprev, ?_⟩
    rw [update_of_ne hne]
    exact Segment.set_after hnd (by simp) h

/-- A nonempty segment starts behind `bf'` when its first node's link says so. -/
theorem Segment.set_before {bf' : Nat} {l : List Nat} {bf hd lst af : Nat} (hnd : l.Nodup)
    (hl : l ≠ []) (h : Segment next prev bf hd l lst af) :
    Segment next (Function.update prev hd bf') bf' hd l lst af := by
  cases l with
  | nil => exact absurd rfl hl
  | cons b l =>
    obtain ⟨rfl, -, h⟩ := h
    refine ⟨rfl, by simp, h.congr fun c hc => ⟨rfl, ?_⟩⟩
    exact update_of_ne (fun he : c = hd => (nodup_cons.1 hnd).1 (he ▸ hc)) _ _

/-! ## Lists with a sentinel -/

/-- A whole list: the sentinel stands at both ends and is no node. -/
structure Linked (next prev : Nat → Nat) (nil hd : Nat) (l : List Nat) : Prop where
  segment : ∃ lst, Segment next prev nil hd l lst nil
  nodup : l.Nodup
  not_nil : nil ∉ l

namespace Linked

variable {nil hd : Nat} {l : List Nat}

theorem congr {next' prev' : Nat → Nat} (h : Linked next prev nil hd l)
    (heq : ∀ b ∈ l, next' b = next b ∧ prev' b = prev b) : Linked next' prev' nil hd l := by
  obtain ⟨lst, hseg⟩ := h.segment
  exact ⟨⟨lst, hseg.congr heq⟩, h.nodup, h.not_nil⟩

theorem head_eq_nil_iff (h : Linked next prev nil hd l) : hd = nil ↔ l = [] := by
  obtain ⟨lst, hseg⟩ := h.segment
  cases l with
  | nil => simpa using hseg.1
  | cons b l =>
    have hb : b ≠ nil := fun he => h.not_nil (by simp [he])
    simp [hseg.1, hb]

theorem head_mem (h : Linked next prev nil hd l) (hne : hd ≠ nil) : hd ∈ l := by
  obtain ⟨lst, hseg⟩ := h.segment
  exact hseg.head_mem fun hl => hne (h.head_eq_nil_iff.2 hl)

theorem empty (next prev : Nat → Nat) (nil : Nat) : Linked next prev nil nil [] :=
  ⟨⟨nil, rfl, rfl⟩, nodup_nil, by simp⟩

/-- The links after `b` was put in front of a list that starts at `hd`. -/
def pushPrev (prev : Nat → Nat) (nil hd b : Nat) : Nat → Nat :=
  if hd = nil then Function.update prev b nil
  else Function.update (Function.update prev b nil) hd b

theorem push (h : Linked next prev nil hd l) {b : Nat} (hb : b ∉ l) (hne : b ≠ nil) :
    Linked (Function.update next b hd) (pushPrev prev nil hd b) nil b (b :: l) := by
  obtain ⟨lst, hseg⟩ := h.segment
  have hnext : ∀ c ∈ l, Function.update next b hd c = next c := fun c hc =>
    update_of_ne (fun he : c = b => hb (he ▸ hc)) _ _
  refine ⟨?_, nodup_cons.2 ⟨hb, h.nodup⟩, ?_⟩
  · by_cases hl : l = []
    · have hhd := h.head_eq_nil_iff.2 hl
      subst hl
      exact ⟨b, rfl, by simp [pushPrev, hhd], by simp [hhd], rfl⟩
    · have hhd : hd ≠ nil := fun he => hl (h.head_eq_nil_iff.1 he)
      have hbh : b ≠ hd := fun he => hb (he ▸ h.head_mem hhd)
      refine ⟨lst, rfl, ?_, ?_⟩
      · simp [pushPrev, hhd, update_of_ne hbh]
      · rw [update_self]
        refine (hseg.set_before h.nodup hl).congr fun c hc => ⟨hnext c hc, ?_⟩
        have hcb : c ≠ b := fun he => hb (he ▸ hc)
        by_cases hch : c = hd
        · simp [pushPrev, hhd, hch]
        · simp [pushPrev, hhd, hch, hcb]
  · simp [h.not_nil, Ne.symm hne]

/-- The links after `b` was taken out of a list. -/
def dropNext (next prev : Nat → Nat) (nil b : Nat) : Nat → Nat :=
  if prev b = nil then next else Function.update next (prev b) (next b)

def dropPrev (next prev : Nat → Nat) (nil b : Nat) : Nat → Nat :=
  if next b = nil then prev else Function.update prev (next b) (prev b)

/-- Taking a node out, with both ends of the list kept in view. -/
theorem unlink_segment {l₁ l₂ : List Nat} {b lst : Nat}
    (hseg : Segment next prev nil hd (l₁ ++ b :: l₂) lst nil) (hnd : (l₁ ++ b :: l₂).Nodup)
    (hnil : nil ∉ l₁ ++ b :: l₂) :
    Segment (dropNext next prev nil b) (dropPrev next prev nil b) nil
      (if prev b = nil then next b else hd) (l₁ ++ l₂) (if next b = nil then prev b else lst) nil := by
  obtain ⟨m, n, h₁, hnb, hprev, h₂⟩ := segment_append.1 hseg
  subst hprev
  rw [nodup_append, nodup_cons] at hnd
  obtain ⟨hnd₁, ⟨-, hnd₂⟩, hdisj⟩ := hnd
  simp only [mem_append, mem_cons, not_or] at hnil
  -- The part before `b` now continues at `next b`.
  have h₁' : Segment (dropNext next prev nil b) prev nil (if prev b = nil then next b else hd) l₁
      (prev b) (next b) := by
    by_cases hl : l₁ = []
    · subst hl
      have hp := h₁.2
      exact ⟨if_pos hp, hp⟩
    · have hp : prev b ≠ nil := fun he => hnil.1 (he ▸ h₁.last_mem hl)
      rw [if_neg hp, dropNext, if_neg hp]
      exact h₁.set_after hnd₁ hl
  -- The part behind `b` now starts behind `prev b`.
  have h₂' : Segment next (dropPrev next prev nil b) (prev b) (next b) l₂
      (if next b = nil then prev b else lst) nil := by
    by_cases hl : l₂ = []
    · subst hl
      exact ⟨h₂.1, if_pos h₂.1⟩
    · have hn : next b ≠ nil := fun he => hnil.2.2 (he ▸ h₂.head_mem hl)
      rw [if_neg hn, dropPrev, if_neg hn]
      exact h₂.set_before hnd₂ hl
  refine segment_append.2 ⟨_, _, h₁'.congr ?_, h₂'.congr ?_⟩
  · intro c hc
    refine ⟨rfl, ?_⟩
    unfold dropPrev
    split
    · rfl
    · refine update_of_ne (fun he => ?_) _ _
      rw [he] at hc
      have hl : l₂ ≠ [] := fun hl => ‹¬ next b = nil› (by subst hl; exact h₂.1)
      exact hdisj _ hc _ (mem_cons_of_mem b (h₂.head_mem hl)) rfl
  · intro c hc
    refine ⟨?_, rfl⟩
    unfold dropNext
    split
    · rfl
    · refine update_of_ne (fun he => ?_) _ _
      rw [he] at hc
      have hl : l₁ ≠ [] := fun hl => ‹¬ prev b = nil› (by subst hl; exact h₁.2)
      exact hdisj _ (h₁.last_mem hl) _ (mem_cons_of_mem b hc) rfl

theorem drop {l₁ l₂ : List Nat} {b : Nat} (h : Linked next prev nil hd (l₁ ++ b :: l₂)) :
    Linked (dropNext next prev nil b) (dropPrev next prev nil b) nil
      (if prev b = nil then next b else hd) (l₁ ++ l₂) := by
  obtain ⟨lst, hseg⟩ := h.segment
  refine ⟨⟨_, unlink_segment hseg h.nodup h.not_nil⟩, ?_, ?_⟩
  · have hnd := h.nodup
    rw [nodup_append, nodup_cons] at hnd
    obtain ⟨hnd₁, ⟨-, hnd₂⟩, hdisj⟩ := hnd
    rw [nodup_append]
    exact ⟨hnd₁, hnd₂, fun a ha c hc => hdisj a ha c (mem_cons_of_mem b hc)⟩
  · have hnil := h.not_nil
    simp only [mem_append, mem_cons, not_or] at hnil
    simp [hnil.1, hnil.2.2]

/-- The links after `b` was put behind a list that ends in `lst`. -/
def appendNext (next : Nat → Nat) (nil lst b : Nat) : Nat → Nat :=
  Function.update (if lst = nil then next else Function.update next lst b) b nil

/-- The neighbours of a node are nodes of the list or the sentinel. -/
theorem neighbours {b : Nat} (h : Linked next prev nil hd l) (hb : b ∈ l) :
    (next b = nil ∨ next b ∈ l) ∧ (prev b = nil ∨ prev b ∈ l) := by
  obtain ⟨l₁, l₂, rfl⟩ := append_of_mem hb
  obtain ⟨lst, hseg⟩ := h.segment
  obtain ⟨m, n, h₁, rfl, rfl, h₂⟩ := segment_append.1 hseg
  constructor
  · by_cases hl : l₂ = []
    · subst hl; exact .inl h₂.1
    · exact .inr (by simp [h₂.head_mem hl])
  · by_cases hl : l₁ = []
    · subst hl; exact .inl h₁.2
    · exact .inr (by simp [h₁.last_mem hl])

end Linked

end Wago.DList
