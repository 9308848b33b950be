/-
Extents of an address range that starts at zero. Extents that are pairwise apart, lie below a bound and
have the bound as their total size cut the range without gaps. Empty extents may lie anywhere.
-/
import Mathlib.Algebra.Order.Ring.Int
import Mathlib.Data.List.Perm.Basic
import Mathlib.Tactic.Common

namespace Wago.Extents

open List

structure Extent where
  off : Nat
  size : Nat
  deriving DecidableEq, Repr

def Extent.stop (a : Extent) : Nat := a.off + a.size

/-- No address lies in both. -/
def Apart (a b : Extent) : Prop := a.size = 0 ∨ b.size = 0 ∨ a.stop ≤ b.off ∨ b.stop ≤ a.off

def Below (bound : Nat) (a : Extent) : Prop := a.size = 0 ∨ a.stop ≤ bound

def total (l : List Extent) : Nat := (l.map Extent.size).sum

theorem Apart.symm {a b : Extent} (h : Apart a b) : Apart b a := by
  unfold Apart at h ⊢
  omega

theorem total_perm {l l' : List Extent} (h : l.Perm l') : total l = total l' := (h.map _).sum_nat

@[simp] theorem total_cons (a : Extent) (l : List Extent) : total (a :: l) = a.size + total l := rfl

@[simp] theorem total_append (l l' : List Extent) : total (l ++ l') = total l + total l' := by
  simp [total]

theorem total_middle (l : List Extent) (a : Extent) (l' : List Extent) :
    total (l ++ a :: l') = total (l ++ l') + a.size := by
  simp only [total_append, total_cons]
  omega

/-- The extents cut the addresses below `bound`. -/
structure Packed (bound : Nat) (l : List Extent) : Prop where
  apart : l.Pairwise Apart
  below : ∀ a ∈ l, Below bound a
  total_eq : total l = bound

namespace Packed

variable {bound : Nat} {a b : Extent} {l l' : List Extent}

theorem perm (h : Packed bound l) (hp : l.Perm l') : Packed bound l' :=
  ⟨(hp.pairwise_iff fun h => Apart.symm h).1 h.apart, fun a ha => h.below a (hp.mem_iff.2 ha),
    (total_perm hp).symm.trans h.total_eq⟩

theorem nil : Packed 0 [] := ⟨.nil, by simp, rfl⟩

/-- Two extents next to each other become one. -/
theorem merge (h : Packed bound (a :: b :: l)) (hab : a.stop = b.off) :
    Packed bound (⟨a.off, a.size + b.size⟩ :: l) := by
  obtain ⟨ha, hrest⟩ := pairwise_cons.1 h.apart
  obtain ⟨hb, hl⟩ := pairwise_cons.1 hrest
  have hba := h.below a (by simp)
  have hbb := h.below b (by simp)
  unfold Extent.stop at hab
  refine ⟨pairwise_cons.2 ⟨fun x hx => ?_, hl⟩, fun x hx => ?_, ?_⟩
  · have h₁ := ha x (by simp [hx])
    have h₂ := hb x hx
    unfold Apart Extent.stop at *
    dsimp only
    omega
  · rcases mem_cons.1 hx with rfl | hx
    · unfold Below Extent.stop at *
      dsimp only
      omega
    · exact h.below x (by simp [hx])
  · have := h.total_eq
    simp only [total_cons] at this ⊢
    omega

/-- An extent may be cut. -/
theorem split (h : Packed bound (a :: l)) {n : Nat} (hn : n ≤ a.size) :
    Packed bound (⟨a.off, n⟩ :: ⟨a.off + n, a.size - n⟩ :: l) := by
  obtain ⟨ha, hl⟩ := pairwise_cons.1 h.apart
  have hba := h.below a (by simp)
  refine ⟨pairwise_cons.2 ⟨fun x hx => ?_, pairwise_cons.2 ⟨fun x hx => ?_, hl⟩⟩,
    fun x hx => ?_, ?_⟩
  · rcases mem_cons.1 hx with rfl | hx
    · unfold Apart Extent.stop
      dsimp only
      omega
    · have := ha x hx
      unfold Apart Extent.stop at *
      dsimp only
      omega
  · have := ha x hx
    unfold Apart Extent.stop at *
    dsimp only
    omega
  · simp only [mem_cons] at hx
    rcases hx with rfl | rfl | hx
    · unfold Below Extent.stop at *
      dsimp only
      omega
    · unfold Below Extent.stop at *
      dsimp only
      omega
    · exact h.below x (by simp [hx])
  · have := h.total_eq
    simp only [total_cons] at this ⊢
    omega

/-- A new extent at the bound. -/
theorem push (h : Packed bound l) (n : Nat) : Packed (bound + n) (⟨bound, n⟩ :: l) := by
  refine ⟨pairwise_cons.2 ⟨fun x hx => ?_, h.apart⟩, fun x hx => ?_, ?_⟩
  · have := h.below x hx
    unfold Below Apart Extent.stop at *
    dsimp only
    omega
  · rcases mem_cons.1 hx with rfl | hx
    · exact .inr (Nat.le_refl _)
    · exact (h.below x hx).imp_right fun hle => Nat.le_trans hle (Nat.le_add_right _ _)
  · have := h.total_eq
    simp only [total_cons]
    omega

/-- The extent at the bound goes, and the bound with it. -/
theorem pop (h : Packed bound (a :: l)) (ha : a.stop = bound) : Packed a.off l := by
  obtain ⟨hap, hl⟩ := pairwise_cons.1 h.apart
  unfold Extent.stop at ha
  refine ⟨hl, fun x hx => ?_, ?_⟩
  · have h₁ := hap x hx
    have h₂ := h.below x (by simp [hx])
    unfold Below Apart Extent.stop at *
    omega
  · have := h.total_eq
    simp only [total_cons] at this
    omega

end Packed

/-! ## Joining an extent with its neighbours -/

/-- `m` is `a` with the extents `near`, which end where it starts or start where it ends. -/
inductive Joins (a : Extent) : (near : List Extent) → (m : Extent) → Prop
  | alone : Joins a [] a
  | pred {p} (h : p.stop = a.off) : Joins a [p] ⟨p.off, a.size + p.size⟩
  | succ {s} (h : a.stop = s.off) : Joins a [s] ⟨a.off, a.size + s.size⟩
  | both {p s} (hp : p.stop = a.off) (hs : a.stop = s.off) :
      Joins a [p, s] ⟨p.off, a.size + p.size + s.size⟩

/-- The joined extent takes the place of its parts. -/
theorem Packed.join {bound : Nat} {a m : Extent} {near l : List Extent} (hj : Joins a near m)
    (h : Packed bound (a :: near ++ l)) : Packed bound (m :: l) := by
  cases hj with
  | alone => exact h
  | @pred p hp =>
    have := (h.perm (.swap p a l)).merge hp
    rwa [Nat.add_comm] at this
  | succ hs => exact h.merge hs
  | @both p s hp hs =>
    have h₁ := (h.perm (.swap p a (s :: l))).merge hp
    have h₂ := h₁.merge (b := s) (by unfold Extent.stop at *; dsimp only; omega)
    rwa [Nat.add_comm p.size a.size] at h₂

/-! ## Taking an extent -/

/-- `a` is taken from the extents `l` or from behind `bound`: the bound and the extents that are
left. -/
inductive Takes (bound : Nat) : (l : List Extent) → (a : Extent) → (bound' : Nat) → (l' : List Extent) → Prop
  | whole {l₁ l₂ b} : Takes bound (l₁ ++ b :: l₂) b bound (l₁ ++ l₂)
  | part {l₁ l₂ b} (n : Nat) (hn : n ≤ b.size) :
      Takes bound (l₁ ++ b :: l₂) ⟨b.off, n⟩ bound (l₁ ++ ⟨b.off + n, b.size - n⟩ :: l₂)
  | push {l} (n : Nat) : Takes bound l ⟨bound, n⟩ (bound + n) l

theorem Takes.packed {bound bound' : Nat} {l l' rest : List Extent} {a : Extent}
    (ht : Takes bound l a bound' l') (h : Packed bound (l ++ rest)) : Packed bound' (l' ++ a :: rest) := by
  cases ht with
  | @whole l₁ l₂ =>
    have hfront : (l₁ ++ a :: l₂ ++ rest).Perm (a :: (l₁ ++ l₂ ++ rest)) := by simp
    exact h.perm (hfront.trans perm_middle.symm)
  | @part l₁ l₂ b n hn =>
    have hfront (c : Extent) : (l₁ ++ c :: l₂ ++ rest).Perm (c :: (l₁ ++ l₂ ++ rest)) := by simp
    have h₁ := (h.perm (hfront b)).split hn
    exact h₁.perm (((hfront _).symm.cons _).trans perm_middle.symm)
  | push n => exact (h.push n).perm perm_middle.symm

/-- An extent is taken from one of the others, whatever the bound, or from behind the bound. -/
theorem Takes.inner_or_push {bound bound' : Nat} {l l' : List Extent} {a : Extent}
    (ht : Takes bound l a bound' l') :
    (bound' = bound ∧ (∀ c, Takes c l a c l') ∧ (∃ b ∈ l, a.stop ≤ b.stop) ∧
      ∀ x ∈ l', ∃ y ∈ l, x.stop = y.stop) ∨ (a.off = bound ∧ bound ≤ bound' ∧ l' = l) := by
  cases ht with
  | @whole l₁ l₂ =>
    refine .inl ⟨rfl, fun _ => .whole, ⟨a, by simp, Nat.le_refl _⟩, fun x hx => ⟨x, ?_, rfl⟩⟩
    simp only [mem_append, mem_cons] at hx ⊢
    tauto
  | @part l₁ l₂ b n hn =>
    refine .inl ⟨rfl, fun _ => .part n hn, ⟨b, by simp, Nat.add_le_add_left hn _⟩, fun x hx => ?_⟩
    simp only [mem_append, mem_cons] at hx
    rcases hx with hx | rfl | hx
    · exact ⟨x, by simp [hx], rfl⟩
    · refine ⟨b, by simp, ?_⟩
      unfold Extent.stop
      dsimp only
      omega
    · exact ⟨x, by simp [hx], rfl⟩
  | push n => exact .inr ⟨rfl, Nat.le_add_right _ _, rfl⟩

/-- An extent cut into `k` slices of size `n` and a rest. -/
theorem Packed.slice {bound n : Nat} : ∀ {k off rest : Nat} {l : List Extent},
    Packed bound (⟨off, k * n + rest⟩ :: l) →
    Packed bound ((List.range k).map (fun i => ⟨off + i * n, n⟩) ++ ⟨off + k * n, rest⟩ :: l)
  | 0, off, rest, l, h => by simpa using h
  | k + 1, off, rest, l, h => by
    have hsize : (k + 1) * n + rest = k * n + (n + rest) := by
      rw [Nat.succ_mul]
      omega
    have hoff : off + (k + 1) * n = off + k * n + n := by
      rw [Nat.succ_mul]
      omega
    rw [hsize] at h
    have h₁ := (h.slice.perm perm_middle).split (n := n) (Nat.le_add_right n rest)
    dsimp only at h₁
    rw [Nat.add_sub_cancel_left] at h₁
    rw [range_succ, map_append, append_assoc, hoff]
    exact h₁.perm ((perm_middle.symm.cons _).trans perm_middle.symm)

end Wago.Extents
