/-
An interval cut into consecutive nonempty pieces of several kinds.
-/
import Mathlib.Algebra.Order.Ring.Int
import Mathlib.Tactic.Common

namespace Wago.Tiling

structure Piece (κ : Type) where
  start : Nat
  len : Nat
  kind : κ
  deriving DecidableEq, Repr

variable {κ : Type}

def Piece.stop (p : Piece κ) : Nat := p.start + p.len

/-- The pieces follow each other from `lo` to `hi`, none of them empty. -/
def Tiles : (lo : Nat) → List (Piece κ) → (hi : Nat) → Prop
  | lo, [], hi => lo = hi
  | lo, p :: ps, hi => p.start = lo ∧ 0 < p.len ∧ Tiles p.stop ps hi

theorem tiles_append : ∀ {ps qs : List (Piece κ)} {lo hi : Nat},
    Tiles lo (ps ++ qs) hi ↔ ∃ mid, Tiles lo ps mid ∧ Tiles mid qs hi
  | [], qs, lo, hi => by simp [Tiles]
  | p :: ps, qs, lo, hi => by
    simp only [List.cons_append, Tiles, tiles_append]
    constructor
    · rintro ⟨hs, hl, mid, h₁, h₂⟩
      exact ⟨mid, ⟨hs, hl, h₁⟩, h₂⟩
    · rintro ⟨mid, ⟨hs, hl, h₁⟩, h₂⟩
      exact ⟨hs, hl, mid, h₁, h₂⟩

theorem tiles_split {pre post : List (Piece κ)} {p : Piece κ} {lo hi : Nat} :
    Tiles lo (pre ++ p :: post) hi ↔ Tiles lo pre p.start ∧ 0 < p.len ∧ Tiles p.stop post hi := by
  rw [tiles_append]
  constructor
  · rintro ⟨mid, hpre, rfl, hl, hpost⟩
    exact ⟨hpre, hl, hpost⟩
  · rintro ⟨hpre, hl, hpost⟩
    exact ⟨p.start, hpre, rfl, hl, hpost⟩

namespace Tiles

variable {ps : List (Piece κ)} {lo hi : Nat}

theorem le : ∀ {ps : List (Piece κ)} {lo hi : Nat}, Tiles lo ps hi → lo ≤ hi
  | [], _, _, h => Nat.le_of_eq h
  | p :: ps, lo, hi, ⟨hs, _, h⟩ => by
    have := h.le
    unfold Piece.stop at this
    omega

theorem bounds {p : Piece κ} (h : Tiles lo ps hi) (hp : p ∈ ps) :
    lo ≤ p.start ∧ 0 < p.len ∧ p.stop ≤ hi := by
  obtain ⟨pre, post, rfl⟩ := List.append_of_mem hp
  obtain ⟨hpre, hl, hpost⟩ := tiles_split.1 h
  exact ⟨hpre.le, hl, hpost.le⟩

/-- Every point of the interval lies in a piece. -/
theorem cover : ∀ {ps : List (Piece κ)} {lo hi : Nat}, Tiles lo ps hi → ∀ b, lo ≤ b → b < hi →
    ∃ p ∈ ps, p.start ≤ b ∧ b < p.stop
  | [], _, _, h, b, hlo, hhi => by
    unfold Tiles at h
    omega
  | p :: ps, lo, hi, ⟨hs, _, h⟩, b, hlo, hhi => by
    by_cases hb : b < p.stop
    · exact ⟨p, by simp, by omega, hb⟩
    · obtain ⟨q, hq, hqb⟩ := h.cover b (by omega) hhi
      exact ⟨q, by simp [hq], hqb⟩

/-- Two pieces that share a point are the same. -/
theorem eq_of_overlap {p q : Piece κ} {b : Nat} (h : Tiles lo ps hi) (hp : p ∈ ps) (hq : q ∈ ps)
    (hpb : p.start ≤ b ∧ b < p.stop) (hqb : q.start ≤ b ∧ b < q.stop) : p = q := by
  obtain ⟨pre, post, rfl⟩ := List.append_of_mem hp
  obtain ⟨hpre, -, hpost⟩ := tiles_split.1 h
  rcases List.mem_append.1 hq with hq | hq
  · have := (hpre.bounds hq).2.2
    omega
  rcases List.mem_cons.1 hq with rfl | hq
  · rfl
  · have := (hpost.bounds hq).1
    omega

theorem start_lt {p : Piece κ} (h : Tiles lo ps hi) (hp : p ∈ ps) : p.start < p.stop := by
  have := (h.bounds hp).2.1
  unfold Piece.stop
  omega

theorem eq_of_start {p q : Piece κ} (h : Tiles lo ps hi) (hp : p ∈ ps) (hq : q ∈ ps)
    (he : p.start = q.start) : p = q :=
  h.eq_of_overlap hp hq ⟨Nat.le_refl _, h.start_lt hp⟩ ⟨Nat.le_of_eq he.symm, he ▸ h.start_lt hq⟩

theorem nodup : ∀ {ps : List (Piece κ)} {lo hi : Nat}, Tiles lo ps hi → ps.Nodup
  | [], _, _, _ => List.nodup_nil
  | _ :: _, _, _, ⟨_, hl, h⟩ => List.nodup_cons.2 ⟨fun hp => by
      have := (h.bounds hp).1
      unfold Piece.stop at this
      omega, h.nodup⟩

end Tiles

end Wago.Tiling
