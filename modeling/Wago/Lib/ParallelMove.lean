/-
Parallel moves done one at a time. Every register of a finite set `D` is to take the value its
source had before any move was made. A move is safe once nothing left reads its destination; what is
left when no move is safe is a permutation, and each of its cycles is rotated by exchanges of
neighbours.

The layer invariant: registers outside `D` and those still pending hold their first value, the
others the value of their source.
-/
import Mathlib.Data.Finset.Card
import Mathlib.Data.Finset.Image
import Mathlib.Logic.Function.Basic

namespace Wago.ParallelMove

open Finset Function

variable {R α : Type*} [DecidableEq R]

def move (dst src : R) (f : R → α) : R → α := Function.update f dst (f src)

def swap (a b : R) (f : R → α) : R → α := Function.update (Function.update f a (f b)) b (f a)

theorem move_same (dst src : R) (f : R → α) : move dst src f dst = f src := update_self ..

theorem move_other {r dst : R} (h : r ≠ dst) (src : R) (f : R → α) : move dst src f r = f r :=
  update_of_ne h ..

theorem swap_left {a b : R} (h : a ≠ b) (f : R → α) : swap a b f a = f b := by
  rw [swap, update_of_ne h, update_self]

theorem swap_right (a b : R) (f : R → α) : swap a b f b = f a := update_self ..

theorem swap_other {r a b : R} (ha : r ≠ a) (hb : r ≠ b) (f : R → α) : swap a b f r = f r := by
  rw [swap, update_of_ne hb, update_of_ne ha]

/-! ## Moves -/

/-- The moves into `D` outside `P` are made, those into `P` are not, and what these read is still
there. -/
structure Partway (src : R → R) (o : R → α) (D P : Finset R) (f : R → α) : Prop where
  sub : P ⊆ D
  moved : ∀ d ∈ D, d ∉ P → f d = o (src d)
  kept : ∀ r, r ∉ D ∨ r ∈ P → f r = o r
  reads : ∀ d ∈ P, src d ∈ D → src d ∈ P

namespace Partway

variable {src : R → R} {o f : R → α} {D P : Finset R} {d : R}

omit [DecidableEq R] in
theorem start (src : R → R) (o : R → α) (D : Finset R) : Partway src o D D o where
  sub := Finset.Subset.refl D
  moved := fun _ hd hn => absurd hd hn
  kept := fun _ _ => rfl
  reads := fun _ _ h => h

theorem source_kept (h : Partway src o D P f) (hd : d ∈ P) : f (src d) = o (src d) := by
  apply h.kept
  by_cases hs : src d ∈ D
  · exact .inr (h.reads d hd hs)
  · exact .inl hs

/-- A destination that nothing left reads can be overwritten. -/
theorem move (h : Partway src o D P f) (hd : d ∈ P) (hfree : ∀ e ∈ P, src e ≠ d) :
    Partway src o D (P.erase d) (move d (src d) f) where
  sub := fun _ hr => h.sub (mem_of_mem_erase hr)
  moved := by
    intro e he hn
    by_cases hed : e = d
    · rw [hed, move_same, h.source_kept hd]
    · rw [move_other hed, h.moved e he fun hp => hn (mem_erase.2 ⟨hed, hp⟩)]
  kept := by
    intro r hr
    have hrd : r ≠ d := by
      rintro rfl
      rcases hr with hr | hr
      · exact hr (h.sub hd)
      · exact (mem_erase.1 hr).1 rfl
    rw [move_other hrd]
    exact h.kept r (hr.imp_right mem_of_mem_erase)
  reads := by
    intro e he hs
    have heP := mem_of_mem_erase he
    exact mem_erase.2 ⟨hfree e heP, h.reads e heP hs⟩

omit [DecidableEq R] in
theorem finished (h : Partway src o D ∅ f) : (∀ d ∈ D, f d = o (src d)) ∧ ∀ r, r ∉ D → f r = o r :=
  ⟨fun d hd => h.moved d hd (notMem_empty d), fun r hr => h.kept r (.inl hr)⟩

end Partway

/-! ## Cycles -/

/-- `src` permutes `P`. -/
structure Cyclic (src : R → R) (P : Finset R) : Prop where
  closed : ∀ d ∈ P, src d ∈ P
  inj : ∀ d ∈ P, ∀ e ∈ P, src d = src e → d = e

/-- When every member is read by a member, the members are permuted. -/
theorem cyclic_of_read {src : R → R} {P : Finset R} (h : ∀ d ∈ P, ∃ e ∈ P, src e = d) :
    Cyclic src P := by
  have hsub : P ⊆ P.image src := fun d hd => mem_image.2 (h d hd)
  have himage : P = P.image src := eq_of_subset_of_card_le hsub card_image_le
  have hinj : Set.InjOn src P := card_image_iff.1 (by rw [← himage])
  refine ⟨fun d hd => ?_, fun d hd e he hde => hinj hd he hde⟩
  rw [himage]
  exact mem_image_of_mem src hd

/-- A cycle being rotated from `start`: `dst` holds the first value of `start`, and its own reader
is done. -/
structure Rotating (src : R → R) (o : R → α) (D P : Finset R) (start dst : R) (f : R → α) : Prop where
  sub : P ⊆ D
  mem : dst ∈ P
  moved : ∀ d ∈ D, d ∉ P → f d = o (src d)
  kept : ∀ r, r ∉ D ∨ r ∈ P → r ≠ dst → f r = o r
  carried : f dst = o start
  inj : ∀ d ∈ P, ∀ e ∈ P, src d = src e → d = e
  next : ∀ d ∈ P, src d ∈ P ∨ src d = start
  unread : ∀ d ∈ P, src d = dst → dst = start
  passed : start ∈ P → dst = start

namespace Rotating

variable {src : R → R} {o f : R → α} {D P : Finset R} {start dst : R}

omit [DecidableEq R] in
theorem enter (h : Partway src o D P f) (hc : Cyclic src P) (hs : start ∈ P) :
    Rotating src o D P start start f where
  sub := h.sub
  mem := hs
  moved := h.moved
  kept := fun r hr _ => h.kept r hr
  carried := h.kept start (.inr hs)
  inj := hc.inj
  next := fun d hd => .inl (hc.closed d hd)
  unread := fun _ _ _ => rfl
  passed := fun _ => rfl

omit [DecidableEq R] in
theorem source_mem (h : Rotating src o D P start dst f) (hne : src dst ≠ start) : src dst ∈ P :=
  (h.next dst h.mem).resolve_right hne

omit [DecidableEq R] in
theorem source_ne (h : Rotating src o D P start dst f) (hne : src dst ≠ start) : src dst ≠ dst :=
  fun heq => hne (heq.trans (h.unread dst h.mem heq))

/-- One exchange settles `dst` and carries the value of `start` to its source. -/
theorem swap (h : Rotating src o D P start dst f) (hne : src dst ≠ start) :
    Rotating src o D (P.erase dst) start (src dst) (swap dst (src dst) f) := by
  have hmem := h.source_mem hne
  have hdst := h.source_ne hne
  refine
    { sub := fun _ hr => h.sub (mem_of_mem_erase hr)
      mem := mem_erase.2 ⟨hdst, hmem⟩
      moved := ?_, kept := ?_
      carried := by rw [swap_right, h.carried]
      inj := fun d hd e he => h.inj d (mem_of_mem_erase hd) e (mem_of_mem_erase he)
      next := ?_, unread := ?_, passed := ?_ }
  · intro d hd hn
    by_cases hdd : d = dst
    · rw [hdd, swap_left hdst.symm, h.kept _ (.inr hmem) hdst]
    · have hP : d ∉ P := fun hp => hn (mem_erase.2 ⟨hdd, hp⟩)
      have hsd : d ≠ src dst := fun heq => hP (heq ▸ hmem)
      rw [swap_other hdd hsd, h.moved d hd hP]
  · intro r hr hrs
    have hrd : r ≠ dst := by
      rintro rfl
      rcases hr with hr | hr
      · exact hr (h.sub h.mem)
      · exact (mem_erase.1 hr).1 rfl
    rw [swap_other hrd hrs]
    exact h.kept r (hr.imp_right mem_of_mem_erase) hrd
  · intro d hd
    have hP := mem_of_mem_erase hd
    rcases h.next d hP with hn | hn
    · by_cases heq : src d = dst
      · exact .inr (heq.trans (h.unread d hP heq))
      · exact .inl (mem_erase.2 ⟨heq, hn⟩)
    · exact .inr hn
  · intro d hd heq
    exact absurd (h.inj d (mem_of_mem_erase hd) dst h.mem heq) (mem_erase.1 hd).1
  · intro hs
    have heq := h.passed (mem_of_mem_erase hs)
    exact absurd heq.symm (mem_erase.1 hs).1

/-- Back at `start` the whole cycle is settled, and what is left is permuted still. -/
theorem finish (h : Rotating src o D P start dst f) (heq : src dst = start) :
    Partway src o D (P.erase dst) f ∧ Cyclic src (P.erase dst) := by
  have hclosed : ∀ d ∈ P.erase dst, src d ∈ P.erase dst := by
    intro d hd
    obtain ⟨hdd, hP⟩ := mem_erase.1 hd
    have hns : src d ≠ start := fun hs => hdd (h.inj d hP dst h.mem (hs.trans heq.symm))
    refine mem_erase.2 ⟨fun hs => hns ?_, (h.next d hP).resolve_right hns⟩
    exact hs.trans (h.unread d hP hs)
  refine ⟨⟨fun _ hr => h.sub (mem_of_mem_erase hr), ?_, ?_, fun d hd _ => hclosed d hd⟩,
    hclosed, fun d hd e he => h.inj d (mem_of_mem_erase hd) e (mem_of_mem_erase he)⟩
  · intro d hd hn
    by_cases hdd : d = dst
    · rw [hdd, h.carried, heq]
    · exact h.moved d hd fun hp => hn (mem_erase.2 ⟨hdd, hp⟩)
  · intro r hr
    refine h.kept r (hr.imp_right mem_of_mem_erase) ?_
    rintro rfl
    rcases hr with hr | hr
    · exact hr (h.sub h.mem)
    · exact (mem_erase.1 hr).1 rfl

end Rotating

end Wago.ParallelMove
