/-
A ring buffer: a list of slots with a read and a write position. `contents` lists what is stored, in
the order in which it will come out.
-/
import Mathlib.Data.List.GetD
import Mathlib.Data.Nat.ModEq
import Mathlib.Data.List.Perm.Subperm

namespace Wago

structure Ring (α : Type) where
  slots : List α
  head : Nat := 0
  tail : Nat := 0
  count : Nat := 0

namespace Ring

variable {α : Type}

def push (r : Ring α) (a : α) : Ring α :=
  { r with slots := r.slots.set r.tail a, tail := (r.tail + 1) % r.slots.length, count := r.count + 1 }

def pop (r : Ring α) : Ring α :=
  { r with head := (r.head + 1) % r.slots.length, count := r.count - 1 }

/-- The positions agree with the count. -/
structure Fits (r : Ring α) : Prop where
  head : r.head < r.slots.length
  tail : r.tail = (r.head + r.count) % r.slots.length

@[simp] theorem length_slots_push (r : Ring α) (a : α) : (r.push a).slots.length = r.slots.length := by
  simp [push]

theorem Fits.pop {r : Ring α} (h : r.Fits) (hc : 0 < r.count) : r.pop.Fits := by
  have hn : 0 < r.slots.length := lt_of_le_of_lt (Nat.zero_le _) h.head
  refine ⟨Nat.mod_lt _ hn, ?_⟩
  change r.tail = ((r.head + 1) % r.slots.length + (r.count - 1)) % r.slots.length
  rw [Nat.mod_add_mod, h.tail]
  congr 1
  omega

theorem Fits.push {r : Ring α} (h : r.Fits) (a : α) : (r.push a).Fits := by
  refine ⟨by rw [length_slots_push]; exact h.head, ?_⟩
  rw [length_slots_push]
  change (r.tail + 1) % r.slots.length = (r.head + (r.count + 1)) % r.slots.length
  rw [h.tail, Nat.mod_add_mod, Nat.add_assoc]

variable [Inhabited α]

def contents (r : Ring α) : List α :=
  (List.range r.count).map fun i => r.slots.getD ((r.head + i) % r.slots.length) default

@[simp] theorem length_contents (r : Ring α) : r.contents.length = r.count := by
  simp [contents]

theorem contents_eq_nil {r : Ring α} : r.contents = [] ↔ r.count = 0 := by
  rw [← List.length_eq_zero_iff, length_contents]

theorem contents_pop {r : Ring α} (h : r.Fits) (hc : 0 < r.count) :
    r.contents = r.slots.getD r.head default :: r.pop.contents := by
  obtain ⟨n, hn⟩ : ∃ n, r.count = n + 1 := ⟨r.count - 1, by omega⟩
  have hpop : r.pop.count = n := by rw [pop, hn]; rfl
  rw [contents, contents, hn, hpop, List.range_succ_eq_map, List.map_cons, List.map_map, Nat.add_zero,
    Nat.mod_eq_of_lt h.head]
  congr 1
  refine List.map_congr_left fun i _ => ?_
  change r.slots.getD ((r.head + (i + 1)) % r.slots.length) default =
    r.slots.getD (((r.head + 1) % r.slots.length + i) % r.slots.length) default
  rw [Nat.mod_add_mod]
  congr 2
  omega

/-- While a slot is free, a write does not reach what is stored. -/
theorem contents_push {r : Ring α} (h : r.Fits) (a : α) (hc : r.count < r.slots.length) :
    (r.push a).contents = r.contents ++ [a] := by
  have hread : ∀ i, (r.push a).slots.getD ((r.head + i) % r.slots.length) default =
      if r.tail = (r.head + i) % r.slots.length then a
      else r.slots.getD ((r.head + i) % r.slots.length) default := by
    intro i
    have hlt : (r.head + i) % r.slots.length < r.slots.length := Nat.mod_lt _ (by omega)
    change (r.slots.set r.tail a).getD _ default = _
    rw [List.getD_eq_getElem?_getD, List.getElem?_set]
    split
    · next heq =>
      rw [if_pos (heq ▸ hlt)]
      rfl
    · rw [List.getD_eq_getElem?_getD]
  rw [contents, length_slots_push]
  change (List.range (r.count + 1)).map (fun i => (r.push a).slots.getD ((r.head + i) % r.slots.length) default) = _
  rw [List.range_succ, List.map_append, contents]
  congr 1
  · refine List.map_congr_left fun i hi => ?_
    rw [hread, if_neg]
    rw [h.tail]
    intro heq
    have hmod : r.count ≡ i [MOD r.slots.length] := Nat.ModEq.add_left_cancel' r.head heq
    have hi := List.mem_range.1 hi
    have hci := Nat.ModEq.eq_of_lt_of_lt hmod hc (by omega)
    omega
  · rw [List.map_singleton, hread, if_pos h.tail]

end Ring

/-- A list without repetitions of numbers below `n` has at most `n` of them. -/
theorem length_le_of_nodup_lt {l : List Nat} {n : Nat} (hl : l.Nodup) (hlt : ∀ a ∈ l, a < n) :
    l.length ≤ n := by
  have hsub : l ⊆ List.range n := fun a ha => List.mem_range.2 (hlt a ha)
  simpa using (hl.subperm hsub).length_le

end Wago
