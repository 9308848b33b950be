/-
Graphs on the numbers below a bound, as adjacency arrays: the edges are sorted by their source with one
pass that counts, one that sums and one that places. Over them, the breadth-first closure of a set.
-/
import Mathlib.Data.List.Induction
import Mathlib.Data.List.Nodup
import Mathlib.Logic.Relation
import Mathlib.Tactic.Common
import Wago.Lib.Ring

namespace Wago.Adjacency

open List Function

/-! ## Arrays -/

/-- The number of edges of each source, one place further right. -/
def counts (edges : List (Nat × Nat)) (start : Nat → Nat) : Nat → Nat :=
  edges.foldl (fun offsets e => Function.update offsets (e.1 + 1) (offsets (e.1 + 1) + 1)) start

/-- Every entry up to `n` gets the one before it added, from the left. -/
def sums (offsets : Nat → Nat) : (n : Nat) → Nat → Nat
  | 0 => offsets
  | n + 1 =>
    let sofar := sums offsets n
    Function.update sofar (n + 1) (sofar (n + 1) + sofar n)

/-- An edge goes to the place its source's cursor is at. -/
def placeOne (s : (Nat → Nat) × (Nat → Nat)) (e : Nat × Nat) : (Nat → Nat) × (Nat → Nat) :=
  (Function.update s.1 (s.2 e.1) e.2, Function.update s.2 e.1 (s.2 e.1 + 1))

structure Arrays where
  offsets : Nat → Nat
  children : Nat → Nat

def build (n : Nat) (edges : List (Nat × Nat)) : Arrays :=
  let offsets := sums (counts edges fun _ => 0) n
  { offsets, children := (edges.foldl placeOne (fun _ => 0, offsets)).1 }

/-- The targets of a source, in the order of the array. -/
def Arrays.next (a : Arrays) (p : Nat) : List Nat :=
  (List.range' (a.offsets p) (a.offsets (p + 1) - a.offsets p)).map a.children

/-- The number of edges from `k`. -/
def degree (edges : List (Nat × Nat)) (k : Nat) : Nat := edges.countP (·.1 = k)

@[simp] theorem degree_concat (edges : List (Nat × Nat)) (e : Nat × Nat) (k : Nat) :
    degree (edges ++ [e]) k = degree edges k + if e.1 = k then 1 else 0 := by
  simp [degree, countP_append, countP_singleton]

theorem counts_succ (k : Nat) : ∀ (edges : List (Nat × Nat)) (start : Nat → Nat),
    counts edges start (k + 1) = start (k + 1) + degree edges k
  | [], _ => rfl
  | e :: edges, start => by
    rw [counts, foldl_cons]
    change counts edges _ (k + 1) = _
    rw [counts_succ k edges]
    by_cases h : e.1 = k
    · simp [degree, h]
      omega
    · rw [update_of_ne (by omega)]
      simp [degree, h]

theorem sums_of_gt (f : Nat → Nat) {i : Nat} : ∀ {n : Nat}, n < i → sums f n i = f i
  | 0, _ => rfl
  | n + 1, h => by
    rw [sums, update_of_ne (by omega), sums_of_gt f (by omega)]

theorem sums_succ (f : Nat → Nat) {i : Nat} : ∀ {n : Nat}, i < n → sums f n (i + 1) = sums f n i + f (i + 1)
  | n + 1, h => by
    rw [sums, update_of_ne (show i ≠ n + 1 by omega)]
    by_cases hi : i = n
    · rw [hi, update_self, sums_of_gt f (Nat.lt_succ_self n), Nat.add_comm]
    · rw [update_of_ne (by omega), sums_succ f (by omega)]

section Place

variable {edges : List (Nat × Nat)} {off : Nat → Nat} {n : Nat}

theorem start_add_degree_le (hoff : ∀ k < n, off (k + 1) = off k + degree edges k) {k i : Nat} (h : k < i)
    (hn : i ≤ n) : off k + degree edges k ≤ off i := by
  induction i, h using Nat.le_induction with
  | base => rw [hoff k (by omega)]
  | succ i hi ih =>
    have := ih (by omega)
    rw [hoff i (by omega)]
    omega

/-- Places of two sources differ. -/
theorem slot_injective (hoff : ∀ k < n, off (k + 1) = off k + degree edges k) {k k' j j' : Nat}
    (hk : k < n) (hk' : k' < n) (hj : j < degree edges k) (hj' : j' < degree edges k')
    (h : off k + j = off k' + j') : k = k' ∧ j = j' := by
  rcases Nat.lt_trichotomy k k' with hlt | rfl | hlt
  · have := start_add_degree_le hoff hlt (Nat.le_of_lt hk')
    omega
  · exact ⟨rfl, by omega⟩
  · have := start_add_degree_le hoff hlt (Nat.le_of_lt hk)
    omega

/-- The cursors stand behind the edges that were placed, and these can be read back. -/
theorem place_spec (hoff : ∀ k < n, off (k + 1) = off k + degree edges k) (hlt : ∀ e ∈ edges, e.1 < n)
    (placed rest : List (Nat × Nat)) (h : edges = placed ++ rest) :
    (∀ k, (placed.foldl placeOne (fun _ => 0, off)).2 k = off k + degree placed k) ∧
    ∀ k < n, ∀ c, (k, c) ∈ placed ↔
      ∃ j < degree placed k, (placed.foldl placeOne (fun _ => 0, off)).1 (off k + j) = c := by
  induction placed using List.reverseRecOn generalizing rest with
  | nil => simp [degree]
  | append_singleton placed e ih =>
    rw [append_assoc] at h
    obtain ⟨hcur, hread⟩ := ih ([e] ++ rest) h
    have hle (k : Nat) : degree placed k + (if e.1 = k then 1 else 0) ≤ degree edges k := by
      rw [← degree_concat, h, ← append_assoc]
      exact (sublist_append_left _ rest).countP_le
    have he : e.1 < n := hlt e (by simp [h])
    have hself := hle e.1
    rw [if_pos rfl] at hself
    rw [foldl_append, foldl_cons, foldl_nil]
    generalize placed.foldl placeOne (fun _ => 0, off) = s at hcur hread ⊢
    unfold placeOne
    refine ⟨fun k => ?_, fun k hk c => ?_⟩
    · by_cases hke : k = e.1
      · subst hke
        simp [hcur]
        omega
      · simp [update_of_ne hke, hcur, Ne.symm hke]
    · rw [hcur]
      have hkeep {j : Nat} (hj : j < degree placed k) : Function.update s.1 (off e.1 + degree placed e.1) e.2
          (off k + j) = s.1 (off k + j) := by
        refine update_of_ne (fun heq => ?_) _ _
        obtain ⟨rfl, rfl⟩ := slot_injective hoff hk he (by have := hle k; omega) (by omega) heq
        exact Nat.lt_irrefl _ hj
      rw [mem_append, mem_singleton, hread k hk c, degree_concat]
      constructor
      · rintro (⟨j, hj, hc⟩ | rfl)
        · exact ⟨j, by omega, (hkeep hj).trans hc⟩
        · exact ⟨degree placed k, by simp, by simp⟩
      · rintro ⟨j, hj, hc⟩
        by_cases hold : j < degree placed k
        · exact .inl ⟨j, hold, (hkeep hold).symm.trans hc⟩
        · right
          have hke : e.1 = k := by
            by_contra hne
            rw [if_neg hne] at hj
            omega
          rw [if_pos hke] at hj
          obtain rfl : j = degree placed k := by omega
          subst hke
          simp only [update_self] at hc
          rw [← hc]

end Place

theorem mem_next {edges : List (Nat × Nat)} {n p c : Nat} (hlt : ∀ e ∈ edges, e.1 < n) (hp : p < n) :
    c ∈ (build n edges).next p ↔ (p, c) ∈ edges := by
  have hoff : ∀ k < n, (build n edges).offsets (k + 1) = (build n edges).offsets k + degree edges k := by
    intro k hk
    unfold build
    dsimp only
    rw [sums_succ _ hk, counts_succ, Nat.zero_add]
  rw [(place_spec hoff hlt edges [] (by simp)).2 p hp c]
  unfold Arrays.next
  rw [hoff p hp, Nat.add_sub_cancel_left, mem_map]
  constructor
  · rintro ⟨i, hi, hc⟩
    obtain ⟨hle, hlt⟩ := mem_range'_1.1 hi
    exact ⟨i - (build n edges).offsets p, by omega, by rw [Nat.add_sub_cancel' hle]; exact hc⟩
  · rintro ⟨j, hj, hc⟩
    exact ⟨_, mem_range'_1.2 ⟨Nat.le_add_right _ _, by omega⟩, hc⟩

/-! ## Closure -/

/-- A number that is not marked yet is marked and goes to the end of the queue. -/
def visit (s : (Nat → Bool) × List Nat) (c : Nat) : (Nat → Bool) × List Nat :=
  if s.1 c then s else (Function.update s.1 c true, s.2 ++ [c])

/-- The marks after the queue was worked off from `head` on. -/
def closure (next : Nat → List Nat) : (fuel head : Nat) → (Nat → Bool) × List Nat → Nat → Bool
  | 0, _, s => s.1
  | fuel + 1, head, s =>
    match s.2[head]? with
    | none => s.1
    | some p => closure next fuel (head + 1) ((next p).foldl visit s)

section Closure

variable {next : Nat → List Nat} {n : Nat} {roots : List Nat}

/-- `Reached next roots x`: steps of `next` lead from a root to `x`. -/
def Reached (next : Nat → List Nat) (roots : List Nat) (x : Nat) : Prop :=
  ∃ r ∈ roots, Relation.ReflTransGen (fun a b => b ∈ next a) r x

/-- The queue holds what is marked, each number once, and all of it is reached. -/
structure Marked (next : Nat → List Nat) (n : Nat) (roots : List Nat) (s : (Nat → Bool) × List Nat) : Prop where
  marks : ∀ x, s.1 x = true ↔ x ∈ s.2
  nodup : s.2.Nodup
  below : ∀ x ∈ s.2, x < n
  reached : ∀ x ∈ s.2, Reached next roots x

theorem Marked.visit {s : (Nat → Bool) × List Nat} {c : Nat} (h : Marked next n roots s) (hc : c < n)
    (hr : Reached next roots c) :
    Marked next n roots (visit s c) ∧ c ∈ (visit s c).2 ∧ s.2 <+: (visit s c).2 := by
  unfold Adjacency.visit
  split
  · rename_i hm
    exact ⟨h, (h.marks c).1 hm, prefix_rfl⟩
  · rename_i hm
    have hnew : c ∉ s.2 := fun hin => hm ((h.marks c).2 hin)
    refine ⟨⟨fun x => ?_, ?_, ?_, ?_⟩, by simp, prefix_append _ _⟩
    · by_cases hx : x = c
      · simp [hx]
      · simp [h.marks, hx]
    · rw [nodup_append]
      exact ⟨h.nodup, nodup_singleton c, by
        rintro a ha b hb rfl
        exact hnew (mem_singleton.1 hb ▸ ha)⟩
    · simpa [or_imp, forall_and] using ⟨h.below, hc⟩
    · simpa [or_imp, forall_and] using ⟨h.reached, hr⟩

theorem Marked.visitAll : ∀ {cs : List Nat} {s : (Nat → Bool) × List Nat}, Marked next n roots s →
    (∀ c ∈ cs, c < n ∧ Reached next roots c) →
    Marked next n roots (cs.foldl Adjacency.visit s) ∧ (∀ c ∈ cs, c ∈ (cs.foldl Adjacency.visit s).2) ∧
      s.2 <+: (cs.foldl Adjacency.visit s).2
  | [], s, h, _ => ⟨h, by simp, prefix_rfl⟩
  | c :: cs, s, h, hcs => by
    obtain ⟨h₁, hc, hpre⟩ := h.visit (hcs c (by simp)).1 (hcs c (by simp)).2
    obtain ⟨h₂, hall, hpre₂⟩ := h₁.visitAll fun d hd => hcs d (mem_cons_of_mem c hd)
    rw [foldl_cons]
    exact ⟨h₂, forall_mem_cons.2 ⟨hpre₂.subset hc, hall⟩, hpre.trans hpre₂⟩

/-- What is marked at the end is what is reached. Entries below `head` have all their targets in the
queue; the queue has at most `n` entries, so the fuel lasts. -/
theorem closure_iff (hnext : ∀ p < n, ∀ c ∈ next p, c < n) : ∀ {fuel head : Nat} {s : (Nat → Bool) × List Nat},
    Marked next n roots s → (∀ r ∈ roots, r ∈ s.2) → (∀ i < head, ∀ p, s.2[i]? = some p → ∀ c ∈ next p, c ∈ s.2) →
    n ≤ fuel + head → ∀ x, closure next fuel head s x = true ↔ Reached next roots x := by
  -- once all targets of the queue are in the queue, it is closed under steps
  have hfinal {head : Nat} {s : (Nat → Bool) × List Nat} (h : Marked next n roots s) (hroots : ∀ r ∈ roots, r ∈ s.2)
      (hdone : ∀ i < head, ∀ p, s.2[i]? = some p → ∀ c ∈ next p, c ∈ s.2) (hlen : s.2.length ≤ head) (x : Nat) :
      s.1 x = true ↔ Reached next roots x := by
    rw [h.marks]
    refine ⟨h.reached x, ?_⟩
    rintro ⟨r, hr, hsteps⟩
    induction hsteps with
    | refl => exact hroots r hr
    | tail _ hstep ih =>
      obtain ⟨i, hi⟩ := mem_iff_getElem?.1 ih
      have := (List.getElem?_eq_some_iff.1 hi).1
      exact hdone i (by omega) _ hi _ hstep
  intro fuel
  induction fuel with
  | zero =>
    intro head s h hroots hdone hfuel
    have hlen := length_le_of_nodup_lt h.nodup h.below
    exact hfinal h hroots hdone (by omega)
  | succ fuel ih =>
    intro head s h hroots hdone hfuel
    rw [closure]
    cases hp : s.2[head]? with
    | none => exact hfinal h hroots hdone (List.getElem?_eq_none_iff.1 hp)
    | some p =>
      have hpmem := mem_of_getElem? hp
      obtain ⟨r, hr, hsteps⟩ := h.reached p hpmem
      obtain ⟨h', hall, hpre⟩ := h.visitAll fun c (hc : c ∈ next p) =>
        ⟨hnext p (h.below p hpmem) c hc, r, hr, hsteps.tail hc⟩
      refine ih h' (fun r hr => hpre.subset (hroots r hr)) (fun i hi q hq c hc => ?_) (by omega)
      have hlt := (List.getElem?_eq_some_iff.1 hp).1
      obtain ⟨more, hmore⟩ := hpre
      have hold : s.2[i]? = some q := by
        rw [← hmore, List.getElem?_append_left (by omega)] at hq
        exact hq
      by_cases hih : i = head
      · subst hih
        cases hp.symm.trans hold
        exact hall c hc
      · rw [← hmore]
        exact mem_append_left more (hdone i (by omega) q hold c hc)

end Closure

end Wago.Adjacency
