/-
The ancestry intervals of the declared supertype forest. The walk of `buildSupertypeAncestry`
enters and leaves every index once; an index whose interval lies inside another's is a descendant
of it.
-/
import Wago.Wasm.TypeScope
import Mathlib.Data.Finset.Card
import Mathlib.Logic.Relation

namespace Wago.Wasm

/-! ## Declared supertypes -/

section

variable {types : List RecType} {i p : Nat}

/-- In scope, the supertype is found and comes before its subtype. -/
theorem superParent_iff (hs : TypesInScope types) :
    superParent types i = some p ↔ ∃ g l st sup, AtPos types i g l st ∧ st.supers = [sup] ∧
      p = scopedFlat types g sup := by
  unfold superParent
  constructor
  · intro h
    split at h
    · rename_i st g hst
      obtain ⟨l, hp⟩ := subtypeByFlatTypeIdx_iff.1 hst
      have hscope := hs hp
      split at h
      · cases h
      · rename_i sup sups hsup
        have hlen := hscope.supers_length
        rw [hsup, List.length_cons] at hlen
        obtain rfl : sups = [] := List.eq_nil_of_length_eq_zero (by omega)
        rw [flatTypeIdxInRecGroup_scoped hp.group_lt (hscope.supers sup (by simp [hsup])).1] at h
        exact ⟨g, l, st, sup, hp, hsup, by simpa using h.symm⟩
    · cases h
  · rintro ⟨g, l, st, sup, hp, hsup, rfl⟩
    rw [hp.flat]
    simp only [hsup]
    rw [flatTypeIdxInRecGroup_scoped hp.group_lt ((hs hp).supers sup (by simp [hsup])).1]
    rfl

theorem superParent_lt (hs : TypesInScope types) (h : superParent types i = some p) : p < i := by
  obtain ⟨g, l, st, sup, hp, hsup, rfl⟩ := (superParent_iff hs).1 h
  obtain ⟨hin, hrec⟩ := (hs hp).supers sup (by simp [hsup])
  have := hp.index
  unfold scopedFlat IdxInScope at *
  cases hr : sup.isRec
  · simp only [hr, Bool.false_eq_true, if_false] at hin ⊢; omega
  · have := hrec hr
    simp only [if_true]; omega

theorem superParent_lt_length (h : superParent types i = some p) : i < (flatSubTypes types).length := by
  unfold superParent at h
  split at h
  · rename_i hst; exact (List.getElem?_eq_some_iff.1 hst).1
  · cases h

/-- `Ancestor types i a`: `a` is `i` or is reached from it by declared supertypes. -/
def Ancestor (types : List RecType) : Nat → Nat → Prop :=
  Relation.ReflTransGen fun i p => superParent types i = some p

theorem Ancestor.le (hs : TypesInScope types) {a : Nat} (h : Ancestor types i a) : a ≤ i := by
  induction h with
  | refl => exact Nat.le_refl i
  | tail _ hstep ih => exact Nat.le_trans (Nat.le_of_lt (superParent_lt hs hstep)) ih

theorem ancestor_of_parent {a : Nat} (h : superParent types i = some p) :
    Ancestor types i a ↔ a = i ∨ Ancestor types p a := by
  constructor
  · intro ha
    rcases Relation.ReflTransGen.cases_head ha with rfl | ⟨q, hq, hrest⟩
    · exact .inl rfl
    · cases h.symm.trans hq; exact .inr hrest
  · rintro (rfl | ha)
    · exact .refl
    · exact .head h ha

theorem ancestor_of_root {a : Nat} (h : superParent types i = none) : Ancestor types i a ↔ a = i := by
  constructor
  · intro ha
    rcases Relation.ReflTransGen.cases_head ha with rfl | ⟨q, hq, -⟩
    · rfl
    · rw [h] at hq; cases hq
  · rintro rfl; exact .refl

end

/-! ## Child lists -/

/-- The linked list that starts at `start` spells out `l`. -/
def Linked (nextSibling : Nat → Option Nat) : Option Nat → List Nat → Prop
  | start, [] => start = none
  | start, c :: l => start = some c ∧ Linked nextSibling (nextSibling c) l

theorem Linked.update {next : Nat → Option Nat} {n : Nat} {o : Option Nat} : ∀ {start : Option Nat}
    {l : List Nat}, Linked next start l → (∀ c ∈ l, c ≠ n) → Linked (update next n o) start l
  | _, [], h, _ => h
  | _, c :: l, ⟨hs, h⟩, hne => by
    refine ⟨hs, ?_⟩
    have hc : Wasm.update next n o c = next c := if_neg (hne c (by simp))
    rw [hc]
    exact Linked.update h fun d hd => hne d (by simp [hd])

/-- The child lists over the first `n` indexes: every child of `p` once, none from `n` on. -/
theorem superLinks_spec (types : List RecType) : ∀ (n p : Nat), ∃ l : List Nat,
    Linked (superLinks types n).2 ((superLinks types n).1 p) l ∧ l.Nodup ∧
      ∀ c, c ∈ l ↔ c < n ∧ superParent types c = some p
  | 0, p => ⟨[], rfl, by simp, by simp⟩
  | n + 1, p => by
    obtain ⟨l, hl, hnd, hmem⟩ := superLinks_spec types n p
    have hne : ∀ c ∈ l, c ≠ n := fun c hc => by have := (hmem c).1 hc; omega
    rw [superLinks]
    cases hpar : superParent types n with
    | none =>
      refine ⟨l, hl, hnd, fun c => (hmem c).trans ⟨fun h => ⟨by omega, h.2⟩, fun h => ⟨?_, h.2⟩⟩⟩
      rcases Nat.lt_succ_iff_lt_or_eq.1 h.1 with h' | rfl
      · exact h'
      · rw [hpar] at h; cases h.2
    | some q =>
      by_cases hq : q = p
      · subst hq
        refine ⟨n :: l, ⟨by simp [update], ?_⟩, List.nodup_cons.2 ⟨fun h => hne n h rfl, hnd⟩, fun c => ?_⟩
        · simp only [update, if_true]
          exact hl.update hne
        · rw [List.mem_cons, hmem]
          constructor
          · rintro (rfl | h)
            · exact ⟨by omega, hpar⟩
            · exact ⟨by omega, h.2⟩
          · rintro ⟨hc, hpc⟩
            rcases Nat.lt_succ_iff_lt_or_eq.1 hc with h | h
            · exact .inr ⟨h, hpc⟩
            · exact .inl h
      · refine ⟨l, ?_, hnd, fun c => (hmem c).trans ⟨fun h => ⟨by omega, h.2⟩, fun h => ⟨?_, h.2⟩⟩⟩
        · have : update (superLinks types n).1 q (some n) p = (superLinks types n).1 p :=
            if_neg fun h => hq h.symm
          simp only [this]
          exact hl.update hne
        · rcases Nat.lt_succ_iff_lt_or_eq.1 h.1 with h' | rfl
          · exact h'
          · rw [hpar] at h; exact absurd (Option.some.inj h.2) hq

/-! ## The walk -/

/-- The children of `v` still to be entered are linked at `firstChild v`. -/
def PendingKids (types : List RecType) (next : Nat → Option Nat) (a : Ancestry) (v : Nat) : Prop :=
  ∃ l, Linked next (a.firstChild v) l ∧ l.Nodup ∧
    (∀ c ∈ l, superParent types c = some v ∧ a.superEnter c = 0) ∧
    ∀ c, superParent types c = some v → c ∈ l ∨ a.superEnter c ≠ 0

/-- The invariant of the walk; `A` are the active indexes, entered and not yet left. -/
structure WalkInv (types : List RecType) (next : Nat → Option Nat) (A : Nat → Prop) (a : Ancestry) :
    Prop where
  enter_le : ∀ v, a.superEnter v ≤ a.tick
  exit_le : ∀ v, a.superExit v ≤ a.tick
  active : ∀ v, A v ↔ a.superEnter v ≠ 0 ∧ a.superExit v = 0
  exit_enter : ∀ v, a.superExit v ≠ 0 → a.superEnter v ≠ 0 ∧ a.superEnter v ≤ a.superExit v
  below_active : ∀ v u, A v → a.superEnter u ≠ 0 → a.superEnter v ≤ a.superEnter u → Ancestor types u v
  below_left : ∀ v u, a.superExit v ≠ 0 → a.superEnter u ≠ 0 → a.superEnter v ≤ a.superEnter u →
    a.superEnter u ≤ a.superExit v → Ancestor types u v
  kids : ∀ v, PendingKids types next a v
  left_kids : ∀ v, a.superExit v ≠ 0 → ∀ c, superParent types c = some v → a.superEnter c ≠ 0

section

variable {types : List RecType} {next : Nat → Option Nat} {A A' : Nat → Prop} {a : Ancestry}
  {cur c root : Nat}

@[simp] theorem update_same {α : Type} (f : Nat → α) (i : Nat) (x : α) : update f i x i = x := by
  simp [update]

theorem update_other {α : Type} {f : Nat → α} {i j : Nat} {x : α} (h : j ≠ i) :
    update f i x j = f j := by simp [update, h]

/-- Entering an index below all active ones; `b` is `a` with the index taken off the pending
children. -/
theorem WalkInv.enter {b : Ancestry} (h : WalkInv types next A a) (hfresh : a.superEnter c = 0)
    (hA' : ∀ v, A' v ↔ v = c ∨ A v) (hbelow : ∀ v, A v → Ancestor types c v)
    (he : b.superEnter = a.superEnter) (hx : b.superExit = a.superExit) (ht : b.tick = a.tick)
    (hkids : ∀ v, PendingKids types next (b.enter c) v) : WalkInv types next A' (b.enter c) := by
  have hexit : a.superExit c = 0 := by
    by_contra hc; exact (h.exit_enter c hc).1 hfresh
  have henter : (b.enter c).superEnter = update a.superEnter c (a.tick + 1) := by
    simp [Ancestry.enter, he, ht]
  have hxit : (b.enter c).superExit = a.superExit := by simp [Ancestry.enter, hx]
  have htick : (b.enter c).tick = a.tick + 1 := by simp [Ancestry.enter, ht]
  have hold : ∀ {u}, u ≠ c → (b.enter c).superEnter u = a.superEnter u :=
    fun hu => by rw [henter, update_other hu]
  have hnew : (b.enter c).superEnter c = a.tick + 1 := by rw [henter, update_same]
  refine ⟨fun v => ?_, fun v => ?_, fun v => ?_, fun v hv => ?_, fun v u hv hu hle => ?_,
    fun v u hv hu hle hle' => ?_, hkids, fun v hv d hd => ?_⟩
  · rw [htick]
    by_cases hv : v = c
    · rw [hv, hnew]
    · rw [hold hv]; exact Nat.le_succ_of_le (h.enter_le v)
  · rw [htick, hxit]; exact Nat.le_succ_of_le (h.exit_le v)
  · rw [hA', hxit]
    by_cases hv : v = c
    · subst hv; simp [hnew, hexit]
    · simp only [hv, false_or, hold hv]; exact h.active v
  · rw [hxit] at hv
    have hvc : v ≠ c := by rintro rfl; exact hv hexit
    rw [hxit, hold hvc]; exact h.exit_enter v hv
  · by_cases huc : u = c
    · subst huc
      rcases (hA' v).1 hv with rfl | hv
      · exact .refl
      · exact hbelow v hv
    · rw [hold huc] at hu hle
      rcases (hA' v).1 hv with rfl | hv
      · rw [hnew] at hle
        have := h.enter_le u
        omega
      · have hvc : v ≠ c := by rintro rfl; exact ((h.active v).1 hv).1 hfresh
        rw [hold hvc] at hle
        exact h.below_active v u hv hu hle
  · rw [hxit] at hv hle'
    have hvc : v ≠ c := by rintro rfl; exact hv hexit
    by_cases huc : u = c
    · subst huc
      rw [hnew] at hle'
      have := h.exit_le v
      omega
    · rw [hold huc] at hu hle hle'
      rw [hold hvc] at hle
      exact h.below_left v u hv hu hle hle'
  · rw [hxit] at hv
    have := h.left_kids v hv d hd
    have hdc : d ≠ c := by rintro rfl; exact this hfresh
    rwa [hold hdc]

/-- Going down into the next pending child. -/
theorem WalkInv.enterChild (h : WalkInv types next (Ancestor types cur) a)
    (hc : a.firstChild cur = some c) :
    superParent types c = some cur ∧ a.superEnter c = 0 ∧
      WalkInv types next (Ancestor types c)
        ({ a with firstChild := update a.firstChild cur (next c) }.enter c) := by
  obtain ⟨l, hl, hnd, hin, hall⟩ := h.kids cur
  rw [hc] at hl
  cases l with
  | nil => cases hl
  | cons d l =>
    obtain ⟨hd, hl⟩ := hl
    cases hd
    obtain ⟨hpar, hfresh⟩ := hin c (by simp)
    have hnot := (List.nodup_cons.1 hnd).1
    refine ⟨hpar, hfresh, h.enter hfresh (fun v => ancestor_of_parent hpar)
      (fun v hv => (ancestor_of_parent hpar).2 (.inr hv)) rfl rfl rfl fun v => ?_⟩
    have henter : ∀ d, ({ a with firstChild := update a.firstChild cur (next c) }.enter c).superEnter d =
        update a.superEnter c (a.tick + 1) d := fun d => rfl
    by_cases hv : v = cur
    · subst hv
      refine ⟨l, by simpa [Ancestry.enter] using hl, (List.nodup_cons.1 hnd).2, fun d hd => ?_,
        fun d hd => ?_⟩
      · have hdc : d ≠ c := by rintro rfl; exact hnot hd
        rw [henter, update_other hdc]
        exact hin d (by simp [hd])
      · rw [henter]
        by_cases hdc : d = c
        · subst hdc; simp
        · rw [update_other hdc]
          rcases hall d hd with hmem | hvis
          · exact .inl ((List.mem_cons.1 hmem).resolve_left hdc)
          · exact .inr hvis
    · obtain ⟨l', hl', hnd', hin', hall'⟩ := h.kids v
      refine ⟨l', ?_, hnd', fun d hd => ?_, fun d hd => ?_⟩
      · simpa [Ancestry.enter, update_other hv] using hl'
      · have hdc : d ≠ c := by
          rintro rfl
          exact hv (Option.some.inj ((hin' d hd).1.symm.trans hpar))
        rw [henter, update_other hdc]; exact hin' d hd
      · have hdc : d ≠ c := by
          rintro rfl
          exact hv (Option.some.inj (hd.symm.trans hpar))
        rw [henter, update_other hdc]; exact hall' d hd

/-- Starting at a root, with nothing active. -/
theorem WalkInv.enterRoot (h : WalkInv types next (fun _ => False) a)
    (hroot : superParent types root = none) (hfresh : a.superEnter root = 0) :
    WalkInv types next (Ancestor types root) (a.enter root) := by
  refine h.enter hfresh (fun v => by rw [ancestor_of_root hroot]; simp) (fun v hv => hv.elim) rfl rfl rfl
    fun v => ?_
  obtain ⟨l, hl, hnd, hin, hall⟩ := h.kids v
  have hne : ∀ {d}, superParent types d = some v → d ≠ root := by
    rintro d hd rfl; rw [hroot] at hd; cases hd
  refine ⟨l, hl, hnd, fun d hd => ?_, fun d hd => ?_⟩
  · have := hin d hd
    exact ⟨this.1, by rw [Ancestry.enter]; simp only [update_other (hne this.1)]; exact this.2⟩
  · refine (hall d hd).imp_right fun hvis => ?_
    rw [Ancestry.enter]; simpa only [update_other (hne hd)] using hvis

/-- Leaving an index without pending children. -/
theorem WalkInv.leave (h : WalkInv types next (Ancestor types cur) a)
    (hc : a.firstChild cur = none) (hA' : ∀ v, A' v ↔ Ancestor types cur v ∧ v ≠ cur) :
    WalkInv types next A' { a with superExit := update a.superExit cur a.tick } := by
  have hcur := (h.active cur).1 .refl
  have htick : a.tick ≠ 0 := by
    have := h.enter_le cur
    omega
  have hold : ∀ {v}, v ≠ cur → update a.superExit cur a.tick v = a.superExit v := update_other
  refine ⟨h.enter_le, fun v => ?_, fun v => ?_, fun v hv => ?_, fun v u hv hu hle => ?_,
    fun v u hv hu hle hle' => ?_, h.kids, fun v hv d hd => ?_⟩
  · by_cases hv : v = cur
    · subst hv; simp
    · simp only [hold hv]; exact h.exit_le v
  · rw [hA', h.active]
    by_cases hv : v = cur
    · subst hv; simp [htick]
    · simp [hold hv, hv]
  · by_cases hvc : v = cur
    · subst hvc; simp only [update_same]; exact ⟨hcur.1, h.enter_le v⟩
    · simp only [hold hvc] at hv ⊢; exact h.exit_enter v hv
  · exact h.below_active v u ((hA' v).1 hv).1 hu hle
  · by_cases hvc : v = cur
    · subst hvc; exact h.below_active v u .refl hu hle
    · simp only [hold hvc] at hv hle'; exact h.below_left v u hv hu hle hle'
  · by_cases hvc : v = cur
    · subst hvc
      obtain ⟨l, hl, -, -, hall⟩ := h.kids v
      rw [hc] at hl
      cases l with
      | nil => exact (hall d hd).resolve_left (by simp)
      | cons => cases hl.1
    · simp only [hold hvc] at hv; exact h.left_kids v hv d hd

end

/-- Indexes not yet entered and not yet left, which every step of the walk lowers. -/
def walkMeasure (n : Nat) (a : Ancestry) : Nat :=
  ((Finset.range n).filter fun v => a.superEnter v = 0).card +
    ((Finset.range n).filter fun v => a.superExit v = 0).card

theorem card_update_lt {n i x : Nat} {f : Nat → Nat} (hi : i < n) (h0 : f i = 0) (hx : x ≠ 0) :
    ((Finset.range n).filter fun v => update f i x v = 0).card <
      ((Finset.range n).filter fun v => f v = 0).card := by
  refine Finset.card_lt_card ⟨fun v hv => ?_, fun hsub => ?_⟩
  · rw [Finset.mem_filter] at hv ⊢
    refine ⟨hv.1, ?_⟩
    by_cases hvi : v = i
    · rw [hvi, h0]
    · rw [← hv.2, update_other hvi]
  · have := hsub (Finset.mem_filter.2 ⟨Finset.mem_range.2 hi, h0⟩)
    rw [Finset.mem_filter, update_same] at this
    exact hx this.2

/-- The walk below a root ends with nothing active, and enters no other root. -/
theorem ancestryWalk_inv {types : List RecType} (hs : TypesInScope types) {next : Nat → Option Nat}
    {root n : Nat} (hn : n = (flatSubTypes types).length) (hroot : superParent types root = none) :
    ∀ (fuel cur : Nat) (a : Ancestry), WalkInv types next (Ancestor types cur) a →
      Ancestor types cur root → cur < n → walkMeasure n a < fuel →
      WalkInv types next (fun _ => False) (ancestryWalk types next root fuel cur a) ∧
        ∀ r, superParent types r = none →
          (ancestryWalk types next root fuel cur a).superEnter r = a.superEnter r
  | 0, _, _, _, _, _, hf => absurd hf (Nat.not_lt_zero _)
  | fuel + 1, cur, a, h, hanc, hcur, hf => by
    rw [ancestryWalk]
    cases hc : a.firstChild cur with
    | some c =>
      obtain ⟨hpar, hfresh, h'⟩ := h.enterChild hc
      have hcn : c < n := hn ▸ superParent_lt_length hpar
      have hlt := card_update_lt (x := a.tick + 1) hcn hfresh (Nat.succ_ne_zero _)
      obtain ⟨hinv, hroots⟩ := ancestryWalk_inv hs hn hroot fuel c _ h'
        ((ancestor_of_parent hpar).2 (.inr hanc)) hcn
        (Nat.lt_of_lt_of_le (Nat.add_lt_add_right hlt _) (Nat.le_of_lt_succ hf))
      refine ⟨hinv, fun r hr => (hroots r hr).trans ?_⟩
      have hrc : r ≠ c := by rintro rfl; rw [hr] at hpar; cases hpar
      exact update_other hrc
    | none =>
      have hexit : a.superExit cur = 0 := ((h.active cur).1 .refl).2
      have htick : a.tick ≠ 0 := by
        have := h.enter_le cur
        have := ((h.active cur).1 .refl).1
        omega
      have hlt := card_update_lt hcur hexit htick
      simp only
      split
      · rename_i hcr
        subst hcr
        refine ⟨h.leave hc fun v => ?_, fun r _ => rfl⟩
        rw [ancestor_of_root hroot]; tauto
      · rename_i hcr
        cases hpar : superParent types cur with
        | none => exact absurd ((ancestor_of_root hpar).1 hanc).symm hcr
        | some p =>
          have hpc := superParent_lt hs hpar
          have hA' : ∀ v, Ancestor types p v ↔ Ancestor types cur v ∧ v ≠ cur := by
            intro v
            rw [ancestor_of_parent hpar]
            constructor
            · intro hv
              have := hv.le hs
              exact ⟨.inr hv, by omega⟩
            · rintro ⟨hv, hne⟩; exact hv.resolve_left hne
          exact ancestryWalk_inv hs hn hroot fuel p _ (h.leave hc hA')
            ((hA' root).2 ⟨hanc, fun h => hcr h.symm⟩) (by omega)
            (Nat.lt_of_lt_of_le (Nat.add_lt_add_left hlt _) (Nat.le_of_lt_succ hf))

/-! ## The intervals -/

/-- The walks below the roots among the first `k` indexes. -/
def walkRoots (types : List RecType) (k : Nat) : Ancestry :=
  let n := (flatSubTypes types).length
  (List.range k).foldl (fun a root =>
    if superParent types root = none then
      ancestryWalk types (superLinks types n).2 root (2 * n) root (a.enter root)
    else a)
    { firstChild := (superLinks types n).1, superEnter := fun _ => 0, superExit := fun _ => 0, tick := 0 }

theorem walkRoots_inv {types : List RecType} (hs : TypesInScope types) :
    ∀ k ≤ (flatSubTypes types).length,
      WalkInv types (superLinks types (flatSubTypes types).length).2 (fun _ => False)
        (walkRoots types k) ∧
      ∀ r, superParent types r = none → ((walkRoots types k).superEnter r ≠ 0 ↔ r < k)
  | 0, _ => by
    refine ⟨⟨by simp [walkRoots], by simp [walkRoots], by simp [walkRoots], by simp [walkRoots],
      by simp, by simp [walkRoots], fun v => ?_, by simp [walkRoots]⟩, by simp [walkRoots]⟩
    obtain ⟨l, hl, hnd, hmem⟩ := superLinks_spec types (flatSubTypes types).length v
    exact ⟨l, hl, hnd, fun c hc => ⟨((hmem c).1 hc).2, rfl⟩,
      fun c hc => .inl ((hmem c).2 ⟨superParent_lt_length hc, hc⟩)⟩
  | k + 1, hk => by
    obtain ⟨hinv, hroots⟩ := walkRoots_inv hs k (by omega)
    have hstep : walkRoots types (k + 1) =
        if superParent types k = none then
          ancestryWalk types (superLinks types (flatSubTypes types).length).2 k
            (2 * (flatSubTypes types).length) k ((walkRoots types k).enter k)
        else walkRoots types k := by
      simp only [walkRoots, List.range_succ, List.foldl_append, List.foldl_cons, List.foldl_nil]
    rw [hstep]
    split
    · rename_i hroot
      have hfresh : (walkRoots types k).superEnter k = 0 := by
        by_contra h; exact absurd ((hroots k hroot).1 h) (Nat.lt_irrefl k)
      -- entering the root already lowers the measure below twice the number of types
      have hmeasure : walkMeasure (flatSubTypes types).length ((walkRoots types k).enter k) <
          2 * (flatSubTypes types).length := by
        have h1 := card_update_lt (x := (walkRoots types k).tick + 1) (f := (walkRoots types k).superEnter)
          (n := (flatSubTypes types).length) hk hfresh (Nat.succ_ne_zero _)
        have h2 := Finset.card_filter_le (Finset.range (flatSubTypes types).length)
          fun v => (walkRoots types k).superEnter v = 0
        have h3 := Finset.card_filter_le (Finset.range (flatSubTypes types).length)
          fun v => (walkRoots types k).superExit v = 0
        rw [Finset.card_range] at h2 h3
        exact Nat.lt_of_lt_of_le (Nat.add_lt_add_of_lt_of_le h1 h3) (by omega)
      obtain ⟨hdone, hkeep⟩ := ancestryWalk_inv hs rfl hroot _ k _ (hinv.enterRoot hroot hfresh) .refl hk
        hmeasure
      refine ⟨hdone, fun r hr => ?_⟩
      rw [hkeep r hr, Ancestry.enter]
      by_cases hrk : r = k
      · subst hrk; simp
      · simp only [update_other hrk]
        rw [hroots r hr]; omega
    · rename_i hroot
      refine ⟨hinv, fun r hr => (hroots r hr).trans ?_⟩
      have hrk : r ≠ k := by rintro rfl; exact hroot hr
      omega

/-- Every index has been entered and left when all roots are done. -/
theorem walkRoots_complete {types : List RecType} (hs : TypesInScope types) {i : Nat}
    (hi : i < (flatSubTypes types).length) :
    (walkRoots types (flatSubTypes types).length).superEnter i ≠ 0 ∧
      (walkRoots types (flatSubTypes types).length).superExit i ≠ 0 := by
  obtain ⟨hinv, hroots⟩ := walkRoots_inv hs _ (Nat.le_refl _)
  have hexit : ∀ {v}, (walkRoots types (flatSubTypes types).length).superEnter v ≠ 0 →
      (walkRoots types (flatSubTypes types).length).superExit v ≠ 0 :=
    fun hv hx => (hinv.active _).2 ⟨hv, hx⟩
  induction i using Nat.strongRecOn with
  | _ i ih =>
    have henter : (walkRoots types (flatSubTypes types).length).superEnter i ≠ 0 := by
      cases hpar : superParent types i with
      | none => exact (hroots i hpar).2 hi
      | some p =>
        have hlt := superParent_lt hs hpar
        exact hinv.left_kids p (ih p hlt (by omega)).2 i hpar
    exact ⟨henter, hexit henter⟩

/-- Containment of the built intervals is descent along declared supertypes. -/
theorem superContains_sound {types : List RecType} (hs : TypesInScope types) {i j : Nat}
    (h : TypeContext.superContains
      { types, superEnter := (buildSupertypeAncestry types).1,
        superExit := (buildSupertypeAncestry types).2 } i j = true) :
    Ancestor types i j := by
  have hbuild : buildSupertypeAncestry types =
      ((List.range (flatSubTypes types).length).map
        (walkRoots types (flatSubTypes types).length).superEnter,
       (List.range (flatSubTypes types).length).map
        (walkRoots types (flatSubTypes types).length).superExit) := rfl
  rw [hbuild] at h
  simp only [TypeContext.superContains, Bool.and_eq_true] at h
  obtain ⟨-, h⟩ := h
  split at h
  · rename_i bEnter aEnter aExit bExit hbe hae hax hbx
    simp only [List.getElem?_map, Option.map_eq_some_iff] at hbe hae hax hbx
    obtain ⟨j', hj, rfl⟩ := hbe
    obtain ⟨i', hi, rfl⟩ := hae
    obtain ⟨_, hi', rfl⟩ := hax
    obtain ⟨_, hj', rfl⟩ := hbx
    obtain ⟨hjlt, hjr⟩ := List.getElem?_eq_some_iff.1 hj
    obtain ⟨hilt, hir⟩ := List.getElem?_eq_some_iff.1 hi
    cases hi.symm.trans hi'
    cases hj.symm.trans hj'
    simp only [List.getElem_range, List.length_range] at hjr hir hjlt hilt
    subst hjr hir
    obtain ⟨hinv, -⟩ := walkRoots_inv hs _ (Nat.le_refl _)
    have hic := walkRoots_complete hs hilt
    have hle := (hinv.exit_enter i hic.2).2
    simp only [Bool.and_eq_true, decide_eq_true_eq] at h
    exact hinv.below_left j i (walkRoots_complete hs hjlt).2 hic.1 h.1 (Nat.le_trans hle h.2)
  · cases h

end Wago.Wasm
