/-
Finite maps as association lists (`AList` with one value type): lookups after an update as one
equation, emptiness, and folds that update each key of a list once.
-/
import Mathlib.Data.List.AList

namespace AssocMap

variable {K V : Type} [DecidableEq K]

theorem lookup_insert (m : AList fun _ : K => V) (a b : K) (v : V) :
    (m.insert a v).lookup b = if b = a then some v else m.lookup b := by
  split
  · rename_i h
    subst h
    exact AList.lookup_insert m
  · exact AList.lookup_insert_ne ‹_›

theorem lookup_erase (m : AList fun _ : K => V) (a b : K) :
    (m.erase a).lookup b = if b = a then none else m.lookup b := by
  split
  · rename_i h
    subst h
    exact AList.lookup_erase b m
  · exact AList.lookup_erase_ne ‹_›

theorem erase_insert (m : AList fun _ : K => V) (a : K) (v : V) : (m.insert a v).erase a = m.erase a := by
  refine AList.ext ?_
  have hfirst : ((m.insert a v).erase a).entries = m.entries.kerase a := List.kerase_cons_eq rfl
  exact hfirst

theorem mem_iff {m : AList fun _ : K => V} {a : K} : a ∈ m ↔ ∃ v, m.lookup a = some v := by
  rw [← AList.lookup_isSome, Option.isSome_iff_exists]

/-- A fold that changes the entry of each key of a list once. -/
theorem foldl_update {M : Type} (get : M → K → V) {upd : M → K → M} {f : K → V → V}
    (hupd : ∀ m a b, get (upd m a) b = if b = a then f a (get m a) else get m b) :
    ∀ {ks : List K} (m : M), ks.Nodup → ∀ b,
      get (ks.foldl upd m) b = if b ∈ ks then f b (get m b) else get m b
  | [], m, _, b => by simp
  | a :: ks, m, hnd, b => by
    obtain ⟨ha, hnd⟩ := List.nodup_cons.1 hnd
    rw [List.foldl_cons, foldl_update get hupd (upd m a) hnd b, hupd]
    by_cases hba : b = a
    · subst hba
      simp [ha]
    · simp [hba]

/-! ## Counting -/

/-- The number of entries with a property. -/
def count (p : K → V → Bool) (m : AList fun _ : K => V) : Nat := m.entries.countP fun e => p e.1 e.2

theorem countP_kerase (p : K → V → Bool) (a : K) : ∀ l : List (Sigma fun _ : K => V),
    l.countP (fun e => p e.1 e.2) = (l.kerase a).countP (fun e => p e.1 e.2) +
      if (l.dlookup a).any (p a) then 1 else 0
  | [] => rfl
  | ⟨b, v⟩ :: l => by
    by_cases hab : a = b
    · subst hab
      have herase : List.kerase a (⟨a, v⟩ :: l) = l := List.kerase_cons_eq rfl
      rw [herase, List.dlookup_cons_eq, List.countP_cons]
      rfl
    · rw [List.kerase_cons_ne hab, List.dlookup_cons_ne _ _ hab, List.countP_cons, List.countP_cons,
        countP_kerase p a l]
      omega

/-- An entry counts apart from the others. -/
theorem count_eq_erase (p : K → V → Bool) (m : AList fun _ : K => V) (a : K) :
    count p m = count p (m.erase a) + if (m.lookup a).any (p a) then 1 else 0 :=
  countP_kerase p a m.entries

theorem count_insert (p : K → V → Bool) (m : AList fun _ : K => V) (a : K) (v : V) :
    count p (m.insert a v) = count p (m.erase a) + if p a v then 1 else 0 :=
  List.countP_cons

theorem count_pos_iff {p : K → V → Bool} {m : AList fun _ : K => V} :
    0 < count p m ↔ ∃ a v, m.lookup a = some v ∧ p a v = true := by
  unfold count
  rw [List.countP_pos_iff]
  constructor
  · rintro ⟨⟨a, v⟩, hmem, hp⟩
    exact ⟨a, v, AList.mem_lookup_iff.2 hmem, hp⟩
  · rintro ⟨a, v, hl, hp⟩
    exact ⟨⟨a, v⟩, AList.mem_lookup_iff.1 hl, hp⟩

end AssocMap
