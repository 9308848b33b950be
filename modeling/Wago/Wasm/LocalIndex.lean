/-
Local lookups (`localType` in `validate.go`, `LocalTypeIndexed` in `module_helpers.go`): a partial
scan, a full scan and a binary search in the ends of the runs all give the type that a plain scan of
the runs gives.
-/
import Mathlib.Data.List.Flatten
import Wago.Wasm.Validator

namespace Wago.Wasm

open FuncValidator

/-- The number of locals the runs declare. -/
def declaredLocals (runs : List LocalRun) : Nat := (runs.map (·.count)).sum

@[simp] theorem declaredLocals_cons (run : LocalRun) (runs : List LocalRun) :
    declaredLocals (run :: runs) = run.count + declaredLocals runs := rfl

theorem localCount_eq : ∀ {runs : List LocalRun} {params : List ValType} {n : Nat},
    localCount params runs = some n → n = params.length + declaredLocals runs := by
  intro runs params n h
  unfold localCount at h
  -- the fold carries the count so far
  suffices ∀ (runs : List LocalRun) (start n : Nat),
      runs.foldlM (fun count run =>
        if 2 ^ 64 - 1 - count < run.count then none else some (count + run.count)) start = some n →
      n = start + declaredLocals runs from this runs _ n h
  intro runs
  induction runs with
  | nil => intro start n h; simpa [declaredLocals] using h.symm
  | cons run runs ih =>
    intro start n h
    rw [List.foldlM_cons] at h
    split at h
    · cases h
    · have := ih _ _ h
      rw [declaredLocals_cons]
      omega

/-! ## Scans -/

/-- The declared locals one by one. -/
def localTypes (runs : List LocalRun) : List ValType :=
  runs.flatMap fun run => List.replicate run.count run.type

theorem localRunType_eq : ∀ (runs : List LocalRun) (rem : Nat),
    localRunType runs rem = (localTypes runs)[rem]?
  | [], _ => rfl
  | run :: runs, rem => by
    have hcons : localTypes (run :: runs) = List.replicate run.count run.type ++ localTypes runs := rfl
    rw [localRunType, localRunType_eq runs, hcons, List.getElem?_append, List.length_replicate]
    split
    · rw [List.getElem?_replicate_of_lt ‹_›]
    · rfl

theorem declaredLocals_eq (runs : List LocalRun) : declaredLocals runs = (localTypes runs).length := by
  simp [declaredLocals, localTypes, List.length_flatMap]

theorem localRunType_none {runs : List LocalRun} {rem : Nat} (h : declaredLocals runs ≤ rem) :
    localRunType runs rem = none := by
  rw [localRunType_eq, List.getElem?_eq_none (declaredLocals_eq runs ▸ h)]

/-- A scan of the first runs either finds the local or leaves what the rest has to find. -/
theorem scanRuns_spec (more : List LocalRun) : ∀ (runs : List LocalRun) (i rem : Nat),
    match scanRuns i runs rem with
    | .ok (_, t) => localRunType (runs ++ more) rem = some t
    | .error rem' => localRunType (runs ++ more) rem = localRunType more rem'
  | [], i, rem => rfl
  | run :: runs, i, rem => by
    by_cases h : rem < run.count
    · simp [scanRuns, localRunType, h]
    · simpa [scanRuns, localRunType, h] using scanRuns_spec more runs (i + 1) (rem - run.count)

/-! ## The binary search -/

/-- On a predicate that stays true once it is, the search finds the first index where it is. -/
theorem sortSearch_spec {p : Nat → Bool} {n : Nat} (hp : ∀ i j, i ≤ j → j < n → p i = true → p j = true) :
    ∀ (fuel lo hi : Nat), hi - lo ≤ fuel → lo ≤ hi → hi ≤ n → (∀ i < lo, p i = false) →
      (∀ i, hi ≤ i → i < n → p i = true) →
      sortSearch p fuel lo hi ≤ n ∧ (∀ i < sortSearch p fuel lo hi, p i = false) ∧
        ∀ i, sortSearch p fuel lo hi ≤ i → i < n → p i = true
  | 0, lo, hi, hf, hle, hn, hlo, hhi => by
    obtain rfl : lo = hi := by omega
    exact ⟨hn, hlo, hhi⟩
  | fuel + 1, lo, hi, hf, hle, hn, hlo, hhi => by
    by_cases hlt : lo < hi
    · rw [sortSearch, if_pos hlt]
      cases hm : p ((lo + hi) / 2) with
      | false =>
        simp only [hm, Bool.not_false, if_true]
        refine sortSearch_spec hp fuel ((lo + hi) / 2 + 1) hi (by omega) (by omega) hn (fun i hi' => ?_) hhi
        -- everything up to the middle is false, or the middle would be true
        by_contra hpi
        rw [hp i _ (by omega) (by omega) (by simpa using hpi)] at hm
        cases hm
      | true =>
        simp only [hm, Bool.not_true, Bool.false_eq_true, if_false]
        exact sortSearch_spec hp fuel lo _ (by omega) (by omega) (by omega) hlo
          fun i hi' hin => hp _ i hi' hin hm
    · rw [sortSearch, if_neg hlt]
      obtain rfl : lo = hi := by omega
      exact ⟨hn, hlo, hhi⟩

@[simp] theorem runEnds_length : ∀ (start : Nat) (runs : List LocalRun),
    (runEnds start runs).length = runs.length
  | _, [] => rfl
  | start, run :: runs => by simp [runEnds, runEnds_length (start + run.count) runs]

theorem runEnds_get : ∀ (runs : List LocalRun) (start i : Nat), i < runs.length →
    (runEnds start runs).getD i 0 = start + declaredLocals (runs.take (i + 1))
  | run :: runs, start, 0, _ => by simp [runEnds, declaredLocals]
  | run :: runs, start, i + 1, h => by
    have := runEnds_get runs (start + run.count) i (by simpa using h)
    simp only [runEnds, List.getD_cons_succ, List.take_succ_cons, declaredLocals_cons, this]
    omega

/-- The run that a scan stops in is the first one whose end is above the offset. -/
theorem localRunType_first : ∀ {runs : List LocalRun} {rem r : Nat},
    (∀ i < r, i < runs.length → declaredLocals (runs.take (i + 1)) ≤ rem) →
    (r < runs.length → rem < declaredLocals (runs.take (r + 1))) → r ≤ runs.length →
    localRunType runs rem = (runs[r]?).map (·.type)
  | [], rem, r, _, _, _ => by simp [localRunType]
  | run :: runs, rem, 0, _, hr, _ => by
    have : rem < run.count := by simpa [declaredLocals] using hr (by simp)
    simp [localRunType, this]
  | run :: runs, rem, r + 1, hlt, hr, hle => by
    have hcount : run.count ≤ rem := by simpa [declaredLocals] using hlt 0 (by omega) (by simp)
    rw [localRunType, if_neg (by omega), localRunType_first (r := r)]
    · simp
    · intro i hi hil
      have := hlt (i + 1) (by omega) (by simpa using hil)
      rw [List.take_succ_cons, declaredLocals_cons] at this
      omega
    · intro hrl
      have := hr (by simpa using hrl)
      rw [List.take_succ_cons, declaredLocals_cons] at this
      omega
    · simpa using hle

theorem declaredLocals_take_mono {runs : List LocalRun} {i j : Nat} (h : i ≤ j) :
    declaredLocals (runs.take i) ≤ declaredLocals (runs.take j) := by
  rw [declaredLocals_eq, declaredLocals_eq]
  exact ((List.take_sublist_take_left h).flatMap _).length_le

theorem localTypeIndexed_eq (params : List ValType) (runs : List LocalRun) (idx : Nat) :
    localTypeIndexed params runs (runEnds params.length runs) idx = localType params runs idx := by
  unfold localTypeIndexed localType
  split
  · rfl
  · rename_i hidx
    split
    · rfl
    · -- `ends i` is the end of run `i`; the search looks for the first end above the index
      have hget : ∀ i < runs.length, (runEnds params.length runs).getD i 0 =
          params.length + declaredLocals (runs.take (i + 1)) := fun i hi => runEnds_get runs _ i hi
      have hspec := sortSearch_spec (n := runs.length)
        (p := fun i => decide (idx < (runEnds params.length runs).getD i 0)) (by
          intro i j hij hj hpi
          have hmono := @declaredLocals_take_mono runs _ _ (show i + 1 ≤ j + 1 by omega)
          simp only [decide_eq_true_eq] at hpi ⊢
          rw [hget i (by omega)] at hpi
          rw [hget j hj]
          omega) runs.length 0 runs.length (by omega) (by omega) (le_refl _) (by simp)
        (fun i hi hin => absurd hin (by omega))
      rw [runEnds_length]
      generalize sortSearch _ _ _ _ = r at hspec ⊢
      obtain ⟨hr, hfalse, htrue⟩ := hspec
      refine (localRunType_first ?_ ?_ hr).symm
      · intro i hi hil
        have := hfalse i hi
        simp only [decide_eq_false_iff_not, not_lt] at this
        rw [hget i hil] at this
        omega
      · intro hrl
        have := htrue r (le_refl _) hrl
        simp only [decide_eq_true_eq] at this
        rw [hget r hrl] at this
        omega

/-! ## The lookup -/

/-- The number of locals the validator has counted is the right one. -/
def FuncEnv.Counted (fv : FuncEnv) : Prop :=
  Wasm.localCount fv.localParams fv.localRuns = some fv.localCount

/-- The index of the local runs, when it has been built. -/
def RunIndexed (fv : FuncEnv) (s : FuncValidator) : Prop :=
  s.localRunEnds = [] ∨
    s.localRunEnds = FuncValidator.runEnds fv.localParams.length fv.localRuns

/-- The lookup finds what a plain scan finds; it only touches the index and its work count. -/
theorem localType_run {fv : FuncEnv} {s : FuncValidator} (hc : fv.Counted) (hs : RunIndexed fv s)
    (idx : Nat) :
    ∃ ends work, (FuncValidator.localType fv idx).run s =
        .ok (Wasm.localType fv.localParams fv.localRuns idx)
          { s with localRunEnds := ends, localLookupWork := work } ∧
      RunIndexed fv { s with localRunEnds := ends, localLookupWork := work } := by
  have hkeep : RunIndexed fv { s with localRunEnds := s.localRunEnds, localLookupWork := s.localLookupWork } := hs
  unfold FuncValidator.localType
  simp only [EStateM.run_bind, EStateM.run_get]
  by_cases hfew : fv.localRuns.length ≤ 2
  · rw [if_pos hfew]
    exact ⟨_, _, rfl, hkeep⟩
  rw [if_neg hfew]
  by_cases hends : s.localRunEnds.length ≠ 0
  · rw [if_pos hends]
    rcases hs with hs' | hs'
    · simp [hs'] at hends
    · refine ⟨s.localRunEnds, s.localLookupWork, ?_, hkeep⟩
      rw [← localTypeIndexed_eq, ← hs']
      rfl
  rw [if_neg hends]
  by_cases hparam : idx < fv.localParams.length
  · rw [if_pos hparam]
    exact ⟨_, _, by simp [Wasm.localType, hparam], hkeep⟩
  rw [if_neg hparam]
  have hty : Wasm.localType fv.localParams fv.localRuns idx =
      localRunType fv.localRuns (idx - fv.localParams.length) := by simp [Wasm.localType, hparam]
  by_cases hcount : fv.localCount ≤ idx
  · rw [if_pos hcount]
    have hsum := localCount_eq hc
    refine ⟨_, _, ?_, hkeep⟩
    rw [hty, localRunType_none (by omega)]
    rfl
  rw [if_neg hcount]
  -- the first two runs, then the index or the rest of the runs
  have hscan := scanRuns_spec (fv.localRuns.drop 2) (fv.localRuns.take 2) 0 (idx - fv.localParams.length)
  rw [List.take_append_drop, ← hty] at hscan
  cases h2 : scanRuns 0 (fv.localRuns.take 2) (idx - fv.localParams.length) with
  | ok it =>
    rw [h2] at hscan
    exact ⟨_, _, by rw [hscan]; rfl, hkeep⟩
  | error rem =>
    rw [h2] at hscan
    simp only at hscan ⊢
    by_cases hwork : 2 * fv.localRuns.length ≤ s.localLookupWork
    · rw [if_pos hwork]
      refine ⟨runEnds fv.localParams.length fv.localRuns, s.localLookupWork, ?_, .inr rfl⟩
      rw [show ((do indexLocalRuns fv; indexedLocalType fv idx) : ValidateM _).run s =
        .ok (localTypeIndexed fv.localParams fv.localRuns
          (if fv.localRuns.length ≤ 2 then [] else runEnds fv.localParams.length fv.localRuns) idx)
          { s with localRunEnds :=
            if fv.localRuns.length ≤ 2 then [] else runEnds fv.localParams.length fv.localRuns } from rfl,
        if_neg hfew, localTypeIndexed_eq]
    · rw [if_neg hwork]
      have hrest := scanRuns_spec [] (fv.localRuns.drop 2) 0 rem
      rw [List.append_nil] at hrest
      cases h3 : scanRuns 0 (fv.localRuns.drop 2) rem with
      | ok it =>
        rw [h3] at hrest
        exact ⟨s.localRunEnds, s.localLookupWork + (it.1 + 1), by rw [hscan, hrest]; rfl, hs⟩
      | error rem' =>
        rw [h3] at hrest
        exact ⟨_, _, by rw [hscan, hrest]; rfl, hkeep⟩

end Wago.Wasm
