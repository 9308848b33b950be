/-
The local declarations of a function: how they are decoded (`decodeLocals` in `decode.go`), the
compact form the compiler gets (`coalesceCompilerLocalRuns` in `validate_bytebacked.go`), and the
lookups of a whole validation.
-/
import Wago.Wasm.LocalIndex
import Wago.Wasm.ValidateFunc

namespace Wago.Wasm

def sizeofLocalRun : Nat := 24

/-- The runs that are left to read; those before declare `total` locals. -/
def decodeLocalRuns : (n total : Nat) → ReadM (List LocalRun)
  | 0, _ => return []
  | n + 1, total => do
    let count ← u32
    let type ← decodeValType
    if count > 2 ^ 32 - 1 - total then failHere .invalidModule
    else return ⟨count, type⟩ :: (← decodeLocalRuns n (total + count))

def decodeLocals : ReadM (List LocalRun) := do
  let n ← u32
  reserveDecodedSlice sizeofLocalRun n
  decodeLocalRuns n 0

/-- The loop writes to the slice it reads: `kept` runs stand in front, the next to read is at `i`. -/
def coalesceLoop : (n i kept : Nat) → List LocalRun → List LocalRun
  | 0, _, kept, runs => runs.take kept
  | n + 1, i, kept, runs =>
    let run := runs.getD i ⟨0, .bot⟩
    let last := runs.getD (kept - 1) ⟨0, .bot⟩
    if kept ≠ 0 ∧ last.type = run.type then
      coalesceLoop n (i + 1) kept
        (runs.set (kept - 1) { last with count := (last.count + run.count) % 2 ^ 32 })
    else coalesceLoop n (i + 1) (kept + 1) (runs.set kept run)

def coalesceCompilerLocalRuns (runs : List LocalRun) : List LocalRun :=
  coalesceLoop runs.length 0 0 runs

/-! ## Decoding -/

theorem decodeLocalRuns_total : ∀ {n total : Nat} {runs : List LocalRun} {r r' : Reader},
    (decodeLocalRuns n total).run r = .ok runs r' → total < 2 ^ 32 → total + declaredLocals runs < 2 ^ 32
  | 0, total, runs, r, r', h, ht => by
    obtain ⟨rfl, -⟩ := Run.pure_ok.1 h
    exact ht
  | n + 1, total, runs, r, r', h, ht => by
    obtain ⟨count, r₁, -, h⟩ := Run.bind_ok.1 h
    obtain ⟨type, r₂, -, h⟩ := Run.bind_ok.1 h
    rw [Run.run_ite] at h
    split at h
    · cases h
    · obtain ⟨rest, r₃, hrest, h⟩ := Run.bind_ok.1 h
      obtain ⟨rfl, -⟩ := Run.pure_ok.1 h
      have := decodeLocalRuns_total hrest (by omega)
      change total + (count + declaredLocals rest) < 2 ^ 32
      omega

theorem decodeLocals_total {runs : List LocalRun} {r r' : Reader}
    (h : decodeLocals.run r = .ok runs r') : declaredLocals runs < 2 ^ 32 := by
  obtain ⟨n, r₁, -, h⟩ := Run.bind_ok.1 h
  obtain ⟨-, r₂, -, h⟩ := Run.bind_ok.1 h
  simpa using decodeLocalRuns_total h (by decide)

/-! ## Coalescing -/

/-- `junk` stands for runs that were moved or merged, their places not yet written again. -/
theorem coalesceLoop_types : ∀ (rest kept junk : List LocalRun),
    (localTypes (kept ++ rest)).length < 2 ^ 32 →
    localTypes (coalesceLoop rest.length (kept.length + junk.length) kept.length (kept ++ junk ++ rest)) =
      localTypes (kept ++ rest)
  | [], kept, junk, _ => by simp [coalesceLoop]
  | run :: rest, kept, junk, h => by
    have hrun : (kept ++ junk ++ run :: rest).getD (kept.length + junk.length) ⟨0, .bot⟩ = run := by
      simp [List.getD]
    rw [List.length_cons, coalesceLoop, hrun]
    split
    · -- the run continues the last one that was kept
      rename_i hsame
      have hne : kept ≠ [] := fun he => hsame.1 (by simp [he])
      obtain ⟨front, last, rfl⟩ : ∃ front last, kept = front ++ [last] :=
        ⟨_, _, (List.dropLast_append_getLast hne).symm⟩
      have hlast : (front ++ [last] ++ junk ++ run :: rest).getD ((front ++ [last]).length - 1) ⟨0, .bot⟩ =
          last := by simp [List.getD]
      rw [hlast] at hsame ⊢
      have htypes : localTypes (front ++ [⟨last.count + run.count, last.type⟩] ++ rest) =
          localTypes (front ++ [last] ++ run :: rest) := by
        simp only [localTypes, List.flatMap_append, List.flatMap_cons, List.flatMap_nil, List.append_nil,
          List.replicate_add, hsame.2, List.append_assoc]
      have hfits : last.count + run.count < 2 ^ 32 := by
        rw [← htypes] at h
        simp [localTypes] at h
        omega
      rw [Nat.mod_eq_of_lt hfits, ← htypes]
      rw [← htypes] at h
      have := coalesceLoop_types rest (front ++ [⟨last.count + run.count, last.type⟩]) (junk ++ [run]) h
      simpa [Nat.add_assoc] using this
    · have hset : (kept ++ junk ++ run :: rest).set kept.length run =
          (kept ++ [run]) ++ (junk ++ [run]).tail ++ rest := by
        cases junk <;> simp
      have := coalesceLoop_types rest (kept ++ [run]) (junk ++ [run]).tail (by simpa using h)
      rw [hset]
      simpa [Nat.add_right_comm] using this

/-! ## Lookups -/

open FuncValidator

/-- The validator later on in a validation: after lookups, and after other steps, which leave the
index and its work count alone. -/
inductive Lookups (fv : FuncEnv) (s : FuncValidator) : FuncValidator → Prop
  | start : Lookups fv s s
  | lookup {t t' : FuncValidator} {idx : Nat} {type : Option ValType} (h : Lookups fv s t)
      (hrun : (FuncValidator.localType fv idx).run t = .ok type t') : Lookups fv s t'
  | other {t t' : FuncValidator} (h : Lookups fv s t) (hends : t'.localRunEnds = t.localRunEnds)
      (hwork : t'.localLookupWork = t.localLookupWork) : Lookups fv s t'

theorem Lookups.runIndexed {fv : FuncEnv} {s t : FuncValidator} (hc : fv.Counted) (hs : RunIndexed fv s)
    (h : Lookups fv s t) : RunIndexed fv t := by
  induction h with
  | start => exact hs
  | @lookup t t' idx type _ hrun ih =>
    obtain ⟨ends, work, heq, hi⟩ := localType_run hc ih idx
    obtain ⟨-, rfl⟩ := EStateM.Result.ok.inj (heq.symm.trans hrun)
    exact hi
  | other _ hends _ ih =>
    unfold RunIndexed at ih ⊢
    rwa [hends]

theorem beginBody_spec {mv : ModuleValidator} {funcIndex : Nat} {params results : List ValType}
    {runs : List LocalRun} {s₀ s : FuncValidator} {fv : FuncEnv}
    (h : (beginBody mv funcIndex params results runs).run s₀ = .ok fv s) :
    fv.localParams = params ∧ fv.localRuns = runs ∧ fv.Counted ∧ RunIndexed fv s := by
  unfold beginBody at h
  cases hcount : localCount params runs with
  | none => simp [hcount] at h
  | some count =>
    simp only [hcount, Run.run_ite] at h
    split at h
    · cases h
    · obtain ⟨_, s₁, hprep, h⟩ := Run.bind_ok.1 h
      obtain ⟨_, s₂, hruns, h⟩ := Run.bind_ok.1 h
      have hsame : s₁ = s₂ := Run.forM_ok_rel (R := (· = ·)) (fun _ => rfl) Eq.trans (fun hrun => by
        unfold orThrow at hrun
        split at hrun <;> cases hrun
        rfl) hruns
      cases hprep
      subst hsame
      cases h
      exact ⟨rfl, rfl, hcount, .inl rfl⟩

theorem localRuns_lookup {runs : List LocalRun} {r r' : Reader} (h : decodeLocals.run r = .ok runs r') :
    (∀ mv funcIndex params results s₀ fv s,
      (beginBody mv funcIndex params results runs).run s₀ = .ok fv s → ∀ t, Lookups fv s t → ∀ idx,
        ∃ t', (FuncValidator.localType fv idx).run t = .ok (Wasm.localType params runs idx) t') ∧
    (∀ params idx, Wasm.localType params (coalesceCompilerLocalRuns runs) idx =
      Wasm.localType params runs idx) ∧
    declaredLocals (coalesceCompilerLocalRuns runs) = declaredLocals runs := by
  have htypes : localTypes (coalesceCompilerLocalRuns runs) = localTypes runs :=
    coalesceLoop_types runs [] [] (by rw [List.nil_append, ← declaredLocals_eq]; exact decodeLocals_total h)
  refine ⟨fun mv funcIndex params results s₀ fv s hbegin t ht idx => ?_, fun params idx => ?_, ?_⟩
  · obtain ⟨rfl, rfl, hc, hi⟩ := beginBody_spec hbegin
    obtain ⟨ends, work, hrun, -⟩ := localType_run hc (ht.runIndexed hc hi) idx
    exact ⟨_, hrun⟩
  · unfold Wasm.localType
    rw [localRunType_eq, localRunType_eq, htypes]
  · rw [declaredLocals_eq, declaredLocals_eq, htypes]

def fourRuns : List LocalRun := [⟨1, .i32⟩, ⟨2, .i32⟩, ⟨0, .i64⟩, ⟨3, .f64⟩]

/-- A body with the runs and one parameter, and its validator after `work` units of scans. -/
def fourEnv : FuncEnv :=
  { m := {}, types := .ofTypes [], limits := { maxFunctionLocals := 50000 }, funcIndex := 0
    localParams := [.i64], localRuns := fourRuns, localCount := 7 }

def fourScanned (work : Nat) : FuncValidator :=
  { ctrls := [{ kind := .func, ins := [], outs := [], height := 0, initHeight := 0 }]
    localLookupWork := work }

/-- Four scans past the second run reach the bound on their work, and the next lookup builds the
index. -/
theorem localRuns_lookup_four :
    ∃ r' t, decodeLocals.run (newReader [4, 1, 0x7f, 2, 0x7f, 0, 0x7e, 3, 0x7c]) = .ok fourRuns r' ∧
      (beginBody fourEnv.toModuleValidator 0 [.i64] [] fourRuns).run {} = .ok fourEnv (fourScanned 0) ∧
      Lookups fourEnv (fourScanned 0) t ∧ t.localRunEnds = [2, 4, 4, 7] ∧
      (∃ t', (FuncValidator.localType fourEnv 4).run t = .ok (some .f64) t') ∧
      coalesceCompilerLocalRuns fourRuns = [⟨3, .i32⟩, ⟨0, .i64⟩, ⟨3, .f64⟩] ∧
      Wasm.localType [.i64] (coalesceCompilerLocalRuns fourRuns) 3 = Wasm.localType [.i64] fourRuns 3 := by
  obtain ⟨r', h⟩ : ∃ r', decodeLocals.run (newReader [4, 1, 0x7f, 2, 0x7f, 0, 0x7e, 3, 0x7c]) =
      .ok fourRuns r' := Run.exists_of_returns (by decide +kernel)
  have hscan : ∀ w ∈ [0, 2, 4, 6],
      (FuncValidator.localType fourEnv 4).run (fourScanned w) = .ok (some .f64) (fourScanned (w + 2)) := by
    simp only [List.forall_mem_cons]
    exact ⟨rfl, rfl, rfl, rfl, nofun⟩
  have hscans : Lookups fourEnv (fourScanned 0) (fourScanned 8) :=
    (((Lookups.start.lookup (hscan 0 (by decide))).lookup (hscan 2 (by decide))).lookup
      (hscan 4 (by decide))).lookup (hscan 6 (by decide))
  have hlooks := hscans.lookup (show (FuncValidator.localType fourEnv 4).run (fourScanned 8) =
    .ok (some .f64) { fourScanned 8 with localRunEnds := [2, 4, 4, 7] } from rfl)
  have hbegin : (beginBody fourEnv.toModuleValidator 0 [.i64] [] fourRuns).run {} =
      .ok fourEnv (fourScanned 0) := rfl
  exact ⟨r', _, h, hbegin, hlooks, rfl, (localRuns_lookup h).1 _ _ _ _ _ _ _ hbegin _ hlooks 4, by decide,
    (localRuns_lookup h).2.1 [.i64] 3⟩

end Wago.Wasm
