/-
Threads that share a state and take turns. Every thread runs the same program: from its own control
point and the shared state, `next` lists what one atomic step can lead to. A run lets any thread
take any of its steps, so what is proved of every reachable configuration holds under every schedule.
At the end, histories of a machine whose steps are functions: the state after a list of events, and
what holds along a history in which every event meets a state that allows it.
-/
import Mathlib.Algebra.Order.Ring.Int
import Mathlib.Logic.Function.Basic
import Mathlib.Logic.Relation
import Mathlib.Tactic.Common

namespace Wago.Interleave

structure Config (T S P : Type*) where
  shared : S
  pc : T → P

variable {T S P : Type*} [DecidableEq T] {next : T → S → P → List (S × P)}

def Config.set (c : Config T S P) (t : T) (r : S × P) : Config T S P :=
  ⟨r.1, Function.update c.pc t r.2⟩

@[simp] theorem Config.set_shared (c : Config T S P) (t : T) (r : S × P) :
    (c.set t r).shared = r.1 := rfl

@[simp] theorem Config.set_pc (c : Config T S P) (t : T) (r : S × P) :
    (c.set t r).pc = Function.update c.pc t r.2 := rfl

def Step (next : T → S → P → List (S × P)) (c d : Config T S P) : Prop :=
  ∃ t, ∃ r ∈ next t c.shared (c.pc t), d = c.set t r

def Reachable (next : T → S → P → List (S × P)) : Config T S P → Config T S P → Prop :=
  Relation.ReflTransGen (Step next)

theorem Reachable.refl (c : Config T S P) : Reachable next c c := Relation.ReflTransGen.refl

theorem Reachable.step {c d : Config T S P} {t : T} {r : S × P} (hrun : Reachable next c d)
    (hr : r ∈ next t d.shared (d.pc t)) : Reachable next c (d.set t r) :=
  hrun.tail ⟨t, r, hr, rfl⟩

/-- The invariant rule: what no step of any thread breaks holds all along a run. -/
theorem Reachable.invariant {I : Config T S P → Prop} {c d : Config T S P}
    (hstep : ∀ c t, I c → ∀ r ∈ next t c.shared (c.pc t), I (c.set t r))
    (hrun : Reachable next c d) (hc : I c) : I d := by
  induction hrun with
  | refl => exact hc
  | tail _ hlast ih =>
    obtain ⟨t, r, hr, rfl⟩ := hlast
    exact hstep _ t ih r hr

/-- The runs all of whose later configurations satisfy `ok`. -/
def ReachableIn (ok : Config T S P → Prop) (next : T → S → P → List (S × P)) :
    Config T S P → Config T S P → Prop :=
  Relation.ReflTransGen fun c d => Step next c d ∧ ok d

theorem ReachableIn.invariant {ok I : Config T S P → Prop} {c d : Config T S P}
    (hstep : ∀ c t, I c → ∀ r ∈ next t c.shared (c.pc t), ok (c.set t r) → I (c.set t r))
    (hrun : ReachableIn ok next c d) (hc : I c) : I d := by
  induction hrun with
  | refl => exact hc
  | tail _ hlast ih =>
    obtain ⟨⟨t, r, hr, rfl⟩, hok⟩ := hlast
    exact hstep _ t ih r hr hok

theorem ReachableIn.reachable {ok : Config T S P → Prop} {c d : Config T S P}
    (hrun : ReachableIn ok next c d) : Reachable next c d := by
  induction hrun with
  | refl => exact Reachable.refl c
  | tail _ hlast ih => exact Relation.ReflTransGen.tail ih hlast.1

/-! ## Branching steps -/

section

variable {α : Type*} {c : Prop} [Decidable c] {a b r : α}

theorem mem_branch (h : r ∈ if c then [a] else [b]) : c ∧ r = a ∨ ¬ c ∧ r = b := by
  split at h
  · exact .inl ⟨‹c›, List.mem_singleton.1 h⟩
  · exact .inr ⟨‹¬ c›, List.mem_singleton.1 h⟩

theorem mem_guard (h : r ∈ if c then [a] else []) : c ∧ r = a := by
  split at h
  · exact ⟨‹c›, List.mem_singleton.1 h⟩
  · cases h

theorem forall_branch {Q : α → Prop} (ha : c → Q a) (hb : ¬ c → Q b) : ∀ r ∈ if c then [a] else [b], Q r := by
  intro r hr
  rcases mem_branch hr with ⟨hc, rfl⟩ | ⟨hc, rfl⟩
  · exact ha hc
  · exact hb hc

theorem forall_guard {Q : α → Prop} (ha : c → Q a) : ∀ r ∈ if c then [a] else [], Q r := by
  intro r hr
  obtain ⟨hc, rfl⟩ := mem_guard hr
  exact ha hc

theorem forall_unless {Q : α → Prop} (ha : ¬ c → Q a) : ∀ r ∈ if c then [] else [a], Q r := by
  split
  · exact List.forall_mem_nil _
  · exact List.forall_mem_singleton.2 (ha ‹¬ c›)

end

/-! ## Schedules -/

/-- The run a schedule picks, while it stays in `ok`: who moves, and which of its steps it takes. -/
def replay (ok : Config T S P → Prop) [DecidablePred ok] (next : T → S → P → List (S × P)) :
    Config T S P → List (T × ℕ) → Option (Config T S P)
  | c, [] => some c
  | c, (t, i) :: rest =>
    match (next t c.shared (c.pc t))[i]? with
    | some r => if ok (c.set t r) then replay ok next (c.set t r) rest else none
    | none => none

theorem reachableIn_of_replay {ok : Config T S P → Prop} [DecidablePred ok] :
    ∀ {picks : List (T × ℕ)} {c d : Config T S P},
    replay ok next c picks = some d → ReachableIn ok next c d
  | [], c, d, h => by
    cases h
    exact Relation.ReflTransGen.refl
  | (t, i) :: rest, c, d, h => by
    unfold replay at h
    cases hi : (next t c.shared (c.pc t))[i]? with
    | none =>
      rw [hi] at h
      cases h
    | some r =>
      simp only [hi] at h
      by_cases hok : ok (c.set t r)
      · rw [if_pos hok] at h
        have hstep : Step next c (c.set t r) := ⟨t, r, List.mem_of_getElem? hi, rfl⟩
        exact Relation.ReflTransGen.head ⟨hstep, hok⟩ (reachableIn_of_replay h)
      · rw [if_neg hok] at h
        cases h

/-! ## One owner -/

/-- `o` is the one thread whose control point owns the resource, with the mode it owns it in. -/
def Owner {M : Type*} (hold : P → Option M) (pc : T → P) (o : Option (T × M)) : Prop :=
  ∀ t m, hold (pc t) = some m ↔ o = some (t, m)

namespace Owner

variable {M : Type*} {hold : P → Option M} {pc : T → P} {o : Option (T × M)} {t u : T} {p : P}

omit [DecidableEq T] in
theorem unique (h : Owner hold pc o) {m n : M} (ht : hold (pc t) = some m)
    (hu : hold (pc u) = some n) : t = u := by
  have h1 := (h t m).1 ht
  have h2 := (h u n).1 hu
  rw [h1] at h2
  exact congrArg Prod.fst (Option.some.inj h2)

omit [DecidableEq T] in
theorem not_hold (h : Owner hold pc none) (t : T) : hold (pc t) = none := by
  cases ht : hold (pc t) with
  | none => rfl
  | some m => cases (h t m).1 ht

theorem keep (h : Owner hold pc o) (hp : hold p = hold (pc t)) :
    Owner hold (Function.update pc t p) o := by
  intro u m
  by_cases hu : u = t
  · rw [hu, Function.update_self, hp]
    exact h t m
  · rw [Function.update_of_ne hu]
    exact h u m

theorem take (h : Owner hold pc none) {m : M} (hp : hold p = some m) :
    Owner hold (Function.update pc t p) (some (t, m)) := by
  intro u n
  by_cases hu : u = t
  · rw [hu, Function.update_self, hp]
    simp
  · rw [Function.update_of_ne hu, h.not_hold u]
    simp [Ne.symm hu]

theorem drop (h : Owner hold pc o) {m : M} (ht : hold (pc t) = some m) (hp : hold p = none) :
    Owner hold (Function.update pc t p) none := by
  intro u n
  by_cases hu : u = t
  · rw [hu, Function.update_self, hp]
    simp
  · rw [Function.update_of_ne hu, h u n, (h t m).1 ht]
    simp [Ne.symm hu]

end Owner

/-! ## Obligations -/

/-- Some thread is at a control point that answers for what is still to be done. -/
def Covered (C : P → Prop) (pc : T → P) : Prop := ∃ t, C (pc t)

namespace Covered

variable {C : P → Prop} {pc : T → P} {t : T} {p : P}

theorem here (h : C p) : Covered C (Function.update pc t p) :=
  ⟨t, by rw [Function.update_self]; exact h⟩

theorem keep (h : Covered C pc) (hp : C (pc t) → C p) : Covered C (Function.update pc t p) := by
  obtain ⟨u, hu⟩ := h
  by_cases hut : u = t
  · exact here (hp (hut ▸ hu))
  · exact ⟨u, by rw [Function.update_of_ne hut]; exact hu⟩

/-- The rule for an obligation that arises with `Q`: a step takes it up, or it stood before and the
thread that moved does not drop it. -/
theorem step {Q Q' : Prop} (h : Q → Covered C pc) (hstep : Q' → C p ∨ Q ∧ (C (pc t) → C p)) :
    Q' → Covered C (Function.update pc t p) := by
  intro hq
  rcases hstep hq with hp | ⟨hq, hp⟩
  · exact here hp
  · exact (h hq).keep hp

end Covered

end Wago.Interleave

namespace Wago.History

variable {S E : Type*} {step : S → E → S} {ok ok' : S → E → Prop} {I : S → Prop}

def run (step : S → E → S) (s : S) (es : List E) : S := es.foldl step s

@[simp] theorem run_nil (s : S) : run step s [] = s := rfl

@[simp] theorem run_cons (s : S) (e : E) (es : List E) : run step s (e :: es) = run step (step s e) es :=
  rfl

/-- Every event of the history is allowed where it happens. -/
def Along (step : S → E → S) (ok : S → E → Prop) : S → List E → Prop
  | _, [] => True
  | s, e :: es => ok s e ∧ Along step ok (step s e) es

/-- The invariant rule: what no allowed event breaks holds after every allowed history. -/
theorem Along.invariant (hstep : ∀ s e, I s → ok s e → I (step s e)) : ∀ {es : List E} {s : S},
    Along step ok s es → I s → I (run step s es)
  | [], _, _, hs => hs
  | e :: _, s, ⟨he, hes⟩, hs => hes.invariant hstep (hstep s e hs he)

end Wago.History
