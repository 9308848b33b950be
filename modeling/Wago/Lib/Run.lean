/-
Runs of computations that thread a state and may fail keeping the state they reached (`EStateM`),
and of computations that only may fail (`Except`): how a run of each combinator is computed, what a
successful run of a sequence says about its parts, and what a computation keeps of the state.
-/
import Mathlib.Algebra.Order.Ring.Int

namespace Run

variable {ε σ α β : Type} {s s' : σ}

@[simp] theorem run_throw (e : ε) : (throw e : EStateM ε σ α).run s = .error e s := rfl

@[simp] theorem run_ite {c : Prop} [Decidable c] {x y : EStateM ε σ α} :
    (if c then x else y).run s = if c then x.run s else y.run s := by split <;> rfl

@[simp] theorem run_map (f : α → β) (x : EStateM ε σ α) :
    (f <$> x).run s = match x.run s with
      | .ok a s => .ok (f a) s
      | .error e s => .error e s := rfl

/-- Inversion of a successful sequence. -/
theorem bind_ok {x : EStateM ε σ α} {f : α → EStateM ε σ β} {b : β} :
    (x >>= f).run s = .ok b s' ↔ ∃ a t, x.run s = .ok a t ∧ (f a).run t = .ok b s' := by
  rw [EStateM.run_bind]
  cases x.run s with
  | error e t => simp
  | ok a t =>
    simp only [EStateM.Result.ok.injEq]
    exact ⟨fun h => ⟨a, t, ⟨rfl, rfl⟩, h⟩, by rintro ⟨_, _, ⟨rfl, rfl⟩, h⟩; exact h⟩

theorem bind_of_ok {x : EStateM ε σ α} {f : α → EStateM ε σ β} {a : α} (h : x.run s = .ok a s') :
    (x >>= f).run s = (f a).run s' := by rw [EStateM.run_bind, h]

theorem bind_of_error {x : EStateM ε σ α} {f : α → EStateM ε σ β} {e : ε}
    (h : x.run s = .error e s') : (x >>= f).run s = .error e s' := by rw [EStateM.run_bind, h]

/-- Continuations are compared only where they are reached. -/
theorem bind_congr_run {x : EStateM ε σ α} {f g : α → EStateM ε σ β}
    (h : ∀ a t, x.run s = .ok a t → (f a).run t = (g a).run t) :
    (x >>= f).run s = (x >>= g).run s := by
  cases hx : x.run s with
  | ok a t => rw [bind_of_ok hx, bind_of_ok hx, h a t hx]
  | error e t => rw [bind_of_error hx, bind_of_error hx]

theorem pure_ok {a b : α} : (pure a : EStateM ε σ α).run s = .ok b s' ↔ a = b ∧ s = s' := by
  simp

/-- What every round of a loop keeps, the loop keeps. -/
theorem forM_ok_rel {R : σ → σ → Prop} (hrefl : ∀ s, R s s)
    (htrans : ∀ {s t u}, R s t → R t u → R s u) {f : α → EStateM ε σ PUnit}
    (h : ∀ {a u s s'}, (f a).run s = .ok u s' → R s s') : ∀ {as : List α} {u : PUnit} {s s' : σ},
    (as.forM f).run s = .ok u s' → R s s'
  | [], u, s, s', hrun => by
    obtain ⟨-, rfl⟩ := pure_ok.1 hrun
    exact hrefl s
  | a :: as, u, s, s', hrun => by
    obtain ⟨v, t, ha, has⟩ := bind_ok.1 hrun
    exact htrans (h ha) (forM_ok_rel hrefl htrans h has)

/-- Whether a run ends with the value `b`. -/
def returns [DecidableEq α] (x : EStateM ε σ α) (s : σ) (b : α) : Bool :=
  match x.run s with
  | .ok a _ => decide (a = b)
  | .error _ _ => false

theorem exists_of_returns [DecidableEq α] {x : EStateM ε σ α} {b : α}
    (h : returns x s b = true) : ∃ s', x.run s = .ok b s' := by
  unfold returns at h
  split at h
  · rename_i a s' hrun
    exact ⟨s', by rw [hrun, of_decide_eq_true h]⟩
  · cases h

/-! ## How a run ends -/

/-- The run ends with a value and a state that satisfy `ok`, or fails in a state that satisfies
`err`. -/
def Ends (x : EStateM ε σ α) (s : σ) (ok : α → σ → Prop) (err : σ → Prop) : Prop :=
  match x.run s with
  | .ok a s' => ok a s'
  | .error _ s' => err s'

namespace Ends

variable {x : EStateM ε σ α} {f : α → EStateM ε σ β} {ok ok' : α → σ → Prop} {fin : β → σ → Prop}
  {err err' : σ → Prop}

theorem of_ok {a : α} (hrun : x.run s = .ok a s') (h : ok a s') : Ends x s ok err := by
  unfold Ends
  rw [hrun]
  exact h

theorem of_error {e : ε} (hrun : x.run s = .error e s') (h : err s') : Ends x s ok err := by
  unfold Ends
  rw [hrun]
  exact h

theorem ok_of_run {a : α} (h : Ends x s ok err) (hrun : x.run s = .ok a s') : ok a s' := by
  unfold Ends at h
  rwa [hrun] at h

theorem err_of_run {e : ε} (h : Ends x s ok err) (hrun : x.run s = .error e s') : err s' := by
  unfold Ends at h
  rwa [hrun] at h

theorem bind (hx : Ends x s ok err) (hf : ∀ a s', ok a s' → Ends (f a) s' fin err) :
    Ends (x >>= f) s fin err := by
  cases hrun : x.run s with
  | ok a s' =>
    have := hf a s' (hx.ok_of_run hrun)
    unfold Ends at this ⊢
    rwa [bind_of_ok hrun]
  | error e s' => exact .of_error (bind_of_error hrun) (hx.err_of_run hrun)

theorem run_bind {a : α} (hrun : x.run s = .ok a s') (h : Ends (f a) s' fin err) :
    Ends (x >>= f) s fin err := by
  unfold Ends at h ⊢
  rwa [bind_of_ok hrun]

theorem get_bind {f : σ → EStateM ε σ β} (h : Ends (f s) s fin err) : Ends (get >>= f) s fin err := h

theorem modify_bind {f : PUnit → EStateM ε σ β} {g : σ → σ} (h : Ends (f ⟨⟩) (g s) fin err) :
    Ends (modify g >>= f) s fin err := h

theorem mono (hx : Ends x s ok err) (hok : ∀ a s', ok a s' → ok' a s') (herr : ∀ s', err s' → err' s') :
    Ends x s ok' err' := by
  cases hrun : x.run s with
  | ok a s' => exact .of_ok hrun (hok a s' (hx.ok_of_run hrun))
  | error e s' => exact .of_error hrun (herr s' (hx.err_of_run hrun))

end Ends

/-! ## What a computation keeps -/

section

variable {κ : Type} {π : σ → κ} {x : EStateM ε σ α} {f : α → EStateM ε σ β}

/-- A successful run leaves `π` of the state as it was. -/
structure Keeps (π : σ → κ) (x : EStateM ε σ α) : Prop where
  kept : ∀ {s a s'}, x.run s = .ok a s' → π s' = π s

namespace Keeps

theorem pure (a : α) : Keeps π (Pure.pure a : EStateM ε σ α) := ⟨fun h => by rw [(pure_ok.1 h).2]⟩

theorem throw (e : ε) : Keeps π (throw e : EStateM ε σ α) := ⟨fun h => by cases h⟩

theorem get : Keeps π (get : EStateM ε σ σ) := ⟨fun h => by cases h; rfl⟩

theorem modify {g : σ → σ} (hg : ∀ s, π (g s) = π s) : Keeps π (modify g : EStateM ε σ PUnit) :=
  ⟨fun h => by cases h; exact hg _⟩

theorem bind (hx : Keeps π x) (hf : ∀ a, Keeps π (f a)) : Keeps π (x >>= f) := by
  refine ⟨fun h => ?_⟩
  obtain ⟨a, t, hrun, hrest⟩ := bind_ok.1 h
  rw [(hf a).kept hrest, hx.kept hrun]

/-- A state may be written after it was read. -/
theorem get_bind {g : σ → EStateM ε σ β} (hg : ∀ {s b s'}, (g s).run s = .ok b s' → π s' = π s) :
    Keeps π (MonadState.get >>= g) := ⟨fun h => hg h⟩

theorem ite {c : Prop} [Decidable c] {y : EStateM ε σ α} (hx : Keeps π x) (hy : Keeps π y) :
    Keeps π (if c then x else y) := by
  split
  · exact hx
  · exact hy

theorem forM {g : β → EStateM ε σ PUnit} (hg : ∀ b, Keeps π (g b)) : ∀ bs : List β, Keeps π (bs.forM g)
  | [] => .pure _
  | b :: bs => (hg b).bind fun _ => forM hg bs

end Keeps

end

/-! ## Fallible computations without state -/

theorem except_bind_ok {x : Except ε α} {f : α → Except ε β} {b : β} :
    (x >>= f) = .ok b ↔ ∃ a, x = .ok a ∧ f a = .ok b := by
  cases x with
  | error e => simp [bind, Except.bind]
  | ok a => simp [bind, Except.bind]

theorem except_seq_ok {x : Except ε Unit} {f : Unit → Except ε β} {b : β} :
    (x >>= f) = .ok b ↔ x = .ok () ∧ f () = .ok b := by
  rw [except_bind_ok]
  exact ⟨fun ⟨(), h⟩ => h, fun h => ⟨(), h⟩⟩

theorem except_forM_ok {f : α → Except ε PUnit} : ∀ {as : List α},
    as.forM f = .ok () ↔ ∀ a ∈ as, f a = .ok ()
  | [] => by simp [pure, Except.pure]
  | a :: as => by
    rw [show (a :: as).forM f = (f a >>= fun _ => as.forM f) from rfl, except_bind_ok]
    constructor
    · rintro ⟨⟨⟩, ha, has⟩
      exact List.forall_mem_cons.2 ⟨ha, except_forM_ok.1 has⟩
    · intro h
      obtain ⟨ha, has⟩ := List.forall_mem_cons.1 h
      exact ⟨(), ha, except_forM_ok.2 has⟩

/-- The early return `if c { return e }`. -/
def failIf (c : Prop) [Decidable c] (e : ε) : Except ε Unit := if c then .error e else .ok ()

theorem failIf_ok {c : Prop} [Decidable c] {e : ε} : failIf c e = .ok () ↔ ¬ c := by
  unfold failIf; split <;> simp [*]

end Run
