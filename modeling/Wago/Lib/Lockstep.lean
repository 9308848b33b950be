/-
Two failing state computations run side by side. `Lockstep I F R x y` says that from states related
by `I` the two end alike: both succeed, in related states and with values related by `R`, or both
fail; only the left one may fail alone, with an error in `F`.
-/
import Wago.Lib.Run

namespace Run

variable {ε ε' σ τ α β γ δ : Type}

inductive Outcome (I : σ → τ → Prop) (F : ε → Prop) (R : α → β → Prop) :
    EStateM.Result ε σ α → EStateM.Result ε' τ β → Prop
  | ok {a b s t} : I s t → R a b → Outcome I F R (.ok a s) (.ok b t)
  | fail {e e' s t} : Outcome I F R (.error e s) (.error e' t)
  | left {e b s t} : F e → Outcome I F R (.error e s) (.ok b t)

structure Lockstep (I : σ → τ → Prop) (F : ε → Prop) (R : α → β → Prop) (x : EStateM ε σ α)
    (y : EStateM ε' τ β) : Prop where
  outcome : ∀ {s t}, I s t → Outcome I F R (x.run s) (y.run t)

variable {I : σ → τ → Prop} {F G : ε → Prop} {R : α → β → Prop} {S : γ → δ → Prop}
  {x : EStateM ε σ α} {y : EStateM ε' τ β} {f : α → EStateM ε σ γ} {g : β → EStateM ε' τ δ}
  {s s' : σ} {t t' : τ} {a : α} {b : β}

namespace Outcome

/-- A success on the left is one on the right. -/
theorem of_left (h : Outcome I F R (x.run s) (y.run t)) (hx : x.run s = .ok a s') :
    ∃ b t', y.run t = .ok b t' ∧ I s' t' ∧ R a b := by
  rw [hx] at h
  generalize hy : y.run t = res at h
  cases h with
  | ok hI hR => exact ⟨_, _, rfl, hI, hR⟩

/-- A success on the right is one on the left, unless the left one failed with an error in `F`. -/
theorem of_right (h : Outcome I F R (x.run s) (y.run t)) (hy : y.run t = .ok b t') :
    (∃ a s', x.run s = .ok a s' ∧ I s' t' ∧ R a b) ∨ ∃ e s', x.run s = .error e s' ∧ F e := by
  rw [hy] at h
  generalize hx : x.run s = res at h
  cases h with
  | ok hI hR => exact .inl ⟨_, _, rfl, hI, hR⟩
  | left hF => exact .inr ⟨_, _, rfl, hF⟩

theorem mono {J : σ → τ → Prop} {R' : α → β → Prop} {rx : EStateM.Result ε σ α}
    {ry : EStateM.Result ε' τ β} (h : Outcome I F R rx ry) (hI : ∀ s t, I s t → J s t)
    (hF : ∀ e, F e → G e) (hR : ∀ a b, R a b → R' a b) : Outcome J G R' rx ry := by
  cases h with
  | ok h h' => exact .ok (hI _ _ h) (hR _ _ h')
  | fail => exact .fail
  | left h => exact .left (hF _ h)

theorem bind (h : Outcome I F R (x.run s) (y.run t))
    (hf : ∀ a b s' t', x.run s = .ok a s' → y.run t = .ok b t' → I s' t' → R a b →
      Outcome I F S ((f a).run s') ((g b).run t')) :
    Outcome I F S ((x >>= f).run s) ((y >>= g).run t) := by
  generalize hx : x.run s = rx at h
  generalize hy : y.run t = ry at h
  cases h with
  | ok hI hR => rw [bind_of_ok hx, bind_of_ok hy]; exact hf _ _ _ _ hx hy hI hR
  | fail => rw [bind_of_error hx, bind_of_error hy]; exact .fail
  | left hF =>
    -- the right computation goes on alone: whatever it does, the left one has failed
    rw [bind_of_error hx, bind_of_ok hy]
    generalize (g _).run _ = res
    cases res with
    | ok => exact .left hF
    | error => exact .fail

end Outcome

namespace Lockstep

theorem pure (h : R a b) : Lockstep I F R (Pure.pure a : EStateM ε σ α) (Pure.pure b : EStateM ε' τ β) :=
  ⟨fun hI => .ok hI h⟩

theorem throw {e : ε} {e' : ε'} :
    Lockstep I F R (throw e : EStateM ε σ α) (throw e' : EStateM ε' τ β) := ⟨fun _ => .fail⟩

theorem bind (h : Lockstep I F R x y) (hf : ∀ a b, R a b → Lockstep I F S (f a) (g b)) :
    Lockstep I F S (x >>= f) (y >>= g) :=
  ⟨fun hI => (h.outcome hI).bind fun a b _ _ _ _ hI' hR => (hf a b hR).outcome hI'⟩

/-- The values agree: both go on from the same one. -/
theorem bind_eq {y : EStateM ε' τ α} {g : α → EStateM ε' τ δ} (h : Lockstep I F Eq x y)
    (hf : ∀ a, Lockstep I F S (f a) (g a)) : Lockstep I F S (x >>= f) (y >>= g) :=
  h.bind fun a _ hab => hab ▸ hf a

theorem map {f : α → γ} {g : β → δ} (h : Lockstep I F R x y) (hf : ∀ a b, R a b → S (f a) (g b)) :
    Lockstep I F S (do return f (← x)) (do return g (← y)) :=
  h.bind fun a b hR => Lockstep.pure (hf a b hR)

theorem ite {c : Prop} [Decidable c] {x' : EStateM ε σ α} {y' : EStateM ε' τ β}
    (h : c → Lockstep I F R x y) (h' : ¬ c → Lockstep I F R x' y') :
    Lockstep I F R (if c then x else x') (if c then y else y') := by
  split
  · exact h ‹_›
  · exact h' ‹_›

end Lockstep

end Run
