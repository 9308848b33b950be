/-
Programs over a signature of operations, as trees of operations and their continuations, and how
they run through a handler of the operations.
-/
import Wago.Lib.Run

/-- A computation that fails with `ε` and otherwise talks to its environment through `Op`. -/
inductive Program (Op : Type → Type) (ε : Type) (α : Type) : Type 1
  | ret (a : α) : Program Op ε α
  | fail (e : ε) : Program Op ε α
  | op {β : Type} (o : Op β) (k : β → Program Op ε α) : Program Op ε α

namespace Program

variable {Op : Type → Type} {ε σ τ α β : Type}

def bind : Program Op ε α → (α → Program Op ε β) → Program Op ε β
  | ret a, f => f a
  | fail e, _ => fail e
  | op o k, f => op o fun b => bind (k b) f

instance : Monad (Program Op ε) where
  pure := ret
  bind := bind

/-- A single operation. -/
def perform (o : Op α) : Program Op ε α := op o ret

def runWith (h : ∀ {β : Type}, Op β → EStateM ε σ β) : Program Op ε α → EStateM ε σ α
  | ret a => pure a
  | fail e => throw e
  | op o k => do runWith h (k (← h o))

section

variable (h : ∀ {β : Type}, Op β → EStateM ε σ β)

@[simp] theorem runWith_pure (a : α) : runWith h (pure a : Program Op ε α) = pure a := rfl

@[simp] theorem runWith_fail (e : ε) : runWith h (fail e : Program Op ε α) = throw e := rfl

@[simp] theorem runWith_perform (o : Op α) : runWith h (perform o : Program Op ε α) = h o := by
  rw [perform, runWith]
  exact bind_pure (h o)

@[simp] theorem runWith_bind (f : α → Program Op ε β) :
    ∀ x : Program Op ε α, runWith h (x >>= f) = (runWith h x >>= fun a => runWith h (f a))
  | ret a => rfl
  | fail e => rfl
  | op o k => by
    show (h o >>= fun b => runWith h (k b >>= f)) = ((h o >>= fun b => runWith h (k b)) >>= _)
    rw [bind_assoc]
    exact bind_congr fun b => runWith_bind f (k b)

@[simp] theorem runWith_ite {c : Prop} [Decidable c] (x y : Program Op ε α) :
    runWith h (if c then x else y) = if c then runWith h x else runWith h y := by split <;> rfl

end

end Program

/-- What every operation keeps, every program keeps. -/
theorem Run.Keeps.program {Op : Type → Type} {ε σ κ α : Type} {π : σ → κ}
    {h : ∀ {β : Type}, Op β → EStateM ε σ β} (hop : ∀ {β : Type} (o : Op β), Run.Keeps π (h o)) :
    ∀ p : Program Op ε α, Run.Keeps π (p.runWith h)
  | .ret a => .pure a
  | .fail e => .throw e
  | .op o k => (hop o).bind fun b => program hop (k b)
