/-
Programs that pass a state along and may stop with an error, and what they ensure. `Ensures x Q` says
that `x`, from any state, either ends in a later state with a result that satisfies `Q`, or stops
with an error that is allowed. Which states are later and which errors are allowed is the same for a
whole development, so both are in a class.
-/
import Mathlib.Order.Basic
import Mathlib.Data.List.Perm.Basic
import Mathlib.Data.Set.Insert

namespace Wago

/-- States that only move forward, and the errors a program may stop with. -/
class Metered (σ ε : Type) where
  Later : σ → σ → Prop
  refl : ∀ s, Later s s
  trans : ∀ {s t u}, Later s t → Later t u → Later s u
  Allowed : ε → Prop

namespace Metered

variable {σ ε α β : Type} [Metered σ ε]

def Outcome (s : σ) (Q : α → Prop) : Except ε (α × σ) → Prop
  | .ok (a, t) => Later ε s t ∧ Q a
  | .error e => Allowed σ e

def Ensures (x : StateT σ (Except ε) α) (Q : α → Prop) : Prop :=
  ∀ s, Outcome s Q (x s)

theorem Ensures.result {x : StateT σ (Except ε) α} {Q : α → Prop} (h : Ensures x Q) {s t : σ} {a : α}
    (hx : x s = .ok (a, t)) : Later ε s t ∧ Q a := by
  have := h s
  rwa [hx] at this

theorem Ensures.mono {x : StateT σ (Except ε) α} {Q R : α → Prop} (h : Ensures x Q)
    (hQR : ∀ a, Q a → R a) : Ensures x R := by
  intro s
  have hs := h s
  rcases hx : x s with e | ⟨a, t⟩
  · rw [hx] at hs
    exact hs
  · rw [hx] at hs
    exact ⟨hs.1, hQR a hs.2⟩

theorem ensures_pure {Q : α → Prop} {a : α} (h : Q a) :
    Ensures (pure a : StateT σ (Except ε) α) Q :=
  fun s => ⟨refl s, h⟩

theorem Ensures.bind {x : StateT σ (Except ε) α} {f : α → StateT σ (Except ε) β} {Q : α → Prop}
    {R : β → Prop} (hx : Ensures x Q) (hf : ∀ a, Q a → Ensures (f a) R) : Ensures (x >>= f) R := by
  intro s
  change Outcome s R ((x s).bind fun p => f p.1 p.2)
  have hs := hx s
  rcases hxs : x s with e | ⟨a, t⟩
  · rw [hxs] at hs
    exact hs
  · rw [hxs] at hs
    have ht := hf a hs.2 t
    change Outcome s R (f a t)
    rcases hft : f a t with e | ⟨b, u⟩
    · rw [hft] at ht
      exact ht
    · rw [hft] at ht
      exact ⟨trans hs.1 ht.1, ht.2⟩

theorem Ensures.ite {c : Prop} [Decidable c] {x y : StateT σ (Except ε) α} {Q : α → Prop}
    (hx : c → Ensures x Q) (hy : ¬ c → Ensures y Q) : Ensures (if c then x else y) Q := by
  split
  · next h => exact hx h
  · next h => exact hy h

/-- A loop, with an invariant that knows what has been processed. -/
theorem ensures_foldlM {f : β → α → StateT σ (Except ε) β} (I : List α → β → Prop)
    {l : List α} (hstep : ∀ done a rest b, l = done ++ a :: rest → I done b →
      Ensures (f b a) (I (done ++ [a]))) {b : β} (hb : I [] b) :
    Ensures (l.foldlM f b) (I l) := by
  suffices h : ∀ rest done b, l = done ++ rest → I done b → Ensures (rest.foldlM f b) (I l) from
    h l [] b rfl hb
  intro rest
  induction rest with
  | nil =>
    intro done b hl hI
    rw [List.foldlM_nil]
    exact ensures_pure (by rwa [hl, List.append_nil])
  | cons a rest ih =>
    intro done b hl hI
    rw [List.foldlM_cons]
    refine (hstep done a rest b hl hI).bind fun b' hb' => ?_
    exact ih (done ++ [a]) b' (by rw [hl]; simp) hb'

/-- A loop over distinct elements whose order does not matter: the invariant knows their set. -/
theorem ensures_foldlM_set {f : β → α → StateT σ (Except ε) β} (I : Set α → β → Prop) {l : List α}
    (hl : l.Nodup) (hstep : ∀ D a b, a ∈ l → a ∉ D → I D b → Ensures (f b a) (I (insert a D)))
    {b : β} (hb : I ∅ b) : Ensures (l.foldlM f b) (I {a | a ∈ l}) := by
  refine ensures_foldlM (fun done b => I {a | a ∈ done} b) ?_ (by simpa using hb)
  intro done a rest b hsplit hI
  have hfresh : a ∉ {x | x ∈ done} := by
    rw [hsplit] at hl
    intro ha
    exact (List.nodup_append.1 hl).2.2 a ha a (List.mem_cons_self ..) rfl
  refine (hstep _ a b (by rw [hsplit]; simp) hfresh hI).mono fun b' hb' => ?_
  have hset : {x | x ∈ done ++ [a]} = insert a {x | x ∈ done} := by
    ext x
    simp [or_comm]
  rwa [hset]

end Metered

end Wago
