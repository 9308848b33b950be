/-
What holds at the invocation gate under every schedule: one owner at a time, no queue without
somebody who will hand the gate on, no handoff left behind by a caller that gave up, and no fast
owner after a revocation has returned.
-/
import Mathlib.Data.List.Nodup
import Wago.Runtime.InvocationGate

namespace Wago.Runtime

open Interleave List Function

variable {T : Type*}

/-- What a caller remembers of the word while it is between a load and its compare-and-swap. -/
def GatePc.Seen : GatePc → Prop
  | .claimCas _ seen => seen.handoff = true
  | .unlockCas _ _ seen => seen.waiters = false
  | .panicked => False
  | _ => True

/-- The gate's invariant. `o` is the owner. -/
structure GateInv (o : Option (T × GateMode)) (g : Gate T) (pc : T → GatePc) : Prop where
  owner : Owner GatePc.hold pc o
  held : g.word.held = true ↔ o ≠ none ∨ g.word.handoff = true
  handoff : g.word.handoff = true → o = none
  fast : g.word.fast = true ↔ ∃ t, o = some (t, .fast)
  nodup : g.queue.Nodup
  queued : ∀ t, t ∈ g.queue ↔ (pc t).parked = true ∧ g.granted t = false
  backed : g.queue ≠ [] → g.word.held = true ∧ g.word.waiters = true
  observed : g.revocationWaiters = true → g.word.fast = true ∧ g.word.waiters = true
  claimant : g.word.handoff = true → ∃ t, g.notified = some t ∧ (pc t).claiming (g.granted t) = true
  seen : ∀ t, (pc t).Seen

theorem gateInv_start : GateInv none (Gate.new : Gate T) fun _ => .idle where
  owner := by
    intro t m
    simp [GatePc.hold]
  held := by simp [Gate.new, GateWord.zero]
  handoff := fun _ => rfl
  fast := by simp [Gate.new, GateWord.zero]
  nodup := nodup_nil
  queued := by simp [Gate.new, GatePc.parked]
  backed := fun h => absurd rfl h
  observed := by simp [Gate.new]
  claimant := by simp [Gate.new, GateWord.zero]
  seen := fun _ => trivial

namespace GateInv

variable {o : Option (T × GateMode)} {g : Gate T} {pc : T → GatePc} {t : T} {p : GatePc}
  {m : GateMode} (h : GateInv o g pc)

include h

/-! ## Reading the invariant -/

theorem free_owner (hw : g.word.held = false) : o = none := by
  by_contra ho
  rw [h.held.2 (.inl ho)] at hw
  cases hw

theorem free_queue (hw : g.word.held = false) : g.queue = [] := by
  by_contra hq
  rw [(h.backed hq).1] at hw
  cases hw

theorem no_observers (ho : o = none) : g.revocationWaiters = false := by
  by_contra hr
  obtain ⟨u, hu⟩ := h.fast.1 (h.observed (by simpa using hr)).1
  rw [ho] at hu
  cases hu

theorem owner_eq (ht : (pc t).hold = some m) : o = some (t, m) :=
  (h.owner t m).1 ht

theorem owner_held (ht : (pc t).hold = some m) : g.word.held = true :=
  h.held.2 (.inl (by rw [h.owner_eq ht]; simp))

theorem owner_handoff (ht : (pc t).hold = some m) : g.word.handoff = false := by
  by_contra hh
  have := h.handoff (by simpa using hh)
  rw [h.owner_eq ht] at this
  cases this

variable [DecidableEq T]

/-! ## One caller moves -/

/-- A move between control points without a waiter. -/
structure Aside (q p : GatePc) : Prop where
  source : q.parked = false
  target : p.parked = false
  seen : p.Seen

variable {q : GatePc}

theorem queued_aside (hpc : pc t = q) (ha : Aside q p) (u : T) :
    u ∈ g.queue ↔ (Function.update pc t p u).parked = true ∧ g.granted u = false := by
  by_cases hu : u = t
  · simp [hu, h.queued, hpc, ha.source, ha.target]
  · rw [update_of_ne hu]
    exact h.queued u

theorem seen_update (hp : p.Seen) (u : T) : (Function.update pc t p u).Seen := by
  by_cases hu : u = t
  · rw [hu, update_self]
    exact hp
  · rw [update_of_ne hu]
    exact h.seen u

/-- A caller that is not the notified one leaves the claim to the one that is. -/
theorem claimant_update (hp : (pc t).claiming (g.granted t) = false)
    (hw : g.word.handoff = true) : ∃ u, u ≠ t ∧ g.notified = some u ∧
      (Function.update pc t p u).claiming (g.granted u) = true := by
  obtain ⟨u, hn, hu⟩ := h.claimant hw
  have hne : u ≠ t := by
    rintro rfl
    rw [hp] at hu
    cases hu
  refine ⟨u, hne, hn, ?_⟩
  rw [update_of_ne hne]
  exact hu

/-- A step that leaves the shared state as it is. -/
theorem quiet (hpc : pc t = q) (hhold : p.hold = q.hold)
    (hpark : (p.parked = true ∧ g.granted t = false) ↔ q.parked = true ∧ g.granted t = false)
    (hclaim : g.word.handoff = true → q.claiming (g.granted t) = true → p.claiming (g.granted t) = true)
    (hseen : p.Seen) : ∃ o', GateInv o' g (Function.update pc t p) := by
  subst hpc
  refine ⟨o, { h with
    owner := h.owner.keep hhold
    queued := fun u => ?_
    claimant := fun hw => ?_
    seen := h.seen_update hseen }⟩
  · by_cases hu : u = t
    · rw [hu, update_self, hpark]
      exact h.queued t
    · rw [update_of_ne hu]
      exact h.queued u
  · obtain ⟨u, hn, hu⟩ := h.claimant hw
    refine ⟨u, hn, ?_⟩
    by_cases hut : u = t
    · subst hut
      rw [update_self]
      exact hclaim hw hu
    · rw [update_of_ne hut]
      exact hu

/-- A step that changes nothing shared, from a control point that neither waits nor was notified. -/
theorem idle (hpc : pc t = q) (hhold : p.hold = q.hold) (ha : Aside q p)
    (hclaim : ∀ granted, q.claiming granted = false) : ∃ o', GateInv o' g (Function.update pc t p) :=
  h.quiet hpc hhold (by simp [ha.source, ha.target]) (by simp [hclaim]) ha.seen

/-- A caller takes the free gate. -/
theorem acquire (hpc : pc t = q) (ha : Aside q p) {w : GateWord}
    (hfree : g.word.held = false) (hw : w.held = true ∧ w.handoff = false ∧ (w.fast = true ↔ m = .fast))
    (hhold : p.hold = some m) : ∃ o', GateInv o' (g.setWord w) (Function.update pc t p) := by
  obtain ⟨hheld, hhand, hfast⟩ := hw
  refine ⟨some (t, m), ?_, ?_, ?_, ?_, h.nodup, h.queued_aside hpc ha, ?_, ?_, ?_, h.seen_update ha.seen⟩
  · have howner := h.owner
    rw [h.free_owner hfree] at howner
    exact howner.take hhold
  · simp [Gate.setWord, hheld]
  · simp [Gate.setWord, hhand]
  · simp [Gate.setWord, hfast]
  · exact fun hq => absurd (h.free_queue hfree) hq
  · intro hr
    have hnone := h.no_observers (h.free_owner hfree)
    simp [Gate.setWord, hnone] at hr
  · simp [Gate.setWord, hhand]

/-- A caller claims the pending handoff. -/
theorem claim (hpc : pc t = q) (ha : Aside q p) (hhand : g.word.handoff = true)
    (hhold : p.hold = some .ordinary) :
    ∃ o', GateInv o' (g.setWord { g.word with handoff := false }) (Function.update pc t p) := by
  have hnone := h.handoff hhand
  have howner := h.owner
  have hfast := h.fast
  rw [hnone] at howner hfast
  exact ⟨some (t, .ordinary), { h with
    owner := howner.take hhold
    held := by simp [Gate.setWord, h.held, hhand]
    handoff := by simp [Gate.setWord]
    fast := by simp [Gate.setWord, hfast]
    queued := h.queued_aside hpc ha
    claimant := by simp [Gate.setWord]
    seen := h.seen_update ha.seen }⟩

/-- The owner lets go of a gate at which nobody waits. -/
theorem release (hpc : pc t = q) (ha : Aside q p) {w : GateWord}
    (hhold : q.hold = some m) (hp : p.hold = none) (hwait : g.word.waiters = false)
    (hw : w.held = false ∧ w.handoff = false ∧ w.fast = false) :
    ∃ o', GateInv o' (g.setWord w) (Function.update pc t p) := by
  subst hpc
  obtain ⟨hheld, hhand, hfast⟩ := hw
  refine ⟨none, h.owner.drop hhold hp, ?_, fun _ => rfl, ?_, h.nodup, h.queued_aside rfl ha, ?_, ?_, ?_,
    h.seen_update ha.seen⟩
  · simp [Gate.setWord, hheld, hhand]
  · simp [Gate.setWord, hfast]
  · intro hq
    have := (h.backed hq).2
    rw [hwait] at this
    cases this
  · intro hr
    have := (h.observed hr).2
    rw [hwait] at this
    cases this
  · simp [Gate.setWord, hhand]

/-! ## The sections of the mutex -/

theorem enqueue {ctx : Bool} (hheld : g.word.held = true) (hpc : pc t = .join ctx) :
    GateInv o
      { g with
        word := { g.word with waiters := true }
        queue := g.queue ++ [t]
        granted := Function.update g.granted t false }
      (Function.update pc t (.waiting ctx)) :=
  { h with
    owner := h.owner.keep (by rw [hpc]; rfl)
    nodup := by
      have hnot : t ∉ g.queue := by
        rw [h.queued, hpc]
        rintro ⟨hpark, -⟩
        cases hpark
      exact List.Nodup.append h.nodup (nodup_singleton t) (by simpa using hnot)
    queued := by
      intro u
      by_cases hu : u = t
      · subst hu
        simp [GatePc.parked]
      · simp [hu, h.queued u]
    backed := fun _ => ⟨hheld, rfl⟩
    observed := fun hr => ⟨(h.observed hr).1, rfl⟩
    claimant := by
      intro hw
      obtain ⟨u, hne, hn, hu⟩ := h.claimant_update (p := .waiting ctx) (by rw [hpc]; rfl) hw
      refine ⟨u, hn, ?_⟩
      simp only [update_of_ne hne] at hu ⊢
      exact hu
    seen := h.seen_update trivial }

/-- A cancelled caller takes its waiter out of the queue. -/
theorem leave (hmem : t ∈ g.queue) (hpc : pc t = .cancelled) :
    GateInv o (g.removeWaiterLocked t).updateWaiterBitLocked (Function.update pc t .failed) :=
  { h with
    owner := h.owner.keep (by rw [hpc]; rfl)
    nodup := h.nodup.erase t
    queued := by
      intro u
      simp only [Gate.updateWaiterBitLocked, Gate.setWord, Gate.removeWaiterLocked,
        h.nodup.mem_erase_iff]
      by_cases hu : u = t
      · subst hu
        simp [GatePc.parked]
      · simp [hu, h.queued u]
    backed := by
      intro hq
      refine ⟨(h.backed (ne_nil_of_mem hmem)).1, ?_⟩
      simpa [Gate.updateWaiterBitLocked, Gate.setWord] using Or.inl hq
    observed := by
      intro hr
      refine ⟨(h.observed hr).1, ?_⟩
      simpa [Gate.updateWaiterBitLocked, Gate.setWord] using Or.inr hr
    claimant := by
      intro hw
      have hgranted := ((h.queued t).1 hmem).2
      obtain ⟨u, -, hn, hu⟩ := h.claimant_update (by rw [hpc, hgranted]; rfl) hw
      exact ⟨u, hn, hu⟩
    seen := h.seen_update trivial }

omit h in
theorem unlockLocked_nil (hr : g.revocationWaiters = true → g.word.fast = true)
    (hq : g.queue = []) :
    g.unlockLocked.word = GateWord.onlyRevoked g.word ∧ g.unlockLocked.queue = [] ∧
      g.unlockLocked.granted = g.granted ∧ g.unlockLocked.revocationWaiters = false := by
  cases hf : g.word.fast <;> cases hw : g.revocationWaiters <;>
    simp_all [Gate.unlockLocked, Gate.updateWaiterBitLocked, Gate.setWord, GateWord.onlyRevoked,
      GateWord.zero]

omit h in
theorem unlockLocked_cons {w : T} {rest : List T}
    (hr : g.revocationWaiters = true → g.word.fast = true) (hq : g.queue = w :: rest) :
    g.unlockLocked.word =
        { GateWord.onlyRevoked g.word with held := true, handoff := true, waiters := !rest.isEmpty } ∧
      g.unlockLocked.queue = rest ∧ g.unlockLocked.granted = Function.update g.granted w true ∧
      g.unlockLocked.revocationWaiters = false ∧ g.unlockLocked.notified = some w := by
  cases hf : g.word.fast <;> cases hw : g.revocationWaiters <;>
    simp_all [Gate.unlockLocked, Gate.updateWaiterBitLocked, Gate.setWord]

/-- The slow unlock frees the gate, or hands it to the oldest waiter. -/
theorem unlockSlow (hpc : pc t = q) (ha : Aside q p) (hhold : q.hold = some m)
    (hp : p.hold = none) : GateInv none g.unlockLocked (Function.update pc t p) := by
  have howner : Owner GatePc.hold (Function.update pc t p) none := h.owner.drop (hpc ▸ hhold) hp
  have hqueued := h.queued_aside hpc ha
  cases hq : g.queue with
  | nil =>
    obtain ⟨hword, hqueue, hgranted, hrev⟩ := unlockLocked_nil (fun hr => (h.observed hr).1) hq
    refine ⟨howner, ?_, fun _ => rfl, ?_, ?_, ?_, ?_, ?_, ?_, h.seen_update ha.seen⟩
    · simp [hword, GateWord.onlyRevoked, GateWord.zero]
    · simp [hword, GateWord.onlyRevoked, GateWord.zero]
    · rw [hqueue]
      exact nodup_nil
    · rw [hqueue, hgranted, ← hq]
      exact hqueued
    · exact fun hne => absurd hqueue hne
    · simp [hrev]
    · simp [hword, GateWord.onlyRevoked, GateWord.zero]
  | cons w rest =>
    obtain ⟨hword, hqueue, hgranted, hrev, hnot⟩ := unlockLocked_cons (fun hr => (h.observed hr).1) hq
    have hnodup := h.nodup
    rw [hq] at hnodup hqueued
    obtain ⟨hw, hrest⟩ := nodup_cons.1 hnodup
    have hwpark := (hqueued w).1 mem_cons_self
    refine ⟨howner, ?_, fun _ => rfl, ?_, ?_, ?_, ?_, ?_, ?_, h.seen_update ha.seen⟩
    · simp [hword]
    · simp [hword, GateWord.onlyRevoked, GateWord.zero]
    · rw [hqueue]
      exact hrest
    · intro u
      rw [hqueue, hgranted]
      by_cases hu : u = w
      · subst hu
        simp [hw]
      · rw [update_of_ne hu, ← hqueued u]
        simp [hu]
    · intro hne
      rw [hqueue] at hne
      simpa [hword] using hne
    · simp [hrev]
    · intro _
      refine ⟨w, hnot, ?_⟩
      rw [hgranted, update_self]
      have hpw := hwpark.1
      generalize Function.update pc t p w = x at hpw ⊢
      cases x <;> simp_all [GatePc.parked, GatePc.claiming]

/-- A revocation that finds a fast owner waits for its release. -/
theorem revokeWait (hfast : g.word.fast = true) {ch : ℕ} {changed : Option ℕ}
    {channels : ℕ} (hpc : pc t = .revoke) :
    GateInv o
      { g with
        word := { g.word with revoked := true, waiters := g.word.waiters || g.word.fast }
        revocationWaiters := true
        changed := changed
        channels := channels }
      (Function.update pc t (.revokeWait ch)) :=
  { h with
    owner := h.owner.keep (by rw [hpc]; rfl)
    queued := h.queued_aside hpc ⟨rfl, rfl, trivial⟩
    backed := by
      intro hq
      refine ⟨(h.backed hq).1, ?_⟩
      simp [hfast]
    observed := fun _ => ⟨hfast, by simp [hfast]⟩
    claimant := by
      intro hw
      obtain ⟨u, -, hn, hu⟩ := h.claimant_update (by rw [hpc]; rfl) hw
      exact ⟨u, hn, hu⟩
    seen := h.seen_update trivial }

theorem revokeDone (hpc : pc t = .revoke) {w : GateWord}
    (hheld : w.held = g.word.held) (hhand : w.handoff = g.word.handoff)
    (hfast : w.fast = g.word.fast) :
    GateInv o (g.setWord w).updateWaiterBitLocked (Function.update pc t .revokeDone) where
  owner := h.owner.keep (by rw [hpc]; rfl)
  held := by
    simp only [Gate.updateWaiterBitLocked, Gate.setWord, hheld, hhand]
    exact h.held
  handoff := by
    simp only [Gate.updateWaiterBitLocked, Gate.setWord, hhand]
    exact h.handoff
  fast := by
    simp only [Gate.updateWaiterBitLocked, Gate.setWord, hfast]
    exact h.fast
  nodup := h.nodup
  queued := h.queued_aside hpc ⟨rfl, rfl, trivial⟩
  backed := by
    intro hq
    have hq' : g.queue ≠ [] := hq
    simp [Gate.updateWaiterBitLocked, Gate.setWord, hheld, (h.backed hq').1, hq']
  observed := by
    intro hr
    have hr' : g.revocationWaiters = true := hr
    simp [Gate.updateWaiterBitLocked, Gate.setWord, hfast, (h.observed hr').1, hr']
  claimant := by
    intro hw
    simp only [Gate.updateWaiterBitLocked, Gate.setWord, hhand] at hw
    obtain ⟨u, -, hn, hu⟩ := h.claimant_update (by rw [hpc]; rfl) hw
    exact ⟨u, hn, hu⟩
  seen := h.seen_update trivial

/-! ## Every step of every caller -/

/-- The invariant holds after every one of the outcomes of a step of `t`. -/
def Keeps (pc : T → GatePc) (t : T) (outcomes : List (Gate T × GatePc)) : Prop :=
  ∀ r ∈ outcomes, ∃ o', GateInv o' r.1 (Function.update pc t r.2)

omit h in
theorem Keeps.one {r : Gate T × GatePc} (h : ∃ o', GateInv o' r.1 (Function.update pc t r.2)) :
    Keeps pc t [r] := forall_mem_singleton.2 h

theorem joinStep {ctx : Bool} (hpc : pc t = .join ctx) :
    ∃ o', GateInv o' (joinLocked t g ctx).1 (Function.update pc t (joinLocked t g ctx).2) := by
  unfold joinLocked
  by_cases hheld : g.word.held = true
  · rw [if_neg (by simp [hheld]), Gate.enqueueWaiterLocked, if_pos hheld]
    exact ⟨o, h.enqueue hheld hpc⟩
  · simp only [Bool.not_eq_true] at hheld
    simp only [hheld, h.free_queue hheld, Bool.not_false, isEmpty_nil, Bool.and_self, if_true]
    exact h.acquire (m := .ordinary) hpc ⟨rfl, rfl, by trivial⟩ hheld
      (by simp [GateWord.onlyRevoked, GateWord.zero]) rfl

theorem cancelStep (hpc : pc t = .cancelled) :
    ∃ o', GateInv o' (cancelLocked t g).1 (Function.update pc t (cancelLocked t g).2) := by
  unfold cancelLocked
  by_cases hmem : t ∈ g.queue
  · simp only [hmem, if_true]
    exact ⟨o, h.leave hmem hpc⟩
  · -- a waiter that is no longer queued was granted
    have hgranted : g.granted t = true := by
      by_contra hg
      exact hmem ((h.queued t).2 ⟨by rw [hpc]; rfl, by simpa using hg⟩)
    simp only [hmem, hgranted, if_true, if_false]
    exact h.quiet hpc rfl (by simp [hgranted]) (fun _ _ => rfl) trivial

theorem claimStep {w : GateClaim} (hpc : pc t = .claim w) :
    Keeps pc t (gateNext t g (.claim w)) := by
  refine forall_branch (fun hhand => ?_) fun hhand => ?_
  · exact h.quiet hpc rfl (by simp [GatePc.parked]) (by cases w <;> exact fun _ hc => hc) hhand
  · refine h.quiet hpc ?_ ?_ (fun hw => absurd hw hhand) ?_
    · cases w <;> rfl
    · cases w <;> simp [GateClaim.lost, GatePc.parked]
    · cases w <;> trivial

theorem claimCasStep {w : GateClaim} {seen : GateWord}
    (hpc : pc t = .claimCas w seen) : Keeps pc t (gateNext t g (.claimCas w seen)) := by
  refine forall_branch (fun hword => ?_) fun _ => ?_
  · subst hword
    have hhand := h.seen t
    rw [hpc] at hhand
    refine h.claim hpc ⟨rfl, ?_, ?_⟩ hhand ?_ <;> cases w <;> first | rfl | trivial
  · exact h.quiet hpc rfl (by simp [GatePc.parked]) (by cases w <;> exact fun _ hc => hc) trivial

theorem revokeStep (hpc : pc t = .revoke) : Keeps pc t (gateNext t g .revoke) := by
  by_cases hfast : g.word.fast = true
  · cases hch : g.changed <;>
      (simp only [gateNext, Gate.revokeLocked, hch, if_pos hfast]
       exact .one ⟨o, h.revokeWait hfast hpc⟩)
  · simp only [gateNext, Gate.revokeLocked, if_neg hfast]
    exact .one ⟨o, h.revokeDone hpc rfl rfl rfl⟩

/-- A waiter leaves its wait granted, or with its context cancelled. -/
theorem waitingStep {ctx : Bool} (hpc : pc t = .waiting ctx) :
    Keeps pc t (gateNext t g (.waiting ctx)) :=
  forall_mem_append.2
    ⟨forall_guard fun hgranted => h.quiet hpc rfl (by simp [hgranted]) (fun _ _ => rfl) trivial,
      forall_guard fun _ => h.quiet hpc rfl Iff.rfl (fun _ hc => hc) trivial⟩

/-- A release with the lock-free compare-and-swap goes through if nobody waits. -/
theorem unlockCasStep {k : AfterUnlock} {seen : GateWord}
    (hpc : pc t = .unlockCas m k seen) : Keeps pc t (gateNext t g (.unlockCas m k seen)) := by
  refine forall_branch (fun hword => ?_) fun _ => h.idle hpc rfl ⟨rfl, rfl, trivial⟩ fun _ => rfl
  have hwait := h.seen t
  rw [hpc] at hwait
  rw [← hword] at hwait
  exact h.release (m := m) hpc ⟨rfl, by cases k <;> rfl, by cases k <;> trivial⟩ rfl (by cases k <;> rfl) hwait
    ⟨rfl, rfl, rfl⟩

theorem endDirectStep (hpc : pc t = .endDirect m) :
    Keeps pc t (gateNext t g (.endDirect m)) := by
  refine forall_mem_cons.2 ⟨h.idle hpc rfl ⟨rfl, rfl, trivial⟩ fun _ => rfl, forall_guard fun hword => ?_⟩
  have hwait : g.word.waiters = false := by
    rw [hword]
    cases m <;> rfl
  exact h.release (m := m) hpc ⟨rfl, rfl, by trivial⟩ rfl rfl hwait ⟨rfl, rfl, rfl⟩

theorem unlockSlowStep {k : AfterUnlock} (hpc : pc t = .unlockSlow m k) :
    Keeps pc t (gateNext t g (.unlockSlow m k)) := by
  -- the owner's word is held, so the panic is out of reach
  refine forall_branch (fun _ => ?_) fun hfree => absurd (h.owner_held (by rw [hpc]; rfl)) hfree
  exact ⟨_, h.unlockSlow (m := m) hpc ⟨rfl, by cases k <;> rfl, by cases k <;> trivial⟩ rfl (by cases k <;> rfl)⟩

/-- The step lemma. -/
theorem step (t : T) : Keeps pc t (gateNext t g (pc t)) := by
  -- a compare-and-swap of a caller that may take the gate, from a word that is free
  have hcas {q p p' : GatePc} {w w' : GateWord} {m : GateMode} (hpc : pc t = q) (hfree : w.held = false)
      (hw : w'.held = true ∧ w'.handoff = false ∧ (w'.fast = true ↔ m = .fast)) (hhold : p.hold = some m)
      (ha : Aside q p) (hother : ∃ o', GateInv o' g (Function.update pc t p')) :
      Keeps pc t (if g.word = w then [(g.setWord w', p)] else [(g, p')]) :=
    forall_branch (fun hword => h.acquire hpc ha (hword ▸ hfree) hw hhold) fun _ => hother
  cases hpc : pc t with
  | idle =>
    have hidle {p : GatePc} (hhold : p.hold = none) (ha : Aside .idle p) :=
      h.idle hpc hhold ha fun _ => rfl
    simp only [gateNext, Keeps, forall_mem_cons]
    exact ⟨hidle rfl ⟨rfl, rfl, trivial⟩, hidle rfl ⟨rfl, rfl, trivial⟩, hidle rfl ⟨rfl, rfl, trivial⟩,
      hidle rfl ⟨rfl, rfl, trivial⟩, hidle rfl ⟨rfl, rfl, trivial⟩, hidle rfl ⟨rfl, rfl, trivial⟩, by simp⟩
  | lock | lockCas | casFree ctx | casRevoked ctx =>
    exact hcas (m := .ordinary) hpc rfl (by decide) rfl ⟨rfl, rfl, trivial⟩
      (h.idle hpc rfl ⟨rfl, rfl, trivial⟩ fun _ => rfl)
  | lockLoad =>
    exact forall_branch (fun _ => h.idle hpc rfl ⟨rfl, rfl, trivial⟩ fun _ => rfl)
      fun _ => h.idle hpc rfl ⟨rfl, rfl, trivial⟩ fun _ => rfl
  | loopHead ctx | acquired ctx =>
    exact forall_mem_cons.2 ⟨h.idle hpc rfl ⟨rfl, rfl, trivial⟩ fun _ => rfl,
      forall_guard fun _ => h.idle hpc rfl ⟨rfl, rfl, trivial⟩ fun _ => rfl⟩
  | join ctx => exact .one (h.joinStep hpc)
  | waiting ctx => exact h.waitingStep hpc
  | cancelled => exact .one (h.cancelStep hpc)
  | claim w => exact h.claimStep hpc
  | claimCas w seen => exact h.claimCasStep hpc
  | holding m =>
    exact forall_mem_cons.2 ⟨h.idle hpc rfl ⟨rfl, rfl, trivial⟩ fun _ => rfl,
      forall_mem_singleton.2 (h.idle hpc rfl ⟨rfl, rfl, trivial⟩ fun _ => rfl)⟩
  | endDirect m => exact h.endDirectStep hpc
  | unlock m k =>
    refine forall_branch (fun hword => ?_) fun _ => h.idle hpc rfl ⟨rfl, rfl, trivial⟩ fun _ => rfl
    have hwait : g.word.waiters = false := by simpa using (Bool.and_eq_true_iff.1 hword).2
    exact h.idle hpc rfl ⟨rfl, rfl, hwait⟩ fun _ => rfl
  | unlockCas m k seen => exact h.unlockCasStep hpc
  | unlockSlow m k => exact h.unlockSlowStep hpc
  | tryOrdinary | tryFast =>
    exact forall_mem_cons.2 ⟨h.idle hpc rfl ⟨rfl, rfl, trivial⟩ fun _ => rfl, forall_guard fun hword =>
      h.acquire hpc ⟨rfl, rfl, by trivial⟩ (by rw [hword]; rfl) (by decide) rfl⟩
  | revoke => exact h.revokeStep hpc
  | revokeWait ch => exact forall_guard fun _ => h.idle hpc rfl ⟨rfl, rfl, trivial⟩ fun _ => rfl
  | failed | revokeDone => exact .one (h.idle hpc rfl ⟨rfl, rfl, trivial⟩ fun _ => rfl)
  | panicked => exact fun r hr => nomatch hr

end GateInv

/-- The run lemma. -/
theorem gateInv_of_reachable [DecidableEq T] {c : GateConfig T} (hrun : Reachable gateNext gateStart c) :
    ∃ o, GateInv o c.shared c.pc :=
  hrun.invariant (I := fun c => ∃ o, GateInv o c.shared c.pc)
    (fun _ t ⟨_, hi⟩ r hr => hi.step t r hr) ⟨none, gateInv_start⟩

/-! ## Revocation -/

/-- Revoked, with no fast owner left. -/
def GateWord.Sealed (w : GateWord) : Prop := w.revoked = true ∧ w.fast = false

theorem unlockLocked_sealed {g : Gate T} [DecidableEq T] (h : g.word.Sealed) : g.unlockLocked.word.Sealed := by
  obtain ⟨hr, hf⟩ := h
  cases hq : g.queue <;>
    simp [Gate.unlockLocked, Gate.updateWaiterBitLocked, Gate.setWord, GateWord.onlyRevoked,
      GateWord.zero, GateWord.Sealed, hf, hq, hr]

theorem revokeLocked_sealed {g : Gate T} (h : g.word.fast = false) :
    g.revokeLocked.2 = none ∧ g.revokeLocked.1.word.Sealed := by
  simp [Gate.revokeLocked, Gate.updateWaiterBitLocked, Gate.setWord, GateWord.Sealed, h]

theorem joinLocked_sealed {g : Gate T} [DecidableEq T] (t : T) (ctx : Bool) (h : g.word.Sealed) :
    (joinLocked t g ctx).1.word.Sealed := by
  unfold joinLocked Gate.enqueueWaiterLocked
  split
  · exact ⟨h.1, rfl⟩
  · split
    · rename_i hg
      split at hg
      · cases hg
        exact h
      · cases hg
    · exact h

theorem cancelLocked_sealed {g : Gate T} [DecidableEq T] (t : T) (h : g.word.Sealed) :
    (cancelLocked t g).1.word.Sealed := by
  unfold cancelLocked
  split
  · exact h
  · split <;> exact h

/-- No step unseals the word: the fast admission needs a word that was never revoked. -/
theorem sealed_step {g : Gate T} [DecidableEq T] (t : T) (p : GatePc) (h : g.word.Sealed) :
    ∀ r ∈ gateNext t g p, r.1.word.Sealed := by
  have hzero : g.word ≠ .zero := by
    intro hw
    rw [hw] at h
    exact absurd h.1 (by decide)
  cases p with
  | idle | lockLoad | loopHead _ | waiting _ | acquired _ | failed | claim _ | holding _ | unlock _ _
    | revokeWait _ | revokeDone | panicked =>
    intro r hr
    have hsame : r.1 = g := by
      simp only [gateNext] at hr
      grind
    rw [hsame]
    exact h
  | lock | casFree _ => exact forall_branch (fun hword => absurd hword hzero) fun _ => h
  | tryOrdinary | tryFast => exact forall_mem_cons.2 ⟨h, forall_guard fun hword => absurd hword hzero⟩
  | lockCas | casRevoked _ => exact forall_branch (fun _ => ⟨rfl, rfl⟩) fun _ => h
  | claimCas _ seen => exact forall_branch (fun hword => hword ▸ h) fun _ => h
  | unlockCas _ _ seen => exact forall_branch (fun hword => ⟨(hword ▸ h).1, rfl⟩) fun _ => h
  | endDirect m =>
    refine forall_mem_cons.2 ⟨h, forall_guard fun hw => ?_⟩
    rw [hw] at h
    cases m <;> exact absurd h.1 (by decide)
  | unlockSlow m k => exact forall_branch (fun _ => unlockLocked_sealed h) fun _ => h
  | join ctx => exact forall_mem_singleton.2 (joinLocked_sealed t ctx h)
  | cancelled => exact forall_mem_singleton.2 (cancelLocked_sealed t h)
  | revoke =>
    obtain ⟨hnone, hseal⟩ := revokeLocked_sealed h.2
    simp only [gateNext]
    split
    · rename_i heq
      rw [heq] at hnone
      cases hnone
    · rename_i heq
      rw [heq] at hseal
      exact forall_mem_singleton.2 hseal

/-- `revokeFast` returns from a section that found no fast owner. -/
theorem revokeDone_sealed {g : Gate T} [DecidableEq T] (t : T) {p : GatePc} {r : Gate T × GatePc}
    (hr : r ∈ gateNext t g p) (hdone : r.2 = .revokeDone) : r.1.word.Sealed := by
  by_cases hp : p = .revoke
  · subst hp
    by_cases hfast : g.word.fast = true
    · cases hch : g.changed <;> simp only [gateNext, Gate.revokeLocked, hch, if_pos hfast] at hr <;>
        (obtain rfl := mem_singleton.1 hr; cases hdone)
    · simp only [gateNext, Gate.revokeLocked, if_neg hfast] at hr
      obtain rfl := mem_singleton.1 hr
      exact ⟨rfl, eq_false_of_ne_true hfast⟩
  · -- no other control point leads there
    exfalso
    cases p with
    | claim w | claimCas w _ => cases w <;> simp only [gateNext, GateClaim.lost, GateClaim.won] at hr <;> grind
    | unlockCas _ k _ | unlockSlow _ k => cases k <;> simp only [gateNext, AfterUnlock.pc] at hr <;> grind
    | join ctx =>
      simp only [gateNext, joinLocked] at hr
      grind
    | cancelled =>
      simp only [gateNext, cancelLocked] at hr
      grind
    | revoke => exact hp rfl
    | _ =>
      simp only [gateNext] at hr
      grind

theorem sealed_of_revokeDone [DecidableEq T] {c : GateConfig T} (hrun : Reachable gateNext gateStart c) :
    ∀ t, c.pc t = .revokeDone → c.shared.word.Sealed := by
  refine hrun.invariant (I := fun c => ∀ t, c.pc t = .revokeDone → c.shared.word.Sealed) ?_ ?_
  · intro c t hi r hr u hu
    by_cases hut : u = t
    · subst hut
      rw [Config.set_pc, update_self] at hu
      exact revokeDone_sealed u hr hu
    · rw [Config.set_pc, update_of_ne hut] at hu
      exact sealed_step t _ (hi u hu) r hr
  · intro t ht
    cases ht

/-! ## The gate under every schedule -/

section Safe

variable [DecidableEq T]

/-- The caller's only step that gives the gate away is the slow section of `Unlock`. -/
def OnlySlowUnlock (g : Gate T) (t : T) (p : GatePc) : Prop :=
  ∀ r ∈ gateNext t g p, r.2.hold = none → ∃ m k, p = .unlockSlow m k

theorem onlySlowUnlock {g : Gate T} {t : T} {p : GatePc} {m : GateMode} (hseen : p.Seen)
    (hhold : p.hold = some m) (hwait : g.word.waiters = true) : OnlySlowUnlock g t p := by
  intro r hr hnone
  cases p with
  | unlockSlow m k => exact ⟨m, k, rfl⟩
  | endDirect m =>
    have hword : g.word ≠ m.admission := by
      intro hw
      rw [hw] at hwait
      cases m <;> cases hwait
    simp only [gateNext, if_neg hword] at hr
    obtain rfl := mem_singleton.1 hr
    cases hnone
  | unlockCas m k seen =>
    have hword : g.word ≠ seen := by
      rintro rfl
      rw [show g.word.waiters = false from hseen] at hwait
      cases hwait
    simp only [gateNext, if_neg hword] at hr
    obtain rfl := mem_singleton.1 hr
    cases hnone
  | acquired _ | holding _ | unlock _ _ =>
    simp only [gateNext] at hr
    exfalso
    grind [GatePc.hold]
  | _ => cases hhold

/-- The caller holds the gate. -/
def HoldsGate (c : GateConfig T) (t : T) : Prop := ∃ m, (c.pc t).hold = some m

/-- The caller was notified of the pending handoff, and its attempt to claim it is still before it. -/
def OwesClaim (c : GateConfig T) (t : T) : Prop :=
  c.shared.notified = some t ∧ (c.pc t).claiming (c.shared.granted t) = true

theorem invocationGate_safe {c : GateConfig T} (hrun : Reachable gateNext gateStart c) :
    (∀ t u, HoldsGate c t → HoldsGate c u → t = u) ∧
    (c.shared.word.handoff = true → (∀ t, ¬ HoldsGate c t) ∧ ∃ t, OwesClaim c t) ∧
    (c.shared.queue ≠ [] →
      (∃ t, HoldsGate c t ∧ OnlySlowUnlock c.shared t (c.pc t)) ∨ c.shared.word.handoff = true) ∧
    (∀ t, c.pc t = .failed → c.shared.word.held = true →
      (∃ u, u ≠ t ∧ HoldsGate c u) ∨ c.shared.word.handoff = true ∧ ∃ u, u ≠ t ∧ OwesClaim c u) ∧
    (∀ t, c.pc t = .revokeDone → ∀ d, Reachable gateNext c d → ∀ u, (d.pc u).hold ≠ some .fast) := by
  obtain ⟨o, hi⟩ := gateInv_of_reachable hrun
  have howner : o ≠ none → ∃ t m, (c.pc t).hold = some m := by
    intro ho
    obtain ⟨⟨t, m⟩, rfl⟩ := Option.ne_none_iff_exists'.1 ho
    exact ⟨t, m, (hi.owner t m).2 rfl⟩
  refine ⟨?_, ?_, ?_, ?_, ?_⟩
  · rintro t u ⟨m, ht⟩ ⟨n, hu⟩
    exact hi.owner.unique ht hu
  · intro hhand
    refine ⟨?_, hi.claimant hhand⟩
    rintro t ⟨m, ht⟩
    rw [hi.owner_handoff ht] at hhand
    cases hhand
  · intro hq
    obtain ⟨hheld, hwait⟩ := hi.backed hq
    rcases hi.held.1 hheld with ho | hhand
    · obtain ⟨t, m, ht⟩ := howner ho
      exact .inl ⟨t, ⟨m, ht⟩, onlySlowUnlock (hi.seen t) ht hwait⟩
    · exact .inr hhand
  · intro t hfailed hheld
    rcases hi.held.1 hheld with ho | hhand
    · obtain ⟨u, m, hu⟩ := howner ho
      refine .inl ⟨u, ?_, m, hu⟩
      rintro rfl
      rw [hfailed] at hu
      cases hu
    · obtain ⟨u, hn, hu⟩ := hi.claimant hhand
      refine .inr ⟨hhand, u, ?_, hn, hu⟩
      rintro rfl
      rw [hfailed] at hu
      cases hu
  · intro t hdone d hd u hu
    have hseal : d.shared.word.Sealed :=
      hd.invariant (I := fun d => d.shared.word.Sealed)
        (fun c t hs r hr => sealed_step t (c.pc t) hs r hr) (sealed_of_revokeDone hrun t hdone)
    obtain ⟨o', hi'⟩ := gateInv_of_reachable (hrun.trans hd)
    have hfast := hi'.fast.2 ⟨u, hi'.owner_eq hu⟩
    rw [hseal.2] at hfast
    cases hfast

/-- One caller unlocks while another waits: the handoff is pending and nobody holds the gate. -/
theorem invocationGate_safe_handoff :
    ∃ c : GateConfig Bool, Reachable gateNext gateStart c ∧ c.shared.word.handoff = true ∧
      (∀ t, ¬ HoldsGate c t) ∧ OwesClaim c true := by
  obtain ⟨c, hc⟩ : ∃ c, replay (fun _ => True) gateNext (gateStart : GateConfig Bool)
      [(false, 0), (false, 0), (true, 1), (true, 0), (true, 0), (true, 0), (true, 0), (true, 0),
        (false, 0), (false, 0), (false, 0)] = some c := ⟨_, rfl⟩
  have hrun := (reachableIn_of_replay hc).reachable
  have hhand : c.shared.word.handoff = true := by cases hc; rfl
  obtain ⟨hnone, -⟩ := (invocationGate_safe hrun).2.1 hhand
  refine ⟨c, hrun, hhand, hnone, ?_⟩
  cases hc
  exact ⟨rfl, rfl⟩

end Safe

end Wago.Runtime
