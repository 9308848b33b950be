/-
The invariant of closing an instance. Its safety part says in which order the flags are set, who is in
the middle of `finalize`, and that the released instance is held by nothing. Its other part is what
keeps a release from being lost: whenever something is still to be done, some thread is at a point of
its call from which it does it, or leaves it to one that does.
-/
import Wago.Runtime.InstanceLifecycle

namespace Wago.Runtime

open Interleave

variable {T : Type*}

/-! ## Flags and control points

`owned` is whether the instance had a managed owner when it started. -/

/-- The order in which the flags of a closing are set. -/
structure LifeFlags (owned : Bool) (s : Lifecycle T) : Prop where
  closing : s.word.closed = true → s.closing = true
  entry : s.closed = true → s.word.closed = true
  closed : s.prepared = true → s.closed = true
  prepared : s.terminalStarted = true → s.prepared = true
  started : s.terminalComplete = true → s.terminalStarted = true
  detached : s.terminalComplete = true → s.managed = false
  ofOwner : s.managed = true → owned = true
  published : owned = true → s.terminalStarted = true → s.completed = true
  manager : owned = true → s.managed = false → s.terminalStarted = true
  worker : s.worker = true → s.terminalStarted = true

/-- What a thread knows of the flags at its control point. -/
def LifePc.Knows (owned : Bool) (s : Lifecycle T) : LifePc → Prop
  | .closeCheck | .entryLoad => s.closing = true
  | .entryCas seen => s.closing = true ∧ seen.closed = false
  | .beginCas seen => seen.closed = false
  | .markClosed | .tryCount _ | .tryState _ | .tryPrepared _ => s.word.closed = true
  | .prepare => s.closed = true
  | .tryManaged _ => s.prepared = true
  | .tryCompleted _ => s.prepared = true ∧ owned = true
  | .tryStart _ managed =>
    s.prepared = true ∧ (managed = true → s.completed = true) ∧
      (managed = false → owned = true → s.terminalStarted = true)
  | .tryComplete _ | .terminal _ => s.terminalStarted = true
  | .terminalDone _ => s.terminalStarted = true ∧ s.managed = false
  | .finalize _ | .finalizeCheck _ | .releaseResources _ => s.terminalComplete = true
  | _ => True

/-- No flag of the closing is taken back. -/
structure Lifecycle.Grows (s s' : Lifecycle T) : Prop where
  closing : s.closing = true → s'.closing = true
  word : s.word.closed = true → s'.word.closed = true
  prepared : s.prepared = true → s'.prepared = true
  completed : s.completed = true → s'.completed = true
  terminalStarted : s.terminalStarted = true → s'.terminalStarted = true
  terminalComplete : s.terminalComplete = true → s'.terminalComplete = true
  closed : s.closed = true → s'.closed = true
  managed : s.managed = false → s'.managed = false

theorem Lifecycle.Grows.refl (s : Lifecycle T) : s.Grows s :=
  ⟨id, id, id, id, id, id, id, id⟩

theorem LifePc.Knows.mono {owned : Bool} {s s' : Lifecycle T} (hs : s.Grows s') :
    ∀ {p : LifePc}, p.Knows owned s → p.Knows owned s'
  | .closeCheck, h | .entryLoad, h => hs.closing h
  | .entryCas _, h => ⟨hs.closing h.1, h.2⟩
  | .beginCas _, h => h
  | .markClosed, h | .tryCount _, h | .tryState _, h | .tryPrepared _, h => hs.word h
  | .prepare, h => hs.closed h
  | .tryManaged _, h => hs.prepared h
  | .tryCompleted _, h => ⟨hs.prepared h.1, h.2⟩
  | .tryStart _ _, h =>
    ⟨hs.prepared h.1, fun hm => hs.completed (h.2.1 hm), fun hm ho => hs.terminalStarted (h.2.2 hm ho)⟩
  | .tryComplete _, h | .terminal _, h => hs.terminalStarted h
  | .terminalDone _, h => ⟨hs.terminalStarted h.1, hs.managed h.2⟩
  | .finalize _, h | .finalizeCheck _, h | .releaseResources _, h => hs.terminalComplete h
  | .idle, _ | .closeLoad, _ | .closeCas, _ | .complete, _
  | .managedRetry, _ | .tryConstruction _, _ | .tryClosed _, _ | .beginDirect, _ | .beginLoad, _
  | .lease, _ | .endDirect, _ | .endLoad, _ | .endCas _, _ | .retainRoot _, _ | .releaseRoot, _
  | .endConstruction, _ => trivial

theorem AfterFinalize.knows (k : AfterFinalize) (owned : Bool) (s : Lifecycle T) :
    k.pc.Knows owned s := by
  cases k <;> trivial

/-! ## Duties -/

/-- What is still to be done on the way to the release. -/
inductive Duty
  | prepare
  | publish
  | start
  | terminal
  | finalize

/-- No lease and no construction holds the release back. -/
def Lifecycle.Quiet (s : Lifecycle T) : Prop := s.word.count = 0 ∧ s.constructionActive = false

def Duty.Due (owned : Bool) (s : Lifecycle T) : Duty → Prop
  | .prepare => s.word.closed = true ∧ s.prepared = false
  | .publish => s.prepared = true ∧ s.completed = false
  | .start =>
    s.prepared = true ∧ s.Quiet ∧ s.terminalStarted = false ∧ (owned = true → s.completed = true)
  | .terminal => s.terminalStarted = true ∧ s.terminalComplete = false ∧ s.worker = false
  | .finalize =>
    s.terminalComplete = true ∧ s.Quiet ∧ s.resourceRefs = 0 ∧ s.resourcesClosed = false

/-- The thread is in `tryFinalize`, before its claim of the terminal close. -/
def LifePc.heading : LifePc → Bool
  | .tryConstruction _ | .tryClosed _ | .tryCount _ | .tryState _ | .tryPrepared _ | .tryManaged _
  | .tryCompleted _ | .tryStart _ _ => true
  | _ => false

/-- What follows `tryFinalize` at a control point inside it. -/
def LifePc.after : LifePc → Option AfterFinalize
  | .tryConstruction k | .tryClosed k | .tryCount k | .tryState k | .tryPrepared k | .tryManaged k
  | .tryCompleted k | .tryStart k _ | .tryComplete k | .terminal k | .terminalDone k | .finalize k
  | .finalizeCheck k | .releaseResources k => some k
  | _ => none

theorem LifePc.heading_point {p : LifePc} (h : p.heading = true) :
    p.holdsLease = false := by
  cases p <;> simp_all [LifePc.heading, LifePc.holdsLease]

theorem LifePc.after_point {p : LifePc} {k : AfterFinalize} (h : p.after = some k) :
    p.holdsLease = false := by
  cases p <;> simp_all [LifePc.holdsLease, LifePc.after]

/-- The control points that answer for a duty. -/
def Duty.Answers (owned : Bool) : Duty → LifePc → Prop
  | .prepare, p => p = .markClosed ∨ p = .prepare
  | .publish, p => p = .complete ∨ p.after = some .publish
  | .start, p => p.heading = true ∨ p = .managedRetry ∧ owned = true
  | .terminal, p => (∃ k, p = .terminal k) ∨ ∃ k, p = .terminalDone k
  | .finalize, p =>
    p.heading = true ∨ (∃ k, p = .tryComplete k) ∨ (∃ k, p = .finalize k) ∨ ∃ k, p = .finalizeCheck k

/-- Inside `tryFinalize` the result of close is published after it, and stays so. -/
theorem Duty.publish_after {owned : Bool} {p p' : LifePc} {k : AfterFinalize} (hfrom : p.after = some k)
    (hto : p' = k.pc ∨ p'.after = some k) (hd : Duty.publish.Answers owned p) :
    Duty.publish.Answers owned p' := by
  rcases hd with rfl | hd
  · cases hfrom
  · obtain rfl : k = .publish := Option.some.inj (hfrom.symm.trans hd)
    exact hto

/-- The thread is between the sections of `finalize`. -/
def LifePc.atCheck : LifePc → Option Unit
  | .finalizeCheck _ => some ()
  | _ => none

/-- The thread is about to start the physical release. -/
def LifePc.atRelease : LifePc → Option Unit
  | .releaseResources _ => some ()
  | _ => none

/-- The control points that answer for no duty. -/
def LifePc.free : LifePc → Bool
  | .idle | .closeLoad | .closeCas | .closeCheck | .entryLoad | .entryCas _ | .beginDirect
  | .beginLoad | .beginCas _ | .lease | .endDirect | .endLoad | .endCas _ | .retainRoot _
  | .releaseRoot | .endConstruction => true
  | _ => false

theorem LifePc.free_answers {owned : Bool} {p : LifePc} (h : p.free = true) (d : Duty) :
    ¬ d.Answers owned p := by
  cases p <;> cases d <;>
    simp_all [LifePc.free, Duty.Answers, LifePc.heading, LifePc.after]

theorem LifePc.heading_owns {p : LifePc} (h : p.heading = true) :
    p.atCheck = none ∧ p.atRelease = none := by
  cases p <;> simp_all [LifePc.heading, LifePc.atCheck, LifePc.atRelease]

theorem AfterFinalize.point (k : AfterFinalize) :
    k.pc.holdsLease = false ∧ k.pc.atCheck = none ∧ k.pc.atRelease = none := by
  cases k <;> exact ⟨rfl, rfl, rfl⟩

/-- How often physical release was started or is about to be. -/
def Lifecycle.Releases (s : Lifecycle T) (o : Option (T × Unit)) : Prop :=
  s.releases + (if o.isSome then 1 else 0) = if s.resourcesClosed then 1 else 0

structure LifeInv (owned : Bool) (s : Lifecycle T) (pc : T → LifePc) : Prop where
  flags : LifeFlags owned s
  knows : ∀ t, (pc t).Knows owned s
  leases : s.leases.Nodup ∧ s.word.count = s.leases.length ∧
    ∀ t, t ∈ s.leases ↔ (pc t).holdsLease = true
  check : ∃ o, Owner LifePc.atCheck pc o ∧ (s.finalizing = true ↔ o ≠ none)
  release : ∃ o, Owner LifePc.atRelease pc o ∧ s.Releases o
  drained : s.resourcesClosed = true →
    s.closed = true ∧ s.Quiet ∧ s.resourceRefs = 0
  duties : ∀ d : Duty, d.Due owned s → Covered (d.Answers owned) pc

theorem lifeInv_start (constructionActive managed hooks : Bool) :
    LifeInv managed (lifeStart (T := T) constructionActive managed hooks).shared
      (lifeStart (T := T) constructionActive managed hooks).pc where
  flags := by constructor <;> simp [lifeStart]
  knows := fun _ => trivial
  leases := by simp [lifeStart, LifePc.holdsLease]
  check := ⟨none, by intro t m; simp [lifeStart, LifePc.atCheck], by simp [lifeStart]⟩
  release := ⟨none, by intro t m; simp [lifeStart, LifePc.atRelease], rfl⟩
  drained := by simp [lifeStart]
  duties := by
    intro d hd
    cases d <;> simp [Duty.Due, lifeStart] at hd

namespace LifeInv

variable {owned : Bool} {s s' : Lifecycle T} {pc : T → LifePc} {t : T} {p q : LifePc} [DecidableEq T]
  (h : LifeInv owned s pc)

include h

theorem knows_update (hgrow : s.Grows s') (hknows : p.Knows owned s')
    (u : T) : (Function.update pc t p u).Knows owned s' := by
  by_cases hu : u = t
  · rw [hu, Function.update_self]
    exact hknows
  · rw [Function.update_of_ne hu]
    exact (h.knows u).mono hgrow

omit [DecidableEq T] in
theorem knows_at (hpc : pc t = q) : q.Knows owned s := hpc ▸ h.knows t

theorem leases_update (hpc : pc t = q) (hlease : p.holdsLease = q.holdsLease) :
    s.leases.Nodup ∧ s.word.count = s.leases.length ∧
      ∀ u, u ∈ s.leases ↔ (Function.update pc t p u).holdsLease = true := by
  refine ⟨h.leases.1, h.leases.2.1, fun u => ?_⟩
  by_cases hu : u = t
  · rw [hu, Function.update_self, hlease, ← hpc]
    exact h.leases.2.2 t
  · rw [Function.update_of_ne hu]
    exact h.leases.2.2 u

theorem check_update (hpc : pc t = q) (hcheck : p.atCheck = q.atCheck) :
    ∃ o, Owner LifePc.atCheck (Function.update pc t p) o ∧ (s.finalizing = true ↔ o ≠ none) := by
  obtain ⟨o, ho, hiff⟩ := h.check
  exact ⟨o, ho.keep (hpc ▸ hcheck), hiff⟩

theorem release_update (hpc : pc t = q) (hrelease : p.atRelease = q.atRelease) :
    ∃ o, Owner LifePc.atRelease (Function.update pc t p) o ∧ s.Releases o := by
  obtain ⟨o, ho, heq⟩ := h.release
  exact ⟨o, ho.keep (hpc ▸ hrelease), heq⟩

/-- A step that only moves the thread or sets flags of the closing. -/
theorem flagStep (hpc : pc t = q) (hgrow : s.Grows s')
    (hflags : LifeFlags owned s') (hknows : p.Knows owned s')
    (hsame : s'.word.count = s.word.count ∧ s'.leases = s.leases ∧ s'.finalizing = s.finalizing ∧
      s'.resourcesClosed = s.resourcesClosed ∧ s'.releases = s.releases ∧
      s'.resourceRefs = s.resourceRefs ∧ s'.constructionActive = s.constructionActive)
    (hpoint : p.holdsLease = q.holdsLease ∧ p.atCheck = q.atCheck ∧ p.atRelease = q.atRelease)
    (hduty : ∀ d : Duty, d.Due owned s' →
      d.Answers owned p ∨ d.Due owned s ∧ (d.Answers owned q → d.Answers owned p)) :
    LifeInv owned s' (Function.update pc t p) := by
  obtain ⟨hcount, hleases, hfin, hclosed, hrel, hrefs, hcons⟩ := hsame
  obtain ⟨hlease, hcheck, hrelease⟩ := hpoint
  refine ⟨hflags, h.knows_update hgrow hknows, ?_, ?_, ?_, ?_, ?_⟩
  · rw [hleases, hcount]
    exact h.leases_update hpc hlease
  · rw [hfin]
    exact h.check_update hpc hcheck
  · simp only [Lifecycle.Releases, hrel, hclosed]
    exact h.release_update hpc hrelease
  · intro hc
    rw [hclosed] at hc
    obtain ⟨h1, ⟨h2, h3⟩, h4⟩ := h.drained hc
    exact ⟨hgrow.closed h1, ⟨hcount.trans h2, hcons.trans h3⟩, hrefs.trans h4⟩
  · intro d
    exact Covered.step (h.duties d) (hpc ▸ hduty d)

/-- A step that only moves the thread. -/
theorem move (hpc : pc t = q) (hknows : p.Knows owned s)
    (hpoint : p.holdsLease = q.holdsLease ∧ p.atCheck = q.atCheck ∧ p.atRelease = q.atRelease)
    (hduty : ∀ d : Duty, d.Due owned s → d.Answers owned q → d.Answers owned p) :
    LifeInv owned s (Function.update pc t p) :=
  h.flagStep hpc (.refl s) h.flags hknows ⟨rfl, rfl, rfl, rfl, rfl, rfl, rfl⟩ hpoint
    fun d hd => .inr ⟨hd, hduty d hd⟩

/-- A step on through `tryFinalize`. -/
theorem ahead (hpc : pc t = q) (hfrom : q.heading = true)
    (hto : p.heading = true) (hafter : p.after = q.after) (hknows : p.Knows owned s) :
    LifeInv owned s (Function.update pc t p) := by
  refine h.move hpc hknows ?_ ?_
  · rw [LifePc.heading_point hfrom, (LifePc.heading_owns hfrom).1, (LifePc.heading_owns hfrom).2]
    exact ⟨LifePc.heading_point hto, LifePc.heading_owns hto⟩
  · intro d _ hd
    cases d with
    | prepare => rcases hd with rfl | rfl <;> cases hfrom
    | publish =>
      rcases hd with rfl | hd
      · cases hfrom
      · exact .inr (hafter.trans hd)
    | start => exact .inl hto
    | terminal => rcases hd with ⟨k, rfl⟩ | ⟨k, rfl⟩ <;> cases hfrom
    | finalize => exact .inl hto

variable {k : AfterFinalize}

/-- A return from `tryFinalize`, when it leaves nothing behind. -/
theorem back (hpc : pc t = q) (hafter : q.after = some k)
    (hcheck : q.atCheck = none) (hrelease : q.atRelease = none)
    (hstart : Duty.start.Due owned s → ¬ Duty.start.Answers owned q)
    (hterminal : Duty.terminal.Due owned s → ¬ Duty.terminal.Answers owned q)
    (hfinalize : Duty.finalize.Due owned s → ¬ Duty.finalize.Answers owned q) :
    LifeInv owned s (Function.update pc t k.pc) := by
  refine h.move hpc (k.knows owned s) ?_ ?_
  · rw [hcheck, hrelease, LifePc.after_point hafter]
    exact k.point
  · intro d hdue hd
    cases d with
    | prepare => rcases hd with rfl | rfl <;> cases hafter
    | publish => exact Duty.publish_after hafter (.inl rfl) hd
    | start => exact absurd hd (hstart hdue)
    | terminal => exact absurd hd (hterminal hdue)
    | finalize => exact absurd hd (hfinalize hdue)

/-! ## The steps of `tryFinalize` -/

/-- `tryFinalize` gives up while something holds the release back or close is not prepared. -/
theorem giveUp (hpc : pc t = q) (hafter : q.after = some k)
    (hfrom : q.heading = true) (hnot : ¬ (s.prepared = true ∧ s.Quiet)) :
    LifeInv owned s (Function.update pc t k.pc) := by
  have hpoint := LifePc.heading_owns hfrom
  refine h.back hpc hafter hpoint.1 hpoint.2 ?_ ?_ ?_
  · exact fun hdue => absurd ⟨hdue.1, hdue.2.1⟩ hnot
  · rintro - (⟨k, rfl⟩ | ⟨k, rfl⟩) <;> cases hfrom
  · exact fun hdue => absurd ⟨h.flags.prepared (h.flags.started hdue.1), hdue.2.1⟩ hnot

/-- The claim of the terminal close. -/
theorem startStep {m : Bool} (hpc : pc t = .tryStart k m) :
    ∀ r ∈ lifeNext t s (.tryStart k m), LifeInv owned r.1 (Function.update pc t r.2) := by
  obtain ⟨hprep, hcomp, hown⟩ : LifePc.Knows owned s (.tryStart k m) := h.knows_at hpc
  by_cases hstarted : s.terminalStarted = true
  · rw [lifeNext, if_pos hstarted, List.forall_mem_singleton]
    refine h.move hpc hstarted ⟨rfl, rfl, rfl⟩ ?_
    intro d hdue hd
    cases d with
    | prepare => rcases hd with hd | hd <;> cases hd
    | publish => exact Duty.publish_after rfl (.inr rfl) hd
    | start => exact absurd (hstarted.symm.trans hdue.2.2.1) (by decide)
    | terminal => rcases hd with ⟨k, hd⟩ | ⟨k, hd⟩ <;> cases hd
    | finalize => exact .inr (.inl ⟨k, rfl⟩)
  rw [lifeNext, if_neg hstarted]
  have hpub : owned = true → s.completed = true := by
    intro ho
    cases m with
    | true => exact hcomp rfl
    | false => exact absurd (hown rfl ho) hstarted
  have hclaim : ∀ {w : Bool} {p : LifePc}, p.Knows owned { s with terminalStarted := true, worker := w } →
      p.holdsLease = false ∧ p.atCheck = none ∧ p.atRelease = none → p = k.pc ∨ p.after = some k →
      (w = false → Duty.terminal.Answers owned p) →
      LifeInv owned { s with terminalStarted := true, worker := w } (Function.update pc t p) := by
    intro w p hknows hpoint hafter hterminal
    refine h.flagStep hpc ⟨id, id, id, id, fun _ => rfl, id, id, id⟩ ?_ hknows
      ⟨rfl, rfl, rfl, rfl, rfl, rfl, rfl⟩ hpoint ?_
    · exact { h.flags with
        prepared := fun _ => hprep
        started := fun _ => rfl
        published := fun ho _ => hpub ho
        manager := fun _ _ => rfl
        worker := fun _ => rfl }
    · intro d hdue
      cases d with
      | prepare => exact absurd (hprep.symm.trans hdue.2) (by decide)
      | publish => exact .inr ⟨hdue, Duty.publish_after rfl hafter⟩
      | start => exact absurd hdue.2.2.1 (by simp)
      | terminal => exact .inl (hterminal hdue.2.2)
      | finalize => exact absurd (h.flags.started hdue.1) hstarted
  -- the terminal close is left to a goroutine, or done by this thread
  refine forall_branch (fun _ => ?_) fun _ => ?_
  · exact hclaim (k.knows owned _) k.point (.inl rfl) nofun
  · exact hclaim rfl ⟨rfl, rfl, rfl⟩ (.inr rfl) fun _ => .inl ⟨k, rfl⟩

/-- The steps of `tryFinalize` up to the claim. -/
theorem headingStep (hpc : pc t = q) (hfrom : q.heading = true) :
    ∀ r ∈ lifeNext t s q, LifeInv owned r.1 (Function.update pc t r.2) := by
  have hknows := h.knows_at hpc
  cases q with
  | tryConstruction k =>
    exact forall_branch (fun hcons => h.giveUp hpc rfl rfl fun hq => by simp [hq.2.2] at hcons)
      fun _ => h.ahead hpc rfl rfl rfl trivial
  | tryClosed k =>
    exact forall_branch (fun hclosed => h.ahead hpc rfl rfl rfl hclosed)
      fun hclosed => h.giveUp hpc rfl rfl fun hq => hclosed (h.flags.entry (h.flags.closed hq.1))
  | tryCount k =>
    exact forall_branch (fun _ => h.ahead hpc rfl rfl rfl hknows)
      fun hcount => h.giveUp hpc rfl rfl fun hq => hcount hq.2.1
  | tryState k =>
    exact forall_branch (fun _ => h.ahead hpc rfl rfl rfl hknows)
      fun hopen => absurd (h.flags.closing hknows) hopen
  | tryPrepared k =>
    exact forall_branch (fun hprep => h.ahead hpc rfl rfl rfl hprep)
      fun hprep => h.giveUp hpc rfl rfl fun hq => hprep hq.1
  | tryManaged k =>
    refine forall_branch (fun hman => h.ahead hpc rfl rfl rfl ⟨hknows, h.flags.ofOwner hman⟩) fun hman => ?_
    exact h.ahead hpc rfl rfl rfl ⟨hknows, nofun, fun _ ho => h.flags.manager ho (by simpa using hman)⟩
  | tryCompleted k =>
    refine forall_branch (fun hcomp => h.ahead hpc rfl rfl rfl ⟨hknows.1, fun _ => hcomp, nofun⟩) fun hcomp => ?_
    -- the owner of close has not published its result, and will retry when it has
    refine h.back hpc rfl rfl rfl ?_ ?_ ?_
    · exact fun hdue => absurd (hdue.2.2.2 hknows.2) hcomp
    · rintro - (⟨k, hd⟩ | ⟨k, hd⟩) <;> cases hd
    · exact fun hdue => absurd (h.flags.published hknows.2 (h.flags.started hdue.1)) hcomp
  | tryStart k m => exact h.startStep hpc
  | _ => cases hfrom

theorem completeStep (hpc : pc t = .tryComplete k) :
    ∀ r ∈ lifeNext t s (.tryComplete k), LifeInv owned r.1 (Function.update pc t r.2) := by
  have hstarted : s.terminalStarted = true := h.knows_at hpc
  refine forall_branch (fun hcomplete => ?_) fun hcomplete => ?_
  · refine h.move hpc hcomplete ⟨rfl, rfl, rfl⟩ ?_
    intro d hdue hd
    cases d with
    | prepare => rcases hd with hd | hd <;> cases hd
    | publish => exact Duty.publish_after rfl (.inr rfl) hd
    | start => exact absurd (hstarted.symm.trans hdue.2.2.1) (by decide)
    | terminal => rcases hd with ⟨k, hd⟩ | ⟨k, hd⟩ <;> cases hd
    | finalize => exact .inr (.inr (.inl ⟨k, rfl⟩))
  · refine h.back hpc rfl rfl rfl ?_ ?_ ?_
    · exact fun hdue => absurd (hstarted.symm.trans hdue.2.2.1) (by decide)
    · rintro - (⟨k, hd⟩ | ⟨k, hd⟩) <;> cases hd
    · exact fun hdue => absurd hdue.1 hcomplete

/-- The terminal close detaches the manager. -/
theorem terminalStep (hpc : pc t = .terminal k) :
    LifeInv owned { s with managed := false } (Function.update pc t (.terminalDone k)) := by
  have hstarted : s.terminalStarted = true := h.knows_at hpc
  refine h.flagStep hpc ⟨id, id, id, id, id, id, id, fun _ => rfl⟩ ?_ ⟨hstarted, rfl⟩
    ⟨rfl, rfl, rfl, rfl, rfl, rfl, rfl⟩ ⟨rfl, rfl, rfl⟩ ?_
  · exact { h.flags with detached := fun _ => rfl, ofOwner := nofun, manager := fun _ _ => hstarted }
  · intro d hdue
    refine .inr ?_
    cases d with
    | prepare => exact ⟨hdue, by rintro (hd | hd) <;> cases hd⟩
    | publish => exact ⟨hdue, Duty.publish_after rfl (.inr rfl)⟩
    | start => exact absurd (hstarted.symm.trans hdue.2.2.1) (by decide)
    | terminal => exact ⟨hdue, fun _ => .inr ⟨k, rfl⟩⟩
    | finalize =>
      refine ⟨hdue, ?_⟩
      rintro (hd | ⟨k, hd⟩ | ⟨k, hd⟩ | ⟨k, hd⟩) <;> cases hd

/-- The terminal close says that it is done. -/
theorem terminalDoneStep (hpc : pc t = .terminalDone k) :
    LifeInv owned { s with terminalComplete := true } (Function.update pc t (.finalize k)) := by
  obtain ⟨hstarted, hman⟩ : s.terminalStarted = true ∧ s.managed = false := h.knows_at hpc
  refine h.flagStep hpc ⟨id, id, id, id, id, fun _ => rfl, id, id⟩ ?_ rfl
    ⟨rfl, rfl, rfl, rfl, rfl, rfl, rfl⟩ ⟨rfl, rfl, rfl⟩ ?_
  · exact { h.flags with started := fun _ => hstarted, detached := fun _ => hman }
  · intro d hdue
    cases d with
    | prepare => exact .inr ⟨hdue, by rintro (hd | hd) <;> cases hd⟩
    | publish => exact .inr ⟨hdue, Duty.publish_after rfl (.inr rfl)⟩
    | start => exact absurd (hstarted.symm.trans hdue.2.2.1) (by decide)
    | terminal => exact absurd hdue.2.1 (by simp)
    | finalize => exact .inl (.inr (.inr (.inl ⟨k, rfl⟩)))

/-! ## The sections of `finalize` -/

/-- Another thread between the sections of `finalize` will look again. -/
theorem covered_of_finalizing (hfin : s.finalizing = true)
    (hpc : (pc t).atCheck = none) : Covered (Duty.finalize.Answers owned) (Function.update pc t p) := by
  obtain ⟨o, ho, hiff⟩ := h.check
  obtain ⟨⟨u, ⟨⟩⟩, rfl⟩ := Option.ne_none_iff_exists'.1 (hiff.1 hfin)
  have hu : (pc u).atCheck = some () := (ho u ()).2 rfl
  have hut : u ≠ t := by
    rintro rfl
    rw [hpc] at hu
    cases hu
  refine ⟨u, ?_⟩
  rw [Function.update_of_ne hut]
  cases hpu : pc u with
  | finalizeCheck k => exact .inr (.inr (.inr ⟨k, rfl⟩))
  | _ => simp [hpu, LifePc.atCheck] at hu

omit [DecidableEq T] in
/-- Once the terminal close is complete, what was to be done before it is done. -/
theorem duty_late (hcomplete : s.terminalComplete = true) {d : Duty}
    (hd : d.Due owned s) : d = .publish ∨ d = .finalize := by
  have hstarted := h.flags.started hcomplete
  cases d with
  | prepare => exact absurd ((h.flags.prepared hstarted).symm.trans hd.2) (by decide)
  | publish => exact .inl rfl
  | start => exact absurd (hstarted.symm.trans hd.2.2.1) (by decide)
  | terminal => exact absurd (hcomplete.symm.trans hd.2.1) (by decide)
  | finalize => exact .inr rfl

theorem claimStep (hpc : pc t = .finalize k) :
    LifeInv owned (finalizeClaim s k).1 (Function.update pc t (finalizeClaim s k).2) := by
  have hcomplete : s.terminalComplete = true := h.knows_at hpc
  have hstarted := h.flags.started hcomplete
  have hclosed := h.flags.closed (h.flags.prepared hstarted)
  unfold finalizeClaim
  split
  · rename_i hskip
    simp only [hclosed, Bool.not_true, Bool.false_or, Bool.or_eq_true, bne_iff_ne] at hskip
    refine ⟨h.flags, h.knows_update (.refl s) (k.knows owned s), ?_, ?_, ?_, h.drained, ?_⟩
    · exact h.leases_update hpc k.point.1
    · exact h.check_update hpc k.point.2.1
    · exact h.release_update hpc k.point.2.2
    · intro d hdue
      rcases h.duty_late hcomplete hdue with rfl | rfl
      · exact (h.duties _ hdue).keep (hpc ▸ Duty.publish_after rfl (.inl rfl))
      · -- only a thread between the sections keeps this one from its claim
        have hfin : s.finalizing = true := by
          obtain ⟨-, ⟨hcount, hcons⟩, -, hopen⟩ : Duty.finalize.Due owned s := hdue
          simpa [hcount, hcons, hopen] using hskip
        exact h.covered_of_finalizing hfin (by rw [hpc]; rfl)
  · rename_i hclaim
    simp only [Bool.or_eq_true, not_or, Bool.not_eq_true, Bool.not_eq_true'] at hclaim
    obtain ⟨⟨⟨⟨-, hfin⟩, -⟩, -⟩, -⟩ := hclaim
    refine ⟨{ h.flags with }, h.knows_update ⟨id, id, id, id, id, id, id, id⟩ hcomplete, ?_, ?_, ?_, h.drained, ?_⟩
    · exact h.leases_update hpc rfl
    · obtain ⟨o, ho, hiff⟩ := h.check
      have hnone : o = none := by
        by_contra hne
        rw [hiff.2 hne] at hfin
        cases hfin
      subst hnone
      exact ⟨some (t, ()), ho.take rfl, by simp⟩
    · exact h.release_update hpc rfl
    · intro d hdue
      have hdue' : d.Due owned s := by cases d <;> exact hdue
      rcases h.duty_late hcomplete hdue' with rfl | rfl
      · exact (h.duties _ hdue').keep (hpc ▸ Duty.publish_after rfl (.inr rfl))
      · exact .here (.inr (.inr (.inr ⟨k, rfl⟩)))

theorem checkStep (hpc : pc t = .finalizeCheck k) :
    LifeInv owned (finalizeRelease s k).1 (Function.update pc t (finalizeRelease s k).2) := by
  have hcomplete : s.terminalComplete = true := h.knows_at hpc
  have hstarted := h.flags.started hcomplete
  have hclosed := h.flags.closed (h.flags.prepared hstarted)
  -- this thread was the one between the sections, and no longer is
  have hchecked : ∀ {p : LifePc}, p.atCheck = none →
      ∃ o, Owner LifePc.atCheck (Function.update pc t p) o ∧ (false = true ↔ o ≠ none) := by
    intro p hp
    obtain ⟨o, ho, -⟩ := h.check
    exact ⟨none, ho.drop (m := ()) (by rw [hpc]; rfl) hp, by simp⟩
  have hpublish : ∀ {p : LifePc}, p = k.pc ∨ p.after = some k →
      Duty.publish.Due owned s → Covered (Duty.publish.Answers owned) (Function.update pc t p) :=
    fun hp hdue => (h.duties _ hdue).keep (hpc ▸ Duty.publish_after rfl hp)
  unfold finalizeRelease
  split
  · rename_i hskip
    simp only [hclosed, Bool.not_true, Bool.or_eq_true, bne_iff_ne] at hskip
    refine ⟨{ h.flags with }, h.knows_update ⟨id, id, id, id, id, id, id, id⟩ (k.knows owned _), ?_, hchecked k.point.2.1, ?_,
      h.drained, ?_⟩
    · exact h.leases_update hpc k.point.1
    · exact h.release_update hpc k.point.2.2
    · intro d hdue
      have hdue' : d.Due owned s := by cases d <;> exact hdue
      rcases h.duty_late hcomplete hdue' with rfl | rfl
      · exact hpublish (.inl rfl) hdue'
      · obtain ⟨-, ⟨hcount, hcons⟩, hrefs, hopen⟩ := hdue'
        simp [hcount, hcons, hopen, hrefs] at hskip
  · rename_i hgo
    simp only [Bool.or_eq_true, not_or, Bool.not_eq_true, Bool.not_eq_true', bne_iff_ne, ne_eq,
      not_not] at hgo
    obtain ⟨⟨⟨⟨hopen, -⟩, hrefs⟩, hcons⟩, hcount⟩ := hgo
    refine ⟨{ h.flags with detached := fun _ => rfl, ofOwner := nofun, manager := fun _ _ => hstarted },
      h.knows_update ⟨id, id, id, id, id, id, id, fun _ => rfl⟩ hcomplete, ?_, hchecked rfl, ?_, ?_, ?_⟩
    · exact h.leases_update hpc rfl
    · obtain ⟨o, ho, heq⟩ := h.release
      simp only [Lifecycle.Releases, hopen, Bool.false_eq_true, if_false] at heq
      have hnone : o = none := by
        cases o with
        | none => rfl
        | some x => simp at heq
      subst hnone
      refine ⟨some (t, ()), ho.take rfl, ?_⟩
      simpa [Lifecycle.Releases] using heq
    · exact fun _ => ⟨hclosed, ⟨hcount, hcons⟩, hrefs⟩
    · intro d hdue
      cases d with
      | prepare => exact absurd ((h.flags.prepared hstarted).symm.trans hdue.2) (by decide)
      | publish => exact hpublish (.inr rfl) hdue
      | start => exact absurd (hstarted.symm.trans hdue.2.2.1) (by decide)
      | terminal => exact absurd (hcomplete.symm.trans hdue.2.1) (by decide)
      | finalize => exact absurd hdue.2.2.2 (by simp)

/-- The physical release starts. -/
theorem releaseStep (hpc : pc t = .releaseResources k) :
    LifeInv owned { s with releases := s.releases + 1 } (Function.update pc t k.pc) := by
  have hcomplete : s.terminalComplete = true := h.knows_at hpc
  refine ⟨{ h.flags with }, h.knows_update ⟨id, id, id, id, id, id, id, id⟩ (k.knows owned _), ?_, ?_, ?_, h.drained, ?_⟩
  · exact h.leases_update hpc k.point.1
  · exact h.check_update hpc k.point.2.1
  · obtain ⟨o, ho, heq⟩ := h.release
    have hat : (pc t).atRelease = some () := by rw [hpc]; rfl
    rw [(ho t ()).1 hat] at heq
    refine ⟨none, ho.drop hat k.point.2.2, ?_⟩
    simpa [Lifecycle.Releases] using heq
  · intro d hdue
    have hdue' : d.Due owned s := by cases d <;> exact hdue
    rcases h.duty_late hcomplete hdue' with rfl | rfl
    · exact (h.duties _ hdue').keep (hpc ▸ Duty.publish_after rfl (.inl rfl))
    · refine (h.duties _ hdue').keep ?_
      rw [hpc]
      rintro (hd | ⟨k, hd⟩ | ⟨k, hd⟩ | ⟨k, hd⟩) <;> cases hd

end LifeInv

end Wago.Runtime
