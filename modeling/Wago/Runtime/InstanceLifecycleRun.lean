/-
The steps of `Close`, of leases, roots and construction keep the lifecycle's invariant, so it holds in
every run; from it the physical release is started once, late enough, and always.
-/
import Wago.Runtime.InstanceLifecycleSpec

namespace Wago.Runtime

open Interleave List

variable {T : Type*}

namespace LifeInv

variable {owned : Bool} {s s' : Lifecycle T} {pc : T → LifePc} {t : T} {p q : LifePc} [DecidableEq T]
  (h : LifeInv owned s pc)

include h

/-! ## The steps of `Close` -/

/-- A move away from a point that answers for nothing. -/
theorem freeMove (hpc : pc t = q) (hfree : q.free = true)
    (hknows : p.Knows owned s)
    (hpoint : p.holdsLease = q.holdsLease ∧ p.atCheck = q.atCheck ∧ p.atRelease = q.atRelease) :
    LifeInv owned s (Function.update pc t p) :=
  h.move hpc hknows hpoint fun d _ hd => absurd hd (LifePc.free_answers hfree d)

/-- `beginClose` wins its compare-and-swap. -/
theorem closeCasStep (hpc : pc t = .closeCas) :
    LifeInv owned { s with closing := true } (Function.update pc t .closeCheck) := by
  refine h.flagStep hpc ⟨fun _ => rfl, id, id, id, id, id, id, id⟩ ?_ rfl
    ⟨rfl, rfl, rfl, rfl, rfl, rfl, rfl⟩ ⟨rfl, rfl, rfl⟩ ?_
  · exact { h.flags with closing := fun _ => rfl }
  · intro d hdue
    have hdue' : d.Due owned s := by cases d <;> exact hdue
    exact .inr ⟨hdue', fun hd => absurd hd (LifePc.free_answers rfl d)⟩

/-- `closeOnce` closes the entry. -/
theorem entryCasStep (hpc : pc t = .entryCas s.word) :
    LifeInv owned { s with word := { s.word with closed := true } } (Function.update pc t .markClosed) := by
  refine h.flagStep hpc ⟨id, fun _ => rfl, id, id, id, id, id, id⟩ ?_ rfl
    ⟨rfl, rfl, rfl, rfl, rfl, rfl, rfl⟩ ⟨rfl, rfl, rfl⟩ ?_
  · exact { h.flags with closing := fun _ => (h.knows_at hpc).1, entry := fun _ => rfl }
  · intro d hdue
    have hnot : ¬ d.Answers owned (.entryCas s.word) := LifePc.free_answers rfl d
    cases d with
    | prepare => exact .inl (.inl rfl)
    | _ => exact .inr ⟨hdue, fun hd => absurd hd hnot⟩

/-- The instance is marked closed. -/
theorem markStep (hpc : pc t = .markClosed) :
    LifeInv owned { s with closed := true } (Function.update pc t .prepare) := by
  refine h.flagStep hpc ⟨id, id, id, id, id, id, fun _ => rfl, id⟩ ?_ rfl
    ⟨rfl, rfl, rfl, rfl, rfl, rfl, rfl⟩ ⟨rfl, rfl, rfl⟩ ?_
  · exact { h.flags with entry := fun _ => h.knows_at hpc, closed := fun _ => rfl }
  · intro d hdue
    have hdue' : d.Due owned s := by cases d <;> exact hdue
    cases d with
    | prepare => exact .inl (.inr rfl)
    | publish => exact .inr ⟨hdue', by rintro (hd | hd) <;> cases hd⟩
    | start => exact .inr ⟨hdue', by rintro (hd | ⟨hd, -⟩) <;> cases hd⟩
    | terminal => exact .inr ⟨hdue', by rintro (⟨k, hd⟩ | ⟨k, hd⟩) <;> cases hd⟩
    | finalize => exact .inr ⟨hdue', by rintro (hd | ⟨k, hd⟩ | ⟨k, hd⟩ | ⟨k, hd⟩) <;> cases hd⟩

/-- The close is prepared. -/
theorem prepareStep (hpc : pc t = .prepare) :
    LifeInv owned { s with prepared := true } (Function.update pc t (.tryConstruction .publish)) := by
  refine h.flagStep hpc ⟨id, id, fun _ => rfl, id, id, id, id, id⟩ ?_ trivial
    ⟨rfl, rfl, rfl, rfl, rfl, rfl, rfl⟩ ⟨rfl, rfl, rfl⟩ ?_
  · exact { h.flags with closed := fun _ => h.knows_at hpc, prepared := fun _ => rfl }
  · intro d hdue
    cases d with
    | prepare => exact absurd hdue.2 (by simp)
    | publish => exact .inl (.inr rfl)
    | start => exact .inl (.inl rfl)
    | terminal => exact .inr ⟨hdue, by rintro (⟨k, hd⟩ | ⟨k, hd⟩) <;> cases hd⟩
    | finalize => exact .inl (.inl rfl)

/-- The result is published. -/
theorem publishStep (hpc : pc t = .complete) :
    LifeInv owned { s with completed := true } (Function.update pc t .managedRetry) := by
  refine h.flagStep hpc ⟨id, id, id, fun _ => rfl, id, id, id, id⟩ ?_ trivial
    ⟨rfl, rfl, rfl, rfl, rfl, rfl, rfl⟩ ⟨rfl, rfl, rfl⟩ ?_
  · exact { h.flags with published := fun _ _ => rfl }
  · intro d hdue
    cases d with
    | prepare => exact .inr ⟨hdue, by rintro (hd | hd) <;> cases hd⟩
    | publish => exact absurd hdue.2 (by simp)
    | start =>
      by_cases ho : owned = true
      · exact .inl (.inr ⟨rfl, ho⟩)
      · obtain ⟨h1, h2, h3, -⟩ := hdue
        exact .inr ⟨⟨h1, h2, h3, fun ho' => absurd ho' ho⟩, by
          rintro (hd | ⟨hd, -⟩) <;> cases hd⟩
    | terminal => exact .inr ⟨hdue, by rintro (⟨k, hd⟩ | ⟨k, hd⟩) <;> cases hd⟩
    | finalize => exact .inr ⟨hdue, by rintro (hd | ⟨k, hd⟩ | ⟨k, hd⟩ | ⟨k, hd⟩) <;> cases hd⟩

/-- A managed instance is tried once more, any other one is left. -/
theorem retryStep (hpc : pc t = .managedRetry)
    (hp : s.managed = true ∧ p = .tryConstruction .done ∨ ¬ s.managed = true ∧ p = .idle) :
    LifeInv owned s (Function.update pc t p) := by
  have hpoint : p.Knows owned s ∧ p.holdsLease = false ∧ p.atCheck = none ∧ p.atRelease = none := by
    rcases hp with ⟨-, rfl⟩ | ⟨-, rfl⟩ <;> exact ⟨trivial, rfl, rfl, rfl⟩
  refine h.move hpc hpoint.1 hpoint.2 ?_
  intro d hdue hd
  cases d with
  | prepare => rcases hd with hd | hd <;> cases hd
  | publish => rcases hd with hd | hd <;> cases hd
  | terminal => rcases hd with ⟨k, hd⟩ | ⟨k, hd⟩ <;> cases hd
  | finalize => rcases hd with hd | ⟨k, hd⟩ | ⟨k, hd⟩ | ⟨k, hd⟩ <;> cases hd
  | start =>
    rcases hp with ⟨-, rfl⟩ | ⟨hman, rfl⟩
    · exact .inl rfl
    · rcases hd with hd | ⟨-, ho⟩
      · cases hd
      · exact absurd ((h.flags.manager ho (by simpa using hman)).symm.trans hdue.2.2.1) (by decide)

/-! ## Leases, roots and construction -/

omit [DecidableEq T] in
/-- While entry is open, nothing is due. -/
theorem duty_entry {d : Duty} (hd : d.Due owned s) : s.word.closed = true := by
  have hprep : ∀ hp : s.prepared = true, s.word.closed = true :=
    fun hp => h.flags.entry (h.flags.closed hp)
  cases d with
  | prepare => exact hd.1
  | publish => exact hprep hd.1
  | start => exact hprep hd.1
  | terminal => exact hprep (h.flags.prepared hd.1)
  | finalize => exact hprep (h.flags.prepared (h.flags.started hd.1))

/-- A thread that answers for nothing leaves what is due as it is. -/
theorem freeKeep (hfree : (pc t).free = true) (d : Duty)
    (hd : d.Due owned s) : Covered (d.Answers owned) (Function.update pc t p) :=
  (h.duties d hd).keep fun ha => absurd ha (LifePc.free_answers hfree d)

/-- A lease is taken through the open entry. -/
theorem leaseStep (hpc : pc t = q) (hopen : s.word.closed = false)
    (hfree : q.holdsLease = false) (hpoint : q.atCheck = none ∧ q.atRelease = none) :
    LifeInv owned
      { s with word := { s.word with count := s.word.count + 1 }, leases := t :: s.leases }
      (Function.update pc t .lease) := by
  have hnot : ∀ d : Duty, ¬ d.Due owned s := by
    intro d hd
    rw [h.duty_entry hd] at hopen
    cases hopen
  have hclosed : s.resourcesClosed = false := by
    by_contra hc
    have := h.flags.entry (h.drained (by simpa using hc)).1
    rw [hopen] at this
    cases this
  refine ⟨{ h.flags with }, h.knows_update ⟨id, id, id, id, id, id, id, id⟩ trivial, ?_, ?_, ?_, ?_, ?_⟩
  · obtain ⟨hnodup, hcount, hmem⟩ := h.leases
    have hnew : t ∉ s.leases := by
      intro ht
      rw [← hpc, (hmem t).1 ht] at hfree
      cases hfree
    refine ⟨nodup_cons.2 ⟨hnew, hnodup⟩, by simp [hcount], ?_⟩
    intro u
    by_cases hu : u = t
    · simp [hu, LifePc.holdsLease]
    · rw [Function.update_of_ne hu, ← hmem u]
      simp [hu]
  · exact h.check_update hpc hpoint.1.symm
  · exact h.release_update hpc hpoint.2.symm
  · intro hc
    exact absurd (hclosed.symm.trans hc) (by decide)
  · intro d hd
    have hopen' := hopen
    cases d with
    | prepare => exact absurd hd (hnot .prepare)
    | publish => exact absurd hd (hnot .publish)
    | start => exact absurd (hopen'.symm.trans (h.flags.entry (h.flags.closed hd.1))) (by decide)
    | terminal => exact absurd hd (hnot .terminal)
    | finalize =>
      have hprep := h.flags.prepared (h.flags.started hd.1)
      exact absurd (hopen'.symm.trans (h.flags.entry (h.flags.closed hprep))) (by decide)

/-- A lease is given back; the last one of a closed instance tries to finalize it. -/
theorem unleaseStep (hpc : pc t = q) (hlease : q.holdsLease = true)
    (hfree : q.free = true) (hpoint : q.atCheck = none ∧ q.atRelease = none)
    (hp : p = .idle ∨ p = .tryConstruction .done)
    (hlast : s.word.closed = true → s.word.count = 1 → p.heading = true) :
    LifeInv owned
      { s with word := { s.word with count := s.word.count - 1 }, leases := s.leases.erase t }
      (Function.update pc t p) := by
  obtain ⟨hnodup, hcount, hmem⟩ := h.leases
  have hin := (hmem t).2 (hpc ▸ hlease)
  have hpos : 0 < s.word.count := by
    rw [hcount]
    exact length_pos_of_mem hin
  have hpoint' : p.holdsLease = false ∧ p.atCheck = none ∧ p.atRelease = none := by
    rcases hp with rfl | rfl <;> exact ⟨rfl, rfl, rfl⟩
  refine ⟨{ h.flags with }, h.knows_update ⟨id, id, id, id, id, id, id, id⟩ (by rcases hp with rfl | rfl <;> trivial),
    ?_, ?_, ?_, ?_, ?_⟩
  · refine ⟨hnodup.erase t, ?_, ?_⟩
    · rw [length_erase_of_mem hin, hcount]
    · intro u
      rw [hnodup.mem_erase_iff]
      by_cases hu : u = t
      · simp [hu, hpoint'.1]
      · rw [Function.update_of_ne hu, ← hmem u]
        simp [hu]
  · exact h.check_update hpc (hpoint'.2.1.trans hpoint.1.symm)
  · exact h.release_update hpc (hpoint'.2.2.trans hpoint.2.symm)
  · intro hc
    have := (h.drained hc).2.1.1
    omega
  · intro d hd
    -- what became due with the last lease is taken up here
    have hhead : s.word.closed = true → s.word.count - 1 = 0 → p.heading = true :=
      fun hclosed hzero => hlast hclosed (by omega)
    cases d with
    | prepare => exact h.freeKeep (hpc ▸ hfree) .prepare hd
    | publish => exact h.freeKeep (hpc ▸ hfree) .publish hd
    | terminal => exact h.freeKeep (hpc ▸ hfree) .terminal hd
    | start => exact .here (.inl (hhead (h.flags.entry (h.flags.closed hd.1)) hd.2.1.1))
    | finalize =>
      have hprep := h.flags.prepared (h.flags.started hd.1)
      exact .here (.inl (hhead (h.flags.entry (h.flags.closed hprep)) hd.2.1.1))

/-- A root or the construction is taken or given up while the resources are still open: only starting
and finalizing can become due by it. -/
theorem holdStep {refs : Nat} {active : Bool} (hpc : pc t = q)
    (hfree : q.free = true) (hknows : ∀ s', p.Knows owned (s' : Lifecycle T))
    (hpoint : p.holdsLease = q.holdsLease ∧ p.atCheck = q.atCheck ∧ p.atRelease = q.atRelease)
    (hopen : s.resourcesClosed = true → False)
    (hstart : Duty.start.Due owned { s with resourceRefs := refs, constructionActive := active } →
      p.heading = true ∨ Duty.start.Due owned s)
    (hfinalize : Duty.finalize.Due owned { s with resourceRefs := refs, constructionActive := active } →
      p.heading = true) :
    LifeInv owned { s with resourceRefs := refs, constructionActive := active }
      (Function.update pc t p) := by
  have hkeep : ∀ d : Duty, d.Due owned s → Covered (d.Answers owned) (Function.update pc t p) :=
    h.freeKeep (hpc ▸ hfree)
  refine ⟨{ h.flags with }, h.knows_update ⟨id, id, id, id, id, id, id, id⟩ (hknows _),
    h.leases_update hpc hpoint.1, h.check_update hpc hpoint.2.1, h.release_update hpc hpoint.2.2,
    fun hc => absurd hc hopen, ?_⟩
  intro d hd
  cases d with
  | prepare => exact hkeep .prepare hd
  | publish => exact hkeep .publish hd
  | terminal => exact hkeep .terminal hd
  | start =>
    rcases hstart hd with hhead | hdue
    · exact .here (.inl hhead)
    · exact hkeep .start hdue
  | finalize => exact .here (.inl (hfinalize hd))

theorem retainStep {f : Bool} (hpc : pc t = .retainRoot f) :
    LifeInv owned (retainResourceRoot s f) (Function.update pc t .idle) := by
  unfold retainResourceRoot
  split
  · exact h.freeMove hpc rfl trivial ⟨rfl, rfl, rfl⟩
  · rename_i hallow
    simp only [Bool.or_eq_true, not_or, Bool.not_eq_true] at hallow
    refine h.holdStep hpc rfl (fun _ => trivial) ⟨rfl, rfl, rfl⟩ ?_ .inr ?_
    · exact fun hc => absurd (hallow.1.1.symm.trans hc) (by decide)
    · exact fun hd => absurd hd.2.2.1 (by simp)

theorem rootStep (hpc : pc t = .releaseRoot) :
    LifeInv owned (releaseResourceRoot s).1 (Function.update pc t (releaseResourceRoot s).2) := by
  unfold releaseResourceRoot
  split
  · exact h.freeMove hpc rfl trivial ⟨rfl, rfl, rfl⟩
  · rename_i hrefs
    refine h.holdStep hpc rfl (fun _ => by split <;> trivial) (by split <;> exact ⟨rfl, rfl, rfl⟩) ?_
      .inr ?_
    · exact fun hc => absurd (h.drained hc).2.2 hrefs
    · intro hd
      have hclosed := h.flags.closed (h.flags.prepared (h.flags.started hd.1))
      rw [if_pos hclosed]
      rfl

theorem constructionStep (hpc : pc t = .endConstruction)
    (hcons : s.constructionActive = true) :
    LifeInv owned { s with constructionActive := false }
      (Function.update pc t (.tryConstruction .done)) := by
  refine h.holdStep hpc rfl (fun _ => trivial) ⟨rfl, rfl, rfl⟩ ?_ (fun _ => .inl rfl) (fun _ => rfl)
  exact fun hc => absurd (hcons.symm.trans (h.drained hc).2.1.2) (by decide)

/-- A thread takes up the terminal close that was left to a goroutine. -/
theorem workerStep (hpc : pc t = .idle) (hworker : s.worker = true) :
    LifeInv owned { s with worker := false } (Function.update pc t (.terminal .done)) := by
  have hstarted := h.flags.worker hworker
  refine h.flagStep hpc ⟨id, id, id, id, id, id, id, id⟩ ?_ hstarted
    ⟨rfl, rfl, rfl, rfl, rfl, rfl, rfl⟩ ⟨rfl, rfl, rfl⟩ ?_
  · exact { h.flags with worker := nofun }
  · intro d hd
    have hnot : ¬ d.Answers owned .idle := LifePc.free_answers rfl d
    cases d with
    | terminal => exact .inl (.inl ⟨.done, rfl⟩)
    | _ => exact .inr ⟨hd, fun hd => absurd hd hnot⟩

omit [DecidableEq T] in
/-- A thread that holds a lease is counted. -/
theorem count_ne_zero (hlease : (pc t).holdsLease = true) : s.word.count ≠ 0 := by
  have := length_pos_of_mem ((h.leases.2.2 t).2 hlease)
  rw [h.leases.2.1]
  omega

/-- The step lemma. -/
theorem step (t : T) :
    ∀ r ∈ lifeNext t s (pc t), LifeInv owned r.1 (Function.update pc t r.2) := by
  generalize hpc : pc t = q
  have hknows := h.knows_at hpc
  cases q with
  | idle =>
    refine forall_mem_append.2 ⟨?_, forall_guard fun hworker => h.workerStep hpc hworker⟩
    simp only [forall_mem_cons]
    refine ⟨?_, ?_, ?_, ?_, ?_, ?_, ?_, forall_mem_nil _⟩ <;>
      exact h.freeMove hpc rfl trivial ⟨rfl, rfl, rfl⟩
  | closeLoad =>
    exact forall_branch (fun _ => h.freeMove hpc rfl trivial ⟨rfl, rfl, rfl⟩)
      fun _ => h.freeMove hpc rfl trivial ⟨rfl, rfl, rfl⟩
  | closeCas =>
    exact forall_branch (fun _ => h.freeMove hpc rfl trivial ⟨rfl, rfl, rfl⟩) fun _ => h.closeCasStep hpc
  | closeCheck =>
    exact forall_branch (fun _ => h.freeMove hpc rfl trivial ⟨rfl, rfl, rfl⟩)
      fun _ => h.freeMove hpc rfl hknows ⟨rfl, rfl, rfl⟩
  | entryLoad =>
    exact forall_branch (fun hword => h.freeMove hpc rfl hword ⟨rfl, rfl, rfl⟩)
      fun hword => h.freeMove hpc rfl ⟨hknows, by simpa using hword⟩ ⟨rfl, rfl, rfl⟩
  | entryCas seen =>
    refine forall_branch ?_ fun _ => h.freeMove hpc rfl hknows.1 ⟨rfl, rfl, rfl⟩
    rintro rfl
    exact h.entryCasStep hpc
  | markClosed => exact forall_mem_singleton.2 (h.markStep hpc)
  | prepare => exact forall_mem_singleton.2 (h.prepareStep hpc)
  | complete => exact forall_mem_singleton.2 (h.publishStep hpc)
  | managedRetry =>
    exact forall_branch (fun hman => h.retryStep hpc (.inl ⟨hman, rfl⟩))
      fun hman => h.retryStep hpc (.inr ⟨hman, rfl⟩)
  | tryConstruction _ | tryClosed _ | tryCount _ | tryState _ | tryPrepared _ | tryManaged _
    | tryCompleted _ | tryStart _ _ => exact h.headingStep hpc rfl
  | tryComplete k => exact h.completeStep hpc
  | terminal k => exact forall_mem_singleton.2 (h.terminalStep hpc)
  | terminalDone k => exact forall_mem_singleton.2 (h.terminalDoneStep hpc)
  | finalize k => exact forall_mem_singleton.2 (h.claimStep hpc)
  | finalizeCheck k => exact forall_mem_singleton.2 (h.checkStep hpc)
  | releaseResources k => exact forall_mem_singleton.2 (h.releaseStep hpc)
  | beginDirect =>
    refine forall_mem_append.2 ⟨?_, forall_guard fun hword => ?_⟩
    · simp only [forall_mem_cons]
      refine ⟨?_, ?_, forall_mem_nil _⟩ <;> exact h.freeMove hpc rfl trivial ⟨rfl, rfl, rfl⟩
    · have hlease := h.leaseStep hpc (by rw [hword]) rfl ⟨rfl, rfl⟩
      rw [hword] at hlease
      exact hlease
  | beginLoad =>
    refine forall_branch (fun _ => h.freeMove hpc rfl trivial ⟨rfl, rfl, rfl⟩) fun hopen => ?_
    simp only [Bool.or_eq_true, not_or, Bool.not_eq_true] at hopen
    exact h.freeMove hpc rfl hopen.1 ⟨rfl, rfl, rfl⟩
  | beginCas seen =>
    refine forall_branch ?_ fun _ => h.freeMove hpc rfl trivial ⟨rfl, rfl, rfl⟩
    rintro rfl
    exact h.leaseStep hpc hknows rfl ⟨rfl, rfl⟩
  | lease =>
    simp only [lifeNext, forall_mem_cons]
    refine ⟨?_, ?_, forall_mem_nil _⟩ <;> exact h.freeMove hpc rfl trivial ⟨rfl, rfl, rfl⟩
  | endDirect =>
    refine forall_mem_cons.2 ⟨h.freeMove hpc rfl trivial ⟨rfl, rfl, rfl⟩, forall_guard fun hword => ?_⟩
    have hgive := h.unleaseStep hpc rfl rfl ⟨rfl, rfl⟩ (.inl rfl) (by rw [hword]; simp)
    rw [hword] at hgive
    exact hgive
  | endLoad =>
    exact forall_branch (fun hzero => absurd hzero (h.count_ne_zero (t := t) (by rw [hpc]; rfl)))
      fun _ => h.freeMove hpc rfl trivial ⟨rfl, rfl, rfl⟩
  | endCas seen =>
    refine forall_branch ?_ fun _ => h.freeMove hpc rfl trivial ⟨rfl, rfl, rfl⟩
    rintro rfl
    refine h.unleaseStep hpc rfl rfl ⟨rfl, rfl⟩ ?_ ?_
    · dsimp only
      split <;> simp
    · intro hclosed hone
      simp [hclosed, hone, LifePc.heading]
  | retainRoot f => exact forall_mem_singleton.2 (h.retainStep hpc)
  | releaseRoot => exact forall_mem_singleton.2 (h.rootStep hpc)
  | endConstruction =>
    exact forall_branch (fun hcons => h.constructionStep hpc hcons)
      fun _ => h.freeMove hpc rfl trivial ⟨rfl, rfl, rfl⟩

end LifeInv

variable {c : LifeConfig T}

/-- The run lemma. -/
theorem lifeInv_of_reachable [DecidableEq T] {constructionActive managed hooks : Bool}
    (hrun : Reachable lifeNext (lifeStart constructionActive managed hooks) c) :
    LifeInv managed c.shared c.pc :=
  hrun.invariant (I := fun c => LifeInv managed c.shared c.pc) (fun _ t h => h.step t)
    (lifeInv_start ..)

/-! ## The release under every schedule -/

theorem resourcesClosed_step [DecidableEq T] {t : T} {s : Lifecycle T} {p : LifePc} {r : Lifecycle T × LifePc}
    (hr : r ∈ lifeNext t s p) (hs : s.resourcesClosed = true) : r.1.resourcesClosed = true := by
  cases p with
  | idle =>
    simp only [lifeNext, mem_append, mem_cons] at hr
    grind
  | retainRoot f =>
    simp only [lifeNext, retainResourceRoot, hs, Bool.true_or, if_true] at hr
    grind
  | _ =>
    simp only [lifeNext, releaseResourceRoot, finalizeClaim, finalizeRelease] at hr
    grind

/-- Nothing holds the resources of the instance. -/
def Unheld (c : LifeConfig T) : Prop :=
  (∀ t, (c.pc t).holdsLease = false) ∧ c.shared.word.count = 0 ∧ c.shared.resourceRefs = 0 ∧
    c.shared.constructionActive = false

theorem unheld_of_resourcesClosed {owned : Bool} (h : LifeInv owned c.shared c.pc)
    (hclosed : c.shared.resourcesClosed = true) : Unheld c := by
  obtain ⟨-, ⟨hcount, hcons⟩, hrefs⟩ := h.drained hclosed
  refine ⟨?_, hcount, hrefs, hcons⟩
  intro t
  by_contra hlease
  have hmem := (h.leases.2.2 t).2 (by simpa using hlease)
  have := length_pos_of_mem hmem
  have := h.leases.2.1
  omega

/-- The calls have returned, and no terminal close is left to a goroutine. -/
def Returned (c : LifeConfig T) : Prop := (∀ t, c.pc t = .idle) ∧ c.shared.worker = false

theorem not_due_of_returned {owned : Bool} (h : LifeInv owned c.shared c.pc) (hret : Returned c) (d : Duty) :
    ¬ d.Due owned c.shared := by
  intro hd
  obtain ⟨t, ht⟩ := h.duties d hd
  rw [hret.1 t] at ht
  exact LifePc.free_answers rfl d ht

/-- A closed instance whose calls have returned and that nothing holds is released. -/
theorem resourcesClosed_of_returned {owned : Bool} (h : LifeInv owned c.shared c.pc) (hret : Returned c)
    (hclosed : c.shared.word.closed = true) (hheld : Unheld c) : c.shared.resourcesClosed = true := by
  obtain ⟨-, hcount, hrefs, hcons⟩ := hheld
  have hnot := not_due_of_returned h hret
  have hprep : c.shared.prepared = true := by
    by_contra hp
    exact hnot .prepare ⟨hclosed, by simpa using hp⟩
  have hcomp : c.shared.completed = true := by
    by_contra hp
    exact hnot .publish ⟨hprep, by simpa using hp⟩
  have hstarted : c.shared.terminalStarted = true := by
    by_contra hs
    exact hnot .start ⟨hprep, ⟨hcount, hcons⟩, by simpa using hs, fun _ => hcomp⟩
  have hcomplete : c.shared.terminalComplete = true := by
    by_contra hs
    exact hnot .terminal ⟨hstarted, by simpa using hs, hret.2⟩
  by_contra hs
  exact hnot .finalize ⟨hcomplete, ⟨hcount, hcons⟩, hrefs, by simpa using hs⟩

/-- One thread is inside an invocation while the other, which holds a root, calls `Close`; then the
invocation ends, and last the root is given back. -/
def heldAcrossClose : List (Bool × ℕ) :=
  [(true, 2), (true, 0), (true, 0), (false, 3), (false, 0)] ++ List.replicate 13 (false, 0)

def heldThenGiven : List (Bool × ℕ) :=
  (true, 1) :: List.replicate 13 (true, 0) ++ (false, 5) :: List.replicate 12 (false, 0)

end Wago.Runtime
