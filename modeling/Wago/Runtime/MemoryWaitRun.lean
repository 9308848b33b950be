/-
Every step of every thread keeps the invariant of waiting and notifying, hence every run in which
fewer than `2 ^ 32` calls are parked at a time does; the run that parks `2 ^ 32` does not.
-/
import Wago.Runtime.MemoryWaitSpec

namespace Wago.Runtime

open Interleave List Function

variable {T : Type*}

structure WaitInv (s : WaitMem T) (pc : T → WaitPc × List MemOp) : Prop where
  registry : RegistryInv s
  waiters : WaiterInv s pc
  flag : parkedCount s ≠ 0 ∨ s.mu ≠ none → s.pending = true
  lock : ∀ t, s.mu = some t ↔ (pc t).1.inSection = true

namespace WaitInv

variable {s : WaitMem T} {pc : T → WaitPc × List MemOp} {w : WaiterId} {offset : ℕ}

theorem start (bytes : ℕ → UInt8) (size : ℕ) (wasmShared : Bool) (script : T → List MemOp) :
    WaitInv (waitStart bytes size wasmShared script).shared
      (waitStart bytes size wasmShared script).pc where
  registry := by
    refine ⟨fun _ _ => rfl, fun _ => rfl, ?_, ?_, Nat.two_pow_pos 32, ?_⟩
    · intro ws hws
      cases hws
    · intro ws hws
      cases hws
    · exact ⟨fun _ => rfl, fun _ => rfl⟩
  waiters := by
    refine ⟨?_, ?_, ?_, ?_, ?_, ?_, fun _ _ => rfl, ?_, nodup_nil, ?_, nodup_nil, ?_⟩ <;>
      simp [waitStart, WaitPc.own, reportedIds]
  flag := by
    rintro (h | h)
    · exact absurd rfl h
    · exact absurd rfl h
  lock := by
    intro t
    simp [waitStart, WaitPc.inSection]

/-! ## Waking waiters -/

/-- A parked waiter after `removeWaiterLocked` and the send on its channel. -/
def woken (s : WaitMem T) (w : WaiterId) (m : WaitSignal) : WaitMem T :=
  let s' := (s.removeWaiterLocked w).1.send w m
  { s' with counted := s'.counted ++ if m = .notified then [w] else [] }

variable (h : WaitInv s pc)

include h

theorem woken_eq (hq : s.queue w = some offset) (m : WaitSignal) :
    ∃ ws, s.registry = some ws ∧
      woken s w m =
        { RegistryInv.removed s w offset ws with
          result := Function.update s.result w (some m)
          counted := s.counted ++ if m = .notified then [w] else [] } := by
  obtain ⟨ws, hws⟩ := h.registry.registry_of_queue hq
  refine ⟨ws, hws, ?_⟩
  rw [woken, h.registry.removeWaiterLocked_eq hq hws]
  rfl

theorem wake (hmu : s.mu = none) (hq : s.queue w = some offset) (m : WaitSignal) :
    WaitInv (woken s w m) pc := by
  obtain ⟨ws, hws, heq⟩ := h.woken_eq hq m
  rw [heq]
  have hcount := h.registry.removed_count ws hq
  refine ⟨?_, ?_, ?_, ?_⟩
  · exact { h.registry.removed_inv hq hws with }
  · exact { h.waiters.wake (w := w) (by rw [hq]; simp) m with }
  · rintro (hne | hlock)
    · have hne' : parkedCount s ≠ 1 := by
        intro hone
        have hzero : parkedCount (RegistryInv.removed s w offset ws) ≠ 0 := hne
        omega
      simp [RegistryInv.removed, hne']
    · exact absurd hmu hlock
  · exact h.lock

theorem woken_frame (hq : s.queue w = some offset) (m : WaitSignal) :
    (woken s w m).mu = s.mu ∧ (woken s w m).made = s.made ∧
      parkedCount (woken s w m) + 1 = parkedCount s ∧
      ∀ off, parkedAt (woken s w m) off = (parkedAt s off).erase w := by
  obtain ⟨ws, hws, heq⟩ := h.woken_eq hq m
  rw [heq]
  refine ⟨rfl, rfl, ?_, ?_⟩
  · exact h.registry.removed_count ws hq
  · intro off
    exact parkedAt_remove (RegistryInv.removed_made s w offset ws) rfl off

/-- The queue `notify` looks at is that of the parked waiters. -/
theorem lookup_cons {rest : List WaiterId}
    (hl : (s.registry.bind fun ws => ws.byOffset.lookup offset) = some (w :: rest)) :
    parkedAt s offset = w :: rest := by
  rw [← h.registry.queues offset, queueAt, hl]
  rfl

theorem lookup_nil
    (hl : ∀ w rest, (s.registry.bind fun ws => ws.byOffset.lookup offset) ≠ some (w :: rest)) :
    parkedAt s offset = [] := by
  rw [← h.registry.queues offset, queueAt]
  cases hb : s.registry.bind fun ws => ws.byOffset.lookup offset with
  | none => rfl
  | some q =>
    cases q with
    | nil => rfl
    | cons w rest => exact absurd hb (hl w rest)

omit h in
/-- `notify` wakes the oldest waiters of its offset, as many as it may. -/
theorem notifyLoop (offset : ℕ) : ∀ (count : ℕ) {s : WaitMem T}, WaitInv s pc → s.mu = none →
    let r := WaitMem.notifyLoop offset count s
    WaitInv r.1 pc ∧ r.1.mu = none ∧ r.2 = min count (parkedAt s offset).length ∧
      r.1.counted = s.counted ++ (parkedAt s offset).take r.2 ∧
      parkedAt r.1 offset = (parkedAt s offset).drop r.2 ∧
      ∀ off, off ≠ offset → parkedAt r.1 off = parkedAt s off
  | 0, s, h, hmu => by simpa [WaitMem.notifyLoop] using ⟨h, hmu⟩
  | count + 1, s, h, hmu => by
    by_cases hl : ∃ w rest, (s.registry.bind fun ws => ws.byOffset.lookup offset) = some (w :: rest)
    · obtain ⟨w, rest, hl⟩ := hl
      have hparked := h.lookup_cons hl
      have hmem : w ∈ parkedAt s offset := by
        rw [hparked]
        exact mem_cons_self
      have hq := (mem_parkedAt.1 hmem).2
      obtain ⟨hmu', hmade, -, hat⟩ := h.woken_frame hq .notified
      have hround : WaitMem.notifyLoop offset (count + 1) s =
          ((WaitMem.notifyLoop offset count (woken s w .notified)).1,
            (WaitMem.notifyLoop offset count (woken s w .notified)).2 + 1) := by
        simp only [WaitMem.notifyLoop, hl]
        rfl
      obtain ⟨hinv, hmu'', hn, hcount, hdrop, hother⟩ :=
        notifyLoop offset count (h.wake hmu hq .notified) (hmu'.trans hmu)
      have hrest : parkedAt (woken s w .notified) offset = rest := by
        rw [hat, hparked]
        simp
      have hcounted : (woken s w .notified).counted = s.counted ++ [w] := by
        obtain ⟨ws, hws, heq⟩ := h.woken_eq hq .notified
        rw [heq]
        rfl
      rw [hround]
      rw [hrest] at hn hcount hdrop
      refine ⟨hinv, hmu'', ?_, ?_, ?_, ?_⟩
      · simp only [hn, hparked, length_cons]
        omega
      · rw [hcount, hcounted, hparked]
        simp
      · rw [hdrop, hparked]
        simp
      · intro off ho
        rw [hother off ho, hat, RegistryInv.erase_parkedAt_of_ne hq ho]
    · have hnil := h.lookup_nil (fun w rest hw => hl ⟨w, rest, hw⟩)
      have hround : WaitMem.notifyLoop offset (count + 1) s = (s, 0) := by
        unfold WaitMem.notifyLoop
        split
        · rename_i w rest hw
          exact absurd ⟨w, rest, hw⟩ hl
        · rfl
      rw [hround, hnil]
      simpa using ⟨h, hmu, hnil⟩

omit h in
/-- A closing memory wakes everybody. -/
theorem closeLoop : ∀ (fuel : ℕ) {s : WaitMem T}, WaitInv s pc → s.mu = none → parkedCount s < fuel →
    WaitInv (WaitMem.closeLoop fuel s) pc ∧ (WaitMem.closeLoop fuel s).mu = none ∧
      parkedCount (WaitMem.closeLoop fuel s) = 0
  | fuel + 1, s, h, hmu, hfuel => by
    cases hr : s.registry with
    | none =>
      simp only [WaitMem.closeLoop, hr]
      exact ⟨h, hmu, h.registry.gone.1 hr⟩
    | some ws =>
      have hlookup : ∀ off q, ⟨off, q⟩ ∈ ws.byOffset.entries → ws.byOffset.lookup off = some q :=
        fun off q hmem => AList.mem_lookup_iff.2 hmem
      cases he : ws.byOffset.entries with
      | nil =>
        -- a registry without queues has no parked waiter, so it would be gone
        have hzero : parkedCount s = 0 := by
          apply parkedCount_eq_zero_of_parkedAt
          intro off
          rw [← h.registry.queues off, queueAt, hr]
          simp [AList.lookup, he]
        rw [h.registry.gone.2 hzero] at hr
        cases hr
      | cons e rest =>
        obtain ⟨off, q⟩ := e
        have hq := hlookup off q (by rw [he]; exact mem_cons_self)
        cases q with
        | nil => exact absurd hq (h.registry.nonempty ws hr off)
        | cons w tail =>
          have hparked : parkedAt s off = w :: tail := h.lookup_cons (by rw [hr]; exact hq)
          have hmem : w ∈ parkedAt s off := by
            rw [hparked]
            exact mem_cons_self
          have hqw := (mem_parkedAt.1 hmem).2
          obtain ⟨hmu', -, hcount, -⟩ := h.woken_frame hqw .closed
          have hround : WaitMem.closeLoop (fuel + 1) s =
              WaitMem.closeLoop fuel (woken s w .closed) := by
            simp only [WaitMem.closeLoop, hr, he, woken]
            simp
          rw [hround]
          exact closeLoop fuel (h.wake hmu hqw .closed) (hmu'.trans hmu) (by omega)

theorem notifyLocked (hmu : s.mu = none) (count : ℕ) :
    WaitInv (s.notifyLocked offset count).1 pc := by
  have hloop := (notifyLoop offset count h hmu).1
  unfold WaitMem.notifyLocked
  split
  · exact h
  split
  · exact h
  split
  · exact h
  · exact hloop

theorem closeWaitersLocked (hmu : s.mu = none) :
    WaitInv { s with closed := true }.closeWaitersLocked pc := by
  have hfuel : parkedCount { s with closed := true } < s.made + 1 := by
    have hle := length_filter_le (fun w => (s.queue w).isSome) (List.range s.made)
    rw [length_range] at hle
    exact Nat.lt_succ_of_le hle
  exact (closeLoop (s := { s with closed := true }) (s.made + 1)
    ⟨{ h.registry with }, { h.waiters with }, h.flag, h.lock⟩ hmu hfuel).1

/-! ## The steps of a call -/

variable [DecidableEq T] {t : T} {p : WaitPc × List MemOp} {q : WaitPc}

theorem lock_update (hsec : p.1.inSection = (pc t).1.inSection) (u : T) :
    s.mu = some u ↔ (Function.update pc t p u).1.inSection = true := by
  by_cases hu : u = t
  · rw [hu, update_self, hsec]
    exact h.lock t
  · rw [update_of_ne hu]
    exact h.lock u

theorem move (hq : (pc t).1 = q) (hown : p.1.own = q.own)
    (hsec : p.1.inSection = q.inSection) (hrecv : ∀ w, p.1 = .receive w → s.queue w = none)
    (hcause : ∀ w r, p.1 = .giveUp w r → GivenUp r) : WaitInv s (Function.update pc t p) := by
  subst hq
  exact { h with waiters := h.waiters.move hown hrecv hcause, lock := h.lock_update hsec }

/-- A move between control points that own no waiter, outside of a section. -/
theorem quiet (hq : (pc t).1 = q) (hown : q.own = none) (hsec : q.inSection = false)
    (hown' : p.1.own = none) (hsec' : p.1.inSection = false) :
    WaitInv s (Function.update pc t p) := by
  refine h.move hq (hown'.trans hown.symm) (hsec'.trans hsec.symm) ?_ ?_
  · intro w hw
    rw [hw] at hown'
    cases hown'
  · intro w r hw
    rw [hw] at hown'
    cases hown'

variable {todo : List MemOp}

/-- A wait enters its section and publishes the flag. -/
theorem enter (hmu : s.mu = none) {call : WaitCall}
    (hq : (pc t).1 = .wait call) :
    WaitInv { s with mu := some t, pending := true } (Function.update pc t (.compare call, todo)) where
  registry := { h.registry with }
  waiters :=
    { h.waiters.move (p := (.compare call, todo)) (by rw [hq]; rfl) (fun _ hw => by cases hw)
        (fun _ _ hw => by cases hw) with }
  flag := fun _ => rfl
  lock := by
    intro u
    by_cases hu : u = t
    · rw [hu, update_self]
      exact ⟨fun _ => rfl, fun _ => rfl⟩
    · rw [update_of_ne hu, ← h.lock u, hmu]
      simp [Ne.symm hu]

/-- Outside the section, after the lock is released. -/
theorem unlocked (hpc : (pc t).1.inSection = true) (hsec : p.1.inSection = false)
    (u : T) : (none : Option T) = some u ↔ (Function.update pc t p u).1.inSection = true := by
  by_cases hu : u = t
  · rw [hu, update_self, hsec]
    simp
  · rw [update_of_ne hu, ← h.lock u, (h.lock t).2 hpc]
    simp [Ne.symm hu]

/-- A wait leaves its section without parking. -/
theorem clear (hpc : (pc t).1.inSection = true) (hown : (pc t).1.own = none)
    {r : WaitOutcome} :
    WaitInv { s.clearPending with mu := none } (Function.update pc t (.waited r, todo)) where
  registry := { h.registry with }
  waiters :=
    { h.waiters.move (p := (.waited r, todo)) hown.symm (fun _ hw => by cases hw)
        (fun _ _ hw => by cases hw) with }
  flag := by
    rintro (hne | hmu)
    · have hcount : parkedCount s ≠ 0 := hne
      cases hr : s.registry with
      | none => exact absurd (h.registry.gone.1 hr) hcount
      | some ws => simpa [WaitMem.clearPending, hr, h.registry.active ws hr] using hcount
    · exact absurd rfl hmu
  lock := h.unlocked hpc rfl

/-- A wait leaves its section parked. -/
theorem park (hpc : (pc t).1.inSection = true) (hown : (pc t).1.own = none)
    (hbound : parkedCount s + 1 < 2 ^ 32) {timed : Bool} :
    WaitInv { (s.addWaiterLocked offset).1 with mu := none }
      (Function.update pc t (.parked s.made timed, todo)) where
  registry := { h.registry.addWaiterLocked hbound offset with }
  waiters := { h.waiters.park offset hown rfl with }
  flag := fun _ => rfl
  lock := h.unlocked hpc rfl

/-- A call returns what it received. -/
theorem receive (hown : (pc t).1.own = some w)
    (hsec : (pc t).1.inSection = false) :
    ∀ r ∈ (s.result w).toList.map fun m => (s.report w (received m), WaitPc.waited (received m)),
      WaitInv r.1 (Function.update pc t (r.2, todo)) := by
  simp only [mem_map, Option.mem_toList]
  rintro _ ⟨m, hm, rfl⟩
  have hq : s.queue w = none := by
    by_contra hq
    rw [(h.waiters.queued w hq).1] at hm
    cases hm
  have hqueue : Function.update s.queue w none = s.queue := by rw [← hq, update_eq_self]
  have hreport := h.waiters.report (r := received m) (p := (.waited (received m), todo)) hown
    (by simp [Agrees, hm]) rfl
  rw [hqueue] at hreport
  exact ⟨{ h.registry with }, hreport, h.flag, h.lock_update hsec.symm⟩

/-- `cancelWait` takes the waiter out, or finds that it was woken. -/
theorem cancel (hmu : s.mu = none) {cause : WaitOutcome}
    (hpc : (pc t).1 = .giveUp w cause) :
    WaitInv (cancelWait s w cause).1 (Function.update pc t ((cancelWait s w cause).2, todo)) := by
  cases hq : s.queue w with
  | none =>
    have hcancel : cancelWait s w cause = (s, .receive w) := by
      simp [cancelWait, WaitMem.removeWaiterLocked, hq]
    rw [hcancel]
    refine h.move hpc rfl rfl ?_ ?_
    · intro v hv
      cases hv
      exact hq
    · intro v r hv
      cases hv
  | some offset =>
    obtain ⟨ws, hws⟩ := h.registry.registry_of_queue hq
    have hcancel : cancelWait s w cause =
        ((RegistryInv.removed s w offset ws).report w cause, .waited cause) := by
      rw [cancelWait, h.registry.removeWaiterLocked_eq hq hws]
    rw [hcancel]
    have hcount := h.registry.removed_count ws hq
    have hresult := (h.waiters.queued w (by rw [hq]; simp)).1
    have hgiven := h.waiters.causes t w cause hpc
    have hreport := h.waiters.report (r := cause) (p := (.waited cause, todo)) (by rw [hpc]; rfl)
      (by simp [Agrees, hresult, hgiven]) rfl
    refine ⟨{ h.registry.removed_inv hq hws with }, { hreport with }, ?_, ?_⟩
    · rintro (hne | hlock)
      · have hzero : parkedCount (RegistryInv.removed s w offset ws) ≠ 0 := hne
        have hne' : parkedCount s ≠ 1 := by omega
        simp [RegistryInv.removed, WaitMem.report, hne']
      · exact absurd hmu hlock
    · exact h.lock_update (by rw [hpc]; rfl)

/-- The step lemma, for the steps inside a call. -/
theorem callStep (hpc : pc t = (q, todo)) :
    ∀ r ∈ callNext t s q, parkedCount r.1 < 2 ^ 32 →
      WaitInv r.1 (Function.update pc t (r.2, todo)) := by
  have hq : (pc t).1 = q := by rw [hpc]
  cases q with
  | idle => simp [callNext]
  | nativeWait call | nativeNotify offset count =>
    exact forall_branch (fun _ _ => h.quiet hq rfl rfl rfl rfl) (fun _ _ => h.quiet hq rfl rfl rfl rfl)
  | wait call =>
    simp only [callNext]
    split
    · exact forall_mem_singleton.2 fun _ => h.quiet hq rfl rfl rfl rfl
    split
    · simp
    rename_i hmu
    split
    · exact forall_mem_singleton.2 fun _ => h.quiet hq rfl rfl rfl rfl
    · exact forall_mem_singleton.2 fun _ => h.enter (by simpa using hmu) hq
  | compare call =>
    exact forall_mem_singleton.2 fun _ =>
      h.move hq rfl rfl (fun _ hw => by cases hw) (fun _ _ hw => by cases hw)
  | settle call equal =>
    have hsec : (pc t).1.inSection = true := by rw [hq]; rfl
    have hown : (pc t).1.own = none := by rw [hq]; rfl
    refine forall_mem_singleton.2 ?_
    unfold settleLocked
    split
    · exact fun _ => h.clear hsec hown
    split
    · exact fun _ => h.clear hsec hown
    · intro hbound
      have hcount : parkedCount (s.addWaiterLocked call.offset).1 = parkedCount s + 1 :=
        parkedCount_add rfl rfl
      have hbound' : parkedCount (s.addWaiterLocked call.offset).1 < 2 ^ 32 := hbound
      exact h.park hsec hown (by omega)
  | parked w timed =>
    have hsec : (pc t).1.inSection = false := by rw [hq]; rfl
    have hown : (pc t).1.own = some w := by rw [hq]; rfl
    have hgive : ∀ cause, GivenUp cause → WaitInv s (Function.update pc t (.giveUp w cause, todo)) := by
      intro cause hcause
      refine h.move hq rfl rfl (fun v hv => by cases hv) ?_
      intro v r hv
      cases hv
      exact hcause
    refine forall_mem_append.2 ⟨forall_mem_append.2 ⟨?_, ?_⟩, ?_⟩
    · exact fun r hr _ => h.receive hown hsec r hr
    · exact forall_guard fun _ _ => hgive _ (.inl rfl)
    · exact forall_mem_singleton.2 fun _ => hgive _ (.inr rfl)
  | giveUp w cause =>
    exact forall_unless fun hmu _ => h.cancel (by simpa using hmu) hq
  | receive w => exact fun r hr _ => h.receive (by rw [hq]; rfl) (by rw [hq]; rfl) r hr
  | waited _ | notified _ =>
    exact forall_mem_singleton.2 fun _ => h.quiet hq rfl rfl rfl rfl
  | notify offset count =>
    simp only [callNext]
    split
    · exact forall_mem_singleton.2 fun _ => h.quiet hq rfl rfl rfl rfl
    · exact forall_unless fun hmu _ =>
        (h.notifyLocked (by simpa using hmu) count).quiet hq rfl rfl rfl rfl
  | store offset value =>
    have hinv : WaitInv (s.store offset value) pc :=
      ⟨{ h.registry with }, { h.waiters with }, h.flag, h.lock⟩
    exact forall_mem_singleton.2 fun _ => hinv.quiet hq rfl rfl rfl rfl
  | close =>
    exact forall_unless fun hmu _ =>
      (h.closeWaitersLocked (by simpa using hmu)).quiet hq rfl rfl rfl rfl

/-- The step lemma. -/
theorem step (t : T) : ∀ r ∈ waitNext t s (pc t), parkedCount r.1 < 2 ^ 32 →
    WaitInv r.1 (Function.update pc t r.2) := by
  intro r hr hbound
  obtain ⟨q, todo, hpc⟩ : ∃ q todo, pc t = (q, todo) := ⟨_, _, rfl⟩
  rw [hpc] at hr
  by_cases hidle : q = .idle
  · subst hidle
    cases todo with
    | nil => cases hr
    | cons op todo =>
      obtain rfl := mem_singleton.1 hr
      refine h.quiet (q := .idle) (by rw [hpc]) rfl rfl ?_ ?_ <;>
        (cases op with
          | wait native _ => cases native <;> rfl
          | notify native _ _ => cases native <;> rfl
          | store _ _ => rfl
          | close => rfl)
  · have hmap : waitNext t s (q, todo) = (callNext t s q).map fun r => (r.1, r.2, todo) := by
      cases q <;> first | rfl | exact absurd rfl hidle
    rw [hmap, mem_map] at hr
    obtain ⟨r, hr, rfl⟩ := hr
    exact h.callStep hpc r hr hbound

end WaitInv

/-- Fewer than `2 ^ 32` calls are parked. -/
def FewParked (c : WaitConfig T) : Prop := parkedCount c.shared < 2 ^ 32

/-- The run lemma. -/
theorem waitInv_of_reachable [DecidableEq T] {bytes : ℕ → UInt8} {size : ℕ} {wasmShared : Bool}
    {script : T → List MemOp} {c : WaitConfig T}
    (hrun : ReachableIn FewParked waitNext (waitStart bytes size wasmShared script) c) :
    WaitInv c.shared c.pc :=
  hrun.invariant (I := fun c => WaitInv c.shared c.pc) (fun _ t h r hr hok => h.step t r hr hok)
    (WaitInv.start ..)

/-! ## Waiting and notifying under every schedule -/

/-- The call's comparison succeeded, and it has neither returned nor been woken. -/
def Undecided (c : WaitConfig T) (t : T) : Prop :=
  (∃ call, (c.pc t).1 = .settle call true) ∨ ∃ w, (c.pc t).1.own = some w ∧ c.shared.queue w ≠ none

theorem parkedCount_ne_zero {s : WaitMem T} {w : WaiterId} (h : RegistryInv s)
    (hq : s.queue w ≠ none) : parkedCount s ≠ 0 := by
  obtain ⟨offset, hq⟩ := Option.ne_none_iff_exists'.1 hq
  exact (parkedCount_pos (h.lt_made hq) hq).ne'

/-- A call that is still to be woken keeps the flag up. -/
theorem pending_of_undecided {c : WaitConfig T} (h : WaitInv c.shared c.pc) {t : T}
    (ht : Undecided c t) : c.shared.pending = true := by
  apply h.flag
  rcases ht with ⟨call, ht⟩ | ⟨w, -, hq⟩
  · right
    rw [(h.lock t).2 (by rw [ht]; rfl)]
    simp
  · exact .inl (parkedCount_ne_zero h.registry hq)

theorem reported_agrees {s : WaitMem T} {pc : T → WaitPc × List MemOp} (h : WaiterInv s pc)
    {w : WaiterId} {r : WaitOutcome} (hr : (w, r) ∈ s.reported) :
    r = .ok .notified ∧ w ∈ s.counted ∨
      (r = .ok .timedOut ∨ r = .error .cancelled ∨ r = .error .memoryClosed) ∧ w ∉ s.counted := by
  have hagree := h.reported w r hr
  rw [h.counted]
  unfold Agrees at hagree
  cases hm : s.result w with
  | none =>
    rw [hm] at hagree
    refine .inr ⟨?_, by simp⟩
    rcases hagree.2 with hr | hr
    · exact .inl hr
    · exact .inr (.inl hr)
  | some m =>
    rw [hm] at hagree
    cases m with
    | notified => exact .inl ⟨hagree, rfl⟩
    | closed => exact .inr ⟨.inr (.inr hagree), by simp⟩

theorem memoryWait_safe [DecidableEq T] {bytes : ℕ → UInt8} {size : ℕ} {wasmShared : Bool}
    {script : T → List MemOp} {c : WaitConfig T}
    (hrun : ReachableIn FewParked waitNext (waitStart bytes size wasmShared script) c) :
    -- a notify that takes the lock
    (∀ t offset count todo, c.pc t = (.notify offset count, todo) → offset % 4 = 0 →
      c.shared.mu = none → c.shared.closed = false → c.shared.wasmShared = true →
      offset + 4 ≤ c.shared.size →
      ∃ s', waitNext t c.shared (c.pc t) =
          [(s', .notified (.ok (min count (parkedAt c.shared offset).length)), todo)] ∧
        s'.counted = c.shared.counted ++ (parkedAt c.shared offset).take count ∧
        parkedAt s' offset = (parkedAt c.shared offset).drop count ∧
        ∀ off, off ≠ offset → parkedAt s' off = parkedAt c.shared off) ∧
    -- one outcome for every waiter
    (∀ w, w < c.shared.made →
      (w ∈ reportedIds c.shared ∧ ∀ t, (c.pc t).1.own ≠ some w) ∨
      (w ∉ reportedIds c.shared ∧ ∃ t, (c.pc t).1.own = some w ∧
        (∀ u, (c.pc u).1.own = some w → u = t) ∧
        (c.shared.queue w = none → c.shared.result w ≠ none))) ∧
    (reportedIds c.shared).Nodup ∧ c.shared.counted.Nodup ∧
    (∀ w r, (w, r) ∈ c.shared.reported → r = .ok .notified ∧ w ∈ c.shared.counted ∨
      (r = .ok .timedOut ∨ r = .error .cancelled ∨ r = .error .memoryClosed) ∧
        w ∉ c.shared.counted) ∧
    -- a native notify that finds the flag clear
    (∀ t offset count todo r, c.pc t = (.nativeNotify offset count, todo) →
      r ∈ waitNext t c.shared (c.pc t) → r.2.1 = .notified (.ok 0) → ∀ u, ¬ Undecided c u) ∧
    -- the flag and the registry
    ((∃ w, c.shared.queue w ≠ none) → c.shared.pending = true) ∧
    ((∀ w, c.shared.queue w = none) → c.shared.registry = none) ∧
    (∀ ws offset, c.shared.registry = some ws → parkedAt c.shared offset = [] →
      ws.byOffset.lookup offset = none) := by
  have h := waitInv_of_reachable hrun
  refine ⟨?_, ?_, h.waiters.reportedOnce, h.waiters.countedOnce, ?_, ?_, ?_, ?_, ?_⟩
  · intro t offset count todo hpc halign hmu hopen hshared hsize
    obtain ⟨-, -, hn, hcounted, hdrop, hother⟩ := WaitInv.notifyLoop offset count h hmu
    have hlocked : c.shared.notifyLocked offset count =
        ((WaitMem.notifyLoop offset count c.shared).1,
          .ok (WaitMem.notifyLoop offset count c.shared).2) := by
      simp [WaitMem.notifyLocked, hopen, hshared, Nat.not_lt.2 hsize]
    refine ⟨(WaitMem.notifyLoop offset count c.shared).1, ?_, ?_, ?_, hother⟩
    · rw [hpc, ← hn]
      simp [waitNext, callNext, halign, hmu, hlocked]
    · rw [hcounted, hn, ← List.take_eq_take_min]
    · rw [hdrop, hn, ← List.drop_eq_drop_min]
  · intro w hw
    by_cases hids : w ∈ reportedIds c.shared
    · refine .inl ⟨hids, ?_⟩
      intro t ht
      exact ((h.waiters.live w).1 ⟨t, ht⟩).2 hids
    · obtain ⟨t, ht⟩ := (h.waiters.live w).2 ⟨hw, hids⟩
      exact .inr ⟨hids, t, ht, fun u hu => h.waiters.unique u t w hu ht, h.waiters.resolved t w ht⟩
  · intro w r hr
    exact reported_agrees h.waiters hr
  · intro t offset count todo r hpc hr hzero u hu
    rw [hpc] at hr
    simp only [waitNext, callNext, pending_of_undecided h hu, Bool.true_eq_false, and_false,
      if_false, List.map_cons, List.map_nil, List.mem_singleton] at hr
    subst hr
    cases hzero
  · rintro ⟨w, hq⟩
    exact h.flag (.inl (parkedCount_ne_zero h.registry hq))
  · intro hq
    rw [h.registry.gone, parkedCount_eq_zero]
    exact fun w _ => hq w
  · intro ws offset hws hnil
    have hqueue := h.registry.queues offset
    rw [hnil, queueAt, hws, Option.bind_some] at hqueue
    cases hl : ws.byOffset.lookup offset with
    | none => rfl
    | some q =>
      rw [hl, Option.getD_some] at hqueue
      rw [hqueue] at hl
      exact absurd hl (h.registry.nonempty ws hws offset)

instance (c : WaitConfig T) : Decidable (FewParked c) :=
  inferInstanceAs (Decidable (parkedCount c.shared < 2 ^ 32))

/-- One thread waits at offset 0, another is about to notify there. -/
theorem memoryWait_safe_notify :
    ∃ c : WaitConfig Bool,
      ReachableIn FewParked waitNext
        (waitStart (fun _ => 0) 8 true fun t =>
          if t then [.notify false 0 5] else [.wait false ⟨.w32, 0, 0, -1⟩]) c ∧
      parkedAt c.shared 0 = [0] ∧
      ∃ s', waitNext true c.shared (c.pc true) = [(s', .notified (.ok 1), [])] ∧
        s'.counted = [0] ∧ parkedAt s' 0 = [] := by
  obtain ⟨c, hc⟩ : ∃ c, replay FewParked waitNext
      (waitStart (fun _ => 0) 8 true fun t =>
          if t then [.notify false 0 5] else [.wait false ⟨.w32, 0, 0, -1⟩])
      [(false, 0), (false, 0), (false, 0), (false, 0), (true, 0)] = some c := ⟨_, rfl⟩
  have hrun := reachableIn_of_replay hc
  refine ⟨c, hrun, ?_, ?_⟩
  · cases hc
    rfl
  · obtain ⟨s', hstep, hcounted, hparked, -⟩ :=
      (memoryWait_safe hrun).1 true 0 5 [] (by cases hc; rfl) rfl (by cases hc; rfl)
        (by cases hc; rfl) (by cases hc; rfl) (by cases hc; decide)
    have hone : parkedAt c.shared 0 = [0] := by
      cases hc
      rfl
    have hnone : c.shared.counted = [] := by
      cases hc
      rfl
    rw [hone] at hstep hcounted hparked
    rw [hnone] at hcounted
    exact ⟨s', hstep, hcounted, hparked⟩

/-! ## `2 ^ 32` parked calls -/

/-- Threads that park at offset 0, and after them one whose comparison fails. -/
def crowd (t : ℕ) : List MemOp :=
  [.wait false ⟨.w32, 0, if t < 2 ^ 32 then 0 else 1, -1⟩]

/-- The first `n` threads of the crowd are parked, the others have not begun. -/
structure Crowded (n : ℕ) (c : WaitConfig ℕ) : Prop where
  bytes : c.shared.bytes = fun _ => 0
  size : c.shared.size = 4
  wasmShared : c.shared.wasmShared = true
  closed : c.shared.closed = false
  mu : c.shared.mu = none
  made : c.shared.made = n
  queue : ∀ w < n, c.shared.queue w = some 0
  active : (c.shared.registry.getD ⟨∅, 0⟩).active = n % 2 ^ 32
  idle : ∀ t, n ≤ t → c.pc t = (.idle, crowd t)

/-- The next thread runs its wait up to the decision. -/
theorem Crowded.toDecision {n : ℕ} {c : WaitConfig ℕ} (h : Crowded n c) (call : WaitCall)
    (hcrowd : crowd n = [.wait false call]) (hwidth : call.width = .w32) (hoffset : call.offset = 0) :
    ∃ d, Reachable waitNext c d ∧ d.shared = { c.shared with mu := some n, pending := true } ∧
      d.pc = Function.update c.pc n (.settle call (decide (0 = call.expected)), []) := by
  have hpc := h.idle n (Nat.le_refl n)
  rw [hcrowd] at hpc
  have hload : c.shared.load .w32 0 = 0 := by simp [WaitMem.load, h.bytes, ByteMem.read32]
  have h1 : Reachable waitNext c (c.set n (c.shared, .wait call, [])) :=
    (Reachable.refl c).step (by rw [hpc]; exact mem_singleton.2 rfl)
  have h2 := h1.step (t := n) (r := ({ c.shared with mu := some n, pending := true }, .compare call, []))
    (by simp [waitNext, callNext, hwidth, hoffset, h.mu, WaitMem.waitError, h.wasmShared, h.closed,
      h.size, WaitWidth.bytes])
  have h3 := h2.step (t := n)
    (r := ({ c.shared with mu := some n, pending := true },
      .settle call (decide (0 = call.expected)), []))
    (by
      have hload' : WaitMem.load { c.shared with mu := some n, pending := true } .w32 0 = 0 := hload
      simp [waitNext, callNext, hwidth, hoffset, hload', Bool.beq_eq_decide_eq])
  refine ⟨_, h3, rfl, ?_⟩
  simp [update_idem]

theorem Crowded.next {n : ℕ} {c : WaitConfig ℕ} (h : Crowded n c) (hn : n < 2 ^ 32) :
    ∃ d, Reachable waitNext c d ∧ Crowded (n + 1) d := by
  obtain ⟨d, hd, hshared, hpc⟩ :=
    h.toDecision ⟨.w32, 0, 0, -1⟩ (by rw [crowd, if_pos hn]) rfl rfl
  have hdn : d.pc n = (.settle ⟨.w32, 0, 0, -1⟩ true, []) := by
    rw [hpc, update_self]
    rfl
  have hlast := hd.step (t := n)
    (r := ({ (d.shared.addWaiterLocked 0).1 with mu := none }, .parked d.shared.made false, []))
    (by rw [hdn]; exact mem_singleton.2 rfl)
  have hmade : d.shared.made = n := by rw [hshared]; exact h.made
  refine ⟨_, hlast, ?_⟩
  obtain ⟨hbytes, hsize, hws, hclosed⟩ : d.shared.bytes = c.shared.bytes ∧
      d.shared.size = c.shared.size ∧ d.shared.wasmShared = c.shared.wasmShared ∧
      d.shared.closed = c.shared.closed := by simp [hshared]
  refine ⟨hbytes.trans h.bytes, hsize.trans h.size, hws.trans h.wasmShared, hclosed.trans h.closed, rfl,
    ?_, ?_, ?_, ?_⟩
  · show d.shared.made + 1 = n + 1
    rw [hmade]
  · intro w hw
    show Function.update d.shared.queue d.shared.made (some 0) w = some 0
    rw [hmade, hshared]
    by_cases hwn : w = n
    · rw [hwn, update_self]
    · rw [update_of_ne hwn]
      exact h.queue w (by omega)
  · show ((d.shared.registry.getD ⟨∅, 0⟩).active + 1) % 2 ^ 32 = (n + 1) % 2 ^ 32
    rw [hshared, h.active, Nat.mod_add_mod]
  · intro t ht
    have htn : t ≠ n := by omega
    simp only [Config.set_pc, hpc, update_of_ne htn]
    exact h.idle t (by omega)

theorem crowded_reachable : ∀ n, n ≤ 2 ^ 32 →
    ∃ c, Reachable waitNext (waitStart (fun _ => 0) 4 true crowd) c ∧ Crowded n c
  | 0, _ => by
    refine ⟨_, Reachable.refl _, rfl, rfl, rfl, rfl, rfl, rfl, ?_, rfl, fun _ _ => rfl⟩
    intro w hw
    exact absurd hw (Nat.not_lt_zero w)
  | n + 1, hn => by
    obtain ⟨c, hc, hcrowd⟩ := crowded_reachable n (by omega)
    obtain ⟨d, hd, hcrowd'⟩ := hcrowd.next (by omega)
    exact ⟨d, hc.trans hd, hcrowd'⟩

/-- With `2 ^ 32` calls parked the counter is zero, and a wait whose comparison fails clears the
flag of all of them. -/
theorem memoryWait_counter_wraps :
    ∃ c : WaitConfig ℕ, Reachable waitNext (waitStart (fun _ => 0) 4 true crowd) c ∧
      (∀ w < 2 ^ 32, c.shared.queue w = some 0) ∧ c.shared.pending = false := by
  obtain ⟨c, hc, h⟩ := crowded_reachable (2 ^ 32) (Nat.le_refl _)
  obtain ⟨d, hd, hshared, hpc⟩ :=
    h.toDecision ⟨.w32, 0, 1, -1⟩ (by rw [crowd, if_neg (Nat.lt_irrefl _)]) rfl rfl
  have hdn : d.pc (2 ^ 32) = (.settle ⟨.w32, 0, 1, -1⟩ false, []) := by
    rw [hpc, Function.update_self]
    rfl
  have hlast := hd.step (t := 2 ^ 32)
    (r := ({ d.shared.clearPending with mu := none }, .waited (.ok .notEqual), []))
    (by rw [hdn]; exact List.mem_singleton.2 rfl)
  refine ⟨_, hc.trans hlast, ?_, ?_⟩
  · intro w hw
    show d.shared.queue w = some 0
    rw [hshared]
    exact h.queue w hw
  · show (d.shared.registry.any fun ws => ws.active != 0) = false
    have hactive := h.active
    rw [Nat.mod_self] at hactive
    rw [hshared]
    cases hr : c.shared.registry with
    | none => rfl
    | some ws =>
      rw [hr] at hactive
      simp only [Option.getD_some] at hactive
      simp [hactive]

end Wago.Runtime
