/-
What holds of waiting and notifying under every schedule in which fewer than `2 ^ 32` calls are
parked at a time: the registry holds exactly the parked waiters in the order they came, the pending
flag is up while one is parked or deciding, and each waiter gets one outcome, which agrees with what
notifies counted. With `2 ^ 32` parked calls the registry's `uint32` counter is zero again.
-/
import Wago.Runtime.MemoryWait

namespace Wago.Runtime

open Interleave List Function

variable {T : Type*}

/-! ## Parked waiters -/

section Parked

variable {s s' : WaitMem T} {w : WaiterId} {offset : ℕ}

theorem mem_parkedAt : w ∈ parkedAt s offset ↔ w < s.made ∧ s.queue w = some offset := by
  simp [parkedAt]

theorem parkedAt_nodup (s : WaitMem T) (offset : ℕ) : (parkedAt s offset).Nodup :=
  nodup_range.filter _

theorem parkedCount_eq_zero : parkedCount s = 0 ↔ ∀ w < s.made, s.queue w = none := by
  simp [parkedCount]

theorem parkedCount_pos (hw : w < s.made) (hq : s.queue w = some offset) : 0 < parkedCount s := by
  rw [Nat.pos_iff_ne_zero]
  intro h0
  rw [parkedCount_eq_zero.1 h0 w hw] at hq
  cases hq

theorem parkedAt_eq_nil (h : parkedCount s = 0) (offset : ℕ) : parkedAt s offset = [] := by
  rw [eq_nil_iff_forall_not_mem]
  intro w hw
  obtain ⟨hlt, hq⟩ := mem_parkedAt.1 hw
  rw [parkedCount_eq_zero.1 h w hlt] at hq
  cases hq

theorem parkedCount_eq_zero_of_parkedAt (h : ∀ offset, parkedAt s offset = []) :
    parkedCount s = 0 := by
  rw [parkedCount_eq_zero]
  intro w hw
  cases hq : s.queue w with
  | none => rfl
  | some offset =>
    have hmem : w ∈ parkedAt s offset := mem_parkedAt.2 ⟨hw, hq⟩
    rw [h offset] at hmem
    cases hmem

section Add

variable (hmade : s'.made = s.made + 1)
  (hqueue : s'.queue = Function.update s.queue s.made (some offset))

include hmade hqueue

theorem parkedAt_add (off : ℕ) :
    parkedAt s' off = parkedAt s off ++ if off = offset then [s.made] else [] := by
  have hold : (List.range s.made).filter (fun w => s'.queue w = some off) = parkedAt s off := by
    apply filter_congr
    intro w hw
    rw [hqueue, update_of_ne (mem_range.1 hw).ne]
  rw [parkedAt, hmade, range_succ, filter_append, hold, hqueue]
  by_cases h : off = offset
  · simp [h]
  · simp [h, Ne.symm h]

theorem parkedCount_add : parkedCount s' = parkedCount s + 1 := by
  have hold : (List.range s.made).filter (fun w => (s'.queue w).isSome) =
      (List.range s.made).filter fun w => (s.queue w).isSome := by
    apply filter_congr
    intro w hw
    rw [hqueue, update_of_ne (mem_range.1 hw).ne]
  rw [parkedCount, hmade, range_succ, filter_append, hold, hqueue]
  simp [parkedCount]

end Add

section Remove

variable (hmade : s'.made = s.made) (hqueue : s'.queue = Function.update s.queue w none)
  (hw : w < s.made) (hq : s.queue w = some offset)

include hmade hqueue

theorem parkedAt_remove (off : ℕ) : parkedAt s' off = (parkedAt s off).erase w := by
  rw [(parkedAt_nodup s off).erase_eq_filter, parkedAt, parkedAt, filter_filter, hmade]
  apply filter_congr
  intro u _
  by_cases hu : u = w
  · simp [hqueue, hu]
  · simp [hqueue, hu]

include hw hq

theorem parkedCount_remove : parkedCount s' + 1 = parkedCount s := by
  have herase : (List.range s'.made).filter (fun u => (s'.queue u).isSome) =
      ((List.range s.made).filter fun u => (s.queue u).isSome).erase w := by
    rw [(nodup_range.filter _).erase_eq_filter, filter_filter, hmade]
    apply filter_congr
    intro u _
    by_cases hu : u = w
    · simp [hqueue, hu]
    · simp [hqueue, hu]
  have hmem : w ∈ (List.range s.made).filter fun u => (s.queue u).isSome := by simp [hw, hq]
  have hpos := parkedCount_pos hw hq
  rw [parkedCount, herase, length_erase_of_mem hmem, ← parkedCount]
  omega

end Remove

end Parked

/-! ## The registry -/

/-- The registry's queue of an offset. -/
def queueAt (s : WaitMem T) (offset : ℕ) : List WaiterId :=
  (s.registry.bind fun ws => ws.byOffset.lookup offset).getD []

/-- The registry holds the parked waiters and nothing else. -/
structure RegistryInv (s : WaitMem T) : Prop where
  fresh : ∀ w, s.made ≤ w → s.queue w = none
  queues : ∀ offset, queueAt s offset = parkedAt s offset
  nonempty : ∀ ws, s.registry = some ws → ∀ offset, ws.byOffset.lookup offset ≠ some []
  active : ∀ ws, s.registry = some ws → ws.active = parkedCount s
  bound : parkedCount s < 2 ^ 32
  gone : s.registry = none ↔ parkedCount s = 0

namespace RegistryInv

variable {s : WaitMem T} {w : WaiterId} {offset : ℕ}

theorem lt_made (h : RegistryInv s) (hq : s.queue w = some offset) : w < s.made := by
  by_contra hlt
  rw [h.fresh w (Nat.le_of_not_lt hlt)] at hq
  cases hq

theorem registry_of_queue (h : RegistryInv s) (hq : s.queue w = some offset) :
    ∃ ws, s.registry = some ws := by
  cases hr : s.registry with
  | some ws => exact ⟨ws, rfl⟩
  | none =>
    have := parkedCount_pos (h.lt_made hq) hq
    have := h.gone.1 hr
    omega

theorem addWaiterLocked (h : RegistryInv s) (hbound : parkedCount s + 1 < 2 ^ 32) (offset : ℕ) :
    RegistryInv (s.addWaiterLocked offset).1 := by
  have hcount : parkedCount (s.addWaiterLocked offset).1 = parkedCount s + 1 :=
    parkedCount_add rfl rfl
  have hlookup : ∀ off, ((s.registry.getD ⟨∅, 0⟩).byOffset.lookup off).getD [] = queueAt s off := by
    intro off
    cases hr : s.registry with
    | none => simp [queueAt, hr]
    | some ws => simp [queueAt, hr]
  refine ⟨?_, ?_, ?_, ?_, by omega, ?_⟩
  · intro u hu
    have hne : u ≠ s.made := by
      simp only [WaitMem.addWaiterLocked] at hu
      omega
    simp only [WaitMem.addWaiterLocked] at hu ⊢
    rw [update_of_ne hne]
    exact h.fresh u (by omega)
  · intro off
    have hqueue : (s.addWaiterLocked offset).1.queue = Function.update s.queue s.made (some offset) :=
      rfl
    rw [parkedAt_add rfl hqueue, ← h.queues off]
    by_cases ho : off = offset
    · subst ho
      rw [queueAt, ← hlookup off]
      simp [WaitMem.addWaiterLocked]
    · rw [queueAt, ← hlookup off]
      simp [WaitMem.addWaiterLocked, ho]
  · intro ws hws off
    simp only [WaitMem.addWaiterLocked, Option.some.injEq] at hws
    subst hws
    by_cases ho : off = offset
    · subst ho
      simp
    · rw [AList.lookup_insert_ne ho]
      cases hr : s.registry with
      | none => simp
      | some ws => simpa using h.nonempty ws hr off
  · intro ws hws
    simp only [WaitMem.addWaiterLocked, Option.some.injEq] at hws
    subst hws
    have hactive : (s.registry.getD ⟨∅, 0⟩).active = parkedCount s := by
      cases hr : s.registry with
      | none => exact (h.gone.1 hr).symm
      | some ws => exact h.active ws hr
    rw [hcount]
    simp only [hactive]
    exact Nat.mod_eq_of_lt hbound
  · rw [hcount]
    exact ⟨fun hnone => (by cases hnone), fun h0 => by omega⟩

/-- The state after the removal of a parked waiter. -/
def removed (s : WaitMem T) (w : WaiterId) (offset : ℕ) (ws : WaiterState) : WaitMem T :=
  { s with
    queue := Function.update s.queue w none
    pending := parkedCount s != 1 || s.closed
    registry := if parkedCount s = 1 then none else
      some
        { byOffset :=
            if ((parkedAt s offset).erase w).isEmpty then ws.byOffset.erase offset
            else ws.byOffset.insert offset ((parkedAt s offset).erase w)
          active := parkedCount s - 1 } }

theorem removed_made (s : WaitMem T) (w : WaiterId) (offset : ℕ) (ws : WaiterState) :
    (removed s w offset ws).made = s.made := rfl

theorem removeWaiterLocked_eq (h : RegistryInv s) {ws : WaiterState} (hq : s.queue w = some offset)
    (hws : s.registry = some ws) : s.removeWaiterLocked w = (removed s w offset ws, true) := by
  have hpos := parkedCount_pos (h.lt_made hq) hq
  have hbound := h.bound
  have hactive : (ws.active + (2 ^ 32 - 1)) % 2 ^ 32 = parkedCount s - 1 := by
    rw [h.active ws hws]
    omega
  have hqueue : (ws.byOffset.lookup offset).getD [] = parkedAt s offset := by
    rw [← h.queues offset, queueAt, hws]
    rfl
  have hone : parkedCount s - 1 = 0 ↔ parkedCount s = 1 := by omega
  have hne : (parkedCount s - 1 != 0) = (parkedCount s != 1) := by
    rw [Bool.eq_iff_iff]
    simp [hone]
  simp only [WaitMem.removeWaiterLocked, hq, hws, hactive, hqueue, hone, hne, removed]

theorem removed_count (h : RegistryInv s) (ws : WaiterState) (hq : s.queue w = some offset) :
    parkedCount (removed s w offset ws) + 1 = parkedCount s :=
  parkedCount_remove (removed_made s w offset ws) rfl (h.lt_made hq) hq

theorem erase_parkedAt_of_ne (hq : s.queue w = some offset) {off : ℕ} (ho : off ≠ offset) :
    (parkedAt s off).erase w = parkedAt s off := by
  apply erase_of_not_mem
  rw [mem_parkedAt, hq]
  rintro ⟨-, heq⟩
  exact ho (Option.some.inj heq).symm

theorem removed_inv (h : RegistryInv s) {ws : WaiterState} (hq : s.queue w = some offset)
    (hws : s.registry = some ws) : RegistryInv (removed s w offset ws) := by
  have hcount := h.removed_count ws hq
  have hparked : ∀ off, parkedAt (removed s w offset ws) off = (parkedAt s off).erase w :=
    parkedAt_remove (removed_made s w offset ws) rfl
  refine ⟨?_, ?_, ?_, ?_, ?_, ?_⟩
  · intro u hu
    by_cases huw : u = w
    · simp [removed, huw]
    · simp only [removed, update_of_ne huw]
      exact h.fresh u hu
  · intro off
    by_cases hone : parkedCount s = 1
    · rw [parkedAt_eq_nil (by omega) off]
      simp [queueAt, removed, hone]
    · rw [hparked]
      by_cases ho : off = offset
      · subst ho
        by_cases hempty : (parkedAt s off).erase w = []
        · simp [queueAt, removed, hone, hempty]
        · simp [queueAt, removed, hone, hempty]
      · have hold : (ws.byOffset.lookup off).getD [] = parkedAt s off := by
          rw [← h.queues off, queueAt, hws]
          rfl
        rw [erase_parkedAt_of_ne hq ho, ← hold]
        by_cases hempty : (parkedAt s offset).erase w = []
        · simp [queueAt, removed, hone, hempty, AList.lookup_erase_ne ho]
        · simp [queueAt, removed, hone, hempty, AList.lookup_insert_ne ho]
  · intro ws' hws' off
    by_cases hone : parkedCount s = 1
    · simp [removed, hone] at hws'
    · simp only [removed, if_neg hone, Option.some.injEq] at hws'
      subst hws'
      by_cases hempty : (parkedAt s offset).erase w = []
      · by_cases ho : off = offset
        · subst ho
          simp [hempty]
        · simpa [hempty, AList.lookup_erase_ne ho] using h.nonempty ws hws off
      · by_cases ho : off = offset
        · subst ho
          simp [hempty]
        · simpa [hempty, AList.lookup_insert_ne ho] using h.nonempty ws hws off
  · intro ws' hws'
    by_cases hone : parkedCount s = 1
    · simp [removed, hone] at hws'
    · simp only [removed, if_neg hone, Option.some.injEq] at hws'
      subst hws'
      simp only
      omega
  · have := h.bound
    omega
  · by_cases hone : parkedCount s = 1
    · rw [show (removed s w offset ws).registry = none by simp [removed, hone]]
      exact ⟨fun _ => by omega, fun _ => rfl⟩
    · have hreg : (removed s w offset ws).registry ≠ none := by simp [removed, hone]
      exact ⟨fun hnone => absurd hnone hreg, fun h0 => by omega⟩

end RegistryInv

/-! ## Calls and their waiters -/

/-- The waiter a call made and has not reported on yet. -/
def WaitPc.own : WaitPc → Option WaiterId
  | .parked w _ | .giveUp w _ | .receive w => some w
  | _ => none

/-- The call is inside its section. -/
def WaitPc.inSection : WaitPc → Bool
  | .compare _ | .settle _ _ => true
  | _ => false

def GivenUp (r : WaitOutcome) : Prop := r = .ok .timedOut ∨ r = .error .cancelled

/-- What the wait of `w` can have returned: what was sent to it, or, if nothing was, that it gave
up. -/
def Agrees (s : WaitMem T) (w : WaiterId) (r : WaitOutcome) : Prop :=
  match s.result w with
  | some m => r = received m
  | none => s.queue w = none ∧ GivenUp r

def reportedIds (s : WaitMem T) : List WaiterId := s.reported.map Prod.fst

structure WaiterInv (s : WaitMem T) (pc : T → WaitPc × List MemOp) : Prop where
  unique : ∀ t u w, (pc t).1.own = some w → (pc u).1.own = some w → t = u
  live : ∀ w, (∃ t, (pc t).1.own = some w) ↔ w < s.made ∧ w ∉ reportedIds s
  queued : ∀ w, s.queue w ≠ none → s.result w = none ∧ w < s.made ∧ w ∉ reportedIds s
  resolved : ∀ t w, (pc t).1.own = some w → s.queue w = none → s.result w ≠ none
  receiving : ∀ t w, (pc t).1 = .receive w → s.queue w = none
  causes : ∀ t w r, (pc t).1 = .giveUp w r → GivenUp r
  unsent : ∀ w, s.made ≤ w → s.result w = none
  counted : ∀ w, w ∈ s.counted ↔ s.result w = some .notified
  countedOnce : s.counted.Nodup
  reported : ∀ w r, (w, r) ∈ s.reported → Agrees s w r
  reportedOnce : (reportedIds s).Nodup
  reportedMade : ∀ w ∈ reportedIds s, w < s.made

namespace WaiterInv

variable {s : WaitMem T} {pc : T → WaitPc × List MemOp} {w : WaiterId}

/-- A parked waiter is taken out of its queue and sent a signal. -/
theorem wake (h : WaiterInv s pc) (hq : s.queue w ≠ none) (m : WaitSignal) :
    WaiterInv { s with
      queue := Function.update s.queue w none
      result := Function.update s.result w (some m)
      counted := s.counted ++ if m = .notified then [w] else [] } pc := by
  obtain ⟨hnone, hlt, hids⟩ := h.queued w hq
  have hnot : w ∉ s.counted := by
    rw [h.counted, hnone]
    simp
  refine { h with queued := ?_, resolved := ?_, receiving := ?_, unsent := ?_, counted := ?_
                  countedOnce := ?_, reported := ?_ }
  · intro u hu
    by_cases huw : u = w
    · simp [huw] at hu
    · simp only [update_of_ne huw] at hu ⊢
      exact h.queued u hu
  · intro t u ht hu
    by_cases huw : u = w
    · simp [huw]
    · simp only [update_of_ne huw] at hu ⊢
      exact h.resolved t u ht hu
  · intro t u ht
    by_cases huw : u = w
    · simp [huw]
    · simp only [update_of_ne huw]
      exact h.receiving t u ht
  · intro u hu
    have huw : u ≠ w := by
      rintro rfl
      exact absurd hlt (Nat.not_lt.2 hu)
    simp only [update_of_ne huw]
    exact h.unsent u hu
  · intro u
    by_cases huw : u = w
    · cases m <;> simp [huw, hnot]
    · cases m <;> simp [huw, h.counted]
  · cases m with
    | notified =>
      rw [if_pos rfl, ← concat_eq_append]
      exact h.countedOnce.concat hnot
    | closed => simpa using h.countedOnce
  · intro u r hr
    have huw : u ≠ w := by
      rintro rfl
      exact hids (mem_map_of_mem hr)
    simp only [Agrees, update_of_ne huw]
    exact h.reported u r hr

variable [DecidableEq T] {t : T} {p : WaitPc × List MemOp}

/-- A call moves on without a new waiter and without a report. -/
theorem move (h : WaiterInv s pc) (hown : p.1.own = (pc t).1.own)
    (hrecv : ∀ w, p.1 = .receive w → s.queue w = none)
    (hcause : ∀ w r, p.1 = .giveUp w r → GivenUp r) : WaiterInv s (Function.update pc t p) := by
  have howns : ∀ u, (Function.update pc t p u).1.own = (pc u).1.own := by
    intro u
    by_cases hu : u = t
    · rw [hu, update_self, hown]
    · rw [update_of_ne hu]
  refine { h with unique := ?_, live := ?_, resolved := ?_, receiving := ?_, causes := ?_ }
  · intro u v w hu hv
    rw [howns] at hu hv
    exact h.unique u v w hu hv
  · intro w
    simp only [howns]
    exact h.live w
  · intro u w hu
    rw [howns] at hu
    exact h.resolved u w hu
  · intro u w hu
    by_cases hut : u = t
    · rw [hut, update_self] at hu
      exact hrecv w hu
    · rw [update_of_ne hut] at hu
      exact h.receiving u w hu
  · intro u w r hu
    by_cases hut : u = t
    · rw [hut, update_self] at hu
      exact hcause w r hu
    · rw [update_of_ne hut] at hu
      exact h.causes u w r hu

/-- A call parks its new waiter. -/
theorem park (h : WaiterInv s pc) (offset : ℕ) (hown : (pc t).1.own = none) {timed : Bool}
    (hp : p.1 = .parked s.made timed) :
    WaiterInv { s with made := s.made + 1, queue := Function.update s.queue s.made (some offset) }
      (Function.update pc t p) := by
  have hpown : p.1.own = some s.made := by rw [hp]; rfl
  have hnew : ∀ u, (pc u).1.own ≠ some s.made := by
    intro u hu
    exact absurd ((h.live s.made).1 ⟨u, hu⟩).1 (Nat.lt_irrefl _)
  have hfresh : s.made ∉ reportedIds s := fun hm => absurd (h.reportedMade _ hm) (Nat.lt_irrefl _)
  refine { h with unique := ?_, live := ?_, queued := ?_, resolved := ?_, receiving := ?_, causes := ?_
                  unsent := ?_, reported := ?_, reportedMade := ?_ }
  · intro u v w hu hv
    by_cases hut : u = t <;> by_cases hvt : v = t
    · rw [hut, hvt]
    · rw [hut, update_self, hpown] at hu
      rw [update_of_ne hvt, ← Option.some.inj hu] at hv
      exact absurd hv (hnew v)
    · rw [hvt, update_self, hpown] at hv
      rw [update_of_ne hut, ← Option.some.inj hv] at hu
      exact absurd hu (hnew u)
    · rw [update_of_ne hut] at hu
      rw [update_of_ne hvt] at hv
      exact h.unique u v w hu hv
  · intro w
    constructor
    · rintro ⟨u, hu⟩
      by_cases hut : u = t
      · rw [hut, update_self, hpown] at hu
        cases hu
        exact ⟨Nat.lt_succ_self _, hfresh⟩
      · rw [update_of_ne hut] at hu
        obtain ⟨hlt, hnot⟩ := (h.live w).1 ⟨u, hu⟩
        exact ⟨Nat.lt_succ_of_lt hlt, hnot⟩
    · rintro ⟨hlt, hnot⟩
      rcases Nat.lt_succ_iff_lt_or_eq.1 hlt with hlt | rfl
      · obtain ⟨u, hu⟩ := (h.live w).2 ⟨hlt, hnot⟩
        have hut : u ≠ t := by
          rintro rfl
          rw [hown] at hu
          cases hu
        exact ⟨u, by rw [update_of_ne hut]; exact hu⟩
      · exact ⟨t, by rw [update_self]; exact hpown⟩
  · intro w hw
    by_cases hws : w = s.made
    · subst hws
      exact ⟨h.unsent _ (Nat.le_refl _), Nat.lt_succ_self _, hfresh⟩
    · simp only [update_of_ne hws] at hw
      obtain ⟨h1, h2, h3⟩ := h.queued w hw
      exact ⟨h1, Nat.lt_succ_of_lt h2, h3⟩
  · intro u w hu hw
    by_cases hut : u = t
    · rw [hut, update_self, hpown] at hu
      simp [← Option.some.inj hu] at hw
    · rw [update_of_ne hut] at hu
      have hws : w ≠ s.made := by
        rintro rfl
        exact hnew u hu
      simp only [update_of_ne hws] at hw
      exact h.resolved u w hu hw
  · intro u w hu
    by_cases hut : u = t
    · rw [hut, update_self, hp] at hu
      cases hu
    · rw [update_of_ne hut] at hu
      have hws : w ≠ s.made := by
        rintro rfl
        exact hnew u (by rw [hu]; rfl)
      simp only [update_of_ne hws]
      exact h.receiving u w hu
  · intro u w r hu
    by_cases hut : u = t
    · rw [hut, update_self, hp] at hu
      cases hu
    · rw [update_of_ne hut] at hu
      exact h.causes u w r hu
  · exact fun w hw => h.unsent w (Nat.le_of_succ_le hw)
  · intro w r hr
    have hws : w ≠ s.made := by
      rintro rfl
      exact hfresh (mem_map_of_mem hr)
    simp only [Agrees, update_of_ne hws]
    exact h.reported w r hr
  · exact fun w hw => Nat.lt_succ_of_lt (h.reportedMade w hw)

/-- A call returns with the outcome of its waiter, which is no longer queued. -/
theorem report (h : WaiterInv s pc) {r : WaitOutcome} (hown : (pc t).1.own = some w)
    (hagree : Agrees { s with queue := Function.update s.queue w none } w r) (hp : p.1.own = none) :
    WaiterInv { s with queue := Function.update s.queue w none, reported := s.reported ++ [(w, r)] }
      (Function.update pc t p) := by
  have hids : (s.reported ++ [(w, r)]).map Prod.fst = reportedIds s ++ [w] := map_append
  obtain ⟨hlt, hfresh⟩ := (h.live w).1 ⟨t, hown⟩
  have hother : ∀ u v, (Function.update pc t p u).1.own = some v → u ≠ t ∧ v ≠ w ∧ (pc u).1.own = some v := by
    intro u v hu
    have hut : u ≠ t := by
      rintro rfl
      rw [update_self, hp] at hu
      cases hu
    rw [update_of_ne hut] at hu
    refine ⟨hut, ?_, hu⟩
    rintro rfl
    exact hut (h.unique u t v hu hown)
  refine { h with unique := ?_, live := ?_, queued := ?_, resolved := ?_, receiving := ?_, causes := ?_
                  reported := ?_, reportedOnce := ?_, reportedMade := ?_ }
  · intro u v x hu hv
    exact h.unique u v x (hother u x hu).2.2 (hother v x hv).2.2
  · intro v
    rw [reportedIds, hids]
    constructor
    · rintro ⟨u, hu⟩
      obtain ⟨-, hvw, hu⟩ := hother u v hu
      obtain ⟨hv, hnot⟩ := (h.live v).1 ⟨u, hu⟩
      exact ⟨hv, by simp [hnot, hvw]⟩
    · rintro ⟨hv, hnot⟩
      simp only [mem_append, mem_singleton, not_or] at hnot
      obtain ⟨u, hu⟩ := (h.live v).2 ⟨hv, hnot.1⟩
      have hut : u ≠ t := by
        rintro rfl
        rw [hown] at hu
        exact hnot.2 (Option.some.inj hu).symm
      exact ⟨u, by rw [update_of_ne hut]; exact hu⟩
  · intro v hv
    have hvw : v ≠ w := by
      rintro rfl
      simp at hv
    simp only [update_of_ne hvw] at hv
    obtain ⟨h1, h2, h3⟩ := h.queued v hv
    rw [reportedIds, hids]
    exact ⟨h1, h2, by simp [h3, hvw]⟩
  · intro u v hu hv
    obtain ⟨-, hvw, hu⟩ := hother u v hu
    simp only [update_of_ne hvw] at hv
    exact h.resolved u v hu hv
  · intro u v hu
    obtain ⟨hut, hvw, -⟩ := hother u v (by rw [hu]; rfl)
    rw [update_of_ne hut] at hu
    simp only [update_of_ne hvw]
    exact h.receiving u v hu
  · intro u v x hu
    obtain ⟨hut, -, -⟩ := hother u v (by rw [hu]; rfl)
    rw [update_of_ne hut] at hu
    exact h.causes u v x hu
  · intro v x hv
    rcases mem_append.1 hv with hold | hnew
    · have hvw : v ≠ w := by
        rintro rfl
        exact hfresh (mem_map_of_mem hold)
      simp only [Agrees, update_of_ne hvw]
      exact h.reported v x hold
    · cases mem_singleton.1 hnew
      exact hagree
  · rw [reportedIds, hids, ← concat_eq_append]
    exact h.reportedOnce.concat hfresh
  · intro v hv
    rw [reportedIds, hids, mem_append, mem_singleton] at hv
    rcases hv with hv | rfl
    · exact h.reportedMade v hv
    · exact hlt

end WaiterInv

end Wago.Runtime
