/-
What each event of a reference store can do, said once. A registration leaves the store alone, counts
keys and stops at the GC domain, or publishes the instance; an abort and the last lifetime event of an
instance take it out; other lifetime events mark its entry; everything else leaves the instances alone.
-/
import Wago.Runtime.ReferenceStore

namespace Wago.Runtime.Store

variable {P : StoreProgram} {s s' : Store} {i : Nat}

/-! ## Events that leave the instances alone -/

structure SameInstances (s s' : Store) : Prop where
  instances : s'.instances = s.instances
  typeKeys : s'.typeKeys = s.typeKeys
  instanceTypes : s'.instanceTypes = s.instanceTypes

theorem SameInstances.refl (s : Store) : SameInstances s s := ⟨rfl, rfl, rfl⟩

theorem acquireGCCollector_same (s : Store) (request : AcquireRequest) :
    SameInstances s (s.acquireGCCollector request).2 := by
  unfold acquireGCCollector
  split
  · exact .refl s
  · split
    · exact .refl s
    · split
      · exact .refl s
      · dsimp only
        split
        · split
          · exact .refl s
          · exact ⟨rfl, rfl, rfl⟩
        · split
          · exact .refl s
          · exact ⟨rfl, rfl, rfl⟩

theorem dropClaim_same (s : Store) (collector : Nat) : SameInstances s (s.dropClaim collector) := by
  unfold dropClaim
  dsimp only
  split
  · exact .refl s
  · split <;> exact ⟨rfl, rfl, rfl⟩

theorem reapUnclaimed_same (s : Store) (collector : Nat) :
    SameInstances s (s.reapUnclaimed collector) := by
  unfold reapUnclaimed
  dsimp only
  split
  · split
    · exact ⟨rfl, rfl, rfl⟩
    · split <;> exact ⟨rfl, rfl, rfl⟩
  · exact .refl s

/-- Registrations, aborts and lifetime events are about an instance. -/
def Event.aboutInstance : Event → Bool
  | .register _ _ => true
  | .abort _ => true
  | .lifetime _ _ => true
  | _ => false

theorem apply_same {e : Event} (he : e.aboutInstance = false) : SameInstances s (s.apply P e) := by
  cases e with
  | acquire request => exact acquireGCCollector_same s request
  | dropClaim collector => exact dropClaim_same s collector
  | reapUnclaimed collector => exact reapUnclaimed_same s collector
  | register early i => cases he
  | abort i => cases he
  | lifetime i event => cases he
  | registerStoreObject =>
    dsimp only [apply]
    split <;> exact ⟨rfl, rfl, rfl⟩
  | storeObjectClosed => exact ⟨rfl, rfl, rfl⟩
  | hostFuncRefClosed => exact ⟨rfl, rfl, rfl⟩
  | closeRuntime => exact ⟨rfl, rfl, rfl⟩
  | issueGCRef => exact ⟨rfl, rfl, rfl⟩
  | releaseGCRef => exact ⟨rfl, rfl, rfl⟩

/-! ## Registration -/

/-- A registration that reaches the GC domain has passed these checks. -/
structure Admitted (P : StoreProgram) (s : Store) (early : Option String) (i : Nat)
    (candidate : GoMap Nat (List UInt8)) (keys : List Nat) : Prop where
  prepared : early = none
  isOpen : ¬ (s.runtimeClosed = true ∧ s.priv = false)
  nonzero : i ≠ 0
  absent : i ∉ s.instances
  live : s.liveInstances ≠ maxUint32
  collected : collectKeys s.typeKeys 0 ∅ [] 0 (P.functions i) = .ok (candidate, keys)
  room : ∀ key ∈ keys, ∀ registered, s.typeKeys.lookup key = some registered →
    registered.refs ≠ maxUint32

/-- A registration that passed the checks counts its keys and then claims its domain. -/
theorem Admitted.registerInstance {early : Option String} {candidate : GoMap Nat (List UInt8)}
    {keys : List Nat} (h : Admitted P s early i candidate keys) :
    s.registerInstance P early i = match claimDomain s.gcDomains (P.gc i) with
      | .error e => (some e, s.countKeys candidate keys)
      | .ok (t, d) => (none, (s.countKeys candidate keys).publish i keys t d) := by
  have hroom : (keys.find? fun key => ∃ registered ∈ s.typeKeys.lookup key, registered.refs = maxUint32) =
      none := by
    refine List.find?_eq_none.2 fun key hkey hfull => ?_
    obtain ⟨registered, hreg, hmax⟩ := of_decide_eq_true hfull
    exact h.room key hkey registered hreg hmax
  obtain rfl := h.prepared
  unfold Store.registerInstance
  simp only [if_neg h.isOpen, if_neg h.nonzero, if_neg h.absent, if_neg h.live, h.collected, hroom]
  rfl

/-- A registration stops with nothing changed, or passes the checks before the domain. -/
theorem registerInstance_cases {early : Option String} {r : Option RegisterError}
    (h : s.registerInstance P early i = (r, s')) :
    s' = s ∨ ∃ candidate keys, Admitted P s early i candidate keys := by
  have hstop : ∀ r', (r', s) = (r, s') → s' = s := by
    intro r' heq
    cases heq
    rfl
  unfold Store.registerInstance at h
  cases early with
  | some message => exact .inl (hstop _ h)
  | none =>
    dsimp only at h
    split at h
    · exact .inl (hstop _ h)
    · rename_i hopen
      split at h
      · exact .inl (hstop _ h)
      · rename_i hi0
        split at h
        · exact .inl (hstop _ h)
        · rename_i hout
          split at h
          · exact .inl (hstop _ h)
          · rename_i hlive
            split at h
            · exact .inl (hstop _ h)
            · rename_i candidate keys hcollect
              split at h
              · exact .inl (hstop _ h)
              · rename_i hroom
                refine .inr ⟨candidate, keys, rfl, hopen, hi0, hout, hlive, hcollect, ?_⟩
                intro key hkey registered hreg hmax
                have hmiss := List.find?_eq_none.1 hroom key hkey
                exact hmiss (decide_eq_true ⟨registered, hreg, hmax⟩)

/-- The collector has a domain that takes no further instance. -/
def DomainRefuses (t : Topology) (gc : Option Nat) : Prop :=
  ∃ collector ∈ gc, t.domainForCollectorLocked collector ≠ 0 ∧
    (t.refs (t.domainForCollectorLocked collector) = maxUint32 ∨
      t.claims (t.domainForCollectorLocked collector) = 0)

theorem claimDomain_error_iff {t : Topology} {gc : Option Nat} :
    (∃ e, claimDomain t gc = .error e) ↔ DomainRefuses t gc := by
  cases gc with
  | none => simp [claimDomain, DomainRefuses]
  | some collector =>
    simp only [claimDomain, DomainRefuses, Option.mem_some_iff, exists_eq_left']
    split
    · rename_i hnone
      simp [hnone]
    · rename_i hdomain
      split
      · rename_i hfull
        simp [hdomain, hfull]
      · rename_i hfull
        split
        · rename_i hclaims
          simp [hdomain, hclaims]
        · rename_i hclaims
          simp [hfull, hclaims]

/-! ## Leaving and marking -/

/-- The instance left: its entry and its keys are gone. -/
structure Leaves (s : Store) (i : Nat) (s' : Store) : Prop where
  instances : s'.instances = s.instances.erase i
  typeKeys : s'.typeKeys = ((s.instanceTypes.lookup i).getD []).foldl releaseKey s.typeKeys
  instanceTypes : s'.instanceTypes = s.instanceTypes.erase i

/-- An event marked the instance's entry and perhaps took it out of its domain. -/
structure Marks (s : Store) (i : Nat) (entry : StoreInstance) (event : LifetimeEvent) (s' : Store) :
    Prop where
  instances : ∃ gcDomain, s'.instances = s.instances.insert i { event.mark entry with gcDomain }
  typeKeys : s'.typeKeys = s.typeKeys
  instanceTypes : s'.instanceTypes = s.instanceTypes

theorem applyLifetime_marks (s : Store) (i : Nat) (entry : StoreInstance) (event : LifetimeEvent) :
    Marks s i entry event (s.applyLifetime i entry event) := by
  unfold applyLifetime
  cases event with
  | closed =>
    dsimp only
    split <;> exact ⟨⟨_, rfl⟩, rfl, rfl⟩
  | quiesced => exact ⟨⟨_, rfl⟩, rfl, rfl⟩
  | resourcesReleased =>
    dsimp only
    split
    · exact ⟨⟨_, rfl⟩, rfl, rfl⟩
    · exact ⟨⟨_, AList.insert_insert _⟩, rfl, rfl⟩

/-- Taking out an entry that an event just marked is taking out the instance. -/
theorem Marks.forget {entry : StoreInstance} {event : LifetimeEvent} (h : Marks s i entry event s') :
    Leaves s i (s'.forget i) := by
  obtain ⟨gcDomain, hinst⟩ := h.instances
  refine ⟨?_, ?_, ?_⟩
  · change s'.instances.erase i = _
    rw [hinst, AssocMap.erase_insert]
  · change ((s'.instanceTypes.lookup i).getD []).foldl releaseKey s'.typeKeys = _
    rw [h.instanceTypes, h.typeKeys]
  · change s'.instanceTypes.erase i = _
    rw [h.instanceTypes]

/-- The outcomes of a lifetime event. -/
theorem advanceEntry_cases (s : Store) (i : Nat) (event : LifetimeEvent) :
    (s.instances.lookup i = none ∧ s.advanceEntry i event = s) ∨
    ∃ entry, s.instances.lookup i = some entry ∧
      let last := (event.mark entry).closeAccounted = true ∧ (event.mark entry).quiesced = true ∧
        (event.mark entry).resourcesReleased = true
      ((last ∧ Leaves s i (s.advanceEntry i event)) ∨
        (¬ last ∧ Marks s i entry event (s.advanceEntry i event))) := by
  unfold advanceEntry
  cases hl : s.instances.lookup i with
  | none => exact .inl ⟨rfl, rfl⟩
  | some entry =>
    refine .inr ⟨entry, rfl, ?_⟩
    dsimp only
    split
    · rename_i hlast
      exact .inl ⟨hlast, (applyLifetime_marks s i entry event).forget⟩
    · rename_i hmore
      exact .inr ⟨hmore, applyLifetime_marks s i entry event⟩

/-- The outcomes of an abort. -/
theorem abortEntry_cases (s : Store) (i : Nat) :
    (s.instances.lookup i = none ∧ s.abortEntry i = s) ∨
    ∃ entry, s.instances.lookup i = some entry ∧ Leaves s i (s.abortEntry i) := by
  unfold abortEntry
  cases hl : s.instances.lookup i with
  | none => exact .inl ⟨rfl, rfl⟩
  | some entry =>
    refine .inr ⟨entry, rfl, ?_⟩
    dsimp only
    split <;> exact ⟨AssocMap.erase_insert _ _ _, rfl, rfl⟩

end Wago.Runtime.Store
