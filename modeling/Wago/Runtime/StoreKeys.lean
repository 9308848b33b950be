/-
The native type keys of a store. While no registration stops at the GC domain after its keys were
counted, every key's count is the number of registered instances that list it, and the instances agree
on its exact identity. A registration that stops there leaves its keys counted.
-/
import Wago.Runtime.ReferenceStoreSteps

namespace Wago.Runtime.Store

open Option List

variable {P : StoreProgram} {s s' : Store}

/-! ## The keys of one instance -/

/-- What the loop over the functions keeps: the keys so far, each once and with an identity that the
store does not contradict. -/
structure Collected (typeKeys : GoMap Nat TypeRegistration) (candidate : GoMap Nat (List UInt8))
    (keys : List Nat) : Prop where
  nodup : keys.Nodup
  mem : ∀ key, key ∈ keys ↔ ∃ canonical, candidate.lookup key = some canonical
  agrees : ∀ key canonical, candidate.lookup key = some canonical →
    ∀ registered, typeKeys.lookup key = some registered → registered.canonical = canonical

theorem collectKeys_ok {typeKeys : GoMap Nat TypeRegistration} :
    ∀ {fs : List (Nat × Except String (List UInt8))} {index : Nat}
      {candidate candidate' : GoMap Nat (List UInt8)} {keys keys' : List Nat} {n : Nat},
      Collected typeKeys candidate keys →
      collectKeys typeKeys index candidate keys n fs = .ok (candidate', keys') →
      Collected typeKeys candidate' keys' ∧
        (∀ key canonical, candidate.lookup key = some canonical →
          candidate'.lookup key = some canonical) ∧
        (∀ f ∈ fs, ∃ canonical, f.2 = .ok canonical ∧ candidate'.lookup f.1 = some canonical) ∧
        ∀ key ∈ keys', key ∈ keys ∨ ∃ f ∈ fs, f.1 = key
  | [], _, _, _, _, _, _, hc, h => by
    cases h
    exact ⟨hc, fun _ _ h => h, by simp, fun key hk => .inl hk⟩
  | (key, .error _) :: _, _, _, _, _, _, _, _, h => by cases h
  | (key, .ok canonical) :: rest, index, candidate, candidate', keys, keys', n, hc, h => by
    unfold collectKeys at h
    -- either way the rest is collected from a state that has the key
    have hrest : ∀ candidate₁ keys₁ n₁, Collected typeKeys candidate₁ keys₁ →
        candidate₁.lookup key = some canonical →
        (∀ k c, candidate.lookup k = some c → candidate₁.lookup k = some c) →
        (∀ k ∈ keys₁, k ∈ keys ∨ k = key) →
        collectKeys typeKeys (index + 1) candidate₁ keys₁ n₁ rest = .ok (candidate', keys') →
        Collected typeKeys candidate' keys' ∧
          (∀ k c, candidate.lookup k = some c → candidate'.lookup k = some c) ∧
          (∀ f ∈ (key, Except.ok canonical) :: rest, ∃ c, f.2 = .ok c ∧ candidate'.lookup f.1 = some c) ∧
          ∀ k ∈ keys', k ∈ keys ∨ ∃ f ∈ (key, Except.ok canonical) :: rest, f.1 = k := by
      intro candidate₁ keys₁ n₁ hc₁ hkey hsub hkeys hcall
      obtain ⟨hc', hsub', hfs, hks⟩ := collectKeys_ok hc₁ hcall
      refine ⟨hc', fun k c hk => hsub' k c (hsub k c hk), ?_, ?_⟩
      · intro f hf
        rcases mem_cons.1 hf with rfl | hf
        · exact ⟨canonical, rfl, hsub' key canonical hkey⟩
        · exact hfs f hf
      · intro k hk
        rcases hks k hk with hk | ⟨f, hf, rfl⟩
        · rcases hkeys k hk with hk | rfl
          · exact .inl hk
          · exact .inr ⟨_, .head _, rfl⟩
        · exact .inr ⟨f, .tail _ hf, rfl⟩
    split at h
    · rename_i prior hprior
      split at h
      · cases h
      · rename_i heq
        rw [not_not.1 heq] at hprior
        exact hrest candidate keys n hc hprior (fun _ _ h => h) (fun k hk => .inl hk) h
    · rename_i hnew
      split at h
      · cases h
      · split at h
        · cases h
        · rename_i hagrees
          refine hrest _ _ _ ⟨?_, ?_, ?_⟩ (AList.lookup_insert _) ?_ ?_ h
          · refine nodup_append.2 ⟨hc.nodup, nodup_singleton key, ?_⟩
            rintro a ha b hb rfl
            obtain ⟨c, hac⟩ := (hc.mem a).1 ha
            rw [mem_singleton.1 hb, hnew] at hac
            cases hac
          · intro k
            rw [mem_append, mem_singleton, hc.mem, AssocMap.lookup_insert]
            by_cases hk : k = key <;> simp [hk]
          · intro k c hk registered hreg
            rw [AssocMap.lookup_insert] at hk
            split at hk
            · rename_i hkk
              subst hkk
              cases hk
              by_contra hne
              exact hagrees ⟨registered, hreg, hne⟩
            · exact hc.agrees k c hk registered hreg
          · intro k c hk
            rw [AssocMap.lookup_insert, if_neg, hk]
            rintro rfl
            rw [hnew] at hk
            cases hk
          · intro k hk
            rw [mem_append, mem_singleton] at hk
            exact hk

/-- The instance has a function with the key. -/
def listsKey (P : StoreProgram) (i key : Nat) : Bool := (P.functions i).any fun f => f.1 = key

theorem listsKey_iff {i key : Nat} : listsKey P i key = true ↔ ∃ f ∈ P.functions i, f.1 = key := by
  simp [listsKey]

theorem Admitted.keys_spec {early : Option String} {i : Nat} {candidate : GoMap Nat (List UInt8)}
    {keys : List Nat} (h : Admitted P s early i candidate keys) :
    Collected s.typeKeys candidate keys ∧ (∀ key, key ∈ keys ↔ listsKey P i key = true) ∧
      ∀ f ∈ P.functions i, ∃ canonical, f.2 = .ok canonical ∧ candidate.lookup f.1 = some canonical := by
  have hstart : Collected s.typeKeys ∅ [] :=
    ⟨nodup_nil, by simp, fun key canonical hk => by cases hk⟩
  obtain ⟨hc, -, hfs, hkeys⟩ := collectKeys_ok hstart h.collected
  refine ⟨hc, fun key => ?_, hfs⟩
  rw [listsKey_iff]
  constructor
  · intro hk
    exact (hkeys key hk).resolve_left not_mem_nil
  · rintro ⟨f, hf, rfl⟩
    obtain ⟨canonical, -, hl⟩ := hfs f hf
    exact (hc.mem f.1).2 ⟨canonical, hl⟩

/-! ## Counting -/

/-- A key's count, zero when it is not in the table. -/
def keyCount (s : Store) (key : Nat) : Nat := ((s.typeKeys.lookup key).map (·.refs)).getD 0

theorem lookup_retain (candidate : GoMap Nat (List UInt8)) {keys : List Nat}
    (typeKeys : GoMap Nat TypeRegistration) (hnd : keys.Nodup) (key : Nat) :
    (keys.foldl (retainKey candidate) typeKeys).lookup key =
      if key ∈ keys then
        let registered := (typeKeys.lookup key).getD ⟨(candidate.lookup key).getD [], 0⟩
        some { registered with refs := registered.refs + 1 }
      else typeKeys.lookup key := by
  refine AssocMap.foldl_update (fun (m : GoMap Nat TypeRegistration) k => m.lookup k)
    (f := fun k o =>
      let registered := o.getD ⟨(candidate.lookup k).getD [], 0⟩
      some { registered with refs := registered.refs + 1 }) ?_ typeKeys hnd key
  intro m a b
  exact AssocMap.lookup_insert m a b _

theorem lookup_release {keys : List Nat} (typeKeys : GoMap Nat TypeRegistration) (hnd : keys.Nodup)
    (key : Nat) : (keys.foldl releaseKey typeKeys).lookup key =
      if key ∈ keys then
        (typeKeys.lookup key).bind fun registered =>
          if registered.refs ≤ 1 then none else some { registered with refs := registered.refs - 1 }
      else typeKeys.lookup key := by
  refine AssocMap.foldl_update (fun (m : GoMap Nat TypeRegistration) k => m.lookup k)
    (f := fun _ o => o.bind fun registered =>
      if registered.refs ≤ 1 then none else some { registered with refs := registered.refs - 1 })
    ?_ typeKeys hnd key
  intro m a b
  unfold releaseKey
  cases hl : m.lookup a with
  | none =>
    dsimp only
    split
    · rename_i hba
      rw [hba, hl]
      rfl
    · rfl
  | some registered =>
    dsimp only [bind_some]
    by_cases hone : registered.refs ≤ 1
    · rw [if_pos hone, if_pos hone, AssocMap.lookup_erase]
    · rw [if_neg hone, if_neg hone, AssocMap.lookup_insert]

/-- The key table over the registered instances. -/
structure Keyed (P : StoreProgram) (s : Store) : Prop where
  types : ∀ i, i ∈ s.instances → ∃ keys, s.instanceTypes.lookup i = some keys ∧ keys.Nodup ∧
    ∀ key, key ∈ keys ↔ listsKey P i key = true
  count : ∀ key, s.keyCount key = AssocMap.count (fun i _ => listsKey P i key) s.instances
  positive : ∀ key registered, s.typeKeys.lookup key = some registered → 0 < registered.refs
  identity : ∀ i ∈ s.instances, ∀ f ∈ P.functions i, ∃ canonical registered, f.2 = .ok canonical ∧
    s.typeKeys.lookup f.1 = some registered ∧ registered.canonical = canonical

theorem keyed_new (P : StoreProgram) (priv : Bool) : Keyed P (newReferenceStore priv) := by
  have hnone : ∀ i, i ∉ (newReferenceStore priv).instances := by
    intro i h
    obtain ⟨entry, hl⟩ := AssocMap.mem_iff.1 h
    cases hl
  refine ⟨fun i h => absurd h (hnone i), fun key => rfl, fun key registered h => ?_,
    fun i h => absurd h (hnone i)⟩
  cases h

theorem Keyed.same (h : Keyed P s) (hinst : s'.instances = s.instances)
    (hkeys : s'.typeKeys = s.typeKeys) (htypes : s'.instanceTypes = s.instanceTypes) : Keyed P s' := by
  refine ⟨?_, fun key => ?_, ?_, ?_⟩
  · rw [hinst, htypes]
    exact h.types
  · unfold keyCount
    rw [hkeys, hinst]
    exact h.count key
  · rw [hkeys]
    exact h.positive
  · rw [hinst, hkeys]
    exact h.identity

/-- An event that rewrites an entry does not change who lists a key. -/
theorem Keyed.marks {i : Nat} {entry : StoreInstance} {event : LifetimeEvent} (h : Keyed P s)
    (hl : s.instances.lookup i = some entry) (hs : Marks s i entry event s') : Keyed P s' := by
  obtain ⟨gcDomain, hinst⟩ := hs.instances
  have hmem : ∀ j, j ∈ s'.instances ↔ j ∈ s.instances := by
    intro j
    rw [hinst, AList.mem_insert]
    refine ⟨?_, .inr⟩
    rintro (rfl | hj)
    · exact AssocMap.mem_iff.2 ⟨entry, hl⟩
    · exact hj
  refine ⟨fun j hj => ?_, fun key => ?_, ?_, fun j hj => ?_⟩
  · rw [hs.instanceTypes]
    exact h.types j ((hmem j).1 hj)
  · have hcount := AssocMap.count_eq_erase (fun j _ => listsKey P j key) s.instances i
    rw [hl] at hcount
    rw [hinst, AssocMap.count_insert]
    unfold keyCount
    rw [hs.typeKeys]
    exact (h.count key).trans hcount
  · rw [hs.typeKeys]
    exact h.positive
  · rw [hs.typeKeys]
    exact h.identity j ((hmem j).1 hj)

theorem Keyed.leaves {i : Nat} (h : Keyed P s) (hi : i ∈ s.instances) (hs : Leaves s i s') :
    Keyed P s' := by
  obtain ⟨entry, hl⟩ := AssocMap.mem_iff.1 hi
  obtain ⟨keys, hkeys, hnd, hlist⟩ := h.types i hi
  have hlookup : ∀ key, s'.typeKeys.lookup key =
      if key ∈ keys then
        (s.typeKeys.lookup key).bind fun registered =>
          if registered.refs ≤ 1 then none else some { registered with refs := registered.refs - 1 }
      else s.typeKeys.lookup key := by
    intro key
    rw [hs.typeKeys, hkeys]
    exact lookup_release s.typeKeys hnd key
  have hcount : ∀ key, s'.keyCount key =
      AssocMap.count (fun j _ => listsKey P j key) (s.instances.erase i) := by
    intro key
    have hold := h.count key
    rw [AssocMap.count_eq_erase _ s.instances i, hl] at hold
    unfold keyCount at hold ⊢
    rw [hlookup]
    by_cases hk : key ∈ keys
    · have hcounted : (Option.any (fun _ => listsKey P i key) (some entry)) = true := (hlist key).1 hk
      rw [if_pos hcounted] at hold
      rw [if_pos hk]
      cases hreg : s.typeKeys.lookup key with
      | none =>
        rw [hreg] at hold
        exact absurd hold (by simp)
      | some registered =>
        rw [hreg] at hold
        simp only [map_some, getD_some] at hold
        rw [bind_some]
        split
        · simp only [map_none, getD_none]
          omega
        · simp only [map_some, getD_some]
          omega
    · have hout : (Option.any (fun _ => listsKey P i key) (some entry)) = false := by
        rw [← Bool.not_eq_true]
        exact fun hc => hk ((hlist key).2 hc)
      rw [if_neg hk]
      simpa [hout] using hold
  refine ⟨fun j hj => ?_, fun key => ?_, fun key registered hr => ?_, fun j hj f hf => ?_⟩
  · rw [hs.instances, AList.mem_erase] at hj
    obtain ⟨keys', hk', hrest⟩ := h.types j hj.2
    refine ⟨keys', ?_, hrest⟩
    rw [hs.instanceTypes, AssocMap.lookup_erase, if_neg hj.1, hk']
  · rw [hs.instances]
    exact hcount key
  · rw [hlookup] at hr
    split at hr
    · obtain ⟨old, hold, hr⟩ := bind_eq_some_iff.1 hr
      split at hr
      · cases hr
      · cases hr
        dsimp only
        omega
    · exact h.positive key registered hr
  · -- `j` still counts, so its key is still in the table
    rw [hs.instances, AList.mem_erase] at hj
    obtain ⟨canonical, registered, hok, hreg, hcanon⟩ := h.identity j hj.2 f hf
    have hpos : 0 < s'.keyCount f.1 := by
      rw [hcount, AssocMap.count_pos_iff]
      obtain ⟨entry', hl'⟩ := AssocMap.mem_iff.1 hj.2
      refine ⟨j, entry', ?_, listsKey_iff.2 ⟨f, hf, rfl⟩⟩
      rw [AssocMap.lookup_erase, if_neg hj.1, hl']
    unfold keyCount at hpos
    rw [hlookup, hreg] at hpos
    rw [hlookup, hreg]
    split
    · rename_i hk
      rw [if_pos hk] at hpos
      rw [bind_some] at hpos ⊢
      split
      · rename_i hone
        rw [if_pos hone] at hpos
        exact absurd hpos (Nat.lt_irrefl 0)
      · exact ⟨canonical, _, hok, rfl, hcanon⟩
    · exact ⟨canonical, registered, hok, rfl, hcanon⟩

theorem Keyed.publish {early : Option String} {i : Nat} {candidate : GoMap Nat (List UInt8)}
    {keys : List Nat} {t : Topology} {d : EntryDomain} (h : Keyed P s)
    (hadm : Admitted P s early i candidate keys) :
    Keyed P ((s.countKeys candidate keys).publish i keys t d) := by
  obtain ⟨hc, hlist, hfs⟩ := hadm.keys_spec
  have hlookup := lookup_retain candidate s.typeKeys hc.nodup
  -- a key of the new instance has its identity, from the table or from the candidate
  have hcanon : ∀ key canonical, candidate.lookup key = some canonical →
      ((s.typeKeys.lookup key).getD ⟨(candidate.lookup key).getD [], 0⟩).canonical = canonical := by
    intro key canonical hk
    cases hreg : s.typeKeys.lookup key with
    | none => rw [hk]; rfl
    | some registered => exact hc.agrees key canonical hk registered hreg
  refine ⟨fun j hj => ?_, fun key => ?_, fun key registered hr => ?_, fun j hj f hf => ?_⟩
  · change j ∈ s.instances.insert i _ at hj
    change ∃ keys', (s.instanceTypes.insert i keys).lookup j = some keys' ∧ _
    rw [AssocMap.lookup_insert]
    by_cases hji : j = i
    · subst hji
      exact ⟨keys, if_pos rfl, hc.nodup, hlist⟩
    · rw [if_neg hji]
      exact h.types j (((AList.mem_insert _).1 hj).resolve_left hji)
  · change (((keys.foldl (retainKey candidate) s.typeKeys).lookup key).map (·.refs)).getD 0 =
      AssocMap.count _ (s.instances.insert i _)
    have hold := h.count key
    rw [AssocMap.count_eq_erase _ s.instances i, AList.lookup_eq_none.2 hadm.absent] at hold
    rw [AssocMap.count_insert, hlookup]
    unfold keyCount at hold
    by_cases hk : key ∈ keys
    · rw [if_pos hk, if_pos ((hlist key).1 hk)]
      cases hreg : s.typeKeys.lookup key with
      | none =>
        rw [hreg] at hold
        simpa using hold.symm
      | some registered =>
        rw [hreg] at hold
        simpa using hold
    · rw [if_neg hk, if_neg fun hc => hk ((hlist key).2 hc)]
      simpa using hold
  · change (keys.foldl (retainKey candidate) s.typeKeys).lookup key = some registered at hr
    rw [hlookup] at hr
    split at hr
    · cases hr
      exact Nat.succ_pos _
    · exact h.positive key registered hr
  · change j ∈ s.instances.insert i _ at hj
    change ∃ canonical registered, _ ∧
      (keys.foldl (retainKey candidate) s.typeKeys).lookup f.1 = some registered ∧ _
    rw [hlookup]
    by_cases hji : j = i
    · subst hji
      obtain ⟨canonical, hok, hk⟩ := hfs f hf
      rw [if_pos ((hc.mem f.1).2 ⟨canonical, hk⟩)]
      exact ⟨canonical, _, hok, rfl, hcanon f.1 canonical hk⟩
    · obtain ⟨canonical, registered, hok, hreg, hcan⟩ :=
        h.identity j (((AList.mem_insert _).1 hj).resolve_left hji) f hf
      rw [hreg]
      split
      · exact ⟨canonical, _, hok, rfl, hcan⟩
      · exact ⟨canonical, registered, hok, rfl, hcan⟩

/-! ## Failing registrations -/

/-- The registration passes the checks before the GC domain, has keys to count and finds a domain that
takes no further instance. -/
def StopsCounted (P : StoreProgram) (s : Store) : Event → Prop
  | .register early i => (∃ candidate keys, Admitted P s early i candidate keys) ∧ P.functions i ≠ [] ∧
      DomainRefuses s.gcDomains (P.gc i)
  | _ => False

/-- Counting a key changes the table. -/
theorem countKeys_ne {candidate : GoMap Nat (List UInt8)} {keys : List Nat} {key : Nat}
    (hnd : keys.Nodup) (hk : key ∈ keys) : (s.countKeys candidate keys).typeKeys ≠ s.typeKeys := by
  intro heq
  have hl := lookup_retain candidate s.typeKeys hnd key
  rw [if_pos hk] at hl
  change (s.countKeys candidate keys).typeKeys.lookup key = _ at hl
  rw [heq] at hl
  cases hreg : s.typeKeys.lookup key with
  | none => rw [hreg] at hl; cases hl
  | some registered =>
    rw [hreg] at hl
    have hrefs := congrArg TypeRegistration.refs (Option.some.inj hl)
    exact absurd hrefs (Nat.ne_of_lt (Nat.lt_succ_self _))

theorem countKeys_eq_iff {early : Option String} {i : Nat} {candidate : GoMap Nat (List UInt8)}
    {keys : List Nat} (h : Admitted P s early i candidate keys) :
    (s.countKeys candidate keys).typeKeys = s.typeKeys ↔ P.functions i = [] := by
  obtain ⟨hc, hlist, -⟩ := h.keys_spec
  constructor
  · intro heq
    by_contra hfs
    obtain ⟨f, hf⟩ := exists_mem_of_ne_nil _ hfs
    exact countKeys_ne hc.nodup ((hlist f.1).2 (listsKey_iff.2 ⟨f, hf, rfl⟩)) heq
  · intro hfs
    have hkeys : keys = [] := by
      refine eq_nil_iff_forall_not_mem.2 fun key hk => ?_
      obtain ⟨f, hf, -⟩ := listsKey_iff.1 ((hlist key).1 hk)
      rw [hfs] at hf
      exact not_mem_nil hf
    rw [hkeys]
    rfl

/-- A failing registration leaves domains and instances as they were, and the key table unless it
stopped at the domain with keys to count. -/
theorem registerInstance_failed {early : Option String} {i : Nat} {e : RegisterError}
    (h : s.registerInstance P early i = (some e, s')) :
    s'.gcDomains = s.gcDomains ∧ s'.instances = s.instances ∧ s'.instanceTypes = s.instanceTypes ∧
      (s'.typeKeys = s.typeKeys ↔ ¬ s.StopsCounted P (.register early i)) := by
  by_cases hadm : ∃ candidate keys, Admitted P s early i candidate keys
  · obtain ⟨candidate, keys, hadm⟩ := hadm
    rw [hadm.registerInstance] at h
    rcases hclaim : claimDomain s.gcDomains (P.gc i) with e' | ⟨t, d⟩
    · rw [hclaim] at h
      cases h
      have hrefuses := claimDomain_error_iff.1 ⟨_, hclaim⟩
      refine ⟨rfl, rfl, rfl, (countKeys_eq_iff hadm).trans ⟨fun hfs hstops => hstops.2.1 hfs, fun hgoes => ?_⟩⟩
      by_contra hfs
      exact hgoes ⟨⟨candidate, keys, hadm⟩, hfs, hrefuses⟩
    · rw [hclaim] at h
      cases h
  · rcases registerInstance_cases h with rfl | hpassed
    · exact ⟨rfl, rfl, rfl, fun _ hstops => hadm hstops.1, fun _ => rfl⟩
    · exact absurd hpassed hadm

/-! ## Histories -/

theorem Keyed.apply {e : Event} (h : Keyed P s) (hok : ¬ s.StopsCounted P e) : Keyed P (s.apply P e) := by
  cases he : e.aboutInstance with
  | false =>
    have hs := apply_same (P := P) (s := s) he
    exact h.same hs.instances hs.typeKeys hs.instanceTypes
  | true =>
    cases e with
    | register early i =>
      rcases hreg : s.registerInstance P early i with ⟨r, s'⟩
      dsimp only [Store.apply]
      rw [hreg]
      cases r with
      | some e =>
        obtain ⟨-, hinst, htypes, hkeys⟩ := registerInstance_failed hreg
        exact h.same hinst (hkeys.2 hok) htypes
      | none =>
        rcases registerInstance_cases hreg with rfl | ⟨candidate, keys, hadm⟩
        · exact h
        · rw [hadm.registerInstance] at hreg
          rcases hclaim : claimDomain s.gcDomains (P.gc i) with e | ⟨t, d⟩
          · rw [hclaim] at hreg
            cases hreg
          · rw [hclaim] at hreg
            cases hreg
            exact h.publish hadm
    | abort i =>
      dsimp only [Store.apply]
      rcases abortEntry_cases s i with ⟨-, hs⟩ | ⟨entry, hl, hs⟩
      · rw [hs]
        exact h
      · exact h.leaves (AssocMap.mem_iff.2 ⟨entry, hl⟩) hs
    | lifetime i event =>
      dsimp only [Store.apply]
      rcases advanceEntry_cases s i event with ⟨-, hs⟩ | ⟨entry, hl, ⟨-, hs⟩ | ⟨-, hs⟩⟩
      · rw [hs]
        exact h
      · exact h.leaves (AssocMap.mem_iff.2 ⟨entry, hl⟩) hs
      · exact h.marks hl hs
    | _ => cases he

theorem Keyed.step {e : Event} (h : Keyed P s) (hok : ¬ s.StopsCounted P e) : Keyed P (s.step P e) := by
  have happ := h.apply hok
  unfold Store.step releaseIf
  dsimp only
  split
  · exact happ.same rfl rfl rfl
  · exact happ

/-- After every history in which no registration stops at the GC domain with keys counted, each key's
count is the number of registered instances that list it and registered functions with one key have one
identity. A registration that fails then leaves the domains as they were, and the key table exactly
when it does not stop there. -/
theorem typeKeys_consistent (P : StoreProgram) (priv : Bool) (es : List Event)
    (hes : History.Along (step P) (fun s e => ¬ s.StopsCounted P e) (newReferenceStore priv) es) :
    let s := run P (newReferenceStore priv) es
    (∀ key, s.keyCount key = AssocMap.count (fun i _ => listsKey P i key) s.instances) ∧
      (∀ i ∈ s.instances, ∀ j ∈ s.instances, ∀ f ∈ P.functions i, ∀ g ∈ P.functions j, f.1 = g.1 →
        ∃ canonical, f.2 = .ok canonical ∧ g.2 = .ok canonical) ∧
      ∀ early i e s', s.registerInstance P early i = (some e, s') →
        s'.gcDomains = s.gcDomains ∧ s'.instanceTypes = s.instanceTypes ∧
          (s'.typeKeys = s.typeKeys ↔ ¬ s.StopsCounted P (.register early i)) := by
  have hkeyed : Keyed P (run P (newReferenceStore priv) es) :=
    hes.invariant (fun s e h hok => h.step hok) (keyed_new P priv)
  refine ⟨hkeyed.count, fun i hi j hj f hf g hg hfg => ?_, fun early i e s' hreg => ?_⟩
  · obtain ⟨c, r, hf', hr, hc⟩ := hkeyed.identity i hi f hf
    obtain ⟨c', r', hg', hr', hc'⟩ := hkeyed.identity j hj g hg
    rw [hfg, hr'] at hr
    cases hr
    exact ⟨c, hf', by rw [hg', ← hc', hc]⟩
  · obtain ⟨hdomains, -, htypes, hkeys⟩ := registerInstance_failed hreg
    exact ⟨hdomains, htypes, hkeys⟩

/-- Two instances on one collector, each with a function of key seven. -/
def sharedKey : StoreProgram where
  gc _ := some 1
  functions _ := [(7, .ok [0])]

/-- Any new domain fits. -/
def newDomain : AcquireRequest := ⟨none, fun _ => false, fun _ => true, .ok ()⟩

/-- Three instances with key seven, of which the third has another identity. The first one is on a
collector of the store. -/
def mixedKeys : StoreProgram where
  gc i := if i = 1 then some 1 else none
  functions i := [(7, .ok [if i = 3 then 1 else 0])]

/-- The third registration fails and counts nothing; when the first instance is released, the key is left
to the second one. -/
theorem typeKeys_consistent_mixed :
    let before : List Event := [.acquire newDomain, .register none 1, .register none 2]
    let after : List Event := [.register none 3, .lifetime 1 .closed, .lifetime 1 .quiesced,
      .lifetime 1 .resourcesReleased]
    let s := run mixedKeys (newReferenceStore false) before
    s.keyCount 7 = 2 ∧
      (∃ s', s.registerInstance mixedKeys none 3 = (some (.collidesInStore 7), s') ∧
        s'.typeKeys = s.typeKeys) ∧
      (run mixedKeys (newReferenceStore false) (before ++ after)).keyCount 7 = 1 := by
  intro before after s
  -- Only the first instance has a domain, and it finds its claim there.
  have hfirst : ¬ (step mixedKeys (newReferenceStore false) (.acquire newDomain)).StopsCounted mixedKeys
      (.register none 1) := by
    rintro ⟨-, -, collector, hgc, -, hrefuses⟩
    cases hgc
    revert hrefuses
    decide
  have hothers : ∀ (s : Store) (i : Nat), i ≠ 1 → ¬ s.StopsCounted mixedKeys (.register none i) := by
    rintro s i hi ⟨-, -, collector, hgc, -⟩
    change collector ∈ (if i = 1 then some 1 else none) at hgc
    rw [if_neg hi] at hgc
    cases hgc
  obtain ⟨hcount, -, hfails⟩ := typeKeys_consistent mixedKeys false before
    ⟨id, hfirst, hothers _ 2 (by decide), trivial⟩
  have hreg : s.registerInstance mixedKeys none 3 =
      (some (.collidesInStore 7), (s.registerInstance mixedKeys none 3).2) := Prod.ext (by decide) rfl
  refine ⟨(hcount 7).trans (by decide), ⟨_, hreg, (hfails none 3 _ _ hreg).2.2.2 (hothers s 3 (by decide))⟩, ?_⟩
  refine ((typeKeys_consistent mixedKeys false (before ++ after) ?_).1 7).trans (by decide)
  exact ⟨id, hfirst, hothers _ 2 (by decide), hothers _ 3 (by decide), id, id, id, trivial⟩

/-- The second instance registers without a claim: the registration fails, and its key stays counted
twice with one instance registered. -/
theorem typeKeys_leak :
    let s := run sharedKey (newReferenceStore false) [.acquire newDomain, .register none 1]
    let s' := run sharedKey (newReferenceStore false)
      [.acquire newDomain, .register none 1, .register none 2]
    (s.registerInstance sharedKey none 2).1 = some .noClaim ∧
      s.keyCount 7 = 1 ∧ s'.keyCount 7 = 2 ∧
      AssocMap.count (fun i _ => listsKey sharedKey i 7) s'.instances = 1 := by
  decide

end Wago.Runtime.Store
