/-
The lifetime side of a reference store (`reference_store.go`): acquisition of GC domains, registration
of instances with their native type keys, the lifetime events of an instance, and the release of the
whole store. Instances, domains and collectors are numbers, zero for a nil pointer. A domain and the
collector made with it have one number. Go's lazily made maps and topology are present from the start.
Which domain a module fits and whether a plan for its types succeeds are inputs of an acquisition;
what fails before the store is locked is an input of a registration. The index of code ranges, the
invocation domains and the public tokens are left out. `closed` lists the collectors handed out.
-/
import Wago.Lib.AssocMap
import Wago.Lib.DList
import Wago.Lib.Interleave

namespace Wago.Runtime

/-! ## The list of GC domains -/

/-- `gcDomainTopology`: a doubly linked list in order of creation, with an index by collector once it is
long enough. The fields of a domain are functions of it, so that a domain that left the list keeps
its fields. -/
structure Topology where
  first : Nat := 0
  last : Nat := 0
  n : Nat := 0
  prev : Nat → Nat := fun _ => 0
  next : Nat → Nat := fun _ => 0
  collector : Nat → Nat := fun _ => 0
  refs : Nat → Nat := fun _ => 0
  claims : Nat → Nat := fun _ => 0
  /-- Absent until the list reaches the threshold; a collector without a domain has zero. -/
  byCollector : Option (Nat → Nat) := none

def gcCollectorIndexThreshold : Nat := 4

namespace Topology

/-- The domains from the first one on. -/
def domains (t : Topology) : List Nat := DList.walk t.next 0 t.n t.first

def scanForCollector (t : Topology) (collector : Nat) : Nat :=
  (t.domains.find? fun d => t.collector d = collector).getD 0

def domainForCollectorLocked (t : Topology) (collector : Nat) : Nat :=
  match t.byCollector with
  | none => t.scanForCollector collector
  | some index => if index collector ≠ 0 then index collector else t.scanForCollector collector

/-- The index over the domains of the list. -/
def buildIndex (t : Topology) : Nat → Nat :=
  t.domains.foldl (fun index d => Function.update index (t.collector d) d) fun _ => 0

/-- The index that `appendDomainLocked` starts from. -/
def indexForAppend (t : Topology) : Option (Nat → Nat) :=
  match t.byCollector with
  | none => if gcCollectorIndexThreshold ≤ t.n then some t.buildIndex else none
  | some index => some index

def appendDomainLocked (t : Topology) (domain : Nat) : Topology :=
  { t with
    byCollector := t.indexForAppend.map fun index => Function.update index (t.collector domain) domain
    first := if t.last = 0 then domain else t.first
    next := DList.Linked.appendNext t.next 0 t.last domain
    prev := Function.update t.prev domain t.last
    last := domain
    n := t.n + 1 }

/-- The domain is where its links say: the checks that `unlinkDomainLocked` makes first. -/
def linkedAt (t : Topology) (domain : Nat) : Bool :=
  (match t.byCollector with
    | none => true
    | some index => index (t.collector domain) = domain) &&
  (if t.prev domain = 0 then t.first = domain else t.next (t.prev domain) = domain) &&
  (if t.next domain = 0 then t.last = domain else t.prev (t.next domain) = domain)

def unlinkDomainLocked (t : Topology) (domain : Nat) : Option Topology :=
  if domain ≠ 0 ∧ t.linkedAt domain then
    some { t with
      first := if t.prev domain = 0 then t.next domain else t.first
      last := if t.next domain = 0 then t.prev domain else t.last
      next := Function.update (DList.Linked.dropNext t.next t.prev 0 domain) domain 0
      prev := Function.update (DList.Linked.dropPrev t.next t.prev 0 domain) domain 0
      byCollector := t.byCollector.map fun index =>
        if index (t.collector domain) = domain then Function.update index (t.collector domain) 0
        else index
      n := t.n - 1 }
  else none

end Topology

/-- A Go map. -/
abbrev GoMap (K V : Type) := AList fun _ : K => V

def maxUint32 : Nat := 2 ^ 32 - 1

/-- The domain of a registered instance: none, one of its own, or one of the store's. -/
inductive EntryDomain where
  | none
  | priv
  | shared (domain : Nat)
  deriving DecidableEq

structure StoreInstance where
  closeAccounted : Bool := false
  quiesced : Bool := false
  resourcesReleased : Bool := false
  gcDomain : EntryDomain := .none

structure TypeRegistration where
  canonical : List UInt8
  refs : Nat

/-- What does not change of the instances: the collector of each, and for each of its functions a native
type key with an exact identity or an error from building it. -/
structure StoreProgram where
  gc : Nat → Option Nat
  functions : Nat → List (Nat × Except String (List UInt8))

structure Store where
  priv : Bool
  runtimeClosed : Bool
  liveInstances : Nat := 0
  liveObjects : Nat := 0
  /-- The number of entries of `gcByToken`. -/
  gcTokens : Nat := 0
  instances : GoMap Nat StoreInstance := ∅
  typeKeys : GoMap Nat TypeRegistration := ∅
  instanceTypes : GoMap Nat (List Nat) := ∅
  gcDomains : Topology := {}
  nextDomain : Nat := 1
  /-- The collectors whose claim was dropped by a call that still has to take the topology's gate. -/
  reaping : List Nat := []
  closed : List Nat := []

def newReferenceStore (priv : Bool) : Store := { priv, runtimeClosed := priv }

namespace Store

/-! ## Domains -/

inductive AcquireError where
  | notShared
  | storeClosed
  | notLive
  | importedConfig
  | matchingConfig
  | plan (message : String)
  | tooManyPending
  deriving DecidableEq

/-- What an acquisition asks: a collector that an import fixes, which domains the module fits, which
have its configuration, and whether types and a collector for a new domain can be made. -/
structure AcquireRequest where
  preferred : Option Nat
  fits : Nat → Bool
  sameConfig : Nat → Bool
  planned : Except String Unit

/-- The domain an acquisition takes, zero for a new one. -/
def selectDomain (t : Topology) (request : AcquireRequest) : Except AcquireError Nat :=
  match request.preferred with
  | some collector =>
    let domain := t.domainForCollectorLocked collector
    if domain = 0 then .error .notLive
    else if request.sameConfig domain = false then .error .importedConfig
    else .ok domain
  | none =>
    match t.domains.find? request.fits with
    | none => .ok 0
    | some domain => if request.sameConfig domain = false then .error .matchingConfig else .ok domain

/-- The part of an acquisition under the store's lock, up to the claim. A failure after it drops the
claim by `releaseUnclaimedGCCollector`. -/
def acquireGCCollector (s : Store) (request : AcquireRequest) : Except AcquireError Nat × Store :=
  if s.priv then (.error .notShared, s)
  else if s.runtimeClosed then (.error .storeClosed, s)
  else match selectDomain s.gcDomains request with
    | .error e => (.error e, s)
    | .ok domain =>
      let t := s.gcDomains
      if domain = 0 then
        match request.planned with
        | .error message => (.error (.plan message), s)
        | .ok _ =>
          let d := s.nextDomain
          let t := { t with
            collector := Function.update t.collector d d
            refs := Function.update t.refs d 0
            claims := Function.update t.claims d 1 }
          (.ok d, { s with gcDomains := t.appendDomainLocked d, nextDomain := d + 1 })
      else if t.claims domain = maxUint32 then (.error .tooManyPending, s)
      else
        (.ok (t.collector domain), { s with
          gcDomains := { t with claims := Function.update t.claims domain (t.claims domain + 1) } })

/-- `releaseUnclaimedGCCollector` up to the point where it gives up the store's lock. -/
def dropClaim (s : Store) (collector : Nat) : Store :=
  let t := s.gcDomains
  let domain := t.domainForCollectorLocked collector
  if domain = 0 then s
  else
    let claims := t.claims domain - 1
    let s := { s with gcDomains := { t with claims := Function.update t.claims domain claims } }
    if t.refs domain ≠ 0 ∨ claims ≠ 0 then s
    else { s with reaping := collector :: s.reaping }

/-- The rest of `releaseUnclaimedGCCollector`, once the topology's gate is held. -/
def reapUnclaimed (s : Store) (collector : Nat) : Store :=
  if collector ∈ s.reaping then
    let s := { s with reaping := s.reaping.erase collector }
    let domain := s.gcDomains.domainForCollectorLocked collector
    if domain = 0 ∨ s.gcDomains.refs domain ≠ 0 ∨ s.gcDomains.claims domain ≠ 0 then s
    else match s.gcDomains.unlinkDomainLocked domain with
      | none => s
      | some t => { s with gcDomains := t, closed := s.closed ++ [collector] }
  else s

/-! ## Registration -/

inductive RegisterError where
  /-- Found before the store is locked: a dynamic import of another Runtime, one that reaches a
  private domain, or identities that could not be prepared. -/
  | early (message : String)
  | storeClosed
  | noMetadata
  | tooManyLive
  | exactType (function : Nat) (message : String)
  | collidesWithinModule (key : Nat)
  | budget
  | collidesInStore (key : Nat)
  | tooManyOwners (key : Nat)
  | domainFull
  | noClaim
  deriving DecidableEq

def maxStructuralCallIdentityRegistrationBytes : Nat := 16 <<< 20

/-- The loop over an instance's functions: each key once, with its identity. -/
def collectKeys (typeKeys : GoMap Nat TypeRegistration) : (index : Nat) →
    (candidate : GoMap Nat (List UInt8)) → (keys : List Nat) → (identityBytes : Nat) →
    List (Nat × Except String (List UInt8)) →
    Except RegisterError (GoMap Nat (List UInt8) × List Nat)
  | _, candidate, keys, _, [] => .ok (candidate, keys)
  | index, _, _, _, (_, .error message) :: _ => .error (.exactType index message)
  | index, candidate, keys, identityBytes, (key, .ok canonical) :: rest =>
    match candidate.lookup key with
    | some prior =>
      if prior ≠ canonical then .error (.collidesWithinModule key)
      else collectKeys typeKeys (index + 1) candidate keys identityBytes rest
    | none =>
      if canonical.length > maxStructuralCallIdentityRegistrationBytes - identityBytes then
        .error .budget
      else if ∃ registered ∈ typeKeys.lookup key, registered.canonical ≠ canonical then
        .error (.collidesInStore key)
      else
        collectKeys typeKeys (index + 1) (candidate.insert key canonical) (keys ++ [key])
          (identityBytes + canonical.length) rest

/-- One more owner of a key. -/
def retainKey (candidate : GoMap Nat (List UInt8)) (typeKeys : GoMap Nat TypeRegistration)
    (key : Nat) : GoMap Nat TypeRegistration :=
  let registered := (typeKeys.lookup key).getD ⟨(candidate.lookup key).getD [], 0⟩
  typeKeys.insert key { registered with refs := registered.refs + 1 }

/-- A prepared claim on the collector's domain becomes a reference. -/
def claimDomain (t : Topology) : Option Nat → Except RegisterError (Topology × EntryDomain)
  | none => .ok (t, .none)
  | some collector =>
    let domain := t.domainForCollectorLocked collector
    if domain = 0 then .ok (t, .priv)
    else if t.refs domain = maxUint32 then .error .domainFull
    else if t.claims domain = 0 then .error .noClaim
    else .ok ({ t with
      claims := Function.update t.claims domain (t.claims domain - 1)
      refs := Function.update t.refs domain (t.refs domain + 1) }, .shared domain)

/-- The instance's keys are counted. -/
def countKeys (s : Store) (candidate : GoMap Nat (List UInt8)) (keys : List Nat) : Store :=
  { s with typeKeys := keys.foldl (retainKey candidate) s.typeKeys }

/-- The instance joins the store. -/
def publish (s : Store) (i : Nat) (keys : List Nat) (gcDomains : Topology)
    (gcDomain : EntryDomain) : Store :=
  { s with
    gcDomains
    instanceTypes := s.instanceTypes.insert i keys
    instances := s.instances.insert i { gcDomain }
    liveInstances := s.liveInstances + 1 }

def registerInstance (P : StoreProgram) (s : Store) (early : Option String) (i : Nat) :
    Option RegisterError × Store :=
  match early with
  | some message => (some (.early message), s)
  | none =>
    if s.runtimeClosed ∧ s.priv = false then (some .storeClosed, s)
    else if i = 0 then (some .noMetadata, s)
    else if i ∈ s.instances then (none, s)
    else if s.liveInstances = maxUint32 then (some .tooManyLive, s)
    else match collectKeys s.typeKeys 0 ∅ [] 0 (P.functions i) with
      | .error e => (some e, s)
      | .ok (candidate, keys) =>
        match keys.find? fun key => ∃ registered ∈ s.typeKeys.lookup key, registered.refs = maxUint32 with
        | some key => (some (.tooManyOwners key), s)
        | none =>
          let s := s.countKeys candidate keys
          match claimDomain s.gcDomains (P.gc i) with
          | .error e => (some e, s)
          | .ok (gcDomains, gcDomain) => (none, s.publish i keys gcDomains gcDomain)

/-! ## Lifetime -/

/-- An instance leaves its domain; the collector is returned when it was the last one there. -/
def releaseGCDomainLocked (t : Topology) : EntryDomain → Topology × Option Nat
  | .none => (t, none)
  | .priv => (t, none)
  | .shared domain =>
    let t := { t with refs := Function.update t.refs domain (t.refs domain - 1) }
    if t.refs domain ≠ 0 ∨ t.claims domain ≠ 0 then (t, none)
    else match t.unlinkDomainLocked domain with
      | some t' => (t', some (t.collector domain))
      | none => (t, none)

/-- One owner of a key less. -/
def releaseKey (typeKeys : GoMap Nat TypeRegistration) (key : Nat) : GoMap Nat TypeRegistration :=
  match typeKeys.lookup key with
  | none => typeKeys
  | some registered =>
    if registered.refs ≤ 1 then typeKeys.erase key
    else typeKeys.insert key { registered with refs := registered.refs - 1 }

def unregisterInstanceTypesLocked (s : Store) (i : Nat) : Store :=
  { s with
    typeKeys := ((s.instanceTypes.lookup i).getD []).foldl releaseKey s.typeKeys
    instanceTypes := s.instanceTypes.erase i }

/-- The instance leaves the store. -/
def forget (s : Store) (i : Nat) : Store :=
  let s := s.unregisterInstanceTypesLocked i
  { s with instances := s.instances.erase i }

/-- The entry of an instance leaves its domain. -/
def leaveDomain (s : Store) (i : Nat) (entry : StoreInstance) : Store :=
  let (t, collector) := releaseGCDomainLocked s.gcDomains entry.gcDomain
  { s with
    gcDomains := t
    instances := s.instances.insert i { entry with gcDomain := .none }
    closed := s.closed ++ collector.toList }

def allClosedInstancesQuiescedLocked (s : Store) : Bool :=
  s.instances.entries.all fun ⟨_, entry⟩ => !(entry.closeAccounted && !entry.quiesced)

def canReleaseEntriesLocked (s : Store) : Bool :=
  s.runtimeClosed && s.liveInstances == 0 && s.liveObjects == 0 && s.gcTokens == 0 &&
    s.allClosedInstancesQuiescedLocked

/-- The whole store is released. The list is emptied at its ends only: the domains keep their links. -/
def releaseEntriesLocked (s : Store) : Store :=
  { s with
    gcTokens := 0
    closed := s.closed ++ s.gcDomains.domains.map s.gcDomains.collector
    gcDomains := { s.gcDomains with first := 0, last := 0, n := 0, byCollector := none } }

def releaseIf (s : Store) (condition : Bool) : Store :=
  if condition then s.releaseEntriesLocked else s

/-- The instance part of `abortRegisteredInstance`. -/
def abortEntry (s : Store) (i : Nat) : Store :=
  match s.instances.lookup i with
  | none => s
  | some entry =>
    let s := if entry.closeAccounted then s else { s with liveInstances := s.liveInstances - 1 }
    (s.leaveDomain i entry).forget i

inductive LifetimeEvent where
  | closed
  | quiesced
  | resourcesReleased
  deriving DecidableEq

/-- What an event writes into the entry. -/
def LifetimeEvent.mark (entry : StoreInstance) : LifetimeEvent → StoreInstance
  | closed => { entry with closeAccounted := true }
  | quiesced => { entry with quiesced := true }
  | resourcesReleased => { entry with resourcesReleased := true }

/-- The first effect of an event on the store and on the instance's entry. -/
def applyLifetime (s : Store) (i : Nat) (entry : StoreInstance) (event : LifetimeEvent) : Store :=
  let s := { s with instances := s.instances.insert i (event.mark entry) }
  match event with
  | .closed => if entry.closeAccounted then s else { s with liveInstances := s.liveInstances - 1 }
  | .quiesced => s
  | .resourcesReleased =>
    if entry.resourcesReleased then s else s.leaveDomain i (event.mark entry)

/-- The instance part of `advanceInstanceLifetime`. -/
def advanceEntry (s : Store) (i : Nat) (event : LifetimeEvent) : Store :=
  match s.instances.lookup i with
  | none => s
  | some entry =>
    let s := s.applyLifetime i entry event
    let entry := event.mark entry
    if entry.closeAccounted ∧ entry.quiesced ∧ entry.resourcesReleased then s.forget i else s

/-! ## Histories -/

inductive Event where
  | acquire (request : AcquireRequest)
  | dropClaim (collector : Nat)
  | reapUnclaimed (collector : Nat)
  | register (early : Option String) (i : Nat)
  | abort (i : Nat)
  | lifetime (i : Nat) (event : LifetimeEvent)
  | registerStoreObject
  | storeObjectClosed
  /-- The close of a host function reference, which checks less before the release. -/
  | hostFuncRefClosed
  | closeRuntime
  | issueGCRef
  | releaseGCRef

/-- An event up to the release of the whole store. -/
def apply (P : StoreProgram) (s : Store) : Event → Store
  | .acquire request => (s.acquireGCCollector request).2
  | .dropClaim collector => s.dropClaim collector
  | .reapUnclaimed collector => s.reapUnclaimed collector
  | .register early i => (s.registerInstance P early i).2
  | .abort i => s.abortEntry i
  | .lifetime i event => s.advanceEntry i event
  | .registerStoreObject =>
    if s.runtimeClosed ∨ s.liveObjects = maxUint32 then s else { s with liveObjects := s.liveObjects + 1 }
  | .storeObjectClosed => { s with liveObjects := s.liveObjects - 1 }
  | .hostFuncRefClosed => { s with liveObjects := s.liveObjects - 1 }
  | .closeRuntime => { s with runtimeClosed := true }
  | .issueGCRef => { s with gcTokens := s.gcTokens + 1 }
  | .releaseGCRef => { s with gcTokens := s.gcTokens - 1 }

/-- Whether an event that led to `s` ends with the release of the whole store. The first four end with
`maybeReleaseEntriesLocked`. -/
def releases (s : Store) : Event → Bool
  | .abort _ => s.canReleaseEntriesLocked
  | .lifetime _ _ => s.canReleaseEntriesLocked
  | .storeObjectClosed => s.canReleaseEntriesLocked
  | .closeRuntime => s.canReleaseEntriesLocked
  | .hostFuncRefClosed => s.runtimeClosed && s.liveInstances == 0 && s.liveObjects == 0
  | .releaseGCRef => s.runtimeClosed && s.liveInstances == 0 && s.liveObjects == 0 && s.gcTokens == 0
  | _ => false

def step (P : StoreProgram) (s : Store) (e : Event) : Store :=
  let s := s.apply P e
  s.releaseIf (s.releases e)

def run (P : StoreProgram) (s : Store) (es : List Event) : Store := History.run (step P) s es

end Store

end Wago.Runtime
