/-
The closing of an instance: logical close, the leases of invocations, construction, resource roots,
and the physical release they hold back.

Each atomic operation and each section of `lifeMu` is one step. The lease word is the low half of the
instance's shared word, so a compare-and-swap on the whole word may also fail because of the gate
half; the direct admissions and releases have that outcome. Admission may be refused beforehand for
other reasons (a closing runtime, borrowed guest storage), which is the same as not calling.
Callbacks and store notifications change the instance only through these very calls, made by any
thread. A terminal close that runs on a goroutine of its own waits as `worker` until a thread takes
it up.

`leases` and `releases` are ghosts: the threads that hold a lease, and how often physical release was
started.
-/
import Wago.Lib.Interleave

namespace Wago.Runtime

open Interleave

/-! ## The state of an instance -/

/-- The low half of the invocation word. -/
structure LeaseWord where
  closed : Bool
  count : ℕ
  deriving DecidableEq, Repr

/-- `instanceInvocationCount`. -/
def invocationCountMax : ℕ := 2 ^ 31 - 1

def maxInt : ℕ := 2 ^ 63 - 1

structure Lifecycle (T : Type*) where
  word : LeaseWord
  /-- `closeState` is set. -/
  closing : Bool
  prepared : Bool
  completed : Bool
  terminalStarted : Bool
  terminalComplete : Bool
  closed : Bool
  finalizing : Bool
  resourcesClosed : Bool
  constructionActive : Bool
  resourceRefs : ℕ
  /-- `hasManagedOwner`. -/
  managed : Bool
  /-- The runtime has AfterClose hooks. -/
  hooks : Bool
  worker : Bool
  leases : List T
  releases : ℕ

/-! ## Calls -/

/-- Where `tryFinalize` was called: by the owner of `Close`, which has its result to publish, or as
the last thing of a call. -/
inductive AfterFinalize
  | publish
  | done
  deriving DecidableEq, Repr

inductive LifePc
  | idle
  | closeLoad
  | closeCas
  | closeCheck
  | entryLoad
  | entryCas (seen : LeaseWord)
  | markClosed
  | prepare
  | complete
  | managedRetry
  | tryConstruction (k : AfterFinalize)
  | tryClosed (k : AfterFinalize)
  | tryCount (k : AfterFinalize)
  | tryState (k : AfterFinalize)
  | tryPrepared (k : AfterFinalize)
  | tryManaged (k : AfterFinalize)
  | tryCompleted (k : AfterFinalize)
  | tryStart (k : AfterFinalize) (managed : Bool)
  | tryComplete (k : AfterFinalize)
  | terminal (k : AfterFinalize)
  | terminalDone (k : AfterFinalize)
  | finalize (k : AfterFinalize)
  | finalizeCheck (k : AfterFinalize)
  | releaseResources (k : AfterFinalize)
  | beginDirect
  | beginLoad
  | beginCas (seen : LeaseWord)
  | lease
  | endDirect
  | endLoad
  | endCas (seen : LeaseWord)
  | retainRoot (finalization : Bool)
  | releaseRoot
  | endConstruction
  deriving DecidableEq, Repr

def AfterFinalize.pc : AfterFinalize → LifePc
  | .publish => .complete
  | .done => .idle

section Program

variable {T : Type*} [DecidableEq T]

/-- `retainResourceRootMode`. -/
def retainResourceRoot (s : Lifecycle T) (finalization : Bool) : Lifecycle T :=
  if s.resourcesClosed || (!finalization && s.word.closed) || s.resourceRefs == maxInt then s
  else { s with resourceRefs := s.resourceRefs + 1 }

/-- The section of `releaseResourceRoot`. -/
def releaseResourceRoot (s : Lifecycle T) : Lifecycle T × LifePc :=
  if s.resourceRefs = 0 then (s, .idle)
  else
    ({ s with resourceRefs := s.resourceRefs - 1 },
      if s.closed then .tryConstruction .done else .idle)

/-- The first section of `finalize`. -/
def finalizeClaim (s : Lifecycle T) (k : AfterFinalize) : Lifecycle T × LifePc :=
  if !s.closed || s.finalizing || s.resourcesClosed || s.constructionActive || s.word.count != 0 then
    (s, k.pc)
  else ({ s with finalizing := true }, .finalizeCheck k)

/-- The last section of `finalize`, after the scans. -/
def finalizeRelease (s : Lifecycle T) (k : AfterFinalize) : Lifecycle T × LifePc :=
  if s.resourcesClosed || !s.closed || s.resourceRefs != 0 || s.constructionActive ||
      s.word.count != 0 then
    ({ s with finalizing := false }, k.pc)
  else ({ s with finalizing := false, resourcesClosed := true, managed := false }, .releaseResources k)

/-- The outcomes of one step of thread `t`. -/
def lifeNext (t : T) (s : Lifecycle T) : LifePc → List (Lifecycle T × LifePc)
  | .idle =>
    [(s, .closeLoad), (s, .beginDirect), (s, .beginLoad), (s, .retainRoot true),
      (s, .retainRoot false), (s, .releaseRoot), (s, .endConstruction)] ++
      -- the goroutine of a managed terminal close
      if s.worker then [({ s with worker := false }, .terminal .done)] else []
  -- beginClose
  | .closeLoad => if s.closing then [(s, .idle)] else [(s, .closeCas)]
  | .closeCas => if s.closing then [(s, .idle)] else [({ s with closing := true }, .closeCheck)]
  -- closeOnce
  | .closeCheck => if s.closed then [(s, .complete)] else [(s, .entryLoad)]
  | .entryLoad => if s.word.closed then [(s, .markClosed)] else [(s, .entryCas s.word)]
  | .entryCas seen =>
    if s.word = seen then [({ s with word := { seen with closed := true } }, .markClosed)]
    else [(s, .entryLoad)]
  | .markClosed => [({ s with closed := true }, .prepare)]
  | .prepare => [({ s with prepared := true }, .tryConstruction .publish)]
  -- the rest of Close
  | .complete => [({ s with completed := true }, .managedRetry)]
  | .managedRetry => if s.managed then [(s, .tryConstruction .done)] else [(s, .idle)]
  -- tryFinalize
  | .tryConstruction k => if s.constructionActive then [(s, k.pc)] else [(s, .tryClosed k)]
  | .tryClosed k => if s.word.closed then [(s, .tryCount k)] else [(s, k.pc)]
  | .tryCount k => if s.word.count = 0 then [(s, .tryState k)] else [(s, k.pc)]
  | .tryState k => if s.closing then [(s, .tryPrepared k)] else [(s, .finalize k)]
  | .tryPrepared k => if s.prepared then [(s, .tryManaged k)] else [(s, k.pc)]
  | .tryManaged k => if s.managed then [(s, .tryCompleted k)] else [(s, .tryStart k false)]
  | .tryCompleted k => if s.completed then [(s, .tryStart k true)] else [(s, k.pc)]
  | .tryStart k managed =>
    if s.terminalStarted then [(s, .tryComplete k)]
    else if managed && s.hooks then [({ s with terminalStarted := true, worker := true }, k.pc)]
    else [({ s with terminalStarted := true }, .terminal k)]
  | .tryComplete k => if s.terminalComplete then [(s, .finalize k)] else [(s, k.pc)]
  -- finishTerminalClose: hooks, the section that detaches the manager, signalTerminalDone
  | .terminal k => [({ s with managed := false }, .terminalDone k)]
  | .terminalDone k => [({ s with terminalComplete := true }, .finalize k)]
  -- referenceLifetime.finalize
  | .finalize k => [finalizeClaim s k]
  | .finalizeCheck k => [finalizeRelease s k]
  | .releaseResources k => [({ s with releases := s.releases + 1 }, k.pc)]
  -- tryBeginDirectInvocation, tryBeginOrdinaryInvocation, tryBeginFastInvocation
  | .beginDirect =>
    [(s, .beginLoad), (s, .idle)] ++
      if s.word = ⟨false, 0⟩ then [({ s with word := ⟨false, 1⟩, leases := t :: s.leases }, .lease)]
      else []
  -- beginInstanceInvocation
  | .beginLoad =>
    if s.word.closed || s.word.count == invocationCountMax then [(s, .idle)]
    else [(s, .beginCas s.word)]
  | .beginCas seen =>
    if s.word = seen then
      [({ s with word := { seen with count := seen.count + 1 }, leases := t :: s.leases }, .lease)]
    else [(s, .beginLoad)]
  | .lease => [(s, .endDirect), (s, .endLoad)]
  -- endDirectInvocation, endOrdinaryInvocation, endFastInvocation
  | .endDirect =>
    (s, .endLoad) ::
      if s.word = ⟨false, 1⟩ then
        [({ s with word := ⟨false, 0⟩, leases := s.leases.erase t }, .idle)] else []
  -- endInvocation; without a lease it panics
  | .endLoad => if s.word.count = 0 then [(s, .idle)] else [(s, .endCas s.word)]
  | .endCas seen =>
    if s.word = seen then
      let next : LeaseWord := { seen with count := seen.count - 1 }
      [({ s with word := next, leases := s.leases.erase t },
        if next = ⟨true, 0⟩ then .tryConstruction .done else .idle)]
    else [(s, .endLoad)]
  | .retainRoot finalization => [(retainResourceRoot s finalization, .idle)]
  | .releaseRoot => [releaseResourceRoot s]
  -- endConstruction; it panics when construction is over
  | .endConstruction =>
    if s.constructionActive then
      [({ s with constructionActive := false }, .tryConstruction .done)]
    else [(s, .idle)]

abbrev LifeConfig (T : Type*) := Config T (Lifecycle T) LifePc

/-- An open instance, constructed or still under construction. -/
def lifeStart (constructionActive managed hooks : Bool) : LifeConfig T :=
  ⟨⟨⟨false, 0⟩, false, false, false, false, false, false, false, false, constructionActive, 0,
      managed, hooks, false, [], 0⟩,
    fun _ => .idle⟩

end Program

/-- The thread is inside an invocation. -/
def LifePc.holdsLease : LifePc → Bool
  | .lease | .endDirect | .endLoad | .endCas _ => true
  | _ => false

end Wago.Runtime
