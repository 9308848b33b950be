/-
The invocation gate of an instance: a lock word of five flags, changed by lock-free compare-and-swap
and inside the sections of one mutex, a queue of waiting callers, and the channel that observers of a
revocation wait on.

Each atomic operation and each mutex section is one step. A thread unlocks only what it holds; a
context may be found cancelled whenever it is looked at. The shared 64-bit word of an instance also
counts leases, so a compare-and-swap on the whole word may fail although the gate half matches; the
admissions and releases that use it have that outcome too.

`notified` is a ghost: the caller whose channel the last slow unlock closed.
-/
import Wago.Lib.Interleave

namespace Wago.Runtime

open Interleave

/-! ## The word -/

structure GateWord where
  held : Bool
  waiters : Bool
  fast : Bool
  revoked : Bool
  handoff : Bool
  deriving DecidableEq, Repr

namespace GateWord

def zero : GateWord := ⟨false, false, false, false, false⟩

/-- The word masked with `invocationGateRevoked`. -/
def onlyRevoked (w : GateWord) : GateWord := { zero with revoked := w.revoked }

def revokedFree : GateWord := { zero with revoked := true }

end GateWord

/-- How a caller holds the gate: through `Lock`, or admitted by the fast compare-and-swap. -/
inductive GateMode
  | ordinary
  | fast
  deriving DecidableEq, Repr

/-- The word of a gate that was free and never revoked, right after an admission. -/
def GateMode.admission : GateMode → GateWord
  | .ordinary => { GateWord.zero with held := true }
  | .fast => { GateWord.zero with held := true, fast := true }

/-! ## The shared state -/

structure Gate (T : Type*) where
  word : GateWord
  queue : List T
  /-- The thread's last waiter was granted and its channel is closed. -/
  granted : T → Bool
  changed : Option ℕ
  revocationWaiters : Bool
  /-- How many channels were made for `changed`. -/
  channels : ℕ
  closed : List ℕ
  notified : Option T

namespace Gate

variable {T : Type*} [DecidableEq T]

def new : Gate T := ⟨.zero, [], fun _ => false, none, false, 0, [], none⟩

def setWord (g : Gate T) (w : GateWord) : Gate T := { g with word := w }

def updateWaiterBitLocked (g : Gate T) : Gate T :=
  g.setWord { g.word with waiters := !g.queue.isEmpty || g.revocationWaiters }

def removeWaiterLocked (g : Gate T) (t : T) : Gate T := { g with queue := g.queue.erase t }

/-- A thread's new waiter, unless the owner seen is gone. -/
def enqueueWaiterLocked (g : Gate T) (t : T) : Option (Gate T) :=
  if g.word.held then
    some { g with
      word := { g.word with waiters := true }
      queue := g.queue ++ [t]
      granted := Function.update g.granted t false }
  else none

/-- `Unlock` past its check of the word: hand the gate to the oldest waiter, or free it. -/
def unlockLocked (g : Gate T) : Gate T :=
  let notifyRevocation := g.word.fast && g.revocationWaiters
  let g₁ := if notifyRevocation then { g with revocationWaiters := false, changed := none } else g
  let g₂ := match g₁.queue with
    | w :: rest =>
      { g₁ with
        queue := rest
        granted := Function.update g₁.granted w true
        notified := some w
        word :=
          { GateWord.onlyRevoked g.word with
            held := true, handoff := true, waiters := !rest.isEmpty || g₁.revocationWaiters } }
    | [] => g₁.setWord (GateWord.onlyRevoked g.word)
  let g₃ := g₂.updateWaiterBitLocked
  if notifyRevocation then { g₃ with closed := g.changed.toList ++ g₃.closed } else g₃

/-- One round of `revokeFast`: `none` when no fast owner is left, else the channel to wait on. -/
def revokeLocked (g : Gate T) : Gate T × Option ℕ :=
  let g₁ := g.setWord { g.word with revoked := true, waiters := g.word.waiters || g.word.fast }
  if g.word.fast then
    match g.changed with
    | some ch => ({ g₁ with revocationWaiters := true }, some ch)
    | none =>
      ({ g₁ with revocationWaiters := true, changed := some g.channels, channels := g.channels + 1 },
        some g.channels)
  else (g₁.updateWaiterBitLocked, none)

end Gate

/-! ## The callers -/

/-- Where `tryAcquireHandoff` was called: at the head of `lockContext`'s loop, by a notified waiter,
or by a cancelled caller that was granted all the same. -/
inductive GateClaim
  | attempt (ctx : Bool)
  | notified (ctx : Bool)
  | abandoned
  deriving DecidableEq, Repr

/-- What follows an `Unlock`: the caller is done with the gate, or `lockContext` returns its error. -/
inductive AfterUnlock
  | done
  | error
  deriving DecidableEq, Repr

/-- A caller's control point. `ctx` says whether it has a context. -/
inductive GatePc
  | idle
  | lock
  | lockLoad
  | lockCas
  | loopHead (ctx : Bool)
  | casFree (ctx : Bool)
  | casRevoked (ctx : Bool)
  | claim (w : GateClaim)
  | claimCas (w : GateClaim) (seen : GateWord)
  | join (ctx : Bool)
  | waiting (ctx : Bool)
  | cancelled
  | acquired (ctx : Bool)
  | holding (m : GateMode)
  | endDirect (m : GateMode)
  | unlock (m : GateMode) (k : AfterUnlock)
  | unlockCas (m : GateMode) (k : AfterUnlock) (seen : GateWord)
  | unlockSlow (m : GateMode) (k : AfterUnlock)
  | failed
  | tryOrdinary
  | tryFast
  | revoke
  | revokeWait (ch : ℕ)
  | revokeDone
  | panicked
  deriving DecidableEq, Repr

def AfterUnlock.pc : AfterUnlock → GatePc
  | .done => .idle
  | .error => .failed

def GateClaim.won : GateClaim → GatePc
  | .attempt ctx => .acquired ctx
  | .notified ctx => .acquired ctx
  | .abandoned => .unlock .ordinary .error

def GateClaim.lost : GateClaim → GatePc
  | .attempt ctx => .join ctx
  | .notified ctx => .loopHead ctx
  | .abandoned => .failed

section Program

variable {T : Type*} [DecidableEq T]

/-- `lockContext`'s section: take a gate that became free, or queue behind its owner. -/
def joinLocked (t : T) (g : Gate T) (ctx : Bool) : Gate T × GatePc :=
  if !g.word.held && g.queue.isEmpty then
    (g.setWord { GateWord.onlyRevoked g.word with held := true }, .acquired ctx)
  else
    match g.enqueueWaiterLocked t with
    | some g' => (g', .waiting ctx)
    | none => (g, .loopHead ctx)

/-- The section of a caller that saw its context cancelled while it waited. -/
def cancelLocked (t : T) (g : Gate T) : Gate T × GatePc :=
  if t ∈ g.queue then ((g.removeWaiterLocked t).updateWaiterBitLocked, .failed)
  else if g.granted t then (g, .claim .abandoned)
  else (g, .failed)

/-- The outcomes of one step of caller `t`. -/
def gateNext (t : T) (g : Gate T) : GatePc → List (Gate T × GatePc)
  | .idle =>
    [(g, .lock), (g, .loopHead true), (g, .loopHead false), (g, .tryOrdinary), (g, .tryFast),
      (g, .revoke)]
  -- Lock, lockAfterFastAttempt
  | .lock =>
    if g.word = .zero then [(g.setWord GateMode.ordinary.admission, .holding .ordinary)]
    else [(g, .lockLoad)]
  | .lockLoad => if g.word = .revokedFree then [(g, .lockCas)] else [(g, .loopHead false)]
  | .lockCas =>
    if g.word = .revokedFree then
      [(g.setWord { GateWord.revokedFree with held := true }, .holding .ordinary)]
    else [(g, .loopHead false)]
  -- lockContext
  | .loopHead ctx => (g, .casFree ctx) :: if ctx then [(g, .failed)] else []
  | .casFree ctx =>
    if g.word = .zero then [(g.setWord GateMode.ordinary.admission, .acquired ctx)]
    else [(g, .casRevoked ctx)]
  | .casRevoked ctx =>
    if g.word = .revokedFree then
      [(g.setWord { GateWord.revokedFree with held := true }, .acquired ctx)]
    else [(g, .claim (.attempt ctx))]
  | .join ctx => [joinLocked t g ctx]
  | .waiting ctx =>
    (if g.granted t then [(g, .claim (.notified ctx))] else []) ++
      if ctx then [(g, .cancelled)] else []
  | .cancelled => [cancelLocked t g]
  | .acquired ctx => (g, .holding .ordinary) :: if ctx then [(g, .unlock .ordinary .error)] else []
  | .failed => [(g, .idle)]
  -- tryAcquireHandoff
  | .claim w => if g.word.handoff then [(g, .claimCas w g.word)] else [(g, w.lost)]
  | .claimCas w seen =>
    if g.word = seen then [(g.setWord { seen with handoff := false }, w.won)] else [(g, .claim w)]
  -- the owner's releases: Unlock, or endOrdinaryInvocation and endFastInvocation first
  | .holding m => [(g, .unlock m .done), (g, .endDirect m)]
  | .endDirect m =>
    (g, .unlock m .done) :: if g.word = m.admission then [(g.setWord .zero, .idle)] else []
  | .unlock m k =>
    if g.word.held && !g.word.waiters then [(g, .unlockCas m k g.word)] else [(g, .unlockSlow m k)]
  | .unlockCas m k seen =>
    if g.word = seen then [(g.setWord (GateWord.onlyRevoked seen), k.pc)]
    else [(g, .unlockSlow m k)]
  | .unlockSlow _ k => if g.word.held then [(g.unlockLocked, k.pc)] else [(g, .panicked)]
  -- tryBeginOrdinaryInvocation, tryBeginFastInvocation and tryDirectGateState
  | .tryOrdinary =>
    (g, .idle) :: if g.word = .zero then
      [(g.setWord GateMode.ordinary.admission, .holding .ordinary)] else []
  | .tryFast =>
    (g, .idle) :: if g.word = .zero then
      [(g.setWord GateMode.fast.admission, .holding .fast)] else []
  -- revokeFast
  | .revoke =>
    match g.revokeLocked with
    | (g', some ch) => [(g', .revokeWait ch)]
    | (g', none) => [(g', .revokeDone)]
  | .revokeWait ch => if ch ∈ g.closed then [(g, .revoke)] else []
  | .revokeDone => [(g, .idle)]
  | .panicked => []

abbrev GateConfig (T : Type*) := Config T (Gate T) GatePc

/-- A new gate, with no caller at it. -/
def gateStart : GateConfig T := ⟨Gate.new, fun _ => .idle⟩

end Program

/-- Whether the caller holds the gate, and how. An owner holds it until the operation of its `Unlock`
that lets it go. -/
def GatePc.hold : GatePc → Option GateMode
  | .acquired _ => some .ordinary
  | .holding m | .endDirect m | .unlock m _ | .unlockCas m _ _ | .unlockSlow m _ => some m
  | _ => none

/-- The caller has a waiter in the queue, or had one that was granted since. -/
def GatePc.parked : GatePc → Bool
  | .waiting _ | .cancelled => true
  | _ => false

/-- The caller was notified and still has its attempt to claim the handoff before it. -/
def GatePc.claiming (granted : Bool) : GatePc → Bool
  | .waiting _ | .cancelled => granted
  | .claim (.notified _) | .claim .abandoned | .claimCas (.notified _) _ | .claimCas .abandoned _ =>
    true
  | _ => false

end Wago.Runtime
