/-
Waiting on a shared memory and notifying its waiters: `wait32`, `wait64`, `notify` and the closing of
the memory, with the registry of parked calls, and the native paths that answer without the lock.

A thread runs a script of calls. Sections of the memory's mutex are single steps, except that of a
wait: guest stores and the native reads of the pending flag may fall between its publication of the
flag, its load and its decision, while no other section can. A waiter is named by the number of
waiters made before it, as a new pointer would be; `w.queue` is the queue of `w.offset` in the
registry. Each result channel is received from once, by the call that made it, so `result` keeps
what was sent.

`counted` and `reported` are ghosts: the waiters that notifies counted, and what each wait returned.
-/
import Mathlib.Data.List.AList
import Wago.Lib.CodeImage
import Wago.Lib.Interleave

namespace Wago.Runtime

open Interleave

/-! ## Calls -/

inductive WaitWidth
  | w32
  | w64
  deriving DecidableEq, Repr

def WaitWidth.bytes : WaitWidth → ℕ
  | .w32 => 4
  | .w64 => 8

inductive WaitCode
  | notified
  | notEqual
  | timedOut
  deriving DecidableEq, Repr

inductive WaitError
  | atomicUnaligned
  | expectedSharedMemory
  | linMemOutOfBounds
  | memoryClosed
  | cancelled
  deriving DecidableEq, Repr

/-- What is sent to a waiter: `nil`, or the error of a closed memory. -/
inductive WaitSignal
  | notified
  | closed
  deriving DecidableEq, Repr

abbrev WaitOutcome := Except WaitError WaitCode

structure WaitCall where
  width : WaitWidth
  offset : ℕ
  expected : ℕ
  timeout : ℤ
  deriving DecidableEq, Repr

/-- What a thread does with the memory. A `native` call tries the compiled fast path first. -/
inductive MemOp
  | wait (native : Bool) (call : WaitCall)
  | notify (native : Bool) (offset count : ℕ)
  | store (offset : ℕ) (value : List UInt8)
  | close

/-! ## The memory -/

abbrev WaiterId := ℕ

structure WaiterState where
  byOffset : AList fun _ : ℕ => List WaiterId
  /-- A `uint32`. -/
  active : ℕ

structure WaitMem (T : Type*) where
  bytes : ℕ → UInt8
  size : ℕ
  wasmShared : Bool
  closed : Bool
  /-- `SharedNotifyPending`. -/
  pending : Bool
  /-- The thread in the middle of a wait's section. -/
  mu : Option T
  registry : Option WaiterState
  /-- The offset of the queue the waiter is in. -/
  queue : WaiterId → Option ℕ
  result : WaiterId → Option WaitSignal
  made : ℕ
  counted : List WaiterId
  reported : List (WaiterId × WaitOutcome)

namespace WaitMem

variable {T : Type*} (s : WaitMem T)

def load (width : WaitWidth) (offset : ℕ) : ℕ :=
  match width with
  | .w32 => ByteMem.read32 s.bytes offset
  | .w64 => ByteMem.read32 s.bytes offset + ByteMem.read32 s.bytes (offset + 4) * 2 ^ 32

def store (offset : ℕ) (value : List UInt8) : WaitMem T :=
  { s with bytes := fun k => if offset ≤ k then value.getD (k - offset) (s.bytes k) else s.bytes k }

/-- `clearPending` of a wait that does not park. -/
def clearPending : WaitMem T :=
  { s with pending := s.registry.any fun ws => ws.active != 0 }

def addWaiterLocked (offset : ℕ) : WaitMem T × WaiterId :=
  let ws := s.registry.getD ⟨∅, 0⟩
  let q := (ws.byOffset.lookup offset).getD []
  let w := s.made
  ({ s with
      registry := some ⟨ws.byOffset.insert offset (q ++ [w]), (ws.active + 1) % 2 ^ 32⟩
      queue := Function.update s.queue w (some offset)
      made := w + 1
      pending := true },
    w)

def removeWaiterLocked (w : WaiterId) : WaitMem T × Bool :=
  match s.queue w, s.registry with
  | some offset, some ws =>
    let q := ((ws.byOffset.lookup offset).getD []).erase w
    let byOffset := if q.isEmpty then ws.byOffset.erase offset else ws.byOffset.insert offset q
    let active := (ws.active + (2 ^ 32 - 1)) % 2 ^ 32
    ({ s with
        queue := Function.update s.queue w none
        pending := active != 0 || s.closed
        registry := if active = 0 then none else some ⟨byOffset, active⟩ },
      true)
  | _, _ => (s, false)

def send (w : WaiterId) (r : WaitSignal) : WaitMem T :=
  { s with result := Function.update s.result w (some r) }

/-- The loop of `notify`: wake the oldest waiter of the offset, up to `count` times. -/
def notifyLoop (offset : ℕ) : ℕ → WaitMem T → WaitMem T × ℕ
  | 0, s => (s, 0)
  | count + 1, s =>
    match s.registry.bind fun ws => ws.byOffset.lookup offset with
    | some (w :: _) =>
      let s' := (s.removeWaiterLocked w).1.send w .notified
      let r := notifyLoop offset count { s' with counted := s'.counted ++ [w] }
      (r.1, r.2 + 1)
    | _ => (s, 0)

/-- The loop of `closeWaitersLocked`, with the number of rounds it may take. -/
def closeLoop : ℕ → WaitMem T → WaitMem T
  | 0, s => s
  | fuel + 1, s =>
    match s.registry with
    | none => s
    | some ws =>
      match ws.byOffset.entries with
      | ⟨_, w :: _⟩ :: _ => closeLoop fuel ((s.removeWaiterLocked w).1.send w .closed)
      | _ => { s with registry := none }

def closeWaitersLocked : WaitMem T := s.closeLoop (s.made + 1)

/-- The checks of `wait` under the lock. -/
def waitError (call : WaitCall) : Option WaitError :=
  if !s.wasmShared then some .expectedSharedMemory
  else if s.closed then some .memoryClosed
  else if s.size < call.offset + call.width.bytes then some .linMemOutOfBounds
  else none

/-- `notify` under the lock. -/
def notifyLocked (offset count : ℕ) : WaitMem T × Except WaitError ℕ :=
  if s.closed then (s, .error .memoryClosed)
  else if s.size < offset + 4 then (s, .error .linMemOutOfBounds)
  else if !s.wasmShared then (s, .ok 0)
  else
    let r := notifyLoop offset count s
    (r.1, .ok r.2)

/-- A wait's outcome, for the waiter it parked. -/
def report (w : WaiterId) (r : WaitOutcome) : WaitMem T :=
  { s with reported := s.reported ++ [(w, r)] }

end WaitMem

/-! ## Threads -/

inductive WaitPc
  | idle
  | nativeWait (call : WaitCall)
  | wait (call : WaitCall)
  | compare (call : WaitCall)
  | settle (call : WaitCall) (equal : Bool)
  | parked (w : WaiterId) (timed : Bool)
  | giveUp (w : WaiterId) (cause : WaitOutcome)
  | receive (w : WaiterId)
  | waited (r : WaitOutcome)
  | nativeNotify (offset count : ℕ)
  | notify (offset count : ℕ)
  | notified (r : Except WaitError ℕ)
  | store (offset : ℕ) (value : List UInt8)
  | close

def MemOp.start : MemOp → WaitPc
  | .wait true call => .nativeWait call
  | .wait false call => .wait call
  | .notify true offset count => .nativeNotify offset count
  | .notify false offset count => .notify offset count
  | .store offset value => .store offset value
  | .close => .close

section Program

variable {T : Type*} [DecidableEq T]

/-- A received result, as `wait` returns it. -/
def received : WaitSignal → WaitOutcome
  | .notified => .ok .notified
  | .closed => .error .memoryClosed

/-- The decision of a wait that compared the value, and the end of its section. -/
def settleLocked (s : WaitMem T) (call : WaitCall) (equal : Bool) : WaitMem T × WaitPc :=
  if !equal then ({ s.clearPending with mu := none }, .waited (.ok .notEqual))
  else if call.timeout = 0 then ({ s.clearPending with mu := none }, .waited (.ok .timedOut))
  else
    let r := s.addWaiterLocked call.offset
    ({ r.1 with mu := none }, .parked r.2 (0 < call.timeout))

/-- The section of `cancelWait`. -/
def cancelWait (s : WaitMem T) (w : WaiterId) (cause : WaitOutcome) : WaitMem T × WaitPc :=
  match s.removeWaiterLocked w with
  | (s', true) => (s'.report w cause, .waited cause)
  | (s', false) => (s', .receive w)

/-- The outcomes of one step of thread `t` inside a call. -/
def callNext (t : T) (s : WaitMem T) : WaitPc → List (WaitMem T × WaitPc)
  | .idle => []
  -- emitAtomicWaitFastPath for the waits: an unequal value is answered at once
  | .nativeWait call =>
    if call.offset % call.width.bytes = 0 ∧ call.offset + call.width.bytes ≤ s.size ∧
        s.load call.width call.offset ≠ call.expected then
      [(s, .waited (.ok .notEqual))]
    else [(s, .wait call)]
  | .wait call =>
    if call.offset % call.width.bytes ≠ 0 then [(s, .waited (.error .atomicUnaligned))]
    else if s.mu.isSome then []
    else
      match s.waitError call with
      | some e => [(s, .waited (.error e))]
      | none => [({ s with mu := some t, pending := true }, .compare call)]
  | .compare call => [(s, .settle call (s.load call.width call.offset == call.expected))]
  | .settle call equal => [settleLocked s call equal]
  | .parked w timed =>
    ((s.result w).toList.map fun r => (s.report w (received r), .waited (received r))) ++
      (if timed then [(s, .giveUp w (.ok .timedOut))] else []) ++
      [(s, .giveUp w (.error .cancelled))]
  | .giveUp w cause => if s.mu.isSome then [] else [cancelWait s w cause]
  | .receive w =>
    (s.result w).toList.map fun r => (s.report w (received r), .waited (received r))
  | .waited _ => [(s, .idle)]
  -- emitAtomicWaitFastPath for notify: a clear flag is answered at once
  | .nativeNotify offset count =>
    if offset % 4 = 0 ∧ offset + 4 ≤ s.size ∧ s.pending = false then [(s, .notified (.ok 0))]
    else [(s, .notify offset count)]
  | .notify offset count =>
    if offset % 4 ≠ 0 then [(s, .notified (.error .atomicUnaligned))]
    else if s.mu.isSome then []
    else [((s.notifyLocked offset count).1, .notified (s.notifyLocked offset count).2)]
  | .notified _ => [(s, .idle)]
  | .store offset value => [(s.store offset value, .idle)]
  | .close =>
    if s.mu.isSome then []
    else [(({ s with closed := true }).closeWaitersLocked, .idle)]

/-- One step of thread `t`, with the calls it has still to make. -/
def waitNext (t : T) (s : WaitMem T) :
    WaitPc × List MemOp → List (WaitMem T × WaitPc × List MemOp)
  | (.idle, []) => []
  | (.idle, op :: todo) => [(s, op.start, todo)]
  | (p, todo) => (callNext t s p).map fun r => (r.1, r.2, todo)

abbrev WaitConfig (T : Type*) := Config T (WaitMem T) (WaitPc × List MemOp)

/-- An open memory nobody waits at, and threads with scripts to run. -/
def waitStart (bytes : ℕ → UInt8) (size : ℕ) (wasmShared : Bool) (script : T → List MemOp) :
    WaitConfig T :=
  ⟨⟨bytes, size, wasmShared, false, false, none, none, fun _ => none, fun _ => none, 0, [], []⟩,
    fun t => (.idle, script t)⟩

end Program

/-- The waiters parked at an offset, the longest parked first. -/
def parkedAt {T : Type*} (s : WaitMem T) (offset : ℕ) : List WaiterId :=
  (List.range s.made).filter fun w => s.queue w = some offset

/-- How many waiters are parked. -/
def parkedCount {T : Type*} (s : WaitMem T) : ℕ :=
  ((List.range s.made).filter fun w => (s.queue w).isSome).length

end Wago.Runtime
