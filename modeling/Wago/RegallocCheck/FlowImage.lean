/-
`internal/regalloccheck`: the transfer vocabulary (types.go, return_area_enabled.go) and the images of
flow_enabled.go, which say of each byte of a register or frame slot which bytes of which semantic
values it is known to hold.

Every function runs in `FlowM`: it is charged against the budget, and stops with a panic when a limit
is reached (recovered by `Verify`) or when the Go code would fault (`Panic.runtime`); `Panic.rounds`
is no panic of the source but the bound that the model sets to its loop. The order in which Go ranges
over a map is not specified, so each range takes its order from the stream `Budget.choices`.
-/
import Mathlib.Data.List.AList
import Mathlib.Data.List.Perm.Basic
import Mathlib.Data.Nat.Size

namespace Wago.RegallocCheck

/-! ## Vocabulary -/

inductive Bank where
  | gp | fp | frame
  /-- An untracked machine address, never an input fact. -/
  | unknown
  | returnArea
  | other (n : Nat)
deriving DecidableEq

def Bank.code : Bank → Nat
  | .gp => 0
  | .fp => 1
  | .frame => 2
  | .unknown => 3
  | .returnArea => 4
  | .other n => n

/-- A byte of a physical register or of the native frame. -/
structure Location where
  bank : Bank
  index : Int32
  byte : UInt8
deriving DecidableEq

def Location.next (l : Location) (n : Nat) : Location :=
  if l.bank = .frame then { l with index := l.index + Int32.ofNat n }
  else { l with byte := l.byte + UInt8.ofNat n }

inductive Kind where
  | copy | swap | kill | call | read
  | other (n : Nat)
deriving DecidableEq

structure Effect where
  kind : Kind
  dst : Location
  src : Location
  size : Int
  /-- Destination bytes from `size` up to here lose their old identities. -/
  clearTo : Int
deriving DecidableEq

/-- One-based indices into the widths of a graph. -/
abbrev ValueID := Nat

structure Symbol where
  id : ValueID
  part : Nat
deriving DecidableEq

/-- What an image can say: the location holds the symbol. -/
abbrev FlowFact := Location × Symbol

def maxCarrierBytes : Nat := 64

structure Limits where
  blocks : Int
  values : Int
  operations : Int
  facts : Int
  work : Int
deriving DecidableEq

/-! ## The budget -/

inductive Panic where
  | flowLimit (work : Int)
  | runtime
  | rounds

structure Budget where
  limits : Limits
  work : Int
  facts : Int
  choices : Nat → Nat

abbrev FlowM := StateT Budget (Except Panic)

def charge (n : Nat) : FlowM Unit := do
  let b ← get
  if (n : Int) > b.limits.work - b.work then throw (.flowLimit b.work)
  else set { b with work := b.work + n }

def addFact : FlowM Unit := do
  charge 1
  let b ← get
  if b.facts = b.limits.facts then throw (.flowLimit b.work)
  else set { b with facts := b.facts + 1 }

def releaseFacts (n : Nat) : FlowM Unit :=
  modify fun b => { b with facts := b.facts - n }

/-- The elements of a list, each drawn from those that are left. -/
def drawAll {α : Type} (choices : Nat → Nat) : Nat → List α → List α
  | 0, _ => []
  | n + 1, l =>
    match l[choices n % l.length]? with
    | none => []
    | some a => a :: drawAll choices n (l.eraseIdx (choices n % l.length))

/-- The order in which a range over a map visits it. -/
def ranged {α : Type} (l : List α) : FlowM (List α) := do
  let b ← get
  set { b with choices := fun n => b.choices (l.length + n) }
  return drawAll b.choices l.length l

/-- An access to a slice, which faults outside of it. -/
def elemAt {α : Type} (l : List α) (i : Nat) : FlowM α :=
  match l[i]? with
  | some a => pure a
  | none => throw .runtime

/-! ## Images -/

structure FlowCell where
  one : Symbol := ⟨0, 0⟩
  more : AList (fun _ : Symbol => Unit) := ∅
  moreHistory : Nat := 0

def FlowCell.empty (c : FlowCell) : Bool := c.one.id == 0 && c.more.entries.isEmpty

def FlowCell.each {σ : Type} (c : FlowCell) (fn : σ → Symbol → FlowM σ) (s : σ) : FlowM σ := do
  let s ← (if c.one.id ≠ 0 then fn s c.one else pure s)
  if c.more.entries.isEmpty then return s
  charge c.moreHistory
  (← ranged c.more.keys).foldlM fn s

structure FlowIndex where
  locations : AList (fun _ : Location => BitVec 64) := ∅
  history : Nat := 0

def partBit (part : Nat) : BitVec 64 := 1#64 <<< part

def FlowIndex.partsAt (index : FlowIndex) (loc : Location) : BitVec 64 :=
  (index.locations.lookup loc).getD 0#64

structure FlowImage where
  cells : AList (fun _ : Location => FlowCell) := ∅
  registers : AList (fun _ : Location => Unit) := ∅
  ids : AList (fun _ : ValueID => FlowIndex) := ∅
  count : Int := 0
  retained : Nat := 0
  regHistory : Nat := 0

namespace FlowImage

def cellAt (s : FlowImage) (loc : Location) : FlowCell := (s.cells.lookup loc).getD {}

def indexOf (s : FlowImage) (id : ValueID) : FlowIndex := (s.ids.lookup id).getD {}

def has (s : FlowImage) (loc : Location) (v : Symbol) : FlowM Bool := do
  charge 1
  let c := s.cellAt loc
  if c.one = v then return true
  return decide (v ∈ c.more)

/-- The image with one more fact. -/
def insertFact (s : FlowImage) (loc : Location) (v : Symbol) : FlowImage :=
  let c := s.cellAt loc
  let c := if c.one.id = 0 then { c with one := v }
    else { c with more := c.more.insert v (), moreHistory := c.moreHistory + 1 }
  let index := s.indexOf v.id
  let index := { locations := index.locations.insert loc (index.partsAt loc ||| partBit v.part)
                 history := index.history + 1 : FlowIndex }
  { cells := s.cells.insert loc c
    registers := if loc.bank ≠ .frame then s.registers.insert loc () else s.registers
    ids := s.ids.insert v.id index
    count := s.count + 1
    retained := s.retained + 1
    regHistory := if loc.bank ≠ .frame then s.regHistory + 1 else s.regHistory }

def add (s : FlowImage) (loc : Location) (v : Symbol) : FlowM FlowImage := do
  if ← s.has loc v then return s
  addFact
  return s.insertFact loc v

/-- The image with one fact less, `index` being the entry of its value. -/
def deleteFact (s : FlowImage) (loc : Location) (v : Symbol) (index : FlowIndex) : FlowImage :=
  let c := s.cellAt loc
  let c := if c.one = v then { c with one := ⟨0, 0⟩ } else { c with more := c.more.erase v }
  let parts := index.partsAt loc &&& ~~~ partBit v.part
  let locations := if parts = 0#64 then index.locations.erase loc else index.locations.insert loc parts
  { s with
    cells := if c.empty then s.cells.erase loc else s.cells.insert loc c
    registers := if c.empty then s.registers.erase loc else s.registers
    ids := if locations.entries.isEmpty then s.ids.erase v.id
      else s.ids.insert v.id { index with locations }
    count := s.count - 1 }

/-- An index that was never made has no map to write to. -/
def remove (s : FlowImage) (loc : Location) (v : Symbol) : FlowM FlowImage := do
  charge 1
  match s.ids.lookup v.id with
  | none => throw .runtime
  | some index => return s.deleteFact loc v index

def clear (s : FlowImage) (loc : Location) (size : Nat) : FlowM FlowImage :=
  (List.range size).foldlM (fun s i => do
    charge 1
    (s.cellAt (loc.next i)).each (fun s v => s.remove (loc.next i) v) s) s

/-- `bits.Len64` -/
def len64 (parts : BitVec 64) : Nat := parts.toNat.size

/-- The loop over the set bits of an index entry. -/
def eachPart {σ : Type} (parts : BitVec 64) (fn : σ → Nat → FlowM σ) (s : σ) : FlowM σ :=
  (List.range (max 16 (len64 parts))).foldlM (fun s part => do
    charge 1
    if parts &&& partBit part ≠ 0#64 then fn s part else pure s) s

def forget (s : FlowImage) (id : ValueID) : FlowM FlowImage := do
  let index := s.indexOf id
  if index.locations.entries.isEmpty then return s
  charge index.history
  (← ranged index.locations.entries).foldlM
    (fun s e => eachPart e.2 (fun s part => s.remove e.1 ⟨id, part⟩) s) s

def release (s : FlowImage) : FlowM Unit := releaseFacts s.retained

def clone (s : FlowImage) : FlowM FlowImage := do
  if s.cells.entries.isEmpty then return {}
  charge s.retained
  (← ranged s.cells.entries).foldlM (fun out e => e.2.each (fun out v => out.add e.1 v) out) {}

/-- Drops a fact that the other image does not have, and notes that there was one. -/
def meetFact (other : FlowImage) (met : FlowImage × Bool) (loc : Location) (v : Symbol) :
    FlowM (FlowImage × Bool) := do
  if ← other.has loc v then return met
  return (← met.1.remove loc v, true)

def meet (s other : FlowImage) : FlowM (FlowImage × Bool) := do
  if s.cells.entries.isEmpty then return (s, false)
  charge s.retained
  (← ranged s.cells.entries).foldlM
    (fun met e => e.2.each (fun met v => other.meetFact met e.1 v) met) (s, false)

def snapshot (s : FlowImage) (src dst : Location) (size : Nat) (facts : List FlowFact) :
    FlowM (List FlowFact) :=
  (List.range size).foldlM (fun facts i => do
    charge 1
    (s.cellAt (src.next i)).each (fun facts v => do
      addFact
      return facts ++ [(dst.next i, v)]) facts) facts

def restore (s : FlowImage) (facts : List FlowFact) : FlowM FlowImage := do
  let s ← facts.foldlM (fun s f => s.add f.1 f.2) s
  releaseFacts facts.length
  return s

/-- A carrier before it is written: a 32-bit write of a general register clears all of it. -/
def clearCarrier (s : FlowImage) (loc : Location) (size : Nat) : FlowM FlowImage := do
  let s ← s.clear loc size
  if loc.bank = .gp ∧ size = 4 then s.clear (loc.next 4) 4 else return s

def clearTail (s : FlowImage) (e : Effect) : FlowM FlowImage :=
  if e.clearTo > e.size then s.clear (e.dst.next e.size.toNat) (e.clearTo - e.size).toNat
  else return s

def clearRegisters (s : FlowImage) : FlowM FlowImage := do
  charge s.regHistory
  (← ranged s.registers.keys).foldlM (fun s loc => (s.cellAt loc).each (fun s v => s.remove loc v) s) s

def effect (s : FlowImage) (e : Effect) : FlowM FlowImage :=
  match e.kind with
  | .copy => do
    let facts ← s.snapshot e.src e.dst e.size.toNat []
    let s ← s.clearCarrier e.dst e.size.toNat
    let s ← s.restore facts
    s.clearTail e
  | .swap => do
    let facts ← s.snapshot e.src e.dst e.size.toNat []
    let facts ← s.snapshot e.dst e.src e.size.toNat facts
    let s ← s.clearCarrier e.src e.size.toNat
    let s ← s.clearCarrier e.dst e.size.toNat
    let s ← s.restore facts
    s.clearTail e
  | .kill => do
    let s ← s.clear e.dst e.size.toNat
    s.clearTail e
  | .call => do
    if s.registers.entries.isEmpty then return s
    let s ← s.clearRegisters
    s.clearTail e
  | .read => return s
  | .other _ => s.clearTail e

/-- Other places that hold the constant keep it. -/
def defineConstant (s : FlowImage) (loc : Location) (id : ValueID) (width : Nat) : FlowM FlowImage := do
  let s ← s.clear loc width
  (List.range width).foldlM (fun s i => s.add (loc.next i) ⟨id, i⟩) s

/-- A new value under an old name: no place holds it yet. -/
def define (s : FlowImage) (loc : Location) (id : ValueID) (width : Nat) : FlowM FlowImage := do
  let s ← s.forget id
  s.defineConstant loc id width

end FlowImage

/-- A successor's name for a value, and where the value is when the edge is taken. -/
structure Parameter where
  fromId : ValueID
  toId : ValueID
  location : Location
deriving DecidableEq

namespace FlowImage

/-- The facts one parameter gives its new name. -/
def renamed (s : FlowImage) (facts : List FlowFact) (p : Parameter) : FlowM (List FlowFact) := do
  charge 1
  let index := s.indexOf p.fromId
  if index.locations.entries.isEmpty then return facts
  charge index.history
  (← ranged index.locations.entries).foldlM
    (fun facts e => eachPart e.2 (fun facts part => do
      addFact
      return facts ++ [(e.1, ⟨p.toId, part⟩)]) facts) facts

def parameters (s : FlowImage) (params : List Parameter) : FlowM FlowImage := do
  let facts ← params.foldlM s.renamed []
  let s ← params.foldlM (fun s p => do
    charge 1
    s.forget p.toId) s
  s.restore facts

end FlowImage

end Wago.RegallocCheck
