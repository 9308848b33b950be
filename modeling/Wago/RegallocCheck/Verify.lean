/-
`internal/regalloccheck/flow_enabled.go`: the checked graphs, their validation, and `Verify`, which
computes what every path establishes and then looks at the uses.

The worklist loop takes a bound on its rounds. Each round is charged at least one unit of work, so a
bound above the work that is left is never what ends it (`flowLoop_within` in the specification).
-/
import Wago.RegallocCheck.FlowImage
import Wago.Lib.Ring

namespace Wago.RegallocCheck

/-! ## Graphs and results -/

inductive OpKind where
  | machine | define | use | unsupported | defineConstant
  | other (n : Nat)
deriving DecidableEq

structure Operation where
  kind : OpKind
  effect : Effect
  location : Location
  value : ValueID
  whereText : String
deriving DecidableEq

structure Binding where
  location : Location
  value : ValueID
deriving DecidableEq

structure Edge where
  target : Int
  parameters : List Parameter
deriving DecidableEq

structure Block where
  operations : List Operation
  edges : List Edge
deriving DecidableEq

structure Graph where
  widths : List Nat
  constValues : List ValueID
  blocks : List Block
  entry : Int
  inputs : List Binding
deriving DecidableEq

inductive Verdict where
  | inconclusive | verified | rejected
deriving DecidableEq

inductive FailureReason where
  | noFailure | unknownInput | provenanceMismatch | unsupportedOperation | invalidGraph | resourceLimit
deriving DecidableEq

structure Result where
  reason : FailureReason := .noFailure
  verdict : Verdict := .inconclusive
  block : Int := -1
  operation : Int := -1
  message : String := ""
  work : Int := 0
deriving DecidableEq

/-! ## Limits -/

def defaultLimits : Limits :=
  { blocks := 4096, values := 65536, operations := 262144, facts := 1048576, work := 33554432 }

def resolveLimit (given standard : Int) : Option Int :=
  if given < 0 then none else if given = 0 then some standard else some given

def resolveLimits (l : Limits) : Option Limits := do
  return {
    blocks := ← resolveLimit l.blocks defaultLimits.blocks
    values := ← resolveLimit l.values defaultLimits.values
    operations := ← resolveLimit l.operations defaultLimits.operations
    facts := ← resolveLimit l.facts defaultLimits.facts
    work := ← resolveLimit l.work defaultLimits.work }

/-! ## Validation -/

def flowLocation (loc : Location) (size : Int) (unknown : Bool) : Bool :=
  if size < 1 ∨ size > maxCarrierBytes then false
  else match loc.bank with
    | .gp => 0 ≤ loc.index.toInt ∧ loc.index.toInt < 32 ∧ loc.byte.toNat + size ≤ 8
    | .fp => 0 ≤ loc.index.toInt ∧ loc.index.toInt < 32 ∧ loc.byte.toNat + size ≤ maxCarrierBytes
    | .frame => loc.byte = 0 ∧ loc.index.toInt + size - 1 ≤ 2147483647
    | .returnArea => loc.index = 0 ∧ loc.byte.toNat + size ≤ 8
    | .unknown => unknown
    | .other _ => false

def returnAreaSink : Location := ⟨.returnArea, 0, 0⟩

def returnAreaEffectValid (e : Effect) : Bool :=
  if e.dst ≠ returnAreaSink ∨ e.size ≠ 8 ∨ e.clearTo ≠ 0 then false
  else match e.kind with
    | .copy => e.src.bank = .gp ∧ e.src.byte = 0 ∧ flowLocation e.src 8 false
    | .kill => e.src = ⟨.gp, 0, 0⟩
    | _ => false

def returnAreaUseValid (op : Operation) (width : Nat) : Bool :=
  op.kind = .use ∧ op.location = returnAreaSink ∧ (width = 4 ∨ width = 8)

def partialOverlap (a b : Location) (size : Int) : Bool :=
  if a.bank ≠ b.bank ∨ a = b then false
  else
    let range (x y : Int) : Bool := x < y + size ∧ y < x + size
    if a.bank = .frame then range a.index.toInt b.index.toInt
    else if a.index ≠ b.index then false
    else range a.byte.toNat b.byte.toNat

/-- `Kind` is a number in the source, and the kinds end with `Read`. -/
def Kind.known : Kind → Bool
  | .other _ => false
  | _ => true

def machineEffectValid (e : Effect) : Bool :=
  if e.dst.bank = .returnArea ∨ e.src.bank = .returnArea then returnAreaEffectValid e
  else if e.kind = .call then e.size = 0 ∧ e.clearTo = 0
  else if ¬ e.kind.known ∨ e.size < 1 ∨ e.size > maxCarrierBytes ∨
      e.clearTo < 0 ∨ (e.clearTo ≠ 0 ∧ e.clearTo < e.size) ∨ (e.kind = .read ∧ e.clearTo ≠ 0) then false
  else if e.kind ≠ .read ∧ ¬ flowLocation e.dst (max e.size e.clearTo) false then false
  else if (e.kind = .copy ∨ e.kind = .swap ∨ e.kind = .read) ∧
      ¬ flowLocation e.src e.size (e.kind ≠ .swap) then false
  else if (e.kind = .copy ∨ e.kind = .swap) ∧ e.size = 4 ∧
      ((e.dst.bank = .gp ∧ e.dst.byte ≠ 0) ∨
        (e.kind = .swap ∧ e.src.bank = .gp ∧ e.src.byte ≠ 0)) then false
  else e.kind ≠ .swap ∨ (e.clearTo = 0 ∧ ¬ partialOverlap e.dst e.src e.size)

/-- Validation either passes a result on or names what is wrong. -/
abbrev CheckM := ExceptT String FlowM

def reject (bad : Prop) [Decidable bad] (why : String) : CheckM Unit :=
  if bad then throw why else return ()

/-- Takes `n` operations from those that are left. -/
def consume (remaining : Int) (n : Nat) : CheckM Int := do
  reject (n > remaining) "operation limit"
  charge n
  return remaining - n

def isConstant (constants : List Bool) (id : ValueID) : Bool := constants[id]?.getD false

namespace Graph

def width (g : Graph) (id : ValueID) : Nat :=
  if id = 0 then 0 else g.widths[id - 1]?.getD 0

def validateWidth (width : Nat) : CheckM Unit := do
  charge 1
  reject (width = 0 ∨ width > maxCarrierBytes) "invalid semantic width"

/-- The table of constants, empty when none is declared. -/
def constantTable (g : Graph) : CheckM (List Bool) := do
  if g.constValues.isEmpty then return []
  charge (g.widths.length + 1)
  g.constValues.foldlM (fun constants id => do
    charge 1
    reject (g.width id = 0 ∨ isConstant constants id) "invalid or duplicate constant classification"
    return constants.set id true) (List.replicate (g.widths.length + 1) false)

def validateInput (g : Graph) (input : Binding) : CheckM Unit :=
  reject (input.location.bank = .returnArea ∨ ¬ flowLocation input.location (g.width input.value) false)
    "invalid input binding"

def validateSemantic (g : Graph) (constants : List Bool) (op : Operation) : CheckM Unit := do
  reject (¬ flowLocation op.location (g.width op.value) false ∨
      (op.location.bank = .returnArea ∧ ¬ returnAreaUseValid op (g.width op.value)))
    "invalid semantic operation"
  reject ((op.kind = .defineConstant ∧ ¬ isConstant constants op.value) ∨
      (op.kind = .define ∧ isConstant constants op.value))
    "definition violates constant classification"

def validateOperation (g : Graph) (constants : List Bool) (op : Operation) : CheckM Unit :=
  match op.kind with
  | .define | .defineConstant | .use => g.validateSemantic constants op
  | .machine => reject (¬ machineEffectValid op.effect) "invalid machine effect"
  | .unsupported => return ()
  | .other _ => throw "invalid operation kind"

def validateParameter (g : Graph) (constants : List Bool) (seen : List ValueID) (p : Parameter) :
    CheckM (List ValueID) := do
  reject (g.width p.fromId = 0 ∨ g.width p.fromId ≠ g.width p.toId ∨ p.toId ∈ seen ∨
      isConstant constants p.toId ∨ p.location.bank = .returnArea ∨
      ¬ flowLocation p.location (g.width p.fromId) false)
    "invalid or duplicate edge parameter"
  return p.toId :: seen

def validateEdge (g : Graph) (constants : List Bool) (remaining : Int) (edge : Edge) : CheckM Int := do
  reject (edge.target < 0 ∨ edge.target ≥ g.blocks.length) "invalid edge"
  let remaining ← consume remaining edge.parameters.length
  let _ ← edge.parameters.foldlM (g.validateParameter constants) []
  return remaining

def validateBlock (g : Graph) (constants : List Bool) (remaining : Int) (block : Block) : CheckM Int := do
  charge 1
  let remaining ← consume remaining block.operations.length
  let remaining ← consume remaining block.edges.length
  block.operations.foldlM (fun _ op => g.validateOperation constants op) ()
  block.edges.foldlM (g.validateEdge constants) remaining

def validate (g : Graph) (limits : Limits) : CheckM Unit := do
  reject (g.blocks.isEmpty ∨ g.blocks.length > limits.blocks ∨ g.entry < 0 ∨ g.entry ≥ g.blocks.length)
    "invalid block count or entry"
  reject (g.widths.length > limits.values) "semantic value limit"
  g.widths.foldlM (fun _ width => validateWidth width) ()
  reject (g.constValues.length > g.widths.length) "invalid constant classification count"
  let constants ← g.constantTable
  let remaining ← consume limits.operations g.inputs.length
  g.inputs.foldlM (fun _ input => g.validateInput input) ()
  let _ ← g.blocks.foldlM (g.validateBlock constants) remaining

/-! ## Blocks -/

def locationText (loc : Location) : String :=
  "\x7b" ++ toString loc.bank.code ++ " " ++ toString loc.index.toInt ++ " " ++
    toString loc.byte.toNat ++ "\x7d"

/-- The bytes of a use, up to the first that the image does not know. -/
def checkParts (s : FlowImage) (loc : Location) (value : ValueID) (whereText : String)
    (block operation : Nat) : List Nat → FlowM (Option Result)
  | [] => return none
  | part :: parts => do
    let place := loc.next part
    if ← s.has place ⟨value, part⟩ then
      checkParts s loc value whereText block operation parts
    else
      let (reason, why) := if (s.cellAt place).empty then (FailureReason.unknownInput, "unknown value")
        else (.provenanceMismatch, "unproven provenance")
      return some {
        verdict := .rejected
        reason := reason
        block := block
        operation := operation
        message := whereText ++ ": " ++ why ++ " at " ++ locationText loc ++ " byte " ++ toString part }

def check (g : Graph) (s : FlowImage) (loc : Location) (value : ValueID) (whereText : String)
    (block operation : Nat) : FlowM (Option Result) :=
  checkParts s loc value whereText block operation (List.range (g.width value))

/-- The operations of a block from number `i` on. -/
def runOps (g : Graph) (block : Nat) (check : Bool) :
    (i : Nat) → List Operation → FlowImage → FlowM (Except Result FlowImage)
  | _, [], s => return .ok s
  | i, op :: ops, s => do
    charge 1
    match op.kind with
    | .machine => g.runOps block check (i + 1) ops (← s.effect op.effect)
    | .define => g.runOps block check (i + 1) ops (← s.define op.location op.value (g.width op.value))
    | .defineConstant =>
      g.runOps block check (i + 1) ops (← s.defineConstant op.location op.value (g.width op.value))
    | .use =>
      if check then
        match ← g.check s op.location op.value op.whereText block i with
        | some failure => return .error failure
        | none => g.runOps block check (i + 1) ops s
      else g.runOps block check (i + 1) ops s
    | .unsupported =>
      return .error {
        verdict := .inconclusive
        reason := .unsupportedOperation
        block := block
        operation := i
        message := "unsupported: " ++ op.whereText }
    | .other _ => g.runOps block check (i + 1) ops s

def run (g : Graph) (s : FlowImage) (block : Nat) (check : Bool) : FlowM (Except Result FlowImage) := do
  g.runOps block check 0 (← elemAt g.blocks block).operations s

/-! ## The worklist -/

/-- A bounded ring holds each block at most once, including self-edges. -/
structure Worklist where
  queue : Ring Nat
  queued : List Bool

def Worklist.new (n : Nat) : Worklist := ⟨{ slots := List.replicate n 0 }, List.replicate n false⟩

def Worklist.enqueue (w : Worklist) (block : Nat) : Worklist :=
  if w.queued[block]?.getD false then w
  else ⟨w.queue.push block, w.queued.set block true⟩

/-- The next block, and the worklist without it. -/
def Worklist.dequeue (w : Worklist) : Nat × Worklist :=
  let block := w.queue.slots.getD w.queue.head default
  (block, ⟨w.queue.pop, w.queued.set block false⟩)

/-- The images at the entries of the blocks, where they are known, and the blocks to look at. -/
structure FlowState where
  ins : List (Option FlowImage)
  work : Worklist

/-- The image an edge brings, which is the one of the block when no name changes. -/
def alongEdge (out : FlowImage) (edge : Edge) : FlowM FlowImage := do
  if edge.parameters.isEmpty then return out
  (← out.clone).parameters edge.parameters

/-- What an edge brings to its target: the first image there, or one to meet. -/
def FlowState.join (st : FlowState) (target : Nat) (next : FlowImage) : FlowM FlowState := do
  match ← elemAt st.ins target with
  | none =>
    let image ← next.clone
    return { ins := st.ins.set target (some image), work := st.work.enqueue target }
  | some known =>
    let met ← known.meet next
    return { ins := st.ins.set target (some met.1)
             work := if met.2 then st.work.enqueue target else st.work }

def followEdge (out : FlowImage) (st : FlowState) (edge : Edge) : FlowM FlowState := do
  charge 1
  let next ← alongEdge out edge
  let st ← st.join edge.target.toNat next
  (if edge.parameters.isEmpty then pure () else next.release)
  return st

/-- An image that has to be there. -/
def imageAt (ins : List (Option FlowImage)) (block : Nat) : FlowM FlowImage := do
  match ← elemAt ins block with
  | some image => return image
  | none => throw .runtime

def followBlock (g : Graph) (block : Nat) (st : FlowState) : FlowM (Except Result FlowState) := do
  let out ← (← imageAt st.ins block).clone
  match ← g.run out block false with
  | .error failure => return .error failure
  | .ok out =>
    let st ← (← elemAt g.blocks block).edges.foldlM (followEdge out) st
    out.release
    return .ok st

/-- One round: the first block of the queue. -/
def flowRound (g : Graph) (st : FlowState) : FlowM (Except Result FlowState) := do
  charge 1
  g.followBlock st.work.dequeue.1 { st with work := st.work.dequeue.2 }

def flowLoop (g : Graph) : (rounds : Nat) → FlowState → FlowM (Except Result FlowState)
  | rounds, st =>
    if st.work.queue.count = 0 then return .ok st
    else match rounds with
      | 0 => throw .rounds
      | rounds + 1 => do
        match ← g.flowRound st with
        | .error failure => return .error failure
        | .ok st => g.flowLoop rounds st

/-- The loop, with more rounds than the budget can pay for. -/
def solve (g : Graph) (st : FlowState) : FlowM (Except Result FlowState) := do
  let b ← get
  g.flowLoop ((b.limits.work - b.work).toNat + 1) st

/-! ## The uses -/

def checkParameters (g : Graph) (out : FlowImage) (block operation edgeIndex : Nat) :
    (i : Nat) → List Parameter → FlowM (Option Result)
  | _, [] => return none
  | i, p :: params => do
    charge 1
    let whereText := "edge " ++ toString edgeIndex ++ " parameter " ++ toString i
    match ← g.check out p.location p.fromId whereText block operation with
    | some failure => return some failure
    | none => g.checkParameters out block operation edgeIndex (i + 1) params

def checkEdges (g : Graph) (out : FlowImage) (block operation : Nat) :
    (i : Nat) → List Edge → FlowM (Option Result)
  | _, [] => return none
  | i, edge :: edges => do
    charge 1
    match ← g.checkParameters out block operation i 0 edge.parameters with
    | some failure => return some failure
    | none => g.checkEdges out block operation (i + 1) edges

/-- The final pass over one block. -/
def checkBlock (g : Graph) (block : Nat) (entry : FlowImage) : FlowM (Option Result) := do
  match ← g.run (← entry.clone) block true with
  | .error failure => return some failure
  | .ok out =>
    let code ← elemAt g.blocks block
    match ← g.checkEdges out block code.operations.length 0 code.edges with
    | some failure => return some failure
    | none =>
      out.release
      return none

def checkBlocks (g : Graph) : (block : Nat) → List (Option FlowImage) → FlowM (Option Result)
  | _, [] => return none
  | block, entry :: ins => do
    charge 1
    match entry with
    | none => g.checkBlocks (block + 1) ins
    | some entry =>
      match ← g.checkBlock block entry with
      | some failure => return some failure
      | none => g.checkBlocks (block + 1) ins

/-! ## Verify -/

/-- The facts the inputs establish. -/
def inputFacts (g : Graph) : List FlowFact :=
  g.inputs.flatMap fun input =>
    (List.range (g.width input.value)).map fun part => (input.location.next part, ⟨input.value, part⟩)

def entryState (g : Graph) : FlowM FlowState := do
  let image ← g.inputFacts.foldlM (fun s f => s.add f.1 f.2) {}
  let n := g.blocks.length
  return {
    ins := (List.replicate n none).set g.entry.toNat (some image)
    work := (Worklist.new n).enqueue g.entry.toNat }

def invalidResult (g : Graph) (limits : Limits) (why : String) : Result :=
  { verdict := .inconclusive
    message := why
    reason := if why = "semantic value limit" ∨ why = "operation limit" ∨ g.blocks.length > limits.blocks
      then .resourceLimit else .invalidGraph }

/-- What `Verify` does within resolved limits. -/
def analyse (g : Graph) (limits : Limits) : FlowM Result := do
  match ← (g.validate limits).run with
  | .error why => return g.invalidResult limits why
  | .ok () =>
    match ← g.solve (← g.entryState) with
    | .error failure => return failure
    | .ok st =>
      match ← g.checkBlocks 0 st.ins with
      | some failure => return failure
      | none => return { verdict := .verified }

/-- The answer of `Verify` when maps are ranged over as `choices` says, or nothing for a fault. -/
def verify (g : Graph) (limits : Limits) (choices : Nat → Nat) : Option Result :=
  match resolveLimits limits with
  | none => some { reason := .invalidGraph, message := "invalid analysis limits" }
  | some limits =>
    match g.analyse limits { limits, work := 0, facts := 0, choices } with
    | .ok (result, b) => some { result with work := b.work }
    | .error (.flowLimit work) =>
      some { reason := .resourceLimit, message := "analysis resource limit", work }
    | .error .runtime | .error .rounds => none

end Graph

end Wago.RegallocCheck
