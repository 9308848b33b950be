/-
Element segments: the check of a segment, with its offset and its table when it is active
(`validateElem` in `validate.go`, `validateDirectElem` in `validate_bytebacked.go`), beside the check
of a `table.init` that uses the segment. A segment of function indexes has the type `(ref func)` in
the first and `funcref` in the second.
-/
import Wago.Wasm.Step

namespace Wago.Wasm

namespace ModuleValidator

/-- Errors of the module phase carry no function. -/
def err (code : ValidationErrorCode) (detail : String) : Err := .validation { code, func := -1, detail }

variable (v : ModuleValidator) {α : Type} (check : α → ValType → Except Err Unit)

/-- The payload of a segment in either form: `unknown` says whether it names a function that does not
exist, `check` is the check of a constant expression. -/
def elemPayload (kind : ElemKindKind) (ref : RefType) (unknown : Bool) (exprs : List α) :
    Except Err RefType :=
  match kind with
  | .funcs => if unknown then .error (err .unknownFunc "elem") else .ok (mkRef false (.abs .func) false)
  | .funcExprs => do
    exprs.forM (check · .funcRef)
    return absRef .func
  | .typedExprs => do
    validateRefType v.m.types ref
    exprs.forM (check · (.ref ref))
    return ref

/-- The offset and the table of an active segment. -/
def elemTarget (elemRef : RefType) (table : Nat) (offset : α) : Except Err Unit :=
  match v.m.tableType table with
  | none => .error (err .unknownTable "elem")
  | some tt => do
    check offset (tableAddrType tt)
    if v.types.refSubtype elemRef tt.ref then .ok ()
    else .error (err .typeMismatch "element type does not match table")

def validateElemPayload (check : Expr → ValType → Except Err Unit) (e : Elem) : Except Err RefType :=
  v.elemPayload check e.kind.kind e.kind.ref (e.kind.funcs.any (v.m.funcCount ≤ ·)) e.kind.exprs

def validateElem (check : Expr → ValType → Except Err Unit) (e : Elem) : Except Err Unit := do
  let elemRef ← v.validateElemPayload check e
  if e.mode.kind = .active then v.elemTarget check elemRef e.mode.table e.mode.offset

def validateDirectElemPayload (check : List UInt8 → ValType → Except Err Unit) (e : DirectElem) :
    Except Err RefType :=
  v.elemPayload check e.kind e.ref (e.hasFuncs ∧ v.m.funcCount ≤ e.maxFunc) e.exprs

def validateDirectElem (check : List UInt8 → ValType → Except Err Unit) (e : DirectElem) :
    Except Err Unit := do
  let elemRef ← v.validateDirectElemPayload check e
  if e.modeKind = .active then v.elemTarget check elemRef e.table e.offset

end ModuleValidator

def Elem.activeFor (e : Elem) (table : Nat) (offset : Expr) : Elem :=
  { e with mode := { kind := .active, table, offset } }

def DirectElem.activeFor (e : DirectElem) (table : Nat) (offset : List UInt8) : DirectElem :=
  { e with modeKind := .active, table, offset }

/-! ## The two types of a segment -/

/-- Function indexes for a table of type `(ref func)`. -/
def InitRefused (kind : ElemKindKind) (q : RefType) : Prop :=
  kind = .funcs ∧ q.nullable = false ∧ q.exact = false ∧ q.heap = .abs .func

section Checks

variable {fv : FuncEnv} {k table : Nat} {tt : TableType} {ref : RefType} {rest : List Val}
  {s : FuncValidator} {f : CtrlFrame} {fs : List CtrlFrame}

/-- The type that `table.init` takes a segment to have. -/
def initRef (kind : ElemKindKind) (ref : RefType) : RefType :=
  match kind with
  | .funcs | .funcExprs => absRef .func
  | .typedExprs => ref

/-- A heap type that `func` matches is `func` itself: the abstract types below a declared function type
are `nofunc` only. -/
theorem refSubtype_func_iff {ctx : TypeContext} {q : RefType} :
    ctx.refSubtype (mkRef false (.abs .func) false) q = true ↔ q.exact = false ∧ q.heap = .abs .func := by
  unfold TypeContext.refSubtype
  cases hq : q.heap with
  | abs y =>
    by_cases hy : y = .func
    · subst hy
      simp [mkRef, heapTypeEquivalent]
    · have hne : ¬ AbsHeapType.func = y := fun h => hy h.symm
      simp [mkRef, heapTypeEquivalent, equalHeapType, absHeapSubtype, hy, hne]
  | typeIndex y =>
    simp only [mkRef, heapTypeEquivalent, equalHeapType]
    cases compTypeFromTypeIdx ctx.types y with
    | none => simp
    | some c => cases c <;> simp
  | defType d => simp [mkRef, heapTypeEquivalent, equalHeapType]
  | bottom => simp [mkRef, heapTypeEquivalent, equalHeapType]

/-- The types differ in whether they take null, which a table that takes null does not look at. -/
theorem elemPayload_agree {α : Type} {check : α → ValType → Except Err Unit} {kind : ElemKindKind}
    {declared : RefType} {unknown : Bool} {exprs : List α}
    (h : fv.elemPayload check kind declared unknown exprs = .ok ref) (q : RefType) :
    (fv.types.refSubtype ref q = true ↔ fv.types.refSubtype (initRef kind declared) q = true) ↔
      ¬ InitRefused kind q := by
  unfold ModuleValidator.elemPayload at h
  split at h
  · split at h <;> cases h
    cases hq : q.nullable with
    | false =>
      have hnull : fv.types.refSubtype (absRef .func) q = false := by
        unfold TypeContext.refSubtype
        simp [hq, absRef]
      simp [initRef, InitRefused, hq, hnull, refSubtype_func_iff]
    | true =>
      have hsame : fv.types.refSubtype (mkRef false (.abs .func) false) q =
          fv.types.refSubtype (absRef .func) q := by
        unfold TypeContext.refSubtype
        simp [hq, absRef, mkRef]
      simp [initRef, InitRefused, hq, hsame]
  · obtain ⟨-, -, h⟩ := Run.except_bind_ok.1 h
    cases h
    simp [initRef, InitRefused]
  · obtain ⟨-, -, h⟩ := Run.except_bind_ok.1 h
    obtain ⟨-, -, h⟩ := Run.except_bind_ok.1 h
    cases h
    simp [initRef, InitRefused]

theorem elemTarget_iff {α : Type} {check : α → ValType → Except Err Unit} {offset : α}
    (ht : fv.m.tableType table = some tt) (ho : check offset (tableAddrType tt) = .ok ()) :
    fv.elemTarget check ref table offset = .ok () ↔ fv.types.refSubtype ref tt.ref = true := by
  unfold ModuleValidator.elemTarget
  simp only [ht, ho]
  cases fv.types.refSubtype ref tt.ref <;> simp [bind, Except.bind]

/-! ## `table.init` -/

/-- The state with the operands of a `table.init` on top of `rest`. -/
def initState (tt : TableType) (rest : List Val) (s : FuncValidator) : FuncValidator :=
  { s with vals := .known .i32 :: .known .i32 :: .known (tableAddrType tt) :: rest }

theorem popExpect_known {t : ValType} (hc : s.ctrls = f :: fs)
    (hh : f.height ≤ rest.length) :
    (FuncValidator.popExpect fv t).run { s with vals := .known t :: rest } = .ok () { s with vals := rest } := by
  have hlen : rest.length + 1 ≠ f.height := by omega
  have hsub : fv.subtype t t = true := by simp [FuncEnv.subtype]
  simp [FuncValidator.popExpect, FuncValidator.pop, FuncValidator.top, FuncEnv.expect, hc, hlen, hsub]

theorem stepTableInit_iff (ht : fv.m.tableType table = some tt) (hc : s.ctrls = f :: fs)
    (hh : f.height ≤ rest.length) (he : fv.elemRefType k = .ok ref) :
    (∃ s', (fv.exec (fv.stepTableInit k table)).run (initState tt rest s) = .ok () s') ↔
      fv.types.refSubtype ref tt.ref = true := by
  unfold FuncEnv.stepTableInit FuncEnv.withTable FuncEnv.exec
  rw [he, ht]
  cases href : fv.types.refSubtype ref tt.ref with
  | false => simp [Check.ofExcept, Check.fail, href]
  | true =>
    have hh₁ : f.height ≤ (Val.known (tableAddrType tt) :: rest).length := Nat.le_add_right_of_le hh
    refine ⟨fun _ => rfl, fun _ => ⟨{ s with vals := rest }, ?_⟩⟩
    simp only [Check.ofExcept, Program.runWith_bind, Program.runWith_pure, pure_bind, href, if_true,
      Check.popExpect, Program.runWith_perform, FuncValidator.handle, EStateM.run_bind, initState]
    rw [popExpect_known hc (Nat.le_add_right_of_le hh₁)]
    dsimp only
    rw [popExpect_known hc hh₁]
    exact popExpect_known hc hh

/-- For a valid segment and a valid offset the two checks disagree exactly when the segment is one of
function indexes and the table has the type `(ref func)`. -/
theorem elemChecks_agree_iff (ht : fv.m.tableType table = some tt) (hc : s.ctrls = f :: fs)
    (hh : f.height ≤ rest.length) :
    (∀ check e offset, fv.direct = none → fv.m.elements[k]? = some e →
      fv.validateElemPayload check e = .ok ref → check offset (tableAddrType tt) = .ok () →
      ((fv.validateElem check (e.activeFor table offset) = .ok () ↔
          ∃ s', (fv.exec (fv.stepTableInit k table)).run (initState tt rest s) = .ok () s') ↔
        ¬ InitRefused e.kind.kind tt.ref)) ∧
    ∀ check d e offset, fv.direct = some d → d.elements[k]? = some e →
      fv.validateDirectElemPayload check e = .ok ref → check offset (tableAddrType tt) = .ok () →
      ((fv.validateDirectElem check (e.activeFor table offset) = .ok () ↔
          ∃ s', (fv.exec (fv.stepTableInit k table)).run (initState tt rest s) = .ok () s') ↔
        ¬ InitRefused e.kind tt.ref) := by
  constructor
  · intro check e offset hd he hp ho
    have hinit : fv.elemRefType k = .ok (initRef e.kind.kind e.kind.ref) := by
      unfold FuncEnv.elemRefType
      simp only [hd, he, Option.map_some]
      cases e.kind.kind <;> rfl
    unfold ModuleValidator.validateElem
    rw [show fv.validateElemPayload check (e.activeFor table offset) = .ok ref from hp,
      stepTableInit_iff ht hc hh hinit, ← elemPayload_agree hp]
    exact iff_congr (elemTarget_iff ht ho) Iff.rfl
  · intro check d e offset hd he hp ho
    have hinit : fv.elemRefType k = .ok (initRef e.kind e.ref) := by
      unfold FuncEnv.elemRefType
      simp only [hd, he, Option.map_some]
      cases e.kind <;> rfl
    unfold ModuleValidator.validateDirectElem
    rw [show fv.validateDirectElemPayload check (e.activeFor table offset) = .ok ref from hp,
      stepTableInit_iff ht hc hh hinit, ← elemPayload_agree hp]
    exact iff_congr (elemTarget_iff ht ho) Iff.rfl

end Checks

/-- A segment of one function index. -/
def indexSegment : Elem :=
  { mode := { kind := .passive }, kind := { kind := .funcs, funcs := [0], ref := absRef .func } }

def indexSegmentTable (nullable : Bool) : TableType :=
  ⟨mkRef nullable (.abs .func) false, { min := 1, max := none, addr64 := false }⟩

/-- A module with the segment and a table of functions. -/
def indexSegmentEnv (nullable : Bool) : FuncEnv :=
  { m :=
      { funcTypes := [{ index := 0 }], elements := [indexSegment]
        tables := [{ type := indexSegmentTable nullable }] }
    types := .ofTypes [], funcIndex := 0 }

def bodyState : FuncValidator :=
  { ctrls := [{ kind := .func, ins := [], outs := [], height := 0, initHeight := 0 }] }

theorem elemChecks_agree_nullable :
    ((indexSegmentEnv true).validateElem (fun _ _ => .ok ()) (indexSegment.activeFor 0 {}) = .ok () ↔
      ∃ s', ((indexSegmentEnv true).exec ((indexSegmentEnv true).stepTableInit 0 0)).run
        (initState (indexSegmentTable true) [] bodyState) = .ok () s') := by
  have hagree := (@elemChecks_agree_iff (indexSegmentEnv true) 0 0 (indexSegmentTable true)
    (mkRef false (.abs .func) false) [] bodyState _ _ rfl rfl (Nat.le_refl 0)).1
  exact (hagree (fun _ _ => .ok ()) indexSegment {} rfl rfl rfl rfl).2 fun h => Bool.noConfusion h.2.1

/-- The segment may be active for a table that does not take null, and `table.init` may not use it. -/
theorem tableInit_refuses_active :
    (indexSegmentEnv false).validateElem (fun _ _ => .ok ()) (indexSegment.activeFor 0 {}) = .ok () ∧
    ((indexSegmentEnv false).exec ((indexSegmentEnv false).stepTableInit 0 0)).run
      (initState (indexSegmentTable false) [] bodyState) =
        .error ((indexSegmentEnv false).verr .typeMismatch "table.init element type")
          (initState (indexSegmentTable false) [] bodyState) :=
  ⟨rfl, rfl⟩

end Wago.Wasm
