/-
`Verify` is right about the graphs it checks. Validation establishes `Graph.Checked`; the worklist
solves the must-analysis `Graph.flow` exactly, so a use that the final pass accepts is established
along every path, and one that it rejects is not established along some path.
-/
import Wago.RegallocCheck.TransferSpec
import Mathlib.Data.List.Induction

namespace Wago.RegallocCheck

open Metered MustFlow List

/-! ## Validation -/

/-- If the check passes, its result satisfies `Q`. -/
def Passes {α : Type} (x : CheckM α) (Q : α → Prop) : Prop :=
  Ensures x.run fun r => ∀ a, r = .ok a → Q a

variable {α γ : Type} {x : CheckM α} {Q : α → Prop}

theorem Passes.bind {f : α → CheckM γ} {R : γ → Prop}
    (hx : Passes x Q) (hf : ∀ a, Q a → Passes (f a) R) : Passes (x >>= f) R := by
  refine Ensures.bind (x := x.run) hx fun r hr => ?_
  rcases r with why | a
  · exact ensures_pure (by simp)
  · exact hf a (hr a rfl)

theorem Passes.mono {R : α → Prop} (hx : Passes x Q) (h : ∀ a, Q a → R a) :
    Passes x R :=
  Ensures.mono hx fun _ hr a ha => h a (hr a ha)

theorem passes_pure {a : α} (h : Q a) : Passes (pure a : CheckM α) Q :=
  ensures_pure fun b hb => by cases hb; exact h

theorem passes_throw (why : String) : Passes (throw why : CheckM α) Q :=
  ensures_pure fun b hb => by cases hb

theorem passes_charge {n : Nat} (hx : Passes x Q) :
    Passes (do charge n; x) Q := by
  refine Passes.bind (Q := fun _ => True) ?_ fun _ _ => hx
  exact (ensures_charge n).bind fun _ _ => ensures_pure fun _ _ => trivial

theorem passes_reject (bad : Prop) [Decidable bad] (why : String) : Passes (reject bad why) fun _ => ¬ bad := by
  unfold reject
  split
  · exact passes_throw why
  · next h => exact passes_pure h

theorem passes_foldlM {f : γ → α → CheckM γ} (I : List α → γ → Prop) {l : List α}
    (hstep : ∀ done a rest b, l = done ++ a :: rest → I done b → Passes (f b a) (I (done ++ [a])))
    {b : γ} (hb : I [] b) : Passes (l.foldlM f b) (I l) := by
  suffices h : ∀ rest done b, l = done ++ rest → I done b → Passes (rest.foldlM f b) (I l) from
    h l [] b rfl hb
  intro rest
  induction rest with
  | nil =>
    intro done b hl hI
    rw [foldlM_nil]
    exact passes_pure (by rwa [hl, append_nil])
  | cons a rest ih =>
    intro done b hl hI
    rw [foldlM_cons]
    exact (hstep done a rest b hl hI).bind fun b' hb' => ih (done ++ [a]) b' (by rw [hl]; simp) hb'

/-- A check of every element of a list. -/
theorem passes_forall {f : γ → α → CheckM γ} {P : α → Prop} {l : List α} {b : γ}
    (h : ∀ b a, Passes (f b a) fun _ => P a) : Passes (l.foldlM f b) fun _ => ∀ a ∈ l, P a := by
  refine passes_foldlM (fun done _ => ∀ a ∈ done, P a) ?_ (by simp)
  intro done a rest b _ hI
  exact (h b a).mono fun _ ha => forall_mem_append.2 ⟨hI, forall_mem_singleton.2 ha⟩

namespace Graph

theorem passes_consume (remaining : Int) (n : Nat) : Passes (consume remaining n) fun _ => True :=
  (passes_reject _ _).bind fun _ _ => passes_charge (passes_pure trivial)

theorem passes_validateOperation (g : Graph) (constants : List Bool) (op : Operation) :
    Passes (g.validateOperation constants op) fun _ => op.Checked g := by
  have hsemantic : Passes (g.validateSemantic constants op) fun _ =>
      flowLocation op.location (g.width op.value) false = true := by
    refine (passes_reject _ _).bind fun _ hloc => (passes_reject _ _).mono fun _ _ => ?_
    by_contra hno
    exact hloc (.inl hno)
  unfold validateOperation Operation.Checked
  cases op.kind with
  | define | defineConstant | use => exact hsemantic
  | machine =>
    refine (passes_reject _ _).mono fun _ h => Effect.valid_of_machine ?_
    simpa using h
  | unsupported => exact passes_pure trivial
  | other n => exact passes_throw _

theorem passes_validateEdge (g : Graph) (constants : List Bool) (remaining : Int) (e : Edge) :
    Passes (g.validateEdge constants remaining e) fun _ => e.Checked g := by
  refine (passes_reject _ _).bind fun _ htarget => (passes_consume _ _).bind fun _ _ => ?_
  refine (passes_foldlM (fun done seen => (∀ id, id ∈ seen ↔ id ∈ done.map (·.toId)) ∧
    (done.map (·.toId)).Nodup ∧ ∀ p ∈ done, flowLocation p.location (g.width p.fromId) false = true ∧
      g.width p.toId = g.width p.fromId) ?_ (by simp)).bind fun _ h => passes_pure ?_
  · rintro done p rest seen _ ⟨hseen, hnodup, hparams⟩
    refine (passes_reject _ _).bind fun _ hok => passes_pure ⟨fun id => ?_, ?_, fun q hq => ?_⟩
    · rw [mem_cons, hseen, map_append, mem_append, map_singleton,
        mem_singleton, or_comm]
    · push Not at hok
      rw [map_append, map_singleton, nodup_append]
      refine ⟨hnodup, nodup_singleton _, ?_⟩
      rintro a ha b hb rfl
      rw [mem_singleton] at hb
      subst hb
      exact hok.2.2.1 ((hseen _).2 ha)
    · rcases mem_append.1 hq with hq | hq
      · exact hparams q hq
      · rw [mem_singleton.1 hq]
        push Not at hok
        exact ⟨hok.2.2.2.2.2, hok.2.1.symm⟩
  · refine ⟨?_, h.2.1, h.2.2⟩
    omega

theorem passes_validateBlock (g : Graph) (constants : List Bool) (remaining : Int) (block : Block) :
    Passes (g.validateBlock constants remaining block) fun _ =>
      (∀ op ∈ block.operations, op.Checked g) ∧ ∀ e ∈ block.edges, e.Checked g := by
  refine passes_charge ((passes_consume _ _).bind fun _ _ => (passes_consume _ _).bind fun remaining _ => ?_)
  refine (passes_forall fun _ => g.passes_validateOperation constants).bind fun _ hops => ?_
  exact (passes_forall (g.passes_validateEdge constants)).mono fun _ h => ⟨hops, h⟩

theorem passes_constantTable (g : Graph) : Passes g.constantTable fun _ => True := by
  unfold constantTable
  split
  · exact passes_pure trivial
  · refine passes_charge (passes_foldlM (fun _ _ => True) (fun _ _ _ _ _ _ => ?_) trivial)
    exact passes_charge ((passes_reject _ _).bind fun _ _ => passes_pure trivial)

theorem passes_validate (g : Graph) (limits : Limits) : Passes (g.validate limits) fun _ => g.Checked := by
  refine (passes_reject _ _).bind fun _ hshape => (passes_reject _ _).bind fun _ _ => ?_
  refine (passes_forall (P := fun width => width ≤ 64) fun _ width => ?_).bind fun _ hwidths => ?_
  · refine passes_charge ((passes_reject _ _).mono fun _ h => ?_)
    simp only [maxCarrierBytes] at h
    omega
  refine (passes_reject _ _).bind fun _ _ => g.passes_constantTable.bind fun constants _ => ?_
  refine (passes_consume _ _).bind fun remaining _ => ?_
  refine (passes_forall (P := fun input =>
    flowLocation input.location (g.width input.value) false = true) fun _ input => ?_).bind fun _ hinputs => ?_
  · refine (passes_reject _ _).mono fun _ h => ?_
    by_contra hno
    exact h (.inr hno)
  refine (passes_forall (g.passes_validateBlock constants)).bind fun _ hblocks =>
    passes_pure ⟨?_, ?_, hinputs, fun b hb => (hblocks b hb).1, fun b hb => (hblocks b hb).2⟩
  · omega
  · intro id
    unfold Graph.width
    split
    · omega
    · rcases hw : g.widths[id - 1]? with _ | w
      · simp
      · exact hwidths w (mem_of_getElem? hw)

/-! ## Blocks -/

/-- Every byte of the value is known to be in the carrier. -/
def Established (g : Graph) (X : Set FlowFact) (loc : Location) (value : ValueID) : Prop :=
  ∀ part < g.width value, (loc.next part, ⟨value, part⟩) ∈ X

/-- The facts after some operations. -/
def after (g : Graph) (ops : List Operation) (X : Set FlowFact) : Set FlowFact :=
  (transferOps g ops).apply X

@[simp] theorem after_nil (g : Graph) (X : Set FlowFact) : g.after [] X = X := rfl

theorem after_snoc (g : Graph) (ops : List Operation) (op : Operation) (X : Set FlowFact) :
    g.after (ops ++ [op]) X = (op.transfer g).apply (g.after ops X) := by
  rw [after, transferOps_snoc, Transfer.apply_andThen]
  rfl

theorem after_append (g : Graph) (ops ops' : List Operation) (X : Set FlowFact) :
    g.after (ops ++ ops') X = g.after ops' (g.after ops X) := by
  induction ops' using List.reverseRecOn with
  | nil => simp
  | append_singleton ops' op ih => rw [← append_assoc, after_snoc, after_snoc, ih]

theorem after_cons (g : Graph) (op : Operation) (ops : List Operation) (X : Set FlowFact) :
    g.after (op :: ops) X = g.after ops ((op.transfer g).apply X) := by
  rw [← singleton_append, after_append, ← nil_append [op], after_snoc, after_nil]

/-- A check at this place: it passes when `P` holds, and rejects when it does not. -/
def Settles (block operation : Nat) (P : Prop) : Option Result → Prop
  | none => P
  | some failure => failure.verdict = .rejected ∧ failure.block = block ∧
      failure.operation = operation ∧ ¬ P

section Settles

variable {block operation : Nat} {r : Option Result} {P : α → Prop} {a : α} {l : List α}

theorem Settles.cons (ha : P a) (h : Settles block operation (∀ x ∈ l, P x) r) :
    Settles block operation (∀ x ∈ a :: l, P x) r := by
  rw [forall_mem_cons]
  simpa [ha] using h

/-- A check of the first element, and if it passes, one of the others. -/
theorem ensures_settles_cons {x y : FlowM (Option Result)} (hx : Ensures x (Settles block operation (P a)))
    (hy : Ensures y (Settles block operation (∀ x ∈ l, P x))) :
    Ensures (do match ← x with | some failure => return some failure | none => y)
      (Settles block operation (∀ x ∈ a :: l, P x)) := by
  refine hx.bind fun r hr => ?_
  rcases r with _ | failure
  · exact hy.mono fun r => Settles.cons hr
  · obtain ⟨hv, hb, ho, hno⟩ := hr
    exact ensures_pure ⟨hv, hb, ho, fun hall => hno (hall a (mem_cons_self ..))⟩

end Settles

variable {X : Set FlowFact} {loc : Location} {value : ValueID}

theorem ensures_checkParts {s : FlowImage} (hs : s.Holds X)
    (hid : value ≠ 0) (whereText : String) (block operation : Nat) :
    ∀ parts : List Nat, Ensures (checkParts s loc value whereText block operation parts)
      (Settles block operation (∀ part ∈ parts, (loc.next part, (⟨value, part⟩ : Symbol)) ∈ X))
  | [] => ensures_pure fun _ h => by cases h
  | part :: parts => by
    have hX := hs.2
    refine (FlowImage.ensures_has hid).bind fun r hr => Ensures.ite (fun h => ?_) fun h => ?_
    · have hin := hr.1 h
      rw [hX] at hin
      exact (ensures_checkParts hs hid whereText block operation parts).mono fun r => Settles.cons hin
    · refine ensures_pure ⟨rfl, rfl, rfl, fun hall => h (hr.2 ?_)⟩
      rw [hX]
      exact hall part (mem_cons_self ..)

variable {g : Graph} {X : Set FlowFact}

theorem ensures_check {s : FlowImage} (hs : s.Holds X) (hid : value ≠ 0)
    (whereText : String) (block operation : Nat) :
    Ensures (g.check s loc value whereText block operation)
      (Settles block operation (g.Established X loc value)) := by
  refine (ensures_checkParts hs hid whereText block operation _).mono fun r hr => ?_
  simp only [mem_range] at hr
  exact hr

/-- All uses among the operations are established, and all operations are supported. -/
structure OpsHold (g : Graph) (check : Bool) (ops : List Operation) (X : Set FlowFact) : Prop where
  uses : check = true → ∀ pre op post, ops = pre ++ op :: post → op.kind = .use →
    g.Established (g.after pre X) op.location op.value
  supported : ∀ op ∈ ops, op.kind ≠ .unsupported

/-- A failure among the operations: one that is not supported, or a use that is not established. -/
def OpsFail (g : Graph) (check : Bool) (block i : Nat) (ops : List Operation) (X : Set FlowFact)
    (failure : Result) : Prop :=
  failure.verdict = .inconclusive ∨
    (check = true ∧ failure.verdict = .rejected ∧ failure.block = block ∧ ∃ pre op post, ops = pre ++ op :: post ∧
      failure.operation = (i + pre.length : Nat) ∧ op.kind = .use ∧
      ¬ g.Established (g.after pre X) op.location op.value)

/-- How the operations end. -/
def OpsEnd (g : Graph) (check : Bool) (block i : Nat) (ops : List Operation) (X : Set FlowFact) :
    Except Result FlowImage → Prop
  | .ok s => s.Holds (g.after ops X) ∧ g.OpsHold check ops X
  | .error failure => g.OpsFail check block i ops X failure

variable {ops : List Operation}

theorem OpsHold.cons {check : Bool} {op : Operation}
    (huse : check = true → op.kind = .use → g.Established X op.location op.value)
    (hop : op.kind ≠ .unsupported) (h : g.OpsHold check ops ((op.transfer g).apply X)) :
    g.OpsHold check (op :: ops) X where
  uses hcheck pre op' post hsplit hkind := by
    rcases pre with _ | ⟨first, pre⟩
    · cases hsplit
      exact huse hcheck hkind
    · cases hsplit
      rw [after_cons]
      exact h.uses hcheck pre op' post rfl hkind
  supported op' hop' := by
    rcases mem_cons.1 hop' with rfl | hop'
    · exact hop
    · exact h.supported op' hop'

theorem OpsFail.cons {check : Bool} {block i : Nat} {op : Operation} {failure : Result}
    (h : g.OpsFail check block (i + 1) ops ((op.transfer g).apply X) failure) :
    g.OpsFail check block i (op :: ops) X failure := by
  rcases h with h | ⟨hcheck, hv, hb, pre, op', post, rfl, ho, hkind, hout⟩
  · exact .inl h
  · refine .inr ⟨hcheck, hv, hb, op :: pre, op', post, rfl, ?_, hkind, ?_⟩
    · rw [ho, length_cons]
      omega
    · rwa [after_cons]

variable {g : Graph}

theorem ensures_runOps (hg : g.Checked) (block : Nat) (check : Bool) :
    ∀ (i : Nat) (ops : List Operation) {s : FlowImage} {X : Set FlowFact}, s.Holds X →
      (∀ op ∈ ops, op.Checked g) → Ensures (g.runOps block check i ops s) (g.OpsEnd check block i ops X)
  | i, [], s, X, hs, _ => ensures_pure ⟨hs, fun _ pre op post h => by simp at h, by simp⟩
  | i, op :: ops, s, X, hs, hops => by
    have hop := hops op (mem_cons_self ..)
    have hrest : ∀ op' ∈ ops, op'.Checked g := fun op' h => hops op' (mem_cons_of_mem _ h)
    -- the rest of the operations, from the image after this one
    have hnext : ∀ s' : FlowImage, s'.Holds ((op.transfer g).apply X) → op.kind ≠ .unsupported →
        (check = true → op.kind = .use → g.Established X op.location op.value) →
        Ensures (g.runOps block check (i + 1) ops s') (g.OpsEnd check block i (op :: ops) X) := by
      intro s' hs' hsupported huse
      refine (ensures_runOps hg block check (i + 1) ops hs' hrest).mono fun r hr => ?_
      rcases r with failure | s''
      · exact OpsFail.cons hr
      · obtain ⟨hholds, hhold⟩ := hr
        rw [← after_cons] at hholds
        exact ⟨hholds, OpsHold.cons huse hsupported hhold⟩
    unfold runOps
    refine ensures_charge_then ?_
    unfold Operation.Checked at hop
    cases hk : op.kind with
    | machine =>
      rw [hk] at hop
      refine (FlowImage.ensures_effect hs hop).bind fun s' hs' => hnext s' ?_ (by simp [hk]) (by simp [hk])
      exact hs'.congr fun f => by simp [Transfer.mem_apply, Operation.transfer, hk]
    | define =>
      rw [hk] at hop
      have hid := Graph.named_of_flowLocation hop
      refine (FlowImage.ensures_define hs op.location hid (hg.widths op.value)).bind fun s' hs' =>
        hnext s' ?_ (by simp [hk]) (by simp [hk])
      exact hs'.congr fun f => by simp [Transfer.mem_apply, Operation.transfer, hk]
    | defineConstant =>
      rw [hk] at hop
      have hid := Graph.named_of_flowLocation hop
      refine (FlowImage.ensures_defineConstant hs op.location hid (hg.widths op.value)).bind fun s' hs' =>
        hnext s' ?_ (by simp [hk]) (by simp [hk])
      exact hs'.congr fun f => by simp [Transfer.mem_apply, Operation.transfer, hk]
    | use =>
      rw [hk] at hop
      have hid := Graph.named_of_flowLocation hop
      have hsame : s.Holds ((op.transfer g).apply X) :=
        hs.congr fun f => by simp [Transfer.mem_apply, Operation.transfer, hk]
      refine Ensures.ite (fun hcheck => ?_) fun hcheck => ?_
      · refine (ensures_check hs hid op.whereText block i).bind fun r hr => ?_
        rcases r with _ | failure
        · exact hnext s hsame (by simp [hk]) fun _ _ => hr
        · obtain ⟨hv, hb, ho, hout⟩ := hr
          exact ensures_pure (.inr ⟨hcheck, hv, hb, [], op, ops, rfl, by simpa using ho, hk, hout⟩)
      · exact hnext s hsame (by simp [hk]) fun h => absurd h hcheck
    | unsupported => exact ensures_pure (.inl rfl)
    | other n =>
      rw [hk] at hop
      exact hop.elim

variable {b : Nat} {block : Block}

theorem ensures_run (hg : g.Checked) (hblock : g.blocks[b]? = some block) (check : Bool) {s : FlowImage}
    (hs : s.Holds X) :
    Ensures (g.run s b check) (g.OpsEnd check b 0 block.operations X) := by
  refine (ensures_elemAt hblock).bind fun _ h => ?_
  subst h
  exact ensures_runOps hg b check 0 _ hs (hg.operations _ (mem_of_getElem? hblock))

/-! ## The worklist -/

/-- The flags say which blocks the ring holds, and it holds each once. -/
structure Worklist.Ok (n : Nat) (w : Worklist) : Prop where
  fits : w.queue.Fits
  slots : w.queue.slots.length = n
  flags : w.queued.length = n
  nodup : w.queue.contents.Nodup
  queued : ∀ b, w.queued[b]? = some true ↔ b ∈ w.queue.contents
  inRange : ∀ b ∈ w.queue.contents, b < n

theorem Worklist.ok_new {n : Nat} (hn : 0 < n) : (Worklist.new n).Ok n where
  fits := ⟨by simpa [Worklist.new] using hn, by simp [Worklist.new]⟩
  slots := by simp [Worklist.new]
  flags := by simp [Worklist.new]
  nodup := nodup_nil
  queued b := by
    change (List.replicate n false)[b]? = some true ↔ b ∈ ([] : List Nat)
    simp [List.getElem?_replicate]
  inRange b h := by cases h

theorem Worklist.contents_new (n : Nat) : (Worklist.new n).queue.contents = [] := rfl

theorem Worklist.Ok.enqueue {n : Nat} {w : Worklist} (hw : w.Ok n) {b : Nat} (hb : b < n) :
    (w.enqueue b).Ok n ∧ ∀ a, a ∈ (w.enqueue b).queue.contents ↔ a = b ∨ a ∈ w.queue.contents := by
  unfold Worklist.enqueue
  by_cases hq : w.queued[b]?.getD false = true
  · rw [if_pos hq]
    refine ⟨hw, fun a => ⟨Or.inr, ?_⟩⟩
    rintro (rfl | h)
    · refine (hw.queued a).1 ?_
      rcases hflag : w.queued[a]? with _ | flag
      · simp [hflag] at hq
      · rw [hflag] at hq
        rw [show flag = true from hq]
    · exact h
  · rw [if_neg hq]
    have hout : b ∉ w.queue.contents := by
      intro hin
      rw [← hw.queued b] at hin
      simp [hin] at hq
    -- fewer than `n` blocks are queued, since `b` is not
    have hroom : w.queue.count < w.queue.slots.length := by
      have hle := length_le_of_nodup_lt (l := b :: w.queue.contents) (nodup_cons.2 ⟨hout, hw.nodup⟩)
        (by
          intro a ha
          rcases mem_cons.1 ha with rfl | ha
          · exact hb
          · exact hw.inRange a ha)
      rw [length_cons, Ring.length_contents] at hle
      rw [hw.slots]
      omega
    have hcontents := Ring.contents_push hw.fits b hroom
    have hmem : ∀ a, a ∈ (w.queue.push b).contents ↔ a = b ∨ a ∈ w.queue.contents := by
      intro a
      rw [hcontents, mem_append, mem_singleton, or_comm]
    refine ⟨⟨hw.fits.push b, ?_, ?_, ?_, fun a => ?_, fun a ha => ?_⟩, hmem⟩
    · rw [Ring.length_slots_push, hw.slots]
    · rw [length_set, hw.flags]
    · change (w.queue.push b).contents.Nodup
      rw [hcontents, nodup_append]
      refine ⟨hw.nodup, nodup_singleton b, ?_⟩
      rintro a ha _ hab rfl
      rw [mem_singleton.1 hab] at ha
      exact hout ha
    · rw [List.getElem?_set, hmem, hw.flags]
      by_cases hab : b = a
      · subst hab
        simp [hb]
      · rw [if_neg hab, hw.queued]
        simp [Ne.symm hab]
    · rcases (hmem a).1 ha with rfl | ha
      · exact hb
      · exact hw.inRange a ha

theorem Worklist.Ok.dequeue {n : Nat} {w : Worklist} (hw : w.Ok n) (hcount : w.queue.count ≠ 0) :
    w.dequeue.2.Ok n ∧ w.dequeue.1 < n ∧ w.dequeue.1 ∉ w.dequeue.2.queue.contents ∧
      ∀ a, a ∈ w.queue.contents ↔ a = w.dequeue.1 ∨ a ∈ w.dequeue.2.queue.contents := by
  have hpos : 0 < w.queue.count := by omega
  have hcontents : w.queue.contents = w.dequeue.1 :: w.dequeue.2.queue.contents :=
    Ring.contents_pop hw.fits hpos
  have hnodup := hw.nodup
  rw [hcontents, nodup_cons] at hnodup
  have hfirst : w.dequeue.1 < n := hw.inRange _ (by rw [hcontents]; exact mem_cons_self ..)
  refine ⟨⟨hw.fits.pop hpos, hw.slots, ?_, hnodup.2, fun a => ?_, fun a ha => ?_⟩, hfirst, hnodup.1,
    fun a => by rw [hcontents, mem_cons]⟩
  · change (w.queued.set w.dequeue.1 false).length = n
    rw [length_set, hw.flags]
  · change (w.queued.set w.dequeue.1 false)[a]? = some true ↔ _
    rw [List.getElem?_set]
    by_cases hab : w.dequeue.1 = a
    · subst hab
      simp [hw.flags, hfirst, hnodup.1]
    · rw [if_neg hab, hw.queued, hcontents, mem_cons]
      simp [Ne.symm hab]
  · exact hw.inRange a (by rw [hcontents]; exact mem_cons_of_mem _ ha)

/-! ## The loop -/

/-- The facts known at the entry of a block. -/
def known (ins : List (Option FlowImage)) (b : Nat) : Option (Set FlowFact) :=
  (ins[b]?.join).map FlowImage.facts

theorem known_set {ins : List (Option FlowImage)} (hb : b < ins.length) (image : FlowImage) (a : Nat) :
    known (ins.set b (some image)) a = if b = a then some image.facts else known ins a := by
  unfold known
  rw [List.getElem?_set]
  by_cases hab : b = a
  · subst hab
    simp [hb]
  · simp [hab]

/-- What the loop keeps: the images are consistent, and the analysis is solved up to the edges of the
blocks in `Pending`. -/
structure Progress (g : Graph) (st : FlowState) (Pending : Nat × Edge → Prop) : Prop where
  length : st.ins.length = g.blocks.length
  work : st.work.Ok g.blocks.length
  images : ∀ (b : Nat) (image : FlowImage), st.ins[b]? = some (some image) → image.Consistent
  queued : ∀ b ∈ st.work.queue.contents, known st.ins b ≠ none
  solving : Solving g.flow (known st.ins) Pending

theorem Progress.image {st : FlowState} {Pending : Nat × Edge → Prop} (h : g.Progress st Pending)
    {b : Nat} (hX : known st.ins b = some X) :
    ∃ image, st.ins[b]? = some (some image) ∧ image.Holds X := by
  unfold known at hX
  rcases hb : st.ins[b]? with _ | _ | image
  · simp [hb] at hX
  · simp [hb] at hX
  · rw [hb] at hX
    cases hX
    exact ⟨image, rfl, h.images b image hb, rfl⟩

theorem flow_transfer (hblock : g.blocks[b]? = some block) (e : Edge) (X : Set FlowFact) :
    (g.flow.transfer (b, e)).apply X = e.transfer.apply (g.after block.operations X) := by
  have htransfer : g.flow.transfer (b, e) = (transferOps g block.operations).andThen e.transfer := by
    change (transferOps g (g.blocks[b]?.elim [] (·.operations))).andThen e.transfer = _
    rw [hblock]
    rfl
  rw [htransfer, Transfer.apply_andThen]
  rfl

variable {out : FlowImage}

theorem ensures_alongEdge (hout : out.Holds X) {e : Edge} (he : e.Checked g) :
    Ensures (alongEdge out e) (FlowImage.Holds (e.transfer.apply X)) := by
  refine Ensures.ite (fun hempty => ?_) fun _ => ?_
  · refine ensures_pure (hout.congr fun f => ?_)
    have hsame : renamedFrom e.parameters f.2.id = f.2.id := by
      rw [List.isEmpty_iff.1 hempty]
      rfl
    change f ∈ X ↔ (f.1, (⟨renamedFrom e.parameters f.2.id, f.2.part⟩ : Symbol)) ∈ X
    rw [hsame]
  · exact (FlowImage.ensures_clone hout).bind fun s hs => FlowImage.ensures_parameters hs he

variable {st : FlowState}

/-- Joining an image at a block: what is known there afterwards, and that a change queues the block. -/
theorem ensures_join {Pending : Nat × Edge → Prop} (h : g.Progress st Pending) (hb : b < g.blocks.length)
    {next : FlowImage} {Y : Set FlowFact} (hnext : next.Holds Y) :
    Ensures (st.join b next) fun st' => st'.ins.length = g.blocks.length ∧
      st'.work.Ok g.blocks.length ∧
      (∀ (a : Nat) (image : FlowImage), st'.ins[a]? = some (some image) → image.Consistent) ∧
      (∀ a, a ∈ st.work.queue.contents → a ∈ st'.work.queue.contents) ∧
      (∀ a ∈ st'.work.queue.contents, a = b ∨ a ∈ st.work.queue.contents) ∧
      (∀ a, a ≠ b → known st'.ins a = known st.ins a) ∧
      ∃ Z W, known st'.ins b = some Z ∧
        (known st.ins b = none ∧ Z = Y ∨ known st.ins b = some W ∧ Z = W ∩ Y) ∧
        (known st.ins b ≠ some Z → b ∈ st'.work.queue.contents) := by
  have hlen : b < st.ins.length := by rw [h.length]; exact hb
  obtain ⟨entry, hentry⟩ : ∃ entry, st.ins[b]? = some entry := ⟨_, List.getElem?_eq_getElem hlen⟩
  obtain ⟨hwork, hqueue⟩ := h.work.enqueue hb
  -- replacing the image at `b` keeps the others
  have himages : ∀ image : FlowImage, image.Consistent → ∀ (a : Nat) (image' : FlowImage),
      (st.ins.set b (some image))[a]? = some (some image') → image'.Consistent := by
    intro image hcons a image' ha
    rw [List.getElem?_set] at ha
    by_cases hab : b = a
    · subst hab
      rw [if_pos rfl, if_pos hlen] at ha
      cases ha
      exact hcons
    · rw [if_neg hab] at ha
      exact h.images a image' ha
  have hothers : ∀ (image : FlowImage) a, a ≠ b → known (st.ins.set b (some image)) a = known st.ins a := by
    intro image a hab
    rw [known_set hlen, if_neg (Ne.symm hab)]
  rcases entry with _ | image
  · have hnone : known st.ins b = none := by simp [known, hentry]
    refine (ensures_elemAt hentry).bind fun _ heq => ?_
    subst heq
    refine (FlowImage.ensures_clone hnext).bind fun image himage => ensures_pure ?_
    refine ⟨by rw [length_set, h.length], hwork, himages image himage.1,
      fun a ha => (hqueue a).2 (.inr ha), fun a => (hqueue a).1, hothers image, Y, ∅, ?_, .inl ⟨hnone, rfl⟩,
      fun _ => (hqueue b).2 (.inl rfl)⟩
    rw [known_set hlen, if_pos rfl, himage.2]
  · have hsome : known st.ins b = some image.facts := by simp [known, hentry]
    refine (ensures_elemAt hentry).bind fun _ heq => ?_
    subst heq
    refine (FlowImage.ensures_meet ⟨h.images b image hentry, rfl⟩ hnext).bind fun met hmet =>
      ensures_pure ?_
    obtain ⟨hfacts, hkept⟩ := hmet
    have hZ : known (st.ins.set b (some met.1)) b = some (image.facts ∩ Y) := by
      rw [known_set hlen, if_pos rfl, hfacts.2]
    refine ⟨by rw [length_set, h.length], ?_, himages met.1 hfacts.1, ?_, ?_, hothers met.1,
      image.facts ∩ Y, image.facts, hZ, .inr ⟨hsome, rfl⟩, ?_⟩
    · dsimp only
      split
      · exact hwork
      · exact h.work
    · intro a ha
      dsimp only
      split
      · exact (hqueue a).2 (.inr ha)
      · exact ha
    · intro a ha
      dsimp only at ha
      split at ha
      · exact (hqueue a).1 ha
      · exact .inr ha
    · intro hne
      dsimp only
      split
      · exact (hqueue b).2 (.inl rfl)
      · next hsame =>
        rw [hsome, hkept (by simpa using hsame)] at hne
        exact absurd rfl hne

/-- The edges of a block that is looked at, some of which have been followed. -/
def PendingOf (st : FlowState) (b : Nat) (done : List Edge) (e : Nat × Edge) : Prop :=
  e.1 ∈ st.work.queue.contents ∨ (e.1 = b ∧ e.2 ∉ done)

theorem ensures_followEdges (hg : g.Checked) (hblock : g.blocks[b]? = some block)
    (hX : Witnessed g.flow b X) (hout : out.Holds (g.after block.operations X))
    (hst : g.Progress st (PendingOf st b [])) (hknown : known st.ins b = some X) :
    Ensures (block.edges.foldlM (followEdge out) st) fun st' =>
      g.Progress st' fun e => e.1 ∈ st'.work.queue.contents := by
  refine (ensures_foldlM (fun done st => g.Progress st (PendingOf st b done) ∧
    (b ∈ st.work.queue.contents ∨ known st.ins b = some X)) ?_ ⟨hst, .inr hknown⟩).mono fun st' h => ?_
  · rintro done e rest st hsplit ⟨hI, hcurrent⟩
    have hmem : e ∈ block.edges := by rw [hsplit]; simp
    have he := hg.edges block (mem_of_getElem? hblock) e hmem
    refine ensures_charge_then ((ensures_alongEdge hout he).bind fun next hnext => ?_)
    rw [← flow_transfer hblock] at hnext
    refine (ensures_join hI he.target hnext).bind fun st' hst' => ?_
    refine Ensures.bind (Q := fun _ => True) ?_ fun _ _ => ensures_pure ?_
    · split
      · exact ensures_pure trivial
      · exact ensures_releaseFacts _
    obtain ⟨hlen, hwork, himages, hqueue, hnew, hothers, Z, W, hZ, hold, hchanged⟩ := hst'
    refine ⟨⟨hlen, hwork, himages, fun a ha => ?_, ?_⟩, ?_⟩
    · by_cases hab : a = e.target.toNat
      · rw [hab, hZ]
        simp
      · rw [hothers a hab]
        exact hI.queued a ((hnew a ha).resolve_left hab)
    · refine hI.solving.follow (e := (b, e)) ⟨block, hblock, hmem⟩ hX hold hZ hothers ?_ ?_ ?_
      · intro hno
        rcases hcurrent with hin | hX'
        · exact absurd (.inl (hqueue b hin)) hno
        · exact hX'
      · rintro ⟨a, e'⟩ hne _ (hin | ⟨hab, hout'⟩)
        · exact .inl (hqueue a hin)
        · refine .inr ⟨hab, fun hin => ?_⟩
          rcases mem_append.1 hin with hin | hin
          · exact hout' hin
          · rw [mem_singleton] at hin
            dsimp only at hab hin
            rw [hab, hin] at hne
            exact hne rfl
      · intro hne e' _ hsrc
        refine .inl ?_
        have hin := hchanged hne
        change e'.1 = e.target.toNat at hsrc
        rwa [hsrc]
    · rcases hcurrent with hin | hX'
      · exact .inl (hqueue b hin)
      · by_cases hself : b = e.target.toNat
        · by_cases hsame : known st.ins e.target.toNat = some Z
          · refine .inr ?_
            rw [← hself] at hZ hsame
            rw [hZ, ← hsame, hX']
          · exact .inl (hself ▸ hchanged hsame)
        · exact .inr (by rw [hothers b hself, hX'])
  · obtain ⟨hprogress, _⟩ := h
    refine ⟨hprogress.length, hprogress.work, hprogress.images, hprogress.queued,
      hprogress.solving.entry, hprogress.solving.witnessed, fun e he hno X hsrc => hprogress.solving.closed e he ?_ X hsrc⟩
    rintro (hin | ⟨hb, hout'⟩)
    · exact hno hin
    · obtain ⟨block', hblock', hmem⟩ := he
      rw [hb, hblock] at hblock'
      cases hblock'
      exact hout' hmem

/-- The analysis goes on as `Q` says, or gives up without an answer. -/
def Resumes {α : Type} (Q : α → Prop) : Except Result α → Prop
  | .ok a => Q a
  | .error failure => failure.verdict = .inconclusive

/-- What the loop keeps between two rounds. -/
def Between (g : Graph) (st : FlowState) : Prop := g.Progress st fun e => e.1 ∈ st.work.queue.contents

theorem ensures_followBlock (hg : g.Checked) (hb : b < g.blocks.length)
    (hst : g.Progress st (PendingOf st b [])) (hX : known st.ins b = some X) :
    Ensures (g.followBlock b st) (Resumes g.Between) := by
  have hblock := List.getElem?_eq_getElem hb
  generalize g.blocks[b] = block at hblock
  obtain ⟨image, himage, hholds⟩ := hst.image hX
  have himageAt : Ensures (imageAt st.ins b) (· = image) :=
    (ensures_elemAt himage).bind fun _ heq => by subst heq; exact ensures_pure rfl
  refine himageAt.bind fun _ heq => ?_
  subst heq
  refine (FlowImage.ensures_clone hholds).bind fun out hout => ?_
  refine (ensures_run hg hblock false hout).bind fun r hr => ?_
  rcases r with failure | out
  · refine ensures_pure ?_
    rcases hr with h | ⟨hcheck, _⟩
    · exact h
    · cases hcheck
  · refine (ensures_elemAt hblock).bind fun _ heq => ?_
    subst heq
    refine (ensures_followEdges hg hblock (hst.solving.witnessed b X hX) hr.1 hst hX).bind
      fun st' hst' => (ensures_releaseFacts _).bind fun _ _ => ensures_pure hst'

/-- A round after its charge. -/
theorem ensures_afterCharge (hg : g.Checked) (hst : g.Between st) (hcount : st.work.queue.count ≠ 0) :
    Ensures (g.followBlock st.work.dequeue.1 { st with work := st.work.dequeue.2 })
      (Resumes g.Between) := by
  obtain ⟨hwork, hlt, _, hcontents⟩ := hst.work.dequeue hcount
  obtain ⟨X, hX⟩ : ∃ X, known st.ins st.work.dequeue.1 = some X :=
    Option.ne_none_iff_exists'.1 (hst.queued _ ((hcontents _).2 (.inl rfl)))
  refine ensures_followBlock hg hlt ⟨hst.length, hwork, hst.images,
    fun a ha => hst.queued a ((hcontents a).2 (.inr ha)), hst.solving.entry, hst.solving.witnessed,
    fun e he hno => hst.solving.closed e he fun hin => hno ?_⟩ hX
  rcases (hcontents e.1).1 hin with heq | hin
  · exact .inr ⟨heq, not_mem_nil⟩
  · exact .inl hin

theorem ensures_flowRound (hg : g.Checked) (hst : g.Between st) (hcount : st.work.queue.count ≠ 0) :
    Ensures (g.flowRound st) (Resumes g.Between) :=
  ensures_charge_then (ensures_afterCharge hg hst hcount)

theorem Between.finished (hst : g.Between st) (hcount : st.work.queue.count = 0) :
    g.Progress st fun _ => False := by
  have hnone := Ring.contents_eq_nil.2 hcount
  refine ⟨hst.length, hst.work, hst.images, hst.queued, hst.solving.entry, hst.solving.witnessed,
    fun e he _ => hst.solving.closed e he ?_⟩
  rw [hnone]
  exact not_mem_nil

/-- A round is paid for: there is work left before it, and less after it. -/
theorem flowRound_work (hg : g.Checked) (hst : g.Between st) (hcount : st.work.queue.count ≠ 0)
    {b b' : Budget} {r : Except Result FlowState} (h : g.flowRound st b = .ok (r, b')) :
    b'.limits = b.limits ∧ b.work < b.limits.work ∧ b.work < b'.work := by
  change (charge 1 b >>= fun p =>
    g.followBlock st.work.dequeue.1 { st with work := st.work.dequeue.2 } p.2) = _ at h
  rw [charge_eq] at h
  split at h
  · cases h
  · next hpaid =>
    obtain ⟨hlimits, hwork⟩ := ((ensures_afterCharge hg hst hcount).result h).1
    refine ⟨hlimits, by omega, ?_⟩
    change b.work + 1 ≤ b'.work at hwork
    omega

/-- The loop from one state: its bound is at least the work left, so a round can be taken. -/
theorem flowLoop_outcome (hg : g.Checked) : ∀ (rounds : Nat) {st : FlowState} {b : Budget},
    g.Between st → (b.limits.work - b.work).toNat < rounds →
    Outcome b (Resumes fun st' => g.Progress st' fun _ => False) (g.flowLoop rounds st b) := by
  intro rounds
  induction rounds with
  | zero =>
    intro st b hst hrounds
    omega
  | succ rounds ih =>
    intro st b hst hrounds
    unfold flowLoop
    by_cases hcount : st.work.queue.count = 0
    · rw [if_pos hcount]
      exact ensures_pure (hst.finished hcount) b
    · rw [if_neg hcount]
      change Outcome b _ (g.flowRound st b >>= _)
      have hround := ensures_flowRound hg hst hcount b
      rcases hrun : g.flowRound st b with e | ⟨r, b'⟩
      · rw [hrun] at hround
        exact hround
      · rw [hrun] at hround
        obtain ⟨hlater, hr⟩ := hround
        rcases r with failure | st'
        · exact ⟨hlater, hr⟩
        · obtain ⟨hlimits, hleft, hwork⟩ := flowRound_work hg hst hcount hrun
          have hrest := ih (b := b') hr (by rw [hlimits]; omega)
          change Outcome b _ (g.flowLoop rounds st' b')
          rcases hloop : g.flowLoop rounds st' b' with e | ⟨r, b''⟩
          · rw [hloop] at hrest
            exact hrest
          · rw [hloop] at hrest
            exact ⟨Metered.trans hlater hrest.1, hrest.2⟩

theorem ensures_solve (hg : g.Checked) (hst : g.Between st) :
    Ensures (g.solve st) (Resumes fun st' => g.Progress st' fun _ => False) :=
  fun _ => flowLoop_outcome hg _ hst (Nat.lt_succ_self _)

theorem flowLoop_succ (hg : g.Checked) : ∀ (rounds : Nat) {st : FlowState} {b : Budget},
    g.Between st → (b.limits.work - b.work).toNat < rounds →
    g.flowLoop (rounds + 1) st b = g.flowLoop rounds st b := by
  intro rounds
  induction rounds with
  | zero =>
    intro st b hst hrounds
    omega
  | succ rounds ih =>
    intro st b hst hrounds
    rw [flowLoop, flowLoop]
    by_cases hcount : st.work.queue.count = 0
    · rw [if_pos hcount, if_pos hcount]
    · rw [if_neg hcount, if_neg hcount]
      change (g.flowRound st b >>= _) = (g.flowRound st b >>= _)
      have hround := ensures_flowRound hg hst hcount b
      rcases hrun : g.flowRound st b with e | ⟨r, b'⟩
      · rfl
      · rw [hrun] at hround
        rcases r with failure | st'
        · rfl
        · change g.flowLoop (rounds + 1) st' b' = g.flowLoop rounds st' b'
          obtain ⟨hlimits, hleft, hwork⟩ := flowRound_work hg hst hcount hrun
          refine ih hround.2 ?_
          rw [hlimits]
          omega

/-- With a bound above the work that is left, the loop never ends at its bound, a larger bound gives
the same run, and every round takes from the work that is left. -/
theorem flowLoop_within (hg : g.Checked) (hst : g.Between st) {b : Budget} {rounds : Nat}
    (hrounds : (b.limits.work - b.work).toNat < rounds) :
    g.flowLoop rounds st b ≠ .error .rounds ∧
    (∀ n, g.flowLoop (rounds + n) st b = g.flowLoop rounds st b) ∧
    (st.work.queue.count ≠ 0 → ∀ r b', g.flowRound st b = .ok (r, b') →
      b'.limits = b.limits ∧ b.work < b.limits.work ∧ b.work < b'.work) := by
  refine ⟨fun hbound => ?_, fun n => ?_, fun hcount r b' hround => flowRound_work hg hst hcount hround⟩
  · have houtcome := flowLoop_outcome hg rounds hst hrounds
    rw [hbound] at houtcome
    obtain ⟨work, hlimit⟩ := houtcome
    cases hlimit
  · induction n with
    | zero => rfl
    | succ n ih => rw [← ih, ← Nat.add_assoc, flowLoop_succ hg (rounds + n) hst (by omega)]

/-! ## The uses -/

theorem ensures_checkParameters (hout : out.Holds X)
    (block operation edgeIndex : Nat) : ∀ (i : Nat) (params : List Parameter),
    (∀ p ∈ params, p.fromId ≠ 0) →
    Ensures (g.checkParameters out block operation edgeIndex i params)
      (Settles block operation (∀ p ∈ params, g.Established X p.location p.fromId))
  | i, [], _ => ensures_pure fun _ h => by cases h
  | i, p :: params, hnamed => by
    obtain ⟨hp, hparams⟩ := forall_mem_cons.1 hnamed
    exact ensures_charge_then (ensures_settles_cons (ensures_check hout hp _ block operation)
      (ensures_checkParameters hout block operation edgeIndex (i + 1) params hparams))

theorem ensures_checkEdges (hout : out.Holds X)
    (block operation : Nat) : ∀ (i : Nat) (edges : List Edge), (∀ e ∈ edges, e.Checked g) →
    Ensures (g.checkEdges out block operation i edges)
      (Settles block operation (∀ e ∈ edges, ∀ p ∈ e.parameters, g.Established X p.location p.fromId))
  | i, [], _ => ensures_pure fun _ h => by cases h
  | i, e :: edges, hedges => by
    obtain ⟨he, hrest⟩ := forall_mem_cons.1 hedges
    have hnamed : ∀ p ∈ e.parameters, p.fromId ≠ 0 := fun p hp =>
      Graph.named_of_flowLocation (he.params p hp).1
    exact ensures_charge_then (ensures_settles_cons
      (ensures_checkParameters hout block operation i 0 e.parameters hnamed)
      (ensures_checkEdges hout block operation (i + 1) edges hrest))

/-- Every use and every edge parameter of the block is established from `X`. -/
structure BlockHolds (g : Graph) (block : Block) (X : Set FlowFact) : Prop where
  ops : g.OpsHold true block.operations X
  params : ∀ e ∈ block.edges, ∀ p ∈ e.parameters,
    g.Established (g.after block.operations X) p.location p.fromId

/-- The use or the edge parameter at the given place of the block is not established from `X`. -/
def Unproved (g : Graph) (block : Block) (X : Set FlowFact) (operation : Int) : Prop :=
  (∃ pre op post, block.operations = pre ++ op :: post ∧ operation = pre.length ∧ op.kind = .use ∧
    ¬ g.Established (g.after pre X) op.location op.value) ∨
  (operation = block.operations.length ∧ ∃ e ∈ block.edges, ∃ p ∈ e.parameters,
    ¬ g.Established (g.after block.operations X) p.location p.fromId)

theorem ensures_checkBlock (hg : g.Checked) (hblock : g.blocks[b]? = some block) {entry : FlowImage}
    (hX : entry.Holds X) :
    Ensures (g.checkBlock b entry) fun r =>
      match r with
      | none => g.BlockHolds block X
      | some failure => failure.verdict = .inconclusive ∨
          (failure.verdict = .rejected ∧ failure.block = b ∧ g.Unproved block X failure.operation) := by
  refine (FlowImage.ensures_clone hX).bind fun s hs => ?_
  refine (ensures_run hg hblock true hs).bind fun r hr => ?_
  rcases r with failure | out
  · refine ensures_pure ?_
    rcases hr with h | ⟨_, hv, hb, pre, op, post, hsplit, ho, hkind, hno⟩
    · exact .inl h
    · exact .inr ⟨hv, hb, .inl ⟨pre, op, post, hsplit, by simpa using ho, hkind, hno⟩⟩
  · obtain ⟨hout, hops⟩ := hr
    refine (ensures_elemAt hblock).bind fun _ heq => ?_
    subst heq
    have hedges := hg.edges _ (mem_of_getElem? hblock)
    refine (ensures_checkEdges hout b _ 0 _ hedges).bind fun r hr => ?_
    rcases r with _ | failure
    · exact (ensures_releaseFacts _).bind fun _ _ => ensures_pure ⟨hops, hr⟩
    · obtain ⟨hv, hb, ho, hno⟩ := hr
      push Not at hno
      exact ensures_pure (.inr ⟨hv, hb, .inr ⟨ho, hno⟩⟩)

/-- What the final pass says of the blocks from `b` on. -/
def BlocksAnswer (g : Graph) (b : Nat) (ins : List (Option FlowImage)) : Option Result → Prop
  | none => ∀ i X block, known ins i = some X → g.blocks[b + i]? = some block → g.BlockHolds block X
  | some failure => failure.verdict = .inconclusive ∨ (failure.verdict = .rejected ∧
      ∃ i X block, known ins i = some X ∧ g.blocks[b + i]? = some block ∧
        failure.block = (b + i : Nat) ∧ g.Unproved block X failure.operation)

theorem BlocksAnswer.cons {entry : Option FlowImage} {ins : List (Option FlowImage)} {r : Option Result}
    (hthis : ∀ X block, known (entry :: ins) 0 = some X → g.blocks[b]? = some block → g.BlockHolds block X)
    (hr : g.BlocksAnswer (b + 1) ins r) : g.BlocksAnswer b (entry :: ins) r := by
  rcases r with _ | failure
  · rintro (_ | i) X block' hX hblock'
    · exact hthis X block' hX hblock'
    · exact hr i X block' hX (by rwa [show b + 1 + i = b + (i + 1) by omega])
  · rcases hr with h | ⟨hv, i, X, block', hX, hblock', hb, hno⟩
    · exact .inl h
    · rw [show b + 1 + i = b + (i + 1) by omega] at hblock' hb
      exact .inr ⟨hv, i + 1, X, block', hX, hblock', hb, hno⟩

theorem ensures_checkBlocks (hg : g.Checked) : ∀ (b : Nat) (ins : List (Option FlowImage)),
    b + ins.length = g.blocks.length →
    (∀ (i : Nat) (image : FlowImage), ins[i]? = some (some image) → image.Consistent) →
    Ensures (g.checkBlocks b ins) (g.BlocksAnswer b ins)
  | b, [], _, _ => ensures_pure fun i X block h => by simp [known] at h
  | b, entry :: ins, hlen, himages => by
    have hlt : b < g.blocks.length := by rw [length_cons] at hlen; omega
    have hblock := List.getElem?_eq_getElem hlt
    generalize g.blocks[b] = block at hblock
    have hrest := ensures_checkBlocks hg (b + 1) ins (by rw [length_cons] at hlen; omega)
      fun i image h => himages (i + 1) image h
    unfold checkBlocks
    refine ensures_charge_then ?_
    rcases entry with _ | entry
    · exact hrest.mono fun r => .cons fun X block' hX => by simp [known] at hX
    · have hentry : known (some entry :: ins) 0 = some entry.facts := rfl
      refine (ensures_checkBlock hg hblock ⟨himages 0 entry rfl, rfl⟩).bind fun r hr => ?_
      rcases r with _ | failure
      · refine hrest.mono fun r => .cons fun X block' hX hblock' => ?_
        rw [hentry] at hX
        rw [hblock] at hblock'
        cases hX
        cases hblock'
        exact hr
      · refine ensures_pure ?_
        rcases hr with h | ⟨hv, hb, hno⟩
        · exact .inl h
        · exact .inr ⟨hv, 0, entry.facts, block, hentry, hblock, hb, hno⟩

/-! ## From nodes to paths -/

theorem after_mono (g : Graph) (ops : List Operation) {X Y : Set FlowFact} (h : X ⊆ Y) :
    g.after ops X ⊆ g.after ops Y :=
  Transfer.apply_mono _ h

theorem BlockHolds.mono {X Y : Set FlowFact} (hXY : X ⊆ Y) (h : g.BlockHolds block X) :
    g.BlockHolds block Y where
  ops := ⟨fun hcheck pre op post hsplit hkind part hpart =>
    g.after_mono pre hXY (h.ops.uses hcheck pre op post hsplit hkind part hpart), h.ops.supported⟩
  params e he p hp part hpart := g.after_mono _ hXY (h.params e he p hp part hpart)

/-- What is not established at a node is not established along some path to it. -/
theorem Established.along_path (hX : Witnessed g.flow b X)
    (h : ¬ g.Established (g.after ops X) loc value) :
    ∃ p, g.flow.Path p b ∧ ¬ g.Established (g.after ops (g.flow.along p)) loc value := by
  unfold Established at h
  push Not at h
  obtain ⟨part, hpart, hout⟩ := h
  obtain ⟨p, hp, hno⟩ := hX.transfer hout
  exact ⟨p, hp, fun hest => hno (hest part hpart)⟩

theorem Unproved.along_path {b : Nat} (hX : Witnessed g.flow b X)
    {block : Block} {operation : Int} (h : g.Unproved block X operation) :
    ∃ p, g.flow.Path p b ∧ g.Unproved block (g.flow.along p) operation := by
  rcases h with ⟨pre, op, post, hsplit, ho, hkind, hno⟩ | ⟨ho, e, he, q, hq, hno⟩
  · obtain ⟨p, hp, hno⟩ := Established.along_path hX hno
    exact ⟨p, hp, .inl ⟨pre, op, post, hsplit, ho, hkind, hno⟩⟩
  · obtain ⟨p, hp, hno⟩ := Established.along_path hX hno
    exact ⟨p, hp, .inr ⟨ho, e, he, q, hq, hno⟩⟩

/-! ## The analysis -/

theorem ensures_entryState (hg : g.Checked) : Ensures g.entryState g.Between := by
  have hgood : ∀ f ∈ g.inputFacts, f.2.id ≠ 0 ∧ f.2.part < 64 := by
    intro f hf
    obtain ⟨input, hinput, part, hpart, rfl⟩ := Graph.mem_inputFacts.1 hf
    have hwidth := hg.widths input.value
    refine ⟨Graph.named_of_flowLocation (hg.inputs input hinput), ?_⟩
    change part < 64
    omega
  refine (ensures_foldlM (fun done => FlowImage.Holds {f | f ∈ done}) ?_
    ⟨.new, by rw [FlowImage.facts_new]; simp⟩).bind fun image himage => ensures_pure ?_
  · rintro done ⟨loc, v⟩ rest s hsplit hI
    obtain ⟨hid, hpart⟩ := hgood (loc, v) (by rw [hsplit]; simp)
    refine (FlowImage.ensures_add hI hid hpart).mono fun s hs => hs.congr fun f => ?_
    simp [or_comm]
  · have hlen : g.entry.toNat < (List.replicate g.blocks.length (none : Option FlowImage)).length := by
      rw [length_replicate]
      exact hg.entry
    have hpos : 0 < g.blocks.length := lt_of_le_of_lt (Nat.zero_le _) hg.entry
    obtain ⟨hwork, hqueue⟩ := (Worklist.ok_new hpos).enqueue hg.entry
    have hknown : ∀ b, known ((List.replicate g.blocks.length none).set g.entry.toNat (some image)) b =
        if g.entry.toNat = b then some g.flow.initial else none := by
      intro b
      rw [known_set hlen, himage.2]
      have hnone : known (List.replicate g.blocks.length none) b = none := by
        unfold known
        rw [List.getElem?_replicate]
        split <;> rfl
      rw [hnone]
      rfl
    refine ⟨by simp, hwork, ?_, ?_, ⟨g.flow.initial, ?_, subset_rfl⟩, ?_, ?_⟩
    · intro b image' hb
      rw [List.getElem?_set] at hb
      by_cases hbe : g.entry.toNat = b
      · rw [if_pos hbe, if_pos (hbe ▸ hlen)] at hb
        cases hb
        exact himage.1
      · rw [if_neg hbe, List.getElem?_replicate] at hb
        split at hb <;> simp at hb
    · intro b hb
      rcases (hqueue b).1 hb with rfl | hb
      · rw [hknown, if_pos rfl]
        simp
      · cases hb
    · exact (hknown _).trans (if_pos rfl)
    · intro v X hv
      rw [hknown] at hv
      split at hv
      · next hve =>
        cases hv
        subst hve
        exact Witnessed.initial
      · cases hv
    · intro e _ hno X hX
      rw [hknown] at hX
      split at hX
      · next hve =>
        refine absurd ?_ hno
        exact (hqueue _).2 (.inl hve.symm)
      · cases hX

/-- A value goes from a register to a frame slot and is used under a second name in a loop that
defines the first name again, at `place`. -/
def loopGraph (place : Location) : Graph :=
  let gp0 : Location := ⟨.gp, 0, 0⟩
  let slot : Location := ⟨.frame, 0, 0⟩
  let noEffect : Effect := ⟨.read, gp0, gp0, 1, 0⟩
  { widths := [1, 1], constValues := [], entry := 0, inputs := [⟨gp0, 1⟩],
    blocks :=
      [⟨[⟨.machine, ⟨.copy, slot, gp0, 1, 0⟩, gp0, 0, "move"⟩,
          ⟨.machine, ⟨.call, gp0, gp0, 0, 0⟩, gp0, 0, "call"⟩], [⟨1, [⟨1, 2, slot⟩]⟩]⟩,
        ⟨[⟨.use, noEffect, slot, 2, "use"⟩, ⟨.define, noEffect, place, 1, "define"⟩], [⟨1, []⟩]⟩] }

def smallLimits : Limits := ⟨0, 0, 0, 0, 300⟩

theorem flowLoop_within_loopGraph :
    let g := loopGraph ⟨.gp, 5, 0⟩
    let limits : Limits := ⟨9, 9, 20, 90, 300⟩
    ∃ st b, g.entryState ⟨limits, 0, 0, id⟩ = .ok (st, b) ∧ st.work.queue.count = 1 ∧ b.work = 2 ∧
      g.flowLoop 299 st b ≠ .error .rounds ∧ g.flowLoop 1000 st b = g.flowLoop 299 st b ∧
      ∀ r b', g.flowRound st b = .ok (r, b') → b.work < b'.work := by
  intro g limits
  have hg : g.Checked := by
    have hok : ((g.validate limits).run ⟨limits, 0, 0, id⟩).toOption.map (·.1.isOk) = some true := by
      decide +kernel
    rcases hrun : (g.validate limits).run ⟨limits, 0, 0, id⟩ with e | ⟨why | _, b⟩
    · rw [hrun] at hok
      cases hok
    · rw [hrun] at hok
      cases hok
    · exact ((passes_validate g limits).result hrun).2 () rfl
  have hst := ((ensures_entryState hg).result (s := ⟨limits, 0, 0, id⟩) rfl).2
  have hleft : ((⟨limits, 2, 1, id⟩ : Budget).limits.work - 2).toNat < 299 := by decide
  have hrun := flowLoop_within hg hst hleft
  exact ⟨_, _, rfl, rfl, rfl, hrun.1, hrun.2.1 701, fun r b' h => (hrun.2.2 (by decide) r b' h).2.2⟩

/-- What an answer says about the paths of the graph. -/
structure Answer (g : Graph) (r : Result) : Prop where
  verified : r.verdict = .verified → g.Checked ∧ r.reason = .noFailure ∧ ∀ p b, g.flow.Path p b → ∀ block,
    g.blocks[b]? = some block → g.BlockHolds block (g.flow.along p)
  rejected : r.verdict = .rejected → ∃ p b block, g.flow.Path p b ∧ g.blocks[b]? = some block ∧
    r.block = b ∧ g.Unproved block (g.flow.along p) r.operation

theorem Answer.inconclusive {r : Result} (h : r.verdict = .inconclusive) : g.Answer r where
  verified hv := by
    rw [h] at hv
    cases hv
  rejected hv := by
    rw [h] at hv
    cases hv

theorem ensures_analyse (g : Graph) (limits : Limits) : Ensures (g.analyse limits) g.Answer := by
  refine Ensures.bind (g.passes_validate limits) fun r hr => ?_
  rcases r with why | _
  · exact ensures_pure (Answer.inconclusive rfl)
  have hg := hr () rfl
  refine (ensures_entryState hg).bind fun st hst => ?_
  refine (ensures_solve hg hst).bind fun r hr => ?_
  rcases r with failure | st
  · exact ensures_pure (Answer.inconclusive hr)
  refine (ensures_checkBlocks hg 0 st.ins (by rw [hr.length]; omega) hr.images).bind fun r hblocks => ?_
  rcases r with _ | failure
  · refine ensures_pure ⟨fun _ => ⟨hg, rfl, fun p b hp block hblock => ?_⟩, by simp⟩
    obtain ⟨X, hX, hsub⟩ := hr.solving.along hp
    exact (hblocks b X block hX (by rwa [Nat.zero_add])).mono hsub
  · refine ensures_pure ?_
    rcases hblocks with h | ⟨hv, b, X, block, hX, hblock, hb, hno⟩
    · exact Answer.inconclusive h
    · refine ⟨by simp [hv], fun _ => ?_⟩
      obtain ⟨p, hp, hno⟩ := Unproved.along_path (hr.solving.witnessed b X hX) hno
      rw [Nat.zero_add] at hblock hb
      exact ⟨p, b, block, hp, hblock, hb, hno⟩

/-! ## What the verdicts mean for machines -/

/-- Whatever the machine does from the start of the block, each use and each edge parameter finds the
bytes of the value its name stands for at that moment. -/
structure BlockFinds {β : Type} (g : Graph) (block : Block) (σ : Machine β) : Prop where
  uses : ∀ pre op post, block.operations = pre ++ op :: post → op.kind = .use → ∀ σ',
    RunOps g pre σ σ' → σ'.Finds op.location op.value (g.width op.value)
  params : ∀ e ∈ block.edges, ∀ p ∈ e.parameters, ∀ σ', RunOps g block.operations σ σ' →
    σ'.Finds p.location p.fromId (g.width p.fromId)

theorem Established.finds {β : Type} {σ : Machine β} (hX : Sound X σ)
    (h : g.Established X loc value) : σ.Finds loc value (g.width value) :=
  fun part hpart => (hX _ (h part hpart)).2

theorem BlockHolds.finds {β : Type} (hg : g.Checked) {b : Nat} {block : Block}
    (hblock : g.blocks[b]? = some block) {σ : Machine β} (hX : Sound X σ)
    (h : g.BlockHolds block X) : g.BlockFinds block σ := by
  have hops : ∀ op ∈ block.operations, op.Checked g ∧ op.kind ≠ .unsupported := fun op hop =>
    ⟨hg.operations block (mem_of_getElem? hblock) op hop, h.ops.supported op hop⟩
  refine ⟨fun pre op post hsplit hkind σ' hrun => ?_, fun e he p hp σ' hrun => ?_⟩
  · have hpre : ∀ op' ∈ pre, op'.Checked g ∧ op'.kind ≠ .unsupported := fun op' hop' =>
      hops op' (by rw [hsplit]; simp [hop'])
    exact Established.finds (Sound.operations hg hpre hX hrun) (h.ops.uses rfl pre op post hsplit hkind)
  · exact Established.finds (Sound.operations hg hops hX hrun) (h.params e he p hp)

/-- `Verify` never faults. When it answers `Verified`, every machine that starts with the declared inputs
finds, at each use and each edge parameter along each path, the bytes of the value that is meant; when it
answers `Rejected`, the use or parameter it names is not established along some path. Exhausted budgets,
exceeded limits and unsupported operations in blocks that a path reaches are never verified. -/
theorem verify_spec (g : Graph) (limits : Limits) (choices : Nat → Nat) :
    ∃ r, g.verify limits choices = some r ∧
      (r.verdict = .verified → ∀ (β : Type) (σ₀ σ : Machine β) (p : List (Nat × Edge)) (b : Nat) (block : Block),
        g.InputsHold σ₀ → g.flow.Path p b → Exec g σ₀ p σ → g.blocks[b]? = some block →
          g.BlockFinds block σ) ∧
      (r.verdict = .rejected → ∃ p b block, g.flow.Path p b ∧ g.blocks[b]? = some block ∧
        r.block = b ∧ g.Unproved block (g.flow.along p) r.operation) ∧
      ((∃ resolved work, resolveLimits limits = some resolved ∧
        g.analyse resolved { limits := resolved, work := 0, facts := 0, choices := choices } =
          .error (.flowLimit work)) → r.verdict = .inconclusive) ∧
      (r.reason = .resourceLimit → r.verdict ≠ .verified) ∧
      ((∃ p b block op, g.flow.Path p b ∧ g.blocks[b]? = some block ∧ op ∈ block.operations ∧
        op.kind = .unsupported) → r.verdict ≠ .verified) := by
  unfold verify
  rcases hlimits : resolveLimits limits with _ | resolved
  · exact ⟨_, rfl, by simp, by simp, by simp, by simp, by simp⟩
  have hensures := ensures_analyse g resolved
    { limits := resolved, work := 0, facts := 0, choices := choices }
  rcases hrun : g.analyse resolved { limits := resolved, work := 0, facts := 0, choices := choices } with
    e | ⟨r, b⟩
  · rw [hrun] at hensures
    obtain ⟨work, rfl⟩ := hensures
    exact ⟨{ reason := .resourceLimit, message := "analysis resource limit", work := work },
      by simp only [hrun], by simp, by simp, by simp, by simp, by simp⟩
  · rw [hrun] at hensures
    have hanswer : g.Answer r := hensures.2
    refine ⟨{ r with work := b.work }, by simp only [hrun], ?_, ?_, ?_, ?_, ?_⟩
    · intro hv β σ₀ σ p b block hσ₀ hp hexec hblock
      obtain ⟨hg, _, hholds⟩ := hanswer.verified hv
      have hsupported : g.Supported := fun p b hp block hblock op hop =>
        (hholds p b hp block hblock).ops.supported op hop
      exact (hholds p b hp block hblock).finds hg hblock (hexec.sound hg hsupported hσ₀ hp)
    · exact hanswer.rejected
    · rintro ⟨_, work, hres, herror⟩
      cases hres
      rw [hrun] at herror
      cases herror
    · intro hreason hv
      rw [(hanswer.verified hv).2.1] at hreason
      cases hreason
    · rintro ⟨p, b, block, op, hp, hblock, hop, hkind⟩ hv
      exact ((hanswer.verified hv).2.2 p b hp block hblock).ops.supported op hop hkind

/-- Defining in a register leaves the slot alone; defining in the slot loses the used value in the
second round. -/
theorem verify_spec_loopGraph :
    (∃ r, (loopGraph ⟨.gp, 5, 0⟩).verify smallLimits id = some r ∧ r.verdict = .verified ∧
      ∀ (β : Type) (σ₀ σ : Machine β) (p : List (Nat × Edge)) (b : Nat) (block : Block),
        (loopGraph ⟨.gp, 5, 0⟩).InputsHold σ₀ → (loopGraph ⟨.gp, 5, 0⟩).flow.Path p b →
        Exec (loopGraph ⟨.gp, 5, 0⟩) σ₀ p σ → (loopGraph ⟨.gp, 5, 0⟩).blocks[b]? = some block →
        (loopGraph ⟨.gp, 5, 0⟩).BlockFinds block σ) ∧
    ∃ r, (loopGraph ⟨.frame, 0, 0⟩).verify smallLimits id = some r ∧ r.verdict = .rejected ∧
      ∃ p b block, (loopGraph ⟨.frame, 0, 0⟩).flow.Path p b ∧
        (loopGraph ⟨.frame, 0, 0⟩).blocks[b]? = some block ∧ r.block = b ∧
        (loopGraph ⟨.frame, 0, 0⟩).Unproved block ((loopGraph ⟨.frame, 0, 0⟩).flow.along p) r.operation := by
  constructor
  · obtain ⟨r, hr, hverified, _⟩ := verify_spec (loopGraph ⟨.gp, 5, 0⟩) smallLimits id
    have hv : ((loopGraph ⟨.gp, 5, 0⟩).verify smallLimits id).map (·.verdict) = some .verified := by
      decide +kernel
    rw [hr] at hv
    have hv : r.verdict = .verified := by simpa using hv
    exact ⟨r, hr, hv, hverified hv⟩
  · obtain ⟨r, hr, _, hrejected, _⟩ := verify_spec (loopGraph ⟨.frame, 0, 0⟩) smallLimits id
    have hv : ((loopGraph ⟨.frame, 0, 0⟩).verify smallLimits id).map (·.verdict) = some .rejected := by
      decide +kernel
    rw [hr] at hv
    have hv : r.verdict = .rejected := by simpa using hv
    exact ⟨r, hr, hv, hrejected hv⟩

/-- No edge leaves the entry, so the second block, with its use of an unknown value and its unsupported
operation, is never looked at. -/
theorem unsupported_unreached_verified :
    let r1 : Location := ⟨.gp, 1, 0⟩
    let noEffect : Effect := ⟨.read, r1, r1, 1, 0⟩
    let g : Graph := ⟨[8], [], [⟨[], []⟩,
      ⟨[⟨.use, noEffect, r1, 1, "use"⟩, ⟨.unsupported, noEffect, r1, 0, "unreachable"⟩], [⟨0, []⟩]⟩], 0, []⟩
    (∃ block ∈ g.blocks, ∃ op ∈ block.operations, op.kind = .unsupported) ∧
      (g.verify smallLimits id).map (·.verdict) = some .verified := by
  intro r1 noEffect g
  refine ⟨⟨_, mem_cons_of_mem _ mem_cons_self, _, mem_cons_of_mem _ mem_cons_self, rfl⟩, ?_⟩
  decide +kernel

end Graph

end Wago.RegallocCheck
