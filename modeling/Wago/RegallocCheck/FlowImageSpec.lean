/-
What the images of flow_enabled.go stand for. `FlowImage.facts` is the set of facts an image has, and
`Consistent` says that its reverse index and its register set agree with its cells. Every operation
keeps images consistent and changes the facts as its name says; the number of units charged and the
order in which maps are ranged over never matter for that.
-/
import Wago.RegallocCheck.FlowImage
import Wago.Lib.Metered
import Mathlib.Order.BooleanAlgebra.Set

namespace Wago.RegallocCheck

open Metered

/-! ## The budget only grows -/

instance : Metered Budget Panic where
  Later b b' := b'.limits = b.limits ∧ b.work ≤ b'.work
  refl _ := ⟨rfl, le_rfl⟩
  trans h h' := ⟨h'.1.trans h.1, h.2.trans h'.2⟩
  Allowed p := ∃ work, p = .flowLimit work

theorem charge_eq (n : Nat) (b : Budget) :
    charge n b = if (n : Int) > b.limits.work - b.work then .error (.flowLimit b.work)
      else .ok ((), { b with work := b.work + n }) := by
  change (if (n : Int) > b.limits.work - b.work then throw (.flowLimit b.work)
    else set { b with work := b.work + n } : FlowM Unit) b = _
  split <;> rfl

theorem ensures_charge (n : Nat) : Ensures (charge n) fun _ => True := by
  intro b
  rw [charge_eq]
  split
  · exact ⟨_, rfl⟩
  · refine ⟨⟨rfl, ?_⟩, trivial⟩
    change b.work ≤ b.work + n
    omega

theorem ensures_charge_then {α : Type} {n : Nat} {x : FlowM α} {Q : α → Prop} (h : Ensures x Q) :
    Ensures (charge n >>= fun _ => x) Q :=
  (ensures_charge n).bind fun _ _ => h

theorem ensures_addFact : Ensures addFact fun _ => True := by
  refine ensures_charge_then ?_
  intro b
  change Outcome b _ ((if b.facts = b.limits.facts then throw (.flowLimit b.work)
    else set { b with facts := b.facts + 1 } : FlowM Unit) b)
  split
  · exact ⟨_, rfl⟩
  · exact ⟨⟨rfl, le_rfl⟩, trivial⟩

theorem ensures_releaseFacts (n : Nat) : Ensures (releaseFacts n) fun _ => True :=
  fun _ => ⟨⟨rfl, le_rfl⟩, trivial⟩

theorem perm_drawAll {α : Type} (choices : Nat → Nat) :
    ∀ (n : Nat) (l : List α), l.length = n → (drawAll choices n l).Perm l
  | 0, l, h => by
    rw [List.length_eq_zero_iff.1 h]
    exact .refl _
  | n + 1, l, h => by
    have hlt : choices n % l.length < l.length := Nat.mod_lt _ (by omega)
    rw [drawAll, List.getElem?_eq_getElem hlt]
    refine List.Perm.trans (.cons _ (perm_drawAll choices n _ ?_)) (List.getElem_cons_eraseIdx_perm hlt)
    rw [List.length_eraseIdx_of_lt hlt, h]
    rfl

theorem ensures_ranged {α : Type} (l : List α) : Ensures (ranged l) fun l' => l'.Perm l :=
  fun b => ⟨⟨rfl, le_rfl⟩, perm_drawAll b.choices l.length l rfl⟩

theorem ensures_elemAt {α : Type} {l : List α} {i : Nat} {a : α} (h : l[i]? = some a) :
    Ensures (elemAt l i) (· = a) := by
  unfold elemAt
  rw [h]
  exact ensures_pure rfl

/-- A loop over a map, in whatever order it is ranged over. -/
theorem ensures_ranged_foldlM {α β : Type} {f : β → α → FlowM β} (I : Set α → β → Prop) {l : List α}
    (hl : l.Nodup) (hstep : ∀ D a b, a ∈ l → a ∉ D → I D b → Ensures (f b a) (I (insert a D)))
    {b : β} (hb : I ∅ b) : Ensures (ranged l >>= fun l' => l'.foldlM f b) (I {a | a ∈ l}) := by
  refine (ensures_ranged l).bind fun l' hperm => ?_
  have hset : {a | a ∈ l} = {a | a ∈ l'} := Set.ext fun a => hperm.mem_iff.symm
  rw [hset]
  exact ensures_foldlM_set I (hperm.nodup_iff.2 hl)
    (fun D a b ha => hstep D a b (hperm.mem_iff.1 ha)) hb

/-! ## Cells -/

/-- The symbols of a cell. -/
def FlowCell.Has (c : FlowCell) (v : Symbol) : Prop := (c.one = v ∧ v.id ≠ 0) ∨ v ∈ c.more

theorem FlowCell.not_has_empty (v : Symbol) : ¬ FlowCell.Has {} v := by
  rintro (⟨rfl, h⟩ | h)
  · exact h rfl
  · exact AList.notMem_empty v h

theorem FlowCell.empty_iff {c : FlowCell} :
    c.empty = true ↔ ∀ v, ¬ c.Has v := by
  unfold FlowCell.empty FlowCell.Has
  simp only [Bool.and_eq_true, beq_iff_eq, List.isEmpty_iff]
  constructor
  · rintro ⟨hone, hentries⟩ v (⟨rfl, hv⟩ | hv)
    · exact hv hone
    · rw [AList.mem_keys, AList.keys, hentries] at hv
      cases hv
  · intro h
    refine ⟨by_contra fun hone => h c.one (.inl ⟨rfl, hone⟩), ?_⟩
    rcases hentries : c.more.entries with _ | ⟨e, es⟩
    · rfl
    · refine absurd (Or.inr ?_) (h e.1)
      rw [AList.mem_keys, AList.keys, hentries]
      exact List.mem_cons_self ..

/-- A loop over the symbols of a cell. -/
theorem FlowCell.ensures_each {σ : Type} {c : FlowCell} (hone : c.one ∉ c.more) {fn : σ → Symbol → FlowM σ}
    (I : Set Symbol → σ → Prop) {s : σ}
    (hstep : ∀ D v s, c.Has v → v ∉ D → I D s → Ensures (fn s v) (I (insert v D))) (hs : I ∅ s) :
    Ensures (c.each fn s) (I {v | c.Has v}) := by
  -- the symbols outside the overflow map
  let first : Set Symbol := {v | c.one = v ∧ v.id ≠ 0}
  have hfirst : Ensures (if c.one.id ≠ 0 then fn s c.one else pure s) (I first) := by
    refine Ensures.ite (fun h => ?_) fun h => ?_
    · have hset : first = insert c.one ∅ := by
        ext v
        constructor
        · rintro ⟨rfl, _⟩; exact .inl rfl
        · rintro (rfl | hv)
          · exact ⟨rfl, h⟩
          · cases hv
      rw [hset]
      exact hstep ∅ c.one s (.inl ⟨rfl, h⟩) (by simp) hs
    · have hset : first = ∅ := by
        ext v
        simp only [Set.mem_empty_iff_false, iff_false]
        rintro ⟨rfl, hv⟩
        exact h hv
      rw [hset]
      exact ensures_pure hs
  refine hfirst.bind fun s hs => ?_
  refine Ensures.ite (fun hmore => ?_) fun _ => ?_
  · have hset : {v | c.Has v} = first := by
      ext v
      refine ⟨?_, Or.inl⟩
      rintro (hv | hv)
      · exact hv
      · rw [AList.mem_keys, AList.keys, List.isEmpty_iff.1 hmore] at hv
        cases hv
    rw [hset]
    exact ensures_pure hs
  · refine ensures_charge_then ?_
    have hset : {v | c.Has v} = first ∪ {v | v ∈ c.more.keys} := by
      ext v
      simp only [Set.mem_ofPred_eq, Set.mem_union, AList.mem_keys, FlowCell.Has, first]
    rw [hset]
    refine ensures_ranged_foldlM (fun D s => I (first ∪ D) s) c.more.keys_nodup ?_ (by simpa using hs)
    intro D v s hv hD hI
    rw [Set.union_insert]
    refine hstep _ v s (.inr (AList.mem_keys.2 hv)) ?_ hI
    rintro (⟨rfl, _⟩ | hvD)
    · exact hone (AList.mem_keys.2 hv)
    · exact hD hvD

/-! ## Bits of an index entry -/

theorem getLsbD_partBit (i j : Nat) : (partBit i).getLsbD j = (decide (i = j) && decide (j < 64)) := by
  unfold partBit
  rw [BitVec.getLsbD_shiftLeft, BitVec.getLsbD_one]
  by_cases hj : j < 64
  · by_cases hij : i = j
    · subst hij
      simp [hj]
    · have : ¬ (¬ j < i ∧ j - i = 0) := by omega
      simp only [hj, hij, decide_true, decide_false, Bool.true_and, Bool.false_and]
      by_contra hne
      simp at hne
      omega
  · simp [hj]

theorem and_partBit_ne_zero {parts : BitVec 64} {part : Nat} :
    parts &&& partBit part ≠ 0#64 ↔ parts.getLsbD part = true := by
  constructor
  · intro h
    by_contra hbit
    refine h (BitVec.eq_of_getLsbD_eq fun j _ => ?_)
    rw [BitVec.getLsbD_and, getLsbD_partBit]
    by_cases hj : part = j
    · subst hj
      simp [hbit]
    · simp [hj]
  · intro h hzero
    have hbit : (parts &&& partBit part).getLsbD part = (0#64).getLsbD part := by rw [hzero]
    have hlt : part < 64 := BitVec.lt_of_getLsbD h
    rw [BitVec.getLsbD_and, getLsbD_partBit, h, decide_eq_true hlt] at hbit
    simp at hbit

theorem lt_len64 {parts : BitVec 64} {part : Nat} (h : parts.getLsbD part = true) :
    part < FlowImage.len64 parts := by
  refine Nat.lt_size.2 (Nat.ge_two_pow_of_testBit ?_)
  rwa [BitVec.testBit_toNat]

/-- A loop over the set bits of an index entry. -/
theorem FlowImage.ensures_eachPart {σ : Type} {parts : BitVec 64} {fn : σ → Nat → FlowM σ}
    (I : Set Nat → σ → Prop) {s : σ}
    (hstep : ∀ D part s, parts.getLsbD part = true → part ∉ D → I D s →
      Ensures (fn s part) (I (insert part D))) (hs : I ∅ s) :
    Ensures (eachPart parts fn s) (I {part | parts.getLsbD part = true}) := by
  have hset : {part | parts.getLsbD part = true} =
      {part | part ∈ List.range (max 16 (len64 parts))} ∩ {part | parts.getLsbD part = true} := by
    ext part
    simp only [Set.mem_inter_iff, Set.mem_ofPred_eq, List.mem_range]
    exact ⟨fun h => ⟨lt_of_lt_of_le (lt_len64 h) (le_max_right ..), h⟩, fun h => h.2⟩
  rw [hset]
  refine ensures_foldlM_set (fun D s => I (D ∩ {part | parts.getLsbD part = true}) s)
    List.nodup_range ?_ (by simpa using hs)
  intro D part s _ hD hI
  refine ensures_charge_then (Ensures.ite (fun h => ?_) fun h => ?_)
  · have hbit : part ∈ {part | parts.getLsbD part = true} := and_partBit_ne_zero.1 h
    rw [Set.insert_inter_of_mem hbit]
    exact hstep _ part s hbit (fun hp => hD hp.1) hI
  · have hbit : part ∉ {part | parts.getLsbD part = true} := fun hb => h (and_partBit_ne_zero.2 hb)
    rw [Set.insert_inter_of_notMem hbit]
    exact ensures_pure hI

/-! ## Images as sets of facts -/

namespace FlowImage

def facts (s : FlowImage) : Set FlowFact := {f | (s.cellAt f.1).Has f.2}

variable {s : FlowImage} {loc : Location} {v : Symbol}

theorem mem_facts :
    (loc, v) ∈ s.facts ↔ (s.cellAt loc).Has v := Iff.rfl

/-- The parts of a value that the index has at a location. -/
def partsOf (s : FlowImage) (id : ValueID) (loc : Location) : BitVec 64 := (s.indexOf id).partsAt loc

/-- The reverse index and the register set agree with the cells. -/
structure Consistent (s : FlowImage) : Prop where
  single : ∀ loc, (s.cellAt loc).one ∉ (s.cellAt loc).more
  named : ∀ loc v, (loc, v) ∈ s.facts → v.id ≠ 0
  indexed : ∀ loc v, (loc, v) ∈ s.facts ↔ (s.partsOf v.id loc).getLsbD v.part = true
  registers : ∀ loc v, (loc, v) ∈ s.facts → loc.bank ≠ .frame → loc ∈ s.registers
  noFrame : ∀ loc ∈ s.registers, loc.bank ≠ .frame

@[simp] theorem cellAt_new (loc : Location) : cellAt {} loc = {} := rfl

theorem facts_new : facts {} = ∅ := by
  ext ⟨loc, v⟩
  simp only [Set.mem_empty_iff_false, iff_false]
  exact FlowCell.not_has_empty v

theorem Consistent.new : Consistent {} where
  single _ := AList.notMem_empty _
  named loc v h := absurd h (FlowCell.not_has_empty v)
  indexed loc v := by
    refine ⟨fun h => absurd h (FlowCell.not_has_empty v), fun h => ?_⟩
    have hzero : partsOf {} v.id loc = 0#64 := rfl
    simp [hzero] at h
  registers loc v h := absurd h (FlowCell.not_has_empty v)
  noFrame loc h := absurd h (AList.notMem_empty loc)

theorem Consistent.part_lt (hs : s.Consistent) (h : (loc, v) ∈ s.facts) : v.part < 64 :=
  BitVec.lt_of_getLsbD ((hs.indexed loc v).1 h)

theorem ensures_has (hv : v.id ≠ 0) :
    Ensures (s.has loc v) fun r => r = true ↔ (loc, v) ∈ s.facts := by
  refine ensures_charge_then (Ensures.ite (fun h => ?_) fun h => ?_)
  · exact ensures_pure ⟨fun _ => .inl ⟨h, hv⟩, fun _ => rfl⟩
  · refine ensures_pure ?_
    rw [decide_eq_true_iff, mem_facts, FlowCell.Has]
    simp [h]

/-! ### Adding a fact -/

theorem cellAt_insertFact (s : FlowImage) (loc : Location) (v : Symbol) (l : Location) :
    (s.insertFact loc v).cellAt l = if l = loc then
      (if (s.cellAt loc).one.id = 0 then { s.cellAt loc with one := v }
        else { s.cellAt loc with
          more := (s.cellAt loc).more.insert v (), moreHistory := (s.cellAt loc).moreHistory + 1 })
      else s.cellAt l := by
  by_cases hl : l = loc
  · subst hl
    rw [if_pos rfl]
    unfold insertFact
    rw [cellAt, AList.lookup_insert]
    rfl
  · rw [if_neg hl]
    unfold insertFact
    rw [cellAt, AList.lookup_insert_ne hl]
    rfl

theorem partsOf_insertFact (s : FlowImage) (loc : Location) (v : Symbol) (id : ValueID) (l : Location) :
    (s.insertFact loc v).partsOf id l =
      if id = v.id ∧ l = loc then s.partsOf id l ||| partBit v.part else s.partsOf id l := by
  unfold partsOf insertFact indexOf FlowIndex.partsAt
  by_cases hid : id = v.id
  · subst hid
    simp only [AList.lookup_insert, Option.getD_some, true_and]
    split
    · next hl =>
      subst hl
      rw [AList.lookup_insert]
      rfl
    · next hl => rw [AList.lookup_insert_ne hl]
  · simp only [hid, false_and, if_false]
    rw [AList.lookup_insert_ne hid]

theorem facts_insertFact (hv : v.id ≠ 0) : (s.insertFact loc v).facts = insert (loc, v) s.facts := by
  ext ⟨l, w⟩
  rw [mem_facts, cellAt_insertFact]
  by_cases hl : l = loc
  · subst hl
    rw [if_pos rfl]
    split
    · next hone =>
      constructor
      · rintro (⟨rfl, hw⟩ | hw)
        · exact .inl rfl
        · exact .inr (.inr hw)
      · rintro (heq | ⟨heq, hw⟩ | hw)
        · cases heq
          exact .inl ⟨rfl, hv⟩
        · exact absurd (heq ▸ hone) hw
        · exact .inr hw
    · constructor
      · rintro (hw | hw)
        · exact .inr (.inl hw)
        · rcases (AList.mem_insert _).1 hw with rfl | hw
          · exact .inl rfl
          · exact .inr (.inr hw)
      · rintro (heq | hw | hw)
        · cases heq
          exact .inr ((AList.mem_insert _).2 (.inl rfl))
        · exact .inl hw
        · exact .inr ((AList.mem_insert _).2 (.inr hw))
  · rw [if_neg hl, ← mem_facts, Set.mem_insert_iff, Prod.mk.injEq]
    simp [hl]

theorem Consistent.insertFact {s : FlowImage} (hs : s.Consistent) {loc : Location} {v : Symbol}
    (hv : v.id ≠ 0) (hpart : v.part < 64) (hnew : (loc, v) ∉ s.facts) :
    (s.insertFact loc v).Consistent where
  single l := by
    rw [cellAt_insertFact]
    split
    · next hl =>
      subst hl
      split
      · exact fun h => hnew (.inr h)
      · intro h
        rcases (AList.mem_insert _).1 h with hone | hmore
        · refine hnew (.inl ⟨hone, hv⟩)
        · exact hs.single l hmore
    · exact hs.single l
  named l w h := by
    rw [facts_insertFact hv] at h
    rcases h with heq | h
    · cases heq
      exact hv
    · exact hs.named l w h
  indexed l w := by
    rw [facts_insertFact hv, Set.mem_insert_iff, Prod.mk.injEq, hs.indexed l w, partsOf_insertFact]
    obtain ⟨id, part⟩ := v
    obtain ⟨id', part'⟩ := w
    by_cases h : id' = id ∧ l = loc
    · obtain ⟨rfl, rfl⟩ := h
      simp only [and_self, if_true, BitVec.getLsbD_or, Bool.or_eq_true, getLsbD_partBit, true_and,
        Bool.and_eq_true, decide_eq_true_eq, Symbol.mk.injEq]
      constructor
      · rintro (rfl | h)
        · exact .inr ⟨rfl, hpart⟩
        · exact .inl h
      · rintro (h | ⟨rfl, _⟩)
        · exact .inr h
        · exact .inl rfl
    · rw [if_neg h, or_iff_right]
      rintro ⟨hl, heq⟩
      exact h ⟨congrArg Symbol.id heq, hl⟩
  registers l w h hbank := by
    rw [facts_insertFact hv] at h
    unfold FlowImage.insertFact
    rcases h with heq | h
    · cases heq
      simp only [ne_eq, hbank, not_false_eq_true, if_true]
      exact (AList.mem_insert _).2 (.inl rfl)
    · split
      · exact (AList.mem_insert _).2 (.inr (hs.registers l w h hbank))
      · exact hs.registers l w h hbank
  noFrame l h := by
    change l ∈ (if loc.bank ≠ .frame then s.registers.insert loc () else s.registers) at h
    split at h
    · next hbank =>
      rcases (AList.mem_insert _).1 h with rfl | h
      · exact hbank
      · exact hs.noFrame l h
    · exact hs.noFrame l h

/-- A consistent image with the given facts. -/
def Holds (X : Set FlowFact) (s : FlowImage) : Prop := s.Consistent ∧ s.facts = X

variable {X : Set FlowFact}

theorem ensures_add (hs : s.Holds X) (hv : v.id ≠ 0) (hpart : v.part < 64) :
    Ensures (s.add loc v) (Holds (insert (loc, v) X)) := by
  obtain ⟨hcons, rfl⟩ := hs
  refine (ensures_has hv).bind fun r hr => Ensures.ite (fun h => ?_) fun h => ?_
  · exact ensures_pure ⟨hcons, (Set.insert_eq_of_mem (hr.1 h)).symm⟩
  · refine ensures_addFact.bind fun _ _ => ensures_pure ⟨?_, facts_insertFact hv⟩
    exact hcons.insertFact hv hpart fun hin => h (hr.2 hin)

/-! ### Removing a fact -/

/-- A cell without one of its symbols. -/
def cellWithout (c : FlowCell) (v : Symbol) : FlowCell :=
  if c.one = v then { c with one := ⟨0, 0⟩ } else { c with more := c.more.erase v }

theorem has_cellWithout {c : FlowCell} (hone : c.one ∉ c.more) {v w : Symbol} :
    (cellWithout c v).Has w ↔ c.Has w ∧ w ≠ v := by
  unfold cellWithout
  split
  · next h =>
    subst h
    constructor
    · rintro (⟨rfl, hw⟩ | hw)
      · exact absurd rfl hw
      · exact ⟨.inr hw, fun heq => hone (heq ▸ hw)⟩
    · rintro ⟨⟨rfl, _⟩ | hw, hne⟩
      · exact absurd rfl hne
      · exact .inr hw
  · next h =>
    constructor
    · rintro (⟨rfl, hw⟩ | hw)
      · exact ⟨.inl ⟨rfl, hw⟩, h⟩
      · obtain ⟨hne, hw⟩ := AList.mem_erase.1 hw
        exact ⟨.inr hw, hne⟩
    · rintro ⟨hw | hw, hne⟩
      · exact .inl hw
      · exact .inr (AList.mem_erase.2 ⟨hne, hw⟩)

theorem cellAt_deleteFact (s : FlowImage) (loc : Location) (v : Symbol) (index : FlowIndex) (l : Location) :
    (s.deleteFact loc v index).cellAt l = if l = loc then
      (if (cellWithout (s.cellAt loc) v).empty then {} else cellWithout (s.cellAt loc) v)
      else s.cellAt l := by
  change ((if (cellWithout (s.cellAt loc) v).empty then s.cells.erase loc
    else s.cells.insert loc (cellWithout (s.cellAt loc) v)).lookup l).getD {} = _
  by_cases hl : l = loc
  · subst hl
    rw [if_pos rfl]
    split
    · rw [AList.lookup_erase]
      rfl
    · rw [AList.lookup_insert]
      rfl
  · rw [if_neg hl]
    split
    · rw [AList.lookup_erase_ne hl]
      rfl
    · rw [AList.lookup_insert_ne hl]
      rfl

theorem facts_deleteFact (hs : s.Consistent) (loc : Location) (v : Symbol) (index : FlowIndex) :
    (s.deleteFact loc v index).facts = s.facts \ {(loc, v)} := by
  ext ⟨l, w⟩
  rw [mem_facts, cellAt_deleteFact, Set.mem_sdiff, Set.mem_singleton_iff, Prod.mk.injEq, mem_facts]
  by_cases hl : l = loc
  · subst hl
    have hwithout := has_cellWithout (w := w) (hs.single l) (v := v)
    rw [if_pos rfl]
    split
    · next hempty =>
      have hno := FlowCell.empty_iff.1 hempty w
      rw [hwithout] at hno
      simp only [FlowCell.not_has_empty, false_iff, true_and]
      exact hno
    · rw [hwithout]
      simp
  · simp [hl]

theorem partsOf_deleteFact {index : FlowIndex} (hindex : s.ids.lookup v.id = some index) (loc : Location)
    (id : ValueID) (l : Location) :
    (s.deleteFact loc v index).partsOf id l =
      if id = v.id ∧ l = loc then s.partsOf id l &&& ~~~ partBit v.part else s.partsOf id l := by
  let parts := index.partsAt loc &&& ~~~ partBit v.part
  let locations := if parts = 0#64 then index.locations.erase loc else index.locations.insert loc parts
  have hat : (locations.lookup l).getD 0#64 = if l = loc then parts else index.partsAt l := by
    by_cases hl : l = loc
    · subst hl
      rw [if_pos rfl]
      change ((if parts = 0#64 then index.locations.erase l else index.locations.insert l parts).lookup l).getD 0#64 = parts
      split
      · next hzero =>
        rw [AList.lookup_erase, hzero]
        rfl
      · rw [AList.lookup_insert]
        rfl
    · rw [if_neg hl]
      change ((if parts = 0#64 then index.locations.erase loc else index.locations.insert loc parts).lookup l).getD 0#64 = _
      split
      · rw [AList.lookup_erase_ne hl]
        rfl
      · rw [AList.lookup_insert_ne hl]
        rfl
  change FlowIndex.partsAt (((if locations.entries.isEmpty then s.ids.erase v.id
    else s.ids.insert v.id { index with locations }).lookup id).getD {}) l = _
  by_cases hid : id = v.id
  · subst hid
    have hold : s.partsOf v.id l = index.partsAt l := by rw [partsOf, indexOf, hindex]; rfl
    have hnew : FlowIndex.partsAt (((if locations.entries.isEmpty then s.ids.erase v.id
        else s.ids.insert v.id { index with locations }).lookup v.id).getD {}) l =
        (locations.lookup l).getD 0#64 := by
      split
      · next hempty =>
        have hnone : locations.lookup l = none := by
          rw [AList.lookup_eq_none, AList.mem_keys, AList.keys, List.isEmpty_iff.1 hempty]
          exact List.not_mem_nil
        rw [AList.lookup_erase, hnone]
        rfl
      · rw [AList.lookup_insert]
        rfl
    rw [hnew, hat, hold]
    by_cases hl : l = loc
    · subst hl
      simp [parts]
    · simp [hl]
  · have hother : ¬ (id = v.id ∧ l = loc) := fun h => hid h.1
    rw [if_neg hother]
    split
    · rw [AList.lookup_erase_ne hid]
      rfl
    · rw [AList.lookup_insert_ne hid]
      rfl

theorem Consistent.deleteFact {s : FlowImage} (hs : s.Consistent) {v : Symbol} {index : FlowIndex}
    (hindex : s.ids.lookup v.id = some index) (loc : Location) : (s.deleteFact loc v index).Consistent where
  single l := by
    rw [cellAt_deleteFact]
    split
    · split
      · exact AList.notMem_empty _
      · next hl hne =>
        subst hl
        intro h
        have hin : (cellWithout (s.cellAt l) v).Has (cellWithout (s.cellAt l) v).one := .inr h
        rw [has_cellWithout (hs.single l)] at hin
        unfold cellWithout at h hin
        split at h
        · next hone =>
          rw [if_pos hone] at hin
          exact hs.named l _ hin.1 rfl
        · next hone =>
          exact hs.single l (AList.mem_erase.1 h).2
    · exact hs.single l
  named l w h := by
    rw [facts_deleteFact hs] at h
    exact hs.named l w h.1
  indexed l w := by
    rw [facts_deleteFact hs, Set.mem_sdiff, Set.mem_singleton_iff, Prod.mk.injEq, hs.indexed l w,
      partsOf_deleteFact hindex]
    obtain ⟨id, part⟩ := v
    obtain ⟨id', part'⟩ := w
    by_cases h : id' = id ∧ l = loc
    · obtain ⟨rfl, rfl⟩ := h
      simp only [and_self, if_true, BitVec.getLsbD_and, Bool.and_eq_true, true_and, Symbol.mk.injEq,
        and_congr_right_iff]
      intro hbit
      have hlt : part' < 64 := BitVec.lt_of_getLsbD hbit
      rw [BitVec.getLsbD_not, getLsbD_partBit, decide_eq_true hlt, Bool.true_and, Bool.and_true,
        Bool.not_eq_true', decide_eq_false_iff_not, eq_comm]
    · rw [if_neg h, and_iff_left]
      rintro ⟨hl, heq⟩
      exact h ⟨congrArg Symbol.id heq, hl⟩
  registers l w h hbank := by
    have hold := h
    rw [facts_deleteFact hs] at hold
    have hreg := hs.registers l w hold.1 hbank
    change l ∈ (if (cellWithout (s.cellAt loc) v).empty then s.registers.erase loc else s.registers)
    split
    · next hempty =>
      refine AList.mem_erase.2 ⟨?_, hreg⟩
      rintro rfl
      rw [mem_facts, cellAt_deleteFact, if_pos rfl, if_pos hempty] at h
      exact FlowCell.not_has_empty w h
    · exact hreg
  noFrame l h := by
    change l ∈ (if (cellWithout (s.cellAt loc) v).empty then s.registers.erase loc else s.registers) at h
    split at h
    · exact hs.noFrame l (AList.mem_erase.1 h).2
    · exact hs.noFrame l h

theorem ensures_remove (hs : s.Holds X) (hin : (loc, v) ∈ X) :
    Ensures (s.remove loc v) (Holds (X \ {(loc, v)})) := by
  obtain ⟨hcons, rfl⟩ := hs
  refine ensures_charge_then ?_
  have hbit := (hcons.indexed loc v).1 hin
  rcases hindex : s.ids.lookup v.id with _ | index
  · -- without an index entry there is no part to read
    rw [partsOf, indexOf, hindex] at hbit
    have hzero : (Option.getD (none : Option FlowIndex) {}).partsAt loc = 0#64 := rfl
    rw [hzero] at hbit
    simp at hbit
  · exact ensures_pure ⟨hcons.deleteFact hindex loc, facts_deleteFact hcons loc v index⟩

/-! ### Loops over cells, locations and names -/

/-- The bytes of a carrier. -/
def region (base : Location) (size : Nat) : Set Location := {l | ∃ i < size, l = base.next i}

/-- Removing the symbols of a cell one by one leaves nothing at its location. -/
theorem ensures_removeAll (hs : s.Holds X) (loc : Location) :
    Ensures ((s.cellAt loc).each (fun s v => s.remove loc v) s) (Holds (X \ {f | f.1 = loc})) := by
  have hX := hs.2
  have hset : X \ {f | f.1 = loc} = X \ {f | f.1 = loc ∧ f.2 ∈ {v | (s.cellAt loc).Has v}} := by
    ext ⟨l, v⟩
    simp only [Set.mem_sdiff, Set.mem_ofPred_eq, not_and]
    refine ⟨fun ⟨hin, hne⟩ => ⟨hin, fun heq => absurd heq hne⟩, fun ⟨hin, hno⟩ => ⟨hin, ?_⟩⟩
    rintro rfl
    rw [← hX] at hin
    exact hno rfl hin
  rw [hset]
  refine FlowCell.ensures_each (hs.1.single loc)
    (fun D => Holds (X \ {f | f.1 = loc ∧ f.2 ∈ D})) ?_ (by simpa using hs)
  intro D v s' hv hD hI
  have hin : (loc, v) ∈ X := by rw [← hX]; exact hv
  refine (ensures_remove hI ⟨hin, fun h => hD h.2⟩).mono fun s'' h => ?_
  have hset : X \ {f | f.1 = loc ∧ f.2 ∈ insert v D} =
      (X \ {f | f.1 = loc ∧ f.2 ∈ D}) \ {(loc, v)} := by
    ext ⟨l, w⟩
    simp only [Set.mem_sdiff, Set.mem_ofPred_eq, Set.mem_singleton_iff, Prod.mk.injEq,
      Set.mem_insert_iff]
    tauto
  rwa [hset]

theorem ensures_clear (hs : s.Holds X) (loc : Location) (size : Nat) :
    Ensures (s.clear loc size) (Holds (X \ {f | f.1 ∈ region loc size})) := by
  have hset : {f : FlowFact | f.1 ∈ region loc size} =
      {f | ∃ i ∈ {i | i ∈ List.range size}, f.1 = loc.next i} := by
    ext f
    simp [region]
  rw [hset]
  refine ensures_foldlM_set (fun D => Holds (X \ {f | ∃ i ∈ D, f.1 = loc.next i}))
    List.nodup_range ?_ (by simpa using hs)
  intro D i s' _ _ hI
  refine ensures_charge_then ((ensures_removeAll hI (loc.next i)).mono fun s'' h => ?_)
  have hset : X \ {f | ∃ j ∈ insert i D, f.1 = loc.next j} =
      (X \ {f | ∃ j ∈ D, f.1 = loc.next j}) \ {f | f.1 = loc.next i} := by
    ext f
    simp only [Set.mem_sdiff, Set.mem_ofPred_eq, Set.mem_insert_iff, exists_eq_or_imp, not_or]
    rw [and_assoc, and_comm (a := ¬ f.1 = loc.next i)]
  rwa [hset]

/-- An index without locations belongs to a value that is nowhere. -/
theorem Consistent.nowhere (hs : s.Consistent) {id : ValueID}
    (h : (s.indexOf id).locations.entries.isEmpty = true) (loc : Location) (part : Nat) :
    (loc, ⟨id, part⟩) ∉ s.facts := by
  intro hin
  have hbit := (hs.indexed loc ⟨id, part⟩).1 hin
  have hnone : (s.indexOf id).locations.lookup loc = none := by
    rw [AList.lookup_eq_none, AList.mem_keys, AList.keys, List.isEmpty_iff.1 h]
    exact List.not_mem_nil
  rw [partsOf, FlowIndex.partsAt, hnone] at hbit
  simp at hbit

/-- The entries of an index are the places of its value. -/
theorem Consistent.mem_facts_iff (hs : s.Consistent) {id : ValueID} {part : Nat} :
    (loc, ⟨id, part⟩) ∈ s.facts ↔
      ∃ e ∈ (s.indexOf id).locations.entries, e.1 = loc ∧ e.2.getLsbD part = true := by
  rw [hs.indexed, partsOf, FlowIndex.partsAt]
  constructor
  · intro hbit
    rcases hlookup : (s.indexOf id).locations.lookup loc with _ | parts
    · rw [hlookup] at hbit
      simp at hbit
    · rw [hlookup] at hbit
      exact ⟨⟨loc, parts⟩, AList.mem_lookup_iff.1 hlookup, rfl, hbit⟩
  · rintro ⟨⟨_, parts⟩, hmem, rfl, hbit⟩
    rw [AList.mem_lookup_iff.2 hmem]
    exact hbit

theorem ensures_forget (hs : s.Holds X) (id : ValueID) :
    Ensures (s.forget id) (Holds (X \ {f | f.2.id = id})) := by
  obtain ⟨hcons, rfl⟩ := hs
  refine Ensures.ite (fun hempty => ?_) fun _ => ensures_charge_then ?_
  · refine ensures_pure ⟨hcons, ?_⟩
    ext ⟨loc, id', part⟩
    simp only [Set.mem_sdiff, Set.mem_ofPred_eq, iff_self_and]
    rintro hin rfl
    exact hcons.nowhere hempty loc part hin
  · have hset : s.facts \ {f | f.2.id = id} = s.facts \
        {f | f.2.id = id ∧ ∃ e ∈ {e | e ∈ (s.indexOf id).locations.entries}, e.1 = f.1} := by
      ext ⟨loc, id', part⟩
      simp only [Set.mem_sdiff, Set.mem_ofPred_eq, not_and]
      refine ⟨fun ⟨hin, hne⟩ => ⟨hin, fun heq => absurd heq hne⟩, fun ⟨hin, hno⟩ => ⟨hin, ?_⟩⟩
      rintro rfl
      obtain ⟨e, he, heq, _⟩ := hcons.mem_facts_iff.1 hin
      exact hno rfl ⟨e, he, heq⟩
    rw [hset]
    let gone (D : Set (Sigma fun _ : Location => BitVec 64)) : Set FlowFact :=
      {f | f.2.id = id ∧ ∃ e ∈ D, e.1 = f.1}
    have hkeys := (s.indexOf id).locations.nodupKeys
    refine (ensures_ranged_foldlM
      (fun D s' => D ⊆ {e | e ∈ (s.indexOf id).locations.entries} ∧ Holds (s.facts \ gone D) s')
      (List.Nodup.of_map _ hkeys) ?_ ⟨Set.empty_subset _, by simpa [gone, Holds] using hcons⟩).mono
      fun _ h => h.2
    rintro D ⟨loc, parts⟩ s' he hD ⟨hsub, hI⟩
    -- entries have different locations, so the facts at this one are still there
    have hfresh : ∀ e ∈ D, e.1 ≠ loc := by
      intro e heD heq
      exact hD (hkeys.eq_of_fst_eq (hsub heD) he heq ▸ heD)
    refine (ensures_eachPart
      (fun E => Holds ((s.facts \ gone D) \ {f | f.1 = loc ∧ f.2.id = id ∧ f.2.part ∈ E})) ?_
      (by simpa using hI)).mono fun s'' h => ⟨Set.insert_subset he hsub, ?_⟩
    · intro E part s'' hbit hE hI
      have hin : (loc, ⟨id, part⟩) ∈ s.facts := hcons.mem_facts_iff.2 ⟨_, he, rfl, hbit⟩
      refine (ensures_remove hI (v := ⟨id, part⟩) ⟨⟨hin, ?_⟩, ?_⟩).mono fun _ h => ?_
      · rintro ⟨_, e, heD, heq⟩
        exact hfresh e heD heq
      · rintro ⟨_, _, hpart⟩
        exact hE hpart
      · refine ⟨h.1, h.2.trans ?_⟩
        ext ⟨l, i, p⟩
        simp only [Set.mem_sdiff, Set.mem_ofPred_eq, Set.mem_singleton_iff, Prod.mk.injEq,
          Symbol.mk.injEq, Set.mem_insert_iff]
        tauto
    · refine ⟨h.1, h.2.trans ?_⟩
      ext ⟨l, i, p⟩
      simp only [Set.mem_sdiff, Set.mem_ofPred_eq, gone, Set.mem_insert_iff, exists_eq_or_imp]
      constructor
      · rintro ⟨⟨hin, hno⟩, hpart⟩
        refine ⟨hin, ?_⟩
        rintro ⟨rfl, rfl | hold⟩
        · refine hpart ⟨rfl, rfl, ?_⟩
          obtain ⟨⟨l', parts'⟩, he', rfl, hbit⟩ := hcons.mem_facts_iff.1 hin
          rwa [List.NodupKeys.eq_of_mk_mem hkeys he he']
        · exact hno ⟨rfl, hold⟩
      · rintro ⟨hin, hno⟩
        refine ⟨⟨hin, fun ⟨hid, hold⟩ => hno ⟨hid, .inr hold⟩⟩, ?_⟩
        rintro ⟨rfl, hid, _⟩
        exact hno ⟨hid, .inl rfl⟩

/-! ### Loops over all facts -/

theorem cellAt_of_mem {e : Sigma fun _ : Location => FlowCell} (he : e ∈ s.cells.entries) :
    s.cellAt e.1 = e.2 := by
  rw [cellAt, AList.mem_lookup_iff.2 he]
  rfl

theorem exists_mem_cells {f : FlowFact} (hf : f ∈ s.facts) :
    ∃ e ∈ s.cells.entries, e.1 = f.1 := by
  rcases hlookup : s.cells.lookup f.1 with _ | c
  · exfalso
    have hnew : s.cellAt f.1 = {} := by rw [cellAt, hlookup]; rfl
    rw [facts, Set.mem_ofPred_eq, hnew] at hf
    exact FlowCell.not_has_empty _ hf
  · exact ⟨⟨f.1, c⟩, AList.mem_lookup_iff.1 hlookup, rfl⟩

theorem facts_eq_empty (h : s.cells.entries.isEmpty = true) : s.facts = ∅ := by
  ext f
  simp only [Set.mem_empty_iff_false, iff_false]
  intro hf
  obtain ⟨e, he, _⟩ := exists_mem_cells hf
  rw [List.isEmpty_iff.1 h] at he
  cases he

/-- A loop over the cells of an image and the symbols of each visits every fact once. -/
theorem ensures_eachFact {σ : Type} (hs : s.Consistent) {fn : σ → Location → Symbol → FlowM σ}
    (I : Set FlowFact → σ → Prop) {b : σ}
    (hstep : ∀ D f st, f ∈ s.facts → f ∉ D → I D st → Ensures (fn st f.1 f.2) (I (insert f D))) (hb : I ∅ b) :
    Ensures (ranged s.cells.entries >>= fun es =>
      es.foldlM (fun st e => e.2.each (fun st v => fn st e.1 v) st) b) (I s.facts) := by
  let seen (D : Set (Sigma fun _ : Location => FlowCell)) : Set FlowFact :=
    {f | f ∈ s.facts ∧ ∃ e ∈ D, e.1 = f.1}
  have hkeys := s.cells.nodupKeys
  have hall : seen {e | e ∈ s.cells.entries} = s.facts := by
    ext f
    exact ⟨fun h => h.1, fun h => ⟨h, exists_mem_cells h⟩⟩
  have hnone : seen ∅ = ∅ := by simp [seen]
  rw [← hall]
  refine (ensures_ranged_foldlM (fun D st => D ⊆ {e | e ∈ s.cells.entries} ∧ I (seen D) st)
    (List.Nodup.of_map _ hkeys) ?_ ⟨Set.empty_subset _, by rwa [hnone]⟩).mono fun _ h => h.2
  rintro D ⟨loc, c⟩ st he hD ⟨hsub, hI⟩
  have hc : s.cellAt loc = c := cellAt_of_mem he
  subst hc
  have hfresh : ∀ e ∈ D, e.1 ≠ loc := fun e heD heq =>
    hD (hkeys.eq_of_fst_eq (hsub heD) he heq ▸ heD)
  refine (FlowCell.ensures_each (hs.single loc)
    (fun E => I (seen D ∪ {f | f.1 = loc ∧ f.2 ∈ E})) ?_ (by simpa using hI)).mono
    fun st' h => ⟨Set.insert_subset he hsub, ?_⟩
  · intro E v st' hv hE hI
    have hset : seen D ∪ {f | f.1 = loc ∧ f.2 ∈ insert v E} =
        insert (loc, v) (seen D ∪ {f | f.1 = loc ∧ f.2 ∈ E}) := by
      ext ⟨l, w⟩
      simp only [Set.mem_union, Set.mem_ofPred_eq, Set.mem_insert_iff, Prod.mk.injEq]
      tauto
    rw [hset]
    refine hstep _ (loc, v) st' hv ?_ hI
    rintro (⟨_, e, heD, heq⟩ | ⟨_, hvE⟩)
    · exact hfresh e heD heq
    · exact hE hvE
  · have hset : seen (insert ⟨loc, s.cellAt loc⟩ D) = seen D ∪ {f | f.1 = loc ∧ f.2 ∈ {v | (s.cellAt loc).Has v}} := by
      ext ⟨l, w⟩
      simp only [seen, Set.mem_union, Set.mem_ofPred_eq, Set.mem_insert_iff, exists_eq_or_imp]
      constructor
      · rintro ⟨hin, rfl | hold⟩
        · exact .inr ⟨rfl, hin⟩
        · exact .inl ⟨hin, hold⟩
      · rintro (⟨hin, hold⟩ | ⟨rfl, hin⟩)
        · exact ⟨hin, .inr hold⟩
        · exact ⟨hin, .inl rfl⟩
    rwa [hset]

theorem ensures_clone (hs : s.Holds X) : Ensures s.clone (Holds X) := by
  obtain ⟨hcons, rfl⟩ := hs
  refine Ensures.ite (fun hempty => ?_) fun _ => ensures_charge_then ?_
  · exact ensures_pure ⟨.new, by rw [facts_new, facts_eq_empty hempty]⟩
  · refine ensures_eachFact hcons (fun D => Holds D) ?_ ⟨.new, facts_new⟩
    rintro D ⟨loc, v⟩ out hf _ hI
    exact ensures_add hI (hcons.named loc v hf) (hcons.part_lt hf)

theorem ensures_meet {s other : FlowImage} {X Y : Set FlowFact} (hs : s.Holds X) (hother : other.Holds Y) :
    Ensures (s.meet other) fun r => r.1.Holds (X ∩ Y) ∧ (r.2 = false → X ∩ Y = X) := by
  obtain ⟨hcons, rfl⟩ := hs
  obtain ⟨hcons', rfl⟩ := hother
  refine Ensures.ite (fun hempty => ?_) fun _ => ensures_charge_then ?_
  · have hnone := facts_eq_empty hempty
    refine ensures_pure ⟨⟨hcons, ?_⟩, fun _ => ?_⟩ <;> rw [hnone, Set.empty_inter]
  · have hinit : s.Holds (s.facts \ (∅ \ other.facts)) := by
      simpa [Holds] using hcons
    refine (ensures_eachFact hcons (b := (s, false)) (fun D r =>
      r.1.Holds (s.facts \ (D \ other.facts)) ∧ (r.2 = false → D ⊆ other.facts)) ?_
      ⟨hinit, fun _ => Set.empty_subset _⟩).mono ?_
    · rintro D ⟨loc, v⟩ r hf hD ⟨hI, hkept⟩
      refine (ensures_has (hcons.named loc v hf)).bind fun b hb => Ensures.ite (fun h => ?_) fun h => ?_
      · refine ensures_pure ⟨?_, fun hr => Set.insert_subset (hb.1 h) (hkept hr)⟩
        rwa [Set.insert_sdiff_of_mem _ (hb.1 h)]
      · have hout : (loc, v) ∉ other.facts := fun hin => h (hb.2 hin)
        refine (ensures_remove hI ⟨hf, fun hin => hD hin.1⟩).bind fun s' hs' => ensures_pure ⟨?_, by simp⟩
        refine ⟨hs'.1, hs'.2.trans ?_⟩
        ext f
        simp only [Set.mem_sdiff, Set.mem_singleton_iff, Set.mem_insert_iff]
        by_cases hfv : f = (loc, v)
        · subst hfv
          simp [hout]
        · simp [hfv]
    · rintro r ⟨hI, hkept⟩
      refine ⟨⟨hI.1, hI.2.trans ?_⟩, fun hr => Set.inter_eq_left.2 (hkept hr)⟩
      rw [sdiff_sdiff_right_self]
      rfl

/-! ### Snapshots -/

/-- The facts of a source carrier, moved to a destination. -/
def moved (X : Set FlowFact) (src dst : Location) (size : Nat) : Set FlowFact :=
  {f | ∃ i < size, f.1 = dst.next i ∧ (src.next i, f.2) ∈ X}

theorem ensures_snapshot (hs : s.Holds X) (src dst : Location) (size : Nat) (facts : List FlowFact) :
    Ensures (s.snapshot src dst size facts) fun l => ∀ f, f ∈ l ↔ f ∈ facts ∨ f ∈ moved X src dst size := by
  obtain ⟨hcons, rfl⟩ := hs
  refine (ensures_foldlM_set (fun D l => ∀ f, f ∈ l ↔
      f ∈ facts ∨ ∃ i ∈ D, f.1 = dst.next i ∧ (src.next i, f.2) ∈ s.facts)
    List.nodup_range ?_ (by simp)).mono fun l h f => ?_
  · intro D i l _ _ hI
    refine ensures_charge_then ((FlowCell.ensures_each (hcons.single _) (fun E l' => ∀ f, f ∈ l' ↔
      f ∈ l ∨ (f.1 = dst.next i ∧ f.2 ∈ E)) ?_ (by simp)).mono fun l' h f => ?_)
    · intro E v l' _ _ hE
      refine ensures_addFact.bind fun _ _ => ensures_pure fun f => ?_
      obtain ⟨loc, w⟩ := f
      rw [List.mem_append, hE, List.mem_singleton, Set.mem_insert_iff, Prod.mk.injEq]
      tauto
    · rw [h, hI]
      simp only [Set.mem_insert_iff, exists_eq_or_imp]
      rw [or_assoc, or_comm (a := ∃ a, _)]
      rfl
  · rw [h]
    simp [moved]

theorem ensures_restore (hs : s.Holds X) {facts : List FlowFact}
    (hfacts : ∀ f ∈ facts, f.2.id ≠ 0 ∧ f.2.part < 64) :
    Ensures (s.restore facts) (Holds (X ∪ {f | f ∈ facts})) := by
  refine (ensures_foldlM (fun done => Holds (X ∪ {f | f ∈ done})) ?_ (by simpa using hs)).bind
    fun s' hs' => (ensures_releaseFacts _).bind fun _ _ => ensures_pure hs'
  rintro done ⟨loc, v⟩ rest s' hsplit hI
  obtain ⟨hid, hpart⟩ := hfacts (loc, v) (by rw [hsplit]; simp)
  refine (ensures_add hI hid hpart).mono fun s'' h => ⟨h.1, h.2.trans ?_⟩
  ext f
  simp only [Set.mem_insert_iff, Set.mem_union, Set.mem_ofPred_eq, List.mem_append, List.mem_singleton]
  tauto

end FlowImage

end Wago.RegallocCheck
