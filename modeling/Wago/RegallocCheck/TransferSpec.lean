/-
The images follow the transfers of the checked graphs: executing an effect, a definition or an edge on
an image turns the facts it has into the facts its transfer gives.
-/
import Wago.RegallocCheck.FlowImageSpec
import Wago.RegallocCheck.Provenance

namespace Wago.RegallocCheck

open Metered MustFlow

/-! ## Carriers -/

theorem mem_region {loc base : Location} {size : Nat} :
    loc ∈ FlowImage.region base size ↔ (offset loc base size).isSome = true := by
  rw [offset_isSome]
  exact ⟨fun ⟨i, hi, h⟩ => ⟨i, hi, h.symm⟩, fun ⟨i, hi, h⟩ => ⟨i, hi, h.symm⟩⟩

theorem mem_moved {X : Set FlowFact} {src dst : Location} {size : Nat} (hsize : size ≤ 256) {f : FlowFact} :
    f ∈ FlowImage.moved X src dst size ↔ ∃ i, offset f.1 dst size = some i ∧ (src.next i, f.2) ∈ X := by
  constructor
  · rintro ⟨i, hi, hloc, hin⟩
    exact ⟨i, (offset_eq_some hsize).2 ⟨hi, hloc.symm⟩, hin⟩
  · rintro ⟨i, hoff, hin⟩
    obtain ⟨hi, hloc⟩ := (offset_eq_some hsize).1 hoff
    exact ⟨i, hi, hloc.symm, hin⟩

/-- Two parts of one carrier that follow each other have no byte in common. -/
theorem offset_next_eq_none {loc base : Location} {n m i : Nat} (hnm : n + m ≤ 256)
    (h : offset loc base n = some i) : offset loc (base.next n) m = none := by
  obtain ⟨hi, rfl⟩ := (offset_eq_some (by omega)).1 h
  rw [offset_eq_none]
  intro j hj heq
  rw [Location.next_next] at heq
  have := Location.next_inj (by omega) (by omega) heq
  omega

theorem frame_next {loc : Location} {size : Int} (h : flowLocation loc size false = true)
    (hbank : loc.bank = .frame) {i : Nat} (hi : (i : Int) < size) :
    (loc.next i).index.toInt = loc.index.toInt + i ∧ (loc.next i).byte = 0 := by
  obtain ⟨_, hsize⟩ := flowLocation_size h
  unfold flowLocation at h
  rw [hbank] at h
  split at h
  · cases h
  simp only [Bool.decide_and, Bool.and_eq_true, decide_eq_true_eq] at h
  have hlow := Int32.le_toInt loc.index
  unfold Location.next
  rw [if_pos hbank]
  refine ⟨?_, h.1⟩
  change (loc.index + Int32.ofNat i).toInt = _
  rw [Int32.toInt_add, Int32.toInt_ofNat_of_lt (by omega)]
  exact Int.bmod_eq_of_le (by omega) (by omega)

theorem register_next {loc : Location} {size : Int} (h : flowLocation loc size false = true)
    (hbank : loc.bank ≠ .frame) {i : Nat} (hi : (i : Int) < size) :
    (loc.next i).byte.toNat = loc.byte.toNat + i ∧ (loc.next i).index = loc.index := by
  obtain ⟨_, hsize⟩ := flowLocation_size h
  have hbyte : loc.byte.toNat + size ≤ 64 := by
    unfold flowLocation at h
    split at h
    · cases h
    · cases hb : loc.bank with
      | frame => exact absurd hb hbank
      | gp | returnArea =>
        rw [hb] at h
        have h := of_decide_eq_true h
        omega
      | fp =>
        rw [hb] at h
        have h := of_decide_eq_true h
        simp only [maxCarrierBytes] at h
        omega
      | unknown | other _ =>
        rw [hb] at h
        cases h
  unfold Location.next
  rw [if_neg hbank]
  refine ⟨?_, rfl⟩
  change (loc.byte + UInt8.ofNat i).toNat = _
  rw [UInt8.toNat_add, UInt8.toNat_ofNat']
  omega

/-- Carriers that do not overlap partially are equal or have no byte in common. -/
theorem eq_of_next_eq {a b : Location} {size : Int} (ha : flowLocation a size false = true)
    (hb : flowLocation b size false = true) (hno : partialOverlap a b size = false) {i j : Nat}
    (hi : (i : Int) < size) (hj : (j : Int) < size) (heq : a.next i = b.next j) : a = b := by
  have hbank : a.bank = b.bank := by
    have := congrArg Location.bank heq
    rwa [Location.bank_next, Location.bank_next] at this
  by_contra hne
  unfold partialOverlap at hno
  rw [if_neg (by simp [hbank, hne])] at hno
  by_cases hframe : a.bank = .frame
  · obtain ⟨hia, _⟩ := frame_next ha hframe hi
    obtain ⟨hjb, _⟩ := frame_next hb (hbank ▸ hframe) hj
    rw [heq, hjb] at hia
    simp only [hframe, if_true, Bool.decide_and, Bool.and_eq_false_iff, decide_eq_false_iff_not] at hno
    omega
  · obtain ⟨hia, hxa⟩ := register_next ha hframe hi
    obtain ⟨hjb, hxb⟩ := register_next hb (hbank ▸ hframe) hj
    rw [heq] at hia hxa
    rw [hia] at hjb
    rw [hxa] at hxb
    simp only [hframe, hxb, if_false, ne_eq, not_true_eq_false, Bool.decide_and,
      Bool.and_eq_false_iff, decide_eq_false_iff_not] at hno
    omega

/-! ## Clearing -/

theorem Effect.not_clears {e : Effect} (hsize : 0 ≤ e.size) (hclear : e.clearTo ≤ 64)
    {loc : Location} {i : Nat}
    (h : offset loc e.dst e.size.toNat = some i) : e.clears loc = false := by
  unfold Effect.clears
  rw [decide_eq_false_iff_not]
  rintro ⟨hgt, hsome⟩
  rw [offset_next_eq_none (by omega) h] at hsome
  cases hsome

namespace FlowImage

variable {s : FlowImage}

theorem Holds.congr {X Y : Set FlowFact} (hs : s.Holds X) (h : ∀ f, f ∈ X ↔ f ∈ Y) :
    s.Holds Y :=
  ⟨hs.1, hs.2.trans (Set.ext h)⟩

variable {X : Set FlowFact}

variable (hs : s.Holds X)

include hs

theorem ensures_clearCarrier (loc : Location) (size : Nat) :
    Ensures (s.clearCarrier loc size) (Holds {f | f ∈ X ∧
      offset f.1 loc size = none ∧ upperHalf f.1 loc size = false}) := by
  refine (ensures_clear hs loc size).bind fun s hs => Ensures.ite (fun h => ?_) fun h => ?_
  · refine (ensures_clear hs _ _).mono fun s hs => hs.congr fun f => ?_
    simp only [Set.mem_sdiff, Set.mem_ofPred_eq, mem_region, upperHalf, h, true_and, Bool.decide_eq_true, Bool.not_eq_true, and_assoc,
      Option.isSome_eq_false_iff, Option.isNone_iff_eq_none]
  · refine ensures_pure (hs.congr fun f => ?_)
    have hupper : upperHalf f.1 loc size = false := by
      unfold upperHalf
      rw [decide_eq_false_iff_not]
      exact fun hu => h ⟨hu.1, hu.2.1⟩
    simp only [Set.mem_sdiff, Set.mem_ofPred_eq, mem_region, hupper, and_true,
      Option.not_isSome_iff_eq_none]

theorem ensures_clearTail (e : Effect) :
    Ensures (s.clearTail e) (Holds {f | f ∈ X ∧ e.clears f.1 = false}) := by
  refine Ensures.ite (fun h => ?_) fun h => ?_
  · refine (ensures_clear hs _ _).mono fun s hs => hs.congr fun f => ?_
    simp only [Set.mem_sdiff, Set.mem_ofPred_eq, mem_region, Effect.clears, h, true_and,
      Bool.decide_eq_true, Bool.not_eq_true]
  · refine ensures_pure (hs.congr fun f => ?_)
    simp [Effect.clears, h]

theorem ensures_clearRegisters :
    Ensures s.clearRegisters (Holds {f | f ∈ X ∧ f.1.bank = .frame}) := by
  have hX := hs.2
  refine ensures_charge_then ((ensures_ranged_foldlM (fun D => Holds (X \ {f | f.1 ∈ D}))
    s.registers.keys_nodup ?_ (by simpa using hs)).mono fun s' hs' => hs'.congr fun f => ?_)
  · intro D loc s' _ _ hI
    refine (ensures_removeAll hI loc).mono fun s'' hs'' => hs''.congr fun f => ?_
    simp only [Set.mem_sdiff, Set.mem_ofPred_eq, Set.mem_insert_iff, not_or]
    rw [and_assoc, and_comm (a := ¬ f.1 ∈ D)]
  · simp only [Set.mem_sdiff, Set.mem_ofPred_eq, ← AList.mem_keys, and_congr_right_iff]
    intro hf
    refine ⟨fun hout => by_contra fun hbank => hout ?_, fun hbank hin => hs.1.noFrame _ hin hbank⟩
    exact hs.1.registers f.1 f.2 (by rw [hX]; exact hf) hbank

/-! ## Effects -/

omit hs in
theorem Consistent.ofMoved (hs : s.Consistent) {src dst : Location} {size : Nat} {f : FlowFact}
    (hf : f ∈ moved s.facts src dst size) : f.2.id ≠ 0 ∧ f.2.part < 64 := by
  obtain ⟨i, _, _, hin⟩ := hf
  exact ⟨hs.named _ _ hin, hs.part_lt hin⟩

variable {e : Effect}

theorem ensures_copy (he : e.Valid) (hk : e.kind = .copy) :
    Ensures (s.effect e) (Holds (e.transfer.apply X)) := by
  have hsize := he.size (by simp [hk])
  have hclear := he.clearTo
  have hX := hs.2
  unfold effect
  rw [hk]
  refine (ensures_snapshot hs e.src e.dst e.size.toNat []).bind fun facts hfacts => ?_
  have hgood : ∀ f ∈ facts, f.2.id ≠ 0 ∧ f.2.part < 64 := by
    intro f hf
    have hmoved := ((hfacts f).1 hf).resolve_left List.not_mem_nil
    rw [← hX] at hmoved
    exact hs.1.ofMoved hmoved
  refine (ensures_clearCarrier hs _ _).bind fun s hs => ?_
  refine (ensures_restore hs hgood).bind fun s hs => ?_
  refine (ensures_clearTail hs e).mono fun s hs => hs.congr fun f => ?_
  rw [Effect.mem_transfer, Effect.source, hk]
  simp only [Set.mem_ofPred_eq, Set.mem_union, hfacts, List.not_mem_nil, false_or,
    mem_moved (show e.size.toNat ≤ 256 by omega)]
  rcases hoff : offset f.1 e.dst e.size.toNat with _ | i
  · -- a byte outside the destination
    simp only [true_and, reduceCtorEq, false_and, exists_false, or_false]
    by_cases hgone : upperHalf f.1 e.dst e.size.toNat = true ∨ e.clears f.1 = true
    · simp only [hgone, if_true, reduceCtorEq, false_and, exists_false, iff_false]
      rintro ⟨⟨_, hup⟩, hcl⟩
      rcases hgone with h | h
      · rw [h] at hup; cases hup
      · rw [h] at hcl; cases hcl
    · rw [not_or, Bool.not_eq_true, Bool.not_eq_true] at hgone
      simp [hgone]
  · simp [Effect.not_clears (by omega) hclear.2 hoff]

theorem ensures_kill (hk : e.kind = .kill) :
    Ensures (s.effect e) (Holds (e.transfer.apply X)) := by
  unfold effect
  rw [hk]
  refine (ensures_clear hs _ _).bind fun s hs => ?_
  refine (ensures_clearTail hs e).mono fun s hs => hs.congr fun f => ?_
  rw [Effect.mem_transfer, Effect.source, hk]
  simp only [Set.mem_ofPred_eq, Set.mem_sdiff, mem_region]
  by_cases hgone : (offset f.1 e.dst e.size.toNat).isSome = true ∨ e.clears f.1 = true
  · simp only [hgone, if_true, reduceCtorEq, false_and, exists_false, iff_false]
    rintro ⟨⟨_, hoff⟩, hcl⟩
    rcases hgone with h | h
    · exact hoff h
    · rw [h] at hcl; cases hcl
  · rw [not_or, Bool.not_eq_true, Bool.not_eq_true] at hgone
    simp [hgone]

theorem ensures_call (he : e.Valid) (hk : e.kind = .call) :
    Ensures (s.effect e) (Holds (e.transfer.apply X)) := by
  have hX := hs.2
  obtain ⟨hclear, hsize⟩ := he.call hk
  have hmem : ∀ f, f ∈ e.transfer.apply X ↔ f ∈ X ∧ f.1.bank = .frame := by
    intro f
    rw [Effect.mem_transfer, Effect.source, hk]
    by_cases hbank : f.1.bank = .frame
    · simp [hbank]
    · simp [hbank]
  unfold effect
  rw [hk]
  refine Ensures.ite (fun hempty => ?_) fun _ => ?_
  · refine ensures_pure (hs.congr fun f => ?_)
    rw [hmem, iff_self_and]
    intro hf
    by_contra hbank
    have hreg := hs.1.registers f.1 f.2 (by rw [hX]; exact hf) hbank
    rw [AList.mem_keys, AList.keys, List.isEmpty_iff.1 hempty] at hreg
    cases hreg
  · refine (ensures_clearRegisters hs).bind fun s hs => ?_
    refine (ensures_clearTail hs e).mono fun s hs => hs.congr fun f => ?_
    simp [hmem, Effect.clears, hclear, hsize]

theorem ensures_swap (he : e.Valid) (hk : e.kind = .swap) :
    Ensures (s.effect e) (Holds (e.transfer.apply X)) := by
  have hsize := he.size (by simp [hk])
  obtain ⟨hclear, hdst, hsrc, hoverlap⟩ := he.swap hk
  have hX := hs.2
  have hle : e.size.toNat ≤ 256 := by omega
  unfold effect
  rw [hk]
  refine (ensures_snapshot hs e.src e.dst e.size.toNat []).bind fun facts hfacts => ?_
  refine (ensures_snapshot hs e.dst e.src e.size.toNat facts).bind fun facts' hfacts' => ?_
  have hmoved : ∀ f, f ∈ facts' ↔ f ∈ moved X e.src e.dst e.size.toNat ∨
      f ∈ moved X e.dst e.src e.size.toNat := by
    intro f
    rw [hfacts', hfacts]
    simp
  have hgood : ∀ f ∈ facts', f.2.id ≠ 0 ∧ f.2.part < 64 := by
    intro f hf
    rw [hmoved, ← hX] at hf
    rcases hf with hf | hf
    · exact hs.1.ofMoved hf
    · exact hs.1.ofMoved hf
  refine (ensures_clearCarrier hs _ _).bind fun s hs => ?_
  refine (ensures_clearCarrier hs _ _).bind fun s hs => ?_
  refine (ensures_restore hs hgood).bind fun s hs => ?_
  refine (ensures_clearTail hs e).mono fun s hs => hs.congr fun f => ?_
  have hnoClear : e.clears f.1 = false := by
    unfold Effect.clears
    rw [decide_eq_false_iff_not]
    omega
  rw [Effect.mem_transfer, Effect.source, hk]
  simp only [Set.mem_ofPred_eq, Set.mem_union, hmoved, mem_moved hle, hnoClear, and_true]
  rcases hd : offset f.1 e.dst e.size.toNat with _ | i
  · rcases hr : offset f.1 e.src e.size.toNat with _ | j
    · simp only [true_and, reduceCtorEq, false_and, exists_false, or_false]
      by_cases hgone : upperHalf f.1 e.dst e.size.toNat = true ∨ upperHalf f.1 e.src e.size.toNat = true
      · simp only [hgone, if_true, reduceCtorEq, false_and, exists_false, iff_false]
        rintro ⟨⟨_, hup⟩, hup'⟩
        rcases hgone with h | h
        · rw [h] at hup'; cases hup'
        · rw [h] at hup; cases hup
      · rw [not_or, Bool.not_eq_true, Bool.not_eq_true] at hgone
        simp [hgone]
    · simp
  · -- a byte of both carriers is one byte of one carrier
    simp only [reduceCtorEq, false_and, and_false, false_or, Option.some.injEq, exists_eq_left']
    refine or_iff_left_of_imp ?_
    rintro ⟨j, hj, hin⟩
    obtain ⟨hi, hdi⟩ := (offset_eq_some hle).1 hd
    obtain ⟨hj, hsj⟩ := (offset_eq_some hle).1 hj
    have hsame := eq_of_next_eq hdst hsrc hoverlap (by omega) (by omega) (hdi.trans hsj.symm)
    rw [hsame] at hdi hin
    rw [Location.next_inj (by omega) (by omega) (hdi.trans hsj.symm)]
    exact hin

theorem ensures_effect (he : e.Valid) :
    Ensures (s.effect e) (Holds (e.transfer.apply X)) := by
  cases hk : e.kind with
  | copy => exact ensures_copy hs he hk
  | swap => exact ensures_swap hs he hk
  | kill => exact ensures_kill hs hk
  | call => exact ensures_call hs he hk
  | read =>
    unfold effect
    rw [hk]
    refine ensures_pure (hs.congr fun f => ?_)
    rw [Effect.mem_transfer, Effect.source, hk]
    simp
  | other n => exact absurd hk (he.known n)

/-! ## Definitions -/

theorem ensures_defineConstant (loc : Location) {id : ValueID} (hid : id ≠ 0) {width : Nat}
    (hwidth : width ≤ 64) :
    Ensures (s.defineConstant loc id width)
      (Holds (Transfer.apply (fun f => placedOrigin loc id width f (.pre f)) X)) := by
  refine (ensures_clear hs loc width).bind fun s hs => ?_
  refine (ensures_foldlM_set (fun D => Holds ((X \ {f | f.1 ∈ region loc width}) ∪
    {f | ∃ i ∈ D, f = (loc.next i, ⟨id, i⟩)})) List.nodup_range ?_ (by simpa using hs)).mono
    fun s hs => hs.congr fun f => ?_
  · intro D i s hi _ hI
    have hi := List.mem_range.1 hi
    refine (ensures_add (v := ⟨id, i⟩) hI hid (by change i < 64; omega)).mono fun s hs => hs.congr fun f => ?_
    simp only [Set.mem_insert_iff, Set.mem_union, Set.mem_ofPred_eq, exists_eq_or_imp]
    tauto
  · rw [Transfer.mem_apply, holds_placedOrigin]
    simp only [Set.mem_union, Set.mem_sdiff, Set.mem_ofPred_eq, mem_region, List.mem_range,
      Origin.holds_pre]
    rcases hoff : offset f.1 loc width with _ | i
    · have hout := offset_eq_none.1 hoff
      simp only [Option.isSome_none, Bool.false_eq_true, not_false_eq_true, and_true, reduceCtorEq,
        false_implies, implies_true, true_and, true_implies]
      refine or_iff_left_of_imp ?_
      rintro ⟨i, hi, rfl⟩
      exact absurd rfl (hout i hi)
    · obtain ⟨hi, hloc⟩ := (offset_eq_some (by omega)).1 hoff
      simp only [Option.isSome_some, not_true_eq_false, and_false, false_or, Option.some.injEq,
        forall_eq', reduceCtorEq, false_implies, and_true]
      constructor
      · rintro ⟨j, hj, rfl⟩
        rw [Location.next_inj (by omega) (by omega) hloc]
      · intro hsym
        exact ⟨i, hi, Prod.ext hloc.symm hsym⟩

theorem ensures_define (loc : Location) {id : ValueID} (hid : id ≠ 0) {width : Nat}
    (hwidth : width ≤ 64) :
    Ensures (s.define loc id width) (Holds (Transfer.apply
      (fun f => placedOrigin loc id width f (if f.2.id = id then .never else .pre f)) X)) := by
  refine (ensures_forget hs id).bind fun s hs => ?_
  refine (ensures_defineConstant hs loc hid hwidth).mono fun s hs => hs.congr fun f => ?_
  rw [Transfer.mem_apply, Transfer.mem_apply, holds_placedOrigin, holds_placedOrigin]
  refine and_congr_right fun _ => imp_congr_right fun _ => ?_
  by_cases hf : f.2.id = id
  · simp [hf]
  · simp [hf]

/-! ## Edges -/

theorem ensures_renamed (facts : List FlowFact) (p : Parameter) :
    Ensures (s.renamed facts p) fun l => ∀ f, f ∈ l ↔
      f ∈ facts ∨ (f.2.id = p.toId ∧ (f.1, ⟨p.fromId, f.2.part⟩) ∈ X) := by
  obtain ⟨hcons, rfl⟩ := hs
  refine ensures_charge_then (Ensures.ite (fun hempty => ?_) fun _ => ensures_charge_then ?_)
  · refine ensures_pure fun f => ?_
    simp [hcons.nowhere hempty]
  · refine (ensures_ranged_foldlM (fun D l => ∀ f, f ∈ l ↔ f ∈ facts ∨
      (f.2.id = p.toId ∧ ∃ e ∈ D, e.1 = f.1 ∧ e.2.getLsbD f.2.part = true))
      (List.Nodup.of_map _ (s.indexOf p.fromId).locations.nodupKeys) ?_ (by simp)).mono fun l hl f => ?_
    · intro D e l _ _ hI
      refine (ensures_eachPart (fun E l' => ∀ f, f ∈ l' ↔ f ∈ l ∨
        (f.1 = e.1 ∧ f.2.id = p.toId ∧ f.2.part ∈ E)) ?_ (by simp)).mono fun l' hl' f => ?_
      · intro E part l' _ _ hE
        refine ensures_addFact.bind fun _ _ => ensures_pure fun f => ?_
        obtain ⟨loc, id, q⟩ := f
        simp only [List.mem_append, hE, List.mem_singleton, Prod.mk.injEq, Symbol.mk.injEq,
          Set.mem_insert_iff]
        tauto
      · rw [hl', hI]
        simp only [Set.mem_insert_iff, exists_eq_or_imp, Set.mem_ofPred_eq]
        rw [eq_comm (a := f.1)]
        constructor
        · rintro ((h | ⟨hid, h⟩) | ⟨heq, hid, h⟩)
          · exact .inl h
          · exact .inr ⟨hid, .inr h⟩
          · exact .inr ⟨hid, .inl ⟨heq, h⟩⟩
        · rintro (h | ⟨hid, ⟨heq, h⟩ | h⟩)
          · exact .inl (.inl h)
          · exact .inr ⟨heq, hid, h⟩
          · exact .inl (.inr ⟨hid, h⟩)
    · rw [hl, hcons.mem_facts_iff]
      rfl

omit hs in
theorem renamedFrom_of_mem {params : List Parameter} (hnodup : (params.map (·.toId)).Nodup)
    {p : Parameter} (hp : p ∈ params) : renamedFrom params p.toId = p.fromId := by
  unfold renamedFrom
  rcases hfind : params.find? fun q => q.toId = p.toId with _ | q
  · rw [List.find?_eq_none] at hfind
    exact absurd (by simp) (hfind p hp)
  · have hq := List.mem_of_find?_eq_some hfind
    have heq : q.toId = p.toId := by simpa using List.find?_some hfind
    rw [hfind, List.inj_on_of_nodup_map hnodup hq hp heq]

omit hs in
theorem renamedFrom_of_notMem {params : List Parameter} {id : ValueID}
    (h : ∀ p ∈ params, p.toId ≠ id) : renamedFrom params id = id := by
  unfold renamedFrom
  have hnone : (params.find? fun p => p.toId = id) = none := by
    rw [List.find?_eq_none]
    simpa using h
  rw [hnone]

theorem ensures_parameters {g : Graph} {e : Edge} (he : e.Checked g) :
    Ensures (s.parameters e.parameters) (Holds (e.transfer.apply X)) := by
  have hX := hs.2
  have hcons := hs.1
  refine (ensures_foldlM (fun done l => ∀ f, f ∈ l ↔
    ∃ p ∈ done, f.2.id = p.toId ∧ (f.1, ⟨p.fromId, f.2.part⟩) ∈ X) ?_ (by simp)).bind fun facts hfacts => ?_
  · intro done p rest l _ hI
    refine (ensures_renamed hs l p).mono fun l' hl' f => ?_
    rw [hl', hI]
    simp [or_and_right, exists_or]
  refine (ensures_foldlM (fun done => Holds (X \ {f | ∃ p ∈ done, f.2.id = p.toId})) ?_
    (by simpa using hs)).bind fun s hs => ?_
  · intro done p rest s _ hI
    refine ensures_charge_then ((ensures_forget hI p.toId).mono fun s hs => hs.congr fun f => ?_)
    simp only [Set.mem_sdiff, Set.mem_ofPred_eq, List.mem_append, List.mem_singleton, or_and_right,
      exists_or, exists_eq_left, not_or, and_assoc]
  have hgood : ∀ f ∈ facts, f.2.id ≠ 0 ∧ f.2.part < 64 := by
    intro f hf
    obtain ⟨p, hp, hid, hin⟩ := (hfacts f).1 hf
    obtain ⟨hloc, hwidth⟩ := he.params p hp
    rw [← hwidth] at hloc
    rw [← hX] at hin
    have hpart : (⟨p.fromId, f.2.part⟩ : Symbol).part < 64 := hcons.part_lt hin
    exact ⟨by rw [hid]; exact Graph.named_of_flowLocation hloc, hpart⟩
  refine (ensures_restore hs hgood).mono fun s hs => hs.congr fun f => ?_
  obtain ⟨loc, id, part⟩ := f
  rw [Set.mem_union, Set.mem_ofPred_eq, hfacts]
  change _ ↔ (loc, (⟨renamedFrom e.parameters id, part⟩ : Symbol)) ∈ X
  by_cases hnamed : ∃ p ∈ e.parameters, p.toId = id
  · obtain ⟨p, hp, rfl⟩ := hnamed
    rw [renamedFrom_of_mem he.nodup hp]
    constructor
    · rintro (⟨_, hno⟩ | ⟨q, hq, hid, hin⟩)
      · exact absurd ⟨p, hp, rfl⟩ hno
      · rwa [List.inj_on_of_nodup_map he.nodup hp hq hid]
    · intro hin
      exact .inr ⟨p, hp, rfl, hin⟩
  · push Not at hnamed
    rw [renamedFrom_of_notMem hnamed]
    constructor
    · rintro (⟨hin, _⟩ | ⟨p, hp, hid, _⟩)
      · exact hin
      · exact absurd hid.symm (hnamed p hp)
    · intro hin
      exact .inl ⟨hin, fun ⟨p, hp, hid⟩ => hnamed p hp hid.symm⟩

end FlowImage

end Wago.RegallocCheck
