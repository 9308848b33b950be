/-
A run of allocations against single ones. A run leaves what as many single allocations leave exactly if
the last of them still finds 32 bytes in the span, as it does when each takes 32 bytes or more. With 16
bytes each, the allocation before the last may take the rest of the span, and the last one goes elsewhere.
-/
import Wago.Gc.ThroughputRun

namespace Wago.Gc

open Wago.Avl (AvlTree)
open Wago.Extents (Extent total)

/-- Allocations one after the other. -/
def allocMany (size : UInt32) (sp : SpaceKind) : (count : Nat) → ThroughputM (List HandleEntry)
  | 0 => return []
  | count + 1 => do
    let e ← throughputAlloc size sp
    return e :: (← allocMany size sp count)

/-- The entries of consecutive spans of `n` bytes from `off` on, the last one with a rest. -/
def entriesFrom (size : UInt32) (sp : SpaceKind) (cls : UInt16) (n tail : Nat) :
    (off count : Nat) → List HandleEntry
  | _, 0 => []
  | off, 1 => [newEntry off size.toNat (if tail ≠ 0 then cls ||| handleAbsorbedTailBit else cls) sp]
  | off, count + 2 =>
    newEntry off size.toNat cls sp :: entriesFrom size sp cls n tail (off + n) (count + 1)

section Singles

variable {h : ThroughputHeap} {t : SpanTree} {size : UInt32} {sp : SpaceKind} {n : Nat} {cls : UInt16}

/-- The first extent that is large enough is one extent. -/
theorem first_fit_unique {b b' : Extent} {l₂ l₂' : List Extent} : ∀ {l₁ l₁' : List Extent},
    l₁ ++ b :: l₂ = l₁' ++ b' :: l₂' → (∀ x ∈ l₁, x.size < n) → (∀ x ∈ l₁', x.size < n) → n ≤ b.size →
    n ≤ b'.size → l₁ = l₁' ∧ b = b' ∧ l₂ = l₂'
  | [], [], heq, _, _, _, _ => ⟨rfl, List.cons.inj heq⟩
  | [], x :: l₁', heq, _, h', hb, _ => by
    have hx := h' x (by simp)
    rw [← (List.cons.inj heq).1] at hx
    omega
  | x :: l₁, [], heq, h, _, _, hb' => by
    have hx := h x (by simp)
    rw [(List.cons.inj heq).1] at hx
    omega
  | x :: l₁, y :: l₁', heq, h, h', hb, hb' => by
    obtain ⟨hxy, hrest⟩ := List.cons.inj heq
    obtain ⟨h₁, h₂⟩ := first_fit_unique hrest (fun z hz => h z (by simp [hz]))
      (fun z hz => h' z (by simp [hz])) hb hb'
    exact ⟨by rw [hxy, h₁], h₂⟩

theorem sizeClass_congr {h' : ThroughputHeap} (hc : h'.classLimit = h.classLimit) :
    h'.sizeClass size sp = h.sizeClass size sp := by
  unfold ThroughputHeap.sizeClass ThroughputHeap.classFor
  rw [hc]

/-- An allocation that the index serves. -/
theorem FreeIndex.alloc_found {l₁ l₂ : List Extent} {b : Extent} (hi : FreeIndex h t)
    (hsize : size.toNat ≤ 2 ^ 32 - 1 - 15) (hsc : h.sizeClass size sp = .ok (n, cls))
    (hl : t.toList = l₁ ++ b :: l₂) (hfirst : ∀ x ∈ l₁, x.size < n) (hn : n ≤ b.size) :
    ∃ h' t', (Gc.throughputAlloc size sp).run h = .ok (newEntry b.off size.toNat
        (if (if 32 ≤ b.size - n then 0 else b.size - n) ≠ 0 then cls ||| handleAbsorbedTailBit else cls) sp) h' ∧
      FreeIndex h' t' ∧ t'.toList = afterConsume l₁ b l₂ n ∧ SameBase h h' ∧ h'.bump = h.bump := by
  rcases hi.findSpan n with ⟨-, hsmall⟩ | ⟨l₁', b', l₂', hl', hfirst', hn', hat⟩
  · have := hsmall b (by simp [hl])
    omega
  obtain ⟨rfl, rfl, rfl⟩ := first_fit_unique (hl.symm.trans hl') hfirst hfirst' hn hn'
  obtain ⟨h', t', hrun, hi', hlist, hbase, hb⟩ :=
    hi.consumeSpan_list hl hat hn (sizeClass_bounds hsc).1 .indexChangedAllocation
  refine ⟨h', t', ?_, hi', hlist, hbase, hb⟩
  have hfind : (findReconciling n h.pendingFree.length).run h = .ok (h.findSpan n) h := by
    cases h.pendingFree.length with
    | zero => rfl
    | succ count =>
      simp only [findReconciling, EStateM.run_bind, EStateM.run_get]
      rw [if_neg fun hc => hat.valid hc.1]
      rfl
  unfold Gc.throughputAlloc
  rw [if_neg (by omega)]
  simp only [EStateM.run_bind, EStateM.run_get, hsc, hfind]
  unfold Gc.allocFound
  rw [if_pos hat.valid]
  simp only [EStateM.run_bind, hrun]
  rfl

theorem afterConsume_shift (l₁ l₂ : List Extent) (b : Extent) (m : Nat) :
    afterConsume l₁ ⟨b.off + m, b.size - m⟩ l₂ n = afterConsume l₁ b l₂ (m + n) := by
  simp only [afterConsume, Nat.add_assoc, Nat.sub_sub]

/-- Allocations that the index serves from one span, if none before the last takes its rest. -/
theorem FreeIndex.allocMany_span {l₁ l₂ : List Extent} (hsize : size.toNat ≤ 2 ^ 32 - 1 - 15)
    (hfirst : ∀ x ∈ l₁, x.size < n) : ∀ (k : Nat) {h : ThroughputHeap} {t : SpanTree} {b : Extent},
    FreeIndex h t → h.sizeClass size sp = .ok (n, cls) → t.toList = l₁ ++ b :: l₂ →
    (k + 1) * n ≤ b.size → k = 0 ∨ 32 ≤ b.size - k * n →
    ∃ h' t', (allocMany size sp (k + 1)).run h = .ok (entriesFrom size sp cls n
        (if 32 ≤ b.size - (k + 1) * n then 0 else b.size - (k + 1) * n) b.off (k + 1)) h' ∧
      FreeIndex h' t' ∧ t'.toList = afterConsume l₁ b l₂ ((k + 1) * n) ∧ SameBase h h' ∧ h'.bump = h.bump
  | 0, h, t, b, hi, hsc, hl, hn, _ => by
    rw [Nat.zero_add, Nat.one_mul] at hn ⊢
    obtain ⟨h', t', hrun, hrest⟩ := hi.alloc_found hsize hsc hl hfirst hn
    refine ⟨h', t', ?_, hrest⟩
    simp only [allocMany, EStateM.run_bind, hrun]
    rfl
  | k + 1, h, t, b, hi, hsc, hl, hn, hroom => by
    have hk : (k + 1 + 1) * n = n + (k + 1) * n := by rw [Nat.add_comm, Nat.add_mul, Nat.one_mul]
    have hk' : (k + 1) * n = n + k * n := by rw [Nat.add_comm, Nat.add_mul, Nat.one_mul]
    have hbig : 32 ≤ b.size - n := by omega
    obtain ⟨h₁, t₁, hrun, hi₁, hlist, hbase, hb⟩ := hi.alloc_found hsize hsc hl hfirst (by omega)
    rw [if_pos hbig] at hrun
    rw [afterConsume, if_pos hbig] at hlist
    obtain ⟨h', t', hrun', hi', hlist', hbase', hb'⟩ := FreeIndex.allocMany_span hsize hfirst k hi₁
      ((sizeClass_congr hbase.classLimit).trans hsc) hlist (by dsimp only; omega) (by dsimp only; omega)
    rw [afterConsume_shift, ← hk] at hlist'
    refine ⟨h', t', ?_, hi', hlist', hbase.trans hbase', hb'.trans hb⟩
    rw [allocMany]
    simp only [EStateM.run_bind, hrun, hrun', Nat.sub_sub, ← hk]
    rfl

theorem sizeClass_absorbed_ne (hsc : h.sizeClass size sp = .ok (n, cls)) :
    cls ||| handleAbsorbedTailBit ≠ cls := by
  obtain ⟨c, hc, rfl, -⟩ := sizeClass_ok hsc
  obtain ⟨-, -, hclear, hset⟩ := class_bits c hc
  intro heq
  rw [heq] at hset
  exact hset hclear

theorem allocMany_rest {k : Nat} {e : HandleEntry} {es : List HandleEntry} {h₁ h₂ : ThroughputHeap}
    (hone : (Gc.throughputAlloc size sp).run h = .ok e h₁)
    (hrun : (allocMany size sp (k + 1)).run h = .ok es h₂) :
    ∃ rest, es = e :: rest ∧ (allocMany size sp k).run h₁ = .ok rest h₂ := by
  rw [allocMany] at hrun
  simp only [EStateM.run_bind, hone] at hrun
  rcases hrest : (allocMany size sp k).run h₁ with ⟨rest, h₃⟩ | ⟨err, h₃⟩
  · rw [hrest] at hrun
    cases hrun
    exact ⟨rest, rfl, rfl⟩
  · rw [hrest] at hrun
    cases hrun

/-- An allocation that is not the last one has no rest, so the span stays in the index. -/
theorem FreeIndex.keeps_of_allocMany {l₁ l₂ : List Extent} {b : Extent} {k tail : Nat} {h₂ : ThroughputHeap}
    (hi : FreeIndex h t) (hsize : size.toNat ≤ 2 ^ 32 - 1 - 15) (hsc : h.sizeClass size sp = .ok (n, cls))
    (hl : t.toList = l₁ ++ b :: l₂) (hfirst : ∀ x ∈ l₁, x.size < n) (hn : n < b.size)
    (hrun : (allocMany size sp (k + 2)).run h = .ok (entriesFrom size sp cls n tail b.off (k + 2)) h₂) :
    32 ≤ b.size - n := by
  by_contra hsmall
  obtain ⟨h₁, -, hone, -⟩ := hi.alloc_found hsize hsc hl hfirst (by omega)
  rw [if_neg hsmall, if_pos (by omega)] at hone
  obtain ⟨rest, hes, -⟩ := allocMany_rest hone hrun
  exact sizeClass_absorbed_ne hsc (congrArg HandleEntry.cls (List.cons.inj hes).1).symm

/-- If single allocations give the entries of a run, the last of them finds 32 bytes or more. -/
theorem FreeIndex.room_of_allocMany {l₁ l₂ : List Extent} (hsize : size.toNat ≤ 2 ^ 32 - 1 - 15)
    (hfirst : ∀ x ∈ l₁, x.size < n) {tail : Nat} {h₂ : ThroughputHeap} :
    ∀ (k : Nat) {h : ThroughputHeap} {t : SpanTree} {b : Extent},
    FreeIndex h t → h.sizeClass size sp = .ok (n, cls) → t.toList = l₁ ++ b :: l₂ → (k + 2) * n ≤ b.size →
    (allocMany size sp (k + 2)).run h = .ok (entriesFrom size sp cls n tail b.off (k + 2)) h₂ →
    32 ≤ b.size - (k + 1) * n := by
  intro k
  induction k with
  | zero =>
    intro h t b hi hsc hl hn hrun
    have hpos := (hi.aligned b (by simp [hl])).2.2
    have hkeeps := hi.keeps_of_allocMany hsize hsc hl hfirst (by omega) hrun
    omega
  | succ k ih =>
    intro h t b hi hsc hl hn hrun
    have hpos := (hi.aligned b (by simp [hl])).2.2
    have hk : (k + 1 + 1) * n = n + (k + 1) * n := by rw [Nat.succ_mul, Nat.add_comm]
    have hk' : (k + 1 + 2) * n = n + (k + 2) * n := by rw [Nat.succ_mul, Nat.add_comm]
    have hk'' : (k + 2) * n = n + (k + 1) * n := hk
    have hkeeps := hi.keeps_of_allocMany hsize hsc hl hfirst (by omega) hrun
    obtain ⟨h₁, t₁, hone, hi₁, hlist, hbase, -⟩ := hi.alloc_found hsize hsc hl hfirst (by omega)
    rw [if_pos hkeeps] at hone
    rw [afterConsume, if_pos hkeeps] at hlist
    obtain ⟨rest, hes, hrest⟩ := allocMany_rest hone hrun
    rw [← (List.cons.inj hes).2] at hrest
    have hroom := ih hi₁ ((sizeClass_congr hbase.classLimit).trans hsc) hlist (by dsimp only; omega) hrest
    dsimp only at hroom
    omega

/-! ## Behind all spans -/

/-- A failure is to be injected into the growth of the backing. -/
def GrowthArmed (h : ThroughputHeap) : Prop := ∃ after, h.armed = some (.backingGrowth, after)

theorem growBacking_quiet {needed : Nat} (hquiet : ¬ GrowthArmed h) (hlimit : h.limit < 2 ^ 32)
    (hn : needed ≤ h.limit) : ∃ memLen, (growBacking needed).run h = .ok () { h with memLen } := by
  have hinject : (injectFailure .backingGrowth).run h = .ok () h := by
    cases ha : h.armed with
    | none =>
      simp only [injectFailure, EStateM.run_bind, EStateM.run_get, ha]
      rfl
    | some p =>
      have hp : p.1 ≠ .backingGrowth := fun heq => hquiet ⟨p.2, by rw [ha, ← heq]⟩
      simp only [injectFailure, EStateM.run_bind, EStateM.run_get, ha, if_pos hp]
      rfl
  have hreserve : h.reserve needed ≤ h.limit := by
    unfold ThroughputHeap.reserve
    dsimp only
    split_ifs <;> omega
  refine ⟨h.reserve needed, ?_⟩
  simp only [growBacking, EStateM.run_bind, EStateM.run_get, hinject]
  rw [if_neg (by omega)]
  rfl

theorem FreeIndex.grow_quiet (hi : FreeIndex h t) (hquiet : ¬ GrowthArmed h) (hlimit : h.limit < 2 ^ 32)
    (hl : h.bump + n ≤ h.limit) :
    ∃ memLen, (Gc.grow n).run h = .ok h.bump { h with bump := h.bump + n, memLen } := by
  obtain ⟨len, hlen, hle⟩ : ∃ len, throughputReservationLen (h.bump + n) h.pageBytes h.limit = .ok len ∧
      len ≤ h.limit := by
    unfold throughputReservationLen
    dsimp only
    split
    · exact ⟨_, if_neg (by omega), hl⟩
    · exact ⟨_, if_neg (by omega), by omega⟩
  simp only [Gc.grow, EStateM.run_bind, EStateM.run_get]
  rw [align16_of_mod hi.bump_mod hi.bump_lt, if_neg (by omega), hlen]
  dsimp only
  split
  · obtain ⟨memLen, hgrow⟩ := growBacking_quiet hquiet hlimit hle
    refine ⟨memLen, ?_⟩
    simp only [EStateM.run_bind, hgrow]
    rfl
  · exact ⟨h.memLen, rfl⟩

theorem FreeIndex.allocMany_bump (hsize : size.toNat ≤ 2 ^ 32 - 1 - 15) : ∀ (k : Nat) {h : ThroughputHeap},
    FreeIndex h t → h.sizeClass size sp = .ok (n, cls) → h.findSpan n = throughputNoSlot →
    h.pendingFree = [] → ¬ GrowthArmed h → h.limit < 2 ^ 32 → h.bump + k * n ≤ h.limit →
    ∃ memLen, (allocMany size sp k).run h =
      .ok (entriesFrom size sp cls n 0 h.bump k) { h with bump := h.bump + k * n, memLen }
  | 0, h, _, _, _, _, _, _, _ => ⟨h.memLen, by rw [Nat.zero_mul]; rfl⟩
  | k + 1, h, hi, hsc, hnone, hp, hquiet, hlimit, hl => by
    have hk : (k + 1) * n = n + k * n := by rw [Nat.add_comm, Nat.add_mul, Nat.one_mul]
    obtain ⟨hmod, -⟩ := sizeClass_bounds hsc
    obtain ⟨len, hgrow⟩ := hi.grow_quiet (n := n) hquiet hlimit (by omega)
    have hrun : (Gc.throughputAlloc size sp).run h =
        .ok (newEntry h.bump size.toNat cls sp) { h with bump := h.bump + n, memLen := len } := by
      unfold Gc.throughputAlloc
      rw [if_neg (by omega)]
      simp only [EStateM.run_bind, EStateM.run_get, hsc, findReconciling_nil hp]
      unfold Gc.allocFound
      rw [if_neg fun hne => hne hnone]
      simp only [EStateM.run_bind, hgrow]
      rfl
    have hi₁ : FreeIndex { h with bump := h.bump + n, memLen := len } t := (hi.grown hmod (by omega)).index
    obtain ⟨memLen, hrest⟩ := FreeIndex.allocMany_bump hsize k hi₁ hsc hnone hp hquiet hlimit
      (by dsimp only; omega)
    refine ⟨memLen, ?_⟩
    rw [allocMany]
    simp only [EStateM.run_bind, hrun, hrest, Nat.add_assoc, ← hk]
    cases k with
    | zero => rfl
    | succ k => rfl

/-! ## Runs -/

theorem entriesFrom_eq (tail : Nat) : ∀ (count off : Nat), entriesFrom size sp cls n tail off count =
    (List.range count).map fun i => newEntry (off + i * n) size.toNat
      (if i = count - 1 ∧ tail ≠ 0 then cls ||| handleAbsorbedTailBit else cls) sp
  | 0, _ => rfl
  | 1, off => by simp [entriesFrom]
  | count + 2, off => by
    rw [entriesFrom, entriesFrom_eq tail (count + 1), List.range_succ_eq_map (n := count + 1), List.map_cons,
      List.map_map]
    simp [Function.comp_def, Nat.succ_mul, Nat.add_comm, Nat.add_left_comm, Nat.add_assoc]

theorem run_entries {off tail count : Nat} (hlt : off + n * count < 2 ^ 32) :
    (ThroughputAllocRun.mk off n (n + tail) cls).entries size count sp =
      entriesFrom size sp cls n tail off count := by
  rw [entriesFrom_eq]
  refine List.map_congr_left fun i hmem => ?_
  have hmul := Nat.mul_le_mul_left n (Nat.le_of_lt (List.mem_range.1 hmem))
  rw [Nat.mul_comm n i] at hmul
  unfold ThroughputAllocRun.entry
  dsimp only
  rw [Nat.mod_eq_of_lt (by omega), add32_eq (by omega)]
  simp

/-- Two heaps with the same free spans, the same bump and the same accounts. -/
structure SameSpace (h h' : ThroughputHeap) : Prop where
  spans : ∃ t t', FreeIndex h t ∧ FreeIndex h' t' ∧ t'.toList = t.toList
  bump : h'.bump = h.bump
  freeBytes : h'.freeBytes = h.freeBytes
  spanCount : h'.spanCount = h.spanCount
  pendingFree : h'.pendingFree = h.pendingFree
  pendingBytes : h'.pendingBytes = h.pendingBytes

theorem FreeIndex.sameSpace {h' : ThroughputHeap} {t' : SpanTree} (hi : FreeIndex h t) (hi' : FreeIndex h' t')
    (hl : t'.toList = t.toList) (hb : h'.bump = h.bump) (hp : h'.pendingFree = h.pendingFree)
    (hpb : h'.pendingBytes = h.pendingBytes) : SameSpace h h' := by
  obtain ⟨fl, hidx⟩ := hi.index
  obtain ⟨fl', hidx'⟩ := hi'.index
  exact ⟨⟨t, t', hi, hi', hl⟩, hb, by rw [hi.bytes, hi'.bytes, hl], by rw [hidx.count, hidx'.count, hl], hp, hpb⟩

/-- A run gives the entries that single allocations give, and leaves the heap that they leave, exactly if
it is not taken from a span in which the last of them would find less than 32 bytes. -/
theorem tryAllocRun_eq_singles_iff {count : Nat} {run : ThroughputAllocRun} {h' : ThroughputHeap}
    (hi : FreeIndex h t) (hlimit : h.limit < 2 ^ 32) (hquiet : ¬ GrowthArmed h)
    (hsc : h.sizeClass size sp = .ok (n, cls)) (hwide : n * count < 2 ^ 64)
    (hrun : (tryAllocRun size count sp).run h = .ok (some run) h') :
    (∃ h'', (allocMany size sp count).run h = .ok (run.entries size count sp) h'' ∧ SameSpace h' h'') ↔
      (h.findSpan n ≠ throughputNoSlot → 32 ≤ (h.spanNodes (h.findSpan n)).size - (count - 1) * n) := by
  unfold tryAllocRun at hrun
  split at hrun
  · cases hrun
  rename_i hargs
  obtain ⟨k, rfl⟩ : ∃ k, count = k + 2 := ⟨count - 2, by omega⟩
  have hmod : n * (k + 2) % 16 = 0 := by rw [Nat.mul_mod, (sizeClass_bounds hsc).1, Nat.zero_mul]
  have hk : n * (k + 2) = (k + 1) * n + n := by rw [Nat.mul_comm, Nat.succ_mul]
  simp only [EStateM.run_bind, EStateM.run_get, hsc] at hrun
  rw [Nat.mod_eq_of_lt hwide] at hrun
  split at hrun
  · cases hrun
  rcases hi.findSpan n with ⟨hnone, -⟩ | ⟨l₁, b, l₂, hl, hfirst, -, hat⟩
  · rw [if_neg fun hne => hne hnone] at hrun
    split at hrun
    · cases hrun
    rename_i hp
    rw [align16_of_mod hi.bump_mod hi.bump_lt] at hrun
    split at hrun
    · cases hrun
    cases hrun
    obtain ⟨memLen, hmany⟩ := hi.allocMany_bump (by omega) (k + 2) hsc hnone (by simpa using hp)
      hquiet hlimit (by rw [Nat.mul_comm]; omega)
    rw [Nat.mul_comm (k + 2)] at hmany
    have hi' (memLen : Nat) : FreeIndex { h with bump := h.bump + n * (k + 2), memLen } t :=
      (hi.grown hmod (by omega)).index
    refine ⟨fun _ hne => absurd hnone hne, fun _ => ?_⟩
    exact ⟨_, hmany.trans (by rw [← run_entries (by omega)]; rfl),
      (hi' h.memLen).sameSpace (hi' memLen) rfl rfl rfl rfl⟩
  · rw [if_pos hat.valid, hat.size] at hrun
    rw [hat.size]
    split at hrun
    · cases hrun
    rename_i hle
    obtain ⟨h₁, t₁, hcut, hi₁, hlist, hbase, hb⟩ :=
      hi.consumeSpan_list hl hat (Nat.le_of_not_lt hle) hmod .indexChangedRunAllocation
    simp only [EStateM.run_bind, hcut] at hrun
    cases hrun
    have hbtop := hi.top b (by simp [hl])
    have hbump := hi.bump_lt
    have hstop : b.stop = b.off + b.size := rfl
    rw [add32_eq (by split <;> omega), run_entries (by omega)]
    have hfits : (k + 2) * n ≤ b.size := by rw [Nat.mul_comm]; omega
    refine ⟨fun ⟨h₂, hmany, _⟩ _ => ?_, fun hroom => ?_⟩
    · exact hi.room_of_allocMany (by omega) hfirst k hsc hl hfits hmany
    -- The bytes of the last allocation keep the span in the index until then.
    obtain ⟨h₂, t₂, hmany, hi₂, hlist₂, hbase₂, hb₂⟩ := hi.allocMany_span (by omega) hfirst (k + 1) hsc hl
      hfits (.inr (hroom hat.valid))
    rw [Nat.mul_comm (k + 1 + 1)] at hmany hlist₂
    exact ⟨h₂, hmany, hi₁.sameSpace hi₂ (hlist₂.trans hlist.symm) (hb₂.trans hb.symm)
      (hbase₂.pendingFree.trans hbase.pendingFree.symm) (hbase₂.pendingBytes.trans hbase.pendingBytes.symm)⟩

end Singles

/-- Two allocations of 32 bytes out of a span of 64 bytes. -/
theorem tryAllocRun_eq_singles_iff_hole : ∃ h h' run h'', (tryAllocRun 16 2 .old).run h = .ok (some run) h' ∧
    (allocMany 16 .old 2).run h = .ok (run.entries 16 2 .old) h'' ∧ SameSpace h' h'' := by
  have hfirst := ThroughputRun.alloc 64 .large
    (.new (show ThroughputHeap.init smallThroughputConfig = .ok _ from rfl)) rfl
  have hsecond := ThroughputRun.alloc 32 .old hfirst rfl
  have hr := ThroughputRun.free (e := newEntry 0 64 18 .large) (.swap _ _ _) hsecond rfl
  obtain ⟨t, hv⟩ := hr.inv
  obtain ⟨h'', hmany, hsame⟩ := (tryAllocRun_eq_singles_iff hv.index hv.limit_lt (fun ⟨_, ha⟩ => nomatch ha) rfl
    (by decide) (show (tryAllocRun 16 2 .old).run _ = .ok (some _) _ from rfl)).2 fun _ => by decide
  exact ⟨_, _, _, h'', rfl, hmany, hsame⟩

/-- A span of 32 bytes and allocations of 16 bytes. The run takes the span as it is; the first of two
single allocations takes all of it, and the second one goes behind all spans. -/
theorem singles_leave_the_span : ∃ h live h' run h'' es, ThroughputRun smallThroughputConfig h live ∧
    (tryAllocRun 16 2 .large).run h = .ok (some run) h' ∧ (allocMany 16 .large 2).run h = .ok es h'' ∧
    es.map (·.off) = [0, 64] ∧ (run.entries 16 2 .large).map (·.off) = [0, 16] := by
  have hfirst := ThroughputRun.alloc 32 .large
    (.new (show ThroughputHeap.init smallThroughputConfig = .ok _ from rfl)) rfl
  have hsecond := ThroughputRun.alloc 32 .large hfirst rfl
  have hr := ThroughputRun.free (e := newEntry 0 32 18 .large) (.swap _ _ _) hsecond rfl
  obtain ⟨h, live, hr, hrun, hmany⟩ : ∃ h live, ThroughputRun smallThroughputConfig h live ∧
      Run.returns (tryAllocRun 16 2 .large) h (some ⟨0, 16, 16, 18⟩) = true ∧
      Run.returns (allocMany 16 .large 2) h
        [newEntry 0 16 (18 ||| handleAbsorbedTailBit) .large, newEntry 64 16 18 .large] = true :=
    ⟨_, _, hr, by decide +kernel, by decide +kernel⟩
  obtain ⟨h', hrun⟩ := Run.exists_of_returns hrun
  obtain ⟨h'', hmany⟩ := Run.exists_of_returns hmany
  exact ⟨h, live, h', _, h'', _, hr, hrun, hmany, rfl, rfl⟩

end Wago.Gc
