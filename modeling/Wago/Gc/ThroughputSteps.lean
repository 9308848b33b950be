/-
What the operations of the throughput heap do. Free spans, pending spans and live extents cut the
addresses below the bump; every operation, also one that fails on its way, leaves them so. An
allocation takes an extent from the index or from behind the bump, and the entry it returns gives the
extent back when it is released.
-/
import Wago.Gc.ThroughputIndex
import Wago.Lib.Run

namespace Wago.Gc

open List

open Wago.Avl (AvlTree)
open Wago.Extents (Extent Apart Below Joins Packed Takes total)
open Run (Ends)

/-- The bytes that an entry stands for. -/
def ThroughputHeap.extent (h : ThroughputHeap) (e : HandleEntry) : Extent := ⟨e.off, h.handleAllocSize e⟩

theorem ThroughputHeap.extent_congr {h h' : ThroughputHeap} (hc : h'.classLimit = h.classLimit)
    (e : HandleEntry) : h'.extent e = h.extent e := by
  unfold ThroughputHeap.extent ThroughputHeap.handleAllocSize
  rw [hc]

/-- Free spans, pending spans and live extents cut the addresses below the bump. -/
structure ThroughputInv (h : ThroughputHeap) (t : SpanTree) (live : List Extent) : Prop where
  index : FreeIndex h t
  packed : Packed h.bump (t.toList ++ (h.pendingFree ++ live))
  pending : ∀ a ∈ h.pendingFree, a.off % 16 = 0 ∧ a.size % 16 = 0 ∧ 0 < a.size
  pendingBytes : h.pendingBytes = total h.pendingFree
  live_aligned : ∀ a ∈ live, a.off % 16 = 0 ∧ a.size % 16 = 0
  limit_lt : h.limit < 2 ^ 32

variable {h' : ThroughputHeap} {t' : SpanTree}

section Frame

variable {h : ThroughputHeap} {t : SpanTree} {live : List Extent}

/-- The index does not see the length of the backing, the pending spans and the injected failure. -/
theorem FreeIndex.frame (hi : FreeIndex h t) (memLen pendingBytes : Nat) (pendingFree : List Extent)
    (armed : Option (FailurePoint × Nat)) :
    FreeIndex { h with memLen, pendingFree, pendingBytes, armed } t := by
  obtain ⟨fl, hidx⟩ := hi.index
  exact { hi with index := ⟨fl, { hidx with }⟩ }

/-- The bump may move as long as it stays behind the spans. -/
theorem FreeIndex.withBump (hi : FreeIndex h t) {bump : Nat} (memLen : Nat)
    (armed : Option (FailurePoint × Nat)) (htop : ∀ a ∈ t.toList, a.stop < bump) (hlt : bump < 2 ^ 32)
    (hmod : bump % 16 = 0) : FreeIndex { h with bump, memLen, armed } t := by
  obtain ⟨fl, hidx⟩ := hi.index
  exact { hi with index := ⟨fl, { hidx with }⟩, top := htop, bump_lt := hlt, bump_mod := hmod }

theorem ThroughputInv.withArmed (hv : ThroughputInv h t live) (armed : Option (FailurePoint × Nat)) :
    ThroughputInv { h with armed } t live :=
  { hv with index := hv.index.frame h.memLen h.pendingBytes h.pendingFree armed }

/-- Spans and live extents may change, if the pending spans and the limit do not. -/
theorem ThroughputInv.moved {live' : List Extent}
    (hv : ThroughputInv h t live) (hi : FreeIndex h' t')
    (hp : Packed h'.bump (t'.toList ++ (h.pendingFree ++ live')))
    (hlive : ∀ a ∈ live', a.off % 16 = 0 ∧ a.size % 16 = 0) (hfree : h'.pendingFree = h.pendingFree)
    (hbytes : h'.pendingBytes = h.pendingBytes) (hlimit : h'.limit = h.limit) :
    ThroughputInv h' t' live' where
  index := hi
  packed := hfree ▸ hp
  pending := hfree ▸ hv.pending
  pendingBytes := by rw [hbytes, hfree, hv.pendingBytes]
  live_aligned := hlive
  limit_lt := hlimit ▸ hv.limit_lt

theorem ThroughputInv.perm {live' : List Extent} (hv : ThroughputInv h t live) (hp : live.Perm live') :
    ThroughputInv h t live' :=
  { hv with
    packed := hv.packed.perm ((hp.append_left _).append_left _)
    live_aligned := fun a ha => hv.live_aligned a (hp.mem_iff.2 ha) }

theorem injectFailure_ends (point : FailurePoint) :
    Ends (injectFailure point) h (fun _ h' => ∃ armed, h' = { h with armed })
      (fun h' => ∃ armed, h' = { h with armed }) := by
  cases ha : h.armed with
  | none =>
    have hrun : (injectFailure point).run h = .ok () h := by
      simp only [injectFailure, EStateM.run_bind, EStateM.run_get, ha]
      rfl
    exact .of_ok hrun ⟨none, by rw [← ha]⟩
  | some p =>
    obtain ⟨p, after⟩ := p
    by_cases hp : p ≠ point
    · have hrun : (injectFailure point).run h = .ok () h := by
        simp only [injectFailure, EStateM.run_bind, EStateM.run_get, ha, if_pos hp]
        rfl
      exact .of_ok hrun ⟨some (p, after), by rw [← ha]⟩
    · by_cases hafter : after > 0
      · have hrun : (injectFailure point).run h = .ok () { h with armed := some (p, after - 1) } := by
          simp only [injectFailure, EStateM.run_bind, EStateM.run_get, ha, if_neg hp, if_pos hafter]
          rfl
        exact .of_ok hrun ⟨_, rfl⟩
      · have hrun : (injectFailure point).run h = .error .injectedFailure { h with armed := none } := by
          simp only [injectFailure, EStateM.run_bind, EStateM.run_get, ha, if_neg hp, if_neg hafter]
          rfl
        exact .of_error hrun ⟨_, rfl⟩

end Frame

/-! ## Releases -/

section Release

variable {h : ThroughputHeap} {t : SpanTree} {sp : Extent} {live rest : List Extent} {e : HandleEntry}

/-- The joined span takes the place of its parts among all extents. -/
theorem Placed.packed {l front near back : List Extent} {m : Extent} {bound : Nat}
    (hpl : Placed l sp front near back m) (hp : Packed bound (l ++ sp :: rest)) :
    Packed bound (m :: (front ++ back ++ rest)) := by
  have hswap : (front ++ (near ++ back)).Perm (near ++ (front ++ back)) := perm_append_comm_assoc _ _ _
  have hgather : (l ++ sp :: rest).Perm (sp :: near ++ (front ++ back ++ rest)) := by
    rw [hpl.list, cons_append, ← append_assoc near]
    exact perm_middle.trans ((hswap.append_right rest).cons sp)
  exact (hp.perm hgather).join hpl.joins

theorem Inserted.packed (hi : Inserted h h' t t' sp)
    (hp : Packed h.bump (t.toList ++ sp :: rest)) : Packed h'.bump (t'.toList ++ rest) := by
  obtain ⟨front, near, back, m, hpl, hcase⟩ := hi.placed
  rcases hcase with ⟨-, hlist, hb⟩ | ⟨heq, hlist, hb⟩
  · rw [hb, hlist]
    refine (hpl.packed hp).perm ?_
    simp only [append_assoc, cons_append]
    exact perm_middle.symm
  · rw [hb, hlist]
    exact (hpl.packed hp).pop heq

/-- A span that is neither free nor empty goes into the index. -/
theorem FreeIndex.release (hi : FreeIndex h t) (hp : Packed h.bump (t.toList ++ sp :: rest))
    (ho : sp.off % 16 = 0) (hs : sp.size % 16 = 0) (hpos : 0 < sp.size) :
    ∃ h' t', h.insertFreeSpan sp = .ok h' ∧ Inserted h h' t t' sp ∧ Packed h'.bump (t'.toList ++ rest) := by
  have hstop : sp.stop ≤ h.bump := (hp.below sp (by simp)).resolve_left (by omega)
  have hapart : ∀ a ∈ t.toList, Apart a sp := fun a ha =>
    (pairwise_append.1 hp.apart).2.2 a ha sp (by simp)
  obtain ⟨h', t', hok, hins⟩ := hi.insertFreeSpan ⟨ho, hs, hpos, hstop, hapart⟩
  exact ⟨h', t', hok, hins, hins.packed hp⟩

/-- The checks of a release let a live extent pass unless it is empty. -/
theorem ThroughputInv.badFree_iff (hv : ThroughputInv h t (h.extent e :: rest)) :
    h.badFree e = true ↔ (h.extent e).size = 0 := by
  have hbump := hv.index.bump_lt
  have ho : e.off % 16 = 0 := (hv.live_aligned (h.extent e) (by simp)).1
  have hb : h.handleAllocSize e = 0 ∨ e.off + h.handleAllocSize e ≤ h.bump :=
    hv.packed.below (h.extent e) (by simp)
  change _ ↔ h.handleAllocSize e = 0
  unfold ThroughputHeap.badFree
  simp only [decide_eq_true_eq]
  refine ⟨fun hbad => ?_, .inl⟩
  by_contra hne
  rw [add32_eq (by omega)] at hbad
  omega

theorem throughputFree_run (hbad : h.badFree e = false) :
    (throughputFree e).run h = (setFromExcept (h.insertFreeSpan (h.extent e))).run h := by
  simp only [throughputFree, EStateM.run_bind, EStateM.run_get, hbad]
  rfl

theorem ThroughputInv.throughputFree (hv : ThroughputInv h t live) (hl : live.Perm (h.extent e :: rest)) :
    ((h.extent e).size = 0 ∧ (throughputFree e).run h = .error .invalidFreeSpan h) ∨
    (∃ h' t', (throughputFree e).run h = .ok () h' ∧ ThroughputInv h' t' rest) := by
  have hv := hv.perm hl
  obtain ⟨ho, hs⟩ := hv.live_aligned (h.extent e) (by simp)
  have hiff := hv.badFree_iff
  by_cases hz : (h.extent e).size = 0
  · refine .inl ⟨hz, ?_⟩
    simp only [Gc.throughputFree, EStateM.run_bind, EStateM.run_get, hiff.2 hz]
    rfl
  · have hpack : Packed h.bump (t.toList ++ h.extent e :: (h.pendingFree ++ rest)) :=
      hv.packed.perm (perm_middle.append_left _)
    obtain ⟨h', t', hok, hins, hpack'⟩ := hv.index.release hpack ho hs (Nat.pos_of_ne_zero hz)
    have hbase := hins.base
    refine .inr ⟨h', t', ?_, hv.moved hins.index hpack' (fun a ha => hv.live_aligned a (by simp [ha]))
      hbase.pendingFree hbase.pendingBytes hbase.limit⟩
    rw [throughputFree_run (by simpa [hz] using hiff), hok]
    rfl

theorem ThroughputInv.deferFree (hv : ThroughputInv h t live) (hl : live.Perm (h.extent e :: rest)) :
    ((h.extent e).size = 0 ∧ (deferFree e).run h = .error .invalidDeferredFreeSpan h) ∨
    (∃ h' t', (deferFree e).run h = .ok () h' ∧ ThroughputInv h' t' rest) := by
  have hv := hv.perm hl
  obtain ⟨ho, hs⟩ := hv.live_aligned (h.extent e) (by simp)
  have hiff := hv.badFree_iff
  by_cases hz : (h.extent e).size = 0
  · refine .inl ⟨hz, ?_⟩
    simp only [Gc.deferFree, EStateM.run_bind, EStateM.run_get, hiff.2 hz]
    rfl
  · have hbad : h.badFree e = false := by simpa [hz] using hiff
    refine .inr ⟨{ h with
        pendingFree := h.pendingFree ++ [h.extent e], pendingBytes := h.pendingBytes + (h.extent e).size },
      t, ?_, ?_⟩
    · simp only [Gc.deferFree, EStateM.run_bind, EStateM.run_get, hbad]
      rfl
    · refine ⟨hv.index.frame _ _ _ _, ?_, fun a ha => ?_, ?_, fun a ha => hv.live_aligned a (by simp [ha]),
        hv.limit_lt⟩
      · dsimp only
        rw [append_assoc]
        exact hv.packed
      · rcases mem_append.1 ha with ha | ha
        · exact hv.pending a ha
        · rw [mem_singleton.1 ha]
          exact ⟨ho, hs, Nat.pos_of_ne_zero hz⟩
      · dsimp only
        rw [hv.pendingBytes, Extents.total_append]
        simp [Extents.total]

end Release

/-! ## Reconciliation -/

section Reconcile

variable {h : ThroughputHeap} {t : SpanTree} {live : List Extent}

theorem ThroughputInv.sweepOnePending (hv : ThroughputInv h t live) :
    Ends sweepOnePending h
      (fun _ h' => (∃ t', ThroughputInv h' t' live) ∧ h'.classLimit = h.classLimit)
      (fun h' => ∃ t', ThroughputInv h' t' live) := by
  rcases eq_nil_or_concat h.pendingFree with hnil | ⟨l, sp, hl⟩
  · have hrun : Gc.sweepOnePending.run h = .ok () h := by
      simp only [Gc.sweepOnePending, EStateM.run_bind, EStateM.run_get, hnil]
      rfl
    exact .of_ok hrun ⟨⟨t, hv⟩, rfl⟩
  · rw [concat_eq_append] at hl
    have hlast : h.pendingFree.getLast? = some sp := by rw [hl, List.getLast?_append_cons]; rfl
    unfold Gc.sweepOnePending
    refine .get_bind ?_
    rw [hlast]
    refine Ends.bind ((injectFailure_ends .throughputReconciliation).mono (fun _ _ => id) ?_) ?_
    · rintro _ ⟨armed, rfl⟩
      exact ⟨t, hv.withArmed armed⟩
    rintro _ _ ⟨armed, rfl⟩
    have hv' := hv.withArmed armed
    obtain ⟨ho, hs, hpos⟩ := hv.pending sp (by simp [hl])
    have hpack : Packed h.bump (t.toList ++ sp :: (l ++ live)) := by
      refine hv.packed.perm (List.Perm.append_left _ ?_)
      change (h.pendingFree ++ live).Perm _
      rw [hl, append_assoc]
      exact perm_middle
    obtain ⟨h', t', hok, hins, hpack'⟩ := hv'.index.release hpack ho hs hpos
    have hbase := hins.base
    refine .get_bind (.run_bind (f := fun _ => modify _) (congrArg (fun r => (setFromExcept r).run _) hok)
      (.of_ok rfl ⟨⟨t', ?_⟩, ?_⟩))
    · have hdrop : h'.pendingFree.dropLast = l := by
        rw [hbase.pendingFree]
        change h.pendingFree.dropLast = l
        rw [hl, dropLast_concat]
      refine ⟨hins.index.frame _ _ _ _, ?_, ?_, ?_, hv.live_aligned, ?_⟩
      · dsimp only
        rw [hdrop]
        exact hpack'
      · dsimp only
        rw [hdrop]
        exact fun a ha => hv.pending a (by simp [hl, ha])
      · dsimp only
        rw [hdrop, hbase.pendingBytes]
        change h.pendingBytes - sp.size = _
        rw [hv.pendingBytes, hl, Extents.total_append]
        simp [total]
      · dsimp only
        rw [hbase.limit]
        exact hv.limit_lt
    · exact hbase.classLimit

theorem ThroughputInv.sweepPending : ∀ {count : Nat} {h : ThroughputHeap} {t : SpanTree},
    ThroughputInv h t live → Ends (sweepPending count) h (fun _ h' => ∃ t', ThroughputInv h' t' live)
      (fun h' => ∃ t', ThroughputInv h' t' live)
  | 0, h, t, hv => .of_ok rfl ⟨t, hv⟩
  | count + 1, h, t, hv => by
    unfold Gc.sweepPending
    refine .get_bind ?_
    split
    · refine Ends.bind hv.sweepOnePending fun _ h' hv' => ?_
      obtain ⟨⟨t', hv'⟩, -⟩ := hv'
      exact hv'.sweepPending
    · exact .of_ok rfl ⟨t, hv⟩

/-- Joining pending spans that are next to each other keeps what they cover. -/
theorem collapseFrom_spec {bump : Nat} (asc desc : Bool) (hbump : bump < 2 ^ 32) :
    ∀ {rest : List Extent} {last : Extent} {l : List Extent},
    Packed bump (last :: rest ++ l) →
    (∀ a ∈ last :: rest, a.off % 16 = 0 ∧ a.size % 16 = 0 ∧ 0 < a.size) →
    Packed bump (collapseFrom asc desc last rest ++ l) ∧
      ∀ a ∈ collapseFrom asc desc last rest, a.off % 16 = 0 ∧ a.size % 16 = 0 ∧ 0 < a.size
  | [], last, l, hp, hal => ⟨hp, hal⟩
  | sp :: rest, last, l, hp, hal => by
    obtain ⟨hlo, hls, hlpos⟩ := hal last (by simp)
    obtain ⟨hso, hss, hspos⟩ := hal sp (by simp)
    have hltop : last.stop ≤ bump := (hp.below last (by simp)).resolve_left (by omega)
    have hstop : sp.stop ≤ bump := (hp.below sp (by simp)).resolve_left (by omega)
    have hlstop : last.stop = last.off + last.size := rfl
    have hsstop : sp.stop = sp.off + sp.size := rfl
    have hrest : ∀ a ∈ rest, a.off % 16 = 0 ∧ a.size % 16 = 0 ∧ 0 < a.size := fun a ha =>
      hal a (by simp [ha])
    rw [collapseFrom, add32_eq (by omega), add32_eq (show sp.off + sp.size < 2 ^ 32 by omega)]
    split
    · rename_i hc
      have hsum : last.size + sp.size < 2 ^ 32 := by omega
      rw [add32_eq hsum]
      refine collapseFrom_spec asc desc hbump (hp.merge hc.2) fun a ha => ?_
      rcases mem_cons.1 ha with rfl | ha
      · exact ⟨hlo, by dsimp only; omega, by dsimp only; omega⟩
      · exact hrest a ha
    · split
      · rename_i hc
        have hsum : last.size + sp.size < 2 ^ 32 := by omega
        rw [add32_eq hsum]
        have hm := (hp.perm (.swap sp last (rest ++ l))).merge hc.2
        rw [Nat.add_comm] at hm
        refine collapseFrom_spec asc desc hbump hm fun a ha => ?_
        rcases mem_cons.1 ha with rfl | ha
        · exact ⟨hso, by dsimp only; omega, by dsimp only; omega⟩
        · exact hrest a ha
      · have hmove : (last :: sp :: rest ++ l).Perm (sp :: rest ++ last :: l) := perm_middle.symm
        obtain ⟨hp', hal'⟩ := collapseFrom_spec asc desc hbump (hp.perm hmove)
          fun a ha => hal a (mem_cons_of_mem _ ha)
        refine ⟨hp'.perm perm_middle, fun a ha => ?_⟩
        rcases mem_cons.1 ha with rfl | ha
        · exact hal a (by simp)
        · exact hal' a ha

theorem collapsePending_spec {bump : Nat} {pending l : List Extent} (hbump : bump < 2 ^ 32)
    (hp : Packed bump (pending ++ l)) (hal : ∀ a ∈ pending, a.off % 16 = 0 ∧ a.size % 16 = 0 ∧ 0 < a.size) :
    Packed bump (collapsePending pending ++ l) ∧
      ∀ a ∈ collapsePending pending, a.off % 16 = 0 ∧ a.size % 16 = 0 ∧ 0 < a.size := by
  unfold collapsePending
  cases pending with
  | nil => exact ⟨hp, hal⟩
  | cons first rest =>
    dsimp only
    split
    · exact collapseFrom_spec _ _ hbump hp hal
    · exact ⟨hp, hal⟩

theorem ThroughputInv.sweepAllPending (hv : ThroughputInv h t live) :
    Ends sweepAllPending h (fun _ h' => ∃ t', ThroughputInv h' t' live)
      (fun h' => ∃ t', ThroughputInv h' t' live) := by
  have hmove : (t.toList ++ (h.pendingFree ++ live)).Perm (h.pendingFree ++ (t.toList ++ live)) :=
    perm_append_comm_assoc _ _ _
  obtain ⟨hp, hal⟩ := collapsePending_spec hv.index.bump_lt (hv.packed.perm hmove) hv.pending
  have hv' : ThroughputInv { h with pendingFree := collapsePending h.pendingFree } t live := by
    refine ⟨hv.index.frame _ _ _ _, hp.perm (perm_append_comm_assoc _ _ _), hal, ?_, hv.live_aligned,
      hv.limit_lt⟩
    -- The spans cover the same bytes before and after.
    have h₁ := hp.total_eq
    have h₂ := (hv.packed.perm hmove).total_eq
    rw [Extents.total_append] at h₁ h₂
    dsimp only
    rw [hv.pendingBytes]
    omega
  unfold Gc.sweepAllPending
  exact .modify_bind (.get_bind hv'.sweepPending)

/-- While nothing fits, pending spans go into the index. -/
theorem ThroughputInv.findReconciling {n : Nat} : ∀ {count : Nat} {h : ThroughputHeap} {t : SpanTree},
    ThroughputInv h t live → Ends (findReconciling n count) h
      (fun idx h' => (∃ t', ThroughputInv h' t' live) ∧ h'.classLimit = h.classLimit ∧ idx = h'.findSpan n)
      (fun h' => ∃ t', ThroughputInv h' t' live)
  | 0, h, t, hv => .of_ok rfl ⟨⟨t, hv⟩, rfl, rfl⟩
  | count + 1, h, t, hv => by
    unfold Gc.findReconciling
    refine .get_bind ?_
    dsimp only
    split
    · refine Ends.bind hv.sweepOnePending fun _ h' hv' => ?_
      obtain ⟨⟨t', hv'⟩, hcl⟩ := hv'
      exact hv'.findReconciling.mono (fun _ _ ⟨hv'', hcl', hidx⟩ => ⟨hv'', hcl'.trans hcl, hidx⟩) fun _ => id
    · exact .of_ok rfl ⟨⟨t, hv⟩, rfl, rfl⟩

theorem findReconciling_nil {n : Nat} (hp : h.pendingFree = []) :
    ∀ {count : Nat}, (findReconciling n count).run h = .ok (h.findSpan n) h
  | 0 => rfl
  | count + 1 => by
    simp only [Gc.findReconciling, EStateM.run_bind, EStateM.run_get]
    rw [if_neg fun hc => hc.2 hp]
    rfl

end Reconcile

/-! ## Allocation -/

section Search

variable {h : ThroughputHeap} {t : SpanTree}

/-- The search finds the lowest span that is large enough. -/
theorem FreeIndex.findSpan (hi : FreeIndex h t) (n : Nat) :
    (h.findSpan n = throughputNoSlot ∧ ∀ a ∈ t.toList, a.size < n) ∨
    ∃ l₁ b l₂, t.toList = l₁ ++ b :: l₂ ∧ (∀ x ∈ l₁, x.size < n) ∧ n ≤ b.size ∧
      SpanNodes.SpanAt h.spanNodes (h.findSpan n) b := by
  obtain ⟨fl, hidx⟩ := hi.index
  have hslots := hidx.treeSlots
  have hdepth := hidx.height_lt_depth
  have hrep := hidx.rep
  unfold ThroughputHeap.findSpan
  rw [hidx.root]
  cases t with
  | nil => exact .inl ⟨if_pos (.inl rfl), by simp [AvlTree.toList]⟩
  | node l i b r =>
    have hroot : i ≠ throughputNoSlot := hslots.valid i (by simp [AvlTree.slots])
    have hstored : (h.spanNodes i).maxSize = spanMax (.node l i b r) := hrep.2.2.1
    have hmax : n ≤ (h.spanNodes i).maxSize ↔ ∃ c ∈ (AvlTree.node l i b r).toList, n ≤ c.size := by
      rw [hstored]
      exact AvlTree.le_maxWeight_iff_of_ne_nil (t := .node l i b r) (by simp)
    have hslot : rootSlot (.node l i b r) = i := rfl
    rw [hslot]
    by_cases hfit : n ≤ (h.spanNodes i).maxSize
    · rw [if_neg (not_or.2 ⟨hroot, Nat.not_lt.2 hfit⟩)]
      right
      exact hrep.findSpan hdepth hslots (hmax.1 hfit)
    · exact .inl ⟨if_pos (.inr (Nat.lt_of_not_le hfit)), fun a ha =>
        Nat.lt_of_not_le fun hle => hfit (hmax.2 ⟨a, ha, hle⟩)⟩

end Search

/-- The heap after an extent was taken. -/
structure Taken (h h' : ThroughputHeap) (t t' : SpanTree) (a : Extent) : Prop where
  index : FreeIndex h' t'
  takes : Takes h.bump t.toList a h'.bump t'.toList
  aligned : a.off % 16 = 0 ∧ a.size % 16 = 0
  limit : h'.limit = h.limit
  classLimit : h'.classLimit = h.classLimit
  pendingFree : h'.pendingFree = h.pendingFree
  pendingBytes : h'.pendingBytes = h.pendingBytes

section Take

variable {h : ThroughputHeap} {t : SpanTree} {b : Extent} {l₁ l₂ : List Extent} {n idx : Nat}

theorem FreeIndex.drop {fl : List Nat} (hi : FreeIndex h t)
    (hl : t.toList = l₁ ++ b :: l₂) (hidx : SpanIndex h' t' fl []) (hl' : t'.toList = l₁ ++ l₂)
    (hb : h'.bump = h.bump) (hbytes : h'.freeBytes = h.freeBytes - b.size) : FreeIndex h' t' := by
  have hsub : List.Sublist t'.toList t.toList := by
    rw [hl, hl']
    exact (List.Sublist.refl l₁).append (sublist_cons_self b l₂)
  refine hi.of_list hidx hb ?_ (hi.spaced.sublist hsub) fun a ha => .inl (hsub.subset ha)
  rw [hbytes, hi.bytes, hl, hl', Extents.total_middle, Nat.add_sub_cancel]

theorem FreeIndex.shrink {fl : List Nat} (hi : FreeIndex h t)
    (hl : t.toList = l₁ ++ b :: l₂) (hn : n < b.size) (hmod : n % 16 = 0) (hidx : SpanIndex h' t' fl [])
    (hl' : t'.toList = l₁ ++ ⟨b.off + n, b.size - n⟩ :: l₂) (hb : h'.bump = h.bump)
    (hbytes : h'.freeBytes = h.freeBytes - n) : FreeIndex h' t' := by
  have hsp := hi.spaced
  rw [hl] at hsp
  obtain ⟨hs₁, hs₂, hcross⟩ := pairwise_append.1 hsp
  obtain ⟨hb₂, hs₂⟩ := pairwise_cons.1 hs₂
  obtain ⟨hbo, hbs, -⟩ := hi.aligned b (by simp [hl])
  have hbtop := hi.top b (by simp [hl])
  have hstop : (⟨b.off + n, b.size - n⟩ : Extent).stop = b.stop := by
    unfold Extent.stop
    dsimp only
    omega
  refine hi.of_list hidx hb ?_ ?_ fun a ha => ?_
  · rw [hbytes, hi.bytes, hl, hl', Extents.total_middle, Extents.total_middle]
    dsimp only
    omega
  · rw [hl']
    refine pairwise_append.2 ⟨hs₁, pairwise_cons.2 ⟨fun x hx => ?_, hs₂⟩, fun x hx y hy => ?_⟩
    · rw [hstop]
      exact hb₂ x hx
    · rcases mem_cons.1 hy with rfl | hy
      · have := hcross x hx b (by simp)
        dsimp only
        omega
      · exact hcross x hx y (by simp [hy])
  · rw [hl'] at ha
    rcases mem_cons.1 (perm_middle.mem_iff.1 ha) with rfl | ha
    · exact .inr ⟨⟨by dsimp only; omega, by dsimp only; omega, by dsimp only; omega⟩, hstop ▸ hbtop⟩
    · rw [hl]
      exact .inl (perm_middle.mem_iff.2 (mem_cons_of_mem b ha))

/-- The free spans after the first `n` bytes of `b` were taken: a rest below 32 bytes goes with them. -/
def afterConsume (l₁ : List Extent) (b : Extent) (l₂ : List Extent) (n : Nat) : List Extent :=
  if 32 ≤ b.size - n then l₁ ++ ⟨b.off + n, b.size - n⟩ :: l₂ else l₁ ++ l₂

/-- The first bytes of a span that was found are taken. -/
theorem FreeIndex.consumeSpan_list (hi : FreeIndex h t) (hl : t.toList = l₁ ++ b :: l₂)
    (hat : SpanNodes.SpanAt h.spanNodes idx b) (hn : n ≤ b.size) (hmod : n % 16 = 0)
    (changed : ThroughputError) : ∃ h' t', (consumeSpan idx n changed).run h =
        .ok (b.off, if 32 ≤ b.size - n then 0 else b.size - n) h' ∧ FreeIndex h' t' ∧
      t'.toList = afterConsume l₁ b l₂ n ∧ SameBase h h' ∧ h'.bump = h.bump := by
  obtain ⟨fl, hidx⟩ := hi.index
  have hbtop := hi.top b (by simp [hl])
  have hbump := hi.bump_lt
  have hbstop : b.stop = b.off + b.size := rfl
  unfold afterConsume
  by_cases hbig : b.size - n ≥ 32
  · obtain ⟨h₁, t', hrep, hidx', hlist, hbase, hb, hbytes⟩ :=
      hidx.replaceFreeSpan ⟨b.off + n, b.size - n⟩ hl hi.sorted
    rw [if_pos hbig, if_pos hbig]
    refine ⟨{ h₁ with freeBytes := h₁.freeBytes - n }, t', ?_,
      hi.shrink hl (by omega) hmod { hidx' with } hlist hb (by dsimp only; rw [hbytes]), hlist,
      { hbase with }, hb⟩
    simp only [Gc.consumeSpan, EStateM.run_bind, EStateM.run_get, hat.off, hat.size, if_pos hbig]
    rw [add32_eq (by omega), hrep]
    rfl
  · obtain ⟨h₁, t', j, hrem, hidx', hlist, hbase, hb, hbytes, -⟩ := hidx.removeFreeSpan hl hi.sorted
    rw [if_neg hbig, if_neg hbig]
    refine ⟨h₁.releaseSpanNode j, t', ?_, hi.drop hl hidx'.releaseSpanNode hlist hb hbytes, hlist,
      { hbase with }, hb⟩
    simp only [Gc.consumeSpan, EStateM.run_bind, EStateM.run_get, hat.off, hat.size, if_neg hbig]
    rw [hrem]
    rfl

/-- What is taken is the bytes, with a rest of 16 bytes if that is all that would be left. -/
theorem FreeIndex.consumeSpan (hi : FreeIndex h t) (hl : t.toList = l₁ ++ b :: l₂)
    (hat : SpanNodes.SpanAt h.spanNodes idx b) (hn : n ≤ b.size) (hmod : n % 16 = 0)
    (changed : ThroughputError) : ∃ h' t' tail, (consumeSpan idx n changed).run h = .ok (b.off, tail) h' ∧
      (tail = 0 ∨ tail = 16) ∧ n + tail ≤ b.size ∧ Taken h h' t t' ⟨b.off, n + tail⟩ := by
  obtain ⟨hbo, hbs, -⟩ := hi.aligned b (by simp [hl])
  obtain ⟨h', t', hrun, hi', hlist, hbase, hb⟩ := hi.consumeSpan_list hl hat hn hmod changed
  refine ⟨h', t', _, hrun, by split <;> omega, by split <;> omega, hi', ?_,
    ⟨hbo, by dsimp only; split <;> omega⟩, hbase.limit, hbase.classLimit, hbase.pendingFree, hbase.pendingBytes⟩
  rw [hl, hlist, hb]
  unfold afterConsume
  split
  · exact .part n hn
  · rw [show n + (b.size - n) = b.size by omega]
    exact .whole

theorem growBacking_ends (needed : Nat) :
    Ends (growBacking needed) h (fun _ h' => ∃ memLen armed, h' = { h with memLen, armed })
      (fun h' => ∃ armed, h' = { h with armed }) := by
  unfold growBacking
  refine Ends.bind (injectFailure_ends .backingGrowth) ?_
  rintro _ _ ⟨armed, rfl⟩
  refine .get_bind ?_
  dsimp only
  split
  · exact .of_error rfl ⟨armed, rfl⟩
  · exact .of_ok rfl ⟨_, armed, rfl⟩

/-- Bytes are taken from behind all spans. -/
theorem FreeIndex.grow (hi : FreeIndex h t) (n : Nat) :
    Ends (grow n) h (fun off h' => off = h.bump ∧ ∃ memLen armed, h.bump + n < 2 ^ 32 ∧
        h' = { h with bump := h.bump + n, memLen, armed })
      (fun h' => ∃ armed, h' = { h with armed }) := by
  have hal : align16 h.bump = h.bump := align16_of_mod hi.bump_mod hi.bump_lt
  unfold Gc.grow
  refine .get_bind ?_
  dsimp only
  rw [hal]
  split
  · exact .of_error rfl ⟨h.armed, rfl⟩
  · rename_i hfits
    split
    · exact .of_error rfl ⟨h.armed, rfl⟩
    · split
      · refine Ends.bind (growBacking_ends _) ?_
        rintro _ _ ⟨memLen, armed, rfl⟩
        exact .of_ok rfl ⟨rfl, memLen, armed, by omega, rfl⟩
      · exact .of_ok rfl ⟨rfl, h.memLen, h.armed, by omega, rfl⟩

end Take

/-! ### Sizes and classes -/

section Sizes

variable {h : ThroughputHeap} {size : UInt32} {sp : SpaceKind} {n : Nat} {cls : UInt16}

theorem bitsLen32_le {x k : Nat} (hx : x < 2 ^ k) : bitsLen32 x ≤ k := by
  unfold bitsLen32
  split
  · exact Nat.zero_le k
  · rename_i h0
    exact (Nat.log2_lt h0).2 hx

theorem throughputClass_lt {n : Nat} (hn : n ≤ 32768) : throughputClass n < 18 := by
  unfold throughputClass
  split
  · split
    · omega
    · split
      · have : (n - 1) >>> 4 ≤ 4 := by
          rw [Nat.shiftRight_eq_div_pow]
          omega
        omega
      · split <;> omega
  · dsimp only
    split
    · have := bitsLen32_le (show n - 1 < 2 ^ 12 by omega)
      split <;> omega
    · have := bitsLen32_le (show n - 1 < 2 ^ 15 by omega)
      omega

theorem throughputClassSize_bounds : ∀ c < 18,
    throughputClassSize c % 16 = 0 ∧ 0 < throughputClassSize c ∧ throughputClassSize c ≤ 32768 := by decide

/-- The class and the mark of an absorbed rest do not share bits. -/
theorem class_bits : ∀ c < 19, (UInt16.ofNat c &&& handleClassMask).toNat = c ∧
    ((UInt16.ofNat c ||| handleAbsorbedTailBit) &&& handleClassMask).toNat = c ∧
    UInt16.ofNat c &&& handleAbsorbedTailBit = 0 ∧
    (UInt16.ofNat c ||| handleAbsorbedTailBit) &&& handleAbsorbedTailBit ≠ 0 := by decide

/-- What the class of an allocation records. -/
theorem sizeClass_ok (hsc : h.sizeClass size sp = .ok (n, cls)) : ∃ c < 19, cls = UInt16.ofNat c ∧
    ((c < 18 ∧ sp ≠ .large ∧ n = throughputClassSize c ∧ n ≤ h.classLimit) ∨
      (c = 18 ∧ n = align16 size.toNat)) := by
  unfold ThroughputHeap.sizeClass at hsc
  dsimp only at hsc
  split at hsc
  · rename_i hsmall
    split at hsc
    · cases hsc
    · rename_i c hc
      cases hsc
      unfold ThroughputHeap.classFor at hc
      split at hc
      · cases hc
      · rename_i hle
        dsimp only at hc
        split at hc
        · rename_i hlimit
          cases hc
          have hlt := throughputClass_lt (Nat.le_of_not_lt hle)
          exact ⟨_, by omega, rfl, .inl ⟨hlt, hsmall.1, rfl, hlimit⟩⟩
        · cases hc
  · cases hsc
    exact ⟨18, by decide, rfl, .inr ⟨rfl, rfl⟩⟩

theorem sizeClass_bounds (hsc : h.sizeClass size sp = .ok (n, cls)) : n % 16 = 0 ∧ n < 2 ^ 32 := by
  obtain ⟨c, -, -, ⟨hc, -, rfl, -⟩ | ⟨-, rfl⟩⟩ := sizeClass_ok hsc
  · obtain ⟨hmod, -, hle⟩ := throughputClassSize_bounds c hc
    exact ⟨hmod, by omega⟩
  · exact ⟨align16_mod _, align16_lt _⟩

theorem handleAllocSize_eq {c : Nat} {e : HandleEntry} (hc : (e.cls &&& handleClassMask).toNat = c)
    (hsize : e.size = size.toNat)
    (hcase : (c < 18 ∧ e.space ≠ .large ∧ n = throughputClassSize c ∧ n ≤ h.classLimit) ∨
      (c = 18 ∧ n = align16 size.toNat)) :
    h.handleAllocSize e = if e.cls &&& handleAbsorbedTailBit ≠ 0 then add32 n 16 else n := by
  unfold ThroughputHeap.handleAllocSize
  dsimp only
  rw [hc, hsize]
  rcases hcase with ⟨hc18, hsp, rfl, hlimit⟩ | ⟨rfl, rfl⟩
  · have hpos := (throughputClassSize_bounds c hc18).2.1
    have hcond : e.space ≠ .large ∧ c < throughputClassSizes.length ∧ throughputClassSize c ≤ h.classLimit :=
      ⟨hsp, hc18, hlimit⟩
    simp only [if_pos hcond, if_neg (Nat.ne_of_gt hpos)]
  · have hcond : ¬ (e.space ≠ .large ∧ 18 < throughputClassSizes.length ∧
        throughputClassSize 18 ≤ h.classLimit) := fun hc' => absurd hc'.2.1 (by decide)
    simp only [if_neg hcond, if_true]

/-- The entry of an allocation stands for the bytes that were taken. -/
theorem handleAllocSize_newEntry {tail : Nat} (off : Nat) (hsc : h.sizeClass size sp = .ok (n, cls))
    (htail : tail = 0 ∨ tail = 16) (hlt : n + tail < 2 ^ 32) :
    h.handleAllocSize (newEntry off size.toNat (if tail ≠ 0 then cls ||| handleAbsorbedTailBit else cls) sp) =
      n + tail := by
  obtain ⟨c, hc, rfl, hcase⟩ := sizeClass_ok hsc
  obtain ⟨hmask, hmask', hbit, hbit'⟩ := class_bits c hc
  rcases htail with rfl | rfl
  · rw [if_neg (fun hne => hne rfl),
      handleAllocSize_eq (e := newEntry off size.toNat (UInt16.ofNat c) sp) hmask rfl hcase]
    exact if_neg fun hne => hne hbit
  · rw [if_pos (by decide), handleAllocSize_eq
      (e := newEntry off size.toNat (UInt16.ofNat c ||| handleAbsorbedTailBit) sp) hmask' rfl hcase]
    exact (if_pos hbit').trans (add32_eq hlt)

end Sizes

/-! ### Allocations -/

section Alloc

variable {h : ThroughputHeap} {t : SpanTree} {size : UInt32} {sp : SpaceKind} {n : Nat} {cls : UInt16}

theorem FreeIndex.grown (hi : FreeIndex h t) {memLen : Nat} {armed : Option (FailurePoint × Nat)}
    (hmod : n % 16 = 0) (hlt : h.bump + n < 2 ^ 32) :
    Taken h { h with bump := h.bump + n, memLen, armed } t t ⟨h.bump, n⟩ := by
  have hb := hi.bump_mod
  exact ⟨hi.withBump memLen armed (fun a ha => Nat.lt_add_right n (hi.top a ha)) hlt (by omega), .push n,
    ⟨hb, hmod⟩, rfl, rfl, rfl, rfl⟩

/-- The end of an allocation takes the extent that its entry stands for. -/
theorem FreeIndex.allocFound (hi : FreeIndex h t) (hsc : h.sizeClass size sp = .ok (n, cls)) :
    Ends (allocFound size sp n cls (h.findSpan n)) h (fun e h' => ∃ t', Taken h h' t t' (h'.extent e))
      (fun h' => ∃ armed, h' = { h with armed }) := by
  obtain ⟨hmod, hlt⟩ := sizeClass_bounds hsc
  have hbump := hi.bump_lt
  unfold Gc.allocFound
  rcases hi.findSpan n with ⟨hnone, -⟩ | ⟨l₁, b, l₂, hl, -, hn, hat⟩
  · rw [if_neg fun hne => hne hnone]
    refine Ends.bind (hi.grow n) ?_
    rintro _ _ ⟨rfl, memLen, armed, hlt', rfl⟩
    refine .of_ok rfl ⟨t, ?_⟩
    have hentry : ThroughputHeap.extent { h with bump := h.bump + n, memLen, armed }
        (newEntry h.bump size.toNat cls sp) = ⟨h.bump, n⟩ :=
      congrArg (Extent.mk h.bump) (handleAllocSize_newEntry (h := h) h.bump hsc (.inl rfl) (by omega))
    rw [hentry]
    exact hi.grown hmod hlt'
  · obtain ⟨h', t', tail, hrun, htail, hfit, htaken⟩ :=
      hi.consumeSpan hl hat hn hmod .indexChangedAllocation
    have hbtop := hi.top b (by simp [hl])
    have hstop : b.stop = b.off + b.size := rfl
    rw [if_pos hat.valid]
    refine .run_bind hrun (.of_ok rfl ⟨t', ?_⟩)
    rw [ThroughputHeap.extent_congr htaken.classLimit]
    unfold ThroughputHeap.extent
    rw [handleAllocSize_newEntry b.off hsc htail (by omega)]
    exact htaken

/-- The extents `es` cut the extent `a`. -/
structure Slices (es : List Extent) (a : Extent) : Prop where
  packed : ∀ {bound : Nat} {l : List Extent}, Packed bound (a :: l) → Packed bound (es ++ l)
  aligned : ∀ x ∈ es, x.off % 16 = 0 ∧ x.size % 16 = 0
  inside : ∀ x ∈ es, a.off ≤ x.off ∧ x.stop ≤ a.stop

theorem Slices.single {a : Extent} (ha : a.off % 16 = 0 ∧ a.size % 16 = 0) : Slices [a] a :=
  ⟨id, fun x hx => by rw [mem_singleton.1 hx]; exact ha, fun x hx => by
    rw [mem_singleton.1 hx]
    exact ⟨Nat.le_refl _, Nat.le_refl _⟩⟩

/-- What was taken becomes live, cut or as a whole. -/
theorem ThroughputInv.taken {a : Extent} {live es : List Extent}
    (hv : ThroughputInv h t live) (ht : Taken h h' t t' a) (hes : Slices es a) :
    ThroughputInv h' t' (es ++ live) := by
  refine hv.moved ht.index ?_ (fun x hx => ?_) ht.pendingFree ht.pendingBytes ht.limit
  · have hmid : (es ++ (t'.toList ++ (h.pendingFree ++ live))).Perm
        (t'.toList ++ (h.pendingFree ++ (es ++ live))) :=
      (perm_append_comm_assoc _ _ _).trans ((perm_append_comm_assoc _ _ _).append_left _)
    exact (hes.packed ((ht.takes.packed hv.packed).perm perm_middle)).perm hmid
  · rcases mem_append.1 hx with hx | hx
    · exact hes.aligned x hx
    · exact hv.live_aligned x hx

theorem ThroughputInv.throughputAlloc {live : List Extent} (hv : ThroughputInv h t live) :
    Ends (throughputAlloc size sp) h (fun e h' => ∃ t', ThroughputInv h' t' (h'.extent e :: live))
      (fun h' => ∃ t', ThroughputInv h' t' live) := by
  unfold Gc.throughputAlloc
  split
  · exact .of_error rfl ⟨t, hv⟩
  · refine .get_bind ?_
    split
    · exact .of_error rfl ⟨t, hv⟩
    · rename_i n cls hsc
      refine Ends.bind hv.findReconciling ?_
      rintro _ h₁ ⟨⟨t₁, hv₁⟩, hcl, rfl⟩
      have hsc₁ : h₁.sizeClass size sp = .ok (n, cls) := by
        rw [← hsc]
        unfold ThroughputHeap.sizeClass ThroughputHeap.classFor
        rw [hcl]
      refine (hv₁.index.allocFound hsc₁).mono (fun e h' ht => ?_) ?_
      · obtain ⟨t', ht⟩ := ht
        exact ⟨t', hv₁.taken ht (.single ht.aligned)⟩
      · rintro _ ⟨armed, rfl⟩
        exact ⟨t₁, hv₁.withArmed armed⟩

/-- With nothing pending an allocation takes from the index or from behind all spans. -/
theorem FreeIndex.throughputAlloc (hi : FreeIndex h t) (hp : h.pendingFree = []) :
    Ends (throughputAlloc size sp) h (fun e h' => ∃ t', Taken h h' t t' (h'.extent e))
      (fun h' => ∃ armed, h' = { h with armed }) := by
  unfold Gc.throughputAlloc
  split
  · exact .of_error rfl ⟨h.armed, rfl⟩
  · refine .get_bind ?_
    split
    · exact .of_error rfl ⟨h.armed, rfl⟩
    · rename_i n cls hsc
      exact .run_bind (findReconciling_nil hp) (hi.allocFound hsc)

end Alloc

/-! ### Runs of allocations -/

section AllocRun

variable {h h' : ThroughputHeap} {t : SpanTree} {size : UInt32} {sp : SpaceKind} {n : Nat} {cls : UInt16}

/-- The entries of a run stand for slices of one size, the last of them with the rest. -/
theorem entries_extents {off tail last k : Nat} (hc : h'.classLimit = h.classLimit)
    (hsc : h.sizeClass size sp = .ok (n, cls)) (htail : tail = 0 ∨ tail = 16) (hlast : last = n + tail)
    (hlt : off + k * n + n + tail < 2 ^ 32) :
    ((ThroughputAllocRun.mk off n last cls).entries size (k + 1) sp).map h'.extent =
      (List.range k).map (fun i => ⟨off + i * n, n⟩) ++ [⟨off + k * n, n + tail⟩] := by
  have hentry : ∀ i ≤ k, h'.extent ((ThroughputAllocRun.mk off n last cls).entry size (k + 1) sp i) =
      ⟨off + i * n, n + if i = k then tail else 0⟩ := by
    intro i hik
    have hmul := Nat.mul_le_mul_right n hik
    have hadd : add32 off (i * n % 2 ^ 32) = off + i * n := by
      rw [Nat.mod_eq_of_lt (by omega), add32_eq (by omega)]
    rw [ThroughputHeap.extent_congr hc]
    unfold ThroughputHeap.extent ThroughputAllocRun.entry
    dsimp only
    rw [Nat.add_sub_cancel, hadd, hlast]
    -- Only the last entry carries the mark, and only if there is a rest.
    have hmark : (i = k ∧ n + tail ≠ n) ↔ (if i = k then tail else 0) ≠ 0 := by
      split <;> omega
    simp only [hmark]
    exact congrArg (Extent.mk _) (handleAllocSize_newEntry _ hsc (by split <;> omega) (by split <;> omega))
  unfold ThroughputAllocRun.entries
  rw [range_succ, map_append, map_append, map_map]
  congr 1
  · refine map_congr_left fun i hi => ?_
    have hik := mem_range.1 hi
    rw [Function.comp_apply, hentry i (by omega), if_neg (by omega)]
    rfl
  · rw [map_singleton, map_singleton, hentry k (Nat.le_refl k), if_pos rfl]

theorem entries_slices {off tail last k : Nat} (hc : h'.classLimit = h.classLimit)
    (hsc : h.sizeClass size sp = .ok (n, cls)) (htail : tail = 0 ∨ tail = 16) (hlast : last = n + tail)
    (hoff : off % 16 = 0) (hlt : off + k * n + n + tail < 2 ^ 32) :
    Slices (((ThroughputAllocRun.mk off n last cls).entries size (k + 1) sp).map h'.extent)
      ⟨off, n * (k + 1) + tail⟩ := by
  have hsize : n * (k + 1) + tail = k * n + (n + tail) := by
    rw [Nat.mul_comm, Nat.succ_mul]
    omega
  have hmod := (sizeClass_bounds hsc).1
  have hmul (i : Nat) : i * n % 16 = 0 := by rw [Nat.mul_mod, hmod, Nat.mul_zero]
  have hk := hmul k
  rw [entries_extents hc hsc htail hlast hlt, hsize]
  refine ⟨fun hp => ?_, fun x hx => ?_, fun x hx => ?_⟩
  · rw [append_assoc]
    exact hp.slice
  · rcases mem_append.1 hx with hx | hx
    · obtain ⟨i, -, rfl⟩ := mem_map.1 hx
      have := hmul i
      exact ⟨by dsimp only; omega, hmod⟩
    · rw [mem_singleton.1 hx]
      exact ⟨by dsimp only; omega, by dsimp only; omega⟩
  · unfold Extent.stop
    rcases mem_append.1 hx with hx | hx
    · obtain ⟨i, hi, rfl⟩ := mem_map.1 hx
      have := Nat.mul_le_mul_right n (mem_range.1 hi)
      rw [Nat.succ_mul] at this
      exact ⟨by dsimp only; omega, by dsimp only; omega⟩
    · rw [mem_singleton.1 hx]
      exact ⟨by dsimp only; omega, by dsimp only; omega⟩

/-- A run takes one extent for all its entries, or nothing. -/
theorem FreeIndex.tryAllocRun {count : Nat} (hi : FreeIndex h t) (hlim : h.limit < 2 ^ 32)
    (hcount : count < 2 ^ 32) :
    Ends (tryAllocRun size count sp) h
      (fun r h' => (r = none ∧ h' = h) ∨ ∃ run t' a, r = some run ∧ Taken h h' t t' a ∧
        Slices ((run.entries size count sp).map h'.extent) a)
      (fun h' => h' = h) := by
  unfold Gc.tryAllocRun
  split
  · exact .of_ok rfl (.inl ⟨rfl, rfl⟩)
  · rename_i hargs
    refine .get_bind ?_
    split
    · exact .of_error rfl rfl
    · rename_i n cls hsc
      obtain ⟨hmod, hn⟩ := sizeClass_bounds hsc
      obtain ⟨k, rfl⟩ : ∃ k, count = k + 1 := ⟨count - 1, by omega⟩
      have hwide : n * (k + 1) < 2 ^ 64 :=
        Nat.lt_of_lt_of_le (Nat.mul_lt_mul_of_lt_of_lt hn hcount) (by decide)
      have hsplit : n * (k + 1) = k * n + n := by rw [Nat.mul_comm, Nat.succ_mul]
      have hmod' : n * (k + 1) % 16 = 0 := by rw [Nat.mul_mod, hmod, Nat.zero_mul]
      dsimp only
      rw [Nat.mod_eq_of_lt hwide]
      split
      · exact .of_ok rfl (.inl ⟨rfl, rfl⟩)
      · rcases hi.findSpan n with ⟨hnone, -⟩ | ⟨l₁, b, l₂, hl, -, hfit, hat⟩
        · rw [if_neg fun hne => hne hnone]
          split
          · exact .of_ok rfl (.inl ⟨rfl, rfl⟩)
          · rw [align16_of_mod hi.bump_mod hi.bump_lt]
            split
            · exact .of_ok rfl (.inl ⟨rfl, rfl⟩)
            · refine .of_ok rfl (.inr ⟨_, t, _, rfl, hi.grown hmod' (by omega), ?_⟩)
              exact entries_slices rfl hsc (.inl rfl) rfl hi.bump_mod (by omega)
        · rw [if_pos hat.valid, hat.size]
          split
          · exact .of_ok rfl (.inl ⟨rfl, rfl⟩)
          · rename_i hroom
            obtain ⟨h', t', tail, hrun, htail, hfits, htaken⟩ :=
              hi.consumeSpan hl hat (Nat.le_of_not_lt hroom) hmod' .indexChangedRunAllocation
            have hbtop := hi.top b (by simp [hl])
            have hbump := hi.bump_lt
            have hstop : b.stop = b.off + b.size := rfl
            refine .run_bind hrun (.of_ok rfl (.inr ⟨_, t', _, rfl, htaken, ?_⟩))
            exact entries_slices htaken.classLimit hsc htail (add32_eq (by omega))
              (hi.aligned b (by simp [hl])).1 (by omega)

end AllocRun

end Wago.Gc
