/-
Histories of the throughput heap: allocations, runs of allocations, releases, deferred releases,
reconciliation of one or of all pending spans, injected failures and transactions that are rolled
back. A transaction is begun with nothing pending, as its callers do, and holds allocations only. At
every point of a history the index is a balanced tree in address order whose spans, with the pending
and the live extents, cut the addresses below the bump.
-/
import Wago.Gc.ThroughputSteps

namespace Wago.Gc

open List

open Wago.Avl (AvlTree)
open Wago.Extents (Extent Apart Below Joins Packed Takes total)
open Run (Ends)

/-! ## The new heap -/

theorem ThroughputHeap.init_inv {cfg : ThroughputConfig} {h : ThroughputHeap}
    (hok : ThroughputHeap.init cfg = .ok h) : ThroughputInv h .nil [] := by
  unfold ThroughputHeap.init at hok
  dsimp only at hok
  split at hok
  · cases hok
  split at hok
  · cases hok
  split at hok
  · cases hok
  split at hok
  · cases hok
  · cases hok
    exact
      { index :=
          { index := ⟨[], rfl, trivial, trivial, rfl, .refl _, Nat.zero_le _, rfl⟩
            bytes := rfl, aligned := by simp [AvlTree.toList], spaced := .nil
            top := by simp [AvlTree.toList], bump_lt := Nat.two_pow_pos 32, bump_mod := rfl }
        packed := .nil, pending := by simp, pendingBytes := rfl, live_aligned := by simp
        limit_lt := cfg.heapBytes.toNat_lt }

/-! ## Transactions -/

/-- A transaction that was begun with the heap `h₀`, with its entries from the last to the first. -/
inductive TxRun (h₀ : ThroughputHeap) : ThroughputHeap → List HandleEntry → Prop
  | started : TxRun h₀ h₀ []
  | alloc {h h' es e} (size : UInt32) (sp : SpaceKind) (hs : TxRun h₀ h es)
      (hr : (throughputAlloc size sp).run h = .ok e h') : TxRun h₀ h' (e :: es)
  | allocFails {h h' es err} (size : UInt32) (sp : SpaceKind) (hs : TxRun h₀ h es)
      (hr : (throughputAlloc size sp).run h = .error err h') : TxRun h₀ h' es
  | allocRun {h h' es run} (size : UInt32) (count : Nat) (sp : SpaceKind) (hc : count < 2 ^ 32)
      (hs : TxRun h₀ h es) (hr : (tryAllocRun size count sp).run h = .ok (some run) h') :
      TxRun h₀ h' ((run.entries size count sp).reverse ++ es)
  | noRun {h h' es} (size : UInt32) (count : Nat) (sp : SpaceKind) (hc : count < 2 ^ 32)
      (hs : TxRun h₀ h es) (hr : (tryAllocRun size count sp).run h = .ok none h') : TxRun h₀ h' es
  | allocRunFails {h h' es err} (size : UInt32) (count : Nat) (sp : SpaceKind) (hc : count < 2 ^ 32)
      (hs : TxRun h₀ h es) (hr : (tryAllocRun size count sp).run h = .error err h') : TxRun h₀ h' es
  | arm {h es} (armed : Option (FailurePoint × Nat)) (hs : TxRun h₀ h es) :
      TxRun h₀ { h with armed } es

/-- The extents that a transaction took from the index. -/
def reused (h₀ : ThroughputHeap) (es : List HandleEntry) : List Extent :=
  (es.filter fun e => decide (e.off < h₀.bump)).map h₀.extent

/-- What was below the bump at the start is still cut by free spans, by what the transaction took of
them and by what was live before. -/
structure TxInv (h₀ h : ThroughputHeap) (t : SpanTree) (live : List Extent) (es : List HandleEntry) :
    Prop where
  index : FreeIndex h t
  packed : Packed h₀.bump (t.toList ++ (reused h₀ es ++ live))
  below : ∀ a ∈ t.toList, a.stop < h₀.bump
  taken : ∀ a ∈ reused h₀ es, a.off % 16 = 0 ∧ a.size % 16 = 0 ∧ a.stop < h₀.bump
  bump_le : h₀.bump ≤ h.bump
  limit : h.limit = h₀.limit
  classLimit : h.classLimit = h₀.classLimit
  pendingFree : h.pendingFree = []
  pendingBytes : h.pendingBytes = h₀.pendingBytes

section Transaction

variable {h₀ h h' : ThroughputHeap} {t t' : SpanTree} {live : List Extent} {es : List HandleEntry}

theorem reused_append (fresh : List HandleEntry) :
    reused h₀ (fresh ++ es) = reused h₀ fresh ++ reused h₀ es := by
  simp [reused]

theorem reused_of_lt {fresh : List HandleEntry} (hlt : ∀ e ∈ fresh, e.off < h₀.bump) :
    reused h₀ fresh = fresh.map h₀.extent := by
  unfold reused
  rw [filter_eq_self.2 fun e he => decide_eq_true (hlt e he)]

theorem reused_of_ge {fresh : List HandleEntry} (hge : ∀ e ∈ fresh, h₀.bump ≤ e.off) :
    reused h₀ fresh = [] := by
  unfold reused
  rw [filter_eq_nil_iff.2 fun e he => by simpa using hge e he]
  rfl

theorem TxInv.withArmed (hv : TxInv h₀ h t live es) (armed : Option (FailurePoint × Nat)) :
    TxInv h₀ { h with armed } t live es :=
  { hv with index := hv.index.frame h.memLen h.pendingBytes h.pendingFree armed }

/-- Entries that were allocated lie below the first bump, if they are from the index, or above. -/
theorem TxInv.alloc {fresh : List HandleEntry} {a : Extent} (hv : TxInv h₀ h t live es)
    (ht : Taken h h' t t' a) (hs : Slices (fresh.map h'.extent) a) :
    TxInv h₀ h' t' live (fresh ++ es) := by
  have hext : fresh.map h'.extent = fresh.map h₀.extent :=
    map_congr_left fun e _ => ThroughputHeap.extent_congr (ht.classLimit.trans hv.classLimit) e
  have hin : ∀ e ∈ fresh, a.off ≤ e.off ∧ (h'.extent e).stop ≤ a.stop := fun e he =>
    hs.inside _ (mem_map.2 ⟨e, he, rfl⟩)
  have hoff (e : HandleEntry) : e.off ≤ (h'.extent e).stop := Nat.le_add_right _ _
  have hb := hv.bump_le
  rcases ht.takes.inner_or_push with ⟨hbump, htakes, ⟨b, hbt, hab⟩, hstops⟩ | ⟨haoff, hbump, hlist⟩
  · have hbstop := hv.below b hbt
    have hreused : reused h₀ fresh = fresh.map h'.extent := by
      rw [hext]
      refine reused_of_lt fun e he => ?_
      have := (hin e he).2
      have := hoff e
      omega
    refine ⟨ht.index, ?_, fun x hx => ?_, fun x hx => ?_, ?_, ht.limit.trans hv.limit,
      ht.classLimit.trans hv.classLimit, ht.pendingFree.trans hv.pendingFree,
      ht.pendingBytes.trans hv.pendingBytes⟩
    · rw [reused_append, hreused, append_assoc]
      have hcut := hs.packed (((htakes h₀.bump).packed hv.packed).perm perm_middle)
      exact hcut.perm (perm_append_comm_assoc _ _ _)
    · obtain ⟨y, hy, heq⟩ := hstops x hx
      rw [heq]
      exact hv.below y hy
    · rw [reused_append, hreused] at hx
      rcases mem_append.1 hx with hx | hx
      · have := hs.inside x hx
        exact ⟨(hs.aligned x hx).1, (hs.aligned x hx).2, by omega⟩
      · exact hv.taken x hx
    · rw [hbump]
      exact hb
  · have hreused : reused h₀ (fresh ++ es) = reused h₀ es := by
      rw [reused_append, reused_of_ge fun e he => Nat.le_trans (haoff ▸ hb) (hin e he).1, nil_append]
    refine ⟨ht.index, ?_, ?_, ?_, Nat.le_trans hb hbump, ht.limit.trans hv.limit,
      ht.classLimit.trans hv.classLimit, ht.pendingFree.trans hv.pendingFree,
      ht.pendingBytes.trans hv.pendingBytes⟩
    · rw [hreused, hlist]
      exact hv.packed
    · rw [hlist]
      exact hv.below
    · rw [hreused]
      exact hv.taken

theorem TxInv.perm {es' : List HandleEntry} (hv : TxInv h₀ h t live es) (hp : es.Perm es') :
    TxInv h₀ h t live es' := by
  have hr : (reused h₀ es).Perm (reused h₀ es') := (hp.filter _).map _
  exact { hv with
    packed := hv.packed.perm ((hr.append_right _).append_left _)
    taken := fun a ha => hv.taken a (hr.mem_iff.2 ha) }

theorem TxRun.inv {t₀ : SpanTree} (hv : ThroughputInv h₀ t₀ live) (hp : h₀.pendingFree = [])
    (hs : TxRun h₀ h es) : ∃ t, TxInv h₀ h t live es := by
  induction hs with
  | started =>
    refine ⟨t₀, hv.index, ?_, hv.index.top, by simp [reused], Nat.le_refl _, rfl, rfl, hp, rfl⟩
    have := hv.packed
    rwa [hp] at this
  | @alloc h h' es e size sp _ hr ih =>
    obtain ⟨t, ih⟩ := ih
    obtain ⟨t', ht⟩ := (ih.index.throughputAlloc ih.pendingFree).ok_of_run hr
    have hone : Slices ([e].map h'.extent) (h'.extent e) := .single ht.aligned
    exact ⟨t', ih.alloc ht hone⟩
  | allocFails size sp _ hr ih =>
    obtain ⟨t, ih⟩ := ih
    obtain ⟨armed, rfl⟩ := (ih.index.throughputAlloc ih.pendingFree).err_of_run hr
    exact ⟨t, ih.withArmed armed⟩
  | allocRun size count sp hc _ hr ih =>
    obtain ⟨t, ih⟩ := ih
    rcases (ih.index.tryAllocRun (by rw [ih.limit]; exact hv.limit_lt) hc).ok_of_run hr with
      ⟨hnone, -⟩ | ⟨run, t', a, hrun, ht, hsl⟩
    · cases hnone
    · cases hrun
      exact ⟨t', (ih.alloc ht hsl).perm ((reverse_perm _).symm.append_right _)⟩
  | noRun size count sp hc _ hr ih =>
    obtain ⟨t, ih⟩ := ih
    rcases (ih.index.tryAllocRun (by rw [ih.limit]; exact hv.limit_lt) hc).ok_of_run hr with
      ⟨-, rfl⟩ | ⟨run, t', a, hrun, -⟩
    · exact ⟨t, ih⟩
    · cases hrun
  | allocRunFails size count sp hc _ hr ih =>
    obtain ⟨t, ih⟩ := ih
    have heq := (ih.index.tryAllocRun (by rw [ih.limit]; exact hv.limit_lt) hc).err_of_run hr
    rw [heq]
    exact ⟨t, ih⟩
  | arm armed _ ih =>
    obtain ⟨t, ih⟩ := ih
    exact ⟨t, ih.withArmed armed⟩

/-! ### Rollback -/

/-- A release puts the extent of the entry into the index or leaves the heap as it was. -/
theorem throughputFree_ends (e : HandleEntry) :
    Ends (throughputFree e) h
      (fun _ h' => 0 < (h.extent e).size ∧ h.insertFreeSpan (h.extent e) = .ok h') (fun h' => h' = h) := by
  cases hbad : h.badFree e with
  | true =>
    unfold throughputFree
    refine .get_bind ?_
    rw [hbad]
    exact .of_error rfl rfl
  | false =>
    have hpos : 0 < (h.extent e).size := by
      unfold ThroughputHeap.badFree at hbad
      simp only [decide_eq_false_iff_not, not_or] at hbad
      exact Nat.pos_of_ne_zero hbad.1
    have hrun := throughputFree_run hbad
    cases hins : h.insertFreeSpan (h.extent e) with
    | error err =>
      rw [hins] at hrun
      exact .of_error hrun rfl
    | ok h₁ =>
      rw [hins] at hrun
      exact .of_ok hrun ⟨hpos, rfl⟩

/-- Undoing the last entry. -/
theorem TxInv.rollbackSuccessfulAlloc {e : HandleEntry} {u : Unit} (hv : TxInv h₀ h t live (e :: es))
    (hr : (rollbackSuccessfulAlloc e h₀.bump).run h = .ok u h') : ∃ t', TxInv h₀ h' t' live es := by
  unfold Gc.rollbackSuccessfulAlloc at hr
  by_cases hge : e.off ≥ h₀.bump
  · rw [if_pos hge] at hr
    cases hr
    have hsame : reused h₀ (e :: es) = reused h₀ es := by
      rw [show e :: es = [e] ++ es from rfl, reused_append, reused_of_ge (by simpa using hge), nil_append]
    exact ⟨t, { hv with packed := hsame ▸ hv.packed, taken := hsame ▸ hv.taken }⟩
  · have hcons : reused h₀ (e :: es) = h.extent e :: reused h₀ es := by
      rw [show e :: es = [e] ++ es from rfl, reused_append,
        reused_of_lt (by simpa using Nat.lt_of_not_le hge), ThroughputHeap.extent_congr hv.classLimit]
      rfl
    rw [if_neg hge] at hr
    simp only [EStateM.run_bind, EStateM.run_get] at hr
    cases hfree : (throughputFree e).run h with
    | error err h₁ =>
      rw [hfree] at hr
      cases hr
    | ok u h₁ =>
      rw [hfree] at hr
      cases hr
      obtain ⟨hpos, hins⟩ := (throughputFree_ends e).ok_of_run hfree
      obtain ⟨ho, hs, hstop⟩ := hv.taken (h.extent e) (by rw [hcons]; simp)
      have hpacked := hv.packed
      rw [hcons] at hpacked
      have hapart : ∀ a ∈ t.toList, Apart a (h.extent e) := fun a ha =>
        (pairwise_append.1 hpacked.apart).2.2 a ha _ (by simp)
      have hb := hv.bump_le
      have hloose : Loose16 h t.toList (h.extent e) := ⟨ho, hs, hpos, by omega, hapart⟩
      obtain ⟨h₂, t', hok, hinserted⟩ := hv.index.insertFreeSpan hloose
      rw [hins] at hok
      cases hok
      obtain ⟨front, near, back, m, hpl, hcase⟩ := hinserted.placed
      have hbase := hinserted.base
      -- The joined span ends where one of its parts does, below the first bump.
      have hm : m.stop < h₀.bump := by
        obtain ⟨-, -, -, -, heq | ⟨s, hs', heq⟩⟩ := hpl.bounds hv.index.aligned ho hs hpos
        · omega
        · have := hv.below s hs'
          omega
      obtain ⟨-, hlist, hbump⟩ := hcase.resolve_right fun hc => by omega
      refine ⟨t', hinserted.index, ?_, fun a ha => ?_, fun a ha => hv.taken a (by rw [hcons]; simp [ha]), ?_,
        hbase.limit.trans hv.limit, hbase.classLimit.trans hv.classLimit,
        hbase.pendingFree.trans hv.pendingFree, hbase.pendingBytes.trans hv.pendingBytes⟩
      · rw [hlist]
        refine (hpl.packed hpacked).perm ?_
        simp only [append_assoc, cons_append]
        exact perm_middle.symm
      · rw [hlist] at ha
        rcases mem_append.1 ha with ha | ha
        · exact hv.below a (by rw [hpl.list]; simp [ha])
        · rcases mem_cons.1 ha with rfl | ha
          · exact hm
          · exact hv.below a (by rw [hpl.list]; simp [ha])
      · rw [hbump]
        exact hb

/-- A transaction that was undone leaves what was there before it. -/
theorem TxInv.rollback {t₀ : SpanTree} (hv₀ : ThroughputInv h₀ t₀ live) (hp : h₀.pendingFree = []) :
    ∀ {es : List HandleEntry} {h : ThroughputHeap} {t : SpanTree} {u : Unit}, TxInv h₀ h t live es →
    (rollback h₀.beginAllocTransaction es).run h = .ok u h' → ∃ t', ThroughputInv h' t' live
  | [], h, t, u, hv, hr => by
    cases hr
    refine ⟨t, hv.index.withBump h₀.memLen h.armed hv.below hv₀.index.bump_lt hv₀.index.bump_mod, ?_, ?_, ?_,
      hv₀.live_aligned, ?_⟩
    · have := hv.packed
      dsimp only
      rw [hv.pendingFree]
      exact this
    · dsimp only
      rw [hv.pendingFree]
      simp
    · dsimp only
      rw [hv.pendingFree, hv.pendingBytes, hv₀.pendingBytes, hp]
    · dsimp only
      rw [hv.limit]
      exact hv₀.limit_lt
  | e :: es, h, t, u, hv, hr => by
    obtain ⟨v, h₁, he, hrest⟩ := Run.bind_ok.1 hr
    obtain ⟨t₁, hv₁⟩ := hv.rollbackSuccessfulAlloc he
    exact hv₁.rollback hv₀ hp hrest

end Transaction

/-! ## Histories -/

/-- A history of the heap, with the extents that are live at its end. A release may fail for any
entry; one that succeeds is of an entry that stands for a live extent. -/
inductive ThroughputRun (cfg : ThroughputConfig) : ThroughputHeap → List Extent → Prop
  | new {h} (hi : ThroughputHeap.init cfg = .ok h) : ThroughputRun cfg h []
  | alloc {h h' live e} (size : UInt32) (sp : SpaceKind) (hs : ThroughputRun cfg h live)
      (hr : (throughputAlloc size sp).run h = .ok e h') : ThroughputRun cfg h' (h'.extent e :: live)
  | allocFails {h h' live err} (size : UInt32) (sp : SpaceKind) (hs : ThroughputRun cfg h live)
      (hr : (throughputAlloc size sp).run h = .error err h') : ThroughputRun cfg h' live
  | allocRun {h h' live run} (size : UInt32) (count : Nat) (sp : SpaceKind) (hc : count < 2 ^ 32)
      (hs : ThroughputRun cfg h live) (hr : (tryAllocRun size count sp).run h = .ok (some run) h') :
      ThroughputRun cfg h' ((run.entries size count sp).map h'.extent ++ live)
  | noRun {h h' live} (size : UInt32) (count : Nat) (sp : SpaceKind) (hc : count < 2 ^ 32)
      (hs : ThroughputRun cfg h live) (hr : (tryAllocRun size count sp).run h = .ok none h') :
      ThroughputRun cfg h' live
  | allocRunFails {h h' live err} (size : UInt32) (count : Nat) (sp : SpaceKind) (hc : count < 2 ^ 32)
      (hs : ThroughputRun cfg h live) (hr : (tryAllocRun size count sp).run h = .error err h') :
      ThroughputRun cfg h' live
  | free {h h' live rest e u} (hl : live.Perm (h.extent e :: rest)) (hs : ThroughputRun cfg h live)
      (hr : (throughputFree e).run h = .ok u h') : ThroughputRun cfg h' rest
  | freeFails {h h' live e err} (hs : ThroughputRun cfg h live)
      (hr : (throughputFree e).run h = .error err h') : ThroughputRun cfg h' live
  | deferFree {h h' live rest e u} (hl : live.Perm (h.extent e :: rest)) (hs : ThroughputRun cfg h live)
      (hr : (deferFree e).run h = .ok u h') : ThroughputRun cfg h' rest
  | deferFreeFails {h h' live e err} (hs : ThroughputRun cfg h live)
      (hr : (deferFree e).run h = .error err h') : ThroughputRun cfg h' live
  | sweepOne {h h' live u} (hs : ThroughputRun cfg h live) (hr : sweepOnePending.run h = .ok u h') :
      ThroughputRun cfg h' live
  | sweepOneFails {h h' live err} (hs : ThroughputRun cfg h live)
      (hr : sweepOnePending.run h = .error err h') : ThroughputRun cfg h' live
  | sweepAll {h h' live u} (hs : ThroughputRun cfg h live) (hr : sweepAllPending.run h = .ok u h') :
      ThroughputRun cfg h' live
  | sweepAllFails {h h' live err} (hs : ThroughputRun cfg h live)
      (hr : sweepAllPending.run h = .error err h') : ThroughputRun cfg h' live
  | arm {h live} (armed : Option (FailurePoint × Nat)) (hs : ThroughputRun cfg h live) :
      ThroughputRun cfg { h with armed } live
  | rollback {h₀ h h' live es u} (hs : ThroughputRun cfg h₀ live) (hp : h₀.pendingFree = [])
      (htx : TxRun h₀ h es) (hr : (rollback h₀.beginAllocTransaction es).run h = .ok u h') :
      ThroughputRun cfg h' live

theorem deferFree_error {h h' : ThroughputHeap} {e : HandleEntry} {err : ThroughputError}
    (hr : (deferFree e).run h = .error err h') : h' = h := by
  simp only [deferFree, EStateM.run_bind, EStateM.run_get] at hr
  cases hbad : h.badFree e with
  | true =>
    rw [hbad] at hr
    cases hr
    rfl
  | false =>
    rw [hbad] at hr
    cases hr

theorem ThroughputRun.inv {cfg : ThroughputConfig} {h : ThroughputHeap} {live : List Extent}
    (hr : ThroughputRun cfg h live) : ∃ t, ThroughputInv h t live := by
  induction hr with
  | new hi => exact ⟨.nil, ThroughputHeap.init_inv hi⟩
  | alloc size sp _ hr ih =>
    obtain ⟨t, ih⟩ := ih
    exact ih.throughputAlloc.ok_of_run hr
  | allocFails size sp _ hr ih =>
    obtain ⟨t, ih⟩ := ih
    exact ih.throughputAlloc.err_of_run hr
  | allocRun size count sp hc _ hr ih =>
    obtain ⟨t, ih⟩ := ih
    rcases (ih.index.tryAllocRun ih.limit_lt hc).ok_of_run hr with ⟨hnone, -⟩ | ⟨run, t', a, hrun, ht, hsl⟩
    · cases hnone
    · cases hrun
      exact ⟨t', ih.taken ht hsl⟩
  | noRun size count sp hc _ hr ih =>
    obtain ⟨t, ih⟩ := ih
    rcases (ih.index.tryAllocRun ih.limit_lt hc).ok_of_run hr with ⟨-, rfl⟩ | ⟨run, t', a, hrun, -⟩
    · exact ⟨t, ih⟩
    · cases hrun
  | allocRunFails size count sp hc _ hr ih =>
    obtain ⟨t, ih⟩ := ih
    have heq := (ih.index.tryAllocRun ih.limit_lt hc).err_of_run hr
    rw [heq]
    exact ⟨t, ih⟩
  | free hl _ hr ih =>
    obtain ⟨t, ih⟩ := ih
    rcases ih.throughputFree hl with ⟨-, he⟩ | ⟨h', t', hok, hv⟩
    · rw [he] at hr
      cases hr
    · rw [hok] at hr
      cases hr
      exact ⟨t', hv⟩
  | freeFails _ hr ih =>
    rw [(throughputFree_ends _).err_of_run hr]
    exact ih
  | deferFree hl _ hr ih =>
    obtain ⟨t, ih⟩ := ih
    rcases ih.deferFree hl with ⟨-, he⟩ | ⟨h', t', hok, hv⟩
    · rw [he] at hr
      cases hr
    · rw [hok] at hr
      cases hr
      exact ⟨t', hv⟩
  | deferFreeFails _ hr ih =>
    rw [deferFree_error hr]
    exact ih
  | sweepOne _ hr ih =>
    obtain ⟨t, ih⟩ := ih
    exact (ih.sweepOnePending.ok_of_run hr).1
  | sweepOneFails _ hr ih =>
    obtain ⟨t, ih⟩ := ih
    exact ih.sweepOnePending.err_of_run hr
  | sweepAll _ hr ih =>
    obtain ⟨t, ih⟩ := ih
    exact ih.sweepAllPending.ok_of_run hr
  | sweepAllFails _ hr ih =>
    obtain ⟨t, ih⟩ := ih
    exact ih.sweepAllPending.err_of_run hr
  | arm armed _ ih =>
    obtain ⟨t, ih⟩ := ih
    exact ⟨t, ih.withArmed armed⟩
  | rollback _ hp htx hr ih =>
    obtain ⟨t₀, hv₀⟩ := ih
    obtain ⟨t, hv⟩ := htx.inv hv₀ hp
    exact hv.rollback hv₀ hp hr

/-! ## What holds at every point -/

/-- The arena of the heap holds the tree `t`, with its heights and its largest sizes, and the spans of
`t` and the other extents are where they should be. -/
structure ThroughputValid (h : ThroughputHeap) (t : SpanTree) (live : List Extent) : Prop where
  root : h.spanRoot = rootSlot t
  exact : SpanNodes.Rep h.spanNodes t
  balanced : t.Balanced
  ordered : AvlTree.Sorted Extent.off t.toList
  aligned : ∀ a ∈ t.toList, a.off % 16 = 0 ∧ a.size % 16 = 0 ∧ 0 < a.size
  coalesced : t.toList.Pairwise fun a b => a.stop < b.off
  below_bump : ∀ a ∈ t.toList, a.stop < h.bump
  apart_pending : ∀ a ∈ t.toList, ∀ b ∈ h.pendingFree, Apart a b
  apart_live : ∀ a ∈ t.toList, ∀ b ∈ live, Apart a b
  others_apart : (h.pendingFree ++ live).Pairwise Apart
  freeBytes : h.freeBytes = total t.toList
  pendingBytes : h.pendingBytes = total h.pendingFree
  bytes : total live + h.freeBytes + h.pendingBytes = h.bump

theorem ThroughputInv.valid {h : ThroughputHeap} {t : SpanTree} {live : List Extent}
    (hv : ThroughputInv h t live) : ThroughputValid h t live := by
  obtain ⟨fl, hidx⟩ := hv.index.index
  obtain ⟨-, hothers, hcross⟩ := pairwise_append.1 hv.packed.apart
  refine ⟨hidx.root, hidx.rep, hidx.balanced, hv.index.sorted, hv.index.aligned, hv.index.spaced,
    hv.index.top, fun a ha b hb => hcross a ha b (by simp [hb]), fun a ha b hb => hcross a ha b (by simp [hb]),
    hothers, hv.index.bytes, hv.pendingBytes, ?_⟩
  have htotal := hv.packed.total_eq
  rw [Extents.total_append, Extents.total_append] at htotal
  rw [hv.index.bytes, hv.pendingBytes]
  omega

/-- At every point of every history the index is valid and every byte below the bump is free, pending
or live. -/
theorem throughput_heap_partitioned {cfg : ThroughputConfig} {h : ThroughputHeap} {live : List Extent}
    (hr : ThroughputRun cfg h live) : ∃ t, ThroughputValid h t live := by
  obtain ⟨t, hv⟩ := hr.inv
  exact ⟨t, hv.valid⟩

def smallThroughputConfig : ThroughputConfig :=
  { heapBytes := 4096, pageBytes := 4096, classLimit := 32 }

/-- A transaction takes a part of a hole and bytes behind all spans, and is rolled back; then the entry
`e` is freed later. -/
def undoneThenDeferred (tx : ThroughputAllocTransaction) (e : HandleEntry) :
    ThroughputM (List Nat × Extent × List Extent × Nat × Nat) := do
  let e₁ ← throughputAlloc 32 .old
  let e₂ ← throughputAlloc 128 .large
  rollback tx [e₂, e₁]
  let h ← get
  deferFree e
  let h' ← get
  return ([e₁.off, e₂.off], h.extent e, h'.pendingFree, h'.freeBytes, h'.bump)

theorem throughput_heap_partitioned_hole : ∃ h₀ h₁ h₂ h e₁ e₂ live,
    ThroughputRun smallThroughputConfig h₀ [⟨96, 32⟩, ⟨0, 32⟩] ∧ h₀.freeBytes = 64 ∧
    TxRun h₀ h₁ [e₂, e₁] ∧ e₁.off = 32 ∧ e₂.off = 128 ∧
    (rollback h₀.beginAllocTransaction [e₂, e₁]).run h₁ = .ok () h₂ ∧
    (deferFree (newEntry 0 32 0 .old)).run h₂ = .ok () h ∧ ThroughputRun smallThroughputConfig h live ∧
    h.freeBytes = 64 ∧ h.pendingFree = [⟨0, 32⟩] ∧ live = [⟨96, 32⟩] ∧ h.bump = 128 ∧
    ∃ t, ThroughputValid h t live := by
  have hfirst := ThroughputRun.alloc 32 .old
    (.new (show ThroughputHeap.init smallThroughputConfig = .ok _ from rfl)) rfl
  have hsecond := ThroughputRun.alloc 64 .large hfirst rfl
  have hthird := ThroughputRun.alloc 32 .old hsecond rfl
  obtain ⟨h₀, hhole, hbytes, hpending, hreturns⟩ : ∃ h₀,
      ThroughputRun smallThroughputConfig h₀ [⟨96, 32⟩, ⟨0, 32⟩] ∧ h₀.freeBytes = 64 ∧ h₀.pendingFree = [] ∧
      Run.returns (undoneThenDeferred h₀.beginAllocTransaction (newEntry 0 32 0 .old)) h₀
        ([32, 128], ⟨0, 32⟩, [⟨0, 32⟩], 64, 128) = true :=
    ⟨_, .free (e := newEntry 32 64 18 .large) (.swap _ _ _) hthird rfl, rfl, rfl, by decide +kernel⟩
  obtain ⟨h, hrun⟩ := Run.exists_of_returns hreturns
  obtain ⟨e₁, g₁, hone, hrun⟩ := Run.bind_ok.1 hrun
  obtain ⟨e₂, h₁, htwo, hrun⟩ := Run.bind_ok.1 hrun
  obtain ⟨_, h₂, hback, hrun⟩ := Run.bind_ok.1 hrun
  obtain ⟨_, _, hget, hrun⟩ := Run.bind_ok.1 hrun
  cases hget
  obtain ⟨_, h₃, hdefer, hrun⟩ := Run.bind_ok.1 hrun
  obtain ⟨_, _, hget, hrun⟩ := Run.bind_ok.1 hrun
  cases hget
  obtain ⟨hvalue, rfl⟩ := EStateM.Result.ok.inj hrun
  simp only [Prod.mk.injEq, List.cons.injEq, and_true] at hvalue
  obtain ⟨⟨hoff₁, hoff₂⟩, hextent, hpending', hbytes', hbump⟩ := hvalue
  have htx : TxRun h₀ h₁ [e₂, e₁] := .alloc 128 .large (.alloc 32 .old .started hone) htwo
  have hr := ThroughputRun.deferFree (by rw [hextent]; exact .swap _ _ _)
    (.rollback hhole hpending htx hback) hdefer
  exact ⟨h₀, h₁, h₂, _, e₁, e₂, _, hhole, hbytes, htx, hoff₁, hoff₂, hback, hdefer, hr, hbytes', hpending', rfl,
    hbump, throughput_heap_partitioned hr⟩
/-- A transaction that is begun with a release pending: the allocation reconciles the span, which
lowers the bump, and the rollback raises the bump again. Nothing is live, free or pending, and the
bump is 32. -/
theorem rollback_over_pending_loses_bytes : ∃ h₀ h h' es, ThroughputRun smallThroughputConfig h₀ [] ∧
    TxRun h₀ h es ∧ (rollback h₀.beginAllocTransaction es).run h = .ok () h' ∧
    total [] + h'.freeBytes + h'.pendingBytes ≠ h'.bump := by
  have halloc := ThroughputRun.alloc 32 .old
    (.new (show ThroughputHeap.init smallThroughputConfig = .ok _ from rfl)) rfl
  have hdefer := ThroughputRun.deferFree (.refl _) halloc rfl
  exact ⟨_, _, _, _, hdefer, .alloc 64 .large .started rfl, rfl, by decide⟩

end Wago.Gc
