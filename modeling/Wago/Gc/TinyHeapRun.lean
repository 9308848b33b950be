/-
Histories of the Tiny heap. A history starts with the heap of a valid configuration and goes on with
allocations, releases and writes of an owner into its own span. At its every point the structures of
the heap describe one partition of the blocks, whose live spans are those that were allocated and not
released. So an allocation of at least one byte fails exactly when every free run is too short, and
what it returns does not overlap a live span.
-/
import Wago.Gc.TinyHeapSpec

namespace Wago.Gc

open Wago.Tiling (Piece Tiles)

/-! ## The new heap -/

/-- What the checks of a configuration establish. -/
theorem validateTinyConfig_ok {config : TinyConfig} (h : validateTinyConfig config = .ok ()) :
    8 ≤ config.blockBytes.toNat ∧ 0 < (config.heapBytes / config.blockBytes).toNat := by
  unfold validateTinyConfig at h
  dsimp only at h
  split at h
  · cases h
  split at h
  · cases h
  split at h
  · cases h
  split at h
  · cases h
  split at h
  · cases h
  split at h
  · cases h
  · rename_i hsmall _ _ hblocks
    rw [UInt32.lt_iff_toNat_lt] at hsmall
    refine ⟨Nat.le_of_not_lt hsmall, Nat.pos_of_ne_zero fun h0 => hblocks (.inl ?_)⟩
    exact UInt32.toNat_inj.1 h0

/-- The heap before its blocks are made a free span. -/
def blankTinyHeap (mem : Nat → UInt8) (blocks blockBytes : Nat) (poisonFreed : Bool) : TinyHeap :=
  { mem, blockCount := blocks, blockBytes, poisonFreed, spans := fun _ => 0, usedStarts := fun _ => 0,
    binHeads := fun _ => tinyNoBlock, binWords := fun _ => 0, binSummary := 0 }

section New

variable {mem : Nat → UInt8} {blocks blockBytes : Nat} {poisonFreed : Bool}

theorem blankTinyHeap_indexed :
    Indexed (blankTinyHeap mem blocks blockBytes poisonFreed) (fun _ _ => False) (fun _ => []) where
  linked _ := DList.Linked.empty _ _ _
  mem_iff _ _ := by simp
  bits bin := by simp [blankTinyHeap, Bitmap.get]
  summary k := by simp [blankTinyHeap]

/-- One free span of all blocks. -/
theorem newTinyHeap_inv (hbb : 8 ≤ blockBytes) (h0 : 0 < blocks) (hbytes : blocks * blockBytes < 2 ^ 32) :
    TinyInv (newTinyHeap mem blocks blockBytes poisonFreed) [⟨0, blocks, .free⟩] := by
  have hsized : Sized (blankTinyHeap mem blocks blockBytes poisonFreed) := ⟨hbb, hbytes⟩
  have hcount : (blankTinyHeap mem blocks blockBytes poisonFreed).blockCount = blocks := rfl
  have hlt := hsized.blockCount_lt
  have hs := TinyHeap.sameIndex_setSpan (h := blankTinyHeap mem blocks blockBytes poisonFreed)
    0 blocks false
  have hspans := TinyHeap.setSpan_spans (h := blankTinyHeap mem blocks blockBytes poisonFreed)
    (b := 0) (Nat.le_of_eq hcount.symm) (by omega) false
  have hused (c : Nat) : ((blankTinyHeap mem blocks blockBytes poisonFreed).setSpan 0 blocks
      false).isUsedStart c = _ := TinyHeap.setSpan_used false c
  have hblank (c : Nat) : (blankTinyHeap mem blocks blockBytes poisonFreed).isUsedStart c = false := by
    simp [blankTinyHeap, TinyHeap.isUsedStart, Bitmap.get]
  have hloose : Loose ((blankTinyHeap mem blocks blockBytes poisonFreed).setSpan 0 blocks false) []
      ⟨0, blocks, .free⟩ [] :=
    { sized := hsized.of_sameIndex hs
      tagged :=
        { tiles := ⟨rfl, h0, Nat.zero_add blocks⟩
          tags := fun p hp => by
            obtain rfl := List.mem_singleton.1 hp
            refine ⟨?_, ?_, fun b h₁ h₂ => ?_, ?_, fun b h₁ h₂ => ?_⟩
            · rw [hspans, if_pos (.inl rfl)]
            · rw [hspans, if_pos (.inr rfl)]
            · change 0 < b at h₁
              change b + 1 < 0 + blocks at h₂
              rw [hspans, if_neg (by omega)]
              rfl
            · rw [hused, if_pos rfl]
              rfl
            · rw [hused, if_neg (Nat.ne_of_gt h₁), hblank] }
      kind := rfl
      maximal := by simp
      indexed := ⟨_, (blankTinyHeap_indexed.of_sameIndex hs).of_iff fun b n => by simp [Free]⟩ }
  exact hloose.insert (by simp) (by simp)

theorem TinyConfig.newHeap_inv {config : TinyConfig} (hc : validateTinyConfig config = .ok ())
    (mem : Nat → UInt8) : TinyInv (config.newHeap mem)
      [⟨0, (config.heapBytes / config.blockBytes).toNat, .free⟩] := by
  obtain ⟨hbb, h0⟩ := validateTinyConfig_ok hc
  refine newTinyHeap_inv hbb h0 ?_
  rw [UInt32.toNat_div]
  exact Nat.lt_of_le_of_lt (Nat.div_mul_le_self _ _) config.heapBytes.toNat_lt

end New

/-! ## Histories -/

/-- A history of the heap, with the spans that are allocated at its end as offset and byte count. An
operation that fails leaves the heap as it is. -/
inductive TinyRun (config : TinyConfig) (mem : Nat → UInt8) : TinyHeap → List (Nat × Nat) → Prop
  | new : TinyRun config mem (config.newHeap mem) []
  | alloc {h h' live s} (size : UInt32) (hr : TinyRun config mem h live)
      (ha : h.alloc size = .ok (s, h')) : TinyRun config mem h' (s :: live)
  | free {h h' live} (off : UInt32) (hr : TinyRun config mem h live) (hf : h.free off = .ok h') :
      TinyRun config mem h' (live.filter (·.1 ≠ off.toNat))
  | freeWithoutPoison {h h' live} (off : UInt32) (hr : TinyRun config mem h live)
      (hf : h.freeWithoutPoison off = .ok h') :
      TinyRun config mem h' (live.filter (·.1 ≠ off.toNat))
  | write {h live s} (k : Nat) (v : UInt8) (hr : TinyRun config mem h live) (hs : s ∈ live)
      (hlo : s.1 ≤ k) (hhi : k < s.1 + s.2) :
      TinyRun config mem { h with mem := Function.update h.mem k v } live

/-- The bytes of a span. -/
def TinyHeap.extent (h : TinyHeap) (p : Span) : Nat × Nat :=
  (p.start * h.blockBytes, p.len * h.blockBytes)

/-- The heap's structures describe the partition `ps`, whose live spans are those allocated. -/
structure Accounts (h : TinyHeap) (live : List (Nat × Nat)) (ps : List Span) : Prop where
  inv : TinyInv h ps
  live_iff : ∀ s, s ∈ live ↔ ∃ p ∈ ps, p.kind = .live ∧ s = h.extent p

namespace Accounts

variable {h h' : TinyHeap} {live : List (Nat × Nat)} {ps : List Span}

theorem alloc {size : UInt32} {s : Nat × Nat} (ha : Accounts h live ps)
    (hok : h.alloc size = .ok (s, h')) : ∃ ps', Accounts h' (s :: live) ps' := by
  rcases ha.inv.alloc_cases size with ⟨-, he⟩ | ⟨-, -, he⟩ |
    ⟨-, pre, p, post, need, h₁, rfl, hk, -, -, -, he, hbb, hinv⟩
  · rw [he] at hok
    cases hok
  · rw [he] at hok
    cases hok
  · rw [he] at hok
    cases hok
    refine ⟨_, hinv, fun t => ?_⟩
    have hext : h'.extent = h.extent := by
      unfold TinyHeap.extent
      rw [hbb]
    -- What is left of the free run is free, and so was the run.
    have hrem : ∀ q ∈ remainder p need, q.kind = .free := by
      intro q hq
      unfold remainder at hq
      split at hq
      · cases hq
      · rw [List.mem_singleton.1 hq]
    rw [List.mem_cons, ha.live_iff, hext]
    constructor
    · rintro (rfl | ⟨q, hq, hql, rfl⟩)
      · exact ⟨⟨p.start, need, .live⟩, by simp, rfl, rfl⟩
      · refine ⟨q, ?_, hql, rfl⟩
        have := (mem_middle pre post (by simp [hql, hk])).1 hq
        simp only [List.mem_append, List.mem_cons] at this ⊢
        tauto
    · rintro ⟨q, hq, hql, rfl⟩
      simp only [List.mem_append, List.mem_cons] at hq
      rcases hq with (hq | rfl | hq) | hq
      · exact .inr ⟨q, by simp [hq], hql, rfl⟩
      · exact .inl rfl
      · rw [hrem q hq] at hql
        cases hql
      · exact .inr ⟨q, by simp [hq], hql, rfl⟩

theorem freeSpan {off : UInt32} {poison : Bool} (ha : Accounts h live ps)
    (hok : h.freeSpan off poison = .ok h') :
    ∃ ps', Accounts h' (live.filter (·.1 ≠ off.toNat)) ps' := by
  rcases ha.inv.freeSpan_cases off poison with ⟨-, e, he⟩ |
    ⟨p, hp, hk, hoff, h₁, ps', he, hbb, hinv, hlive⟩
  · rw [he] at hok
    cases hok
  · rw [he] at hok
    cases hok
    refine ⟨ps', hinv, fun t => ?_⟩
    have hext : h'.extent = h.extent := by
      unfold TinyHeap.extent
      rw [hbb]
    have hbb0 := ha.inv.sized.blockBytes
    rw [List.mem_filter, ha.live_iff, hext]
    constructor
    · rintro ⟨⟨q, hq, hql, rfl⟩, hne⟩
      refine ⟨q, (hlive q hql).2 ⟨hq, ?_⟩, hql, rfl⟩
      rintro rfl
      simp [TinyHeap.extent, hoff] at hne
    · rintro ⟨q, hq, hql, rfl⟩
      obtain ⟨hq, hqp⟩ := (hlive q hql).1 hq
      refine ⟨⟨q, hq, hql, rfl⟩, ?_⟩
      rw [← hoff]
      refine decide_eq_true fun he => ?_
      have hstart : q.start = p.start := Nat.eq_of_mul_eq_mul_right (by omega) he
      exact hqp (ha.inv.tagged.tiles.eq_of_start hq hp hstart)

theorem write {k : Nat} {v : UInt8} {s : Nat × Nat} (ha : Accounts h live ps) (hs : s ∈ live)
    (hlo : s.1 ≤ k) (hhi : k < s.1 + s.2) :
    Accounts { h with mem := Function.update h.mem k v } live ps := by
  obtain ⟨p, hp, hk, rfl⟩ := (ha.live_iff s).1 hs
  refine ⟨ha.inv.write_live hp hk fun j hj => Function.update_of_ne ?_ _ _, ha.live_iff⟩
  have hstop : p.stop * h.blockBytes = p.start * h.blockBytes + p.len * h.blockBytes := Nat.add_mul _ _ _
  change p.start * h.blockBytes ≤ k at hlo
  change k < p.start * h.blockBytes + p.len * h.blockBytes at hhi
  omega

end Accounts

theorem TinyRun.accounts {config : TinyConfig} {mem : Nat → UInt8} {h : TinyHeap}
    {live : List (Nat × Nat)} (hc : validateTinyConfig config = .ok ()) (hr : TinyRun config mem h live) :
    ∃ ps, Accounts h live ps := by
  induction hr with
  | new => exact ⟨_, TinyConfig.newHeap_inv hc mem, by simp⟩
  | alloc size _ hok ih =>
    obtain ⟨ps, ha⟩ := ih
    exact ha.alloc hok
  | free off _ hok ih =>
    obtain ⟨ps, ha⟩ := ih
    exact ha.freeSpan hok
  | freeWithoutPoison off _ hok ih =>
    obtain ⟨ps, ha⟩ := ih
    exact ha.freeSpan hok
  | write k v _ hs hlo hhi ih =>
    obtain ⟨ps, ha⟩ := ih
    exact ⟨ps, ha.write hs hlo hhi⟩

/-! ## Allocation at every point of a history -/

/-- What an allocation answers, in terms of the partition. -/
structure AllocExact (h : TinyHeap) (live : List (Nat × Nat)) (ps : List Span) : Prop where
  empty : h.alloc 0 = .error .sizeOverflow
  fails_iff : ∀ size, size ≠ 0 → ((∃ e, h.alloc size = .error e) ↔
    ∀ p ∈ ps, p.kind = .free → p.len * h.blockBytes < size.toNat)
  large : ∀ size s h', h.alloc size = .ok (s, h') → size.toNat ≤ s.2
  inside : ∀ size s h', h.alloc size = .ok (s, h') → s.1 + s.2 ≤ h.blockCount * h.blockBytes
  disjoint : ∀ size s h', h.alloc size = .ok (s, h') →
    ∀ t ∈ live, s.1 + s.2 ≤ t.1 ∨ t.1 + t.2 ≤ s.1

namespace Accounts

variable {h : TinyHeap} {live : List (Nat × Nat)} {ps : List Span}

theorem alloc_empty (ha : Accounts h live ps) : h.alloc 0 = .error .sizeOverflow := by
  rcases ha.inv.alloc_cases 0 with ⟨-, he⟩ | ⟨hpos, -⟩ | ⟨hpos, -⟩
  · exact he
  · exact absurd hpos (by decide)
  · exact absurd hpos (by decide)

theorem alloc_error_iff (ha : Accounts h live ps) {size : UInt32} (hsize : size ≠ 0) :
    (∃ e, h.alloc size = .error e) ↔ ∀ p ∈ ps, p.kind = .free → p.len * h.blockBytes < size.toNat := by
  rcases ha.inv.alloc_cases size with ⟨hz, -⟩ | ⟨-, hall, he⟩ |
    ⟨-, pre, p, post, need, h₁, rfl, hk, -, hle, hfit, he, -⟩
  · exact absurd (UInt32.toNat_inj.1 hz) hsize
  · exact iff_of_true ⟨_, he⟩ hall
  · refine iff_of_false (fun ⟨e, h₂⟩ => by rw [he] at h₂; cases h₂) fun hall => ?_
    have := hall p (by simp) hk
    have := Nat.mul_le_mul_right h.blockBytes hle
    omega

/-- A span that is allocated was part of a free run. -/
theorem alloc_ok {size : UInt32} {s : Nat × Nat} {h' : TinyHeap} (ha : Accounts h live ps)
    (hok : h.alloc size = .ok (s, h')) : ∃ p ∈ ps, p.kind = .free ∧ size.toNat ≤ s.2 ∧
      s.1 = p.start * h.blockBytes ∧ s.1 + s.2 ≤ p.stop * h.blockBytes := by
  rcases ha.inv.alloc_cases size with ⟨-, he⟩ | ⟨-, -, he⟩ |
    ⟨-, pre, p, post, need, h₁, rfl, hk, -, hle, hfit, he, -⟩
  · rw [he] at hok
    cases hok
  · rw [he] at hok
    cases hok
  · rw [he] at hok
    cases hok
    refine ⟨p, by simp, hk, hfit, rfl, ?_⟩
    change p.start * h.blockBytes + need * h.blockBytes ≤ (p.start + p.len) * h.blockBytes
    rw [← Nat.add_mul]
    exact Nat.mul_le_mul_right _ (by omega)

/-- Different spans of the partition do not overlap, nor do their bytes. -/
theorem extent_disjoint {p q : Span} (ha : Accounts h live ps) (hp : p ∈ ps) (hq : q ∈ ps)
    (hne : p ≠ q) : p.stop * h.blockBytes ≤ q.start * h.blockBytes ∨
      q.stop * h.blockBytes ≤ p.start * h.blockBytes := by
  have htiles := ha.inv.tagged.tiles
  have hpl := htiles.start_lt hp
  have hql := htiles.start_lt hq
  have hcut : p.stop ≤ q.start ∨ q.stop ≤ p.start := by
    by_contra hover
    exact hne (htiles.eq_of_overlap (b := max p.start q.start) hp hq (by omega) (by omega))
  exact hcut.imp (Nat.mul_le_mul_right _) (Nat.mul_le_mul_right _)

theorem allocExact (ha : Accounts h live ps) : AllocExact h live ps where
  empty := ha.alloc_empty
  fails_iff _ := ha.alloc_error_iff
  large _ _ _ hok := by
    obtain ⟨p, -, -, hfit, -⟩ := ha.alloc_ok hok
    exact hfit
  inside _ _ _ hok := by
    obtain ⟨p, hp, -, -, -, hstop⟩ := ha.alloc_ok hok
    exact Nat.le_trans hstop (Nat.mul_le_mul_right _ (ha.inv.tagged.tiles.bounds hp).2.2)
  disjoint _ _ _ hok t ht := by
    obtain ⟨p, hp, hk, -, hstart, hstop⟩ := ha.alloc_ok hok
    obtain ⟨q, hq, hql, rfl⟩ := (ha.live_iff t).1 ht
    have hne : p ≠ q := by
      rintro rfl
      rw [hk] at hql
      cases hql
    have hqs : q.stop * h.blockBytes = q.start * h.blockBytes + q.len * h.blockBytes := Nat.add_mul _ _ _
    have := ha.extent_disjoint hp hq hne
    unfold TinyHeap.extent
    dsimp only
    omega

end Accounts

/-- At every point of every history the tags, the bins, the bitmaps and the free lists describe one
partition into the live spans and maximal free runs. An allocation of at least one byte fails exactly
when no free run is long enough, and it returns bytes outside every live span. -/
theorem tiny_heap_partitioned {config : TinyConfig} {mem : Nat → UInt8} {h : TinyHeap}
    {live : List (Nat × Nat)} (hc : validateTinyConfig config = .ok ()) (hr : TinyRun config mem h live) :
    ∃ ps, Accounts h live ps ∧ AllocExact h live ps := by
  obtain ⟨ps, ha⟩ := hr.accounts hc
  exact ⟨ps, ha, ha.allocExact⟩

/-- Four blocks of sixteen bytes. -/
def smallTinyConfig : TinyConfig :=
  { heapBytes := 64, blockBytes := 16, pacingStepLimit := 1, poisonFreed := true }

theorem smallTinyConfig_valid : validateTinyConfig smallTinyConfig = .ok () := by rfl

theorem smallTinyConfig_accounts : Accounts (smallTinyConfig.newHeap fun _ => 0) [] [⟨0, 4, .free⟩] :=
  ⟨TinyConfig.newHeap_inv smallTinyConfig_valid _, by simp⟩

/-- The heap after its first allocation. -/
theorem tiny_heap_partitioned_small : ∃ h s, validateTinyConfig smallTinyConfig = .ok () ∧
    TinyRun smallTinyConfig (fun _ => 0) h [s] ∧ ∃ ps, Accounts h [s] ps ∧ AllocExact h [s] ps := by
  have hfits : ¬ ∃ e, (smallTinyConfig.newHeap fun _ => 0).alloc 10 = .error e := by
    rw [smallTinyConfig_accounts.alloc_error_iff (by decide)]
    intro hall
    exact absurd (hall _ (List.mem_singleton_self _) rfl) (by decide)
  cases ha : (smallTinyConfig.newHeap fun _ => 0).alloc 10 with
  | error e => exact absurd ⟨e, ha⟩ hfits
  | ok r =>
    have hr : TinyRun smallTinyConfig (fun _ => 0) r.2 [r.1] := .alloc 10 .new ha
    exact ⟨r.2, r.1, smallTinyConfig_valid, hr, tiny_heap_partitioned smallTinyConfig_valid hr⟩

/-- An empty request fails on a heap whose blocks are all free. -/
theorem tiny_heap_empty_request_fails : ∃ h ps, validateTinyConfig smallTinyConfig = .ok () ∧
    TinyRun smallTinyConfig (fun _ => 0) h [] ∧ Accounts h [] ps ∧
    (∃ p ∈ ps, p.kind = .free ∧ (0 : UInt32).toNat ≤ p.len * h.blockBytes) ∧
    h.alloc 0 = .error .sizeOverflow := by
  exact ⟨_, _, smallTinyConfig_valid, .new, smallTinyConfig_accounts,
    ⟨_, List.mem_singleton_self _, rfl, Nat.zero_le _⟩, smallTinyConfig_accounts.alloc_empty⟩

end Wago.Gc
