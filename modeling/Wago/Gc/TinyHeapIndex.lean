/-
The free index of the Tiny heap: size bins that grow with the size, a doubly linked list for each bin
and two levels of bitmaps over the bins. Insertion and removal keep the three in agreement, so the
search finds a span exactly when one is long enough.
-/
import Mathlib.Tactic.Common
import Wago.Gc.TinyHeap
import Wago.Lib.DList
import Wago.Lib.Ring

namespace Wago.Gc

open List Function

open Wago.DList (Linked)

/-! ## Size bins -/

theorem two_pow_log2_le {size : Nat} (h : 64 < size) : 64 ≤ 2 ^ Nat.log2 size ∧ 2 ^ Nat.log2 size ≤ size ∧
    size < 2 * 2 ^ Nat.log2 size := by
  have hne : size ≠ 0 := by omega
  have hlo := Nat.log2_self_le hne
  have hhi := Nat.lt_log2_self (n := size)
  have h6 : 6 ≤ Nat.log2 size := (Nat.le_log2 hne).2 (by omega)
  have hpow : 2 ^ 6 ≤ 2 ^ Nat.log2 size := Nat.pow_le_pow_right (by decide) h6
  rw [Nat.pow_succ] at hhi
  omega

/-- The bin of a large size, with the shifts written as a division. -/
theorem tinyBinForSize_large {size : Nat} (h : 64 < size) :
    tinyBinForSize size =
      64 + (Nat.log2 size - 6) * 8 + (size - 2 ^ Nat.log2 size) / (2 ^ Nat.log2 size / 8) := by
  unfold tinyBinForSize
  rw [if_neg (by simp only [tinyExactBins]; omega)]
  simp [tinyExactBins, tinySecondLevelBins, tinySecondLevelBits, Nat.one_shiftLeft,
    Nat.shiftRight_eq_div_pow]

theorem secondLevel_le {size : Nat} (h : 64 < size) :
    (size - 2 ^ Nat.log2 size) / (2 ^ Nat.log2 size / 8) ≤ 7 := by
  obtain ⟨h64, hle, hlt⟩ := two_pow_log2_le h
  have h6 : 6 ≤ Nat.log2 size := (Nat.le_log2 (by omega)).2 (by omega)
  obtain ⟨k, hk⟩ : ∃ k, 2 ^ Nat.log2 size = 8 * k := ⟨2 ^ (Nat.log2 size - 3), by
    rw [show (8 : Nat) = 2 ^ 3 from rfl, ← Nat.pow_add]; congr 1; omega⟩
  have hk0 : 0 < k := by omega
  rw [hk, Nat.mul_div_cancel_left k (by decide), ← Nat.lt_succ_iff, Nat.div_lt_iff_lt_mul hk0]
  omega

theorem log2_le_log2 {m n : Nat} (hm : m ≠ 0) (h : m ≤ n) : Nat.log2 m ≤ Nat.log2 n :=
  (Nat.le_log2 (by omega)).2 (Nat.le_trans (Nat.log2_self_le hm) h)

/-- Larger spans are in later bins, or in the same one. -/
theorem tinyBinForSize_mono {m n : Nat} (h : m ≤ n) : tinyBinForSize m ≤ tinyBinForSize n := by
  rcases Nat.lt_or_ge 64 m with hm | hm
  · have hn : 64 < n := by omega
    have hsl := secondLevel_le hm
    have h6 : 6 ≤ Nat.log2 m := (Nat.le_log2 (by omega)).2 (by omega)
    rw [tinyBinForSize_large hm, tinyBinForSize_large hn]
    rcases Nat.lt_or_eq_of_le (log2_le_log2 (by omega) h) with hlt | heq
    · generalize (n - 2 ^ Nat.log2 n) / (2 ^ Nat.log2 n / 8) = q
      omega
    · rw [heq]
      have := Nat.div_le_div_right (c := 2 ^ Nat.log2 n / 8) (Nat.sub_le_sub_right h (2 ^ Nat.log2 n))
      omega
  · have hsmall : tinyBinForSize m = m - 1 := if_pos hm
    rcases Nat.lt_or_ge 64 n with hn | hn
    · rw [hsmall, tinyBinForSize_large hn]
      generalize (n - 2 ^ Nat.log2 n) / (2 ^ Nat.log2 n / 8) = q
      omega
    · rw [hsmall, show tinyBinForSize n = n - 1 from if_pos hn]
      omega

theorem tinyBinForSize_lt {n : Nat} (h : n < 2 ^ 32) : tinyBinForSize n < 272 := by
  rcases Nat.lt_or_ge 64 n with hn | hn
  · rw [tinyBinForSize_large hn]
    have hsl := secondLevel_le hn
    have hlog : Nat.log2 n < 32 := (Nat.log2_lt (by omega)).2 h
    omega
  · rw [show tinyBinForSize n = n - 1 from if_pos hn]
    omega

/-! ## Links -/

namespace TinyHeap

variable {h : TinyHeap}

theorem read32_lt (m : Nat → UInt8) (off : Nat) : ByteMem.read32 m off < 2 ^ 32 := by
  have h0 := (m off).toNat_lt
  have h1 := (m (off + 1)).toNat_lt
  have h2 := (m (off + 2)).toNat_lt
  have h3 := (m (off + 3)).toNat_lt
  unfold ByteMem.read32
  omega

/-- Link words of different blocks do not overlap. -/
theorem link_disjoint {bb b c : Nat} (hbb : 8 ≤ bb) (h : c ≠ b) :
    c * bb + 8 ≤ b * bb ∨ b * bb + 8 ≤ c * bb := by
  rcases Nat.lt_or_gt_of_ne h with hlt | hlt
  · left
    have := Nat.mul_le_mul_right bb hlt
    rw [Nat.succ_mul] at this
    omega
  · right
    have := Nat.mul_le_mul_right bb hlt
    rw [Nat.succ_mul] at this
    omega

/-- Two heaps with the same tags: they differ in memory, links and bins at most. -/
structure SameTags (h h' : TinyHeap) : Prop where
  spans : h'.spans = h.spans
  usedStarts : h'.usedStarts = h.usedStarts
  blockCount : h'.blockCount = h.blockCount
  blockBytes : h'.blockBytes = h.blockBytes
  poisonFreed : h'.poisonFreed = h.poisonFreed

theorem SameTags.refl (h : TinyHeap) : SameTags h h := ⟨rfl, rfl, rfl, rfl, rfl⟩

theorem SameTags.trans {h₁ h₂ h₃ : TinyHeap} (a : SameTags h₁ h₂) (b : SameTags h₂ h₃) :
    SameTags h₁ h₃ :=
  ⟨b.spans.trans a.spans, b.usedStarts.trans a.usedStarts, b.blockCount.trans a.blockCount,
    b.blockBytes.trans a.blockBytes, b.poisonFreed.trans a.poisonFreed⟩

/-- Two heaps with the same links and bins: they differ in the tags at most. -/
structure SameIndex (h h' : TinyHeap) : Prop where
  mem : h'.mem = h.mem
  binHeads : h'.binHeads = h.binHeads
  binWords : h'.binWords = h.binWords
  binSummary : h'.binSummary = h.binSummary
  blockCount : h'.blockCount = h.blockCount
  blockBytes : h'.blockBytes = h.blockBytes
  poisonFreed : h'.poisonFreed = h.poisonFreed

theorem SameIndex.trans {h₁ h₂ h₃ : TinyHeap} (a : SameIndex h₁ h₂) (b : SameIndex h₂ h₃) :
    SameIndex h₁ h₃ :=
  ⟨b.mem.trans a.mem, b.binHeads.trans a.binHeads, b.binWords.trans a.binWords,
    b.binSummary.trans a.binSummary, b.blockCount.trans a.blockCount,
    b.blockBytes.trans a.blockBytes, b.poisonFreed.trans a.poisonFreed⟩

theorem sameIndex_setUsedStart (b : Nat) (used : Bool) : SameIndex h (h.setUsedStart b used) :=
  ⟨rfl, rfl, rfl, rfl, rfl, rfl, rfl⟩

theorem sameIndex_setSpan (b size : Nat) (used : Bool) : SameIndex h (h.setSpan b size used) :=
  ⟨rfl, rfl, rfl, rfl, rfl, rfl, rfl⟩

theorem sameIndex_clearSpan (b size : Nat) : SameIndex h (h.clearSpan b size) := by
  unfold clearSpan
  dsimp only
  split <;> exact ⟨rfl, rfl, rfl, rfl, rfl, rfl, rfl⟩

theorem sameTags_markBin (bin : Nat) (v : Bool) : SameTags h (h.markBin bin v) := by
  unfold markBin
  dsimp only
  split_ifs <;> exact ⟨rfl, rfl, rfl, rfl, rfl⟩

theorem sameTags_setFreeLinks (b next prev : Nat) : SameTags h (h.setFreeLinks b next prev) :=
  ⟨rfl, rfl, rfl, rfl, rfl⟩

theorem sameTags_setBinHead (bin b : Nat) : SameTags h (h.setBinHead bin b) := ⟨rfl, rfl, rfl, rfl, rfl⟩

theorem nextFree_lt (h : TinyHeap) (b : Nat) : h.nextFree b < 2 ^ 32 := read32_lt _ _

theorem prevFree_lt (h : TinyHeap) (b : Nat) : h.prevFree b < 2 ^ 32 := read32_lt _ _

theorem markBin_links (bin : Nat) (v : Bool) :
    (h.markBin bin v).mem = h.mem ∧ (h.markBin bin v).binHeads = h.binHeads := by
  unfold markBin
  dsimp only
  split_ifs <;> exact ⟨rfl, rfl⟩

theorem markBin_nextFree (bin : Nat) (v : Bool) : (h.markBin bin v).nextFree = h.nextFree := by
  unfold nextFree
  rw [(markBin_links bin v).1, (sameTags_markBin bin v).blockBytes]

theorem markBin_prevFree (bin : Nat) (v : Bool) : (h.markBin bin v).prevFree = h.prevFree := by
  unfold prevFree
  rw [(markBin_links bin v).1, (sameTags_markBin bin v).blockBytes]

theorem markBin_words (bin : Nat) (v : Bool) :
    (h.markBin bin v).binWords = Bitmap.put h.binWords bin v := by
  unfold markBin
  cases v with
  | true => rfl
  | false =>
    dsimp only
    split_ifs <;> rfl

theorem markBin_summarizes {bin : Nat} (v : Bool) (hbin : bin / 64 < 64)
    (hs : Bitmap.Summarizes h.binWords h.binSummary) :
    Bitmap.Summarizes (h.markBin bin v).binWords (h.markBin bin v).binSummary := by
  rw [markBin_words]
  cases v with
  | true => exact hs.put_true hbin
  | false =>
    have hfalse := hs.put_false hbin
    have hsum : (h.markBin bin false).binSummary =
        if Bitmap.put h.binWords bin false (bin / 64) = 0 then Bitmap.setBit h.binSummary (bin / 64) false
        else h.binSummary := by
      unfold markBin
      dsimp only
      split_ifs <;> first | rfl | contradiction
    rwa [hsum]

variable (hbb : 8 ≤ h.blockBytes) {b next prev : Nat}

include hbb

theorem setFreeLinks_nextFree (hn : next < 2 ^ 32) :
    (h.setFreeLinks b next prev).nextFree = Function.update h.nextFree b next := by
  funext c
  by_cases hc : c = b
  · subst hc
    rw [update_self]
    change ByteMem.read32 _ (c * h.blockBytes) = next
    rw [setFreeLinks, ByteMem.read32_write32_of_disjoint (by omega), ByteMem.read32_write32 _ _ hn]
  · rw [update_of_ne hc]
    have hd := link_disjoint hbb hc
    change ByteMem.read32 _ (c * h.blockBytes) = ByteMem.read32 _ _
    rw [setFreeLinks, ByteMem.read32_write32_of_disjoint (by omega),
      ByteMem.read32_write32_of_disjoint (by omega)]

theorem setFreeLinks_prevFree (hp : prev < 2 ^ 32) :
    (h.setFreeLinks b next prev).prevFree = Function.update h.prevFree b prev := by
  funext c
  by_cases hc : c = b
  · subst hc
    rw [update_self]
    change ByteMem.read32 _ (c * h.blockBytes + 4) = prev
    rw [setFreeLinks, ByteMem.read32_write32 _ _ hp]
  · rw [update_of_ne hc]
    have hd := link_disjoint hbb hc
    change ByteMem.read32 _ (c * h.blockBytes + 4) = ByteMem.read32 _ _
    rw [setFreeLinks, ByteMem.read32_write32_of_disjoint (by omega),
      ByteMem.read32_write32_of_disjoint (by omega)]

omit hbb in
theorem sameTags_insertFree (b size : Nat) : SameTags h (h.insertFree b size) := by
  unfold insertFree
  dsimp only
  refine .trans (.trans ?_ (sameTags_setBinHead _ b)) (sameTags_markBin _ _)
  split
  · exact (sameTags_setFreeLinks _ _ _).trans (sameTags_setFreeLinks _ _ _)
  · exact sameTags_setFreeLinks _ _ _

theorem insertFree_nextFree (size : Nat) (hhead : h.binHeads (tinyBinForSize size) < 2 ^ 32) :
    (h.insertFree b size).nextFree =
      Function.update h.nextFree b (h.binHeads (tinyBinForSize size)) := by
  unfold insertFree
  dsimp only
  rw [markBin_nextFree]
  split
  · change (TinyHeap.setFreeLinks _ _ _ _).nextFree = _
    rw [setFreeLinks_nextFree (by exact hbb) (nextFree_lt _ _), update_eq_self,
      setFreeLinks_nextFree hbb hhead]
  · exact setFreeLinks_nextFree hbb hhead

theorem insertFree_prevFree (size : Nat) (hb : b < 2 ^ 32) : (h.insertFree b size).prevFree =
    DList.Linked.pushPrev h.prevFree tinyNoBlock (h.binHeads (tinyBinForSize size)) b := by
  unfold insertFree DList.Linked.pushPrev
  dsimp only
  rw [markBin_prevFree, ite_not]
  split
  · exact setFreeLinks_prevFree hbb (by decide)
  · change (TinyHeap.setFreeLinks _ _ _ _).prevFree = _
    rw [setFreeLinks_prevFree (by exact hbb) hb, setFreeLinks_prevFree hbb (by decide)]

omit hbb in
theorem insertFree_binHeads (b size : Nat) :
    (h.insertFree b size).binHeads = Function.update h.binHeads (tinyBinForSize size) b := by
  unfold insertFree
  dsimp only
  rw [(markBin_links _ _).2]
  split <;> rfl

omit hbb in
theorem insertFree_binWords (b size : Nat) :
    (h.insertFree b size).binWords = Bitmap.put h.binWords (tinyBinForSize size) true := by
  unfold insertFree
  dsimp only
  rw [markBin_words]
  split <;> rfl

omit hbb in
theorem insertFree_summarizes {size : Nat} (b : Nat) (hs : Bitmap.Summarizes h.binWords h.binSummary)
    (hbin : tinyBinForSize size / 64 < 64) :
    Bitmap.Summarizes (h.insertFree b size).binWords (h.insertFree b size).binSummary := by
  unfold insertFree
  dsimp only
  apply markBin_summarizes true hbin
  split <;> exact hs

/-! ### Removing -/

section Bypass

variable {bin : Nat}

omit hbb in
theorem sameTags_bypassPrev : SameTags h (h.bypassPrev bin next prev) := by
  unfold bypassPrev
  split
  · exact sameTags_setBinHead _ _
  · exact sameTags_setFreeLinks _ _ _

omit hbb in
theorem sameTags_bypassNext : SameTags h (h.bypassNext next prev) := by
  unfold bypassNext
  split
  · exact sameTags_setFreeLinks _ _ _
  · exact .refl h

omit hbb in
theorem sameTags_unmarkEmptyBin : SameTags h (h.unmarkEmptyBin bin) := by
  unfold unmarkEmptyBin
  split
  · exact sameTags_markBin _ _
  · exact .refl h

omit hbb in
theorem unmarkEmptyBin_links : (h.unmarkEmptyBin bin).nextFree = h.nextFree ∧
    (h.unmarkEmptyBin bin).prevFree = h.prevFree ∧ (h.unmarkEmptyBin bin).binHeads = h.binHeads := by
  unfold unmarkEmptyBin
  split
  · exact ⟨markBin_nextFree _ _, markBin_prevFree _ _, (markBin_links _ _).2⟩
  · exact ⟨rfl, rfl, rfl⟩

theorem bypassPrev_nextFree (hn : next < 2 ^ 32) : (h.bypassPrev bin next prev).nextFree =
    if prev = tinyNoBlock then h.nextFree else Function.update h.nextFree prev next := by
  unfold bypassPrev
  split
  · rfl
  · exact setFreeLinks_nextFree hbb hn

theorem bypassPrev_prevFree : (h.bypassPrev bin next prev).prevFree = h.prevFree := by
  unfold bypassPrev
  split
  · rfl
  · rw [setFreeLinks_prevFree hbb (prevFree_lt _ _), update_eq_self]

theorem bypassNext_nextFree : (h.bypassNext next prev).nextFree = h.nextFree := by
  unfold bypassNext
  split
  · rw [setFreeLinks_nextFree hbb (nextFree_lt _ _), update_eq_self]
  · rfl

theorem bypassNext_prevFree (hp : prev < 2 ^ 32) : (h.bypassNext next prev).prevFree =
    if next = tinyNoBlock then h.prevFree else Function.update h.prevFree next prev := by
  unfold bypassNext
  rw [ite_not]
  split
  · rfl
  · exact setFreeLinks_prevFree hbb hp

omit hbb in
theorem bypassPrev_bins : (h.bypassPrev bin next prev).binHeads =
      (if prev = tinyNoBlock then Function.update h.binHeads bin next else h.binHeads) ∧
    (h.bypassPrev bin next prev).binWords = h.binWords ∧
    (h.bypassPrev bin next prev).binSummary = h.binSummary := by
  unfold bypassPrev
  split <;> exact ⟨rfl, rfl, rfl⟩

omit hbb in
theorem bypassNext_bins : (h.bypassNext next prev).binHeads = h.binHeads ∧
    (h.bypassNext next prev).binWords = h.binWords ∧
    (h.bypassNext next prev).binSummary = h.binSummary := by
  unfold bypassNext
  split <;> exact ⟨rfl, rfl, rfl⟩

end Bypass

omit hbb in
theorem removeFree_eq (b size : Nat) : h.removeFree b size =
    ((h.bypassPrev (tinyBinForSize size) (h.nextFree b) (h.prevFree b)).bypassNext (h.nextFree b)
      (h.prevFree b)).unmarkEmptyBin (tinyBinForSize size) := rfl

omit hbb in
theorem sameTags_removeFree (b size : Nat) : SameTags h (h.removeFree b size) :=
  (sameTags_bypassPrev.trans sameTags_bypassNext).trans sameTags_unmarkEmptyBin

theorem removeFree_nextFree (b size : Nat) :
    (h.removeFree b size).nextFree = Linked.dropNext h.nextFree h.prevFree tinyNoBlock b := by
  have hbb' : 8 ≤ (h.bypassPrev (tinyBinForSize size) (h.nextFree b) (h.prevFree b)).blockBytes := by
    rw [sameTags_bypassPrev.blockBytes]
    exact hbb
  rw [removeFree_eq, unmarkEmptyBin_links.1, bypassNext_nextFree hbb',
    bypassPrev_nextFree hbb (nextFree_lt _ _)]
  rfl

theorem removeFree_prevFree (b size : Nat) :
    (h.removeFree b size).prevFree = Linked.dropPrev h.nextFree h.prevFree tinyNoBlock b := by
  have hbb' : 8 ≤ (h.bypassPrev (tinyBinForSize size) (h.nextFree b) (h.prevFree b)).blockBytes := by
    rw [sameTags_bypassPrev.blockBytes]
    exact hbb
  rw [removeFree_eq, unmarkEmptyBin_links.2.1, bypassNext_prevFree hbb' (prevFree_lt _ _),
    bypassPrev_prevFree hbb]
  rfl

omit hbb in
theorem removeFree_binHeads (b size : Nat) : (h.removeFree b size).binHeads =
    if h.prevFree b = tinyNoBlock then Function.update h.binHeads (tinyBinForSize size) (h.nextFree b)
    else h.binHeads := by
  rw [removeFree_eq, unmarkEmptyBin_links.2.2, bypassNext_bins.1, bypassPrev_bins.1]

omit hbb in
/-- The bit of the bin is cleared exactly when the bin has no head any more. -/
theorem removeFree_binWords (b size : Nat) : (h.removeFree b size).binWords =
    if (h.removeFree b size).binHeads (tinyBinForSize size) = tinyNoBlock then
      Bitmap.put h.binWords (tinyBinForSize size) false
    else h.binWords := by
  rw [removeFree_eq, unmarkEmptyBin_links.2.2, unmarkEmptyBin]
  split
  · rw [markBin_words, bypassNext_bins.2.1, bypassPrev_bins.2.1]
  · rw [bypassNext_bins.2.1, bypassPrev_bins.2.1]

omit hbb in
theorem unmarkEmptyBin_summarizes {bin : Nat} (hs : Bitmap.Summarizes h.binWords h.binSummary)
    (hbin : bin / 64 < 64) :
    Bitmap.Summarizes (h.unmarkEmptyBin bin).binWords (h.unmarkEmptyBin bin).binSummary := by
  unfold unmarkEmptyBin
  split
  · exact markBin_summarizes false hbin hs
  · exact hs

omit hbb in
theorem removeFree_summarizes {size : Nat} (b : Nat) (hs : Bitmap.Summarizes h.binWords h.binSummary)
    (hbin : tinyBinForSize size / 64 < 64) :
    Bitmap.Summarizes (h.removeFree b size).binWords (h.removeFree b size).binSummary := by
  rw [removeFree_eq]
  apply unmarkEmptyBin_summarizes _ hbin
  rw [bypassNext_bins.2.1, bypassNext_bins.2.2, bypassPrev_bins.2.1, bypassPrev_bins.2.2]
  exact hs

end TinyHeap

/-! ## The free index -/

/-- The bins hold the free spans `P b n` (`n` blocks from block `b` on): the nodes of a bin's list are
the starts of the spans of the bin's sizes, and the bitmaps say which bins are occupied. -/
structure Indexed (h : TinyHeap) (P : Nat → Nat → Prop) (lists : Nat → List Nat) : Prop where
  linked : ∀ bin, Linked h.nextFree h.prevFree tinyNoBlock (h.binHeads bin) (lists bin)
  mem_iff : ∀ bin b, b ∈ lists bin ↔ ∃ n, P b n ∧ tinyBinForSize n = bin
  bits : ∀ bin, Bitmap.get h.binWords bin = true ↔ lists bin ≠ []
  summary : Bitmap.Summarizes h.binWords h.binSummary

namespace Indexed

variable {h : TinyHeap} {P : Nat → Nat → Prop} {lists : Nat → List Nat}

variable (hi : Indexed h P lists)

include hi

/-- A block starts at most one span, so it is a node of one list at most. -/
theorem bin_unique (hP : ∀ b m n, P b m → P b n → m = n) {b bin bin' : Nat}
    (hb : b ∈ lists bin) (hb' : b ∈ lists bin') : bin = bin' := by
  obtain ⟨m, hm, rfl⟩ := (hi.mem_iff _ _).1 hb
  obtain ⟨n, hn, rfl⟩ := (hi.mem_iff _ _).1 hb'
  rw [hP b m n hm hn]

theorem head_eq_noBlock_iff (bin : Nat) :
    h.binHeads bin = tinyNoBlock ↔ lists bin = [] := (hi.linked bin).head_eq_nil_iff

/-- Anything may happen to tags, and to memory outside the links of free spans. -/
theorem congr {h' : TinyHeap} (hheads : h'.binHeads = h.binHeads)
    (hwords : h'.binWords = h.binWords) (hsum : h'.binSummary = h.binSummary)
    (hlinks : ∀ b n, P b n → h'.nextFree b = h.nextFree b ∧ h'.prevFree b = h.prevFree b) :
    Indexed h' P lists where
  linked bin := by
    rw [hheads]
    refine (hi.linked bin).congr fun b hb => ?_
    obtain ⟨n, hn, -⟩ := (hi.mem_iff _ _).1 hb
    exact hlinks b n hn
  mem_iff := hi.mem_iff
  bits bin := by rw [hwords]; exact hi.bits bin
  summary := by rw [hwords, hsum]; exact hi.summary

theorem of_iff {P' : Nat → Nat → Prop} (hP : ∀ b n, P' b n ↔ P b n) :
    Indexed h P' lists where
  linked := hi.linked
  mem_iff bin b := by simp only [hi.mem_iff, hP]
  bits := hi.bits
  summary := hi.summary

/-- The payload of spans that are not in the index may change. -/
theorem of_mem {mem : Nat → UInt8} {lo hi' : Nat} (hbb : 8 ≤ h.blockBytes)
    (hmem : ∀ k, k < lo * h.blockBytes ∨ hi' * h.blockBytes ≤ k → mem k = h.mem k)
    (hP : ∀ b n, P b n → b < lo ∨ hi' ≤ b) : Indexed { h with mem } P lists := by
  refine hi.congr rfl rfl rfl fun b n hb => ?_
  have hword : ∀ i, i + 4 ≤ 8 → ByteMem.read32 mem (b * h.blockBytes + i) =
      ByteMem.read32 h.mem (b * h.blockBytes + i) := by
    intro i hi
    apply ByteMem.read32_congr
    intro k h₁ h₂
    rcases hP b n hb with hlt | hge
    · refine hmem k (.inl ?_)
      have := Nat.mul_le_mul_right h.blockBytes hlt
      rw [Nat.succ_mul] at this
      omega
    · refine hmem k (.inr ?_)
      have := Nat.mul_le_mul_right h.blockBytes hge
      omega
  exact ⟨hword 0 (by decide), hword 4 (by decide)⟩

theorem of_sameIndex {h' : TinyHeap} (hs : h.SameIndex h') :
    Indexed h' P lists :=
  hi.congr hs.binHeads hs.binWords hs.binSummary fun b _ _ => by
    unfold TinyHeap.nextFree TinyHeap.prevFree
    rw [hs.mem, hs.blockBytes]
    exact ⟨rfl, rfl⟩

theorem insert (hP : ∀ b m n, P b m → P b n → m = n)
    (hbb : 8 ≤ h.blockBytes) {b size : Nat} (hb : b < tinyNoBlock) (hsize : size < 2 ^ 32)
    (hlt : ∀ c n, P c n → c < tinyNoBlock) (hnew : ∀ n, ¬ P b n) :
    Indexed (h.insertFree b size) (fun c n => P c n ∨ (c = b ∧ n = size))
      (Function.update lists (tinyBinForSize size) (b :: lists (tinyBinForSize size))) := by
  have hno : tinyNoBlock < 2 ^ 32 := by decide
  have hb_not : ∀ bin, b ∉ lists bin := fun bin hb => by
    obtain ⟨n, hn, -⟩ := (hi.mem_iff _ _).1 hb
    exact hnew n hn
  have hhead : h.binHeads (tinyBinForSize size) < 2 ^ 32 := by
    by_cases he : h.binHeads (tinyBinForSize size) = tinyNoBlock
    · rw [he]; exact hno
    · obtain ⟨n, hn, -⟩ := (hi.mem_iff _ _).1 ((hi.linked _).head_mem he)
      exact Nat.lt_trans (hlt _ _ hn) hno
  refine ⟨fun bin => ?_, fun bin c => ?_, fun bin => ?_, ?_⟩
  · rw [TinyHeap.insertFree_nextFree hbb size hhead, TinyHeap.insertFree_prevFree hbb size (Nat.lt_trans hb hno),
      TinyHeap.insertFree_binHeads]
    by_cases hbin : bin = tinyBinForSize size
    · subst hbin
      simp only [update_self]
      exact (hi.linked _).push (hb_not _) (Nat.ne_of_lt hb)
    · simp only [update_of_ne hbin]
      refine (hi.linked bin).congr fun c hc => ?_
      have hcb : c ≠ b := fun he => hb_not bin (he ▸ hc)
      refine ⟨update_of_ne hcb _ _, ?_⟩
      unfold Linked.pushPrev
      split
      · exact update_of_ne hcb _ _
      case isFalse he =>
        have hch : c ≠ h.binHeads (tinyBinForSize size) := fun hce =>
          hbin (hi.bin_unique hP hc (hce ▸ (hi.linked _).head_mem he))
        rw [update_of_ne hch, update_of_ne hcb]
  · by_cases hbin : bin = tinyBinForSize size
    · subst hbin
      rw [update_self, mem_cons, hi.mem_iff]
      constructor
      · rintro (rfl | ⟨n, hn, hbin⟩)
        · exact ⟨size, .inr ⟨rfl, rfl⟩, rfl⟩
        · exact ⟨n, .inl hn, hbin⟩
      · rintro ⟨n, hn | ⟨rfl, rfl⟩, hbin⟩
        · exact .inr ⟨n, hn, hbin⟩
        · exact .inl rfl
    · rw [update_of_ne hbin, hi.mem_iff]
      constructor
      · rintro ⟨n, hn, hn'⟩
        exact ⟨n, .inl hn, hn'⟩
      · rintro ⟨n, hn | ⟨rfl, rfl⟩, hn'⟩
        · exact ⟨n, hn, hn'⟩
        · exact absurd hn'.symm hbin
  · rw [TinyHeap.insertFree_binWords, Bitmap.get_put]
    by_cases hbin : bin = tinyBinForSize size
    · simp [hbin]
    · rw [if_neg hbin, update_of_ne hbin]
      exact hi.bits bin
  · have := tinyBinForSize_lt hsize
    exact TinyHeap.insertFree_summarizes b hi.summary (by omega)

theorem remove (hP : ∀ b m n, P b m → P b n → m = n)
    (hbb : 8 ≤ h.blockBytes) {b size : Nat} (hsize : size < 2 ^ 32) (hb : P b size) :
    ∃ lists', Indexed (h.removeFree b size) (fun c n => P c n ∧ c ≠ b) lists' := by
  have hmem : b ∈ lists (tinyBinForSize size) := (hi.mem_iff _ _).2 ⟨size, hb, rfl⟩
  obtain ⟨l₁, l₂, hsplit⟩ := append_of_mem hmem
  have hlinked := hi.linked (tinyBinForSize size)
  have hnb := hlinked.neighbours hmem
  have hnd := hlinked.nodup
  rw [hsplit] at hlinked hnd
  have hb_not : b ∉ l₁ ++ l₂ := by
    rw [nodup_append, nodup_cons] at hnd
    rw [mem_append, not_or]
    exact ⟨fun h₁ => hnd.2.2 b h₁ b (by simp) rfl, hnd.2.1.1⟩
  have hheads : (h.removeFree b size).binHeads (tinyBinForSize size) =
      if h.prevFree b = tinyNoBlock then h.nextFree b else h.binHeads (tinyBinForSize size) := by
    rw [TinyHeap.removeFree_binHeads]
    split
    · exact update_self _ _ _
    · rfl
  have hdrop := hlinked.drop
  refine ⟨Function.update lists (tinyBinForSize size) (l₁ ++ l₂), fun bin => ?_, fun bin c => ?_,
    fun bin => ?_, ?_⟩
  · rw [TinyHeap.removeFree_nextFree hbb, TinyHeap.removeFree_prevFree hbb]
    by_cases hbin : bin = tinyBinForSize size
    · subst hbin
      rw [hheads, update_self]
      exact hdrop
    · have hother : (h.removeFree b size).binHeads bin = h.binHeads bin := by
        rw [TinyHeap.removeFree_binHeads]
        split
        · exact update_of_ne hbin _ _
        · rfl
      rw [hother, update_of_ne hbin]
      -- The nodes of other bins are no neighbours of `b`.
      refine (hi.linked bin).congr fun c hc => ⟨?_, ?_⟩
      · unfold Linked.dropNext
        split
        · rfl
        case isFalse hp =>
          refine update_of_ne (fun he => hbin ?_) _ _
          exact hi.bin_unique hP hc (he ▸ hnb.2.resolve_left hp)
      · unfold Linked.dropPrev
        split
        · rfl
        case isFalse hn =>
          refine update_of_ne (fun he => hbin ?_) _ _
          exact hi.bin_unique hP hc (he ▸ hnb.1.resolve_left hn)
  · by_cases hbin : bin = tinyBinForSize size
    · subst hbin
      have hiff := hi.mem_iff (tinyBinForSize size) c
      rw [hsplit] at hiff
      rw [update_self]
      constructor
      · intro hc
        obtain ⟨n, hn, hn'⟩ := hiff.1 (by simp only [mem_append, mem_cons] at hc ⊢; tauto)
        exact ⟨n, ⟨hn, fun he => hb_not (he ▸ hc)⟩, hn'⟩
      · rintro ⟨n, ⟨hn, hne⟩, hn'⟩
        have := hiff.2 ⟨n, hn, hn'⟩
        simp only [mem_append, mem_cons] at this ⊢
        tauto
    · rw [update_of_ne hbin, hi.mem_iff]
      constructor
      · rintro ⟨n, hn, hn'⟩
        refine ⟨n, ⟨hn, fun he => hbin ?_⟩, hn'⟩
        rw [← hn', hP b n size (he ▸ hn) hb]
      · rintro ⟨n, ⟨hn, -⟩, hn'⟩
        exact ⟨n, hn, hn'⟩
  · rw [TinyHeap.removeFree_binWords]
    by_cases hbin : bin = tinyBinForSize size
    · subst hbin
      have hempty := hdrop.head_eq_nil_iff
      rw [← hheads] at hempty
      rw [update_self]
      split
      case isTrue hl => rw [Bitmap.get_put]; simp [hempty.1 hl]
      case isFalse hl =>
        have hne : l₁ ++ l₂ ≠ [] := fun he => hl (hempty.2 he)
        rw [hi.bits, hsplit]
        simp [hne]
    · rw [update_of_ne hbin, ← hi.bits]
      split
      · rw [Bitmap.get_put, if_neg hbin]
      · rfl
  · have := tinyBinForSize_lt hsize
    exact TinyHeap.removeFree_summarizes b hi.summary (by omega)

/-! ### Searching -/

omit hi in
theorem findInBin_eq (need : Nat) : ∀ (l : List Nat) {fuel bf hd lst : Nat},
    DList.Segment h.nextFree h.prevFree bf hd l lst tinyNoBlock → tinyNoBlock ∉ l → l.length < fuel →
    h.findInBin need fuel hd = l.find? fun b => h.spanSize b ≥ need
  | [], fuel + 1, _, _, _, hseg, _, _ => by rw [TinyHeap.findInBin, if_pos hseg.1]; rfl
  | b :: l, fuel + 1, _, _, _, ⟨hhd, _, hseg⟩, hno, hfuel => by
    have hb : b ≠ tinyNoBlock := fun he => hno (by simp [he])
    rw [TinyHeap.findInBin, hhd, if_neg hb, List.find?_cons]
    by_cases hfit : h.spanSize b ≥ need
    · simp [hfit]
    · simp only [hfit, if_false, decide_false]
      exact findInBin_eq need l hseg (fun he => hno (by simp [he])) (by simpa using hfuel)

/-- The search returns a span that is long enough, and none only when there is none. -/
theorem findFreeSpan_spec (hspan : ∀ b n, P b n → h.spanSize b = n)
    (hlt : ∀ b n, P b n → b < h.blockCount) (need : Nat) :
    (h.findFreeSpan need = tinyNoBlock ∧ ∀ b n, P b n → n < need) ∨
      ∃ n, P (h.findFreeSpan need) n ∧ need ≤ n := by
  have hown := hi.linked (tinyBinForSize need)
  obtain ⟨lst, hseg⟩ := hown.segment
  have hmem : ∀ b ∈ lists (tinyBinForSize need), b < h.blockCount := fun b hb => by
    obtain ⟨n, hn, -⟩ := (hi.mem_iff _ _).1 hb
    exact hlt b n hn
  have hlen := length_le_of_nodup_lt hown.nodup hmem
  unfold TinyHeap.findFreeSpan
  dsimp only
  rw [findInBin_eq need _ hseg hown.not_nil (by omega)]
  rcases hf : (lists (tinyBinForSize need)).find? (fun b => h.spanSize b ≥ need) with _ | b
  · -- Every span of the request's own bin is too short.
    have hshort : ∀ b n, P b n → tinyBinForSize n = tinyBinForSize need → n < need := by
      intro b n hn hbin
      have := List.find?_eq_none.1 hf b ((hi.mem_iff _ _).2 ⟨n, hn, hbin⟩)
      rw [hspan b n hn] at this
      simpa using this
    simp only [TinyHeap.firstSpanAfterBin]
    rcases hnext : Bitmap.nextSet h.binWords h.binSummary (tinyBinForSize need) with _ | bin
    · refine .inl ⟨rfl, fun b n hn => ?_⟩
      by_contra hge
      have hmono := tinyBinForSize_mono (Nat.le_of_not_lt hge)
      rcases Nat.lt_or_eq_of_le hmono with hgt | heq
      · have hbit := Bitmap.nextSet_none hi.summary hnext hgt
        have hset := (hi.bits (tinyBinForSize n)).2
          (ne_nil_of_mem ((hi.mem_iff _ _).2 ⟨n, hn, rfl⟩))
        rw [hbit] at hset
        cases hset
      · exact hge (hshort b n hn heq.symm)
    · obtain ⟨hgt, hset⟩ := Bitmap.nextSet_some hi.summary hnext
      have hhead : h.binHeads bin ≠ tinyNoBlock := fun he =>
        (hi.bits bin).1 hset ((hi.head_eq_noBlock_iff bin).1 he)
      obtain ⟨n, hn, hbin⟩ := (hi.mem_iff _ _).1 ((hi.linked bin).head_mem hhead)
      refine .inr ⟨n, hn, ?_⟩
      by_contra hlt
      have := tinyBinForSize_mono (Nat.le_of_not_le hlt)
      omega
  · have hb := mem_of_find?_eq_some hf
    obtain ⟨n, hn, -⟩ := (hi.mem_iff _ _).1 hb
    have hfit := List.find?_some hf
    rw [hspan b n hn] at hfit
    exact .inr ⟨n, hn, by simpa using hfit⟩

end Indexed

end Wago.Gc
