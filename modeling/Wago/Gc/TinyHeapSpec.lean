/-
The Tiny heap keeps its blocks partitioned: they are cut into live spans and maximal free runs, and
the tags, the used bits and the free index all describe this one partition. Allocation takes the
front of a free run, release merges a span with its free neighbours.
-/
import Wago.Gc.TinyHeapIndex
import Wago.Lib.Tiling

namespace Wago.Gc

open List

open Wago.Tiling (Piece Tiles)

/-! ## Tags -/

inductive SpanKind
  | live | free
  deriving DecidableEq, Repr

abbrev Span := Piece SpanKind

/-- The tags of a span: its length at both ends, nothing in between, and the used bit at its start. -/
structure SpanTags (h : TinyHeap) (p : Span) : Prop where
  first : h.spans p.start = p.len
  last : h.spans (p.stop - 1) = p.len
  inner : ∀ b, p.start < b → b + 1 < p.stop → h.spans b = 0
  used : h.isUsedStart p.start = decide (p.kind = .live)
  notStart : ∀ b, p.start < b → b < p.stop → h.isUsedStart b = false

variable {p : Span}

/-- Tags depend on what the span's own blocks say. -/
theorem SpanTags.congr {h h' : TinyHeap} (ht : SpanTags h p) (hl : 0 < p.len)
    (heq : ∀ b, p.start ≤ b → b < p.stop → h'.spans b = h.spans b ∧ h'.isUsedStart b = h.isUsedStart b) :
    SpanTags h' p := by
  have hstop : p.stop = p.start + p.len := rfl
  refine ⟨?_, ?_, fun b h₁ h₂ => ?_, ?_, fun b h₁ h₂ => ?_⟩
  · rw [(heq _ (by omega) (by omega)).1, ht.first]
  · rw [(heq _ (by omega) (by omega)).1, ht.last]
  · rw [(heq _ (by omega) (by omega)).1, ht.inner b h₁ h₂]
  · rw [(heq _ (by omega) (by omega)).2, ht.used]
  · rw [(heq _ (by omega) (by omega)).2, ht.notStart b h₁ h₂]

theorem mem_outer {l₁ mid l₂ : List Span} {r : Span} (hr : r ∈ l₁ ++ l₂) : r ∈ l₁ ++ mid ++ l₂ := by
  simp only [mem_append] at hr ⊢
  tauto

theorem mem_middle (l₁ l₂ : List Span) {q r : Span} (hne : r.kind ≠ q.kind) :
    r ∈ l₁ ++ [q] ++ l₂ ↔ r ∈ l₁ ++ l₂ := by
  have : r ≠ q := fun he => hne (congrArg Piece.kind he)
  simp [this]

/-- The spans `ps` cut the heap's blocks, and the tags say so. -/
structure Tagged (h : TinyHeap) (ps : List Span) : Prop where
  tiles : Tiles 0 ps h.blockCount
  tags : ∀ p ∈ ps, SpanTags h p

namespace Tagged

variable {h h' : TinyHeap} {ps pre mid mid' post : List Span} {p : Span}

theorem spanSize_start (ht : Tagged h ps) (hp : p ∈ ps) : h.spanSize p.start = p.len := by
  have hb := ht.tiles.bounds hp
  have hlt := ht.tiles.start_lt hp
  rw [TinyHeap.spanSize, if_neg (by omega), (ht.tags p hp).first]

theorem spanSize_last (ht : Tagged h ps) (hp : p ∈ ps) : h.spanSize (p.stop - 1) = p.len := by
  have hb := ht.tiles.bounds hp
  have hlt := ht.tiles.start_lt hp
  rw [TinyHeap.spanSize, if_neg (by omega), (ht.tags p hp).last]

/-- A used bit stands at the start of a live span only. -/
theorem live_of_used (ht : Tagged h ps) {b : Nat} (hb : b < h.blockCount)
    (hu : h.isUsedStart b = true) : ∃ p ∈ ps, p.start = b ∧ p.kind = .live := by
  obtain ⟨p, hp, hlo, hhi⟩ := ht.tiles.cover b (Nat.zero_le _) hb
  have hstart : p.start = b := by
    rcases Nat.lt_or_eq_of_le hlo with hlt | heq
    · rw [(ht.tags p hp).notStart b hlt hhi] at hu
      cases hu
    · exact heq
  refine ⟨p, hp, hstart, ?_⟩
  have := (ht.tags p hp).used
  rw [hstart, hu] at this
  simpa using this.symm

theorem of_sameTags (ht : Tagged h ps) (hs : h.SameTags h') : Tagged h' ps where
  tiles := hs.blockCount ▸ ht.tiles
  tags p hp := (ht.tags p hp).congr (ht.tiles.bounds hp).2.1 fun b _ _ => by
    unfold TinyHeap.isUsedStart
    rw [hs.spans, hs.usedStarts]
    exact ⟨rfl, rfl⟩

/-- Recutting the blocks from `lo` to `hi` keeps the tags of the spans outside. -/
theorem replace (ht : Tagged h (pre ++ mid ++ post)) (lo hi : Nat) (hcount : h'.blockCount = h.blockCount)
    (hmid : ∀ {a b}, Tiles a mid b → a = lo ∧ b = hi ∧ Tiles a mid' b)
    (hout : ∀ b, b < lo ∨ hi ≤ b → h'.spans b = h.spans b ∧ h'.isUsedStart b = h.isUsedStart b)
    (htags : ∀ p ∈ mid', SpanTags h' p) : Tagged h' (pre ++ mid' ++ post) := by
  obtain ⟨y, hpm, hpost⟩ := Tiling.tiles_append.1 ht.tiles
  obtain ⟨x, hpre, hmid₀⟩ := Tiling.tiles_append.1 hpm
  obtain ⟨rfl, rfl, hmid'⟩ := hmid hmid₀
  refine ⟨?_, fun p hp => ?_⟩
  · rw [hcount]
    exact Tiling.tiles_append.2 ⟨_, Tiling.tiles_append.2 ⟨_, hpre, hmid'⟩, hpost⟩
  · rcases mem_append.1 hp with hp | hp
    · rcases mem_append.1 hp with hp | hp
      · have hb := hpre.bounds hp
        exact (ht.tags p (by simp [hp])).congr hb.2.1 fun b _ h₂ => hout b (.inl (by omega))
      · exact htags p hp
    · have hb := hpost.bounds hp
      exact (ht.tags p (by simp [hp])).congr hb.2.1 fun b h₁ _ => hout b (.inr (by omega))

end Tagged

namespace TinyHeap

variable {h : TinyHeap} {b size : Nat}

/-- Tags are wide enough for every span of the heap. -/
theorem mod_tagLimit (hs : size ≤ h.blockCount) (hc : h.blockCount < 2 ^ 32) :
    size % h.tagLimit = size := by
  unfold tagLimit
  split
  · exact Nat.mod_eq_of_lt (by omega)
  · exact Nat.mod_eq_of_lt (by omega)

theorem setSpan_spans (hs : size ≤ h.blockCount) (hc : h.blockCount < 2 ^ 32) (used : Bool) (c : Nat) :
    (h.setSpan b size used).spans c = if c = b ∨ c = b + size - 1 then size else h.spans c := by
  change Function.update (Function.update h.spans b (size % h.tagLimit)) (b + size - 1)
    (size % h.tagLimit) c = _
  rw [mod_tagLimit hs hc]
  by_cases h₂ : c = b + size - 1
  · simp [h₂]
  · by_cases h₁ : c = b
    · subst h₁
      simp [Function.update_of_ne h₂]
    · simp [h₁, h₂]

theorem setUsedStart_used (used : Bool) (c : Nat) :
    (h.setUsedStart b used).isUsedStart c = if c = b then used else h.isUsedStart c :=
  Bitmap.get_put _ _ _ _

theorem setSpan_used (used : Bool) (c : Nat) :
    (h.setSpan b size used).isUsedStart c = if c = b then used else h.isUsedStart c :=
  Bitmap.get_put _ _ _ _

theorem clearSpan_spans (h0 : 0 < size) (c : Nat) :
    (h.clearSpan b size).spans c = if c = b ∨ c = b + size - 1 then 0 else h.spans c := by
  unfold clearSpan
  dsimp only
  by_cases h1 : size > 1
  · rw [if_pos h1]
    change Function.update (Function.update h.spans b (0 % h.tagLimit)) (b + size - 1) (0 % h.tagLimit) c = _
    rw [Nat.zero_mod]
    by_cases h₂ : c = b + size - 1
    · simp [h₂]
    · by_cases h₁ : c = b
      · subst h₁
        simp [Function.update_of_ne h₂]
      · simp [h₁, h₂]
  · rw [if_neg h1]
    change Function.update h.spans b (0 % h.tagLimit) c = _
    have hb : b + size - 1 = b := by omega
    rw [Nat.zero_mod, hb]
    by_cases h₁ : c = b
    · simp [h₁]
    · simp [h₁]

theorem clearSpan_used (c : Nat) :
    (h.clearSpan b size).isUsedStart c = if c = b then false else h.isUsedStart c := by
  unfold clearSpan
  dsimp only
  split <;> exact Bitmap.get_put _ _ _ _

end TinyHeap

variable {h : TinyHeap}

/-- The tags of a span that was just set. -/
theorem SpanTags.of_setSpan {b size : Nat} {used : Bool} {kind : SpanKind}
    (hu : used = decide (kind = .live)) (hs : size ≤ h.blockCount) (hc : h.blockCount < 2 ^ 32)
    (hinner : ∀ c, b < c → c + 1 < b + size → h.spans c = 0)
    (hnot : ∀ c, b < c → c < b + size → h.isUsedStart c = false) :
    SpanTags (h.setSpan b size used) ⟨b, size, kind⟩ := by
  have hspans := TinyHeap.setSpan_spans (b := b) hs hc used
  refine ⟨?_, ?_, fun c (h₁ : b < c) (h₂ : c + 1 < b + size) => ?_, ?_, fun c h₁ h₂ => ?_⟩
  · rw [hspans, if_pos (.inl rfl)]
  · rw [hspans, if_pos (.inr rfl)]
  · rw [hspans, if_neg (by omega), hinner c h₁ h₂]
  · rw [TinyHeap.setSpan_used, if_pos rfl, hu]
  · rw [TinyHeap.setSpan_used, if_neg (Nat.ne_of_gt h₁), hnot c h₁ h₂]

namespace Tagged

variable {h : TinyHeap} {pre post : List Span} {p q : Span}

/-- Taking or giving up a whole span changes its used bit only. -/
theorem setKind (ht : Tagged h (pre ++ [p] ++ post)) (kind : SpanKind) :
    Tagged (h.setUsedStart p.start (decide (kind = .live))) (pre ++ [{ p with kind }] ++ post) := by
  have hp := ht.tags p (by simp)
  have hl := (ht.tiles.bounds (p := p) (by simp)).2.1
  have hstop : p.stop = p.start + p.len := rfl
  refine ht.replace p.start p.stop rfl ?_ ?_ ?_
  · rintro a b ⟨rfl, hl, rfl⟩
    exact ⟨rfl, rfl, rfl, hl, rfl⟩
  · intro b hb
    refine ⟨rfl, ?_⟩
    rw [TinyHeap.setUsedStart_used, if_neg (by omega)]
  · intro r hr
    obtain rfl := mem_singleton.1 hr
    refine ⟨hp.first, hp.last, hp.inner, ?_, fun b h₁ h₂ => ?_⟩
    · rw [TinyHeap.setUsedStart_used, if_pos rfl]
    · rw [TinyHeap.setUsedStart_used, if_neg (Nat.ne_of_gt h₁)]
      exact hp.notStart b h₁ h₂

/-- Two adjacent free spans become one. -/
theorem merge (hc : h.blockCount < 2 ^ 32) (ht : Tagged h (pre ++ [p, q] ++ post)) :
    Tagged (((h.clearSpan p.start p.len).clearSpan q.start q.len).setSpan p.start (p.len + q.len) false)
      (pre ++ [⟨p.start, p.len + q.len, .free⟩] ++ post) := by
  have hp := ht.tags p (by simp)
  have hq := ht.tags q (by simp)
  have hpl := (ht.tiles.bounds (p := p) (by simp)).2.1
  have hqb := ht.tiles.bounds (p := q) (by simp)
  have hps : p.stop = p.start + p.len := rfl
  have hqs : q.stop = q.start + q.len := rfl
  have hadj : q.start = p.stop := by
    obtain ⟨_, hpm, -⟩ := Tiling.tiles_append.1 ht.tiles
    obtain ⟨_, -, -, -, hq, -⟩ := Tiling.tiles_append.1 hpm
    exact hq
  have hcount : ((h.clearSpan p.start p.len).clearSpan q.start q.len).blockCount = h.blockCount := by
    rw [TinyHeap.sameIndex_clearSpan _ _ |>.blockCount, TinyHeap.sameIndex_clearSpan _ _ |>.blockCount]
  have hspans (c : Nat) : ((h.clearSpan p.start p.len).clearSpan q.start q.len).spans c =
      if c = q.start ∨ c = q.stop - 1 ∨ c = p.start ∨ c = p.stop - 1 then 0 else h.spans c := by
    rw [TinyHeap.clearSpan_spans hqb.2.1, TinyHeap.clearSpan_spans hpl]
    split_ifs <;> first | rfl | omega
  have hused (c : Nat) : ((h.clearSpan p.start p.len).clearSpan q.start q.len).isUsedStart c =
      if c = q.start ∨ c = p.start then false else h.isUsedStart c := by
    rw [TinyHeap.clearSpan_used, TinyHeap.clearSpan_used]
    split_ifs <;> first | rfl | omega
  have hle : p.len + q.len ≤ ((h.clearSpan p.start p.len).clearSpan q.start q.len).blockCount := by omega
  refine ht.replace p.start q.stop hcount ?_ ?_ ?_
  · rintro a b ⟨rfl, -, -, -, rfl⟩
    refine ⟨rfl, rfl, rfl, Nat.add_pos_left hpl _, ?_⟩
    change p.start + (p.len + q.len) = q.stop
    omega
  · intro b hb
    rw [TinyHeap.setSpan_spans hle (by omega), TinyHeap.setSpan_used, hspans, hused, if_neg (by omega),
      if_neg (by omega), if_neg (by omega), if_neg (by omega)]
    exact ⟨rfl, rfl⟩
  · intro r hr
    obtain rfl := mem_singleton.1 hr
    refine .of_setSpan rfl hle (by omega) (fun b h₁ h₂ => ?_) fun b h₁ h₂ => ?_
    · rw [hspans]
      split
      · rfl
      · rcases Nat.lt_or_ge b p.stop with hb | hb
        · exact hp.inner b h₁ (by omega)
        · exact hq.inner b (by omega) (by omega)
    · rw [hused]
      split
      · rfl
      · rcases Nat.lt_or_ge b p.stop with hb | hb
        · exact hp.notStart b h₁ hb
        · exact hq.notStart b (by omega) (by omega)

/-- The front part of a free span is taken and the rest stays free. -/
theorem split (hc : h.blockCount < 2 ^ 32) (ht : Tagged h (pre ++ [p] ++ post)) {need : Nat}
    (h0 : 0 < need) (hlt : need < p.len) :
    Tagged (((h.clearSpan p.start p.len).setSpan p.start need true).setSpan (p.start + need)
        (p.len - need) false)
      (pre ++ [⟨p.start, need, .live⟩, ⟨p.start + need, p.len - need, .free⟩] ++ post) := by
  have hp := ht.tags p (by simp)
  have hpb := ht.tiles.bounds (p := p) (by simp)
  have hps : p.stop = p.start + p.len := rfl
  have hcount : (h.clearSpan p.start p.len).blockCount = h.blockCount :=
    (TinyHeap.sameIndex_clearSpan _ _).blockCount
  have hcount' : ((h.clearSpan p.start p.len).setSpan p.start need true).blockCount = h.blockCount :=
    hcount
  have hfront (c : Nat) : (h.clearSpan p.start p.len).spans c =
      if c = p.start ∨ c = p.stop - 1 then 0 else h.spans c := TinyHeap.clearSpan_spans hpb.2.1 c
  have hspans (c : Nat) : ((h.clearSpan p.start p.len).setSpan p.start need true).spans c =
      if c = p.start ∨ c = p.start + need - 1 then need else if c = p.stop - 1 then 0 else h.spans c := by
    rw [TinyHeap.setSpan_spans (by omega) (by omega), hfront]
    split_ifs <;> first | rfl | omega
  have hused (c : Nat) : ((h.clearSpan p.start p.len).setSpan p.start need true).isUsedStart c =
      if c = p.start then true else h.isUsedStart c := by
    rw [TinyHeap.setSpan_used, TinyHeap.clearSpan_used]
    split_ifs <;> rfl
  have hback := TinyHeap.setSpan_spans (h := (h.clearSpan p.start p.len).setSpan p.start need true)
    (b := p.start + need) (show p.len - need ≤ _ by omega) (by omega) false
  refine ht.replace p.start p.stop hcount ?_ ?_ ?_
  · rintro a b ⟨rfl, -, rfl⟩
    refine ⟨rfl, rfl, rfl, h0, rfl, by change 0 < p.len - need; omega, ?_⟩
    change p.start + need + (p.len - need) = p.stop
    omega
  · intro b hb
    rw [hback, TinyHeap.setSpan_used, hspans, hused, if_neg (by omega), if_neg (by omega), if_neg (by omega),
      if_neg (by omega), if_neg (by omega)]
    exact ⟨rfl, rfl⟩
  · intro r hr
    rcases mem_cons.1 hr with rfl | hr
    · have hstop : (⟨p.start, need, .live⟩ : Span).stop = p.start + need := rfl
      have hlive : SpanTags ((h.clearSpan p.start p.len).setSpan p.start need true) ⟨p.start, need, .live⟩ := by
        refine .of_setSpan rfl (by omega) (by omega) (fun b h₁ h₂ => ?_) fun b h₁ h₂ => ?_
        · rw [hfront, if_neg (by omega)]
          exact hp.inner b h₁ (by omega)
        · rw [TinyHeap.clearSpan_used, if_neg (by omega)]
          exact hp.notStart b h₁ (by omega)
      refine hlive.congr h0 fun b h₁ h₂ => ?_
      rw [hback, TinyHeap.setSpan_used, if_neg (by omega), if_neg (by omega)]
      exact ⟨rfl, rfl⟩
    · obtain rfl := mem_singleton.1 hr
      refine .of_setSpan rfl (by omega) (by omega) (fun b h₁ h₂ => ?_) fun b h₁ h₂ => ?_
      · rw [hspans, if_neg (by omega), if_neg (by omega)]
        exact hp.inner b (by omega) (by omega)
      · rw [hused, if_neg (by omega)]
        exact hp.notStart b (by omega) (by omega)

end Tagged

/-! ## The partition -/

/-- Block `b` starts a free span of `n` blocks. -/
def Free (ps : List Span) (b n : Nat) : Prop := (⟨b, n, .free⟩ : Span) ∈ ps

/-- What the configuration guarantees about sizes. -/
structure Sized (h : TinyHeap) : Prop where
  blockBytes : 8 ≤ h.blockBytes
  bytes : h.blockCount * h.blockBytes < 2 ^ 32

theorem Sized.blockCount_lt (hs : Sized h) : h.blockCount < 2 ^ 29 := by
  have := hs.bytes
  have := Nat.mul_le_mul_left h.blockCount hs.blockBytes
  omega

theorem Sized.of_sameTags {h h' : TinyHeap} (hs : Sized h) (ht : h.SameTags h') : Sized h' :=
  ⟨ht.blockBytes ▸ hs.blockBytes, by rw [ht.blockCount, ht.blockBytes]; exact hs.bytes⟩

theorem Sized.of_sameIndex {h h' : TinyHeap} (hs : Sized h) (ht : h.SameIndex h') : Sized h' :=
  ⟨ht.blockBytes ▸ hs.blockBytes, by rw [ht.blockCount, ht.blockBytes]; exact hs.bytes⟩

/-- The heap's structures all describe the partition `ps`, whose free runs are maximal. -/
structure TinyInv (h : TinyHeap) (ps : List Span) : Prop where
  sized : Sized h
  tagged : Tagged h ps
  maximal : ∀ p ∈ ps, ∀ q ∈ ps, p.kind = .free → q.kind = .free → p.stop ≠ q.start
  indexed : ∃ lists, Indexed h (Free ps) lists

theorem Tagged.free_unique {ps : List Span} (ht : Tagged h ps) (b m n : Nat)
    (hm : Free ps b m) (hn : Free ps b n) : m = n :=
  congrArg Piece.len (ht.tiles.eq_of_start hm hn rfl)

theorem Tagged.free_lt {ps : List Span} (ht : Tagged h ps) {b n : Nat}
    (hb : Free ps b n) : b + n ≤ h.blockCount ∧ 0 < n := by
  have := ht.tiles.bounds hb
  exact ⟨this.2.2, this.2.1⟩

/-- A state in the middle of an operation: the free span `p` is tagged and not in the index yet. -/
structure Loose (h : TinyHeap) (pre : List Span) (p : Span) (post : List Span) : Prop where
  sized : Sized h
  tagged : Tagged h (pre ++ [p] ++ post)
  kind : p.kind = .free
  maximal : ∀ q ∈ pre ++ post, ∀ r ∈ pre ++ post, q.kind = .free → r.kind = .free → q.stop ≠ r.start
  indexed : ∃ lists, Indexed h (Free (pre ++ post)) lists

variable {pre post : List Span}

/-- The free spans besides one of them. -/
theorem Tagged.free_other
    (ht : Tagged h (pre ++ [p] ++ post)) (b n : Nat) :
    Free (pre ++ post) b n ↔ Free (pre ++ [p] ++ post) b n ∧ b ≠ p.start := by
  have htiles := ht.tiles
  rw [append_assoc, singleton_append] at htiles
  obtain ⟨hpre, hl, hpost⟩ := Tiling.tiles_split.1 htiles
  have hstop : p.stop = p.start + p.len := rfl
  unfold Free
  simp only [mem_append, mem_singleton]
  constructor
  · rintro (hb | hb)
    · have hlt := hpre.start_lt hb
      have := (hpre.bounds hb).2.2
      exact ⟨.inl (.inl hb), by change b < _ at hlt; omega⟩
    · have := (hpost.bounds hb).1
      change p.stop ≤ b at this
      exact ⟨.inr hb, by omega⟩
  · rintro ⟨(hb | hb) | hb, hne⟩
    · exact .inl hb
    · exact absurd (congrArg Piece.start hb) hne
    · exact .inr hb

/-- Taking a free span out of the index. -/
theorem TinyInv.loosen
    (hi : TinyInv h (pre ++ [p] ++ post)) (hp : p.kind = .free) :
    Loose (h.removeFree p.start p.len) pre p post := by
  obtain ⟨lists, hidx⟩ := hi.indexed
  have hfree : Free (pre ++ [p] ++ post) p.start p.len := by
    unfold Free
    rw [← hp]
    simp
  have hb := hi.tagged.free_lt hfree
  have hsz := hi.sized.blockCount_lt
  have hs := TinyHeap.sameTags_removeFree (h := h) p.start p.len
  obtain ⟨lists', hidx'⟩ := hidx.remove hi.tagged.free_unique hi.sized.blockBytes (by omega) hfree
  exact ⟨hi.sized.of_sameTags hs, hi.tagged.of_sameTags hs, hp,
    fun q hq r hr => hi.maximal q (mem_outer hq) r (mem_outer hr), lists', hidx'.of_iff hi.tagged.free_other⟩

/-- Putting a free span into the index, when its neighbours are live. -/
theorem Loose.insert (hl : Loose h pre p post)
    (hprev : ∀ q ∈ pre ++ post, q.kind = .free → q.stop ≠ p.start)
    (hnext : ∀ q ∈ pre ++ post, q.kind = .free → p.stop ≠ q.start) :
    TinyInv (h.insertFree p.start p.len) (pre ++ [p] ++ post) := by
  obtain ⟨lists, hidx⟩ := hl.indexed
  have hother := hl.tagged.free_other
  have hsz := hl.sized.blockCount_lt
  have hpb := hl.tagged.tiles.bounds (p := p) (by simp)
  have hstop : p.stop = p.start + p.len := rfl
  have hs := TinyHeap.sameTags_insertFree (h := h) p.start p.len
  have hno : tinyNoBlock = 2 ^ 32 - 1 := rfl
  have hins := hidx.insert
    (fun b m n hm hn => hl.tagged.free_unique b m n ((hother b m).1 hm).1 ((hother b n).1 hn).1)
    hl.sized.blockBytes (show p.start < tinyNoBlock by omega) (show p.len < 2 ^ 32 by omega)
    (fun c n hc => by have := hl.tagged.free_lt ((hother c n).1 hc).1; omega)
    (fun n hn => ((hother _ _).1 hn).2 rfl)
  refine ⟨hl.sized.of_sameTags hs, hl.tagged.of_sameTags hs, fun q hq r hr hqf hrf => ?_,
    _, hins.of_iff fun b n => ?_⟩
  · have hq' : q ∈ pre ++ post ∨ q = p := by
      simp only [mem_append, mem_singleton] at hq ⊢
      tauto
    have hr' : r ∈ pre ++ post ∨ r = p := by
      simp only [mem_append, mem_singleton] at hr ⊢
      tauto
    rcases hq' with hq' | rfl <;> rcases hr' with hr' | rfl
    · exact hl.maximal q hq' r hr' hqf hrf
    · exact hprev q hq' hqf
    · exact hnext r hr' hrf
    · omega
  · rw [hother]
    constructor
    · intro hb
      by_cases he : b = p.start
      · refine .inr ⟨he, ?_⟩
        have hp : Free (pre ++ [p] ++ post) p.start p.len := by
          unfold Free
          rw [← hl.kind]
          simp
        exact hl.tagged.free_unique b n p.len hb (he ▸ hp)
      · exact .inl ⟨hb, he⟩
    · rintro (⟨hb, -⟩ | ⟨rfl, rfl⟩)
      · exact hb
      · unfold Free
        rw [← hl.kind]
        simp

/-! ## Allocation -/

/-- The span that an allocation of `need` blocks leaves of a free span. -/
def remainder (p : Span) (need : Nat) : List Span :=
  if need = p.len then [] else [⟨p.start + need, p.len - need, .free⟩]

/-- The heap after the span at `b` of `span` blocks was taken for `need` blocks. -/
def TinyHeap.takeSpan (h : TinyHeap) (b span need : Nat) : TinyHeap :=
  if span = need then (h.removeFree b span).setUsedStart b true
  else ((((h.removeFree b span).clearSpan b span).setSpan b need true).setSpan (b + need) (span - need)
    false).insertFree (b + need) (span - need)

theorem TinyHeap.takeSpan_blockBytes (h : TinyHeap) (b span need : Nat) :
    (h.takeSpan b span need).blockBytes = h.blockBytes := by
  unfold takeSpan
  split
  · rw [(sameIndex_setUsedStart _ _).blockBytes, (sameTags_removeFree _ _).blockBytes]
  · rw [(sameTags_insertFree _ _).blockBytes, (sameIndex_setSpan _ _ _).blockBytes,
      (sameIndex_setSpan _ _ _).blockBytes, (sameIndex_clearSpan _ _).blockBytes,
      (sameTags_removeFree _ _).blockBytes]

/-- An allocation of at least one block. -/
theorem TinyHeap.alloc_eq {size : UInt32} {need : Nat} (hbb : h.blockBytes ≠ 0)
    (hn : (size.toNat + h.blockBytes - 1) / h.blockBytes = need) (h0 : need ≠ 0)
    (hlt : need ≤ 2 ^ 32 - 1) :
    h.alloc size =
      if need > h.blockCount then .error .exhausted
      else if h.findFreeSpan need = tinyNoBlock then .error .exhausted
      else .ok ((h.findFreeSpan need * h.blockBytes, need * h.blockBytes),
        h.takeSpan (h.findFreeSpan need) (h.spanSize (h.findFreeSpan need)) need) := by
  have hbytes := h.takeSpan_blockBytes (h.findFreeSpan need) (h.spanSize (h.findFreeSpan need)) need
  have hno : ¬ (need = 0 ∨ need > 2 ^ 32 - 1) := by omega
  unfold alloc
  simp only [hn, if_neg hbb, if_neg hno]
  unfold takeSpan at hbytes ⊢
  split
  · rfl
  split
  · rfl
  · simp only [pure, Except.pure, hbytes]

namespace TinyInv

variable {h : TinyHeap} {ps pre post : List Span} {p : Span}

theorem spanSize_free (hi : TinyInv h ps) (b n : Nat) (hb : Free ps b n) : h.spanSize b = n :=
  hi.tagged.spanSize_start hb

/-- Taking the first `need` blocks of a free span. -/
theorem take (hi : TinyInv h (pre ++ [p] ++ post)) (hp : p.kind = .free) {need : Nat} (h0 : 0 < need)
    (hle : need ≤ p.len) :
    TinyInv (h.takeSpan p.start p.len need)
      (pre ++ (⟨p.start, need, .live⟩ :: remainder p need) ++ post) := by
  have hl := hi.loosen hp
  obtain ⟨lists, hidx⟩ := hl.indexed
  have hpstop : p.stop = p.start + p.len := rfl
  unfold TinyHeap.takeSpan
  split
  case isTrue heq =>
    subst heq
    have hs := TinyHeap.sameIndex_setUsedStart (h := h.removeFree p.start p.len) p.start true
    have hlive : ⟨p.start, p.len, .live⟩ :: remainder p p.len = [{ p with kind := .live }] := by
      simp [remainder]
    rw [hlive]
    have htag := hl.tagged.setKind .live
    refine ⟨hl.sized.of_sameIndex hs, htag, fun q hq r hr hqf hrf => ?_, lists,
      (hidx.of_sameIndex hs).of_iff fun b n => ?_⟩
    · exact hl.maximal q ((mem_middle pre post (by simp [hqf])).1 hq) r
        ((mem_middle pre post (by simp [hrf])).1 hr) hqf hrf
    · unfold Free
      simp [Piece.mk.injEq]
  case isFalse hne =>
    have hlt : need < p.len := by omega
    have hsz := hl.sized.blockCount_lt
    have hs := ((TinyHeap.sameIndex_clearSpan (h := h.removeFree p.start p.len) p.start p.len).trans
      (TinyHeap.sameIndex_setSpan p.start need true)).trans
      (TinyHeap.sameIndex_setSpan (p.start + need) (p.len - need) false)
    have hrem : remainder p need = [⟨p.start + need, p.len - need, .free⟩] := by
      simp [remainder, Nat.ne_of_lt hlt]
    have htag := hl.tagged.split (by omega) h0 hlt
    have hsplit : pre ++ [⟨p.start, need, .live⟩, ⟨p.start + need, p.len - need, .free⟩] ++ post =
        (pre ++ [⟨p.start, need, .live⟩]) ++ [⟨p.start + need, p.len - need, .free⟩] ++ post := by simp
    rw [hrem, hsplit]
    rw [hsplit] at htag
    have hmem : ∀ q ∈ (pre ++ [(⟨p.start, need, .live⟩ : Span)]) ++ post, q.kind = .free →
        q ∈ pre ++ post := fun q hq hqf => (mem_middle pre post (by simp [hqf])).1 hq
    have hloose : Loose _ (pre ++ [⟨p.start, need, .live⟩]) ⟨p.start + need, p.len - need, .free⟩ post :=
      { sized := hl.sized.of_sameIndex hs
        tagged := htag
        kind := rfl
        maximal := fun q hq r hr hqf hrf => hl.maximal q (hmem q hq hqf) r (hmem r hr hrf) hqf hrf
        indexed := ⟨lists, (hidx.of_sameIndex hs).of_iff fun b n => by
          unfold Free
          simp [Piece.mk.injEq]⟩ }
    refine hloose.insert (fun q hq hqf hstop => ?_) (fun q hq hqf hstop => ?_)
    · -- What ends at the remainder's start is the live span.
      have hql := htag.tiles.start_lt (mem_outer hq)
      have hlive := htag.tiles.eq_of_overlap (q := ⟨p.start, need, .live⟩)
        (b := p.start + need - 1) (mem_outer hq) (by simp) (by change q.stop = p.start + need at hstop; omega)
        ⟨by change p.start ≤ _; omega, by change _ < p.start + need; omega⟩
      rw [hlive] at hqf
      cases hqf
    · -- What starts behind the remainder starts behind the old free span.
      refine hi.maximal p (by simp) q (mem_outer (hmem q hq hqf)) hp hqf ?_
      change p.start + need + (p.len - need) = q.start at hstop
      omega

/-- What an allocation does: it fails for an empty request, it fails when every free run is too
short, or it takes the front of a free run. -/
theorem alloc_cases (hi : TinyInv h ps) (size : UInt32) :
    (size.toNat = 0 ∧ h.alloc size = .error .sizeOverflow) ∨
    (0 < size.toNat ∧ (∀ p ∈ ps, p.kind = .free → p.len * h.blockBytes < size.toNat) ∧
      h.alloc size = .error .exhausted) ∨
    0 < size.toNat ∧ ∃ pre p post need h', ps = pre ++ [p] ++ post ∧ p.kind = .free ∧ 0 < need ∧
      need ≤ p.len ∧ size.toNat ≤ need * h.blockBytes ∧
      h.alloc size = .ok ((p.start * h.blockBytes, need * h.blockBytes), h') ∧
      h'.blockBytes = h.blockBytes ∧
      TinyInv h' (pre ++ (⟨p.start, need, .live⟩ :: remainder p need) ++ post) := by
  have hbb := hi.sized.blockBytes
  have hbb0 : 0 < h.blockBytes := by omega
  have hcount := hi.sized.blockCount_lt
  have hsize := size.toNat_lt
  have hneed : (size.toNat + h.blockBytes - 1) / h.blockBytes ≤ 2 ^ 32 - 1 := by
    rw [← Nat.le_mul_iff_le_left hbb0]
    have := Nat.mul_le_mul_left (2 ^ 32 - 1) hbb
    omega
  generalize hn : (size.toNat + h.blockBytes - 1) / h.blockBytes = need at hneed
  have hfits (n : Nat) : need ≤ n ↔ size.toNat ≤ n * h.blockBytes := hn ▸ (Nat.le_mul_iff_le_left hbb0).symm
  by_cases hz : size.toNat = 0
  · have h0 : need = 0 := Nat.le_zero.1 ((hfits 0).2 (by omega))
    refine .inl ⟨hz, ?_⟩
    simp [TinyHeap.alloc, hn, h0, Nat.ne_of_gt hbb0, throw, throwThe, MonadExceptOf.throw, bind,
      Except.bind]
  have hpos : 0 < need := Nat.pos_of_ne_zero fun h0 => by
    have := (hfits 0).1 (by omega)
    omega
  right
  rw [TinyHeap.alloc_eq (Nat.ne_of_gt hbb0) hn (Nat.ne_of_gt hpos) hneed]
  obtain ⟨lists, hidx⟩ := hi.indexed
  have hspec := hidx.findFreeSpan_spec hi.spanSize_free
    (fun b n hb => by have := hi.tagged.free_lt hb; omega) need
  rcases hspec with ⟨hnone, hshort⟩ | ⟨n, hfree, hle⟩
  · refine .inl ⟨by omega, fun p hp hpf => ?_, by rw [hnone]; split <;> rfl⟩
    by_contra hge
    have := hshort p.start p.len (by unfold Free; rw [← hpf]; exact hp)
    have := (hfits p.len).2 (by omega)
    omega
  · have hlt := hi.tagged.free_lt hfree
    have hno : tinyNoBlock = 2 ^ 32 - 1 := rfl
    rw [if_neg (by omega), if_neg (by omega), hi.spanSize_free _ _ hfree]
    obtain ⟨pre, post, hsplit⟩ := append_of_mem hfree
    have hps : ps = pre ++ [⟨h.findFreeSpan need, n, .free⟩] ++ post := by rw [hsplit]; simp
    refine .inr ⟨by omega, pre, _, post, need, _, hps, rfl, hpos, hle, (hfits need).1 (Nat.le_refl _), rfl,
      TinyHeap.takeSpan_blockBytes _ _ _ _, ?_⟩
    rw [hps] at hi
    exact hi.take rfl hpos hle

end TinyInv

/-! ## Release -/

/-- Memory of spans outside the index may be overwritten. -/
theorem Indexed.poisonLinks {lists : Nat → List Nat} {P : Nat → Nat → Prop} {b : Nat}
    (hi : Indexed h P lists) (hbb : 8 ≤ h.blockBytes) (hb : ∀ n, ¬ P b n) :
    Indexed (h.poisonLinks b) P lists := by
  unfold TinyHeap.poisonLinks
  split
  · refine hi.of_mem hbb (fun k (hk : k < b * h.blockBytes ∨ (b + 1) * h.blockBytes ≤ k) => ?_) ?_
    · rw [Nat.succ_mul] at hk
      rcases hk with hk | hk
      · exact ByteMem.fill_of_lt hk
      · exact ByteMem.fill_of_ge (by simp only [tinyFreeLinkBytes]; omega)
    · intro c n hc
      have : c ≠ b := fun he => hb n (he ▸ hc)
      omega
  · exact hi

theorem TinyHeap.sameTags_poisonLinks (b : Nat) : h.SameTags (h.poisonLinks b) := by
  unfold poisonLinks
  split
  · exact ⟨rfl, rfl, rfl, rfl, rfl⟩
  · exact .refl h

/-- A free span `q` next to the loose span `p` leaves the index, and the two become one. The two are
given in the order of their addresses. -/
theorem Tagged.absorb {p q r : Span} {lists : Nat → List Nat}
    (hsized : Sized h) (ht : Tagged h (pre ++ [p, q] ++ post)) (hr : r = p ∨ r = q)
    (hidx : Indexed h (fun b n => Free (pre ++ post) b n ∨ (b = r.start ∧ n = r.len)) lists) :
    ∃ lists', Indexed (((((h.removeFree r.start r.len).poisonLinks r.start).clearSpan p.start
        p.len).clearSpan q.start q.len).setSpan p.start (p.len + q.len) false)
      (Free (pre ++ post)) lists' ∧
    Tagged (((((h.removeFree r.start r.len).poisonLinks r.start).clearSpan p.start
        p.len).clearSpan q.start q.len).setSpan p.start (p.len + q.len) false)
      (pre ++ [⟨p.start, p.len + q.len, .free⟩] ++ post) ∧
    Sized (((((h.removeFree r.start r.len).poisonLinks r.start).clearSpan p.start
        p.len).clearSpan q.start q.len).setSpan p.start (p.len + q.len) false) := by
  have hrmem : r ∈ pre ++ [p, q] ++ post := by
    rcases hr with rfl | rfl <;> simp
  have hrb := ht.tiles.bounds hrmem
  have hrs : r.stop = r.start + r.len := rfl
  have hsz := hsized.blockCount_lt
  -- The spans besides `p` and `q` do not start where `r` does.
  have hother : ∀ b n, Free (pre ++ post) b n → b ≠ r.start := by
    intro b n hb he
    have heq := ht.tiles.eq_of_start (mem_outer hb) hrmem he
    have hnd := ht.tiles.nodup
    rw [append_assoc, nodup_append, nodup_append] at hnd
    unfold Free at hb
    rw [heq, mem_append] at hb
    have hrpq : r ∈ [p, q] := by rcases hr with rfl | rfl <;> simp
    rcases hb with hb | hb
    · exact hnd.2.2 r hb r (by simp only [mem_append]; exact .inl hrpq) rfl
    · exact hnd.2.1.2.2 r hrpq r hb rfl
  have hunique : ∀ b m n, (Free (pre ++ post) b m ∨ (b = r.start ∧ m = r.len)) →
      (Free (pre ++ post) b n ∨ (b = r.start ∧ n = r.len)) → m = n := by
    rintro b m n (hm | ⟨rfl, rfl⟩) (hn | ⟨he, rfl⟩)
    · exact ht.free_unique b m n (mem_outer hm) (mem_outer hn)
    · exact absurd he (hother b m hm)
    · exact absurd rfl (hother _ n hn)
    · rfl
  obtain ⟨lists', hidx'⟩ := hidx.remove hunique hsized.blockBytes (b := r.start) (by omega) (.inr ⟨rfl, rfl⟩)
  have htags := (TinyHeap.sameTags_removeFree (h := h) r.start r.len).trans
    (TinyHeap.sameTags_poisonLinks r.start)
  have hsame := ((TinyHeap.sameIndex_clearSpan (h := (h.removeFree r.start r.len).poisonLinks r.start)
    p.start p.len).trans (TinyHeap.sameIndex_clearSpan q.start q.len)).trans
    (TinyHeap.sameIndex_setSpan p.start (p.len + q.len) false)
  have hsized' := hsized.of_sameTags htags
  refine ⟨lists', ?_, ?_, hsized'.of_sameIndex hsame⟩
  · have hbb := (hsized.of_sameTags (TinyHeap.sameTags_removeFree r.start r.len)).blockBytes
    refine ((hidx'.poisonLinks hbb fun n hn => hn.2 rfl).of_sameIndex hsame).of_iff fun b n => ?_
    constructor
    · exact fun hb => ⟨.inl hb, hother b n hb⟩
    · rintro ⟨hb | ⟨he, -⟩, hne⟩
      · exact hb
      · exact absurd he hne
  · refine (ht.of_sameTags htags).merge ?_
    have := hsized'.blockCount_lt
    omega

theorem free_cons_iff {l₁ l₂ : List Span} {q : Span} (hq : q.kind = .free) (b n : Nat) :
    (Free (l₁ ++ l₂) b n ∨ (b = q.start ∧ n = q.len)) ↔ Free (l₁ ++ [q] ++ l₂) b n := by
  have hq' : (⟨b, n, .free⟩ : Span) = q ↔ b = q.start ∧ n = q.len := by
    cases q
    cases hq
    simp
  unfold Free
  simp only [mem_append, mem_singleton, hq']
  tauto

namespace Loose

variable {h : TinyHeap} {pre post : List Span} {p : Span}

/-- After the merge to the left, what stands before the span is live. -/
theorem mergePrev_spec (hl : Loose h pre p post) : ∃ h' pre' p',
    h.mergePrev p.start p.len = (h', p'.start, p'.len) ∧ Loose h' pre' p' post ∧ p'.stop = p.stop ∧
    (∀ q ∈ pre', q.kind = .free → q.stop ≠ p'.start) ∧ (∀ r, r.kind = .live → (r ∈ pre' ↔ r ∈ pre)) := by
  rcases eq_nil_or_concat pre with rfl | ⟨pre₀, q, hpre⟩
  · have h0 : p.start = 0 := by
      have := hl.tagged.tiles
      rw [nil_append, singleton_append] at this
      exact this.1
    refine ⟨h, [], p, ?_, hl, rfl, by simp, fun _ _ => Iff.rfl⟩
    rw [TinyHeap.mergePrev, if_neg (by omega)]
  · rw [concat_eq_append] at hpre
    subst hpre
    have hq : q ∈ pre₀ ++ [q] ++ [p] ++ post := by simp
    have hqb := hl.tagged.tiles.bounds hq
    have hqs : q.stop = q.start + q.len := rfl
    have hps : p.stop = p.start + p.len := rfl
    have hadj : q.stop = p.start := by
      obtain ⟨_, hpm, -⟩ := Tiling.tiles_append.1 hl.tagged.tiles
      obtain ⟨_, hpq, hp, -⟩ := Tiling.tiles_append.1 hpm
      obtain ⟨_, -, -, -, hend⟩ := Tiling.tiles_append.1 hpq
      exact hend.trans hp.symm
    have hsize : h.spanSize (p.start - 1) = q.len := hadj ▸ hl.tagged.spanSize_last hq
    have hback : p.start - q.len = q.start := by omega
    have hused : h.isUsedStart q.start = decide (q.kind = .live) := (hl.tagged.tags q hq).used
    cases hk : q.kind with
    | live =>
      refine ⟨h, pre₀ ++ [q], p, ?_, hl, rfl, fun r hr hrf hstop => ?_, fun _ _ => Iff.rfl⟩
      · rw [TinyHeap.mergePrev, if_pos (by omega)]
        simp only [hsize, hback, hused, hk]
        rw [if_pos (by omega), if_neg (by simp)]
      · have hrm : r ∈ pre₀ ++ [q] ++ [p] ++ post := by
          rw [append_assoc]
          exact mem_append_left _ hr
        have hrl := hl.tagged.tiles.start_lt hrm
        have := hl.tagged.tiles.eq_of_overlap (b := p.start - 1) hrm hq (by omega) (by omega)
        rw [this, hk] at hrf
        cases hrf
    | free =>
      obtain ⟨lists, hidx⟩ := hl.indexed
      have htag : Tagged h (pre₀ ++ [q, p] ++ post) := by
        have := hl.tagged
        simpa using this
      obtain ⟨lists', hidx', htag', hsized'⟩ :=
        htag.absorb hl.sized (.inl rfl) (hidx.of_iff (free_cons_iff hk))
      refine ⟨_, pre₀, ⟨q.start, q.len + p.len, .free⟩, ?_,
        ⟨hsized', htag', rfl, fun a ha b hb => hl.maximal a (mem_outer ha) b (mem_outer hb), lists', hidx'⟩,
        ?_, fun r hr hrf => ?_, fun r hr => ?_⟩
      · rw [TinyHeap.mergePrev, if_pos (by omega)]
        simp only [hsize, hback, hused, hk]
        rw [if_pos (by omega), if_pos ⟨by simp, hl.tagged.spanSize_start hq, by omega⟩]
      · change q.start + (q.len + p.len) = p.stop
        omega
      · exact hl.maximal r (by simp [hr]) q (by simp) hrf hk
      · have := mem_middle pre₀ [] (q := q) (r := r) (by simp [hr, hk])
        simpa using this.symm

/-- After the merge to the right, what stands behind the span is live. -/
theorem mergeNext_spec (hl : Loose h pre p post) : ∃ h' post' p',
    h.mergeNext p.start p.len = (h', p'.len) ∧ Loose h' pre p' post' ∧ p'.start = p.start ∧
    (∀ q ∈ post', q.kind = .free → p'.stop ≠ q.start) ∧
    (∀ r, r.kind = .live → (r ∈ post' ↔ r ∈ post)) := by
  have hps : p.stop = p.start + p.len := rfl
  have htiles := hl.tagged.tiles
  rw [append_assoc, singleton_append] at htiles
  obtain ⟨-, -, hpost⟩ := Tiling.tiles_split.1 htiles
  cases post with
  | nil =>
    refine ⟨h, [], p, ?_, hl, rfl, by simp, fun _ _ => Iff.rfl⟩
    rw [TinyHeap.mergeNext, if_neg]
    have : p.stop = h.blockCount := hpost
    omega
  | cons q post₀ =>
    obtain ⟨hadj, hql, hpost₀⟩ := hpost
    have hq : q ∈ pre ++ [p] ++ q :: post₀ := by simp
    have hqb := hl.tagged.tiles.bounds hq
    have hqs : q.stop = q.start + q.len := rfl
    have hnext : p.start + p.len = q.start := by omega
    have hsize : h.spanSize q.start = q.len := hl.tagged.spanSize_start hq
    have hused : h.isUsedStart q.start = decide (q.kind = .live) := (hl.tagged.tags q hq).used
    cases hk : q.kind with
    | live =>
      refine ⟨h, q :: post₀, p, ?_, hl, rfl, fun r hr hrf hstop => ?_, fun _ _ => Iff.rfl⟩
      · rw [TinyHeap.mergeNext]
        simp only [hnext, hsize, hused, hk]
        rw [if_pos (by omega), if_neg (by simp)]
      · have hrm : r ∈ pre ++ [p] ++ q :: post₀ := mem_append_right _ hr
        have := hl.tagged.tiles.eq_of_start hrm hq (by omega)
        rw [this, hk] at hrf
        cases hrf
    | free =>
      obtain ⟨lists, hidx⟩ := hl.indexed
      have htag : Tagged h (pre ++ [p, q] ++ post₀) := by
        have := hl.tagged
        simpa using this
      have hidx₀ : Indexed h (fun b n => Free (pre ++ post₀) b n ∨ (b = q.start ∧ n = q.len)) lists :=
        hidx.of_iff fun b n => by rw [free_cons_iff hk]; simp
      obtain ⟨lists', hidx', htag', hsized'⟩ := htag.absorb hl.sized (.inr rfl) hidx₀
      have hsub : ∀ r ∈ pre ++ post₀, r ∈ pre ++ q :: post₀ := by
        intro r hr
        simp only [mem_append, mem_cons] at hr ⊢
        tauto
      refine ⟨_, post₀, ⟨p.start, p.len + q.len, .free⟩, ?_,
        ⟨hsized', htag', rfl, fun a ha b hb => hl.maximal a (hsub a ha) b (hsub b hb), lists', hidx'⟩,
        rfl, fun r hr hrf => ?_, fun r hr => ?_⟩
      · rw [TinyHeap.mergeNext]
        simp only [hnext, hsize, hused, hk]
        rw [if_pos (by omega), if_pos ⟨by omega, by omega, by simp⟩]
      · change p.start + (p.len + q.len) ≠ r.start
        have := hl.maximal q (by simp) r (by simp [hr]) hk hrf
        omega
      · have := mem_middle [] post₀ (q := q) (r := r) (by simp [hr, hk])
        simpa using this.symm

end Loose

namespace TinyHeap

theorem mergePrev_blockBytes (h : TinyHeap) (b span : Nat) :
    (h.mergePrev b span).1.blockBytes = h.blockBytes := by
  unfold mergePrev
  dsimp only
  split_ifs <;> try rfl
  rw [(sameIndex_setSpan _ _ _).blockBytes, (sameIndex_clearSpan _ _).blockBytes,
    (sameIndex_clearSpan _ _).blockBytes, (sameTags_poisonLinks _).blockBytes,
    (sameTags_removeFree _ _).blockBytes]

theorem mergeNext_blockBytes (h : TinyHeap) (b span : Nat) :
    (h.mergeNext b span).1.blockBytes = h.blockBytes := by
  unfold mergeNext
  dsimp only
  split_ifs <;> try rfl
  rw [(sameIndex_setSpan _ _ _).blockBytes, (sameIndex_clearSpan _ _).blockBytes,
    (sameIndex_clearSpan _ _).blockBytes, (sameTags_poisonLinks _).blockBytes,
    (sameTags_removeFree _ _).blockBytes]

/-- The bytes of a released span, overwritten if the heap is to poison them. -/
def poisonSpan (h : TinyHeap) (poison : Bool) (b span : Nat) : TinyHeap :=
  if poison then h.poison (b * h.blockBytes) ((b + span) * h.blockBytes) else h

theorem sameTags_poisonSpan (h : TinyHeap) (poison : Bool) (b span : Nat) :
    h.SameTags (h.poisonSpan poison b span) := by
  unfold poisonSpan
  split
  · exact ⟨rfl, rfl, rfl, rfl, rfl⟩
  · exact .refl h

/-- The merges and the insertion at the end of a release. -/
def coalesce (h : TinyHeap) (b span : Nat) : TinyHeap :=
  let m := h.mergePrev b span
  let n := m.1.mergeNext m.2.1 m.2.2
  n.1.insertFree m.2.1 n.2

theorem coalesce_blockBytes (h : TinyHeap) (b span : Nat) :
    (h.coalesce b span).blockBytes = h.blockBytes := by
  unfold coalesce
  dsimp only
  rw [(sameTags_insertFree _ _).blockBytes, mergeNext_blockBytes, mergePrev_blockBytes]

theorem freeSpan_eq (h : TinyHeap) (off : UInt32) (poison : Bool) :
    h.freeSpan off poison =
      if h.blockBytes = 0 ∨ off.toNat % h.blockBytes ≠ 0 then .error .invalidFreeOffset
      else
        let b := off.toNat / h.blockBytes
        if b ≥ h.blockCount ∨ !h.isUsedStart b ∨ h.spanSize b = 0 then .error .invalidFreeSpan
        else .ok (((h.poisonSpan poison b (h.spanSize b)).setUsedStart b false).coalesce b
          (h.spanSize b)) := by
  unfold freeSpan
  dsimp only
  split
  · rfl
  · split <;> rfl

end TinyHeap

/-- Merging a loose span with its neighbours and putting it into the index. -/
theorem Loose.coalesce (hl : Loose h pre p post) :
    ∃ ps, TinyInv (h.coalesce p.start p.len) ps ∧
      ∀ r, r.kind = .live → (r ∈ ps ↔ r ∈ pre ++ post) := by
  obtain ⟨h₁, pre', p₁, heq₁, hl₁, -, hprev, hlive₁⟩ := hl.mergePrev_spec
  obtain ⟨h₂, post', p₂, heq₂, hl₂, hstart, hnext, hlive₂⟩ := hl₁.mergeNext_spec
  have heq : h.coalesce p.start p.len = h₂.insertFree p₂.start p₂.len := by
    unfold TinyHeap.coalesce
    rw [heq₁]
    dsimp only
    rw [heq₂, hstart]
  have htiles := hl₂.tagged.tiles
  rw [append_assoc, singleton_append] at htiles
  obtain ⟨hpre, hlen, hpost⟩ := Tiling.tiles_split.1 htiles
  have hstop : p₂.stop = p₂.start + p₂.len := rfl
  refine ⟨pre' ++ [p₂] ++ post', ?_, fun r hr => ?_⟩
  · rw [heq]
    refine hl₂.insert (fun q hq hqf => ?_) (fun q hq hqf => ?_)
    · rcases mem_append.1 hq with hq | hq
      · exact hstart ▸ hprev q hq hqf
      · have := hpost.bounds hq
        have := hpost.start_lt hq
        omega
    · rcases mem_append.1 hq with hq | hq
      · have := hpre.bounds hq
        have := hpre.start_lt hq
        omega
      · exact hnext q hq hqf
  · rw [mem_middle pre' post' (by simp [hr, hl₂.kind]), mem_append, mem_append, hlive₁ r hr, hlive₂ r hr]

namespace TinyInv

variable {h : TinyHeap} {ps pre post : List Span} {p : Span}

theorem of_sameTags {h' : TinyHeap} {lists : Nat → List Nat} (hi : TinyInv h ps) (hs : h.SameTags h')
    (hidx : Indexed h' (Free ps) lists) : TinyInv h' ps :=
  ⟨hi.sized.of_sameTags hs, hi.tagged.of_sameTags hs, hi.maximal, lists, hidx⟩

/-- A live span's bytes are its owner's. -/
theorem write_live {mem : Nat → UInt8} (hi : TinyInv h ps) (hp : p ∈ ps) (hk : p.kind = .live)
    (hmem : ∀ k, k < p.start * h.blockBytes ∨ p.stop * h.blockBytes ≤ k → mem k = h.mem k) :
    TinyInv { h with mem } ps := by
  obtain ⟨lists, hidx⟩ := hi.indexed
  refine hi.of_sameTags ⟨rfl, rfl, rfl, rfl, rfl⟩ (hidx.of_mem hi.sized.blockBytes hmem fun b n hb => ?_)
  by_contra hin
  have hlt := hi.tagged.tiles.start_lt hb
  have heq := hi.tagged.tiles.eq_of_overlap (b := b) hb hp ⟨Nat.le_refl _, hlt⟩ (by omega)
  rw [← heq] at hk
  cases hk

theorem poisonSpan (hi : TinyInv h ps) (hp : p ∈ ps) (hk : p.kind = .live) (poison : Bool) :
    TinyInv (h.poisonSpan poison p.start p.len) ps := by
  unfold TinyHeap.poisonSpan
  split
  · refine hi.write_live hp hk fun k hk => ?_
    rcases hk with hk | hk
    · exact ByteMem.fill_of_lt hk
    · exact ByteMem.fill_of_ge hk
  · exact hi

/-- Giving up a live span. -/
theorem release (hi : TinyInv h (pre ++ [p] ++ post)) (hk : p.kind = .live) :
    Loose (h.setUsedStart p.start false) pre { p with kind := .free } post := by
  obtain ⟨lists, hidx⟩ := hi.indexed
  have hs := TinyHeap.sameIndex_setUsedStart (h := h) p.start false
  refine ⟨hi.sized.of_sameIndex hs, hi.tagged.setKind .free, rfl,
    fun q hq r hr => hi.maximal q (mem_outer hq) r (mem_outer hr), lists,
    (hidx.of_sameIndex hs).of_iff fun b n => ?_⟩
  have hne : (⟨b, n, .free⟩ : Span) ≠ p := by
    rintro rfl
    cases hk
  unfold Free
  simp [hne]

/-- What a release does: it fails unless the offset is the start of a live span, and it makes exactly
that span free. -/
theorem freeSpan_cases (hi : TinyInv h ps) (off : UInt32) (poison : Bool) :
    ((∀ p ∈ ps, p.kind = .live → p.start * h.blockBytes ≠ off.toNat) ∧
      ∃ e, h.freeSpan off poison = .error e) ∨
    ∃ p ∈ ps, p.kind = .live ∧ p.start * h.blockBytes = off.toNat ∧ ∃ h' ps',
      h.freeSpan off poison = .ok h' ∧ h'.blockBytes = h.blockBytes ∧ TinyInv h' ps' ∧
      ∀ r, r.kind = .live → (r ∈ ps' ↔ r ∈ ps ∧ r ≠ p) := by
  have hbb := hi.sized.blockBytes
  have hbb0 : 0 < h.blockBytes := by omega
  rw [TinyHeap.freeSpan_eq]
  by_cases hlive : ∃ p ∈ ps, p.kind = .live ∧ p.start * h.blockBytes = off.toNat
  · right
    obtain ⟨p, hp, hk, hoff⟩ := hlive
    have hlt := hi.tagged.tiles.start_lt hp
    have hbd := hi.tagged.tiles.bounds hp
    have hdiv : off.toNat / h.blockBytes = p.start := by
      rw [← hoff, Nat.mul_div_cancel _ hbb0]
    have hmod : off.toNat % h.blockBytes = 0 := by rw [← hoff, Nat.mul_mod_left]
    have hused : h.isUsedStart p.start = true := by
      rw [(hi.tagged.tags p hp).used, hk]
      rfl
    have hsize := hi.tagged.spanSize_start hp
    obtain ⟨pre, post, hsplit⟩ := append_of_mem hp
    have hps : ps = pre ++ [p] ++ post := by rw [hsplit]; simp
    have hnd := hi.tagged.tiles.nodup
    have hi' := hi.poisonSpan hp hk poison
    rw [hps] at hi'
    obtain ⟨ps', hinv, hmem⟩ := (hi'.release hk).coalesce
    refine ⟨p, hp, hk, hoff, _, ps', ?_, ?_, hinv, fun r hr => ?_⟩
    · dsimp only
      rw [if_neg (by omega), hdiv, hsize, hused, if_neg (by simp; omega)]
    · rw [TinyHeap.coalesce_blockBytes, (TinyHeap.sameIndex_setUsedStart _ _).blockBytes,
        (TinyHeap.sameTags_poisonSpan _ _ _ _).blockBytes]
    · rw [hmem r hr, hps]
      rw [hsplit, nodup_middle, nodup_cons] at hnd
      simp only [mem_append, mem_singleton] at hnd ⊢
      constructor
      · intro hr
        exact ⟨by tauto, fun he => hnd.1 (he ▸ hr)⟩
      · tauto
  · left
    refine ⟨fun p hp hk hoff => hlive ⟨p, hp, hk, hoff⟩, ?_⟩
    dsimp only
    split
    · exact ⟨_, rfl⟩
    split
    · exact ⟨_, rfl⟩
    · -- A used start at the offset would be a live span.
      rename_i hmod hbad
      exfalso
      have hb : off.toNat / h.blockBytes < h.blockCount := by omega
      have hu : h.isUsedStart (off.toNat / h.blockBytes) = true := by
        simp only [Bool.not_eq_true', not_or, Bool.not_eq_false] at hbad
        exact hbad.2.1
      obtain ⟨p, hp, hstart, hk⟩ := hi.tagged.live_of_used hb hu
      refine hlive ⟨p, hp, hk, ?_⟩
      rw [hstart]
      exact Nat.div_mul_cancel (Nat.dvd_of_mod_eq_zero (by omega))

end TinyInv

end Wago.Gc
