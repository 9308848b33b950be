/-
Straight-line bounds certificates of the amd64 back end (`amd64/memory.go`, `boundsCertCovers` to
`boundsCertSourceBit`). A check emitted for a source proves the same source safe for every smaller
extent, until the source changes or the whole set is dropped. The set has eight entries replaced in
turn, or one entry when `optMultiBoundsCert` is off; a 64-bit filter of sources decides early that a
lookup or a removal has nothing to find.

The result is about every history of calls: what a query finds was recorded for that source, with at
least that extent, and nothing since then dropped it. It rests on the filter, whose bit of a live
entry is always set, so that a removal the filter skips had nothing to remove.
-/
import Mathlib.Tactic.Common
import Mathlib.Data.BitVec

namespace Wago.Railshot.Certs

/-! ## The set of certificates -/

/-- `extent` is an `int32`; the code only compares it. Kind 0 is no source, an empty entry. -/
structure BoundsCert where
  kind : UInt8 := 0
  idx : UInt32 := 0
  extent : Int := 0
deriving DecidableEq, Repr

structure BoundsCerts where
  certs : Vector BoundsCert 8 := Vector.replicate 8 {}
  next : UInt8 := 0
  sources : BitVec 64 := 0
deriving DecidableEq, Repr

def boundsCertSourceBit (kind : UInt8) (idx : UInt32) : BitVec 64 :=
  1#64 <<< ((idx * 2 + kind.toUInt32) &&& 63).toNat

def BoundsCert.isFor (c : BoundsCert) (kind : UInt8) (idx : UInt32) : Bool :=
  c.kind == kind && c.idx == idx

namespace BoundsCerts

/-- The first entry that passes, as the loops over `f.boundsCerts` find it. -/
def firstIndex (s : BoundsCerts) (p : BoundsCert → Bool) : Option (Fin 8) :=
  (List.finRange 8).find? fun i => p s.certs[i]

def put (s : BoundsCerts) (i : Fin 8) (c : BoundsCert) : BoundsCerts :=
  { s with certs := s.certs.set i c }

/-- Entry `i` is for the source already: its extent only grows. -/
def raise (s : BoundsCerts) (i : Fin 8) (extent : Int) : BoundsCerts :=
  if extent > s.certs[i].extent then s.put i { s.certs[i] with extent } else s

def boundsCertCovers (multi : Bool) (s : BoundsCerts) (kind : UInt8) (idx : UInt32)
    (extent : Int) : Bool :=
  if kind = 0 ∨ s.sources &&& boundsCertSourceBit kind idx = 0 then false
  else if !multi then
    s.certs[0].isFor kind idx && decide (extent ≤ s.certs[0].extent)
  else
    match s.firstIndex (·.isFor kind idx) with
    | some i => decide (extent ≤ s.certs[i].extent)
    | none => false

/-- `boundsCertUpdate` after the filter bit is set. -/
def store (multi : Bool) (s : BoundsCerts) (kind : UInt8) (idx : UInt32) (extent : Int) :
    BoundsCerts :=
  if !multi then
    if kind = 0 then s.put 0 {}
    else if s.certs[0].isFor kind idx then s.raise 0 extent
    else s.put 0 { kind, idx, extent }
  else if kind = 0 then s
  else
    match s.firstIndex (·.isFor kind idx) with
    | some i => s.raise i extent
    | none =>
      match s.firstIndex (·.kind == 0) with
      | some i => s.put i { kind, idx, extent }
      | none =>
        -- the cursor is a byte, and eight divides 256: it wraps on an entry boundary
        { s.put (Fin.ofNat 8 s.next.toNat) { kind, idx, extent } with next := s.next + 1 }

def boundsCertUpdate (multi : Bool) (s : BoundsCerts) (kind : UInt8) (idx : UInt32)
    (extent : Int) : BoundsCerts :=
  let s := if kind = 0 then s else { s with sources := s.sources ||| boundsCertSourceBit kind idx }
  s.store multi kind idx extent

def invalidateBoundsCert (s : BoundsCerts) : BoundsCerts :=
  if s.sources = 0 then s else {}

def invalidateBoundsCertFor (s : BoundsCerts) (kind : UInt8) (idx : UInt32) : BoundsCerts :=
  if s.sources &&& boundsCertSourceBit kind idx = 0 then s
  else { s with certs := s.certs.map fun c => if c.isFor kind idx then {} else c }

end BoundsCerts

/-! ## Histories -/

inductive CertCall where
  | update (kind : UInt8) (idx : UInt32) (extent : Int)
  | invalidate
  | invalidateFor (kind : UInt8) (idx : UInt32)
deriving DecidableEq, Repr

def CertCall.exec (multi : Bool) (s : BoundsCerts) : CertCall → BoundsCerts
  | .update kind idx extent => s.boundsCertUpdate multi kind idx extent
  | .invalidate => s.invalidateBoundsCert
  | .invalidateFor kind idx => s.invalidateBoundsCertFor kind idx

/-- The set a function has after these calls; every function starts from the empty one. -/
def certsAfter (multi : Bool) (calls : List CertCall) : BoundsCerts :=
  calls.foldl (CertCall.exec multi) {}

theorem certsAfter_snoc (multi : Bool) (calls : List CertCall) (call : CertCall) :
    certsAfter multi (calls ++ [call]) = call.exec multi (certsAfter multi calls) := by
  simp [certsAfter]

/-- The call drops what was proved of the source. -/
def CertCall.Drops (kind : UInt8) (idx : UInt32) : CertCall → Prop
  | .update .. => False
  | .invalidate => True
  | .invalidateFor k i => k = kind ∧ i = idx

/-- A check of at least `extent` was recorded for exactly this source, and none of the calls since
then dropped it. -/
def Recorded (calls : List CertCall) (kind : UInt8) (idx : UInt32) (extent : Int) : Prop :=
  ∃ before after e, calls = before ++ .update kind idx e :: after ∧ extent ≤ e ∧
    ∀ call ∈ after, ¬ call.Drops kind idx

theorem Recorded.last (calls : List CertCall) (kind : UInt8) (idx : UInt32) (extent : Int) :
    Recorded (calls ++ [.update kind idx extent]) kind idx extent :=
  ⟨calls, [], extent, rfl, le_refl _, by simp⟩

variable {calls : List CertCall}

theorem Recorded.snoc {kind : UInt8} {idx : UInt32} {extent : Int}
    (h : Recorded calls kind idx extent) {call : CertCall} (hc : ¬ call.Drops kind idx) :
    Recorded (calls ++ [call]) kind idx extent := by
  obtain ⟨before, after, e, rfl, he, ha⟩ := h
  refine ⟨before, after ++ [call], e, by simp, he, ?_⟩
  intro c hmem
  rcases List.mem_append.1 hmem with h' | h'
  · exact ha c h'
  · rw [List.mem_singleton.1 h']; exact hc

theorem Recorded.mono {kind : UInt8} {idx : UInt32} {x y : Int}
    (h : Recorded calls kind idx y) (hxy : x ≤ y) : Recorded calls kind idx x := by
  obtain ⟨before, after, e, heq, he, ha⟩ := h
  exact ⟨before, after, e, heq, hxy.trans he, ha⟩

/-! ## The filter -/

theorem boundsCertSourceBit_ne_zero (kind : UInt8) (idx : UInt32) :
    boundsCertSourceBit kind idx ≠ 0 := by
  have hlt : ((idx * 2 + kind.toUInt32) &&& 63).toNat < 64 := by
    rw [UInt32.toNat_and]
    exact lt_of_le_of_lt Nat.and_le_right (by decide)
  rw [boundsCertSourceBit]
  generalize ((idx * 2 + kind.toUInt32) &&& 63).toNat = n at hlt
  intro h
  have hbit := congrArg (fun b => b.getLsbD n) h
  simp at hbit
  omega

theorem filter_kept {s b c : BitVec 64} (h : s &&& b ≠ 0) : (s ||| c) &&& b ≠ 0 := by
  intro h0
  apply h
  ext i hi
  have hbit := congrArg (fun v => v.getLsbD i) h0
  simp only [BitVec.getLsbD_and, BitVec.getLsbD_or] at hbit
  simp only [BitVec.getElem_and]
  cases hs : s[i] <;> simp_all [BitVec.getLsbD_eq_getElem]

theorem filter_set {s b : BitVec 64} (h : b ≠ 0) : (s ||| b) &&& b ≠ 0 := by
  rw [BitVec.or_comm]
  exact filter_kept (by rwa [BitVec.and_self])

/-! ## What one call leaves in the set -/

namespace BoundsCerts

variable {s : BoundsCerts} {multi : Bool} {kind : UInt8} {idx : UInt32} {extent : Int}

theorem mem_put {i : Fin 8} {c d : BoundsCert} (h : c ∈ (s.put i d).certs) :
    c ∈ s.certs ∨ c = d :=
  @Vector.mem_or_eq_of_mem_set _ _ _ _ _ _ i.isLt h

theorem mem_raise {i : Fin 8} (hi : s.certs[i].isFor kind idx) {c : BoundsCert}
    (h : c ∈ (s.raise i extent).certs) : c ∈ s.certs ∨ c = { kind, idx, extent } := by
  obtain ⟨hk, hx⟩ : s.certs[i].kind = kind ∧ s.certs[i].idx = idx := by
    simpa [BoundsCert.isFor] using hi
  rw [raise] at h
  split at h
  · rw [← hk, ← hx]
    exact mem_put h
  · exact .inl h

theorem firstIndex_some {p : BoundsCert → Bool} {i : Fin 8} (h : s.firstIndex p = some i) :
    p s.certs[i] := by
  have := List.find?_some h
  exact this

/-- An update leaves the entries there were, an empty one, and the certificate of this check. -/
theorem mem_store {c : BoundsCert} (h : c ∈ (s.store multi kind idx extent).certs)
    (hc : c.kind ≠ 0) : c ∈ s.certs ∨ c = { kind, idx, extent } := by
  rw [store] at h
  split at h
  · split at h
    · rcases mem_put h with h | rfl
      · exact .inl h
      · exact absurd rfl hc
    · split at h
      · next hfor => exact mem_raise hfor h
      · exact mem_put h
  · split at h
    · exact .inl h
    · split at h
      · next i hi => exact mem_raise (firstIndex_some hi) h
      · split at h
        · exact mem_put h
        · exact mem_put h

@[simp] theorem store_sources : (s.store multi kind idx extent).sources = s.sources := by
  simp only [store, put, raise]
  repeat' split
  all_goals rfl

end BoundsCerts

/-! ## Every history -/

/-- Each live entry has its filter bit and a check in the history to show. -/
structure Sound (calls : List CertCall) (s : BoundsCerts) : Prop where
  filter : ∀ c ∈ s.certs, c.kind ≠ 0 → s.sources &&& boundsCertSourceBit c.kind c.idx ≠ 0
  recorded : ∀ c ∈ s.certs, c.kind ≠ 0 → Recorded calls c.kind c.idx c.extent

theorem Sound.empty (calls : List CertCall) : Sound calls {} := by
  constructor
  all_goals
    intro c hc hk
    rw [(Vector.mem_replicate.1 hc).2] at hk
    exact absurd rfl hk

variable {s : BoundsCerts}

theorem Sound.update (h : Sound calls s) (multi : Bool)
    (kind : UInt8) (idx : UInt32) (extent : Int) :
    Sound (calls ++ [.update kind idx extent]) (s.boundsCertUpdate multi kind idx extent) := by
  have hsrc : ∀ b, s.sources &&& b ≠ 0 →
      (s.boundsCertUpdate multi kind idx extent).sources &&& b ≠ 0 := by
    intro b hb
    rw [BoundsCerts.boundsCertUpdate, BoundsCerts.store_sources]
    split
    · exact hb
    · exact filter_kept hb
  -- the filter bit is set before the entries are touched
  have hmem : ∀ c ∈ (s.boundsCertUpdate multi kind idx extent).certs, c.kind ≠ 0 →
      c ∈ s.certs ∨ c = { kind, idx, extent } := by
    intro c hc hk
    rcases BoundsCerts.mem_store hc hk with h' | h'
    · left
      split at h' <;> exact h'
    · exact .inr h'
  constructor
  · intro c hc hk
    rcases hmem c hc hk with hc | rfl
    · exact hsrc _ (h.filter c hc hk)
    · rw [BoundsCerts.boundsCertUpdate, BoundsCerts.store_sources, if_neg hk]
      exact filter_set (boundsCertSourceBit_ne_zero kind idx)
  · intro c hc hk
    rcases hmem c hc hk with hc | rfl
    · exact (h.recorded c hc hk).snoc id
    · exact Recorded.last calls kind idx extent

theorem Sound.invalidate (h : Sound calls s) :
    Sound (calls ++ [.invalidate]) s.invalidateBoundsCert := by
  rw [BoundsCerts.invalidateBoundsCert]
  split
  · next hz =>
    -- an empty filter: no entry is live
    have hdead : ∀ c ∈ s.certs, c.kind = 0 := by
      intro c hc
      by_contra hk
      exact h.filter c hc hk (by rw [hz]; exact BitVec.zero_and)
    constructor
    all_goals
      intro c hc hk
      exact absurd (hdead c hc) hk
  · exact Sound.empty _

theorem Sound.invalidateFor (h : Sound calls s)
    (kind : UInt8) (idx : UInt32) :
    Sound (calls ++ [.invalidateFor kind idx]) (s.invalidateBoundsCertFor kind idx) := by
  -- whether or not the filter lets the removal run, no entry of the source is left
  have hleft : ∀ c ∈ (s.invalidateBoundsCertFor kind idx).certs, c.kind ≠ 0 →
      c ∈ s.certs ∧ ¬ (kind = c.kind ∧ idx = c.idx) := by
    intro c hc hk
    rw [BoundsCerts.invalidateBoundsCertFor] at hc
    split at hc
    · next hz =>
      refine ⟨hc, ?_⟩
      rintro ⟨rfl, rfl⟩
      exact h.filter c hc hk hz
    · obtain ⟨d, hd, rfl⟩ := Vector.mem_map.1 hc
      split at hk
      · exact absurd rfl hk
      · next hfor =>
        rw [if_neg hfor]
        refine ⟨hd, ?_⟩
        rintro ⟨rfl, rfl⟩
        simp [BoundsCert.isFor] at hfor
  have hsrc : (s.invalidateBoundsCertFor kind idx).sources = s.sources := by
    rw [BoundsCerts.invalidateBoundsCertFor]
    split <;> rfl
  constructor
  · intro c hc hk
    rw [hsrc]
    exact h.filter c (hleft c hc hk).1 hk
  · intro c hc hk
    exact (h.recorded c (hleft c hc hk).1 hk).snoc (hleft c hc hk).2

theorem Sound.exec (h : Sound calls s) (multi : Bool)
    (call : CertCall) : Sound (calls ++ [call]) (call.exec multi s) := by
  cases call with
  | update kind idx extent => exact h.update multi kind idx extent
  | invalidate => exact h.invalidate
  | invalidateFor kind idx => exact h.invalidateFor kind idx

theorem certsAfter_sound (multi : Bool) (calls : List CertCall) :
    Sound calls (certsAfter multi calls) := by
  induction calls using List.reverseRecOn with
  | nil => exact Sound.empty []
  | append_singleton calls call ih =>
    rw [certsAfter_snoc]
    exact ih.exec multi call

/-- What a query finds: a live entry of the source that is large enough. -/
theorem BoundsCerts.covers_entry {multi : Bool} {kind : UInt8} {idx : UInt32}
    {extent : Int} (h : s.boundsCertCovers multi kind idx extent = true) :
    ∃ c ∈ s.certs, c.kind = kind ∧ c.idx = idx ∧ kind ≠ 0 ∧ extent ≤ c.extent := by
  have entry : ∀ i : Fin 8, kind ≠ 0 → s.certs[i].isFor kind idx → extent ≤ s.certs[i].extent →
      ∃ c ∈ s.certs, c.kind = kind ∧ c.idx = idx ∧ kind ≠ 0 ∧ extent ≤ c.extent := by
    intro i hk hfor he
    obtain ⟨h1, h2⟩ : s.certs[i].kind = kind ∧ s.certs[i].idx = idx := by
      simpa [BoundsCert.isFor] using hfor
    exact ⟨s.certs[i], Vector.getElem_mem i.isLt, h1, h2, hk, he⟩
  rw [boundsCertCovers] at h
  split at h
  · cases h
  · next hsrc =>
    have hk : kind ≠ 0 := fun h0 => hsrc (.inl h0)
    split at h
    · rw [Bool.and_eq_true, decide_eq_true_eq] at h
      exact entry 0 hk h.1 h.2
    · split at h
      · next i hi => exact entry i hk (firstIndex_some hi) (of_decide_eq_true h)
      · cases h

/-- In either mode and after any calls, a covered query has a check of its source to rest on, at
least as large and not dropped since. -/
theorem covers_recorded (multi : Bool) (calls : List CertCall) (kind : UInt8) (idx : UInt32)
    (extent : Int) (h : (certsAfter multi calls).boundsCertCovers multi kind idx extent = true) :
    Recorded calls kind idx extent := by
  obtain ⟨c, hc, rfl, rfl, hk, he⟩ := BoundsCerts.covers_entry h
  exact ((certsAfter_sound multi calls).recorded c hc hk).mono he

/-- Two sources share a filter bit, and one of them was dropped: the other is still found. -/
theorem covers_recorded_collision :
    (certsAfter true [.update 1 0 8, .update 1 32 4, .invalidateFor 1 32]).boundsCertCovers
        true 1 0 8 = true ∧
      Recorded [.update 1 0 8, .update 1 32 4, .invalidateFor 1 32] 1 0 8 :=
  ⟨by decide +kernel, covers_recorded true _ 1 0 8 (by decide +kernel)⟩

end Wago.Railshot.Certs
