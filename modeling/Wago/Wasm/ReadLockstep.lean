/-
Reads look only at the bytes from their position on: two readers that stand before the same bytes
read the same values and move on by the same length, whatever their buffers before the position and
their budgets are.
-/
import Wago.Lib.Lockstep
import Wago.Wasm.InstrDecode
import Wago.Wasm.Leb

namespace Wago.Wasm

open Run

/-- From `r₀` and `s₀`, which stand before the same bytes, `r` and `s` moved on by the same length. -/
structure Aligned (r₀ s₀ r s : Reader) : Prop where
  start : r₀.rest = s₀.rest
  left_data : r.data = r₀.data
  right_data : s.data = s₀.data
  moved : ∃ n, r.pos = r₀.pos + n ∧ s.pos = s₀.pos + n

namespace Aligned

variable {r₀ s₀ r s : Reader}

theorem refl (h : r₀.rest = s₀.rest) : Aligned r₀ s₀ r₀ s₀ := ⟨h, rfl, rfl, 0, rfl, rfl⟩

variable (h : Aligned r₀ s₀ r s)

include h

theorem rest : r.rest = s.rest := by
  obtain ⟨n, hr, hs⟩ := h.moved
  unfold Reader.rest
  rw [h.left_data, h.right_data, hr, hs, ← List.drop_drop, ← List.drop_drop]
  exact congrArg (List.drop n) h.start

theorem advance (k : Nat) : Aligned r₀ s₀ (r.advance k) (s.advance k) := by
  obtain ⟨n, hr, hs⟩ := h.moved
  exact ⟨h.start, h.left_data, h.right_data, n + k, by simp [hr, Nat.add_assoc], by simp [hs, Nat.add_assoc]⟩

theorem left_budget (b : Option DecodeBudget) :
    Aligned r₀ s₀ { r with budget := b } s := ⟨h.start, h.left_data, h.right_data, h.moved⟩

/-- Two readers that began at the same position of one buffer end at the same position of it. -/
theorem pos_eq (hpos : r₀.pos = s₀.pos) : r.pos = s.pos := by
  obtain ⟨n, hr, hs⟩ := h.moved
  rw [hr, hs, hpos]

theorem peeked : r.data[r.pos]? = s.data[s.pos]? := by
  have := congrArg List.head? h.rest
  simpa [Reader.rest] using this

theorem left_length : r.data.length - r.pos = s.data.length - s.pos := by
  have := congrArg List.length h.rest
  simpa [Reader.rest] using this

end Aligned

section

variable {r₀ s₀ : Reader} {F : Err → Prop} {α β : Type} {R : α → β → Prop}

/-! ## Primitive reads -/

theorem failHere_lockstep {c c' : DecodeErrorCode} :
    Lockstep (Aligned r₀ s₀) F R (failHere c : ReadM α) (failHere c' : ReadM β) := ⟨fun _ => .fail⟩

theorem failPrev_lockstep {c c' : DecodeErrorCode} :
    Lockstep (Aligned r₀ s₀) F R (failPrev c : ReadM α) (failPrev c' : ReadM β) := ⟨fun _ => .fail⟩

theorem peek_lockstep : Lockstep (Aligned r₀ s₀) F Eq peek peek :=
  ⟨fun h => by rw [peek_run, peek_run, h.peeked]; exact .ok h rfl⟩

theorem skipByte_lockstep : Lockstep (Aligned r₀ s₀) F Eq skipByte skipByte :=
  ⟨fun h => .ok (h.advance 1) rfl⟩

theorem byte_lockstep : Lockstep (Aligned r₀ s₀) F Eq byte byte := by
  refine .bind_eq peek_lockstep fun b => ?_
  cases b with
  | none => exact failHere_lockstep
  | some b => exact .bind_eq skipByte_lockstep fun _ => .pure rfl

theorem bytes_run (n : Nat) (r : Reader) : (bytes n).run r =
    if n > r.data.length - r.pos then .error (.decode { code := .indexOutOfBounds, offset := r.pos }) r
    else .ok (r.rest.take n) (r.advance n) := by
  unfold bytes
  rw [bind_of_ok (show (get : ReadM Reader).run r = .ok r r from rfl), run_ite]
  rfl

theorem bytes_lockstep (n : Nat) : Lockstep (Aligned r₀ s₀) F Eq (bytes n) (bytes n) := by
  refine ⟨fun {r s} h => ?_⟩
  rw [bytes_run, bytes_run, h.left_length, h.rest]
  split
  · exact .fail
  · exact .ok (h.advance n) rfl

/-- A read characterised by the encodings it accepts is determined by the bytes left. -/
theorem Reads.lockstep {m : ReadM α} {G : List UInt8 → α → Prop}
    (hm : Reads Reader.rest Reader.advance m G) : Lockstep (Aligned r₀ s₀) F Eq m m := by
  refine ⟨fun {r s} h => ?_⟩
  cases hr : m.run r with
  | ok v r' =>
    obtain ⟨k, hk, rfl⟩ := (hm r r' v).1 hr
    rw [(hm s (s.advance k) v).2 ⟨k, h.rest ▸ hk, rfl⟩]
    exact .ok (h.advance k) rfl
  | error e r' =>
    cases hs : m.run s with
    | error => exact .fail
    | ok v s' =>
      obtain ⟨k, hk, rfl⟩ := (hm s s' v).1 hs
      rw [(hm r (r.advance k) v).2 ⟨k, h.rest ▸ hk, rfl⟩] at hr
      cases hr

theorem u32_lockstep : Lockstep (Aligned r₀ s₀) F Eq u32 u32 := u32_reads.lockstep
theorem u64_lockstep : Lockstep (Aligned r₀ s₀) F Eq u64 u64 := u64_reads.lockstep
theorem s33_lockstep : Lockstep (Aligned r₀ s₀) F Eq s33 s33 := s33_reads.lockstep
theorem i32_lockstep : Lockstep (Aligned r₀ s₀) F Eq i32 i32 := i32_reads.lockstep
theorem i64_lockstep : Lockstep (Aligned r₀ s₀) F Eq i64 i64 := i64_reads.lockstep

theorem orFailHere_lockstep {c c' : DecodeErrorCode} {x : ReadM α} {y : ReadM β}
    (h : Lockstep (Aligned r₀ s₀) (fun _ => False) R x y) :
    Lockstep (Aligned r₀ s₀) F R (orFailHere c x) (orFailHere c' y) := by
  refine ⟨fun {r s} hrs => ?_⟩
  have hxy := h.outcome hrs
  unfold orFailHere
  simp only [EStateM.run] at hxy ⊢
  generalize x r = rx at *
  generalize y s = ry at *
  cases hxy with
  | ok hI hR => exact .ok hI hR
  | fail => exact .fail
  | left hF => exact hF.elim

/-! ## Types and block types -/

theorem decodeS33TypeIdx_lockstep :
    Lockstep (Aligned r₀ s₀) F Eq decodeS33TypeIdx decodeS33TypeIdx :=
  .bind_eq s33_lockstep fun _ => .ite (fun _ => failHere_lockstep) fun _ => .pure rfl

theorem decodeAbsHeapType_lockstep :
    Lockstep (Aligned r₀ s₀) F Eq decodeAbsHeapType decodeAbsHeapType := by
  refine .bind_eq byte_lockstep fun b => ?_
  split
  · exact .pure rfl
  · exact failPrev_lockstep

theorem decodeHeapType_lockstep : Lockstep (Aligned r₀ s₀) F Eq decodeHeapType decodeHeapType := by
  refine .bind_eq peek_lockstep fun b => ?_
  split
  · exact .bind_eq decodeAbsHeapType_lockstep fun _ => .pure rfl
  · exact .bind_eq decodeS33TypeIdx_lockstep fun _ => .pure rfl

theorem decodeRefHeapType_lockstep :
    Lockstep (Aligned r₀ s₀) F Eq decodeRefHeapType decodeRefHeapType := by
  refine .bind_eq peek_lockstep fun b => ?_
  split
  · exact .bind_eq skipByte_lockstep fun _ => .bind_eq decodeS33TypeIdx_lockstep fun _ => .pure rfl
  · exact .bind_eq decodeHeapType_lockstep fun _ => .pure rfl

theorem decodeRefType_lockstep : Lockstep (Aligned r₀ s₀) F Eq decodeRefType decodeRefType := by
  refine .bind_eq byte_lockstep fun b => ?_
  split
  · exact .bind_eq decodeRefHeapType_lockstep fun _ => .pure rfl
  · exact .bind_eq decodeRefHeapType_lockstep fun _ => .pure rfl
  · split
    · exact .pure rfl
    · exact failPrev_lockstep

theorem decodeNumType_lockstep : Lockstep (Aligned r₀ s₀) F Eq decodeNumType decodeNumType := by
  refine .bind_eq byte_lockstep fun b => ?_
  split
  · exact .pure rfl
  · exact failPrev_lockstep

theorem decodeValType_lockstep : Lockstep (Aligned r₀ s₀) F Eq decodeValType decodeValType := by
  refine .bind_eq peek_lockstep fun b => ?_
  cases b with
  | none => exact failHere_lockstep
  | some b =>
    refine .ite (fun _ => .bind_eq decodeNumType_lockstep fun _ => .pure rfl) fun _ => ?_
    refine .ite (fun _ => .bind_eq skipByte_lockstep fun _ => .pure rfl) fun _ => ?_
    exact .ite (fun _ => .bind_eq decodeRefType_lockstep fun _ => .pure rfl)
      fun _ => failHere_lockstep

theorem decodeBlockType_lockstep :
    Lockstep (Aligned r₀ s₀) F Eq decodeBlockType decodeBlockType := by
  refine .bind_eq peek_lockstep fun b => ?_
  cases b with
  | none => exact failHere_lockstep
  | some b =>
    refine .ite (fun _ => .bind_eq skipByte_lockstep fun _ => .pure rfl) fun _ => ?_
    refine .ite (fun _ => .bind_eq decodeValType_lockstep fun _ => .pure rfl) fun _ => ?_
    exact .bind_eq (orFailHere_lockstep s33_lockstep) fun _ =>
      .ite (fun _ => failHere_lockstep) fun _ => .pure rfl

/-! ## Other immediates -/

theorem readReservedZeroByte_lockstep :
    Lockstep (Aligned r₀ s₀) F Eq readReservedZeroByte readReservedZeroByte :=
  .bind_eq byte_lockstep fun _ => .ite (fun _ => failPrev_lockstep) fun _ => .pure rfl

theorem readMemoryIndex_lockstep (multiMemory : Bool) :
    Lockstep (Aligned r₀ s₀) F Eq (readMemoryIndex multiMemory) (readMemoryIndex multiMemory) :=
  .ite (fun _ => u32_lockstep) fun _ => .bind_eq readReservedZeroByte_lockstep fun _ => .pure rfl

theorem readMemOffset_lockstep (w : MemargWidths) (i : Nat) :
    Lockstep (Aligned r₀ s₀) F Eq (readMemOffset w i) (readMemOffset w i) :=
  .ite (fun _ => u64_lockstep) fun _ => u32_lockstep

theorem decodeCastOp_lockstep : Lockstep (Aligned r₀ s₀) F Eq decodeCastOp decodeCastOp := by
  refine .bind_eq byte_lockstep fun b => ?_
  split <;> first | exact .pure rfl | exact failPrev_lockstep

theorem decodeAtomicOrder_lockstep :
    Lockstep (Aligned r₀ s₀) F Eq decodeAtomicOrder decodeAtomicOrder := by
  refine .bind_eq byte_lockstep fun b => ?_
  split <;> first | exact .pure rfl | exact failPrev_lockstep

end

end Wago.Wasm
