/-
What a validated type section guarantees of every definition: it uses only members of its own group
and types declared before it, it has at most one supertype and the supertype precedes it.
-/
import Wago.Wasm.TypeSection

namespace Wago.Wasm

section

variable (types : List RecType) (g : Nat)

def HeapInScope : HeapType → Prop
  | .abs _ => True
  | .typeIndex idx => IdxInScope types g idx
  | .defType d => d.isSome
  | .bottom => False

def ValInScope : ValType → Prop
  | .ref r => HeapInScope types g r.heap
  | .bot => False
  | _ => True

def FieldInScope (f : FieldType) : Prop :=
  match f.storage with
  | .val v => ValInScope types g v
  | .packed _ => True

def CompInScope : CompType → Prop
  | .func ps rs => (∀ t ∈ ps, ValInScope types g t) ∧ ∀ t ∈ rs, ValInScope types g t
  | .struct fs => ∀ f ∈ fs, FieldInScope types g f
  | .array f => FieldInScope types g f

/-- Member `l` of group `g`. -/
structure SubTypeInScope (l : Nat) (st : SubType) : Prop where
  supers_length : st.supers.length ≤ 1
  supers : ∀ sup ∈ st.supers, IdxInScope types g sup ∧ (sup.isRec = true → sup.index < l)
  describes : ∀ idx ∈ st.describes, IdxInScope types g idx
  descriptor : ∀ idx ∈ st.descriptor, IdxInScope types g idx
  comp : CompInScope types g st.comp

end

def TypesInScope (types : List RecType) : Prop :=
  ∀ ⦃i g l st⦄, AtPos types i g l st → SubTypeInScope types g l st

section

variable {types : List RecType} {g : Nat}

theorem validateHeapType_ok {h : HeapType}
    (hok : validateHeapTypeInRecGroup types h (some g) = .ok ()) : HeapInScope types g h := by
  unfold validateHeapTypeInRecGroup at hok
  cases h with
  | abs a => trivial
  | typeIndex idx =>
    simp only at hok
    split at hok
    · exact (validTypeIdxInRecGroup_iff.1 ‹_›).2
    · cases hok
  | defType d => cases d <;> [cases hok; rfl]
  | bottom => cases hok

theorem validateValType_ok {t : ValType}
    (hok : validateValTypeInRecGroup types t (some g) = .ok ()) : ValInScope types g t := by
  cases t with
  | ref r => exact validateHeapType_ok hok
  | bot => cases hok
  | _ => trivial

theorem validateFieldType_ok {f : FieldType}
    (hok : validateFieldTypeInRecGroup types f (some g) = .ok ()) : FieldInScope types g f := by
  obtain ⟨st, m⟩ := f
  cases st with
  | val v => exact validateValType_ok (t := v) hok
  | packed p => trivial

theorem validateCompType_ok {ct : CompType}
    (hok : validateCompTypeInRecGroup types ct (some g) = .ok ()) : CompInScope types g ct := by
  cases ct with
  | func ps rs =>
    obtain ⟨hp, hr⟩ := Run.except_seq_ok.1 hok
    rw [Run.except_forM_ok] at hp hr
    exact ⟨fun t ht => validateValType_ok (hp t ht), fun t ht => validateValType_ok (hr t ht)⟩
  | struct fs =>
    rw [validateCompTypeInRecGroup, Run.except_forM_ok] at hok
    exact fun f hf => validateFieldType_ok (hok f hf)
  | array f => exact validateFieldType_ok hok

theorem validateSubType_ok {l : Nat} {st : SubType}
    (hok : validateSubTypeInRecGroup types g l st = .ok ()) : SubTypeInScope types g l st := by
  simp only [validateSubTypeInRecGroup, Run.except_seq_ok, moduleFailIf_ok, Run.except_forM_ok] at hok
  obtain ⟨hlen, hsup, hdes, hdesc, hcomp⟩ := hok
  refine ⟨by omega, ?_, ?_, ?_, validateCompType_ok hcomp⟩
  · intro sup hmem
    obtain ⟨hv, hlt⟩ := hsup sup hmem
    rw [Bool.not_eq_false] at hv
    exact ⟨(validTypeIdxInRecGroup_iff.1 hv).2, fun hr => by by_contra h; exact hlt ⟨hr, by omega⟩⟩
  · intro idx hmem
    rw [Option.mem_def] at hmem
    simp only [hmem, Option.any_some, Bool.not_eq_true', Bool.not_eq_false] at hdes
    exact (validTypeIdxInRecGroup_iff.1 hdes).2
  · intro idx hmem
    rw [Option.mem_def] at hmem
    simp only [hmem, Option.any_some, Bool.not_eq_true', Bool.not_eq_false] at hdesc
    exact (validTypeIdxInRecGroup_iff.1 hdesc).2

/-- Validation leaves the type section as it is and puts every definition in scope. -/
theorem validateTypeSection_inScope {ctx : TypeContext} (hok : validateTypeSection types = .ok ctx) :
    ctx.types = types ∧ TypesInScope types := by
  unfold validateTypeSection at hok
  obtain ⟨hscope, hrest⟩ := Run.except_seq_ok.1 hok
  obtain ⟨⟨enter, exit⟩, -, hret⟩ := Run.except_bind_ok.1 hrest
  cases hret
  refine ⟨rfl, ?_⟩
  rintro i g l st ⟨⟨rt, hrt, hst⟩, -⟩
  rw [Run.except_forM_ok] at hscope
  have hgroup := hscope (rt, g) (by simpa [List.mem_zipIdx_iff_getElem?] using hrt)
  rw [Run.except_forM_ok] at hgroup
  exact validateSubType_ok (hgroup (st, l) (by simpa [List.mem_zipIdx_iff_getElem?] using hst))

end

end Wago.Wasm
