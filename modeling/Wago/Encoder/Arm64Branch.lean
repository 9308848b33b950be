/-
Where a patched 19-bit branch goes. `PatchBranch19` fills in the displacement by OR, or, when the
target is too far and the site has its reserved slot, turns the branch around over a B in the slot.

The expansion is right whatever the word held before. The short form is right exactly when the bits
already in the displacement field are among those of the new displacement: a site that was patched
once keeps the old bits. The native-import router is such a site, patched to the next word first and
to the fast body afterwards.
-/
import Wago.Encoder.Arm64

namespace Wago.Arm64

open CodeImage A64
open BitVec hiding not_not not_or

/-! ## Displacements -/

theorem branchTo_eq {n : Nat} (pc : BitVec 64) (imm : BitVec n) :
    branchTo pc imm = pc + BitVec.ofInt 64 (4 * imm.toInt) := by
  rw [branchTo, BitVec.signExtend, toInt_append_zero]
  rfl

theorem toInt_imm19 {d : Int} (h0 : -2 ^ 18 ≤ d) (h1 : d < 2 ^ 18) :
    (BitVec.ofInt 19 d).toInt = d := by
  rw [toInt_ofInt]
  exact Int.bmod_eq_of_le (by omega) (by omega)

theorem toInt_imm26 {d : Int} (h0 : -2 ^ 25 ≤ d) (h1 : d < 2 ^ 25) :
    (BitVec.ofInt 26 d).toInt = d := by
  rw [toInt_ofInt]
  exact Int.bmod_eq_of_le (by omega) (by omega)

/-! ## The words the fixup writes -/

theorem short_field (d : Int) :
    (BitVec.ofInt 32 d &&& 0x7FFFF#32) <<< 5 = join19 0#8 (BitVec.ofInt 19 d) 0#5 := by
  apply eq_of_toNat_eq
  have hmask : (BitVec.ofInt 32 d &&& 0x7FFFF#32).toNat = (BitVec.ofInt 32 d).toNat % 2 ^ 19 := by
    rw [toNat_and, ← Nat.and_two_pow_sub_one_eq_mod]
    rfl
  rw [toNat_shiftLeft, hmask, join19_toNat]
  simp only [toNat_ofInt, toNat_ofNat, Nat.shiftLeft_eq]
  omega

theorem branch26Word_eq (d : Int) :
    Asm.branch26Word d = (0b000101#6 ++ BitVec.ofInt 26 d : BitVec 32) := by
  have hmask : (BitVec.ofInt 32 d &&& 0x03FFFFFF#32).toNat = (BitVec.ofInt 32 d).toNat % 2 ^ 26 := by
    rw [toNat_and, ← Nat.and_two_pow_sub_one_eq_mod]
    rfl
  apply eq_of_toNat_eq
  have hlow : (BitVec.ofInt 32 d).toNat % 2 ^ 26 < 2 ^ 26 := Nat.mod_lt _ (by omega)
  rw [Asm.branch26Word, toNat_or, hmask, append_toNat,
    show (0x14000000#32).toNat = 5 <<< 26 from rfl, ← Nat.shiftLeft_add_eq_or_of_lt hlow]
  simp only [toNat_ofInt, toNat_ofNat, Nat.shiftLeft_eq]
  omega

section Word

variable (hi : BitVec 8) (imm : BitVec 19) (lo : BitVec 5)

theorem bcond_test : join19 hi imm lo &&& 0xFF000010#32 = 0x54000000#32 ↔
    hi = 0x54#8 ∧ lo.getLsbD 4 = false := by
  have hlo : ∀ lo : BitVec 5, lo &&& 0x10#5 = 0#5 ↔ lo.getLsbD 4 = false := by decide
  rw [show 0xFF000010#32 = join19 0xFF#8 0#19 0x10#5 from rfl,
    show 0x54000000#32 = join19 0x54#8 0#19 0#5 from rfl, join19_and, ← hlo]
  constructor
  · intro h
    obtain ⟨h1, -, h3⟩ := join19_inj _ _ _ h
    rw [show 0xFF#8 = BitVec.allOnes 8 from rfl, and_allOnes] at h1
    exact ⟨h1, h3⟩
  · rintro ⟨rfl, h3⟩
    rw [h3, and_zero]
    rfl

theorem compare_test : join19 hi imm lo &&& 0x7E000000#32 = 0x34000000#32 ↔
    hi &&& 0x7E#8 = 0x34#8 := by
  rw [show 0x7E000000#32 = join19 0x7E#8 0#19 0#5 from rfl,
    show 0x34000000#32 = join19 0x34#8 0#19 0#5 from rfl, join19_and]
  constructor
  · intro h
    exact (join19_inj _ _ _ h).1
  · intro h
    rw [h, and_zero, and_zero]

theorem always_test : join19 hi imm lo &&& 15#32 ≥ 14#32 ↔ 14 ≤ (lo.setWidth 4).toNat := by
  have hlo : ∀ lo : BitVec 5, (lo &&& 15#5).toNat = (lo.setWidth 4).toNat := by decide
  rw [show 15#32 = join19 0#8 0#19 15#5 from rfl, join19_and, and_zero, and_zero,
    ge_iff_le, le_def, join19_toNat, hlo]
  simp

theorem inverted_word : (join19 hi imm lo &&& ~~~ (0x7FFFF#32 <<< 5)) ||| (2#32 <<< 5) =
    join19 hi 2#19 lo := by
  rw [show ~~~ (0x7FFFF#32 <<< 5) = join19 0xFF#8 0#19 0x1F#5 from rfl,
    show 2#32 <<< 5 = join19 0#8 2#19 0#5 from rfl, join19_and, join19_or,
    show 0xFF#8 = BitVec.allOnes 8 from rfl, show 0x1F#5 = BitVec.allOnes 5 from rfl,
    and_allOnes, and_allOnes, and_zero, or_zero, or_zero,
    zero_or]

end Word

/-! ## The inverted branch -/

theorem conditionHolds_always (f : Flags) {cond : BitVec 4} (h : 14 ≤ cond.toNat) :
    conditionHolds f cond = true := by
  obtain ⟨n, z, c, v⟩ := f
  revert h
  revert cond n z c v
  decide

theorem conditionHolds_inverse (f : Flags) {cond : BitVec 4} (h : cond.toNat < 14) :
    conditionHolds f (cond ^^^ 1#4) = !conditionHolds f cond := by
  obtain ⟨n, z, c, v⟩ := f
  revert h
  revert cond n z c v
  decide

/-- The branch that tests the opposite. -/
def Inverts (w : BitVec 32) (i : Instr) : Prop :=
  ∃ i', decode w = some i' ∧ ∀ s, i'.exec s =
    if i.condition s then some (s.next, false)
    else some ({ s with pc := branchTo s.pc 2#19 }, true)

theorem bcond_inverts {imm : BitVec 19} {lo : BitVec 5} (hlo : lo.getLsbD 4 = false)
    (hc : (lo.setWidth 4).toNat < 14) :
    Inverts (join19 0x54#8 2#19 (lo ^^^ 1#5)) (.bCond (lo.setWidth 4) imm) := by
  have hx : ∀ lo : BitVec 5, lo.getLsbD 4 = false →
      (lo ^^^ 1#5).getLsbD 4 = false ∧ (lo ^^^ 1#5).setWidth 4 = lo.setWidth 4 ^^^ 1#4 := by decide
  obtain ⟨h4, hset⟩ := hx lo hlo
  refine ⟨.bCond (lo.setWidth 4 ^^^ 1#4) 2#19, ?_, ?_⟩
  · rw [decode_join19, if_pos ⟨rfl, h4⟩, hset]
  · intro s
    rw [Instr.exec, conditionHolds_inverse s.flags hc, Instr.condition]
    cases conditionHolds s.flags (lo.setWidth 4) <;> rfl

theorem compare_inverts {hi : BitVec 8} {imm : BitVec 19} {lo : BitVec 5}
    (hhi : hi &&& 0x7E#8 = 0x34#8) :
    Inverts (join19 (hi ^^^ 1#8) 2#19 lo)
      (.compareBranch (hi.getLsbD 7) (hi.getLsbD 0) lo imm) := by
  have hx : ∀ hi : BitVec 8, hi &&& 0x7E#8 = 0x34#8 → hi ^^^ 1#8 ≠ 0x54#8 ∧
      (hi ^^^ 1#8) &&& 0x7E#8 = 0x34#8 ∧ (hi ^^^ 1#8).getLsbD 7 = hi.getLsbD 7 ∧
      (hi ^^^ 1#8).getLsbD 0 = !hi.getLsbD 0 := by decide
  obtain ⟨hne, hmask, hwide, hnz⟩ := hx hi hhi
  refine ⟨.compareBranch (hi.getLsbD 7) (!hi.getLsbD 0) lo 2#19, ?_, ?_⟩
  · rw [decode_join19, if_neg (fun h => hne h.1), if_pos hmask, hwide, hnz]
  · intro s
    rw [Instr.exec, Instr.condition]
    generalize (if hi.getLsbD 7 = true then s.get lo == 0#64 else (s.get lo).setWidth 32 == 0#32) = z
    cases z <;> cases hi.getLsbD 0 <;> rfl

/-! ## Running a site -/

/-- Executing the words of the site goes to the target exactly when the condition holds, and on to
the word behind them otherwise; nothing but the program counter changes. -/
def Transfers (code : List (BitVec 8)) (site words : Nat) (i : Instr) (target : Int) : Prop :=
  ∀ (mem : BitVec 64 → BitVec 8) (base : BitVec 64) (s : State), Loaded mem base code →
    s.pc = base + BitVec.ofNat 64 site →
    runBlock mem words s = some { s with
      pc := if i.condition s then base + BitVec.ofInt 64 target
        else base + BitVec.ofNat 64 (site + 4 * words) }

/-- The words of a site: the branch, and the slot where one is reserved. -/
def siteWords (a : Asm) (site : Nat) : Nat :=
  if a.reserveBranch19 = true ∧ site + 8 ≤ a.B.length ∧ wordAt a.B (site + 4) = 0xD503201F#32 then 2
  else 1

variable {site : Nat} {target d : Int}

section Run

variable {mem : BitVec 64 → BitVec 8} {base : BitVec 64} {code : List (BitVec 8)} {site : Nat}
  {s : State}

theorem step_loaded (hl : Loaded mem base code) (hin : site + 4 ≤ code.length)
    (hpc : s.pc = base + BitVec.ofNat 64 site) {i : Instr}
    (hd : decode (wordAt code site) = some i) : step mem s = i.exec s := by
  rw [step, hpc, hl.fetch hin, hd]
  rfl

theorem next_pc (hpc : s.pc = base + BitVec.ofNat 64 site) :
    s.next.pc = base + BitVec.ofNat 64 (site + 4) := by
  rw [State.next, hpc, ofNat_add, BitVec.add_assoc]
  rfl

theorem address_eq (h : target - site = 4 * d) (base : BitVec 64) :
    base + BitVec.ofNat 64 site + BitVec.ofInt 64 (4 * d) = base + BitVec.ofInt 64 target := by
  rw [show target = site + 4 * d by omega, ofInt_add, BitVec.add_assoc]
  rfl

end Run

variable {i : Instr}

variable {code : List (BitVec 8)}

/-- The short form: the branch itself, and a NOP behind it if there is a slot. -/
theorem short_run {mem : BitVec 64 → BitVec 8} {base : BitVec 64}
    {site words : Nat} {s : State} {imm : BitVec 19} (hl : Loaded mem base code)
    (hin : site + 4 * words ≤ code.length) (hwords : words = 1 ∨ words = 2)
    (hslot : words = 2 → wordAt code (site + 4) = 0xD503201F#32) (hc : i.Conditional)
    (hd : decode (wordAt code site) = some (i.retarget imm)) (hpc : s.pc = base + BitVec.ofNat 64 site) :
    runBlock mem words s = some { s with
      pc := if i.condition s then branchTo s.pc imm
        else base + BitVec.ofNat 64 (site + 4 * words) } := by
  have hstep := step_loaded hl (by omega) hpc hd
  rw [hc.exec imm s] at hstep
  by_cases htaken : i.condition s = true
  · rw [if_pos htaken] at hstep
    rcases hwords with rfl | rfl <;> simp only [runBlock, hstep, htaken, if_true]
  · rw [if_neg htaken] at hstep
    rcases hwords with rfl | rfl
    · simp only [runBlock, hstep, htaken, Bool.false_eq_true, if_false]
      rw [← next_pc hpc]
      rfl
    · have hnop := step_loaded (s := s.next) hl (show site + 4 + 4 ≤ code.length by omega) (next_pc hpc)
        (by rw [hslot rfl]; exact decode_nop)
      simp only [runBlock, hstep, hnop, Instr.exec, htaken, Bool.false_eq_true, if_false]
      rw [show site + 4 * 2 = site + 4 + 4 from rfl, ← next_pc (next_pc hpc)]
      rfl

/-- The expansion: the inverted branch skips the B. -/
theorem expanded_transfers
    (hin : site + 8 ≤ code.length) (hinv : Inverts (wordAt code site) i)
    (hb : wordAt code (site + 4) = Asm.branch26Word d) (h0 : -2 ^ 25 ≤ d) (h1 : d < 2 ^ 25)
    (htarget : target - (site + 4 : Nat) = 4 * d) : Transfers code site 2 i target := by
  intro mem base s hl hpc
  obtain ⟨i', hd, hexec⟩ := hinv
  have hstep := step_loaded hl (by omega) hpc hd
  rw [hexec s] at hstep
  by_cases htaken : i.condition s = true
  · rw [if_pos htaken] at hstep
    have hjump := step_loaded (s := s.next) hl (show site + 4 + 4 ≤ code.length by omega) (next_pc hpc)
      (by rw [hb, branch26Word_eq]; exact decode_b _)
    simp only [runBlock, hstep, hjump, Instr.exec, htaken, if_true]
    rw [branchTo_eq, toInt_imm26 h0 h1, next_pc hpc, address_eq htarget]
    rfl
  · rw [if_neg htaken] at hstep
    simp only [runBlock, hstep, htaken, Bool.false_eq_true, if_false]
    rw [branchTo_eq, hpc, BitVec.add_assoc]
    rw [ofNat_add, show (4 * (2#19).toInt) = 8 from rfl]
    rfl

/-- An always-true branch that became a B. -/
theorem branch_transfers {site words : Nat}
    (hin : site + 4 ≤ code.length) (hwords : words = 1 ∨ words = 2) (halways : ∀ s, i.condition s = true)
    (hb : wordAt code site = Asm.branch26Word d) (h0 : -2 ^ 25 ≤ d) (h1 : d < 2 ^ 25)
    (htarget : target - site = 4 * d) :
    Transfers code site words i target := by
  intro mem base s hl hpc
  have hjump := step_loaded hl hin hpc (by rw [hb, branch26Word_eq]; exact decode_b _)
  rw [Instr.exec, branchTo_eq, toInt_imm26 h0 h1, hpc, address_eq htarget] at hjump
  rcases hwords with rfl | rfl <;> simp only [runBlock, hjump, halways s, if_true]

/-! ## The fixup -/

theorem siteWords_cases (a : Asm) (site : Nat) : siteWords a site = 1 ∨ siteWords a site = 2 := by
  rw [siteWords]
  split
  · exact .inr rfl
  · exact .inl rfl

variable {a : Asm}

theorem siteWords_two (h : siteWords a site = 2) :
    site + 8 ≤ a.B.length ∧ wordAt a.B (site + 4) = 0xD503201F#32 := by
  rw [siteWords] at h
  split at h
  · next hslot => exact hslot.2
  · cases h

theorem expandBranch19_cases (a : Asm) (site : Nat) (target : Int) (inverse : BitVec 32)
    (ht : (target - site) % 4 = 0) :
    a.expandBranch19 site target inverse = (a, false) ∨
    ∃ d, -2 ^ 25 ≤ d ∧ d < 2 ^ 25 ∧ target - (site + 4 : Nat) = 4 * d ∧
      a.expandBranch19 site target inverse =
        ((a.putWord site ((inverse &&& ~~~ (0x7FFFF#32 <<< 5)) ||| (2#32 <<< 5))).putWord (site + 4)
          (Asm.branch26Word d), true) := by
  have hd : target - site - 4 = 4 * ((target - site - 4) / 4) := by omega
  rw [Asm.expandBranch19]
  simp only
  rw [Int.tdiv_eq_ediv_of_dvd ⟨_, hd⟩]
  split
  · exact .inl rfl
  · right
    exact ⟨(target - site - 4) / 4, by omega, by omega, by omega, rfl⟩

theorem expand_transfers {inverse : BitVec 32} (hin : site + 8 ≤ a.B.length)
    (hinv : Inverts ((inverse &&& ~~~ (0x7FFFF#32 <<< 5)) ||| (2#32 <<< 5)) i) (h0 : -2 ^ 25 ≤ d)
    (h1 : d < 2 ^ 25) (htarget : target - (site + 4 : Nat) = 4 * d) :
    Transfers ((a.putWord site ((inverse &&& ~~~ (0x7FFFF#32 <<< 5)) ||| (2#32 <<< 5))).putWord
      (site + 4) (Asm.branch26Word d)).B site 2 i target := by
  simp only [Asm.putWord]
  apply expanded_transfers (d := d) _ _ _ h0 h1 htarget
  · simpa using hin
  · rwa [wordAt_putWord_of_disjoint _ _ (by omega), wordAt_putWord _ _ (by omega)]
  · exact wordAt_putWord _ _ (by rw [putWord_length]; omega)

/-- Where the long form applies it always does what it should. -/
theorem long_spec {target : Int} (hin : site + 4 ≤ a.B.length)
    (hfar : (target - site).tdiv 4 < -2 ^ 18 ∨ (target - site).tdiv 4 ≥ 2 ^ 18)
    (hd : decode (wordAt a.B site) = some i) (hc : i.Conditional) :
    a.patchBranch19 site target = (a, false) ∨
    (a.patchBranch19 site target).2 = true ∧
      Transfers (a.patchBranch19 site target).1.B site (siteWords a site) i target := by
  rw [Asm.patchBranch19]
  simp only
  rw [if_pos hfar]
  split
  · exact .inl rfl
  · next hslot =>
    simp only [not_or, not_not, not_lt, Bool.not_eq_false] at hslot
    obtain ⟨hres, h8, hnop, h4⟩ := hslot
    have hwords : siteWords a site = 2 := by rw [siteWords, if_pos ⟨hres, h8, hnop⟩]
    have hdiv : target - site = 4 * ((target - site) / 4) := by omega
    rw [hwords]
    obtain ⟨hi, imm, lo, hw⟩ : ∃ hi imm lo, wordAt a.B site = join19 hi imm lo :=
      ⟨_, _, _, (join19_extract _).symm⟩
    rw [hw] at hd ⊢
    split
    · next hb =>
      obtain ⟨rfl, hlo⟩ := (bcond_test hi imm lo).1 hb
      rw [decode_join19, if_pos ⟨rfl, hlo⟩] at hd
      cases hd
      split
      · next halw =>
        rw [always_test] at halw
        split
        · exact .inl rfl
        · next hfit =>
          rw [Int.tdiv_eq_ediv_of_dvd ⟨_, hdiv⟩] at hfit ⊢
          right
          refine ⟨rfl, ?_⟩
          apply branch_transfers (by simpa [Asm.putWord] using hin) (.inr rfl) _
            (wordAt_putWord _ _ hin) (by omega) (by omega) hdiv
          intro s
          exact conditionHolds_always s.flags halw
      · next halw =>
        rw [always_test] at halw
        rcases expandBranch19_cases a site target (join19 0x54#8 imm lo ^^^ 1#32) h4 with
          heq | ⟨d, h0, h1, htarget, heq⟩
        · exact .inl heq
        · right
          rw [heq]
          refine ⟨rfl, expand_transfers h8 ?_ h0 h1 htarget⟩
          rw [show 1#32 = join19 0#8 0#19 1#5 from rfl, join19_xor, xor_zero,
            xor_zero, inverted_word]
          exact bcond_inverts hlo (by omega)
    · next hb =>
      rcases conditional_cases hd hc with hb' | hcb
      · exact absurd ((bcond_test hi imm lo).2 hb') hb
      · rw [if_pos ((compare_test hi imm lo).2 hcb)]
        have hno : ¬ (hi = 0x54#8 ∧ lo.getLsbD 4 = false) := fun h => hb ((bcond_test hi imm lo).2 h)
        rw [decode_join19, if_neg hno, if_pos hcb] at hd
        cases hd
        rcases expandBranch19_cases a site target (join19 hi imm lo ^^^ 1#32 <<< 24) h4 with
          heq | ⟨d, h0, h1, htarget, heq⟩
        · exact .inl heq
        · right
          rw [heq]
          refine ⟨rfl, expand_transfers h8 ?_ h0 h1 htarget⟩
          rw [show 1#32 <<< 24 = join19 1#8 0#19 0#5 from rfl, join19_xor, xor_zero,
            xor_zero, inverted_word]
          exact compare_inverts hcb

/-- The displacement field a branch word has already. -/
def displacementOf (w : BitVec 32) : BitVec 19 := w.extractLsb' 5 19

theorem short_eq {target : Int}
    (hnear : ¬ ((target - site).tdiv 4 < -2 ^ 18 ∨ (target - site).tdiv 4 ≥ 2 ^ 18)) :
    a.patchBranch19 site target =
      (a.patchWord site (join19 0#8 (BitVec.ofInt 19 ((target - site).tdiv 4)) 0#5), true) := by
  rw [Asm.patchBranch19]
  simp only
  rw [if_neg hnear, short_field]

/-- The patched word is the same branch, to the OR of both displacements. -/
theorem short_word (hin : site + 4 ≤ a.B.length) (hd : decode (wordAt a.B site) = some i)
    (hc : i.Conditional) (imm : BitVec 19) :
    decode (wordAt (a.patchWord site (join19 0#8 imm 0#5)).B site) =
      some (i.retarget (displacementOf (wordAt a.B site) ||| imm)) := by
  obtain ⟨hi, old, lo, hw⟩ : ∃ hi imm lo, wordAt a.B site = join19 hi imm lo :=
    ⟨_, _, _, (join19_extract _).symm⟩
  have hold : displacementOf (wordAt a.B site) = old := by
    rw [hw]
    exact (join19_fields hi old lo).2.1
  rw [Asm.patchWord]
  simp only
  rw [wordAt_putWord _ _ hin, hold, hw, join19_or, or_zero, or_zero]
  rw [hw] at hd
  exact decode_retarget hd hc _

theorem short_run_patched (hin : site + 4 ≤ a.B.length)
    (hd : decode (wordAt a.B site) = some i) (hc : i.Conditional) (imm : BitVec 19)
    {mem : BitVec 64 → BitVec 8} {base : BitVec 64} {s : State}
    (hl : Loaded mem base (a.patchWord site (join19 0#8 imm 0#5)).B)
    (hpc : s.pc = base + BitVec.ofNat 64 site) :
    runBlock mem (siteWords a site) s = some { s with
      pc := if i.condition s then branchTo s.pc (displacementOf (wordAt a.B site) ||| imm)
        else base + BitVec.ofNat 64 (site + 4 * siteWords a site) } := by
  have hlen : (a.patchWord site (join19 0#8 imm 0#5)).B.length = a.B.length := by
    simp [Asm.patchWord]
  apply short_run hl _ (siteWords_cases a site) _ hc (short_word hin hd hc imm) hpc
  · rw [hlen]
    rcases siteWords_cases a site with h | h
    · omega
    · have := (siteWords_two h).1
      omega
  · intro h
    rw [Asm.patchWord]
    simp only
    rw [wordAt_putWord_of_disjoint _ _ (by omega)]
    exact (siteWords_two h).2

/-- An image can be loaded at address zero. -/
theorem loaded_zero (h : code.length < 2 ^ 63) :
    Loaded (fun x => code.getD x.toNat 0) 0#64 code := by
  intro i hi
  have hmod : i % 2 ^ 64 = i := Nat.mod_eq_of_lt (by omega)
  rw [BitVec.zero_add]
  simp only [toNat_ofNat, hmod]
  simp [hi]

theorem condition_pc (i : Instr) (s : State) (pc : BitVec 64) :
    i.condition { s with pc := pc } = i.condition s := by
  cases i <;> rfl

/-- Two displacements of 19 bits that lead to one address are the same. -/
theorem branchTo_inj {pc : BitVec 64} {x y : BitVec 19} (h : branchTo pc x = branchTo pc y) :
    x = y := by
  rw [branchTo_eq, branchTo_eq] at h
  have hxy := congrArg BitVec.toInt ((BitVec.add_right_inj pc).1 h)
  have hx := x.toInt_lt
  have hx' := x.le_toInt
  have hy := y.toInt_lt
  have hy' := y.le_toInt
  rw [toInt_ofInt, toInt_ofInt, Int.bmod_eq_of_le (by omega) (by omega),
    Int.bmod_eq_of_le (by omega) (by omega)] at hxy
  apply eq_of_toInt_eq
  omega

/-- In the short form the site does what it should exactly when the old displacement adds no bit to
the new one, unless the branch is never taken. -/
theorem short_transfers_iff {target : Int} (hlen : a.B.length < 2 ^ 63)
    (hin : site + 4 ≤ a.B.length) (hal : (target - site) % 4 = 0) (hd : decode (wordAt a.B site) = some i)
    (hc : i.Conditional) (hnear : ¬ ((target - site).tdiv 4 < -2 ^ 18 ∨ (target - site).tdiv 4 ≥ 2 ^ 18)) :
    Transfers (a.patchBranch19 site target).1.B site (siteWords a site) i target ↔
      displacementOf (wordAt a.B site) ||| BitVec.ofInt 19 ((target - site).tdiv 4) =
        BitVec.ofInt 19 ((target - site).tdiv 4) ∨ ∀ s, i.condition s = false := by
  have hdiv : target - site = 4 * ((target - site) / 4) := by omega
  rw [short_eq hnear]
  rw [Int.tdiv_eq_ediv_of_dvd ⟨_, hdiv⟩] at hnear ⊢
  generalize hdef : (target - site) / 4 = d at hdiv hnear ⊢
  have hgoal : ∀ base : BitVec 64, branchTo (base + BitVec.ofNat 64 site) (BitVec.ofInt 19 d) =
      base + BitVec.ofInt 64 target := by
    intro base
    rw [branchTo_eq, toInt_imm19 (by omega) (by omega), address_eq hdiv]
  constructor
  · intro htr
    by_contra hno
    simp only [not_or, not_forall, Bool.not_eq_false] at hno
    obtain ⟨hne, s, hs⟩ := hno
    -- a state in which the branch is taken, at an image loaded at zero
    have hs' := (condition_pc i s (0#64 + BitVec.ofNat 64 site)).trans hs
    have hl := @loaded_zero (a.patchWord site (join19 0#8 (BitVec.ofInt 19 d) 0#5)).B
      (by simpa [Asm.patchWord] using hlen)
    have h1 := htr _ _ { s with pc := 0#64 + BitVec.ofNat 64 site } hl rfl
    have h2 := short_run_patched hin hd hc _ (s := { s with pc := 0#64 + BitVec.ofNat 64 site }) hl rfl
    rw [h1, hs', if_pos rfl, if_pos rfl] at h2
    have hpc := congrArg State.pc (Option.some.inj h2)
    exact hne (branchTo_inj (hpc.symm.trans (hgoal 0#64).symm))
  · intro hok mem base s hl hpc
    rw [short_run_patched hin hd hc _ hl hpc]
    rcases hok with hsame | hnever
    · rw [hsame, hpc, hgoal base]
    · rw [hnever s, if_neg (by decide), if_neg (by decide)]

/-! ## Branches as they are emitted -/

theorem branch19_word (a : Asm) (w : BitVec 32) : wordAt (a.branch19 w).1.B (a.branch19 w).2 = w := by
  have hword : ∀ rest, wordAt (a.B ++ (wordBytes w ++ rest)) a.B.length = w := by
    intro rest
    have h := wordAt_append_right a.B (wordBytes w ++ rest) 0
    rwa [Nat.add_zero, wordAt_wordBytes] at h
  unfold Asm.branch19 Asm.nop Asm.word
  dsimp only
  split
  · rw [List.append_assoc]
    exact hword _
  · have h := hword []
    rwa [List.append_nil] at h

/-- A register or a condition does not reach into the displacement field. -/
theorem displacementOf_low {base low : BitVec 32} (hbase : displacementOf base = 0#19)
    (hlow : low.toNat < 32) : displacementOf (base ||| low) = 0#19 := by
  have hzero : displacementOf low = 0#19 := by
    apply eq_of_toNat_eq
    rw [displacementOf, extractLsb'_toNat, Nat.shiftRight_eq_div_pow, Nat.div_eq_of_lt hlow]
    rfl
  unfold displacementOf at *
  rw [extractLsb'_or, hbase, hzero]
  rfl

/-- The site is that of a branch which has just been emitted. -/
def EmittedBranch (a : Asm) (site : Nat) : Prop :=
  ∃ a₀ : Asm, (∃ c < 16#8, (a, site) = a₀.bcond c) ∨
    ∃ rt, (a, site) ∈ [a₀.cbz32 rt, a₀.cbnz32 rt, a₀.cbz64 rt, a₀.cbnz64 rt]

theorem EmittedBranch.displacement {a : Asm} {site : Nat} (h : EmittedBranch a site) :
    displacementOf (wordAt a.B site) = 0#19 := by
  have hword : ∀ {a₀ : Asm} {base low : BitVec 32}, (a, site) = a₀.branch19 (base ||| low) →
      displacementOf base = 0#19 → low.toNat < 32 → displacementOf (wordAt a.B site) = 0#19 := by
    intro a₀ base low heq hbase hlow
    have hw := branch19_word a₀ (base ||| low)
    rw [← heq] at hw
    rw [hw]
    exact displacementOf_low hbase hlow
  have hreg : ∀ rt : Reg, (r rt).toNat < 32 := fun rt => by
    rw [r, toNat_and]
    exact Nat.lt_succ_of_le Nat.and_le_right
  obtain ⟨a₀, ⟨c, hc, heq⟩ | ⟨rt, hmem⟩⟩ := h
  · refine hword heq (by decide) ?_
    rw [toNat_setWidth]
    have : c.toNat < 16 := hc
    omega
  · simp only [List.mem_cons, List.not_mem_nil, or_false] at hmem
    obtain heq | heq | heq | heq := hmem
    all_goals exact hword heq (by decide) (hreg rt)
/-! ## Main result -/

/-- `PatchBranch19` on any conditional branch, at any aligned site and target. A refusal changes
nothing. A success is right exactly when the long form was used, or the displacement field of the
word has no bit that the new displacement lacks, or the branch is never taken; so it is right on a
branch as it was emitted. -/
theorem patchBranch19_spec (a : Asm) (site : Nat) (target : Int) (i : Instr)
    (hlen : a.B.length < 2 ^ 63) (hin : site + 4 ≤ a.B.length) (hsite : site % 4 = 0)
    (htarget : target % 4 = 0) (hd : decode (wordAt a.B site) = some i) (hc : i.Conditional) :
    ((a.patchBranch19 site target).2 = false → (a.patchBranch19 site target).1 = a) ∧
    ((a.patchBranch19 site target).2 = true →
      (Transfers (a.patchBranch19 site target).1.B site (siteWords a site) i target ↔
        ((target - site).tdiv 4 < -2 ^ 18 ∨ (target - site).tdiv 4 ≥ 2 ^ 18) ∨
        displacementOf (wordAt a.B site) ||| BitVec.ofInt 19 ((target - site).tdiv 4) =
          BitVec.ofInt 19 ((target - site).tdiv 4) ∨
        ∀ s, i.condition s = false)) ∧
    ((a.patchBranch19 site target).2 = true → EmittedBranch a site →
      Transfers (a.patchBranch19 site target).1.B site (siteWords a site) i target) := by
  by_cases hfar : (target - site).tdiv 4 < -2 ^ 18 ∨ (target - site).tdiv 4 ≥ 2 ^ 18
  · rcases long_spec hin hfar hd hc with heq | ⟨hok, htr⟩
    · rw [heq]
      exact ⟨fun _ => rfl, nofun, nofun⟩
    · refine ⟨fun h => ?_, fun _ => iff_of_true htr (.inl hfar), fun _ _ => htr⟩
      rw [hok] at h
      cases h
  · have hiff := short_transfers_iff hlen hin (by omega) hd hc hfar
    refine ⟨fun h => ?_, fun _ => ?_, fun _ hemitted => hiff.2 (.inl ?_)⟩
    · rw [short_eq hfar] at h
      cases h
    · rw [hiff]
      simp only [hfar, false_or]
    · rw [hemitted.displacement, zero_or]

/-- CBNZ on `x17` as the native-import router has it after its first fixup, to the next word. -/
def routerSite : Asm := Asm.word {} 0xB5000031#32

/-- The second fixup, to the word two further on: the old bit stays, and the branch goes to the word
three further on. -/
theorem patchBranch19_router :
    (routerSite.patchBranch19 0 8).2 = true ∧
      wordAt (routerSite.patchBranch19 0 8).1.B 0 = 0xB5000071#32 ∧
      ¬ Transfers (routerSite.patchBranch19 0 8).1.B 0 1 (.compareBranch true true 17#5 1#19) 8 := by
  refine ⟨by decide, by decide, ?_⟩
  intro htr
  have hl := @loaded_zero (routerSite.patchBranch19 0 8).1.B (by decide)
  have hrun := htr _ _ ⟨0#64, fun _ => 1#64, ⟨false, false, false, false⟩⟩ hl (by decide)
  have hpc := congrArg (Option.map State.pc) hrun
  revert hpc
  decide

/-- A router that is patched once. -/
theorem patchBranch19_fresh :
    Transfers ((({} : Asm).cbnz64 17).1.patchBranch19 0 8).1.B 0 1 (.compareBranch true true 17#5 0#19) 8 := by
  have hspec := patchBranch19_spec (({} : Asm).cbnz64 17).1 0 8 (.compareBranch true true 17#5 0#19)
    (by decide) (by decide) (by decide) (by decide) (by decide) trivial
  exact hspec.2.2 (by decide) ⟨{}, .inr ⟨17, by simp [Asm.cbnz64, Asm.branch19]⟩⟩

end Wago.Arm64
