/-
The arm64 encoder (`encoder/arm64/asm.go`, `asm2.go`): wide-immediate moves, logical immediates and
the constants made from them, and the branches with a 19-bit displacement together with their
fixups. Counters that only report statistics are left out.
-/
import Wago.Lib.A64

namespace Wago.Arm64

open CodeImage

/-- A `uint8`; only its low five bits reach a word. -/
abbrev Reg := BitVec 8

def xzr : Reg := 31

structure Asm where
  B : List (BitVec 8) := []
  reserveBranch19 : Bool := false
  disableLogicalMoveImmediate : Bool := false
  disableCompactMoveImmediate32 : Bool := false
  allowSingleNegativeMove32 : Bool := false
deriving DecidableEq, Repr

def r (x : Reg) : BitVec 32 := x.setWidth 32 &&& 31#32

/-! ## Logical immediates -/

def bitCountLoop : Nat → BitVec 64 → Nat
  | 0, _ => 0
  | fuel + 1, x => if x = 0#64 then 0 else bitCountLoop fuel (x &&& (x - 1#64)) + 1

/-- Every round clears a bit, so 64 rounds are enough. -/
def bitCount (x : BitVec 64) : Nat := bitCountLoop 64 x

/-- The halving search, from 64 down to 2 at most. -/
def elementSizeLoop (imm : BitVec 64) : Nat → Nat → Nat
  | 0, size => size
  | fuel + 1, size =>
    if size > 2 then
      let half := size / 2
      let mask := (1#64 <<< half) - 1#64
      if imm &&& mask ≠ (imm >>> half) &&& mask then half * 2 else elementSizeLoop imm fuel half
    else size

def elementSize (imm : BitVec 64) : Nat := elementSizeLoop imm 5 64

/-- `n`, `immr` and `imms`, or nothing for a constant that is not a repeated rotated run. -/
def encodeBits (imm : BitVec 64) : Option (Nat × Nat × Nat) :=
  if imm = 0#64 ∨ imm = ~~~ 0#64 then none
  else
    let size := elementSize imm
    let mask := if size < 64 then (1#64 <<< size) - 1#64 else ~~~ 0#64
    let e := imm &&& mask
    let ones := bitCount e
    if ones = 0 ∨ ones = size then none
    else
      let run := (1#64 <<< ones) - 1#64
      let rotation := (List.range size).find? fun k =>
        ((run <<< k) ||| (run >>> (size - k))) &&& mask = e
      match rotation with
      | none => none
      | some rot =>
        some (if size = 64 then 1 else 0, (size - rot) % size,
          ((~~~ BitVec.ofNat 32 (size <<< 1 - 1) &&& 0x3F#32) ||| BitVec.ofNat 32 (ones - 1)).toNat)

/-- A 32-bit constant is repeated in the high half, so that one search does for both. -/
def encodeLogicalImm (imm : BitVec 64) (is64 : Bool) : Option (Nat × Nat × Nat) :=
  if is64 then encodeBits imm
  else encodeBits ((imm &&& 0xFFFFFFFF#64) ||| ((imm &&& 0xFFFFFFFF#64) <<< 32))

namespace Asm

def word (a : Asm) (w : BitVec 32) : Asm := { a with B := a.B ++ wordBytes w }

def nop (a : Asm) : Asm := a.word 0xD503201F#32

/-- The word is emitted only if the constant has an encoding. -/
def logicalImm (a : Asm) (base : BitVec 32) (rd rn : Reg) (val : BitVec 64) : Option Asm :=
  match encodeLogicalImm val true with
  | none => none
  | some (n, immr, imms) =>
    some (a.word (base ||| (BitVec.ofNat 32 n <<< 22) ||| (BitVec.ofNat 32 immr <<< 16) |||
      (BitVec.ofNat 32 imms <<< 10) ||| (r rn <<< 5) ||| r rd))

/-- The 32-bit form has no `N` bit. -/
def logicalImm32 (a : Asm) (base : BitVec 32) (rd rn : Reg) (val : BitVec 32) : Option Asm :=
  match encodeLogicalImm (val.setWidth 64) false with
  | none => none
  | some (n, immr, imms) =>
    if n ≠ 0 then none
    else
      some (a.word (base ||| (BitVec.ofNat 32 immr <<< 16) ||| (BitVec.ofNat 32 imms <<< 10) |||
        (r rn <<< 5) ||| r rd))

def orrImm64 (a : Asm) (rd rn : Reg) (val : BitVec 64) : Option Asm :=
  a.logicalImm 0xB2000000#32 rd rn val

def orrImm32 (a : Asm) (rd rn : Reg) (val : BitVec 32) : Option Asm :=
  a.logicalImm32 0x32000000#32 rd rn val

/-! ## Constants -/

def movWide (a : Asm) (base : BitVec 32) (rd : Reg) (imm16 : BitVec 16) (hw : Nat) : Asm :=
  a.word (base ||| ((BitVec.ofNat 32 hw &&& 3#32) <<< 21) ||| (imm16.setWidth 32 <<< 5) ||| r rd)

def movz64 (a : Asm) (rd : Reg) (imm16 : BitVec 16) (hw : Nat) : Asm := a.movWide 0xD2800000#32 rd imm16 hw
def movk64 (a : Asm) (rd : Reg) (imm16 : BitVec 16) (hw : Nat) : Asm := a.movWide 0xF2800000#32 rd imm16 hw
def movn64 (a : Asm) (rd : Reg) (imm16 : BitVec 16) (hw : Nat) : Asm := a.movWide 0x92800000#32 rd imm16 hw
def movz32 (a : Asm) (rd : Reg) (imm16 : BitVec 16) (hw : Nat) : Asm := a.movWide 0x52800000#32 rd imm16 hw
def movk32 (a : Asm) (rd : Reg) (imm16 : BitVec 16) (hw : Nat) : Asm := a.movWide 0x72800000#32 rd imm16 hw
def movn32 (a : Asm) (rd : Reg) (imm16 : BitVec 16) (hw : Nat) : Asm := a.movWide 0x12800000#32 rd imm16 hw

end Asm

/-- `uint16(val >> (16*i))`. -/
def half {w : Nat} (val : BitVec w) (i : Nat) : BitVec 16 := (val >>> (16 * i)).setWidth 16

/-- The halfwords of the constant that are equal to `h`. -/
def halvesEqual (val : BitVec 64) (h : BitVec 16) : Nat :=
  ((List.range 4).filter fun i => half val i = h).length

namespace Asm

/-- One round of the MOVN loop of `MovImm64`; the flag is `first`. -/
def movnRound (rd : Reg) (val : BitVec 64) (st : Asm × Bool) (i : Nat) : Asm × Bool :=
  let (a, first) := st
  if first then
    if half (~~~ val) i ≠ 0#16 then (a.movn64 rd (half (~~~ val) i) i, false) else (a, first)
  else if half val i ≠ 0xFFFF#16 then (a.movk64 rd (half val i) i, first)
  else (a, first)

/-- One round of the MOVZ loop. -/
def movzRound (rd : Reg) (val : BitVec 64) (st : Asm × Bool) (i : Nat) : Asm × Bool :=
  let (a, first) := st
  if first then
    if half val i ≠ 0#16 then (a.movz64 rd (half val i) i, false) else (a, first)
  else if half val i ≠ 0#16 then (a.movk64 rd (half val i) i, first)
  else (a, first)

def movWideWords (a : Asm) (rd : Reg) (val : BitVec 64) : Asm :=
  if halvesEqual val 0xFFFF#16 > halvesEqual val 0#16 then
    let (a, first) := (List.range 4).foldl (movnRound rd val) (a, true)
    if first then a.movn64 rd 0#16 0 else a
  else
    let (a, first) := (List.range 4).foldl (movzRound rd val) (a, true)
    if first then a.movz64 rd 0#16 0 else a

def movImm64 (a : Asm) (rd : Reg) (val : BitVec 64) : Asm :=
  let zeros := halvesEqual val 0#16
  let ones := halvesEqual val 0xFFFF#16
  let wideWords := if ones > zeros then 4 - ones else 4 - zeros
  let wideWords := if wideWords = 0 then 1 else wideWords
  if wideWords > 1 ∧ a.disableLogicalMoveImmediate = false then
    (a.orrImm64 rd xzr val).getD (a.movWideWords rd val)
  else a.movWideWords rd val

def movWideWords32 (a : Asm) (rd : Reg) (lo hi : BitVec 16) (negative : Bool) : Asm :=
  if negative then
    if lo ≠ 0xffff#16 then
      let a := a.movn32 rd (~~~ lo) 0
      if hi ≠ 0xffff#16 then a.movk32 rd hi 1 else a
    else if hi ≠ 0xffff#16 then a.movn32 rd (~~~ hi) 1
    else a.movn32 rd 0#16 0
  else if lo ≠ 0#16 then
    let a := a.movz32 rd lo 0
    if hi ≠ 0#16 then a.movk32 rd hi 1 else a
  else a.movz32 rd hi 1

def movImm32 (a : Asm) (rd : Reg) (u : BitVec 32) : Asm :=
  if a.disableCompactMoveImmediate32 then
    if a.allowSingleNegativeMove32 ∧ u ≥ 0xffff0000#32 then a.movn32 rd (~~~ (u.setWidth 16)) 0
    else a.movImm64 rd (u.setWidth 64)
  else
    let lo := u.setWidth 16
    let hi := (u >>> 16).setWidth 16
    let zeros := ([lo, hi].filter (· = 0#16)).length
    let ones := ([lo, hi].filter (· = 0xffff#16)).length
    let zWords := if 2 - zeros = 0 then 1 else 2 - zeros
    let nWords := if 2 - ones = 0 then 1 else 2 - ones
    let wide := a.movWideWords32 rd lo hi (nWords < zWords)
    if min zWords nWords > 1 ∧ a.disableLogicalMoveImmediate = false then
      (a.orrImm32 rd xzr u).getD wide
    else wide

/-! ## Branches -/

/-- Emits the branch, and a slot behind it where those are reserved; the second component is the
site. -/
def branch19 (a : Asm) (word : BitVec 32) : Asm × Nat :=
  let site := a.B.length
  let a := a.word word
  (if a.reserveBranch19 then a.nop else a, site)

def bcond (a : Asm) (c : BitVec 8) : Asm × Nat := a.branch19 (0x54000000#32 ||| c.setWidth 32)
def cbz32 (a : Asm) (rt : Reg) : Asm × Nat := a.branch19 (0x34000000#32 ||| r rt)
def cbnz32 (a : Asm) (rt : Reg) : Asm × Nat := a.branch19 (0x35000000#32 ||| r rt)
def cbz64 (a : Asm) (rt : Reg) : Asm × Nat := a.branch19 (0xB4000000#32 ||| r rt)
def cbnz64 (a : Asm) (rt : Reg) : Asm × Nat := a.branch19 (0xB5000000#32 ||| r rt)

/-- ORs into the word: the field is taken to be zero. -/
def patchWord (a : Asm) (pos : Nat) (extra : BitVec 32) : Asm :=
  { a with B := CodeImage.putWord a.B pos (wordAt a.B pos ||| extra) }

def putWord (a : Asm) (pos : Nat) (w : BitVec 32) : Asm :=
  { a with B := CodeImage.putWord a.B pos w }

/-- The B word for a displacement in words. -/
def branch26Word (delta : Int) : BitVec 32 :=
  0x14000000#32 ||| (BitVec.ofInt 32 delta &&& 0x03FFFFFF#32)

/-- The inverted branch over a B in the reserved slot. -/
def expandBranch19 (a : Asm) (site : Nat) (target : Int) (inverse : BitVec 32) : Asm × Bool :=
  let delta := (target - site - 4).tdiv 4
  if delta < -2 ^ 25 ∨ delta ≥ 2 ^ 25 then (a, false)
  else
    let a := a.putWord site ((inverse &&& ~~~ (0x7FFFF#32 <<< 5)) ||| (2#32 <<< 5))
    (a.putWord (site + 4) (branch26Word delta), true)

/-- The second component is whether the target was in reach. -/
def patchBranch19 (a : Asm) (site : Nat) (target : Int) : Asm × Bool :=
  let d := (target - site).tdiv 4
  if d < -2 ^ 18 ∨ d ≥ 2 ^ 18 then
    if a.reserveBranch19 = false ∨ site + 8 > a.B.length ∨ wordAt a.B (site + 4) ≠ 0xD503201F#32 ∨
        (target - site) % 4 ≠ 0 then (a, false)
    else
      let word := wordAt a.B site
      if word &&& 0xFF000010#32 = 0x54000000#32 then
        -- AL and NV both mean always
        if word &&& 15#32 ≥ 14#32 then
          if d < -2 ^ 25 ∨ d ≥ 2 ^ 25 then (a, false)
          else (a.putWord site (branch26Word d), true)
        else a.expandBranch19 site target (word ^^^ 1#32)
      else if word &&& 0x7E000000#32 = 0x34000000#32 then
        a.expandBranch19 site target (word ^^^ (1#32 <<< 24))
      else (a, false)
  else (a.patchWord site ((BitVec.ofInt 32 d &&& 0x7FFFF#32) <<< 5), true)

end Asm

end Wago.Arm64
