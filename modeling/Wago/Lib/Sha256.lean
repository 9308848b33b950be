/-
SHA-256 on byte lists: padding, message schedule, compression and the big-endian digest.
-/
import Mathlib.Algebra.Order.Ring.Int

namespace Sha256

structure State where
  a : UInt32
  b : UInt32
  c : UInt32
  d : UInt32
  e : UInt32
  f : UInt32
  g : UInt32
  h : UInt32

def initial : State :=
  { a := 0x6a09e667, b := 0xbb67ae85, c := 0x3c6ef372, d := 0xa54ff53a, e := 0x510e527f,
    f := 0x9b05688c, g := 0x1f83d9ab, h := 0x5be0cd19 }

def roundConstants : List UInt32 :=
  [
    0x428a2f98, 0x71374491, 0xb5c0fbcf, 0xe9b5dba5, 0x3956c25b, 0x59f111f1, 0x923f82a4, 0xab1c5ed5,
    0xd807aa98, 0x12835b01, 0x243185be, 0x550c7dc3, 0x72be5d74, 0x80deb1fe, 0x9bdc06a7, 0xc19bf174,
    0xe49b69c1, 0xefbe4786, 0x0fc19dc6, 0x240ca1cc, 0x2de92c6f, 0x4a7484aa, 0x5cb0a9dc, 0x76f988da,
    0x983e5152, 0xa831c66d, 0xb00327c8, 0xbf597fc7, 0xc6e00bf3, 0xd5a79147, 0x06ca6351, 0x14292967,
    0x27b70a85, 0x2e1b2138, 0x4d2c6dfc, 0x53380d13, 0x650a7354, 0x766a0abb, 0x81c2c92e, 0x92722c85,
    0xa2bfe8a1, 0xa81a664b, 0xc24b8b70, 0xc76c51a3, 0xd192e819, 0xd6990624, 0xf40e3585, 0x106aa070,
    0x19a4c116, 0x1e376c08, 0x2748774c, 0x34b0bcb5, 0x391c0cb3, 0x4ed8aa4a, 0x5b9cca4f, 0x682e6ff3,
    0x748f82ee, 0x78a5636f, 0x84c87814, 0x8cc70208, 0x90befffa, 0xa4506ceb, 0xbef9a3f7, 0xc67178f2
  ]

def rotr (x : UInt32) (n : UInt32) : UInt32 := (x >>> n) ||| (x <<< (32 - n))

/-- The schedule word after those in `ws`, which lists the latest word first. -/
def nextWord (ws : List UInt32) : UInt32 :=
  let w15 := ws.getD 14 0
  let w2 := ws.getD 1 0
  let s0 := rotr w15 7 ^^^ rotr w15 18 ^^^ (w15 >>> 3)
  let s1 := rotr w2 17 ^^^ rotr w2 19 ^^^ (w2 >>> 10)
  ws.getD 15 0 + s0 + ws.getD 6 0 + s1

def extendSchedule : Nat → List UInt32 → List UInt32
  | 0, ws => ws
  | n + 1, ws => extendSchedule n (nextWord ws :: ws)

def round (s : State) (k w : UInt32) : State :=
  let s1 := rotr s.e 6 ^^^ rotr s.e 11 ^^^ rotr s.e 25
  let ch := (s.e &&& s.f) ^^^ (~~~s.e &&& s.g)
  let t1 := s.h + s1 + ch + k + w
  let s0 := rotr s.a 2 ^^^ rotr s.a 13 ^^^ rotr s.a 22
  let maj := (s.a &&& s.b) ^^^ (s.a &&& s.c) ^^^ (s.b &&& s.c)
  { a := t1 + (s0 + maj), b := s.a, c := s.b, d := s.c, e := s.d + t1, f := s.e, g := s.f, h := s.g }

def compress (s : State) (block : List UInt32) : State :=
  let words := (extendSchedule 48 block.reverse).reverse
  let t := (roundConstants.zip words).foldl (fun t (k, w) => round t k w) s
  { a := s.a + t.a, b := s.b + t.b, c := s.c + t.c, d := s.d + t.d, e := s.e + t.e, f := s.f + t.f,
    g := s.g + t.g, h := s.h + t.h }

def bigEndian (n : Nat) (v : Nat) : List UInt8 :=
  ((List.range n).map fun i => UInt8.ofNat (v / 256 ^ i)).reverse

/-- The message with its `0x80` byte, zeros and 64-bit length, a multiple of 64 bytes. -/
def pad (msg : List UInt8) : List UInt8 :=
  let zeros := (119 - msg.length % 64) % 64
  msg ++ 0x80 :: List.replicate zeros 0 ++ bigEndian 8 (8 * msg.length)

def word : List UInt8 → UInt32
  | bs => bs.foldl (fun acc b => (acc <<< 8) ||| b.toUInt32) 0

/-- Cuts a list into `count` pieces of `size`. -/
def chunks {α : Type} (size : Nat) : (count : Nat) → List α → List (List α)
  | 0, _ => []
  | count + 1, xs => xs.take size :: chunks size count (xs.drop size)

def hashState (msg : List UInt8) : State :=
  let padded := pad msg
  (chunks 64 (padded.length / 64) padded).foldl
    (fun s block => compress s ((chunks 4 16 block).map word)) initial

def digest (s : State) : List UInt8 :=
  [s.a, s.b, s.c, s.d, s.e, s.f, s.g, s.h].flatMap fun w => bigEndian 4 w.toNat

/-- `Sum256`; proofs use its length only. -/
@[irreducible] def sum256 (msg : List UInt8) : List UInt8 := digest (hashState msg)

@[simp] theorem sum256_length (msg : List UInt8) : (sum256 msg).length = 32 := by
  simp [sum256, digest, bigEndian]

end Sha256
