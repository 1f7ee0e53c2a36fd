import Mathlib.Algebra.Order.Ring.Nat

/-!
# SHA-256 on byte lists

The digest of FIPS 180-4, on natural numbers below `2 ^ 32`, so that the kernel
evaluates it. The schedule is a window of its last sixteen words.
-/
namespace Walaru.Lib.Sha256

def word (n : Nat) : Nat := n % 2 ^ 32

def rotr (n x : Nat) : Nat := (x >>> n) ||| word (x <<< (32 - n))

def roundConstants : List Nat := [
  0x428a2f98, 0x71374491, 0xb5c0fbcf, 0xe9b5dba5, 0x3956c25b, 0x59f111f1, 0x923f82a4, 0xab1c5ed5,
  0xd807aa98, 0x12835b01, 0x243185be, 0x550c7dc3, 0x72be5d74, 0x80deb1fe, 0x9bdc06a7, 0xc19bf174,
  0xe49b69c1, 0xefbe4786, 0x0fc19dc6, 0x240ca1cc, 0x2de92c6f, 0x4a7484aa, 0x5cb0a9dc, 0x76f988da,
  0x983e5152, 0xa831c66d, 0xb00327c8, 0xbf597fc7, 0xc6e00bf3, 0xd5a79147, 0x06ca6351, 0x14292967,
  0x27b70a85, 0x2e1b2138, 0x4d2c6dfc, 0x53380d13, 0x650a7354, 0x766a0abb, 0x81c2c92e, 0x92722c85,
  0xa2bfe8a1, 0xa81a664b, 0xc24b8b70, 0xc76c51a3, 0xd192e819, 0xd6990624, 0xf40e3585, 0x106aa070,
  0x19a4c116, 0x1e376c08, 0x2748774c, 0x34b0bcb5, 0x391c0cb3, 0x4ed8aa4a, 0x5b9cca4f, 0x682e6ff3,
  0x748f82ee, 0x78a5636f, 0x84c87814, 0x8cc70208, 0x90befffa, 0xa4506ceb, 0xbef9a3f7, 0xc67178f2]

structure State where
  (a b c d e f g h : Nat)

def initial : State :=
  ⟨0x6a09e667, 0xbb67ae85, 0x3c6ef372, 0xa54ff53a, 0x510e527f, 0x9b05688c, 0x1f83d9ab, 0x5be0cd19⟩

def round (s : State) (k w : Nat) : State :=
  let t1 := s.h + (rotr 6 s.e ^^^ rotr 11 s.e ^^^ rotr 25 s.e) +
    ((s.e &&& s.f) ^^^ ((2 ^ 32 - 1 - s.e) &&& s.g)) + k + w
  let t2 := (rotr 2 s.a ^^^ rotr 13 s.a ^^^ rotr 22 s.a) +
    ((s.a &&& s.b) ^^^ (s.a &&& s.c) ^^^ (s.b &&& s.c))
  ⟨word (t1 + t2), s.a, s.b, s.c, word (s.d + t1), s.e, s.f, s.g⟩

/-- The last sixteen words of the schedule, the oldest one first. -/
structure Window where
  (w0 w1 w2 w3 w4 w5 w6 w7 w8 w9 w10 w11 w12 w13 w14 w15 : Nat)

def Window.ofList (block : List Nat) : Window :=
  ⟨block.getD 0 0, block.getD 1 0, block.getD 2 0, block.getD 3 0, block.getD 4 0, block.getD 5 0,
    block.getD 6 0, block.getD 7 0, block.getD 8 0, block.getD 9 0, block.getD 10 0,
    block.getD 11 0, block.getD 12 0, block.getD 13 0, block.getD 14 0, block.getD 15 0⟩

/-- The word that enters the window when its oldest word leaves. -/
def nextWord (v : Window) : Nat :=
  word (v.w0 + (rotr 7 v.w1 ^^^ rotr 18 v.w1 ^^^ (v.w1 >>> 3)) + v.w9 +
    (rotr 17 v.w14 ^^^ rotr 19 v.w14 ^^^ (v.w14 >>> 10)))

def Window.slide (v : Window) : Window :=
  ⟨v.w1, v.w2, v.w3, v.w4, v.w5, v.w6, v.w7, v.w8, v.w9, v.w10, v.w11, v.w12, v.w13, v.w14, v.w15,
    nextWord v⟩

def rounds : List Nat → Window → State → State
  | [], _, s => s
  | k :: ks, v, s => rounds ks v.slide (round s k v.w0)

def compress (s : State) (block : List Nat) : State :=
  let t := rounds roundConstants (.ofList block) s
  ⟨word (s.a + t.a), word (s.b + t.b), word (s.c + t.c), word (s.d + t.d),
    word (s.e + t.e), word (s.f + t.f), word (s.g + t.g), word (s.h + t.h)⟩

def wordsOf : List Nat → List Nat
  | a :: b :: c :: d :: rest => (((a * 256 + b) * 256 + c) * 256 + d) :: wordsOf rest
  | _ => []

def bytesOf (w : Nat) : List Nat := [w / 2 ^ 24 % 256, w / 2 ^ 16 % 256, w / 2 ^ 8 % 256, w % 256]

/-- A one bit, zeros up to a whole block, and the length in bits. -/
def pad (message : List Nat) : List Nat :=
  let bits := message.length * 8
  message ++ [128] ++ List.replicate ((119 - message.length % 64) % 64) 0 ++
    bytesOf (bits / 2 ^ 32) ++ bytesOf (bits % 2 ^ 32)

def blocks : Nat → List Nat → State → State
  | 0, _, s => s
  | n + 1, words, s => blocks n (words.drop 16) (compress s (words.take 16))

def sha256 (message : List UInt8) : List UInt8 :=
  let words := wordsOf (pad (message.map UInt8.toNat))
  let s := blocks (words.length / 16) words initial
  ([s.a, s.b, s.c, s.d, s.e, s.f, s.g, s.h].flatMap bytesOf).map UInt8.ofNat

/-- The digest of `abc`. -/
example : (sha256 [97, 98, 99]).take 8 = [0xba, 0x78, 0x16, 0xbf, 0x8f, 0x01, 0xcf, 0xea] := by
  decide +kernel

end Walaru.Lib.Sha256
