import PlanFlow.Number.Decimal

/-!
The SHA-256 digest of a list of octets: padding to whole blocks, a schedule of 64 words for each block,
and one compression of the chaining state for each block.
-/

set_option autoImplicit false

namespace PlanFlow

namespace Sha256

/-- First 32 bits of the fractional parts of the cube roots of the first 64 primes. -/
def constants : List UInt32 := [
  0x428a2f98, 0x71374491, 0xb5c0fbcf, 0xe9b5dba5, 0x3956c25b, 0x59f111f1, 0x923f82a4, 0xab1c5ed5,
  0xd807aa98, 0x12835b01, 0x243185be, 0x550c7dc3, 0x72be5d74, 0x80deb1fe, 0x9bdc06a7, 0xc19bf174,
  0xe49b69c1, 0xefbe4786, 0x0fc19dc6, 0x240ca1cc, 0x2de92c6f, 0x4a7484aa, 0x5cb0a9dc, 0x76f988da,
  0x983e5152, 0xa831c66d, 0xb00327c8, 0xbf597fc7, 0xc6e00bf3, 0xd5a79147, 0x06ca6351, 0x14292967,
  0x27b70a85, 0x2e1b2138, 0x4d2c6dfc, 0x53380d13, 0x650a7354, 0x766a0abb, 0x81c2c92e, 0x92722c85,
  0xa2bfe8a1, 0xa81a664b, 0xc24b8b70, 0xc76c51a3, 0xd192e819, 0xd6990624, 0xf40e3585, 0x106aa070,
  0x19a4c116, 0x1e376c08, 0x2748774c, 0x34b0bcb5, 0x391c0cb3, 0x4ed8aa4a, 0x5b9cca4f, 0x682e6ff3,
  0x748f82ee, 0x78a5636f, 0x84c87814, 0x8cc70208, 0x90befffa, 0xa4506ceb, 0xbef9a3f7, 0xc67178f2]

structure State where
  a : UInt32
  b : UInt32
  c : UInt32
  d : UInt32
  e : UInt32
  f : UInt32
  g : UInt32
  h : UInt32
deriving DecidableEq

/-- First 32 bits of the fractional parts of the square roots of the first eight primes. -/
def State.initial : State :=
  ⟨0x6a09e667, 0xbb67ae85, 0x3c6ef372, 0xa54ff53a, 0x510e527f, 0x9b05688c, 0x1f83d9ab, 0x5be0cd19⟩

def rotate (word amount : UInt32) : UInt32 := word >>> amount ||| word <<< (32 - amount)

def lowerSigma0 (w : UInt32) : UInt32 := rotate w 7 ^^^ rotate w 18 ^^^ w >>> 3

def lowerSigma1 (w : UInt32) : UInt32 := rotate w 17 ^^^ rotate w 19 ^^^ w >>> 10

def upperSigma0 (w : UInt32) : UInt32 := rotate w 2 ^^^ rotate w 13 ^^^ rotate w 22

def upperSigma1 (w : UInt32) : UInt32 := rotate w 6 ^^^ rotate w 11 ^^^ rotate w 25

def lengthOctets (n : Nat) : List UInt8 :=
  (List.range 8).map fun i => UInt8.ofNat (n / Nat.pow 0x100 (7 - i) % 0x100)

def pad (message : List UInt8) : List UInt8 :=
  message ++ [0x80] ++ List.replicate ((119 - message.length % 64) % 64) 0 ++
    lengthOctets (8 * message.length)

def toWords : List UInt8 → List UInt32
  | a :: b :: c :: d :: rest =>
      (a.toUInt32 <<< 24 ||| b.toUInt32 <<< 16 ||| c.toUInt32 <<< 8 ||| d.toUInt32) :: toWords rest
  | _ => []

def schedule : Nat → List UInt32 → List UInt32
  | 0, _ => []
  | _ + 1, [] => []
  | count + 1, w :: rest =>
      let next := w + lowerSigma0 (rest.getD 0 0) + rest.getD 8 0 + lowerSigma1 (rest.getD 13 0)
      w :: schedule count (rest ++ [next])

def round (s : State) (constant word : UInt32) : State :=
  let choice := s.e &&& s.f ^^^ ~~~s.e &&& s.g
  let majority := s.a &&& s.b ^^^ s.a &&& s.c ^^^ s.b &&& s.c
  let first := s.h + upperSigma1 s.e + choice + constant + word
  let second := upperSigma0 s.a + majority
  ⟨first + second, s.a, s.b, s.c, s.d + first, s.e, s.f, s.g⟩

def rounds : State → List UInt32 → List UInt32 → State
  | s, k :: ks, w :: ws => rounds (round s k w) ks ws
  | s, _, _ => s

def State.add (s t : State) : State :=
  ⟨s.a + t.a, s.b + t.b, s.c + t.c, s.d + t.d, s.e + t.e, s.f + t.f, s.g + t.g, s.h + t.h⟩

def compress (s : State) (block : List UInt32) : State :=
  s.add (rounds s constants (schedule 64 block))

def absorb : Nat → State → List UInt32 → State
  | 0, s, _ => s
  | blocks + 1, s, words => absorb blocks (compress s (words.take 16)) (words.drop 16)

def State.words (s : State) : List UInt32 := [s.a, s.b, s.c, s.d, s.e, s.f, s.g, s.h]

def hexDigest (message : List UInt8) : Text :=
  let words := toWords (pad message)
  (absorb (words.length / 16) State.initial words).words.flatMap fun w => Decimal.hex 8 w.toNat

end Sha256

end PlanFlow
