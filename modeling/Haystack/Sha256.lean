import Haystack.Bytes

/-!
# SHA-256

The digest of a byte string: the string is filled up to whole blocks of 64 bytes, the last of
which ends with the length in bits, and the blocks are folded into eight words. A block is spread
to sixty-four words first, each of which takes part in one round.
-/

namespace Haystack.Sha256

/-- The eight words that the blocks are folded into. -/
structure State where
  a : UInt32
  b : UInt32
  c : UInt32
  d : UInt32
  e : UInt32
  f : UInt32
  g : UInt32
  h : UInt32
  deriving DecidableEq, Repr

def initial : State :=
  ⟨0x6a09e667, 0xbb67ae85, 0x3c6ef372, 0xa54ff53a, 0x510e527f, 0x9b05688c, 0x1f83d9ab, 0x5be0cd19⟩

def constants : List UInt32 :=
  [0x428a2f98, 0x71374491, 0xb5c0fbcf, 0xe9b5dba5, 0x3956c25b, 0x59f111f1, 0x923f82a4, 0xab1c5ed5,
    0xd807aa98, 0x12835b01, 0x243185be, 0x550c7dc3, 0x72be5d74, 0x80deb1fe, 0x9bdc06a7, 0xc19bf174,
    0xe49b69c1, 0xefbe4786, 0x0fc19dc6, 0x240ca1cc, 0x2de92c6f, 0x4a7484aa, 0x5cb0a9dc, 0x76f988da,
    0x983e5152, 0xa831c66d, 0xb00327c8, 0xbf597fc7, 0xc6e00bf3, 0xd5a79147, 0x06ca6351, 0x14292967,
    0x27b70a85, 0x2e1b2138, 0x4d2c6dfc, 0x53380d13, 0x650a7354, 0x766a0abb, 0x81c2c92e, 0x92722c85,
    0xa2bfe8a1, 0xa81a664b, 0xc24b8b70, 0xc76c51a3, 0xd192e819, 0xd6990624, 0xf40e3585, 0x106aa070,
    0x19a4c116, 0x1e376c08, 0x2748774c, 0x34b0bcb5, 0x391c0cb3, 0x4ed8aa4a, 0x5b9cca4f, 0x682e6ff3,
    0x748f82ee, 0x78a5636f, 0x84c87814, 0x8cc70208, 0x90befffa, 0xa4506ceb, 0xbef9a3f7, 0xc67178f2]

/-- The word turned right by a number of bits between 1 and 31. -/
def rotate (word : UInt32) (bits : UInt32) : UInt32 :=
  (word >>> bits) ||| (word <<< (32 - bits))

def State.round (s : State) (constant word : UInt32) : State :=
  let mixed := rotate s.e 6 ^^^ rotate s.e 11 ^^^ rotate s.e 25
  let choice := (s.e &&& s.f) ^^^ ((~~~s.e) &&& s.g)
  let added := s.h + mixed + choice + constant + word
  let turned := rotate s.a 2 ^^^ rotate s.a 13 ^^^ rotate s.a 22
  let majority := (s.a &&& s.b) ^^^ (s.a &&& s.c) ^^^ (s.b &&& s.c)
  ⟨added + turned + majority, s.a, s.b, s.c, s.d + added, s.e, s.f, s.g⟩

def State.add (s t : State) : State :=
  ⟨s.a + t.a, s.b + t.b, s.c + t.c, s.d + t.d, s.e + t.e, s.f + t.f, s.g + t.g, s.h + t.h⟩

/-- The word that follows the sixteen words last written, given with the latest first. -/
def nextWord (last : List UInt32) : UInt32 :=
  let two := last.getD 1 0
  let fifteen := last.getD 14 0
  (rotate two 17 ^^^ rotate two 19 ^^^ (two >>> 10)) + last.getD 6 0 +
    (rotate fifteen 7 ^^^ rotate fifteen 18 ^^^ (fifteen >>> 3)) + last.getD 15 0

/-- Writes `count` more words onto reversed words. -/
def extend : (count : Nat) → List UInt32 → List UInt32
  | 0, words => words
  | count + 1, words => extend count (nextWord words :: words)

/-- The sixty-four words that a block is spread to. -/
def spread (block : Bytes) : List UInt32 :=
  (extend 48 ((List.range 16).map fun i => UInt32.ofNat (block.wordAt (4 * i) 4)).reverse).reverse

def State.absorb (s : State) (block : Bytes) : State :=
  s.add ((constants.zip (spread block)).foldl (fun t pair => t.round pair.1 pair.2) s)

/-- The bytes filled up to whole blocks: a byte 128, zeros and the length in bits. -/
def fill (bytes : Bytes) : Bytes :=
  bytes ++ 0x80 :: Bytes.zeros ((119 - bytes.length % 64) % 64) ++ Bytes.ofNat 8 (8 * bytes.length)

def absorbBlocks : (count : Nat) → Bytes → State → State
  | 0, _, s => s
  | count + 1, bytes, s => absorbBlocks count (bytes.drop 64) (s.absorb (bytes.take 64))

def State.toBytes (s : State) : Bytes :=
  [s.a, s.b, s.c, s.d, s.e, s.f, s.g, s.h].flatMap fun word => Bytes.ofNat 4 word.toNat

def digest (bytes : Bytes) : Bytes :=
  let filled := fill bytes
  (absorbBlocks (filled.length / 64) filled initial).toBytes

@[simp] theorem length_fill (bytes : Bytes) : (fill bytes).length % 64 = 0 := by
  simp only [fill, List.length_append, List.length_cons, Bytes.length_zeros, Bytes.length_ofNat]
  omega

end Haystack.Sha256
