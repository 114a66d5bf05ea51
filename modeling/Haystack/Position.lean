/-!
# Positions

Positions in a file are signed numbers of 64 bits, lengths unsigned ones. What is reckoned with them
is taken modulo `2 ^ 64`: a sum or a product that does not fit wraps around, and a position behind
the largest one comes out negative.
-/

namespace Haystack

attribute [scoped instance (2000)] instPowNat

/-- What 64 bits keep of a number, read as a signed number. -/
def wrapped (number : Int) : Int :=
  Int.bmod number (2 ^ (64 : Nat))

/-- What 64 bits keep of a number, read as an unsigned number. -/
def unsigned64 (number : Int) : Nat :=
  (number % 2 ^ (64 : Nat)).toNat

/-- A word of 64 bits read as a signed number. -/
def signed64 (word : Nat) : Int :=
  wrapped word

def maxPosition : Int := 2 ^ (63 : Nat) - 1

/-- The sum of two positions, held between the least and the largest one. -/
def addPositions (a b : Int) : Int :=
  max (-(2 ^ (63 : Nat))) (min maxPosition (a + b))

end Haystack
