import Haystack.Position

/-!
# Reading patterns

Whether a file is read in sequence or at random is guessed from the last few reads: one that
starts where the one before stopped counts for sequence, any other against it, and the count stays
between minus three and three.
-/

namespace Haystack

/-- The guess about how a file is read. -/
structure ReadPattern where
  /-- Reads in sequence less other reads, within limits. -/
  score : Int := 0
  /-- Where the last read stopped. -/
  lastStop : Int := 0
  deriving DecidableEq, Repr, Inhabited

namespace ReadPattern

def limit : Int := 3

/-- The guess after a read of `length` bytes. -/
def observe (pattern : ReadPattern) (offset : Int) (length : Nat) : ReadPattern :=
  let score := pattern.score + if pattern.lastStop = offset then 1 else -1
  { score := if -limit ≤ score ∧ score ≤ limit then score else pattern.score
    lastStop := wrapped (offset + length) }

def isRandom (pattern : ReadPattern) : Bool :=
  pattern.score < 0

theorem score_observe (pattern : ReadPattern) (offset : Int) (length : Nat)
    (h : -limit ≤ pattern.score ∧ pattern.score ≤ limit) :
    -limit ≤ (pattern.observe offset length).score ∧
      (pattern.observe offset length).score ≤ limit := by
  simp only [observe]
  generalize pattern.score + (if pattern.lastStop = offset then 1 else -1) = score
  split <;> assumption

end ReadPattern

end Haystack
