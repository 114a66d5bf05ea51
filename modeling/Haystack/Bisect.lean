/-!
# Bisection

A search over positions that halves a range at every probe. A probe at a position either ends the
search, sends it to one side, or fails. The positions probed are part of the result, in order, so
that what a search costs and touches can be stated.
-/

namespace Haystack

/-- What a probe says. -/
inductive Turn (α : Type) where
  | found (answer : α)
  /-- What is sought lies before the probed position. -/
  | before
  /-- What is sought lies behind the probed position. -/
  | behind

/-- How a search ended. -/
inductive Landing (α : Type) where
  | found (answer : α)
  /-- The range ran empty at this position. -/
  | gap (position : Nat)
  deriving DecidableEq, Repr

/-- A finished search: the probed positions and how it ended. -/
structure Bisection (ε α : Type) where
  probed : List Nat
  result : Except ε (Landing α)

namespace Bisection

/-- The middle of a range, rounded down. -/
def middle (low high : Nat) : Nat :=
  low + (high - low) / 2

/-- Searches the positions from `low` up to, not including, `high`. -/
def run {ε α : Type} (probe : Nat → Except ε (Turn α)) (low high : Nat) : Bisection ε α :=
  if _h : low < high then
    let position := middle low high
    match probe position with
    | .error problem => { probed := [position], result := .error problem }
    | .ok (.found answer) => { probed := [position], result := .ok (.found answer) }
    | .ok .before =>
      let further := run probe low position
      { further with probed := position :: further.probed }
    | .ok .behind =>
      let further := run probe (position + 1) high
      { further with probed := position :: further.probed }
  else { probed := [], result := .ok (.gap low) }
  termination_by high - low
  decreasing_by all_goals simp only [middle] at *; omega

end Bisection

end Haystack
