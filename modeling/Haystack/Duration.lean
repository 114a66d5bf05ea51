import Haystack.Text.Decimal
import Haystack.Text.Numeral

/-!
# Durations

A duration is a number of nanoseconds of at most 64 bits of whole seconds. A number of seconds is
taken to the nearest number of 53 binary digits first, and that to the nearest nanosecond; a tie
goes to the even neighbour both times.
-/

namespace Haystack

/-- The whole number nearest to a quotient; of two the even one. -/
def roundDiv (numerator denominator : Nat) : Nat :=
  let below := numerator / denominator
  let twice := 2 * (numerator % denominator)
  if denominator < twice ∨ (twice = denominator ∧ below % 2 = 1) then below + 1 else below

/-- The number `numerator / denominator * 2 ^ exponent`, as two whole numbers. -/
def scaled (numerator denominator : Nat) (exponent : Int) : Nat × Nat :=
  (numerator * 2 ^ exponent.toNat, denominator * 2 ^ (-exponent).toNat)

/-- The whole number `mantissa` times two to the power of `exponent`. -/
structure Binary where
  mantissa : Nat
  exponent : Int
  deriving DecidableEq, Repr

namespace Binary

def magnitude (numerator denominator : Nat) : Int :=
  let guess : Int := (numerator.log2 : Int) - denominator.log2
  let (low, high) := scaled denominator numerator guess
  if low ≤ high then guess else guess - 1

/-- The number of 53 binary digits that is nearest to a positive quotient. Numbers too small for
that have the least exponent and fewer digits. -/
def nearest (numerator denominator : Nat) : Binary :=
  let exponent := max (magnitude numerator denominator - 52) (-1074)
  let (n, d) := scaled numerator denominator (-exponent)
  { mantissa := roundDiv n d, exponent }

/-- How far exponents of ten are looked at: beyond that a number is as good as zero or too large. -/
def exponentLimit : Nat := 400

/-- The number of 53 binary digits nearest to a decimal fraction, without its sign; nothing if it
is far beyond all such numbers. -/
def ofDecimal? (decimal : Decimal) : Option Binary :=
  let reach := decimal.exponent + (Nat.toDigits 10 decimal.digits).length
  if decimal.digits = 0 ∨ reach < -exponentLimit then some { mantissa := 0, exponent := 0 }
  else if exponentLimit < reach then none
  else
    some (nearest (decimal.digits * 10 ^ decimal.exponent.toNat)
      (10 ^ (-decimal.exponent).toNat))

end Binary

/-- A length of time. -/
structure Duration where
  nanoseconds : Nat
  deriving DecidableEq, Repr, Inhabited

namespace Duration

def second : Nat := 10 ^ (9 : Nat)

def ofSeconds (seconds : Nat) : Duration :=
  ⟨seconds * second⟩

def seconds (duration : Duration) : Nat :=
  duration.nanoseconds / second

/-- The nanoseconds beyond the whole seconds. -/
def subsecond (duration : Duration) : Nat :=
  duration.nanoseconds % second

theorem seconds_add_subsecond (duration : Duration) :
    duration.seconds * second + duration.subsecond = duration.nanoseconds := by
  rw [seconds, subsecond, Nat.mul_comm, Nat.div_add_mod]

/-- A number of seconds; nothing if it is too large. -/
def ofBinary? (seconds : Binary) : Option Duration :=
  let (n, d) := scaled seconds.mantissa 1 seconds.exponent
  if 2 ^ (64 : Nat) * d ≤ n then none else some ⟨roundDiv (n * second) d⟩

/-- A decimal number of seconds; nothing if it is negative or too large. -/
def ofDecimal? (seconds : Decimal) : Option Duration :=
  match Binary.ofDecimal? seconds with
  | none => none
  | some value => if seconds.negative && value.mantissa != 0 then none else ofBinary? value

end Duration

end Haystack
