/-!
# Decimal fractions

A number with an optional sign, a point and a power of ten, as it is written in configurations.
Its value is a whole number of digits times a power of ten, so nothing is rounded here.
-/

namespace Haystack

/-- The number `digits * 10 ^ exponent`, or its negative. -/
structure Decimal where
  negative : Bool := false
  digits : Nat
  exponent : Int := 0
  deriving DecidableEq, Repr

namespace Decimal

/-- The number that some digits spell, onto a value read so far. -/
def spell (value : Nat) (digits : List Char) : Nat :=
  digits.foldl (fun value c => value * 10 + (c.toNat - '0'.toNat)) value

def readExponent (text : List Char) : Option Int :=
  let (negative, digits) := match text with
    | '-' :: rest => (true, rest)
    | '+' :: rest => (false, rest)
    | rest => (false, rest)
  if digits.isEmpty || !digits.all Char.isDigit then none
  else some (if negative then -(spell 0 digits : Int) else spell 0 digits)

/-- A number without its sign: digits around a point, at least one of them, and then perhaps a
power of ten. -/
def readUnsigned (negative : Bool) (text : List Char) : Option Decimal :=
  let whole := text.takeWhile Char.isDigit
  let rest := text.dropWhile Char.isDigit
  let (fraction, rest) := match rest with
    | '.' :: rest => (rest.takeWhile Char.isDigit, rest.dropWhile Char.isDigit)
    | rest => ([], rest)
  let value (power : Int) : Decimal :=
    { negative, digits := spell (spell 0 whole) fraction, exponent := power - fraction.length }
  if whole.isEmpty && fraction.isEmpty then none
  else
    match rest with
    | [] => some (value 0)
    | mark :: power =>
      if mark = 'e' ∨ mark = 'E' then (readExponent power).map value else none

def read : List Char → Option Decimal
  | '-' :: rest => readUnsigned true rest
  | '+' :: rest => readUnsigned false rest
  | text => readUnsigned false text

end Decimal

end Haystack
