/-!
# Numerals

Unsigned numbers as they are written in file ids, lifetimes and index keys: digits of some radix
behind at most one plus sign, with an upper limit. Reading goes from left to right and the first
character that cannot be used decides what is wrong: it is no digit, or it takes the number past
the limit.
-/

namespace Haystack

-- The zero of a sum and powers mean the same in this library whether algebra is imported or not.
attribute [scoped instance (2000)] Zero.ofOfNat0 instPowNat

end Haystack

namespace Haystack.Numeral

/-- Why a text is not a number of the wanted range. -/
inductive Problem where
  | empty
  | invalidDigit
  | overflow
  deriving DecidableEq, Repr

def Problem.message : Problem → String
  | .empty => "cannot parse integer from empty string"
  | .invalidDigit => "invalid digit found in string"
  | .overflow => "number too large to fit in target type"

/-- The value of a digit of any radix up to sixteen, in either case. -/
def digitValue? (c : Char) : Option Nat :=
  if '0' ≤ c ∧ c ≤ '9' then some (c.toNat - '0'.toNat)
  else if 'a' ≤ c ∧ c ≤ 'f' then some (c.toNat - 'a'.toNat + 10)
  else if 'A' ≤ c ∧ c ≤ 'F' then some (c.toNat - 'A'.toNat + 10)
  else none

def digitOf? (radix : Nat) (c : Char) : Option Nat :=
  (digitValue? c).filter (· < radix)

def readDigits (radix limit : Nat) : (value : Nat) → List Char → Except Problem Nat
  | value, [] => .ok value
  | value, c :: rest =>
    match digitOf? radix c with
    | none => .error .invalidDigit
    | some digit =>
      if limit < value * radix + digit then .error .overflow
      else readDigits radix limit (value * radix + digit) rest

/-- Reads a number of at most `limit`, with an optional plus sign. -/
def read (radix limit : Nat) : List Char → Except Problem Nat
  | [] => .error .empty
  | ['+'] => .error .invalidDigit
  | '+' :: digits => readDigits radix limit 0 digits
  | digits => readDigits radix limit 0 digits

def decimal32 (text : List Char) : Except Problem Nat :=
  read 10 (2 ^ (32 : Nat) - 1) text

def decimal64 (text : List Char) : Except Problem Nat :=
  read 10 (2 ^ (64 : Nat) - 1) text

def hex32 (text : List Char) : Except Problem Nat :=
  read 16 (2 ^ (32 : Nat) - 1) text

def hex64 (text : List Char) : Except Problem Nat :=
  read 16 (2 ^ (64 : Nat) - 1) text

/-- A number in hexadecimal, without leading zeros. -/
def toHex (value : Nat) : String :=
  String.ofList (Nat.toDigits 16 value)

/-- Digits filled up with zeros on the left to a least width. -/
def padLeft (width : Nat) (digits : List Char) : List Char :=
  List.replicate (width - digits.length) '0' ++ digits

/-- A number in decimal with at least `width` digits. -/
def padded (width value : Nat) : String :=
  String.ofList (padLeft width (Nat.toDigits 10 value))

/-- A number in hexadecimal with at least `width` digits. -/
def paddedHex (width value : Nat) : String :=
  String.ofList (padLeft width (Nat.toDigits 16 value))

end Haystack.Numeral
