import Haystack.Bytes
import Haystack.Error
import Haystack.Text.Blank
import Haystack.Text.Numeral

/-!
# Lifetimes

A lifetime is a count of minutes, hours, days, weeks, months or years and takes two bytes: the
count and the unit. A longer count than a byte holds moves to a coarser unit, exactly if some unit
fits and to the next whole year otherwise, so that nothing expires before its time.
-/

namespace Haystack

/-- The unit of a lifetime; `none` goes with data that never expires. -/
inductive TtlUnit where
  | none
  | minute
  | hour
  | day
  | week
  | month
  | year
  deriving DecidableEq, Repr, Inhabited

namespace TtlUnit

def toByte : TtlUnit → UInt8
  | .none => 0
  | .minute => 1
  | .hour => 2
  | .day => 3
  | .week => 4
  | .month => 5
  | .year => 6

/-- The unit that a byte stores; unknown bytes stand for no unit. -/
def ofByte (byte : UInt8) : TtlUnit :=
  match byte.toNat with
  | 1 => .minute
  | 2 => .hour
  | 3 => .day
  | 4 => .week
  | 5 => .month
  | 6 => .year
  | _ => .none

def ofLetter? : Char → Option TtlUnit
  | 'm' => some .minute
  | 'h' => some .hour
  | 'd' => some .day
  | 'w' => some .week
  | 'M' => some .month
  | 'y' => some .year
  | _ => Option.none

def letter : TtlUnit → String
  | .none => ""
  | .minute => "m"
  | .hour => "h"
  | .day => "d"
  | .week => "w"
  | .month => "M"
  | .year => "y"

/-- The length of a unit in minutes; a month has thirty days and a year 365. -/
def minutes : TtlUnit → Nat
  | .none => 0
  | .minute => 1
  | .hour => 60
  | .day => 60 * 24
  | .week => 60 * 24 * 7
  | .month => 60 * 24 * 30
  | .year => 60 * 24 * 365

/-- The units coarser than a given one, finest first. -/
def coarser : TtlUnit → List TtlUnit
  | .none => [.hour, .day, .week, .month, .year]
  | .minute => [.hour, .day, .week, .month, .year]
  | .hour => [.day, .week, .month, .year]
  | .day => [.week, .month, .year]
  | .week => [.month, .year]
  | .month => [.year]
  | .year => []

@[simp] theorem ofByte_toByte (unit : TtlUnit) : ofByte unit.toByte = unit := by
  cases unit <;> rfl

end TtlUnit

/-- How long something lives. -/
structure Ttl where
  count : UInt8 := 0
  unit : TtlUnit := .none
  deriving DecidableEq, Repr, Inhabited

namespace Ttl

def forever : Ttl := {}

def isForever (ttl : Ttl) : Bool :=
  ttl.count == 0 || ttl.unit == .none

def minutes (ttl : Ttl) : Nat :=
  ttl.count.toNat * ttl.unit.minutes

/-- The first of some units in which a number of minutes is a count of at most 255. -/
def exactIn? (minutes : Nat) (units : List TtlUnit) : Option Ttl :=
  (units.find? fun unit => minutes % unit.minutes = 0 ∧ minutes / unit.minutes ≤ 255).map
    fun unit => { count := UInt8.ofNat (minutes / unit.minutes), unit }

/-- The least whole number of years that last some minutes, at most 255. -/
def wholeYears (minutes : Nat) : Ttl :=
  { count := UInt8.ofNat (min 255 ((minutes + TtlUnit.year.minutes - 1) / TtlUnit.year.minutes))
    unit := .year }

def ofCount (count : Nat) (unit : TtlUnit) : Ttl :=
  if count = 0 ∨ unit = .none then forever
  else if count ≤ 255 then { count := UInt8.ofNat count, unit }
  else (exactIn? (count * unit.minutes) unit.coarser).getD (wholeYears (count * unit.minutes))

/-- Splits a text at its unit: a text that ends in a digit counts minutes. -/
def splitUnit? (text : List Char) : Option (List Char × TtlUnit) :=
  match text.getLast? with
  | none => none
  | some last =>
    if last.isDigit then some (text, .minute)
    else (TtlUnit.ofLetter? last).map fun unit => (text.dropLast, unit)

/-- Reads a lifetime such as `3d`; blanks around it do not matter and no text is `forever`. -/
def parse (text : String) : Except Error Ttl :=
  let trimmed := Blank.trim text.toList
  if trimmed.isEmpty then .ok forever
  else
    match splitUnit? trimmed with
    | none => .error (.invalidTtl (String.ofList trimmed))
    | some (digits, unit) =>
      match Numeral.decimal32 digits with
      | .error _ => .error (.invalidTtl (String.ofList trimmed))
      | .ok count => .ok (ofCount count unit)

def toBytes (ttl : Ttl) : Bytes :=
  [ttl.count, ttl.unit.toByte]

/-- The lifetime in the first two bytes; fewer stand for `forever`. -/
def ofBytes : Bytes → Ttl
  | count :: unit :: _ => { count, unit := .ofByte unit }
  | _ => forever

/-- The lifetime as one number, zero if its count is. -/
def toWord (ttl : Ttl) : Nat :=
  if ttl.count = 0 then 0 else ttl.count.toNat * 256 + ttl.unit.toByte.toNat

def ofWord (word : Nat) : Ttl :=
  ofBytes (Bytes.ofNat 2 word)

/-- Count and letter; nothing for what never expires. -/
def display (ttl : Ttl) : String :=
  if ttl.isForever then "" else toString ttl.count ++ ttl.unit.letter

@[simp] theorem length_toBytes (ttl : Ttl) : ttl.toBytes.length = 2 := rfl

@[simp] theorem ofBytes_toBytes (ttl : Ttl) (rest : Bytes) : ofBytes (ttl.toBytes ++ rest) = ttl := by
  simp [ofBytes, toBytes]

end Ttl

end Haystack
