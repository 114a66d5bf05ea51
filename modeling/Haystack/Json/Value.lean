import Haystack.Bytes
import Haystack.Text.Utf8

/-!
# JSON values

A value keeps its numbers and strings as they are written. Only a reader that wants a number or a
text looks into them, so that values nobody asks for need no more than a sound form.
-/

namespace Haystack

/-- A JSON value as it is written. -/
inductive Json where
  | null
  | boolean (value : Bool)
  | number (digits : Bytes)
  /-- A string, given as what stands between its quotes. -/
  | string (body : Bytes)
  | array (items : List Json)
  | object (members : List (Bytes × Json))
  deriving Repr, Inhabited

namespace Json

/-- The bytes that JSON gives a meaning to. -/
def quote : UInt8 := 0x22

/-- The byte that starts an escape. -/
def backslash : UInt8 := 0x5C

def ascii (text : String) : Bytes :=
  Utf8.encode text.toList

def isDigit (byte : UInt8) : Bool :=
  0x30 ≤ byte && byte ≤ 0x39

def hexValue? (byte : UInt8) : Option Nat :=
  if isDigit byte then some (byte.toNat - 0x30)
  else if 0x61 ≤ byte ∧ byte ≤ 0x66 then some (byte.toNat - 0x61 + 10)
  else if 0x41 ≤ byte ∧ byte ≤ 0x46 then some (byte.toNat - 0x41 + 10)
  else none

def hexWord? (a b c d : UInt8) : Option Nat := do
  return (← hexValue? a) * 4096 + (← hexValue? b) * 256 + (← hexValue? c) * 16 + (← hexValue? d)

/-- The byte that an escape of one letter stands for. -/
def escaped? (letter : UInt8) : Option UInt8 :=
  if letter = quote then some quote
  else if letter = backslash then some backslash
  else if letter = 0x2F then some 0x2F
  else if letter = 0x62 then some 0x08
  else if letter = 0x66 then some 0x0C
  else if letter = 0x6E then some 0x0A
  else if letter = 0x72 then some 0x0D
  else if letter = 0x74 then some 0x09
  else none

/-- Whether a number is the first half of a surrogate pair. -/
def isHighSurrogate (word : Nat) : Bool :=
  0xD800 ≤ word && word ≤ 0xDBFF

/-- Whether a number is the second half of a surrogate pair. -/
def isLowSurrogate (word : Nat) : Bool :=
  0xDC00 ≤ word && word ≤ 0xDFFF

/-- Resolves the escapes of a string body onto the reversed bytes read so far. Surrogates have to
come in pairs. -/
def unescapeOnto : (done : Bytes) → Bytes → Option Bytes
  | done, [] => some done.reverse
  | done, 0x5C :: 0x75 :: a :: b :: c :: d :: 0x5C :: 0x75 :: e :: f :: g :: h :: rest =>
    match hexWord? a b c d, hexWord? e f g h with
    | some first, some second =>
      if isHighSurrogate first then
        if isLowSurrogate second then
          let code := (first - 0xD800) * 1024 + (second - 0xDC00) + 0x10000
          unescapeOnto ((String.utf8EncodeChar (Char.ofNat code)).reverse ++ done) rest
        else none
      else if isLowSurrogate first then none
      else
        unescapeOnto ((String.utf8EncodeChar (Char.ofNat first)).reverse ++ done)
          (0x5C :: 0x75 :: e :: f :: g :: h :: rest)
    | _, _ => none
  | done, 0x5C :: 0x75 :: a :: b :: c :: d :: rest =>
    match hexWord? a b c d with
    | some word =>
      if isHighSurrogate word || isLowSurrogate word then none
      else unescapeOnto ((String.utf8EncodeChar (Char.ofNat word)).reverse ++ done) rest
    | none => none
  | done, 0x5C :: letter :: rest =>
    match escaped? letter with
    | some byte => unescapeOnto (byte :: done) rest
    | none => none
  | _, [0x5C] => none
  | done, byte :: rest => unescapeOnto (byte :: done) rest

/-- The text of a string body, if its escapes and its bytes are those of a text. -/
def text? (body : Bytes) : Option String := do
  return String.ofList (← Utf8.decode? (← unescapeOnto [] body))

/-- The value of written digits, highest first. -/
def decimal (digits : Bytes) : Nat :=
  digits.foldl (fun value byte => value * 10 + (byte.toNat - 0x30)) 0

/-- The integer that a number is written as. Fractions, exponents and a negative zero are no
integers. -/
def integerOf? : Bytes → Option Int
  | 0x2D :: digits =>
    if digits.all isDigit && decimal digits != 0 then some (-(decimal digits : Int)) else none
  | digits => if digits.all isDigit then some (decimal digits) else none

/-- The integer of a value, if it is one between two bounds. -/
def integer? (low high : Int) : Json → Option Int
  | .number digits => (integerOf? digits).filter fun value => low ≤ value && value ≤ high
  | _ => none

/-- The natural number of a value, if it is one below `bound`. -/
def natural? (bound : Nat) (json : Json) : Option Nat :=
  (json.integer? 0 (bound - 1)).map Int.toNat

def string? : Json → Option String
  | .string body => text? body
  | _ => none

def boolean? : Json → Option Bool
  | .boolean value => some value
  | _ => none

def items? : Json → Option (List Json)
  | .array items => some items
  | _ => none

def members? : Json → Option (List (String × Json))
  | .object members => members.mapM fun member => do return (← text? member.1, member.2)
  | _ => none

/-- The value of the only member of a name. Two members of one name are an error, none is not. -/
def only? (members : List (String × Json)) (name : String) : Option (Option Json) :=
  match members.filter fun member => member.1 == name with
  | [] => some none
  | [member] => some (some member.2)
  | _ => none

/-- The values of named fields. A record is written as an object, whose other members do not
matter, or as an array of its fields in order, of which the last ones may be missing. -/
def fields? (names : List String) : Json → Option (List (Option Json))
  | .array items =>
    if items.length ≤ names.length then
      some (items.map some ++ List.replicate (names.length - items.length) none)
    else none
  | .object members => do
    let members ← members? (.object members)
    names.mapM (only? members)
  | _ => none

end Json

end Haystack
