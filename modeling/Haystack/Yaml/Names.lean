import Haystack.Text.Numeral
import Haystack.Yaml.TextBlock

/-!
# Names in YAML

A value can have an anchor, by which it is meant again elsewhere, and a tag, which says what kind
of value it is. A tag is written in full or behind a handle that stands for its beginning. Lines
before a document say which version of YAML it is in and what its handles stand for.
-/

namespace Haystack.Yaml

/-- Whether a character may be part of an anchor or a handle. -/
def isWordChar (c : Char) : Bool :=
  c.isAlphanum || c == '-' || c == '_'

/-- The characters at the start of a text that pass a test, and what follows them. -/
def readWhile (test : Char → Bool) (input : List Spot) : List Char × List Spot :=
  ((input.takeWhile fun spot => test spot.char).map (·.char),
    input.dropWhile fun spot => test spot.char)

def readAnchor (input : List Spot) : Option (List Char × List Spot) :=
  let (name, rest) := readWhile isWordChar input
  let ended := startsBlank rest ||
    rest.head?.any fun spot => ['?', ':', ',', ']', '\x7d', '%', '@', '\x60'].contains spot.char
  if name.isEmpty || !ended then none else some (name, rest)

/-- A tag as it is written. A tag in full has an empty handle. -/
structure Tag where
  handle : List Char
  name : List Char
  deriving DecidableEq, Repr

/-- Whether a character may be part of a tag as it is. Within angle brackets there are more. -/
def isTagChar (full : Bool) (c : Char) : Bool :=
  isWordChar c || ";/?:@&=+$.!~*'()".toList.contains c || (full && [',', '[', ']'].contains c)

/-- How many octets follow the first one of a character. -/
def octetsBehind? (octet : Nat) : Option Nat :=
  if octet < 0x80 then some 0
  else if octet < 0xC0 then none
  else if octet < 0xE0 then some 1
  else if octet < 0xF0 then some 2
  else if octet < 0xF8 then some 3
  else none

/-- Reads the characters of a tag, of which some may be escaped as octets in hexadecimal digits.
Of an escaped character `left` octets are still to come. -/
def readTagChars (full : Bool) (done : List Char) (left : Nat) :
    List Spot → Option (List Char × List Spot)
  | [] => if left = 0 then some (done.reverse, []) else none
  | spot :: rest =>
    if spot.char != '%' then
      if left ≠ 0 then none
      else if isTagChar full spot.char then readTagChars full (spot.char :: done) 0 rest
      else some (done.reverse, spot :: rest)
    else
      match rest with
      | high :: low :: rest' =>
        match Numeral.digitOf? 16 high.char, Numeral.digitOf? 16 low.char with
        | some high, some low =>
          let octet := high * 16 + low
          let behind? :=
            if left = 0 then octetsBehind? octet
            else if octet / 0x40 = 2 then some (left - 1)
            else none
          match behind? with
          | none => none
          | some behind => readTagChars full (Char.ofNat octet :: done) behind rest'
        | _, _ => none
      | _ => none

def readTagName (full : Bool) (input : List Spot) : Option (List Char × List Spot) :=
  (readTagChars full [] 0 input).filter fun (name, _) => !name.isEmpty

def readHandle (input : List Spot) : List Char × List Spot :=
  let (word, rest) := readWhile isWordChar input
  match rest with
  | [] => ('!' :: word, [])
  | spot :: rest =>
    if spot.char = '!' then ('!' :: (word ++ ['!']), rest) else ('!' :: word, spot :: rest)

/-- Reads a tag behind its sign. What looks like a handle without an end belongs to the name. The
sign alone is a tag in full. -/
def readUnendedTag (input : List Spot) : Option (Tag × List Spot) :=
  if input.head?.any (·.char == '<') then
    match readTagName true (input.drop 1) with
    | none => none
    | some (name, rest) =>
      if rest.head?.any (·.char == '>') then some ({ handle := [], name }, rest.drop 1) else none
  else
    let (handle, rest) := readHandle input
    if handle.length > 1 && handle.getLast? == some '!' then
      (readTagName false rest).map fun (name, rest) => ({ handle, name }, rest)
    else
      (readTagChars false (handle.drop 1).reverse 0 rest).map fun (name, rest) =>
        (if name.isEmpty then { handle := [], name := ['!'] } else { handle := ['!'], name }, rest)

def readTag (inBrackets : Bool) (input : List Spot) : Option (Tag × List Spot) :=
  (readUnendedTag input).filter fun (_, rest) =>
    startsBlank rest || (inBrackets && rest.head?.any (·.char == ','))

/-- A line before a document. -/
inductive Directive where
  /-- The version of YAML. -/
  | version
  /-- What a handle stands for. -/
  | handle (name meaning : List Char)
  deriving DecidableEq, Repr

/-- Reads a number of a version, of at most nine digits. -/
def readVersionNumber (input : List Spot) : Option (Nat × List Spot) :=
  let (digits, rest) := readWhile Char.isDigit input
  if digits.isEmpty || 9 < digits.length then none
  else some (digits.foldl (fun n digit => n * 10 + (digit.toNat - '0'.toNat)) 0, rest)

/-- Reads a version, which has to be 1.1 or 1.2. -/
def readVersion (input : List Spot) : Option (Directive × List Spot) := do
  let (major, rest) ← readVersionNumber (skipBlanks input)
  if !rest.head?.any (·.char == '.') then none
  let (minor, rest) ← readVersionNumber (rest.drop 1)
  if major = 1 ∧ (minor = 1 ∨ minor = 2) then return (.version, rest) else none

def readHandleMeaning (input : List Spot) : Option (Directive × List Spot) := do
  let input := skipBlanks input
  if !input.head?.any (·.char == '!') then none
  let (name, rest) := readHandle (input.drop 1)
  if name.getLast? != some '!' then none
  if !rest.head?.any fun spot => isBlank spot.char then none
  let (meaning, rest) ← readTagName true (skipBlanks rest)
  if startsBlank rest then return (.handle name meaning, rest) else none

def readDirective (input : List Spot) : Option (Directive × List Spot) := do
  let (name, rest) := readWhile isWordChar input
  if !startsBlank rest then none
  let (directive, rest) ←
    if name = "YAML".toList then readVersion rest
    else if name = "TAG".toList then readHandleMeaning rest
    else none
  return (directive, ← readLineEnd rest)

end Haystack.Yaml
