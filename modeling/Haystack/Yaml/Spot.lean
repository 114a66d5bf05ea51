/-!
# Places in a YAML text

In YAML the lines and columns matter, so every character of a text is kept together with its
place. A line ends with a line feed, a carriage return, both of them in this order, a next line
character, a line separator or a paragraph separator. The last two stay what they are; all others
count as a line feed.
-/

namespace Haystack.Yaml

/-- A character of a text and its place. -/
structure Spot where
  char : Char
  /-- How many characters stand before it. -/
  index : Nat
  /-- How many lines end before it. -/
  line : Nat
  /-- How many characters of its line stand before it. -/
  column : Nat
  deriving DecidableEq, Repr

/-- Whether a character may be part of a text. -/
def isPrintable (c : Char) : Bool :=
  let n := c.toNat
  ['\t', '\n', '\r', '\u0085'].contains c || (0x20 ≤ n && n ≤ 0x7E) ||
    (0xA0 ≤ n && n ≤ 0xFFFD) || 0x10000 ≤ n

def isBlank (c : Char) : Bool :=
  c == ' ' || c == '\t'

def isBreak (c : Char) : Bool :=
  c == '\n' || c == '\u2028' || c == '\u2029'

def spotsFrom (index line column : Nat) : List Char → List Spot
  | '\r' :: '\n' :: rest =>
    { char := '\n', index, line, column } :: spotsFrom (index + 2) (line + 1) 0 rest
  | c :: rest =>
    let char := if c = '\r' ∨ c = '\u0085' then '\n' else c
    { char, index, line, column } ::
      if isBreak char then spotsFrom (index + 1) (line + 1) 0 rest
      else spotsFrom (index + 1) line (column + 1) rest
  | [] => []

/-- The characters of a text, all of which have to be printable. -/
def spots? (text : List Char) : Option (List Spot) :=
  if text.all isPrintable then some (spotsFrom 0 0 0 text) else none

/-- Whether a text starts with a blank or a line break, or ends. -/
def startsBlank : List Spot → Bool
  | [] => true
  | spot :: _ => isBlank spot.char || isBreak spot.char

def skipBlanks (input : List Spot) : List Spot :=
  input.dropWhile fun spot => isBlank spot.char

/-- Whether a line starts with a sign three times and nothing else next to it. -/
def startsWithMark (sign : Char) : List Spot → Bool
  | a :: b :: c :: rest =>
    a.column == 0 && [a.char, b.char, c.char].all (· == sign) && startsBlank rest
  | _ => false

def startsMark (input : List Spot) : Bool :=
  startsWithMark '-' input || startsWithMark '.' input

end Haystack.Yaml
