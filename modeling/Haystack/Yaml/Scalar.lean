import Haystack.Text.Numeral
import Haystack.Yaml.Fold

/-!
# Quoted and plain scalars

A scalar in single quotes has one escape, a quote for a quote. One in double quotes has escapes
behind backslashes. A plain one ends before what would mean something else: a comment, a colon
with a blank behind it, within brackets their signs, and elsewhere a line that is not indented
enough. No quoted scalar goes on over the start or end of a document.
-/

namespace Haystack.Yaml

/-- The text of a scalar and what follows it. -/
abbrev ReadText := Option (List Char × List Spot)

def readSingle (fold : Fold) : List Spot → ReadText
  | [] => none
  | spot :: rest =>
    if startsMark (spot :: rest) then none
    else if spot.char != '\'' then readSingle (fold.next spot.char) rest
    else
      match rest with
      | [] => some (fold.close.text, rest)
      | other :: rest' =>
        if other.char = '\'' then readSingle (fold.add '\'') rest'
        else some (fold.close.text, rest)

/-- The character that an escape of one letter stands for. -/
def escaped? : Char → Option Char
  | '0' => some '\x00'
  | 'a' => some '\x07'
  | 'b' => some '\x08'
  | 't' => some '\t'
  | '\t' => some '\t'
  | 'n' => some '\n'
  | 'v' => some '\x0B'
  | 'f' => some '\x0C'
  | 'r' => some '\r'
  | 'e' => some '\x1B'
  | ' ' => some ' '
  | '"' => some '"'
  | '/' => some '/'
  | '\\' => some '\\'
  | 'N' => some '\u0085'
  | '_' => some '\u00A0'
  | 'L' => some '\u2028'
  | 'P' => some '\u2029'
  | _ => none

/-- How many hexadecimal digits follow the letter of an escape. -/
def escapeWidth? : Char → Option Nat
  | 'x' => some 2
  | 'u' => some 4
  | 'U' => some 8
  | _ => none

def charOf? (value : Nat) : Option Char :=
  if value.isValidChar then some (Char.ofNat value) else none

/-- What a reader of double quotes is in the midst of. -/
inductive Escape where
  | outside
  /-- Behind a backslash. -/
  | letter
  /-- Within the digits of a number, with how many are still to come. -/
  | digits (left value : Nat)
  deriving DecidableEq, Repr

def readDouble (fold : Fold) : Escape → List Spot → ReadText
  | _, [] => none
  | .letter, spot :: rest =>
    if isBreak spot.char then readDouble fold.join .outside rest
    else
      match escapeWidth? spot.char, escaped? spot.char with
      | some width, _ => readDouble fold (.digits width 0) rest
      | none, some c => readDouble (fold.add c) .outside rest
      | none, none => none
  | .digits left value, spot :: rest =>
    match Numeral.digitOf? 16 spot.char with
    | none => none
    | some digit =>
      if left = 1 then
        match charOf? (value * 16 + digit) with
        | none => none
        | some c => readDouble (fold.add c) .outside rest
      else readDouble fold (.digits (left - 1) (value * 16 + digit)) rest
  | .outside, spot :: rest =>
    if startsMark (spot :: rest) then none
    else if spot.char = '"' then some (fold.close.text, rest)
    else if spot.char = '\\' then readDouble fold .letter rest
    else readDouble (fold.next spot.char) .outside rest

def isBracketSign (c : Char) : Bool :=
  [',', '[', ']', '\x7b', '\x7d'].contains c

/-- Where a plain scalar may go on. -/
structure PlainRules where
  inBrackets : Bool := false
  /-- The column up to which further lines are to be indented with spaces. -/
  least : Nat := 0
  deriving DecidableEq, Repr

namespace PlainRules

/-- Whether a plain scalar ends before a character that is neither a blank nor a line break. -/
def endsBefore (rules : PlainRules) (gap : Gap) (spot : Spot) (rest : List Spot) : Bool :=
  let outside := spot.char == '#' || (!rules.inBrackets && spot.column < rules.least) ||
    startsMark (spot :: rest)
  (!gap.isNone && outside) || (spot.char == ':' && startsBlank rest) ||
    (rules.inBrackets && isBracketSign spot.char)

/-- Whether a character has no meaning in a plain scalar: a tab in the indentation of a line, and
within brackets a colon before a sign. -/
def refuses (rules : PlainRules) (gap : Gap) (spot : Spot) (rest : List Spot) : Bool :=
  (spot.char == '\t' && gap.hasBreak && spot.column < rules.least) ||
    (spot.char == ':' && rules.inBrackets &&
      rest.head?.any fun next => next.char == '?' || isBracketSign next.char)

end PlainRules

/-- Reads a plain scalar up to its end and past the gap behind it. -/
def readPlain (rules : PlainRules) (fold : Fold) : List Spot → Option (Fold × List Spot)
  | [] => some (fold, [])
  | spot :: rest =>
    if rules.refuses fold.gap spot rest then none
    else if !startsBlank (spot :: rest) && rules.endsBefore fold.gap spot rest then
      some (fold, spot :: rest)
    else readPlain rules (fold.next spot.char) rest

end Haystack.Yaml
