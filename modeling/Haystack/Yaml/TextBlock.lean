import Haystack.Yaml.Spot

/-!
# Text blocks

A text block is a scalar of whole lines, all indented alike. In a literal block the lines stay as
they are. In a folded one a line feed between two lines counts as a blank, unless one of them
starts with a blank or empty lines stand between them. How far the lines are indented is said
behind the sign of the block or taken from its first line; what becomes of the line breaks at its
end can be said there too.
-/

namespace Haystack.Yaml

/-- What becomes of the line breaks at the end of a text block: none, only the first or all of
them stay. -/
inductive Ending where
  | none
  | first
  | all
  deriving DecidableEq, Repr

/-- What is said behind the sign of a text block. -/
structure Hints where
  ending : Ending := .first
  /-- How far the lines are indented, if that is said. -/
  indent : Option Nat := .none
  deriving DecidableEq, Repr

/-- The sign for the ending of a text block, if there is one, and what follows it. -/
def readEnding : List Spot → Option Ending × List Spot
  | [] => (none, [])
  | spot :: rest =>
    if spot.char = '+' then (some .all, rest)
    else if spot.char = '-' then (some .none, rest)
    else (none, spot :: rest)

/-- The digit for the indentation of a text block, if there is one, and what follows it. -/
def readIndent : List Spot → Option (Option Nat × List Spot)
  | [] => some (none, [])
  | spot :: rest =>
    if spot.char = '0' then none
    else if spot.char.isDigit then some (some (spot.char.toNat - '0'.toNat), rest)
    else some (none, spot :: rest)

/-- Reads the hints behind the sign of a text block, the digit before or behind the other one. -/
def readHints (input : List Spot) : Option (Hints × List Spot) :=
  let (before, rest) := readEnding input
  match readIndent rest with
  | none => none
  | some (indent, rest) =>
    let (behind, rest) := if before.isNone then readEnding rest else (none, rest)
    some ({ ending := (before.or behind).getD .first, indent }, rest)

/-- What follows a line of which only blanks and a comment are left. -/
def readLineEnd (input : List Spot) : Option (List Spot) :=
  let rest := skipBlanks input
  let rest :=
    if rest.head?.any (·.char == '#') then rest.dropWhile fun spot => !isBreak spot.char else rest
  match rest with
  | [] => some []
  | spot :: rest => if isBreak spot.char then some rest else none

/-- The empty lines before the first other one, and the column in which the widest of all these
lines ends its indentation. -/
def readMargin (empty : List Char) (widest : Nat) : List Spot → Option (List Char × Nat × List Spot)
  | [] => some (empty, widest, [])
  | spot :: rest =>
    if spot.char = ' ' then readMargin empty (max widest (spot.column + 1)) rest
    else if spot.char = '\t' then none
    else if isBreak spot.char then readMargin (spot.char :: empty) widest rest
    else some (empty, widest, spot :: rest)

/-- What has been read of a text block. -/
structure TextBlock where
  /-- All up to the end of the last line that is not empty, in reverse. -/
  done : List Char := []
  /-- The line break behind it. -/
  ending : Option Char := none
  /-- The line breaks of the empty lines after it, in reverse. -/
  empty : List Char := []
  /-- Whether it starts with a blank. -/
  indented : Bool := false
  deriving DecidableEq, Repr

namespace TextBlock

def start (literal : Bool) (block : TextBlock) (c : Char) : TextBlock :=
  let folds := !literal && block.ending == some '\n' && !block.indented && !isBlank c
  let between :=
    if !folds then block.empty ++ block.ending.toList
    else if block.empty.isEmpty then [' ']
    else block.empty
  { done := c :: (between ++ block.done), indented := isBlank c }

def text (block : TextBlock) (ending : Ending) : List Char :=
  List.reverse <|
    match ending with
    | .none => block.done
    | .first => block.ending.toList ++ block.done
    | .all => block.empty ++ (block.ending.toList ++ block.done)

/-- Reads the lines indented up to a column, from within a line or before one. -/
def readLines (literal : Bool) (indent : Nat) (block : TextBlock) (within : Bool) :
    List Spot → Option (TextBlock × List Spot)
  | [] => some (block, [])
  | spot :: rest =>
    let c := spot.char
    if isBreak c then
      if within then readLines literal indent { block with ending := some c } false rest
      else readLines literal indent { block with empty := c :: block.empty } false rest
    else if within then readLines literal indent { block with done := c :: block.done } true rest
    else if spot.column = indent then readLines literal indent (block.start literal c) true rest
    else if c = ' ' then readLines literal indent block false rest
    else if c = '\t' then none
    else some (block, spot :: rest)

end TextBlock

/-- Reads a text block behind its sign, in a node whose content is indented up to `least`. -/
def readTextBlock (literal : Bool) (least : Nat) (input : List Spot) :
    Option (List Char × List Spot) := do
  let (hints, rest) ← readHints input
  let rest ← readLineEnd rest
  let (empty, indent, rest) ←
    match hints.indent with
    | some indent => some ([], least - 1 + indent, rest)
    | none =>
      (readMargin [] 0 rest).map fun (empty, widest, rest) =>
        (empty, max widest (max least 1), rest)
  let (block, rest) ← TextBlock.readLines literal indent { empty } false rest
  return (block.text hints.ending, rest)

end Haystack.Yaml
