import Haystack.Yaml.Scalar
import Haystack.Yaml.Token

/-!
# The layout of a YAML text

Outside of brackets, indentation says where blocks start and end, and a token is known to be a key
only by the colon behind it. So while the tokens of a text are read, the columns of the open
blocks are kept, and for every open bracket the last token that may turn out to be a key. A key
stands on one line and is not longer than 1024 characters.
-/

namespace Haystack.Yaml

/-- A token that may be a key. -/
structure Candidate where
  /-- Whether nothing but a key may stand there. -/
  required : Bool
  /-- How many tokens stand before it. -/
  position : Nat
  spot : Spot
  deriving DecidableEq, Repr

/-- Whether a colon at a place is too far away for a candidate. -/
def Candidate.isPast (candidate : Candidate) (spot : Spot) : Bool :=
  candidate.spot.line < spot.line || candidate.spot.index + 1024 < spot.index

/-- What is known of a text up to a place. -/
structure Layout where
  tokens : Array Token := #[]
  /-- Whether a key or an item may start here. -/
  keyAllowed : Bool := true
  candidate : Option Candidate := none
  /-- The candidates outside of each open bracket, the innermost first. -/
  outer : List (Option Candidate) := []
  /-- The columns of the open blocks, the innermost first. -/
  columns : List Nat := []
  deriving DecidableEq, Repr

namespace Layout

def inBrackets (layout : Layout) : Bool :=
  !layout.outer.isEmpty

/-- The column up to which the lines of a scalar are to be indented. -/
def least (layout : Layout) : Nat :=
  match layout.columns with
  | [] => 0
  | column :: _ => column + 1

def emit (token : Token) (layout : Layout) : Layout :=
  { layout with tokens := layout.tokens.push token }

/-- After a token put in behind `position` others. -/
def insert (position : Nat) (token : Token) (layout : Layout) : Layout :=
  { layout with tokens := layout.tokens.insertIdxIfInBounds position token }

/-- With keys allowed behind a place or not. -/
def allow (keyAllowed : Bool) (layout : Layout) : Layout :=
  { layout with keyAllowed }

/-- Gives up the candidate, unless it has to be a key. -/
def forget (layout : Layout) : Option Layout :=
  if layout.candidate.any (·.required) then none else some { layout with candidate := none }

/-- Gives up all candidates for which a colon at a place would be too far away. -/
def expire (spot : Spot) (layout : Layout) : Option Layout :=
  let isPast (candidate : Candidate) := candidate.isPast spot
  if (layout.candidate :: layout.outer).any fun candidate =>
      candidate.any fun candidate => candidate.required && isPast candidate then none
  else some { layout with
    candidate := layout.candidate.filter (!isPast ·)
    outer := layout.outer.map fun candidate => candidate.filter (!isPast ·) }

/-- Takes the next token, at a place, as a candidate if a key may start there. In the column of the
innermost block it has to be a key. -/
def consider (spot : Spot) (layout : Layout) : Option Layout :=
  if !layout.keyAllowed then some layout
  else
    layout.forget.map fun layout =>
      { layout with
        candidate := some {
          required := !layout.inBrackets && layout.columns.head? == some spot.column
          position := layout.tokens.size
          spot } }

/-- Ends the blocks that a token in a column does not belong to. Brackets keep them open. -/
def leave (column : Nat) (layout : Layout) : Layout :=
  if layout.inBrackets then layout
  else
    let left := layout.columns.takeWhile (column < ·)
    { layout with
      tokens := layout.tokens ++ Array.replicate left.length .blockEnd
      columns := layout.columns.drop left.length }

def leaveAll (layout : Layout) : Layout :=
  if layout.inBrackets then layout
  else
    { layout with
      tokens := layout.tokens ++ Array.replicate layout.columns.length .blockEnd
      columns := [] }

/-- Starts a block in a column behind `position` tokens, unless there is one already. -/
def enter (column position : Nat) (start : Token) (layout : Layout) : Layout :=
  if layout.inBrackets || layout.columns.head?.any (column ≤ ·) then layout
  else { layout.insert position start with columns := column :: layout.columns }

def openBracket (spot : Spot) (token : Token) (layout : Layout) : Option Layout :=
  (layout.consider spot).map fun layout =>
    { layout.emit token with
      candidate := none, outer := layout.candidate :: layout.outer, keyAllowed := true }

def closeBracket (token : Token) (layout : Layout) : Option Layout :=
  layout.forget.map fun layout =>
    { layout.emit token with
      candidate := layout.outer.head?.join, outer := layout.outer.tail, keyAllowed := false }

/-- After the sign before an item or a key, which starts a block in its column outside of brackets,
where keys have to be allowed. -/
def startEntry (column : Nat) (start token : Token) (allowed : Bool) (layout : Layout) :
    Option Layout :=
  if !layout.inBrackets && !layout.keyAllowed then none
  else
    (layout.enter column layout.tokens.size start).forget.map fun layout =>
      (layout.allow allowed).emit token

/-- After the colon before a value, which makes the candidate a key. Without one the key is not
written, or stands behind a sign of its own. -/
def startValue (column : Nat) (layout : Layout) : Option Layout :=
  match layout.candidate with
  | some { position, spot, .. } =>
    let layout := (layout.insert position .key).enter spot.column position .mappingStart
    some ({ layout with candidate := none, keyAllowed := false }.emit .value)
  | none =>
    if !layout.inBrackets && !layout.keyAllowed then none
    else
      let layout := layout.enter column layout.tokens.size .mappingStart
      some ((layout.allow !layout.inBrackets).emit .value)

def atMargin (token : Token) (layout : Layout) : Option Layout :=
  layout.leaveAll.forget.map fun layout => (layout.allow false).emit token

/-- After a token at a place that may be a key or stand before one. -/
def place (spot : Spot) (token : Token) (layout : Layout) : Option Layout :=
  (layout.consider spot).map fun layout => (layout.allow false).emit token

/-- After a plain scalar. After a line break a key may start. -/
def readPlain (layout : Layout) (input : List Spot) (spot : Spot) :
    Option (Layout × List Spot) := do
  let (fold, rest) ←
    Yaml.readPlain { inBrackets := layout.inBrackets, least := layout.least } {} input
  let layout ← layout.place spot (.scalar .plain fold.text)
  return (if fold.gap.hasBreak then layout.allow true else layout, rest)

/-- After the token at a place, which is neither a directive nor a sign between documents. -/
def readToken (layout : Layout) (spot : Spot) (rest : List Spot) : Option (Layout × List Spot) := do
  let plain := layout.readPlain (spot :: rest) spot
  let apart := layout.inBrackets || startsBlank rest
  match spot.char with
  | '[' => return (← layout.openBracket spot .openSequence, rest)
  | '\x7b' => return (← layout.openBracket spot .openMapping, rest)
  | ']' => return (← layout.closeBracket .closeSequence, rest)
  | '\x7d' => return (← layout.closeBracket .closeMapping, rest)
  | ',' => return ((← layout.forget).allow true |>.emit .comma, rest)
  | '-' =>
    if startsBlank rest then
      return (← layout.startEntry spot.column .sequenceStart .item true, rest)
    else plain
  | '?' =>
    if apart then
      return (← layout.startEntry spot.column .mappingStart .key (!layout.inBrackets), rest)
    else plain
  | ':' => if apart then return (← layout.startValue spot.column, rest) else plain
  | '*' =>
    let (name, rest) ← readAnchor rest
    return (← layout.place spot (.alias name), rest)
  | '&' =>
    let (name, rest) ← readAnchor rest
    return (← layout.place spot (.anchor name), rest)
  | '!' =>
    let (tag, rest) ← readTag layout.inBrackets rest
    return (← layout.place spot (.tag tag), rest)
  | '\'' =>
    let (text, rest) ← readSingle {} rest
    return (← layout.place spot (.scalar .quoted text), rest)
  | '"' =>
    let (text, rest) ← readDouble {} .outside rest
    return (← layout.place spot (.scalar .quoted text), rest)
  | '|' => readBlock .literal
  | '>' => readBlock .folded
  | c => if ['#', '%', '@', '\x60', '\t'].contains c then none else plain
where
  /-- After a text block. -/
  readBlock (style : Style) : Option (Layout × List Spot) := do
    if layout.inBrackets then none
    let layout ← layout.forget
    let (text, rest) ← readTextBlock (style == .literal) layout.least rest
    return ((layout.allow true).emit (.scalar style text), rest)

def read (layout : Layout) (spot : Spot) (rest : List Spot) : Option (Layout × List Spot) := do
  let layout ← layout.expire spot
  let layout := layout.leave spot.column
  if spot.column = 0 ∧ spot.char = '%' then
    let (directive, rest) ← readDirective rest
    return (← layout.atMargin (.directive directive), rest)
  else if startsWithMark '-' (spot :: rest) then
    return (← layout.atMargin .documentStart, rest.drop 2)
  else if startsWithMark '.' (spot :: rest) then
    return (← layout.atMargin .documentEnd, rest.drop 2)
  else layout.readToken spot rest

end Layout

/-- What follows blanks, comments and line breaks, and whether a key may start there. Where one may
start outside of brackets, tabs are no blanks, and a line break outside of brackets lets one
start. A byte order mark may stand at the start of a line. -/
def skipGap (inBrackets keyAllowed comment : Bool) : List Spot → Bool × List Spot
  | [] => (keyAllowed, [])
  | spot :: rest =>
    let c := spot.char
    if isBreak c then skipGap inBrackets (keyAllowed || !inBrackets) false rest
    else if comment || c == ' ' || (c == '\t' && (inBrackets || !keyAllowed)) ||
        (c == '\uFEFF' && spot.column == 0) then
      skipGap inBrackets keyAllowed comment rest
    else if c == '#' then skipGap inBrackets keyAllowed true rest
    else (keyAllowed, spot :: rest)

/-- The tokens of a text, onto those that are known. Every token has a character. -/
def tokensFrom : (fuel : Nat) → Layout → List Spot → Option (List Token)
  | 0, _, _ => none
  | fuel + 1, layout, input =>
    match skipGap layout.inBrackets layout.keyAllowed false input with
    | (_, []) => layout.leaveAll.forget.map fun layout => layout.tokens.toList
    | (keyAllowed, spot :: rest) =>
      match (layout.allow keyAllowed).read spot rest with
      | none => none
      | some (layout, rest) => tokensFrom fuel layout rest

def tokens? (text : List Spot) : Option (List Token) :=
  tokensFrom (text.length + 1) {} text

end Haystack.Yaml
