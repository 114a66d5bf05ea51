import Haystack.Yaml.Layout

/-!
# Documents of YAML

A text holds at most one document, and a document is one value. Between the signs of the text
values may be left out; a text without a document is a document whose value is left out. An alias
stands for the value with its anchor that starts last before it.
-/

namespace Haystack.Yaml

/-- What is left of a text, and the names it has given so far. -/
structure Remainder where
  tokens : List Token
  /-- The values with anchors, the first one first. A value that has not ended yet counts as an
  empty mapping. -/
  anchors : List (List Char × Yaml) := []
  /-- What the handles of tags stand for, those declared last first. -/
  handles : List (List Char × List Char) :=
    [(['!'], ['!']), (['!', '!'], tagOf "")]

/-- A step in reading a document. -/
abbrev Reading (α : Type) := StateT Remainder Option α

def peek : Reading (Option Token) := do
  return (← get).tokens.head?

def skip : Reading Unit :=
  modify fun left => { left with tokens := left.tokens.drop 1 }

/-- Whether the next token is a given one, which is passed over then. -/
def accept (token : Token) : Reading Bool := do
  if (← peek) = some token then
    skip
    return true
  else return false

def comes (tokens : List Token) : Reading Bool := do
  return (← peek).any tokens.contains

def resolve (anchor : List Char) : Reading Yaml := do
  match (← get).anchors.reverse.lookup anchor with
  | none => failure
  | some value => return value

/-- A tag in full. The sign alone is no tag. -/
def expand (tag : Tag) : Reading (Option (List Char)) := do
  if tag.handle.isEmpty then return if tag.name = ['!'] then none else some tag.name
  else
    match (← get).handles.lookup tag.handle with
    | none => failure
    | some meaning => return some (meaning ++ tag.name)

/-- What may stand before a value: an anchor and a tag, in either order. -/
def readProperties : Reading (Option (List Char) × Option Tag) := do
  match ← peek with
  | some (.anchor name) =>
    skip
    match ← peek with
    | some (.tag tag) =>
      skip
      return (some name, some tag)
    | _ => return (some name, none)
  | some (.tag tag) =>
    skip
    match ← peek with
    | some (.anchor name) =>
      skip
      return (some name, some tag)
    | _ => return (none, some tag)
  | _ => return (none, none)

def named (anchor : Option (List Char)) (read : Reading Yaml) : Reading Yaml := do
  match anchor with
  | none => read
  | some name =>
    let position := (← get).anchors.length
    modify fun left => { left with anchors := left.anchors ++ [(name, .mapping [])] }
    let value ← read
    modify fun left => { left with anchors := left.anchors.set position (name, value) }
    return value

mutual

/-- Reads a value. `block` says whether it may be a block, and `unindented` whether it may be a
block of items in the column of the block around it. -/
def readValue : (fuel : Nat) → (block unindented : Bool) → Reading Yaml
  | 0, _, _ => failure
  | fuel + 1, block, unindented => do
    if let some (.alias name) := ← peek then
      skip
      return ← resolve name
    let (anchor, tag) ← readProperties
    let meaning ← match tag with
      | none => pure none
      | some tag => expand tag
    named anchor do
      match ← peek with
      | some (.scalar style text) =>
        skip
        return .scalar style meaning text
      | some .openSequence =>
        skip
        return .sequence (← readBracketItems fuel true)
      | some .openMapping =>
        skip
        return .mapping (← readBracketPairs fuel true)
      | next =>
        if unindented && next = some .item then return .sequence (← readUnindented fuel)
        else if block && next = some .sequenceStart then
          skip
          return .sequence (← readItems fuel)
        else if block && next = some .mappingStart then
          skip
          return .mapping (← readPairs fuel)
        else if anchor.isSome || tag.isSome then return .scalar .plain meaning []
        else failure

def readUnless : (fuel : Nat) → (block unindented : Bool) → (ends : List Token) → Reading Yaml
  | 0, _, _, _ => failure
  | fuel + 1, block, unindented, ends => do
    if ← comes ends then return .empty
    else readValue fuel block unindented

def readItems : (fuel : Nat) → Reading (List Yaml)
  | 0 => failure
  | fuel + 1 => do
    if ← accept .blockEnd then return []
    else if ← accept .item then
      let item ← readUnless fuel true false [.item, .blockEnd]
      return item :: (← readItems fuel)
    else failure

/-- Reads the items of a block that is not indented, which ends where no item starts. -/
def readUnindented : (fuel : Nat) → Reading (List Yaml)
  | 0 => failure
  | fuel + 1 => do
    if ← accept .item then
      let item ← readUnless fuel true false [.item, .key, .value, .blockEnd]
      return item :: (← readUnindented fuel)
    else return []

def readPairs : (fuel : Nat) → Reading (List (Yaml × Yaml))
  | 0 => failure
  | fuel + 1 => do
    if ← accept .blockEnd then return []
    else if ← accept .key then
      let ends := [.key, .value, .blockEnd]
      let key ← readUnless fuel true true ends
      let value ← if ← accept .value then readUnless fuel true true ends else pure .empty
      return (key, value) :: (← readPairs fuel)
    else failure

/-- Reads the value behind a key within brackets, if there is one before the pair ends. -/
def readBracketValue : (fuel : Nat) → (ends : List Token) → Reading Yaml
  | 0, _ => failure
  | fuel + 1, ends => do
    if ← accept .value then readUnless fuel false false ends else return .empty

/-- Reads the pairs of a mapping in brackets up to its end. -/
def readBracketPairs : (fuel : Nat) → (first : Bool) → Reading (List (Yaml × Yaml))
  | 0, _ => failure
  | fuel + 1, first => do
    if ← accept .closeMapping then return []
    if !first then
      if !(← accept .comma) then failure
      if ← accept .closeMapping then return []
    let pair ←
      if ← accept .key then
        let key ← readUnless fuel false false [.value, .comma, .closeMapping]
        let value ← readBracketValue fuel [.comma, .closeMapping]
        pure (key, value)
      else
        let key ← readValue fuel false false
        pure (key, .empty)
    return pair :: (← readBracketPairs fuel false)

/-- Reads the items of a sequence in brackets up to its end. An item with a key is a mapping of
one pair. If the key is left out, the sign behind it goes with it. -/
def readBracketItems : (fuel : Nat) → (first : Bool) → Reading (List Yaml)
  | 0, _ => failure
  | fuel + 1, first => do
    if ← accept .closeSequence then return []
    if !first then
      if !(← accept .comma) then failure
      if ← accept .closeSequence then return []
    let item ←
      if ← accept .key then
        let left ← comes [.value, .comma, .closeSequence]
        let key ← readUnless fuel false false [.value, .comma, .closeSequence]
        if left then skip
        let value ← readBracketValue fuel [.comma, .closeSequence]
        pure (.mapping [(key, value)])
      else readValue fuel false false
    return item :: (← readBracketItems fuel false)

end

/-- Reads the lines before a document. Its version is said once at most, and so is what a handle
stands for. -/
def readDirectives : (fuel : Nat) → (versioned : Bool) →
    (declared : List (List Char × List Char)) → Reading Unit
  | 0, _, _ => failure
  | fuel + 1, versioned, declared => do
    match ← peek with
    | some (.directive .version) =>
      if versioned then failure
      skip
      readDirectives fuel true declared
    | some (.directive (.handle name meaning)) =>
      if (declared.lookup name).isSome then failure
      skip
      readDirectives fuel versioned ((name, meaning) :: declared)
    | _ => modify fun left => { left with handles := declared ++ left.handles }

def atMargin : Reading Bool := do
  match ← peek with
  | none | some .documentStart | some .documentEnd | some (.directive _) => return true
  | _ => return false

def readDocument (fuel : Nat) : Reading Yaml := do
  if (← peek).isNone then return .empty
  let explicit := (← atMargin) && !(← comes [.documentEnd])
  if explicit then
    readDirectives fuel false []
    if !(← accept .documentStart) then failure
  let value ← if explicit && (← atMargin) then pure .empty else readValue fuel true false
  modify fun left => { left with tokens := left.tokens.dropWhile (· == .documentEnd) }
  if (← peek).isSome then failure
  return value

def ofTokens? (tokens : List Token) : Option Yaml :=
  (readDocument (3 * tokens.length + 3) |>.run { tokens }).map (·.1)

def parse? (text : String) : Option Yaml :=
  (spots? text.toList).bind tokens? |>.bind ofTokens?

end Haystack.Yaml
