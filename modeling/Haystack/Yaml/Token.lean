import Haystack.Yaml.Names
import Haystack.Yaml.Value

/-!
# Tokens of YAML

A text is a sequence of tokens: signs, scalars and names. What the layout of the text says is
said by tokens as well. A block of items or pairs has a token for its start, one before each
item, key and value, and one for its end.
-/

namespace Haystack.Yaml

/-- A token of a text. -/
inductive Token where
  | scalar (style : Style) (text : List Char)
  | anchor (name : List Char)
  | alias (name : List Char)
  | tag (tag : Tag)
  | directive (directive : Directive)
  | documentStart
  | documentEnd
  | openSequence
  | closeSequence
  | openMapping
  | closeMapping
  | comma
  | sequenceStart
  | mappingStart
  | blockEnd
  | item
  | key
  | value
  deriving DecidableEq, Repr

end Haystack.Yaml
