import Haystack.Text.Decimal
import Haystack.Text.Numeral

/-!
# YAML values

A value keeps its scalars as text, together with how they are written and with their tag. What
kind of scalar a text is only a reader asks who wants one kind: a text can be any scalar, but
numbers and truth values have to be plain, that is without quotes, or literal blocks with the tag
of their kind.
-/

namespace Haystack

/-- How a scalar is written: without anything around it, in quotes, or as a literal or folded
block of lines. -/
inductive Yaml.Style where
  | plain
  | quoted
  | literal
  | folded
  deriving DecidableEq, Repr, Inhabited

/-- A value of a YAML document. Only of scalars the tag is kept. -/
inductive Yaml where
  | scalar (style : Yaml.Style) (tag : Option (List Char)) (text : List Char)
  | sequence (items : List Yaml)
  | mapping (pairs : List (Yaml × Yaml))
  deriving Repr, Inhabited

namespace Yaml

def empty : Yaml := .scalar .plain none []

def tagOf (kind : String) : List Char :=
  ("tag:yaml.org,2002:" ++ kind).toList

def text? : Yaml → Option String
  | .scalar _ _ text => some (String.ofList text)
  | _ => none

/-- The text of a scalar that is plain or a literal block with the tag of a kind. -/
def textOf? (kind : String) : Yaml → Option (List Char)
  | .scalar .plain _ text => some text
  | .scalar .literal tag text => if tag = some (tagOf kind) then some text else none
  | _ => none

/-- Whether a text is a word for nothing. -/
def isNullWord (text : List Char) : Bool :=
  ["~", "null", "Null", "NULL"].contains (String.ofList text)

/-- A value that may be nothing, which is a plain scalar without a tag that is empty or a word
for nothing, or such a word with the tag that says so. Other plain scalars must not have that
tag. -/
def optional? {α : Type} (read : Yaml → Option α) (value : Yaml) : Option (Option α) :=
  match value with
  | .scalar .plain none text =>
    if text.isEmpty || isNullWord text then some none else (read value).map some
  | .scalar .plain (some tag) text =>
    if tag ≠ tagOf "null" then (read value).map some
    else if isNullWord text then some none
    else none
  | _ => (read value).map some

def boolean? (value : Yaml) : Option Bool :=
  match (value.textOf? "bool").map String.ofList with
  | some "true" | some "True" | some "TRUE" => some true
  | some "false" | some "False" | some "FALSE" => some false
  | _ => none

/-- The radix that a mark at the start of a number stands for, and the digits behind it. -/
def radix? : List Char → Option (Nat × List Char)
  | '0' :: 'x' :: rest => some (16, rest)
  | '0' :: 'o' :: rest => some (8, rest)
  | '0' :: 'b' :: rest => some (2, rest)
  | _ => none

/-- Whether a text is of several digits and starts with a zero. Such a text is no number. -/
def isPadded (text : List Char) : Bool :=
  match text with
  | '0' :: rest => !rest.isEmpty && rest.all Char.isDigit
  | _ => false

/-- A number up to `limit` without a sign, after its radix mark if it has one. -/
def magnitude? (limit : Nat) (text : List Char) : Option Nat :=
  let (radix, digits) := (radix? text).getD (10, text)
  if isPadded text || ['+', '-'].contains (digits.headD ' ') then none
  else (Numeral.read radix limit digits).toOption

def natural? (limit : Nat) (value : Yaml) : Option Nat :=
  match value.textOf? "int" with
  | some ('+' :: rest) => magnitude? limit rest
  | some text => magnitude? limit text
  | none => none

/-- A number between `-(limit + 1)` and `limit`. -/
def integer? (limit : Nat) (value : Yaml) : Option Int :=
  match value.textOf? "int" with
  | some ('-' :: rest) => (magnitude? (limit + 1) rest).map fun n => -(n : Int)
  | some ('+' :: rest) => (magnitude? limit rest).map fun n => (n : Int)
  | some text => (magnitude? limit text).map fun n => (n : Int)
  | none => none

def decimal? (value : Yaml) : Option Decimal :=
  match value.textOf? "float" with
  | some ('+' :: rest) => if rest.head? = some '+' ∨ rest.head? = some '-' then none
    else Decimal.read rest
  | some text => Decimal.read text
  | none => none

/-- The names and values of a mapping, all of whose keys are scalars. A value that is not written
has none. -/
def fields? : Yaml → Option (List (String × Yaml))
  | .mapping pairs => pairs.mapM fun pair => pair.1.text?.map fun name => (name, pair.2)
  | .scalar .plain _ [] => some []
  | _ => none

/-- The field of a name as `read` takes it, or `default` if there is none. Nothing if the field
occurs twice or cannot be taken. -/
def field? {α : Type} (fields : List (String × Yaml)) (name : String) (read : Yaml → Option α)
    (default : α) : Option α :=
  match fields.filter fun field => field.1 == name with
  | [] => some default
  | [field] => read field.2
  | _ => none

end Yaml

end Haystack
