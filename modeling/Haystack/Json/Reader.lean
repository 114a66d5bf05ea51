import Haystack.Json.Value

/-!
# Reading JSON

The reader decides the form alone: blanks, brackets, commas, the shape of numbers and the escapes
of strings. Nesting has no limit; the steps are bounded by the length of the input.
-/

namespace Haystack.Json

def isBlank (byte : UInt8) : Bool :=
  byte == 0x20 || byte == 0x09 || byte == 0x0A || byte == 0x0D

def skipBlanks (input : Bytes) : Bytes :=
  input.dropWhile isBlank

/-- A read piece and what follows it. -/
abbrev Parsed (α : Type) := Option (α × Bytes)

def readDigits (input : Bytes) : Bytes × Bytes :=
  (input.takeWhile isDigit, input.dropWhile isDigit)

/-- Digits of which there has to be at least one. -/
def readSomeDigits (input : Bytes) : Parsed Bytes :=
  match readDigits input with
  | ([], _) => none
  | read => some read

/-- The digits before a point: a zero alone, or digits that do not start with a zero. -/
def readWhole : Bytes → Parsed Bytes
  | 0x30 :: rest => some ([0x30], rest)
  | input => readSomeDigits input

def readFraction : Bytes → Parsed Bytes
  | 0x2E :: rest => (readSomeDigits rest).map fun (digits, rest) => (0x2E :: digits, rest)
  | rest => some ([], rest)

def readSign : Bytes → Bytes × Bytes
  | 0x2B :: rest => ([0x2B], rest)
  | 0x2D :: rest => ([0x2D], rest)
  | rest => ([], rest)

def readExponent : Bytes → Parsed Bytes
  | input@(mark :: rest) =>
    if mark = 0x65 ∨ mark = 0x45 then
      let (sign, rest) := readSign rest
      (readSomeDigits rest).map fun (digits, rest) => (mark :: sign ++ digits, rest)
    else some ([], input)
  | [] => some ([], [])

def readUnsigned (input : Bytes) : Parsed Bytes :=
  match readWhole input with
  | none => none
  | some (whole, rest) =>
    match readFraction rest with
    | none => none
    | some (fraction, rest) =>
      (readExponent rest).map fun (exponent, rest) => (whole ++ fraction ++ exponent, rest)

def readNumber : Bytes → Parsed Json
  | 0x2D :: rest => (readUnsigned rest).map fun (digits, rest) => (.number (0x2D :: digits), rest)
  | input => (readUnsigned input).map fun (digits, rest) => (.number digits, rest)

/-- The rest of a string behind its first quote, onto the reversed body read so far. -/
def readBody : (done : Bytes) → Bytes → Parsed Bytes
  | _, [] => none
  | done, 0x22 :: rest => some (done.reverse, rest)
  | done, 0x5C :: 0x75 :: a :: b :: c :: d :: rest =>
    if (hexWord? a b c d).isSome then
      readBody (d :: c :: b :: a :: 0x75 :: 0x5C :: done) rest
    else none
  | done, 0x5C :: letter :: rest =>
    if (escaped? letter).isSome then readBody (letter :: 0x5C :: done) rest else none
  | done, byte :: rest =>
    if byte < 0x20 ∨ byte = backslash then none else readBody (byte :: done) rest

/-- A fixed word that stands for a value. -/
def readWord (word : String) (value : Json) (input : Bytes) : Parsed Json :=
  if (ascii word).isPrefixOf input then some (value, input.drop (ascii word).length) else none

def readName (input : Bytes) : Parsed Bytes :=
  match skipBlanks input with
  | 0x22 :: rest =>
    match readBody [] rest with
    | none => none
    | some (name, rest) =>
      match skipBlanks rest with
      | 0x3A :: rest => some (name, rest)
      | _ => none
  | _ => none

mutual

/-- A value, blanks before it included. -/
def readValue : (fuel : Nat) → Bytes → Parsed Json
  | 0, _ => none
  | fuel + 1, input =>
    match skipBlanks input with
    | [] => none
    | first :: rest =>
      if first = 0x5B then
        match skipBlanks rest with
        | 0x5D :: rest => some (.array [], rest)
        | rest => readItems fuel [] rest
      else if first = 0x7B then
        match skipBlanks rest with
        | 0x7D :: rest => some (.object [], rest)
        | rest => readMembers fuel [] rest
      else if first = quote then (readBody [] rest).map fun (body, rest) => (.string body, rest)
      else if first = 0x6E then readWord "null" .null (first :: rest)
      else if first = 0x74 then readWord "true" (.boolean true) (first :: rest)
      else if first = 0x66 then readWord "false" (.boolean false) (first :: rest)
      else readNumber (first :: rest)

/-- The items of an array up to its end, onto those read so far. -/
def readItems : (fuel : Nat) → (done : List Json) → Bytes → Parsed Json
  | 0, _, _ => none
  | fuel + 1, done, input =>
    match readValue fuel input with
    | none => none
    | some (item, rest) =>
      match skipBlanks rest with
      | 0x2C :: rest => readItems fuel (item :: done) rest
      | 0x5D :: rest => some (.array (item :: done).reverse, rest)
      | _ => none

/-- The members of an object up to its end, onto those read so far. -/
def readMembers : (fuel : Nat) → (done : List (Bytes × Json)) → Bytes → Parsed Json
  | 0, _, _ => none
  | fuel + 1, done, input =>
    match readName input with
    | none => none
    | some (name, rest) =>
      match readValue fuel rest with
      | none => none
      | some (value, rest) =>
        match skipBlanks rest with
        | 0x2C :: rest => readMembers fuel ((name, value) :: done) rest
        | 0x7D :: rest => some (.object ((name, value) :: done).reverse, rest)
        | _ => none

end

/-- The value that a byte string writes, with nothing but blanks around it. -/
def ofBytes? (bytes : Bytes) : Option Json :=
  match readValue (2 * bytes.length + 2) bytes with
  | some (value, rest) => if (skipBlanks rest).isEmpty then some value else none
  | none => none

end Haystack.Json
