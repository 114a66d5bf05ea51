import Haystack.Needle.Basic
import Haystack.Record

/-!
# Reading records

A record is read from its header on. The body decides field by field: a flagged field is read as
long as body bytes remain, a field that reaches past the end of the body is an error of that
field, and bytes behind the last field do not matter. At the end the checksum of data that is not
empty has to be the stored one.
-/

namespace Haystack.Needle

/-- Reads a header: cookie, number and size. -/
def readHeader (bytes : Bytes) : Except Error Needle :=
  if bytes.length < Record.headerLength then
    .error (.sizeMismatch .header bytes.length Record.headerLength)
  else
    .ok { cookie := UInt32.ofNat (bytes.wordAt 0 4)
          id := UInt64.ofNat (bytes.wordAt 4 8)
          size := .ofBytes (bytes.slice 12 4) }

def takeField (field : BodyField) (length : Nat) (rest : Bytes) : Except Error (Bytes × Bytes) :=
  if rest.length < length then .error (.outOfRange field)
  else .ok (rest.take length, rest.drop length)

def takeCounted (lengthField field : BodyField) (width : Nat) (rest : Bytes) :
    Except Error (Bytes × Bytes) := do
  let (length, rest) ← takeField lengthField width rest
  takeField field length.toNat rest

/-- A needle in the making and the part of the body that is not read yet. -/
structure Reading where
  needle : Needle
  rest : Bytes

/-- Reads a field if its flag is set and bytes remain. -/
def readFlagged (flag : Flag) (read : Reading → Except Error Reading) (state : Reading) :
    Except Error Reading :=
  if state.rest.isEmpty || !state.needle.has flag then .ok state else read state

def readData (state : Reading) : Except Error Reading := do
  let (data, rest) ← takeCounted .data .data 4 state.rest
  return { needle := { state.needle with data }, rest }

/-- Reads the flags if bytes remain. -/
def readFlags (state : Reading) : Except Error Reading :=
  match state.rest with
  | [] => .ok state
  | bits :: rest => .ok { needle := { state.needle with flags := ⟨bits⟩ }, rest }

def readName (state : Reading) : Except Error Reading := do
  let (name, rest) ← takeCounted .name .name 1 state.rest
  return { needle := { state.needle with name }, rest }

def readMime (state : Reading) : Except Error Reading := do
  let (mime, rest) ← takeCounted .mime .mime 1 state.rest
  return { needle := { state.needle with mime }, rest }

def readLastModified (state : Reading) : Except Error Reading := do
  let (seconds, rest) ← takeField .lastModified 5 state.rest
  return { needle := { state.needle with lastModified := UInt64.ofNat seconds.toNat }, rest }

def readTtl (state : Reading) : Except Error Reading := do
  let (ttl, rest) ← takeField .ttl 2 state.rest
  return { needle := { state.needle with ttl := some (.ofBytes ttl) }, rest }

def readPairs (state : Reading) : Except Error Reading := do
  let (pairs, rest) ← takeCounted .pairsSize .pairs 2 state.rest
  return { needle := { state.needle with pairs }, rest }

/-- The steps that read a body which is not empty. -/
def bodySteps : List (Reading → Except Error Reading) :=
  [readData, readFlags, readFlagged .name readName, readFlagged .mime readMime,
    readFlagged .lastModified readLastModified, readFlagged .ttl readTtl,
    readFlagged .pairs readPairs]

/-- How far reading got: the needle with what was read, and what stopped it. -/
structure Progress where
  needle : Needle
  failure : Option Error := none
  deriving DecidableEq, Repr

def Progress.result (progress : Progress) : Except Error Needle :=
  match progress.failure with
  | none => .ok progress.needle
  | some problem => .error problem

/-- Takes steps up to the first that fails. -/
def takeSteps : List (Reading → Except Error Reading) → Reading → Progress
  | [], state => { needle := state.needle }
  | step :: steps, state =>
    match step state with
    | .error problem => { needle := state.needle, failure := some problem }
    | .ok next => takeSteps steps next

def readBody (needle : Needle) (version : Version) (body : Bytes) : Progress :=
  if !version.hasFields then { needle := { needle with data := body } }
  else if body.isEmpty then { needle }
  else takeSteps bodySteps { needle, rest := body }

/-- Reads checksum and time stamp into a needle and checks the data against the checksum. -/
def readTail (needle : Needle) (version : Version) (tail : Bytes) : Except Error Needle :=
  if tail.length < Record.tailLength version then
    .error (.sizeMismatch .tail tail.length (Record.tailLength version))
  else
    let stored := UInt32.ofNat (tail.wordAt 0 4)
    let computed := (Checksum.ofBytes needle.data).value
    if !needle.data.isEmpty && stored != computed then
      .error (.checksumMismatch stored computed)
    else
      match version with
      | .v3 =>
        .ok { needle with checksum := ⟨stored⟩, appendedAt := UInt64.ofNat (tail.wordAt 4 8) }
      | .v2 => .ok { needle with checksum := ⟨stored⟩ }
      | .v1 => .ok { needle with checksum := ⟨stored⟩ }

def readRecord (header : Needle) (version : Version) (bytes : Bytes) : Except Error Needle :=
  let body := header.size.length
  let needed := Record.headerLength + body + Record.tailLength version
  if header.size.isDeleted then .error (.deleted header.id)
  else if bytes.length < needed then .error (.sizeMismatch .record bytes.length needed)
  else do
    let needle ← (header.readBody version (bytes.slice Record.headerLength body)).result
    needle.readTail version (bytes.drop (Record.headerLength + body))

def decode (bytes : Bytes) (version : Version) : Except Error Needle := do
  let header ← readHeader bytes
  header.readRecord version bytes

/-- Decodes a record that an index says to be of the given size. -/
def decodeIndexed (bytes : Bytes) (size : Size) (version : Version) : Except Error Needle := do
  let header ← readHeader bytes
  if header.size ≠ size then
    throw (.sizeMismatch .index header.size.value.toInt size.value.toInt)
  header.readRecord version bytes

end Haystack.Needle
