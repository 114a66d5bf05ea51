import Haystack.Needle.Decode

/-!
# Reading records position by position

Here a record is read at positions, with one that moves through the body and is compared with its
length. An access outside the bytes has no result (`none`), which is neither a needle nor an
error: a reader that always has a result never makes one. Reading part after part, as `decode`
does, cannot show this, since a list that ends early just gives fewer bytes.
-/

namespace Haystack

namespace Bytes

/-- The byte at a position, nothing if the string ends before it. -/
def byte? (bytes : Bytes) (index : Nat) : Option UInt8 :=
  bytes[index]?

/-- The bytes from `start` up to `stop`, nothing if they are not all there. -/
def range? (bytes : Bytes) (start stop : Nat) : Option Bytes :=
  if start ≤ stop ∧ stop ≤ bytes.length then some (bytes.slice start (stop - start)) else none

end Bytes

namespace Needle

/-- What reading at positions comes to: a value or an error, and nothing if it left the bytes. -/
abbrev Access := ExceptT Error Option

/-- A needle in the making and the position in the body that is read next. -/
structure Cursor where
  needle : Needle
  index : Nat

def headerAt (bytes : Bytes) : Access Needle :=
  if bytes.length < Record.headerLength then
    throw (.sizeMismatch .header bytes.length Record.headerLength)
  else do
    let cookie ← bytes.range? 0 4
    let id ← bytes.range? 4 12
    let size ← bytes.range? 12 16
    return { cookie := UInt32.ofNat cookie.toNat
             id := UInt64.ofNat id.toNat
             size := .ofBytes size }

def fieldAt (field : BodyField) (length : Nat) (body : Bytes) (index : Nat) :
    Access (Bytes × Nat) :=
  if body.length < index + length then throw (.outOfRange field)
  else do
    let bytes ← body.range? index (index + length)
    return (bytes, index + length)

def countedAt (lengthField field : BodyField) (width : Nat) (body : Bytes) (index : Nat) :
    Access (Bytes × Nat) := do
  let (count, index) ← fieldAt lengthField width body index
  fieldAt field count.toNat body index

/-- A field behind one byte that counts its bytes. That there is such a byte is not checked. -/
def shortFieldAt (field : BodyField) (body : Bytes) (index : Nat) : Access (Bytes × Nat) := do
  let count ← body.byte? index
  fieldAt field count.toNat body (index + 1)

def flaggedAt (flag : Flag) (read : Bytes → Cursor → Access Cursor) (body : Bytes)
    (cursor : Cursor) : Access Cursor :=
  if cursor.index < body.length && cursor.needle.has flag then read body cursor
  else return cursor

def dataAt (body : Bytes) (cursor : Cursor) : Access Cursor := do
  let (data, index) ← countedAt .data .data 4 body cursor.index
  return { needle := { cursor.needle with data }, index }

def flagsAt (body : Bytes) (cursor : Cursor) : Access Cursor :=
  if cursor.index < body.length then do
    let bits ← body.byte? cursor.index
    return { needle := { cursor.needle with flags := ⟨bits⟩ }, index := cursor.index + 1 }
  else return cursor

def nameAt (body : Bytes) (cursor : Cursor) : Access Cursor := do
  let (name, index) ← shortFieldAt .name body cursor.index
  return { needle := { cursor.needle with name }, index }

def mimeAt (body : Bytes) (cursor : Cursor) : Access Cursor := do
  let (mime, index) ← shortFieldAt .mime body cursor.index
  return { needle := { cursor.needle with mime }, index }

def lastModifiedAt (body : Bytes) (cursor : Cursor) : Access Cursor := do
  let (seconds, index) ← fieldAt .lastModified 5 body cursor.index
  return { needle := { cursor.needle with lastModified := UInt64.ofNat seconds.toNat }, index }

def ttlAt (body : Bytes) (cursor : Cursor) : Access Cursor := do
  let (ttl, index) ← fieldAt .ttl 2 body cursor.index
  return { needle := { cursor.needle with ttl := some (.ofBytes ttl) }, index }

def pairsAt (body : Bytes) (cursor : Cursor) : Access Cursor := do
  let (pairs, index) ← countedAt .pairsSize .pairs 2 body cursor.index
  return { needle := { cursor.needle with pairs }, index }

/-- The steps of `bodySteps`, at positions. -/
def cursorSteps : List (Bytes → Cursor → Access Cursor) :=
  [dataAt, flagsAt, flaggedAt .name nameAt, flaggedAt .mime mimeAt,
    flaggedAt .lastModified lastModifiedAt, flaggedAt .ttl ttlAt, flaggedAt .pairs pairsAt]

def runSteps (body : Bytes) : List (Bytes → Cursor → Access Cursor) → Cursor → Access Needle
  | [], cursor => return cursor.needle
  | step :: steps, cursor => do
    let next ← step body cursor
    runSteps body steps next

def bodyAt (needle : Needle) (version : Version) (body : Bytes) : Access Needle :=
  if !version.hasFields then return { needle with data := body }
  else if body.isEmpty then return needle
  else runSteps body cursorSteps { needle, index := 0 }

/-- The needle with the time stamp behind its checksum, in the version that has one. -/
def stampAt (needle : Needle) (tail : Bytes) : Version → Access Needle
  | .v1 => return needle
  | .v2 => return needle
  | .v3 => do
    let stamp ← tail.range? 4 12
    return { needle with appendedAt := UInt64.ofNat stamp.toNat }

def tailAt (needle : Needle) (version : Version) (tail : Bytes) : Access Needle :=
  if tail.length < Record.tailLength version then
    throw (.sizeMismatch .tail tail.length (Record.tailLength version))
  else do
    let word ← tail.range? 0 4
    let stored := UInt32.ofNat word.toNat
    let computed := (Checksum.ofBytes needle.data).value
    if !needle.data.isEmpty && stored != computed then
      throw (.checksumMismatch stored computed)
    else
      stampAt { needle with checksum := ⟨stored⟩ } tail version

def recordAt (header : Needle) (version : Version) (bytes : Bytes) : Access Needle :=
  let stop := Record.headerLength + header.size.length
  if header.size.isDeleted then throw (.deleted header.id)
  else if bytes.length < stop + Record.tailLength version then
    throw (.sizeMismatch .record bytes.length (stop + Record.tailLength version))
  else do
    let body ← bytes.range? Record.headerLength stop
    let needle ← header.bodyAt version body
    let tail ← bytes.range? stop bytes.length
    needle.tailAt version tail

/-- Decodes a record as `decode` does, at positions. -/
def decodeAt (bytes : Bytes) (version : Version) : Access Needle := do
  let header ← headerAt bytes
  header.recordAt version bytes

end Needle

end Haystack
