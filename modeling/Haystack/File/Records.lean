import Haystack.File.Basic
import Haystack.Needle.Decode
import Haystack.Needle.Encode

/-!
# Records in a file

Records are appended at the end of a file. If that fails the file is cut back to its length
before, so that no part of a record remains.
-/

namespace Haystack

/-- Where an appended record is. -/
structure Appended where
  offset : Nat
  size : Size
  length : Nat
  deriving DecidableEq, Repr

namespace File

/-- The length that a volume must not have reached when data is appended to it. -/
def maxVolumeLength : Nat := 4 * 1024 * 1024 * 1024 * 8

def readRecord (file : File) (offset : Nat) (size : Size) (version : Version) :
    Except Error Bytes :=
  file.readExact (Record.length version size.length) offset

/-- The needle at a position, of which the size is known from an index. -/
def readNeedle (file : File) (offset : Nat) (size : Size) (version : Version) :
    Except Error Needle := do
  let bytes ← file.readRecord offset size version
  Needle.decodeIndexed bytes size version

/-- The header at a position, as a needle without its body. -/
def readHeader (file : File) (offset : Nat) : Except Error Needle := do
  Needle.readHeader (← file.readExact Record.headerLength offset)

/-- What the reading of a body gave: the bytes read and the needle, as far as it was filled in. -/
structure BodyRead where
  raw : Except Error Bytes
  needle : Needle

def readBody (file : File) (header : Needle) (version : Version) (offset length : Nat) :
    BodyRead :=
  if length = 0 then { raw := .ok [], needle := header }
  else
    match file.readExact length offset with
    | .error problem => { raw := .error problem, needle := header }
    | .ok bytes =>
      let body := header.size.length
      if bytes.length < body then
        { raw := .error (.sizeMismatch .body bytes.length body), needle := header }
      else
        let progress := header.readBody version (bytes.take body)
        match progress.failure with
        | some problem => { raw := .error problem, needle := progress.needle }
        | none =>
          match progress.needle.readTail version (bytes.drop body) with
          | .error problem => { raw := .error problem, needle := progress.needle }
          | .ok needle => { raw := .ok bytes, needle }

/-- The needle, if its body could be read. -/
def BodyRead.result (read : BodyRead) : Except Error Needle :=
  read.raw.map fun _ => read.needle

/-- The needle at a position, read in two steps: the header, and as many bytes behind it as the size
found there asks for. -/
def readInSteps (file : File) (offset : Nat) (version : Version) : Except Error Needle := do
  let header ← file.readHeader offset
  (file.readBody header version (offset + Record.headerLength)
    (Record.restLength version header.size.length)).result

/-- Writes bytes at a position and cuts the file back to it if that fails. -/
def writeOrCutBack (file : File) (data : Bytes) (offset : Nat) : Except Error Unit × File :=
  match file.write data offset with
  | (.ok _, file) => (.ok (), file)
  | (.error problem, file) => (.error problem, file.cutBack offset)

/-- A record at the end of a file: its place and the needle as it is stored. -/
structure AppendedNeedle where
  place : Appended
  needle : Needle
  deriving DecidableEq, Repr

/-- Appends a needle's record. A needle with data is refused once the file is as long as a volume
may be. -/
def appendNeedle (file : File) (needle : Needle) (version : Version) :
    Except Error AppendedNeedle × File :=
  match file.stat with
  | .error problem => (.error problem, file)
  | .ok stop =>
    if maxVolumeLength ≤ stop ∧ !needle.data.isEmpty then
      (.error (.volumeFull stop maxVolumeLength), file)
    else
      match needle.encode version with
      | .error problem => (.error problem, file.cutBack stop)
      | .ok record =>
        match file.writeOrCutBack record.bytes stop with
        | (.error problem, file) => (.error problem, file)
        | (.ok (), file) =>
          (.ok { place := { offset := stop, size := record.needle.size
                            length := record.bytes.length }
                 needle := record.needle }, file)

/-- The record with its time stamp replaced; only the third version has one. -/
def stampRecord (record : Bytes) (size : Size) (stamp : UInt64) (version : Version) :
    Except Error Bytes :=
  match version with
  | .v1 => .ok record
  | .v2 => .ok record
  | .v3 =>
    let position := Record.headerLength + size.length + Record.checksumLength
    if record.length < position + Record.stampLength then
      .error (.sizeMismatch .stamp record.length (position + Record.stampLength))
    else .ok (record.splice position (Bytes.ofNat Record.stampLength stamp.toNat))

/-- What appending a record left: the place of the record or what went wrong, the record as it was
to be written, and the file. -/
structure RecordAppend where
  result : Except Error Nat
  record : Bytes
  file : File

/-- Puts a new time stamp into an encoded record and appends it. The record has its new stamp also
if it could not be written. -/
def appendStamped (file : File) (record : Bytes) (size : Size) (stamp : UInt64)
    (version : Version) : RecordAppend :=
  match file.stat with
  | .error problem => { result := .error problem, record, file }
  | .ok stop =>
    match stampRecord record size stamp version with
    | .error problem => { result := .error problem, record, file }
    | .ok record =>
      match file.writeOrCutBack record stop with
      | (.error problem, file) => { result := .error problem, record, file }
      | (.ok (), file) => { result := .ok stop, record, file }

/-- Appends an encoded record under a new time stamp, and gives its place and its bytes. -/
def appendRecord (file : File) (record : Bytes) (size : Size) (stamp : UInt64)
    (version : Version) : Except Error (Nat × Bytes) × File :=
  let done := file.appendStamped record size stamp version
  (done.result.map fun place => (place, done.record), done.file)

end File

end Haystack
