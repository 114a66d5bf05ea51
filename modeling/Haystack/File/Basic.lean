import Haystack.Bytes
import Haystack.Error
import Haystack.Position

/-!
# Backing files

Volumes and indexes live in files that are read and written by position. A file may refuse or
tear a write, refuse to be cut and misreport its length. An operation gives its result together
with the file as it is afterwards, since a failed write may leave bytes behind.
-/

namespace Haystack

/-- Where a file is kept. The two kinds differ in one point: writing no bytes behind the end makes
a file in memory longer. -/
inductive Medium where
  | memory
  | disk
  deriving DecidableEq, Repr, Inhabited

/-- How writing goes wrong. -/
inductive WriteFault where
  /-- Nothing is written. -/
  | refuse
  /-- A number of the first bytes is written, depending on how many were to be. -/
  | tear (kept : Nat → Nat)
  /-- All but the last byte are written and the write counts as done. -/
  | short

/-- What a file does wrong. -/
structure Faults where
  write : Option WriteFault := none
  truncate : Bool := false
  stat : Bool := false
  /-- A length reported in place of the true one. -/
  reportedLength : Option Nat := none
  deriving Inhabited

/-- A file with its faults. -/
structure File where
  name : String := ""
  medium : Medium := .memory
  contents : Bytes := []
  faults : Faults := {}
  deriving Inhabited

namespace File

/-- The bytes from a position on, at most `length` and fewer at the end of the file. -/
def read (file : File) (length offset : Nat) : Bytes :=
  file.contents.slice offset length

/-- Whether the system refuses to read here: on a disk, if the range reaches behind the largest
position, which no file does. -/
def refuses (file : File) (length offset : Nat) : Bool :=
  file.medium == .disk && decide (maxPosition < (offset + length : Nat))

/-- The `length` bytes from a position on; fewer are an error. -/
def readExact (file : File) (length offset : Nat) : Except Error Bytes :=
  let bytes := file.read length offset
  if bytes.length < length then
    .error (.file (.shortRead file.name bytes.length offset length))
  else .ok bytes

/-- The contents with `data` at a position. A gap before it is filled with zeros. -/
def overwritten (file : File) (data : Bytes) (offset : Nat) : Bytes :=
  if data.isEmpty && file.medium == .disk then file.contents
  else (file.contents ++ Bytes.zeros (offset - file.contents.length)).splice offset data

/-- The file with `data` stored at a position. -/
def store (file : File) (data : Bytes) (offset : Nat) : File :=
  { file with contents := file.overwritten data offset }

/-- Writes at a position and gives the number of bytes written. -/
def write (file : File) (data : Bytes) (offset : Nat) : Except Error Nat × File :=
  match file.faults.write with
  | none => (.ok data.length, file.store data offset)
  | some .refuse => (.error (.file .diskFull), file)
  | some (.tear kept) =>
    (.error (.file .tornWrite), file.store (data.take (kept data.length)) offset)
  | some .short =>
    (.ok (data.length - 1), file.store (data.take (data.length - 1)) offset)

/-- Cuts the file to a length, or fills it up with zeros. -/
def truncate (file : File) (length : Nat) : Except Error Unit × File :=
  if file.faults.truncate then (.error (.file .truncateFailed), file)
  else (.ok (), { file with contents := file.contents.resize length })

/-- Cuts the file back after a failure; if that fails too, the file stays as it is. -/
def cutBack (file : File) (length : Nat) : File :=
  (file.truncate length).2

def stat (file : File) : Except Error Nat :=
  if file.faults.stat then .error (.file .statFailed)
  else .ok (file.faults.reportedLength.getD file.contents.length)

end File

end Haystack
