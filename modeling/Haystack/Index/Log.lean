import Haystack.File.Basic
import Haystack.Index.Entry

/-!
# The index as a log

A volume's index is a log: every write and every deletion appends an entry. A walk reads the log
in batches and passes the entries on one by one, until it is told to stop or the log ends. A piece
of an entry at the end is passed over.
-/

namespace Haystack

/-- A walk over an index: the entries passed on, in order, and how the walk ended. -/
structure Walk where
  visited : List Entry
  result : Except Error Unit

namespace Walk

def batch : Nat := 1024

def visit (check : Entry → Except Error Unit) : List Entry → Walk
  | [] => { visited := [], result := .ok () }
  | entry :: rest =>
    match check entry with
    | .error problem => { visited := [entry], result := .error problem }
    | .ok () =>
      let further := visit check rest
      { further with visited := entry :: further.visited }

/-- A walk that goes on with another one where the first was not stopped. -/
def followedBy (first second : Walk) : Walk :=
  match first.result with
  | .error _ => first
  | .ok () => { second with visited := first.visited ++ second.visited }

def onward (check : Entry → Except Error Unit) (file : File) (offset : Nat) : Walk :=
  let bytes := file.read (batch * Entry.width) offset
  let here := visit check (Entry.listOfBytes bytes)
  if _h : bytes.length < batch * Entry.width then here
  else here.followedBy (onward check file (offset + bytes.length))
  termination_by file.contents.length - offset
  decreasing_by
    have := Bytes.length_slice file.contents offset (batch * Entry.width)
    simp only [bytes, File.read, batch, Entry.width] at *
    omega

/-- The position of the entry with the given number, as far as 64 bits hold it. -/
def origin (start : Nat) : Nat :=
  unsigned64 (start * Entry.width)

/-- Walks over the entries of an index from the given number on. Only the first batch can be
refused; the further ones begin within the file. -/
def run (check : Entry → Except Error Unit) (file : File) (start : Nat) : Walk :=
  if file.refuses (batch * Entry.width) (origin start) then
    { visited := [], result := .error (.file .invalidArgument) }
  else onward check file (origin start)

end Walk

def File.appendEntry (file : File) (entry : Entry) : Except Error Unit × File :=
  match file.stat with
  | .error problem => (.error problem, file)
  | .ok stop =>
    match file.write entry.toBytes stop with
    | (.error problem, file) => (.error problem, file)
    | (.ok _, file) => (.ok (), file)

end Haystack
