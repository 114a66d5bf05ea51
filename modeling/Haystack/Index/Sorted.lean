import Haystack.File.Basic
import Haystack.Index.Entry

/-!
# Sorted indexes

The index of an erasure coded volume is sorted by key and searched by bisection in its file. A
needle is deleted by writing the tombstone over the size in its entry.
-/

namespace Haystack

/-- An entry and the position of its bytes in the file. -/
structure PlacedEntry where
  offset : Nat
  entry : Entry
  deriving DecidableEq, Repr

namespace File

def probeEntry (file : File) (key : NeedleId) (place : Nat) : Except Error (Turn PlacedEntry) := do
  let entry := Entry.ofBytes (← file.readExact Entry.width (place * Entry.width))
  if entry.key = key then return .found { offset := place * Entry.width, entry }
  else if entry.key < key then return .behind
  else return .before

/-- The search for a key in the first `length` bytes of a sorted index. -/
def searchEntry (file : File) (length : Nat) (key : NeedleId) : Bisection Error PlacedEntry :=
  Bisection.run (file.probeEntry key) 0 (length / Entry.width)

def findEntry (file : File) (length : Nat) (key : NeedleId) : Except Error PlacedEntry :=
  match (file.searchEntry length key).result with
  | .error problem => .error problem
  | .ok (.found placed) => .ok placed
  | .ok (.gap _) => .error (.notFound (.inSortedIndex key))

def markDeleted (file : File) (offset : Nat) : Except Error Unit × File :=
  let mark := Size.tombstone.toBytes
  match file.write mark (offset + 12) with
  | (.error problem, file) => (.error problem, file)
  | (.ok wrote, file) =>
    if wrote = mark.length then (.ok (), file)
    else (.error (.file (.shortMark wrote mark.length)), file)

/-- Deletes a key, and gives its entry as it was before. -/
def deleteEntry (file : File) (length : Nat) (key : NeedleId) :
    Except Error PlacedEntry × File :=
  match file.findEntry length key with
  | .error problem => (.error problem, file)
  | .ok placed =>
    match file.markDeleted placed.offset with
    | (.error problem, file) => (.error problem, file)
    | (.ok (), file) => (.ok placed, file)

end File

end Haystack
