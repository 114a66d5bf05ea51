import Haystack.Index.Sorted

/-!
# Deletions from an erasure coded volume

An erasure coded volume has a sorted index and a journal of deletions. Deleting a needle writes
the tombstone into the index and appends the needle's number to the journal, so that tombstones
which were lost can be written again from the journal.
-/

namespace Haystack.Erasure

/-- An opened pair of index and journal. -/
structure Opened where
  /-- The length of the index when it was opened; searches go no further. -/
  length : Nat
  /-- Whether the journal is still the one in the directory, not one removed since. -/
  journalKept : Bool := true
  deriving DecidableEq, Repr

/-- The index and the journal of one volume, as far as they exist. -/
structure IndexFiles where
  /-- The path without the extension. -/
  base : String
  index : Option Bytes := none
  journal : Option Bytes := none
  opened : Option Opened := none
  deriving DecidableEq, Repr

namespace IndexFiles

def indexFile (files : IndexFiles) : File :=
  { name := files.base ++ ".ecx", medium := .disk, contents := files.index.getD [] }

/-- Opens both files and creates the ones that are missing. -/
def openBoth (files : IndexFiles) : IndexFiles :=
  let index := files.index.getD []
  { files with index := some index, journal := some (files.journal.getD [])
               opened := some { length := index.length } }

def find (files : IndexFiles) (opened : Opened) (id : NeedleId) : Except Error Entry := do
  return (← files.indexFile.findEntry opened.length id).entry

/-- Writes the tombstone for a needle, if it has an entry, and says whether it has one. -/
def bury (index : File) (length : Nat) (id : NeedleId) : Except Error Bool × File :=
  match index.deleteEntry length id with
  | (.ok _, index) => (.ok true, index)
  | (.error problem, index) =>
    if problem.isNotFound then (.ok false, index) else (.error problem, index)

/-- Deletes a needle. One without an entry is no error and not journaled. -/
def delete (files : IndexFiles) (opened : Opened) (id : NeedleId) :
    Except Error Unit × IndexFiles :=
  match bury files.indexFile opened.length id with
  | (.error problem, index) => (.error problem, { files with index := some index.contents })
  | (.ok false, index) => (.ok (), { files with index := some index.contents })
  | (.ok true, index) =>
    let journal :=
      if opened.journalKept then
        files.journal.map fun journal => journal ++ Bytes.ofNat 8 id.toNat
      else files.journal
    (.ok (), { files with index := some index.contents, journal })

/-- The first `count` numbers of a journal. -/
def takeIds : (count : Nat) → Bytes → List NeedleId
  | 0, _ => []
  | count + 1, journal =>
    UInt64.ofNat (journal.wordAt 0 8) :: takeIds count (journal.drop 8)

/-- The numbers in a journal; a piece of a number at its end does not count. -/
def journaled (journal : Bytes) : List NeedleId :=
  takeIds (journal.length / 8) journal

/-- Writes the tombstones for several needles, up to the first error. -/
def buryAll (index : File) (length : Nat) : List NeedleId → Except Error Unit × File
  | [] => (.ok (), index)
  | id :: rest =>
    match bury index length id with
    | (.error problem, index) => (.error problem, index)
    | (.ok _, index) => buryAll index length rest

/-- Writes the tombstones of the journal again and removes it. Without a journal there is nothing
to do. -/
def rebuild (files : IndexFiles) : Except Error Unit × IndexFiles :=
  match files.journal with
  | none => (.ok (), files)
  | some journal =>
    let index := files.indexFile
    match buryAll index index.contents.length (journaled journal) with
    | (.error problem, index) => (.error problem, { files with index := some index.contents })
    | (.ok (), index) =>
      (.ok (), { files with
        index := some index.contents
        journal := none
        opened := files.opened.map fun opened => { opened with journalKept := false } })

end IndexFiles

end Haystack.Erasure
