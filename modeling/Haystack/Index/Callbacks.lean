import Haystack.Index.Log
import Haystack.Index.Sorted

/-!
# Functions that are handed entries

A walk hands entries to a function, and a search for a key hands on the position of the entry that
it found. Such a function may fail, and it may keep a state from one call to the next, be it a map
or the file itself. What it did to the state before it failed stays done.
-/

namespace Haystack

/-- A function that is called with values of one kind, keeps a state and may fail. -/
abbrev Callback (σ α : Type) := σ → α → Except Error Unit × σ

variable {σ : Type}

/-- Entries handed to a function, how that ended and the state it left. -/
structure Visits (σ : Type) extends Walk where
  state : σ

namespace Visits

/-- Calls a function with some entries, up to the first failure. -/
def each (callback : Callback σ Entry) (state : σ) : List Entry → Visits σ
  | [] => { visited := [], result := .ok (), state }
  | entry :: rest =>
    match callback state entry with
    | (.error problem, state) => { visited := [entry], result := .error problem, state }
    | (.ok (), state) =>
      let further := each callback state rest
      { further with visited := entry :: further.visited }

end Visits

/-- A walk that calls a function, and what it read for that. -/
structure Tour (σ : Type) extends Visits σ where
  /-- The positions of the batches, in the order in which they were read. -/
  reads : List Nat

namespace Tour

def onward (callback : Callback σ Entry) (file : File) (offset : Nat) (state : σ) : Tour σ :=
  let bytes := file.read (Walk.batch * Entry.width) offset
  let here := Visits.each callback state (Entry.listOfBytes bytes)
  match here.result with
  | .error _ => { toVisits := here, reads := [offset] }
  | .ok () =>
    if _h : bytes.length < Walk.batch * Entry.width then { toVisits := here, reads := [offset] }
    else
      let further := onward callback file (offset + bytes.length) here.state
      { further with
        visited := here.visited ++ further.visited
        reads := offset :: further.reads }
  termination_by file.contents.length - offset
  decreasing_by
    have := Bytes.length_slice file.contents offset (Walk.batch * Entry.width)
    simp only [bytes, File.read, Walk.batch, Entry.width] at *
    omega

/-- Calls a function with the entries of an index from the given number on. -/
def run (callback : Callback σ Entry) (file : File) (start : Nat) (state : σ) : Tour σ :=
  if file.refuses (Walk.batch * Entry.width) (Walk.origin start) then
    { visited := [], result := .error (.file .invalidArgument), state, reads := [] }
  else onward callback file (Walk.origin start) state

end Tour

/-- What an index says about a record. -/
def Entry.location (entry : Entry) : Location :=
  { offset := entry.offset, size := entry.size }

/-- A search for a key that may hand on what it found. -/
structure Handover (σ : Type) where
  /-- The positions of the entries that were read, in order. -/
  reads : List Nat
  /-- The positions that were handed on, in order. -/
  handed : List Nat
  result : Except Error Location
  state : σ

/-- Searches the first `length` bytes of a sorted index for a key, calls the function, if there is
one, with the position of the key's entry, and gives what the entry said before. -/
def File.searchThen (file : File) (length : Nat) (key : NeedleId)
    (process : Option (Callback σ Nat)) (state : σ) : Handover σ :=
  let reads := (file.searchEntry length key).probed.map (· * Entry.width)
  match file.findEntry length key with
  | .error problem => { reads, handed := [], result := .error problem, state }
  | .ok placed =>
    match process with
    | none => { reads, handed := [], result := .ok placed.entry.location, state }
    | some process =>
      let (outcome, state) := process state placed.offset
      { reads, handed := [placed.offset]
        result := outcome.map fun () => placed.entry.location, state }

end Haystack
