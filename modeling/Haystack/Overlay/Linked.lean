import Haystack.Chunk.Basic
import Haystack.Overlay.Basic

/-!
# Linked overlays

An overlay whose segments lie in cells that name their neighbours. The cells stand between a head
and a tail, which hold nothing. A cell that is given up is taken again before a new one is made.
`none` stands for a cell that does not exist and for a walk that meets more cells than are in use.
-/

namespace Haystack

/-- A range with what is stored for it, and the places of the neighbours. -/
structure Cell (α : Type) where
  start : Int
  stop : Int
  time : Int
  /-- Nothing in the head, in the tail and in a cell that is given up. -/
  value : Option α
  previous : Nat
  next : Nat
  deriving DecidableEq, Repr

namespace Cell

variable {α : Type}

/-- A cell that stores a segment. -/
def storing (segment : Segment α) (previous next : Nat) : Cell α :=
  { start := segment.start, stop := segment.stop, time := segment.time
    value := some segment.value, previous, next }

/-- The segment stored in a cell. -/
def segment? (cell : Cell α) : Option (Segment α) :=
  cell.value.map fun value =>
    { start := cell.start, stop := cell.stop, time := cell.time, value }

end Cell

structure LinkedOverlay (α : Type) where
  cells : Array (Cell α)
  /-- The places of the cells given up, the one that is taken next first. -/
  free : List Nat
  length : Nat
  deriving DecidableEq, Repr

namespace LinkedOverlay

/-- The place of the cell before the first segment. -/
def head : Nat := 0

/-- The place of the cell behind the last segment. -/
def tail : Nat := 1

section
variable {α : Type}

def empty : LinkedOverlay α :=
  { cells := #[⟨-1, -1, 0, none, head, tail⟩, ⟨maxPosition, maxPosition, 0, none, head, tail⟩]
    free := []
    length := 0 }

/-- The steps in which a walk from cell to cell ends: one for each cell in use and one at the end. -/
def steps (list : LinkedOverlay α) : Nat :=
  list.length + 1

def change (list : LinkedOverlay α) (place : Nat) (f : Cell α → Cell α) :
    Option (LinkedOverlay α) :=
  if place < list.cells.size then some { list with cells := list.cells.modify place f } else none

/-- Stores a segment in a cell that is not linked yet, and tells its place. -/
def take (list : LinkedOverlay α) (segment : Segment α) : Option (Nat × LinkedOverlay α) :=
  let cell := Cell.storing segment head tail
  match list.free with
  | [] =>
    some (list.cells.size, { list with cells := list.cells.push cell, length := list.length + 1 })
  | place :: free => do
    let list ← list.change place fun _ => cell
    return (place, { list with free, length := list.length + 1 })

def giveUp (list : LinkedOverlay α) (place : Nat) : Option (LinkedOverlay α) := do
  let list ← list.change place fun cell => { cell with value := none }
  match list.length with
  | 0 => none
  | length + 1 => return { list with free := place :: list.free, length }

def linkBetween (list : LinkedOverlay α) (previous place next : Nat) :
    Option (LinkedOverlay α) := do
  let list ← list.change previous fun cell => { cell with next := place }
  let list ← list.change place fun cell => { cell with previous, next }
  list.change next fun cell => { cell with previous := place }

/-- Takes a cell out of the list, gives it up, and tells which one came next. -/
def remove (list : LinkedOverlay α) (place : Nat) : Option (Nat × LinkedOverlay α) := do
  let cell ← list.cells[place]?
  let list ← list.change cell.previous fun previous => { previous with next := cell.next }
  let list ← list.change cell.next fun next => { next with previous := cell.previous }
  let list ← list.giveUp place
  return (cell.next, list)

/-- Gives up the linked cells from one place up to, not including, another. -/
def giveUpUntil (list : LinkedOverlay α) : (steps place behind : Nat) → Option (LinkedOverlay α)
  | 0, _, _ => none
  | steps + 1, place, behind => do
    if place = behind then return list
    let cell ← list.cells[place]?
    let list ← list.giveUp place
    giveUpUntil list steps cell.next behind

/-- Links a cell behind another one, if there is one to link, and tells the last of both. -/
def linkPart (list : LinkedOverlay α) (previous : Nat) (part : Option Nat) (next : Nat) :
    Option (Nat × LinkedOverlay α) :=
  match part with
  | none => some (previous, list)
  | some part => do
    let list ← list.linkBetween previous part next
    return (part, list)

/-- The last place from the given one on up to which all segments stop before a position. -/
def seekFront (list : LinkedOverlay α) (position : Int) : (steps place : Nat) → Option Nat
  | 0, _ => none
  | steps + 1, place => do
    let cell ← list.cells[place]?
    if cell.next = tail then return place
    let next ← list.cells[cell.next]?
    if next.stop ≤ position then seekFront list position steps cell.next else return place

/-- The first place up to the given one from which on no segment starts before a position. -/
def seekBack (list : LinkedOverlay α) (position : Int) : (steps place : Nat) → Option Nat
  | 0, _ => none
  | steps + 1, place => do
    let cell ← list.cells[place]?
    if cell.previous = head then return place
    let previous ← list.cells[cell.previous]?
    if position ≤ previous.start then seekBack list position steps cell.previous else return place

/-- The segments stored from a place on. -/
def segmentsFrom (list : LinkedOverlay α) : (steps place : Nat) → Option (Overlay α)
  | 0, _ => none
  | steps + 1, place => do
    if place = tail then return []
    let cell ← list.cells[place]?
    let further ← segmentsFrom list steps cell.next
    return cell.segment?.toList ++ further

/-- All segments in order. -/
def segments (list : LinkedOverlay α) : Option (Overlay α) := do
  let cell ← list.cells[head]?
  list.segmentsFrom list.steps cell.next

/-- The first segment, if there is one. -/
def front (list : LinkedOverlay α) : Option (Option (Segment α)) := do
  let cell ← list.cells[head]?
  let first ← list.cells[cell.next]?
  return first.segment?

def isEmpty (list : LinkedOverlay α) : Bool :=
  list.length == 0

end

section
variable {α : Type} [Clippable α]

/-- Gives a cell another range and tells its value. -/
def setRange (list : LinkedOverlay α) (place : Nat) (start stop : Int) :
    Option (LinkedOverlay α) :=
  list.change place fun cell =>
    { cell with start, stop, value := cell.value.map (Clippable.clip · start stop) }

/-- Stores what a cell has in a range in a cell of its own, unless it has no value. -/
def splitOff (list : LinkedOverlay α) (place : Nat) (start stop : Int) :
    Option (Option Nat × LinkedOverlay α) := do
  let cell ← list.cells[place]?
  match cell.value with
  | none => return (none, list)
  | some value =>
    let (part, list) ← list.take (.make start stop cell.time value)
    return (some part, list)

/-- Stores what a cell has before a position in a cell of its own, if there is something. -/
def splitBefore (list : LinkedOverlay α) (place : Nat) (position : Int) :
    Option (Option Nat × LinkedOverlay α) := do
  let cell ← list.cells[place]?
  if cell.start < position then list.splitOff place cell.start position else return (none, list)

/-- Stores what a cell has from a position on in a cell of its own, if there is something. -/
def splitBeyond (list : LinkedOverlay α) (place : Nat) (position : Int) :
    Option (Option Nat × LinkedOverlay α) := do
  let cell ← list.cells[place]?
  if position < cell.stop then list.splitOff place position cell.stop else return (none, list)

/-- Links what a cell has before a position between two others, and leaves the cell the rest.
Tells which cell is now before the second of the two. -/
def detach (list : LinkedOverlay α) (place : Nat) (position : Int) (previous next : Nat) :
    Option (Nat × LinkedOverlay α) := do
  let cell ← list.cells[place]?
  let (part, list) ← list.splitBefore place position
  match part with
  | none => return (previous, list)
  | some part =>
    let list ← list.linkBetween previous part next
    let list ← list.setRange place position cell.stop
    return (part, list)

/-- Lays the segment in the cell `own`, which is not linked, over what lies from the cell `next`
on, where it is at least as new. `previous` is the cell before `next`. -/
def settle (list : LinkedOverlay α) (own : Nat) :
    (steps previous next : Nat) → Option (LinkedOverlay α)
  | 0, _, _ => none
  | steps + 1, previous, next => do
    if next = tail then list.linkBetween previous own tail
    else
      let new ← list.cells[own]?
      let old ← list.cells[next]?
      if new.stop ≤ old.start then list.linkBetween previous own next
      else if old.stop ≤ new.start then settle list own steps next old.next
      else if old.time ≤ new.time then
        let (previous, list) ← list.detach next new.start previous next
        if new.stop < old.stop then
          let list ← list.setRange next new.stop old.stop
          list.linkBetween previous own next
        else
          let (further, list) ← list.remove next
          settle list own steps previous further
      else
        let (_, list) ← list.detach own old.start previous next
        if old.stop < new.stop then
          let list ← list.setRange own old.stop new.stop
          let old ← list.cells[next]?
          settle list own steps next old.next
        else list.giveUp own

/-- Splits the first of the cells before `next`, if there are any, at a position. -/
def splitFirst (list : LinkedOverlay α) (first next : Nat) (position : Int) :
    Option (Option Nat × LinkedOverlay α) :=
  if first = next then some (none, list) else list.splitBefore first position

/-- Splits the last of the cells behind `previous`, if there are any, at a position. -/
def splitLast (list : LinkedOverlay α) (previous last : Nat) (position : Int) :
    Option (Option Nat × LinkedOverlay α) :=
  if last = previous then some (none, list) else list.splitBeyond last position

/-- Puts a segment in the place of all that lies in its range. What the first segment met has
before the range stays, and what the last one has behind it. -/
def replace (list : LinkedOverlay α) (new : Segment α) : Option (LinkedOverlay α) := do
  let previous ← list.seekFront new.start list.steps head
  let next ← list.seekBack new.stop list.steps tail
  let first := (← list.cells[previous]?).next
  let last := (← list.cells[next]?).previous
  let (left, list) ← list.splitFirst first next new.start
  let (right, list) ← list.splitLast previous last new.stop
  let list ← list.giveUpUntil list.steps first next
  let (own, list) ← list.take new
  let (previous, list) ← list.linkPart previous left next
  let list ← list.linkBetween previous own next
  let (_, list) ← list.linkPart own right next
  return list

/-- Lays a value over a range, whatever is there. An empty range changes nothing. -/
def cover (list : LinkedOverlay α) (start stop time : Int) (value : α) :
    Option (LinkedOverlay α) :=
  if start < stop then list.replace (.make start stop time value) else some list

/-- Lays a value over the parts of a range where nothing newer is. -/
def insert (list : LinkedOverlay α) (start stop time : Int) (value : α) :
    Option (LinkedOverlay α) := do
  if start < stop then
    let (own, list) ← list.take (.make start stop time value)
    let cell ← list.cells[head]?
    list.settle own list.steps head cell.next
  else return list

/-- Puts a value behind the last segment; a range that reaches into it is laid over the list. -/
def append (list : LinkedOverlay α) (start stop time : Int) (value : α) :
    Option (LinkedOverlay α) := do
  if start < stop then
    let new : Segment α := .make start stop time value
    let last := (← list.cells[tail]?).previous
    let cell ← list.cells[last]?
    if last ≠ head ∧ start < cell.stop then list.replace new
    else
      let (own, list) ← list.take new
      list.linkBetween last own tail
  else return list

end

end LinkedOverlay

end Haystack
