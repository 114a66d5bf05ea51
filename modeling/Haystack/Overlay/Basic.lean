/-!
# Overlays

An overlay is a list of segments in rising order that do not overlap. A new segment is laid over
the list: where it meets an older one, either of them wins, and the loser keeps what lies outside
of the overlap. `cover` lets the new segment win everywhere, `insert` only where it is at least as
new as what is there. The value of a segment is told every range that it is cut to.
-/

namespace Haystack

/-- Values that can be cut to a range. -/
class Clippable (α : Type) where
  /-- The value for the range from `start` up to, not including, `stop`. -/
  clip : α → (start stop : Int) → α

/-- A value over a range, with the time from which it counts. -/
structure Segment (α : Type) where
  start : Int
  stop : Int
  time : Int
  value : α
  deriving DecidableEq, Repr

namespace Segment

variable {α : Type} [Clippable α]

/-- A segment over a range, of which the value is told the range. -/
def make (start stop time : Int) (value : α) : Segment α :=
  { start, stop, time, value := Clippable.clip value start stop }

def clip (segment : Segment α) (start stop : Int) : Segment α :=
  make start stop segment.time segment.value

end Segment

/-- Segments in rising order that do not overlap. -/
abbrev Overlay (α : Type) := List (Segment α)

namespace Overlay

variable {α : Type} [Clippable α]

/-- The part of a segment before a position, if there is one. -/
def before (segment : Segment α) (position : Int) : Overlay α :=
  if segment.start < position then [segment.clip segment.start position] else []

/-- The part of a segment from a position on, if there is one. -/
def beyond (segment : Segment α) (position : Int) : Overlay α :=
  if position < segment.stop then [segment.clip position segment.stop] else []

/-- A segment without what it has before a position. -/
def since (segment : Segment α) (position : Int) : Segment α :=
  if segment.start < position then segment.clip position segment.stop else segment

/-- Lays a segment over a list where it is at least as new as what is there. -/
def settle (new : Segment α) : Overlay α → Overlay α
  | [] => [new]
  | segment :: rest =>
    if new.stop ≤ segment.start then new :: segment :: rest
    else if segment.stop ≤ new.start then segment :: settle new rest
    else if segment.time ≤ new.time then
      before segment new.start ++
        if new.stop < segment.stop then
          new :: (since segment new.start).clip new.stop segment.stop :: rest
        else settle new rest
    else
      before new segment.start ++ segment ::
        if segment.stop < new.stop then
          settle ((since new segment.start).clip segment.stop new.stop) rest
        else rest

/-- What the first of some segments has before a position. -/
def beforeFirst (list : Overlay α) (position : Int) : Overlay α :=
  match list.head? with
  | none => []
  | some first => before first position

/-- What the last of some segments has from a position on. -/
def beyondLast (list : Overlay α) (position : Int) : Overlay α :=
  match list.getLast? with
  | none => []
  | some last => beyond last position

/-- Puts a segment in the place of all that a list has in its range. What the first segment met
has before the range stays, and what the last one has behind it. -/
def replace (new : Segment α) (list : Overlay α) : Overlay α :=
  let earlier := list.takeWhile fun segment => segment.stop ≤ new.start
  let rest := list.dropWhile fun segment => segment.stop ≤ new.start
  let met := rest.takeWhile fun segment => segment.start < new.stop
  let later := rest.dropWhile fun segment => segment.start < new.stop
  earlier ++ beforeFirst met new.start ++ new :: beyondLast met new.stop ++ later

/-- Lays a value over a range, whatever is there. An empty range changes nothing. -/
def cover (list : Overlay α) (start stop time : Int) (value : α) : Overlay α :=
  if start < stop then replace (.make start stop time value) list else list

/-- Lays a value over the parts of a range where nothing newer is. -/
def insert (list : Overlay α) (start stop time : Int) (value : α) : Overlay α :=
  if start < stop then settle (.make start stop time value) list else list

/-- Puts a value behind the last segment; a range that reaches into it is laid over the list. -/
def append (list : Overlay α) (start stop time : Int) (value : α) : Overlay α :=
  if start < stop then
    match list.getLast? with
    | none => [.make start stop time value]
    | some last =>
      if start < last.stop then cover list start stop time value
      else list ++ [.make start stop time value]
  else list

end Overlay

end Haystack
