import Haystack.Index.Entry
import Haystack.Table

/-!
# The live needles of a volume

An open volume knows where the record of every live needle is. The map is what replaying the
index gives: the last entry of a number decides, and it keeps the number alive only if it has a
place and a body.
-/

namespace Haystack

/-- Where the records of the live needles are. -/
abbrev LiveMap := Table NeedleId Location

namespace LiveMap

def replay (map : LiveMap) (entry : Entry) : LiveMap :=
  if !entry.offset.isZero && entry.size.isLive then
    map.insert entry.key { offset := entry.offset, size := entry.size }
  else map.erase entry.key

def ofEntries (entries : List Entry) : LiveMap :=
  entries.foldl replay []

theorem find?_replay_of_ne (map : LiveMap) (entry : Entry) {id : NeedleId} (h : id ≠ entry.key) :
    (replay map entry).find? id = map.find? id := by
  unfold replay
  split
  · exact Table.find?_insert_of_ne map _ h
  · exact Table.find?_erase_of_ne map h

end LiveMap

end Haystack
