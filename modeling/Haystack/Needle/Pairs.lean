import Haystack.Error
import Haystack.Json.Printer
import Haystack.Json.Reader

/-!
# Pairs of a needle

Extra metadata is a map from names to values. Upload headers come with a common start of their
names, which is not stored. The map is written as a JSON object in the order of its names.
-/

namespace Haystack

/-- A map from names to values, as pairs in rising order of the names. -/
abbrev Pairs := List (String × String)

namespace Pairs

def headerStart : String := "Seaweed-"

/-- Puts a pair into a map, in place of the pair of the same name. -/
def insert (name value : String) : Pairs → Pairs
  | [] => [(name, value)]
  | pair :: rest =>
    if name < pair.1 then (name, value) :: pair :: rest
    else if name = pair.1 then (name, value) :: rest
    else pair :: insert name value rest

/-- The map of some pairs; of two pairs of one name the later counts. -/
def ofList (pairs : List (String × String)) : Pairs :=
  pairs.foldl (fun map pair => insert pair.1 pair.2 map) []

/-- A name without the common start of header names. -/
def storedName (name : String) : String :=
  if headerStart.toList.isPrefixOf name.toList then
    String.ofList (name.toList.drop headerStart.length)
  else name

/-- The map under the stored names. Where two names become one, the greater of them counts. -/
def stored (pairs : Pairs) : Pairs :=
  ofList (pairs.map fun pair => (storedName pair.1, pair.2))

def toJson (pairs : Pairs) : Bytes :=
  Json.writeObject (pairs.map fun pair => (pair.1, Json.writeText pair.2))

/-- Reads a map of texts; of two members of one name the later counts. -/
def ofJson? (json : Json) : Option Pairs := do
  let members ← json.members?
  return ofList (← members.mapM fun member => do return (member.1, ← member.2.string?))

def decode (text : Bytes) : Except Error Pairs :=
  match (Json.ofBytes? text).bind ofJson? with
  | some pairs => .ok pairs
  | none => .error .malformedJson

end Pairs

end Haystack
