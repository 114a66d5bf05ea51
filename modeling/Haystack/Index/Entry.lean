import Haystack.Bisect
import Haystack.Error
import Haystack.Location

/-!
# Index entries

An index is a row of entries of sixteen bytes: the needle's number, the place of its record and
the size of its body. A piece shorter than an entry at the end of an index is no entry.
-/

namespace Haystack

/-- One line of an index. -/
structure Entry where
  key : NeedleId
  offset : StoredOffset
  size : Size
  deriving DecidableEq, Repr, Inhabited

namespace Entry

def width : Nat := 16

def toBytes (entry : Entry) : Bytes :=
  Bytes.ofNat 8 entry.key.toNat ++ entry.offset.toBytes ++ entry.size.toBytes

def ofBytes (bytes : Bytes) : Entry :=
  { key := UInt64.ofNat (bytes.wordAt 0 8)
    offset := .ofBytes (bytes.slice 8 4)
    size := .ofBytes (bytes.slice 12 4) }

/-- The entry at the start of a byte string, if it holds one. -/
def ofBytes? (bytes : Bytes) : Option Entry :=
  if width ≤ bytes.length then some (ofBytes bytes) else none

/-- The entries in the first `count` places of a byte string. -/
def takeEntries : (count : Nat) → Bytes → List Entry
  | 0, _ => []
  | count + 1, bytes => ofBytes (bytes.take width) :: takeEntries count (bytes.drop width)

def listOfBytes (bytes : Bytes) : List Entry :=
  takeEntries (bytes.length / width) bytes

def inPlace (bytes : Bytes) (place : Nat) : Entry :=
  ofBytes (bytes.slice (place * width) width)

/-- Searches an index for the first entry that fails a test, which may itself fail. Gives the
number of entries if all pass. The order of the test's calls is that of the places probed. -/
def firstFailing (bytes : Bytes) (test : Entry → Except Error Bool) :
    Bisection Error Empty :=
  Bisection.run
    (fun place => (test (inPlace bytes place)).map fun passes => if passes then .behind else .before)
    0 (bytes.length / width)

@[simp] theorem length_toBytes (entry : Entry) : entry.toBytes.length = width := by
  simp [toBytes, width]

@[simp] theorem ofBytes_toBytes (entry : Entry) : ofBytes entry.toBytes = entry := by
  obtain ⟨key, offset, size⟩ := entry
  have h := key.toNat_lt
  have key_at : (Bytes.ofNat 8 key.toNat).drop 12 = [] := List.drop_eq_nil_of_le (by simp)
  have size_at : size.toBytes.take 4 = size.toBytes := List.take_of_length_le (by simp)
  simp [ofBytes, toBytes, Bytes.wordAt, Bytes.slice, Bytes.toNat_ofNat, Nat.mod_eq_of_lt h,
    List.drop_append, key_at, size_at]

end Entry

end Haystack
