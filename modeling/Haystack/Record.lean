import Haystack.Location
import Haystack.Version

/-!
# The extent of a record

A record is a header of sixteen bytes, a body, a tail and padding. The tail holds the checksum
and, since the third version, a time stamp of eight bytes. Padding takes the record to the next
multiple of eight and is never empty.
-/

namespace Haystack.Record

/-- The length of a record's header: cookie, number and size. -/
def headerLength : Nat := 16

def checksumLength : Nat := 4

def stampLength : Nat := 8

def tailLength : Version → Nat
  | .v1 => checksumLength
  | .v2 => checksumLength
  | .v3 => checksumLength + stampLength

/-- The length of the padding behind a body of the given length. -/
def paddingLength (version : Version) (body : Nat) : Nat :=
  StoredOffset.unit - (headerLength + body + tailLength version) % StoredOffset.unit

def restLength (version : Version) (body : Nat) : Nat :=
  body + tailLength version + paddingLength version body

def length (version : Version) (body : Nat) : Nat :=
  headerLength + restLength version body

theorem paddingLength_pos (version : Version) (body : Nat) : 0 < paddingLength version body := by
  simp only [paddingLength, StoredOffset.unit]
  omega

theorem restLength_pos (version : Version) (body : Nat) : 0 < restLength version body := by
  have room := paddingLength_pos version body
  unfold restLength
  omega

theorem length_mod_unit (version : Version) (body : Nat) :
    length version body % StoredOffset.unit = 0 := by
  simp only [length, restLength, paddingLength, StoredOffset.unit]
  omega

end Haystack.Record
