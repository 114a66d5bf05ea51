import Haystack.Bytes
import Haystack.Error

/-!
# Reading a part of a cached chunk

Cached chunks are whole. A part is read by position, and the position has to be within the chunk.
-/

namespace Haystack.Contents

/-- The bytes of a chunk from a position on, at most `length` and fewer at its end. -/
def read (data : Bytes) (offset length : Nat) : Except Error Bytes :=
  if data.length ≤ offset then .error (.outOfBounds offset data.length)
  else .ok (data.slice offset length)

end Haystack.Contents
