import Haystack.Bytes
import Haystack.Position

/-!
# Chunks

A file is a list of chunks, each stored as one blob and placed somewhere in the file. Chunks may
overlap; the one modified last counts.
-/

namespace Haystack

/-- A piece of a file that is stored as one blob. -/
structure Chunk where
  fileId : String
  /-- Where the chunk starts in the file. -/
  offset : Int
  size : Nat
  /-- When the chunk was modified, in nanoseconds since the epoch. -/
  modified : Int
  cipherKey : Bytes := []
  isCompressed : Bool := false
  deriving DecidableEq, Repr, Inhabited

namespace Chunk

/-- Where the chunk stops in the file. A chunk that reaches too far stops before it starts. -/
def stop (chunk : Chunk) : Int :=
  wrapped (chunk.offset + signed64 chunk.size)

/-- The length of a file: how far its chunks reach. -/
def totalSize (chunks : List Chunk) : Nat :=
  (chunks.map fun chunk => chunk.stop.toNat).foldl max 0

end Chunk

end Haystack
