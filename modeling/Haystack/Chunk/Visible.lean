import Haystack.Chunk.Basic
import Haystack.Overlay.Basic

/-!
# What is visible of a file's chunks

Laying the chunks over each other in order, each where it is at least as new as what is there,
leaves the segments that are visible: which chunk a range of the file comes from, and from where
in the chunk. A chunk of which nothing is visible is garbage.
-/

namespace Haystack

/-- The visible part of a chunk. -/
structure VisibleChunk where
  start : Int
  stop : Int
  modified : Int
  fileId : String
  /-- Where the part starts within the chunk. -/
  offsetInChunk : Int
  chunkSize : Nat
  cipherKey : Bytes
  isCompressed : Bool
  deriving DecidableEq, Repr

namespace VisibleChunk

def ofChunk (chunk : Chunk) : VisibleChunk :=
  { start := chunk.offset
    stop := chunk.stop
    modified := chunk.modified
    fileId := chunk.fileId
    offsetInChunk := 0
    chunkSize := chunk.size
    cipherKey := chunk.cipherKey
    isCompressed := chunk.isCompressed }

/-- The part over another range; the place within the chunk moves with its start. -/
def clip (visible : VisibleChunk) (start stop : Int) : VisibleChunk :=
  { visible with start, stop, offsetInChunk := visible.offsetInChunk + (start - visible.start) }

instance : Clippable VisibleChunk := ⟨clip⟩

end VisibleChunk

namespace Chunk

/-- Lays the part of a chunk within a window over what is visible. -/
def addVisible (start stop : Int) (visible : Overlay VisibleChunk) (chunk : Chunk) :
    Overlay VisibleChunk :=
  visible.insert (max chunk.offset start) (min chunk.stop stop) chunk.modified (.ofChunk chunk)

/-- What is visible of some chunks within a window; of chunks modified at one time the later
counts. -/
def resolve (chunks : List Chunk) (start stop : Int) : Overlay VisibleChunk :=
  chunks.foldl (addVisible start stop) []

def isLive (visible : Overlay VisibleChunk) (chunk : Chunk) : Bool :=
  visible.any fun segment => segment.value.fileId == chunk.fileId

/-- The chunks that are visible somewhere and those that are not, each in order. -/
def separateGarbage (visible : Overlay VisibleChunk) (chunks : List Chunk) :
    List Chunk × List Chunk :=
  chunks.partition (isLive visible)

end Chunk

end Haystack
