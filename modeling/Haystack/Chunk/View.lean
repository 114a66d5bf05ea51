import Haystack.Chunk.Visible

/-!
# Views of chunks

To read a range of a file is to read slices of chunks. A view is such a slice with its place in
the file.
-/

namespace Haystack

/-- A slice of a chunk and its place in the file. -/
structure ChunkView where
  fileId : String
  /-- Where the slice starts within the chunk. -/
  offsetInChunk : Int
  size : Nat
  /-- Where the slice starts in the file. -/
  offset : Int
  chunkSize : Nat
  cipherKey : Bytes := []
  isCompressed : Bool := false
  modified : Int
  deriving DecidableEq, Repr

namespace ChunkView

def isWholeChunk (view : ChunkView) : Bool :=
  view.size == view.chunkSize

def stop (view : ChunkView) : Int :=
  wrapped (view.offset + signed64 view.size)

/-- The slice over another range; the place within the chunk moves with its start. A range that is
too long counts as empty. -/
def clip (view : ChunkView) (start stop : Int) : ChunkView :=
  { view with
    offset := start
    size := (wrapped (stop - start)).toNat
    offsetInChunk := view.offsetInChunk + (start - view.offset) }

instance : Clippable ChunkView := ⟨clip⟩

def ofVisible (visible : VisibleChunk) (start stop : Int) : ChunkView :=
  { fileId := visible.fileId
    offsetInChunk := visible.offsetInChunk + start - visible.start
    size := (stop - start).toNat
    offset := start
    chunkSize := visible.chunkSize
    cipherKey := visible.cipherKey
    isCompressed := visible.isCompressed
    modified := visible.modified }

/-- Puts the slice of a visible segment within a window behind the views so far. -/
def addView (start stop : Int) (views : Overlay ChunkView) (segment : Segment VisibleChunk) :
    Overlay ChunkView :=
  let low := max start segment.value.start
  let high := min stop segment.value.stop
  views.append low high segment.time (.ofVisible segment.value low high)

/-- The views of what is visible within `size` bytes from a position on. -/
def ofVisibles (visible : Overlay VisibleChunk) (offset size : Int) : Overlay ChunkView :=
  visible.foldl (addView offset (addPositions offset size)) []

/-- The views of some chunks within `size` bytes from a position on. -/
def ofChunks (chunks : List Chunk) (offset size : Int) : Overlay ChunkView :=
  ofVisibles (Chunk.resolve chunks 0 maxPosition) offset size

end ChunkView

end Haystack
