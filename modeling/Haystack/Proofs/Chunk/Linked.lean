import Haystack.Chunk.View
import Haystack.Proofs.Overlay.Linked
import Haystack.Proofs.Overlay.Windows

/-!
# Chunks on linked overlays

What is visible of some chunks, and the views of what is visible, are what a linked overlay shows
after one call for each chunk, or for each visible segment.
-/

namespace Haystack

open Overlay

namespace Chunk

/-- Inserting a chunk over the range that it has. -/
def call (chunk : Chunk) : Overlay.Call VisibleChunk :=
  ⟨.insert, chunk.offset, chunk.stop, chunk.modified, .ofChunk chunk⟩

theorem resolve_eq_run (chunks : List Chunk) (start stop : Int) :
    resolve chunks start stop = run ((chunks.map call).map (Overlay.Call.within start stop)) := by
  rw [run, List.foldl_map, List.foldl_map]
  rfl

theorem shown_resolve (chunks : List Chunk) (start stop : Int) :
    LinkedOverlay.shown ((chunks.map call).map (Overlay.Call.within start stop)) =
      some (resolve chunks start stop) := by
  rw [LinkedOverlay.shown_eq, resolve_eq_run]

end Chunk

namespace ChunkView

/-- The call that puts the slice of a visible part behind the views so far. -/
def sliceCall (start stop : Int) (segment : Segment VisibleChunk) : Overlay.Call ChunkView :=
  let low := max start segment.value.start
  let high := min stop segment.value.stop
  { policy := .append, start := low, stop := high, time := segment.time
    value := .ofVisible segment.value low high }

theorem ofVisibles_eq_run (visible : Overlay VisibleChunk) (offset size : Int) :
    ofVisibles visible offset size =
      run (visible.map (sliceCall offset (addPositions offset size))) := by
  rw [run, List.foldl_map]
  rfl

theorem shown_ofVisibles (visible : Overlay VisibleChunk) (offset size : Int) :
    LinkedOverlay.shown (visible.map (sliceCall offset (addPositions offset size))) =
      some (ofVisibles visible offset size) := by
  rw [LinkedOverlay.shown_eq, ofVisibles_eq_run]

end ChunkView

end Haystack
