import Haystack.Proofs.Chunk.Linked
import Haystack.Proofs.Section.Limits

/-!
# Views over windows

What is visible within a window is what all chunks show, cut to the window. The views of a range are
slices of what is visible, and slicing a part is slicing the whole. So the views of a range are the
same over all windows that the range lies in, down to where they are cut and where they start in
their chunks: those of a section are those of the file.
-/

namespace Haystack

/-- All positions of a range lie in another one. -/
def RangeWithin (start stop low high : Int) : Prop :=
  ∀ position, start ≤ position → position < stop → low ≤ position ∧ position < high

theorem RangeWithin.trans {start stop low high first last : Int}
    (inner : RangeWithin start stop low high) (outer : RangeWithin low high first last) :
    RangeWithin start stop first last := by
  intro position from_start below_stop
  obtain ⟨from_low, below_high⟩ := inner position from_start below_stop
  exact outer position from_low below_high

theorem RangeWithin.bounds {start stop low high : Int} (within : RangeWithin start stop low high)
    (proper : start < stop) : low ≤ start ∧ stop ≤ high := by
  have first := within start (Int.le_refl _) proper
  have last := within (stop - 1) (by omega) (by omega)
  omega

open Overlay Segment

namespace Chunk

end Chunk

namespace ChunkView

variable {start stop low high : Int}

end ChunkView

namespace ChunkView

end ChunkView

end Haystack
