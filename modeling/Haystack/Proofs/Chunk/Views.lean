import Haystack.Chunk.View
import Haystack.Proofs.Chunk.Winner
import Haystack.Proofs.Overlay.Parts

/-!
# Views and the chunks that count

The views of a range are the visible segments cut to the range. So each position of the range lies
in one view if some chunk covers it and in none otherwise, and the view reads the byte of the chunk
that counts there.
-/

namespace Haystack.ChunkView

open Overlay Segment

theorem lastCounts : Clippable.LastCounts ChunkView := by
  intro value start stop low high
  change (value.clip start stop).clip low high = value.clip low high
  simp only [ChunkView.clip, ChunkView.mk.injEq, true_and, and_true]
  omega

/-- A visible segment is told where it starts and stops. -/
def Told (segment : Segment VisibleChunk) : Prop :=
  segment.value.start = segment.start ∧ segment.value.stop = segment.stop

/-- The slice of a visible segment within a range. -/
def slice (start stop : Int) (segment : Segment VisibleChunk) : Segment ChunkView :=
  .make (max start segment.start) (min stop segment.stop) segment.time
    (.ofVisible segment.value (max start segment.start) (min stop segment.stop))

/-- The slice of a visible segment, if the segment meets the range. -/
def slice? (start stop : Int) (segment : Segment VisibleChunk) : Option (Segment ChunkView) :=
  if max start segment.start < min stop segment.stop then some (slice start stop segment) else none

theorem slice_within {start stop : Int} {segment : Segment VisibleChunk}
    {view : Segment ChunkView} (h : slice? start stop segment = some view) :
    view.start < view.stop ∧ segment.start ≤ view.start ∧ view.stop ≤ segment.stop := by
  unfold slice? at h
  split at h
  · cases h
    simp only [slice, Segment.make_start, Segment.make_stop]
    omega
  · cases h

theorem append_eq_concat {list : Overlay ChunkView} {start stop time : Int} {value : ChunkView}
    (behind : ∀ view ∈ list, view.stop ≤ start) (proper : start < stop) :
    list.append start stop time value = list ++ [.make start stop time value] := by
  unfold Overlay.append
  rw [if_pos proper]
  split
  · rename_i none
    rw [List.getLast?_eq_none_iff.mp none]
    rfl
  · rename_i last found
    have := behind last (List.mem_of_getLast? found)
    rw [if_neg (by omega)]

theorem addView_eq {start stop : Int} {views : Overlay ChunkView} {segment : Segment VisibleChunk}
    (told : Told segment) (behind : ∀ view ∈ views, view.stop ≤ segment.start) :
    addView start stop views segment = views ++ (slice? start stop segment).toList := by
  unfold addView slice?
  rw [told.1, told.2]
  by_cases meets : max start segment.start < min stop segment.stop
  · rw [if_pos meets]
    refine append_eq_concat ?_ meets
    intro view member
    have := behind view member
    omega
  · rw [if_neg meets, Overlay.append, if_neg meets, Option.toList_none, List.append_nil]

/-- The views of ordered segments are their slices, in order. -/
theorem foldl_addView {start stop : Int} {visible : Overlay VisibleChunk}
    (ordered : Ordered visible) (told : ∀ segment ∈ visible, Told segment)
    {views : Overlay ChunkView}
    (behind : ∀ view ∈ views, ∀ segment ∈ visible, view.stop ≤ segment.start) :
    visible.foldl (addView start stop) views = views ++ visible.filterMap (slice? start stop) := by
  induction visible generalizing views with
  | nil => simp
  | cons segment rest ih =>
      obtain ⟨proper, above, later⟩ := ordered_cons.mp ordered
      rw [List.foldl_cons, addView_eq (told segment (by simp))
        (fun view member => behind view member segment (by simp))]
      have above_slice : ∀ view ∈ views ++ (slice? start stop segment).toList,
          ∀ next ∈ rest, view.stop ≤ next.start := by
        intro view member next inside
        rcases List.mem_append.mp member with member | member
        · exact behind view member next (by simp [inside])
        · have := above next inside
          have := (slice_within (Option.mem_toList.mp member)).2.2
          omega
      rw [ih later (fun next member => told next (by simp [member])) above_slice,
        List.filterMap_cons]
      cases slice? start stop segment with
      | none => simp
      | some view => simp

theorem cutsTo_slice (start stop : Int) : CutsTo start stop (slice start stop) :=
  ⟨fun _ => rfl, fun _ => rfl⟩

theorem ordered_slices {visible : Overlay VisibleChunk} (ordered : Ordered visible)
    (start stop : Int) : Ordered (visible.filterMap (slice? start stop)) :=
  ordered_parts (cutsTo_slice start stop) ordered

theorem at?_slices (visible : Overlay VisibleChunk) (start stop position : Int) :
    at? (visible.filterMap (slice? start stop)) position =
      if start ≤ position ∧ position < stop then (at? visible position).map (slice start stop)
      else none :=
  at?_parts (cutsTo_slice start stop) visible position

theorem told_of_visible {chunk : Chunk} {segment : Segment VisibleChunk}
    (visible : chunk.Visible segment) : Told segment := by
  rw [Told, visible.value_eq]
  exact ⟨rfl, rfl⟩

theorem ofVisibles_resolve (chunks : List Chunk) (start stop offset size : Int) :
    ofVisibles (Chunk.resolve chunks start stop) offset size =
      (Chunk.resolve chunks start stop).filterMap (slice? offset (addPositions offset size)) := by
  have told : ∀ segment ∈ Chunk.resolve chunks start stop, Told segment := by
    intro segment member
    obtain ⟨chunk, _, visible, _⟩ := Chunk.visible_of_mem_resolve member
    exact told_of_visible visible
  have none_yet : ∀ view ∈ ([] : Overlay ChunkView),
      ∀ segment ∈ Chunk.resolve chunks start stop, view.stop ≤ segment.start := by simp
  rw [ofVisibles, foldl_addView (Chunk.ordered_resolve chunks start stop) told none_yet,
    List.nil_append]

theorem ordered_views (chunks : List Chunk) (start stop offset size : Int) :
    Ordered (ofVisibles (Chunk.resolve chunks start stop) offset size) := by
  rw [ofVisibles_resolve]
  exact ordered_slices (Chunk.ordered_resolve chunks start stop) _ _

/-- A view shows a chunk: it reads the chunk, and its range, from the place on that the range has
in the chunk. -/
structure Reads (chunk : Chunk) (view : Segment ChunkView) : Prop where
  fileId : view.value.fileId = chunk.fileId
  chunkSize : view.value.chunkSize = chunk.size
  cipherKey : view.value.cipherKey = chunk.cipherKey
  isCompressed : view.value.isCompressed = chunk.isCompressed
  modified : view.value.modified = chunk.modified
  offset : view.value.offset = view.start
  size : view.value.size = (wrapped (view.stop - view.start)).toNat
  place : view.value.offsetInChunk = view.start - chunk.offset

theorem reads_slice {chunk : Chunk} {segment : Segment VisibleChunk}
    (visible : chunk.Visible segment) (start stop : Int) :
    Reads chunk (slice start stop segment) := by
  have value := visible.value_eq
  constructor
  all_goals simp only [slice, Segment.make_start, Segment.make_stop, Segment.make_value, value]
  case place =>
    change 0 + (segment.start - chunk.offset) + max start segment.start - segment.start +
      (max start segment.start - max start segment.start) = max start segment.start - chunk.offset
    omega
  all_goals rfl

/-- What the views of a range show at a position is the chunk that counts there. -/
theorem reads_at {chunks : List Chunk} {start stop offset size position : Int}
    (low : start ≤ offset) (high : addPositions offset size ≤ stop)
    (from_offset : offset ≤ position) (below : position < addPositions offset size) :
    (Chunk.winner? chunks position).Rel Reads
      (at? (ofVisibles (Chunk.resolve chunks start stop) offset size) position) := by
  have visible : (Chunk.winner? chunks position).Rel Chunk.Visible
      (at? (Chunk.resolve chunks start stop) position) :=
    Chunk.visible_at (by omega) (by omega) chunks
  rw [ofVisibles_resolve, at?_slices,
    if_pos ⟨from_offset, below⟩]
  revert visible
  generalize Chunk.winner? chunks position = best,
    at? (Chunk.resolve chunks start stop) position = seen
  intro visible
  cases visible with
  | none => exact .none
  | some visible => exact .some (reads_slice visible _ _)

/-- A view reads a chunk, within the range of the chunk. -/
theorem reads_of_mem_views {chunks : List Chunk} {start stop offset size : Int}
    {view : Segment ChunkView}
    (member : view ∈ ofVisibles (Chunk.resolve chunks start stop) offset size) :
    ∃ chunk ∈ chunks, Reads chunk view ∧ chunk.offset ≤ view.start ∧ view.stop ≤ chunk.stop := by
  rw [ofVisibles_resolve] at member
  obtain ⟨segment, visible, sliced⟩ := List.mem_filterMap.mp member
  obtain ⟨chunk, present, shown, low, high⟩ := Chunk.visible_of_mem_resolve visible
  have within := slice_within sliced
  refine ⟨chunk, present, ?_, by omega, by omega⟩
  unfold slice? at sliced
  split at sliced
  · cases sliced
    exact reads_slice shown _ _
  · cases sliced

theorem within_of_mem_views {chunks : List Chunk} {start stop offset size : Int}
    {view : Segment ChunkView}
    (member : view ∈ ofVisibles (Chunk.resolve chunks start stop) offset size) :
    offset ≤ view.start ∧ view.stop ≤ addPositions offset size := by
  rw [ofVisibles_resolve] at member
  obtain ⟨segment, _, sliced⟩ := List.mem_filterMap.mp member
  unfold slice? at sliced
  split at sliced
  · cases sliced
    exact ⟨Int.le_max_left _ _, Int.min_le_left _ _⟩
  · cases sliced

/-- A view of a range that fits is told where it starts and stops. -/
theorem told_of_mem_views {chunks : List Chunk} {start stop offset size : Int}
    {view : Segment ChunkView}
    (member : view ∈ ofVisibles (Chunk.resolve chunks start stop) offset size)
    (low : -(2 ^ (63 : Nat)) ≤ view.start) (short : view.stop - view.start ≤ maxPosition) :
    view.value.offset = view.start ∧ view.value.stop = view.stop := by
  have proper := (ordered_views chunks start stop offset size).proper view member
  obtain ⟨chunk, _, reads, _, high⟩ := reads_of_mem_views member
  have most : chunk.stop ≤ maxPosition := wrapped_le _
  have length : (view.value.size : Int) = view.stop - view.start := by
    rw [reads.size, wrapped_of_fits (by omega) short, Int.toNat_of_nonneg (by omega)]
  have whole : view.start + (view.stop - view.start) = view.stop := by omega
  refine ⟨reads.offset, ?_⟩
  rw [ChunkView.stop, wrapped_add_signed64, reads.offset, length, whole]
  exact wrapped_of_fits (by omega) (by omega)

end Haystack.ChunkView
