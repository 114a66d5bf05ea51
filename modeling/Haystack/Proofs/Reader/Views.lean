import Mathlib.Data.Int.Order.Basic
import Haystack.Proofs.Chunk.Linked
import Haystack.Proofs.Reader.Reach

/-!
# What views tell

Views are an overlay like any other, whatever visible parts they are made from: in order, apart, and
each told its own range. They tell a byte for each position of the file, that of the chunk of the
view the position lies in, and zero where no view is or where the contents of the chunk end early.
-/

namespace Haystack

/-- The part starts at a position of a file and within its chunk, and its length is a signed
number. -/
structure VisibleChunk.Sound (visible : VisibleChunk) : Prop where
  low : -(2 ^ (63 : Nat)) ≤ visible.start
  inside : 0 ≤ visible.offsetInChunk
  short : visible.stop - visible.start ≤ maxPosition

namespace ChunkView

open Overlay Segment

/-- The view is told its range, and starts within its chunk. -/
structure Sited (view : Segment ChunkView) : Prop where
  offset : view.value.offset = view.start
  stop : view.value.stop = view.stop
  inside : 0 ≤ view.value.offsetInChunk

/-- The byte that views tell at a position. -/
def byteAt (content : String → Bytes) (views : Overlay ChunkView) (position : Int) : UInt8 :=
  match views.at? position with
  | none => 0
  | some view =>
    (content view.value.fileId).getD
      (position - view.value.offset + view.value.offsetInChunk).toNat 0

/-- The bytes that views tell in a range. -/
def image (content : String → Bytes) (views : Overlay ChunkView) (start : Int) (length : Nat) :
    Bytes :=
  (List.range length).map fun (step : Nat) => byteAt content views (start + step)

/-- The views that have positions in a range. -/
def met (views : Overlay ChunkView) (start stop : Int) : Overlay ChunkView :=
  views.filter fun view => max start view.start < min stop view.stop

/-- The newest of the modification times of some views and another time. -/
def newestOf (views : Overlay ChunkView) (time : Int) : Int :=
  (views.map (·.value.modified)).foldl max time

variable {content : String → Bytes} {view : Segment ChunkView} {views others : Overlay ChunkView}
  {start stop position : Int} {length : Nat}

@[simp] theorem length_image (content : String → Bytes) (views : Overlay ChunkView) (start : Int)
    (length : Nat) : (image content views start length).length = length := by
  simp [image]

theorem image_add (content : String → Bytes) (views : Overlay ChunkView) (start : Int)
    (front back : Nat) :
    image content views start (front + back) =
      image content views start front ++ image content views (start + front) back := by
  simp only [image, List.range_add, List.map_append, List.map_map, List.append_cancel_left_eq,
    List.map_inj_left]
  intro step _
  rw [Function.comp_apply, Int.natCast_add, Int.add_assoc]

theorem image_congr (same : ∀ position, start ≤ position → position < start + length →
      views.at? position = others.at? position) :
    image content views start length = image content others start length := by
  rw [image, image, List.map_inj_left]
  intro step member
  have below := List.mem_range.mp member
  rw [byteAt, byteAt, same _ (by omega) (by omega)]

theorem image_of_no_view (none : ∀ position, start ≤ position → position < start + length →
      views.at? position = none) :
    image content views start length = .zeros length := by
  rw [image, Bytes.zeros, List.eq_replicate_iff]
  refine ⟨by simp, ?_⟩
  intro byte member
  obtain ⟨step, inside, rfl⟩ := List.mem_map.mp member
  have below := List.mem_range.mp inside
  rw [byteAt, none _ (by omega) (by omega)]

/-- Within one view the bytes are those of its chunk, with zeros behind their end. -/
theorem image_of_view (inside : 0 ≤ start - view.value.offset + view.value.offsetInChunk)
    (within : ∀ position, start ≤ position → position < start + length →
      views.at? position = some view) :
    image content views start length =
      ((content view.value.fileId).slice
        (start - view.value.offset + view.value.offsetInChunk).toNat length).resize length := by
  refine List.ext_getElem (by simp) ?_
  intro step low _
  rw [length_image] at low
  have place : (start + step - view.value.offset + view.value.offsetInChunk).toNat =
      (start - view.value.offset + view.value.offsetInChunk).toNat + step := by omega
  simp only [image, byteAt, List.getElem_map, List.getElem_range,
    within (start + step) (by omega) (by omega), place]
  rw [Bytes.getElem_resize, Bytes.getD_slice low]

theorem image_between (content : String → Bytes) (views : Overlay ChunkView)
    {first middle last : Int} (low : first ≤ middle) (high : middle ≤ last) :
    image content views first (last - first).toNat =
      image content views first (middle - first).toNat ++
        image content views middle (last - middle).toNat := by
  have parts : (last - first).toNat = (middle - first).toNat + (last - middle).toNat := by omega
  have start : first + ((middle - first).toNat : Int) = middle := by omega
  rw [parts, image_add, start]

theorem image_before (ordered : Ordered (view :: views))
    (before : 0 < length → start + length ≤ view.start) :
    image content (view :: views) start length = .zeros length := by
  obtain ⟨proper, above, -⟩ := ordered_cons.mp ordered
  have behind : ∀ next ∈ view :: views, view.start ≤ next.start := by
    intro next member
    rcases List.mem_cons.mp member with rfl | member
    · exact Int.le_refl _
    · have := above next member
      omega
  exact image_of_no_view fun position low high => at?_eq_none_of_before behind (by omega)

theorem image_behind (behind : 0 < length → view.stop ≤ start) :
    image content (view :: views) start length = image content views start length := by
  refine image_congr fun position low high => ?_
  rw [at?_cons, if_neg (by rw [covers_iff]; omega)]

theorem newestOf_cons (view : Segment ChunkView) (views : Overlay ChunkView) (time : Int) :
    newestOf (view :: views) time = newestOf views (max time view.value.modified) := rfl

theorem mem_met : view ∈ met views start stop ↔
    view ∈ views ∧ max start view.start < min stop view.stop := by
  rw [met, List.mem_filter, decide_eq_true_iff]

theorem met_cons (view : Segment ChunkView) (views : Overlay ChunkView) (start stop : Int) :
    met (view :: views) start stop =
      if max start view.start < min stop view.stop then view :: met views start stop
      else met views start stop := by
  rw [met, List.filter_cons]
  simp only [decide_eq_true_iff]
  rfl

theorem met_congr {first last : Int} (same : ∀ view ∈ views,
      max start view.start < min stop view.stop ↔ max first view.start < min last view.stop) :
    met views start stop = met views first last := by
  rw [met, met]
  refine List.filter_congr fun view member => ?_
  rw [decide_eq_decide]
  exact same view member

theorem stop_le_reach (member : view ∈ views) (start : Int) : view.stop ≤ reach views start := by
  have before : view.stop - 1 < reach views start :=
    lt_reach_iff.mpr (.inr ⟨view, member, by omega⟩)
  omega

/-- Where the last of some views stops, unless that is before a position. -/
def lastStop (views : Overlay ChunkView) (start : Int) : Int :=
  match views.getLast? with
  | none => start
  | some last => max start last.stop

/-- Views in order reach to where the last one stops. -/
theorem reach_eq_lastStop (ordered : Ordered views) (start : Int) :
    reach views start = lastStop views start := by
  refine eq_of_forall_lt_iff fun position => ?_
  rw [lt_reach_iff, lastStop]
  cases ends : views.getLast? with
  | none => simp [List.getLast?_eq_none_iff.mp ends]
  | some last =>
      have most := ordered.stop_le_of_getLast? ends
      have either : position < max start last.stop ↔ position < start ∨ position < last.stop := by
        omega
      rw [either]
      refine or_congr_right ⟨?_, fun before => ⟨last, List.mem_of_getLast? ends, before⟩⟩
      rintro ⟨view, member, before⟩
      exact Int.lt_of_lt_of_le before (most view member)

end ChunkView

end Haystack
