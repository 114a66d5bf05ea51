import Haystack.Proofs.Overlay.Order

/-!
# Parts within a window

Some segments are cut to a window, each where it meets the window, and their values may be turned
into others on the way. Order stays, and a position of the window shows the part of the segment that
was seen there.
-/

namespace Haystack

variable {α β : Type}

/-- A segment as it is cut for a window, if it meets the window. -/
def Segment.part? (low high : Int) (cut : Segment α → Segment β) (segment : Segment α) :
    Option (Segment β) :=
  if max low segment.start < min high segment.stop then some (cut segment) else none

/-- What is cut has the range that the segment and the window have in common. -/
structure Segment.CutsTo (low high : Int) (cut : Segment α → Segment β) : Prop where
  start : ∀ segment, (cut segment).start = max low segment.start
  stop : ∀ segment, (cut segment).stop = min high segment.stop

namespace Overlay

open Segment

variable {low high : Int} {cut : Segment α → Segment β} {list : Overlay α}

theorem part?_eq_some_iff {segment : Segment α} {part : Segment β} :
    segment.part? low high cut = some part ↔
      max low segment.start < min high segment.stop ∧ cut segment = part := by
  unfold part?
  split <;> simp [*]

theorem mem_parts {part : Segment β} : part ∈ list.filterMap (part? low high cut) ↔
    ∃ segment ∈ list, max low segment.start < min high segment.stop ∧ cut segment = part := by
  simp only [List.mem_filterMap, part?_eq_some_iff]

/-- The parts of segments in order are in order. -/
theorem ordered_parts (cuts : CutsTo low high cut) (ordered : Ordered list) :
    Ordered (list.filterMap (part? low high cut)) := by
  induction list with
  | nil => exact ordered_nil
  | cons segment rest ih =>
      obtain ⟨_, above, later⟩ := ordered_cons.mp ordered
      rw [List.filterMap_cons]
      split
      · exact ih later
      · rename_i part found
        obtain ⟨meets, rfl⟩ := part?_eq_some_iff.mp found
        refine ordered_cons.mpr ⟨?_, ?_, ih later⟩
        · rw [cuts.start, cuts.stop]
          exact meets
        · intro next member
          obtain ⟨behind, inside, _, rfl⟩ := mem_parts.mp member
          have := above behind inside
          rw [cuts.start, cuts.stop]
          omega

theorem any_covers_part? (cuts : CutsTo low high cut) (segment : Segment α) (position : Int) :
    ((segment.part? low high cut).any fun part => part.covers position) = true ↔
      (low ≤ position ∧ position < high) ∧ segment.covers position = true := by
  unfold part?
  split
  · rw [Option.any_some, covers_iff, covers_iff, cuts.start, cuts.stop]
    omega
  · simp only [Option.any_none, Bool.false_eq_true, covers_iff, false_iff]
    omega

/-- A position of the window shows the part of the segment that was seen there. -/
theorem at?_parts (cuts : CutsTo low high cut) (list : Overlay α) (position : Int) :
    at? (list.filterMap (part? low high cut)) position =
      if low ≤ position ∧ position < high then (at? list position).map cut else none := by
  have covers (segment : Segment α) := any_covers_part? cuts segment position
  rw [at?, List.find?_filterMap]
  split
  · rename_i inside
    have same : (fun segment : Segment α =>
        (segment.part? low high cut).any fun part => part.covers position) =
          fun segment => segment.covers position := by
      funext segment
      rw [Bool.eq_iff_iff, covers, and_iff_right inside]
    rw [same, ← at?]
    cases seen : at? list position with
    | none => rfl
    | some segment =>
        have covered := covers_of_at? seen
        rw [Option.bind_some, part?, if_pos (by omega), Option.map_some]
  · rename_i outside
    rw [List.find?_eq_none.mpr fun segment _ shown => outside ((covers segment).mp shown).1]
    rfl

end Overlay

end Haystack
