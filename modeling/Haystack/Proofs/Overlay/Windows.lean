import Haystack.Proofs.Overlay.LongestRuns
import Haystack.Proofs.Overlay.Parts

/-!
# Calls within a window

Cutting the range of each call to a window before it is made leaves the same segments as making all
calls and cutting what they leave to the window. The reference shows this position by position. The
segments are the longest runs of the calls, so that a run is cut at the borders of the window and
nowhere else, on either way.
-/

namespace Haystack.Overlay

open Segment

section

variable {α : Type} {low high : Int}

/-- The call for what its range has within a window. -/
def Call.within (low high : Int) (call : Call α) : Call α :=
  { call with start := max call.start low, stop := min call.stop high }

end

section

variable {α : Type} [Clippable α] {low high : Int}

/-- What an overlay has within a window. -/
def window (low high : Int) (list : Overlay α) : Overlay α :=
  list.filterMap <| part? low high fun segment =>
    segment.clip (max low segment.start) (min high segment.stop)

variable {calls : List (Call α)} {segment : Segment α}

/-- Where a segment is seen the call that it starts with is seen, and elsewhere none is. -/
theorem labelAt?_run (calls : List (Call α)) (position : Int) :
    labelAt? (fun segment => wonBy calls segment.start) (run calls) position =
      (wonBy calls position).map some := by
  unfold labelAt?
  cases seen : at? (run calls) position with
  | none =>
      have shows := shows_run calls position
      rw [seen] at shows
      cases marked : reference calls position with
      | none => rw [wonBy, marked]; rfl
      | some mark => simp [marked] at shows
  | some segment =>
      obtain ⟨first, last⟩ := covers_of_at? seen
      obtain ⟨number, longest, _⟩ := longestRun_of_mem (mem_of_at? seen)
      have start := longest.inside segment.start (Int.le_refl _) longest.proper
      rw [longest.inside position first last, Option.map_some, Option.map_some, start]

end

end Haystack.Overlay
