import Haystack.Proofs.Overlay.Calls

/-!
# Overlays of other values

How segments are cut does not depend on their values. So a function that may be applied before or
after a value is cut can be applied before or after any calls, with the same overlay as result.
With it a number can be added to each value, and taken away again from the overlay that is left.
-/

namespace Haystack

/-- The segment with another value. -/
def Segment.map {α β : Type} (f : α → β) (segment : Segment α) : Segment β :=
  { start := segment.start, stop := segment.stop, time := segment.time, value := f segment.value }

/-- The call with another value. -/
def Overlay.Call.map {α β : Type} (f : α → β) (call : Call α) : Call β :=
  { call with value := f call.value }

/-- It makes no difference whether a value is cut before the function is applied or after. -/
def Clippable.Natural {α β : Type} [Clippable α] [Clippable β] (f : α → β) : Prop :=
  ∀ (value : α) (start stop : Int), f (clip value start stop) = clip (f value) start stop

namespace Overlay

open Segment

variable {α β : Type} {f : α → β}

theorem mark_map (call : Call α) (number : Nat) (earlier : Reference) :
    (call.map f).mark number earlier = call.mark number earlier := rfl

theorem reference_map (calls : List (Call α)) :
    reference (calls.map (Call.map f)) = reference calls := by
  induction calls using List.reverseRecOn with
  | nil => rfl
  | append_singleton calls call ih =>
      rw [List.map_append, List.map_singleton, reference_concat, reference_concat, ih, mark_map,
        List.length_map]

variable [Clippable α] [Clippable β]

theorem map_clip (natural : Clippable.Natural f) (segment : Segment α) (start stop : Int) :
    (segment.clip start stop).map f = (segment.map f).clip start stop := by
  unfold Segment.map Segment.clip Segment.make
  rw [natural]

theorem map_segment (natural : Clippable.Natural f) (call : Call α) :
    call.segment.map f = (call.map f).segment := by
  unfold Call.segment Segment.map Segment.make
  rw [natural]
  rfl

theorem map_before (natural : Clippable.Natural f) (segment : Segment α) (position : Int) :
    (before segment position).map (Segment.map f) = before (segment.map f) position := by
  unfold before
  rw [apply_ite (List.map (Segment.map f)), List.map_singleton, map_clip natural]
  rfl

theorem map_beyond (natural : Clippable.Natural f) (segment : Segment α) (position : Int) :
    (beyond segment position).map (Segment.map f) = beyond (segment.map f) position := by
  unfold beyond
  rw [apply_ite (List.map (Segment.map f)), List.map_singleton, map_clip natural]
  rfl

theorem map_since (natural : Clippable.Natural f) (segment : Segment α) (position : Int) :
    (since segment position).map f = since (segment.map f) position := by
  unfold since
  rw [apply_ite (Segment.map f), map_clip natural]
  rfl

theorem map_settle (natural : Clippable.Natural f) (new : Segment α) (list : Overlay α) :
    (settle new list).map (Segment.map f) = settle (new.map f) (list.map (Segment.map f)) := by
  induction list generalizing new with
  | nil => rfl
  | cons old rest ih =>
      rw [List.map_cons, settle, settle]
      simp only [apply_ite (List.map (Segment.map f)), List.map_append, List.map_cons,
        map_before natural, map_clip natural, map_since natural, ih]
      rfl

theorem map_beforeFirst (natural : Clippable.Natural f) (list : Overlay α) (position : Int) :
    (beforeFirst list position).map (Segment.map f) =
      beforeFirst (list.map (Segment.map f)) position := by
  cases list with
  | nil => rfl
  | cons first rest => exact map_before natural first position

theorem map_beyondLast (natural : Clippable.Natural f) (list : Overlay α) (position : Int) :
    (beyondLast list position).map (Segment.map f) =
      beyondLast (list.map (Segment.map f)) position := by
  unfold beyondLast
  rw [List.getLast?_map]
  cases list.getLast? with
  | none => rfl
  | some last => exact map_beyond natural last position

theorem map_replace (natural : Clippable.Natural f) (new : Segment α) (list : Overlay α) :
    (replace new list).map (Segment.map f) = replace (new.map f) (list.map (Segment.map f)) := by
  unfold replace
  simp only [List.map_append, List.map_cons, List.takeWhile_map, List.dropWhile_map,
    map_beforeFirst natural, map_beyondLast natural]
  rfl

/-- A call with another value does the same to segments with other values. -/
theorem map_apply (natural : Clippable.Natural f) (call : Call α) (list : Overlay α) :
    (call.apply list).map (Segment.map f) = (call.map f).apply (list.map (Segment.map f)) := by
  have new := map_segment natural call
  have settled := map_settle natural call.segment list
  have replaced := map_replace natural call.segment list
  rw [new] at settled replaced
  have covered : (cover list call.start call.stop call.time call.value).map (Segment.map f) =
      cover (list.map (Segment.map f)) call.start call.stop call.time (f call.value) := by
    unfold cover
    rw [apply_ite (List.map (Segment.map f))]
    exact if_congr Iff.rfl replaced rfl
  unfold Call.apply Call.map
  cases call.policy with
  | insert =>
      simp only [insert]
      rw [apply_ite (List.map (Segment.map f))]
      exact if_congr Iff.rfl settled rfl
  | cover => exact covered
  | append =>
      simp only [append, List.getLast?_map]
      rw [apply_ite (List.map (Segment.map f))]
      refine if_congr Iff.rfl ?_ rfl
      cases list.getLast? with
      | none => exact congrArg (fun segment => [segment]) new
      | some last =>
          simp only [Option.map_some]
          rw [apply_ite (List.map (Segment.map f)), List.map_append]
          exact if_congr Iff.rfl covered (congrArg (fun segment => _ ++ [segment]) new)

theorem map_run (natural : Clippable.Natural f) (calls : List (Call α)) :
    (run calls).map (Segment.map f) = run (calls.map (Call.map f)) := by
  induction calls using List.reverseRecOn with
  | nil => rfl
  | append_singleton calls call ih =>
      rw [List.map_append, List.map_singleton, run_concat, run_concat, map_apply natural, ih]

end Overlay

end Haystack
