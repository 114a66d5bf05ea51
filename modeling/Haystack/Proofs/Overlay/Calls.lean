import Haystack.Proofs.Overlay.Positions
import Mathlib.Data.List.Induction

/-!
# Sequences of calls

The reference for an overlay keeps for each position the time and the number of the call that is
seen there, and goes through the calls position by position. Whatever the calls are, the overlay
they leave shows at each position a piece of the segment of the call that the reference names.
-/

namespace Haystack.Overlay

open Segment

/-- The ways to lay a value over a range. -/
inductive Policy where
  | insert
  | cover
  | append
  deriving DecidableEq, Repr

/-- A value to be laid over a range. -/
structure Call (α : Type) where
  policy : Policy
  start : Int
  stop : Int
  time : Int
  value : α
  deriving DecidableEq, Repr

/-- For each position the time and the number of the call that is seen there. -/
abbrev Reference := Int → Option (Int × Nat)

/-- The reference after one more call, which has the given number. -/
def Call.mark {α : Type} (call : Call α) (number : Nat) (reference : Reference) : Reference :=
  fun position =>
    if call.start ≤ position ∧ position < call.stop then
      match call.policy, reference position with
      | .insert, some (time, earlier) =>
        if time ≤ call.time then some (call.time, number) else some (time, earlier)
      | _, _ => some (call.time, number)
    else reference position

/-- The reference after some calls, numbered from zero. -/
def reference {α : Type} (calls : List (Call α)) : Reference :=
  calls.zipIdx.foldl (fun reference call => call.1.mark call.2 reference) fun _ => none

variable {α : Type} [Clippable α]

/-- The segment that a call lays over an overlay. -/
def Call.segment (call : Call α) : Segment α :=
  make call.start call.stop call.time call.value

/-- The overlay after a call. -/
def Call.apply (call : Call α) (list : Overlay α) : Overlay α :=
  match call.policy with
  | .insert => list.insert call.start call.stop call.time call.value
  | .cover => list.cover call.start call.stop call.time call.value
  | .append => list.append call.start call.stop call.time call.value

/-- The overlay after some calls. -/
def run (calls : List (Call α)) : Overlay α :=
  calls.foldl (fun list call => call.apply list) []

/-- A segment shows what the reference says: it has the time, and is a piece of the segment of the
call of that number. -/
def Shows (calls : List (Call α)) (mark : Int × Nat) (segment : Segment α) : Prop :=
  segment.time = mark.1 ∧ ∃ call, calls[mark.2]? = some call ∧ call.segment.Piece segment

theorem Shows.concat {calls : List (Call α)} {mark : Int × Nat} {segment part : Segment α}
    (shows : Shows calls mark segment) (piece : segment.Piece part) (call : Call α) :
    Shows (calls ++ [call]) mark part := by
  obtain ⟨time, earlier, found, outer⟩ := shows
  obtain ⟨bound, _⟩ := List.getElem?_eq_some_iff.mp found
  exact ⟨by rw [piece.time_eq, time], earlier, by rw [List.getElem?_append_left bound, found],
    outer.trans piece⟩

theorem shows_last (calls : List (Call α)) (call : Call α) {part : Segment α}
    (piece : call.segment.Piece part) :
    Shows (calls ++ [call]) (call.time, calls.length) part :=
  ⟨piece.time_eq, call, by simp, piece⟩

theorem covers_segment (call : Call α) (position : Int) :
    call.segment.covers position = true ↔ call.start ≤ position ∧ position < call.stop :=
  covers_iff _ position

theorem ordered_apply (call : Call α) {list : Overlay α} (ordered : Ordered list) :
    Ordered (call.apply list) := by
  unfold Call.apply
  cases call.policy with
  | insert => exact ordered_insert ordered _ _ _ _
  | cover => exact ordered_cover ordered _ _ _ _
  | append => exact ordered_append_value ordered _ _ _ _

theorem rel_shows_last (calls : List (Call α)) (call : Call α) {seen : Option (Segment α)}
    (piece : (some call.segment).Rel Piece seen) :
    (some (call.time, calls.length)).Rel (Shows (calls ++ [call])) seen := by
  cases piece with
  | some part => exact .some (shows_last calls call part)

theorem rel_shows_concat {calls : List (Call α)} (call : Call α) {mark : Option (Int × Nat)}
    {old seen : Option (Segment α)} (shows : mark.Rel (Shows calls) old)
    (pieces : old.Rel Piece seen) : mark.Rel (Shows (calls ++ [call])) seen :=
  rel_of_rel_piece shows pieces fun shows piece => shows.concat piece call

/-- What a call puts in its range, by what was seen there. -/
def Call.lays (call : Call α) (old : Option (Segment α)) : Option (Segment α) :=
  match call.policy with
  | .insert => newer call.segment old
  | .cover => some call.segment
  | .append => some call.segment

theorem at?_apply {list : Overlay α} (ordered : Ordered list) (call : Call α) (position : Int) :
    (if call.segment.covers position then call.lays (at? list position)
      else at? list position).Rel Piece (at? (call.apply list) position) := by
  unfold Call.apply Call.lays
  cases call.policy with
  | insert => exact at?_insert ordered call.start call.stop call.time call.value position
  | cover => exact at?_cover ordered call.start call.stop call.time call.value position
  | append => exact at?_append_value ordered call.start call.stop call.time call.value position

/-- Where a call keeps what is newer, it is seen if what was seen is not newer. -/
theorem shows_newer {calls : List (Call α)} (call : Call α) {mark : Option (Int × Nat)}
    {old seen : Option (Segment α)} (shows : mark.Rel (Shows calls) old)
    (pieces : (newer call.segment old).Rel Piece seen) :
    (match mark with
      | some (time, earlier) =>
        if time ≤ call.time then some (call.time, calls.length) else some (time, earlier)
      | none => some (call.time, calls.length)).Rel (Shows (calls ++ [call])) seen := by
  cases shows with
  | none => exact rel_shows_last calls call pieces
  | @some mark old shows =>
      have time : old.time = mark.1 := shows.1
      simp only [newer, time, Call.segment, make_time] at pieces ⊢
      by_cases le : mark.1 ≤ call.time
      · rw [if_pos le] at pieces ⊢
        exact rel_shows_last calls call pieces
      · rw [if_neg le] at pieces ⊢
        exact rel_shows_concat call (.some shows) pieces

/-- A call does to an overlay what it does to the reference. -/
theorem shows_apply {calls : List (Call α)} {before : Reference} {list : Overlay α}
    (ordered : Ordered list) (call : Call α) (position : Int)
    (ih : (before position).Rel (Shows calls) (at? list position)) :
    (call.mark calls.length before position).Rel (Shows (calls ++ [call]))
      (at? (call.apply list) position) := by
  have seen := at?_apply ordered call position
  unfold Call.mark
  by_cases inside : call.start ≤ position ∧ position < call.stop
  · rw [if_pos ((covers_segment call position).mpr inside), Call.lays] at seen
    rw [if_pos inside]
    cases policy : call.policy with
    | cover =>
        rw [policy] at seen
        exact rel_shows_last calls call seen
    | append =>
        rw [policy] at seen
        exact rel_shows_last calls call seen
    | insert =>
        rw [policy] at seen
        have marked := shows_newer call ih seen
        revert marked
        cases before position with
        | none => exact id
        | some mark => exact id
  · have outside : ¬call.segment.covers position = true := by rwa [covers_segment]
    rw [if_neg outside] at seen
    rw [if_neg inside]
    exact rel_shows_concat call ih seen

theorem run_concat (calls : List (Call α)) (call : Call α) :
    run (calls ++ [call]) = call.apply (run calls) := by
  simp [run]

theorem reference_concat {α : Type} (calls : List (Call α)) (call : Call α) :
    reference (calls ++ [call]) = call.mark calls.length (reference calls) := by
  simp [reference, List.zipIdx_append]

theorem ordered_run (calls : List (Call α)) : Ordered (run calls) := by
  induction calls using List.reverseRecOn with
  | nil => exact ordered_nil
  | append_singleton calls call ih =>
      rw [run_concat]
      exact ordered_apply call ih

/-- After any calls each position shows what the reference says. -/
theorem shows_run (calls : List (Call α)) (position : Int) :
    (reference calls position).Rel (Shows calls) (at? (run calls) position) := by
  induction calls using List.reverseRecOn with
  | nil => exact .none
  | append_singleton calls call ih =>
      rw [run_concat, reference_concat]
      exact shows_apply (ordered_run calls) call position ih

theorem exists_piece_of_mem_run {calls : List (Call α)} {segment : Segment α}
    (member : segment ∈ run calls) : ∃ call ∈ calls, call.segment.Piece segment := by
  have shows := shows_run calls segment.start
  rw [at?_start (ordered_run calls) member] at shows
  revert shows
  generalize reference calls segment.start = mark
  intro shows
  cases shows with
  | some shows =>
      obtain ⟨_, call, found, piece⟩ := shows
      exact ⟨call, List.mem_of_getElem? found, piece⟩

/-- An overlay denotes the reference: a position that the reference says nothing of lies in no
segment. Any other lies in one segment, which has the time that the reference names, and the value
of the call that it names, cut to the range of the segment. -/
theorem run_denotes_reference (calls : List (Call α)) (position : Int) :
    match reference calls position with
    | none => (run calls).filter (fun segment => segment.covers position) = []
    | some (time, number) => ∃ segment call,
        (run calls).filter (fun segment => segment.covers position) = [segment] ∧
        segment.time = time ∧ calls[number]? = some call ∧
        Clippable.Cut call.value segment.start segment.stop segment.value := by
  rw [filter_covers (ordered_run calls)]
  have shows := shows_run calls position
  revert shows
  generalize reference calls position = mark, at? (run calls) position = seen
  intro shows
  cases shows with
  | none => rfl
  | @some mark segment shows =>
      obtain ⟨time, call, found, piece⟩ := shows
      exact ⟨segment, call, rfl, time, found, piece.cut (.once call.start call.stop)⟩

end Haystack.Overlay
