import Haystack.Proofs.Overlay.Order

/-!
# Overlays by position

What laying a segment over an overlay does is said for each position: the segment that is seen
there afterwards is a piece of the new segment or of the one that was seen there before. Which of
them it is depends on the position and, for `settle`, on the times.
-/

namespace Haystack

variable {α : Type} [Clippable α]

/-- A segment cut out of another one, in any number of steps. -/
inductive Segment.Piece (whole : Segment α) : Segment α → Prop
  | whole : Piece whole whole
  | clip {part : Segment α} {start stop : Int} : Piece whole part →
      part.start ≤ start → stop ≤ part.stop → Piece whole (part.clip start stop)

/-- A value after it has been told some ranges, the given one last. -/
inductive Clippable.Cut (value : α) : (start stop : Int) → α → Prop
  | once (start stop : Int) : Cut value start stop (Clippable.clip value start stop)
  | again {start stop : Int} {part : α} (low high : Int) : Cut value start stop part →
      Cut value low high (Clippable.clip part low high)

/-- Of the ranges that a value is told only the last one counts. -/
def Clippable.LastCounts (α : Type) [Clippable α] : Prop :=
  ∀ (value : α) (start stop low high : Int),
    clip (clip value start stop) low high = clip value low high

theorem Clippable.Cut.eq_clip {value part : α} {start stop : Int} (cut : Cut value start stop part)
    (last : LastCounts α) : part = clip value start stop := by
  induction cut with
  | once => rfl
  | again low high _ ih => rw [ih, last]

namespace Segment.Piece

theorem trans {whole part piece : Segment α} (first : Piece whole part)
    (second : Piece part piece) : Piece whole piece := by
  induction second with
  | whole => exact first
  | clip _ low high ih => exact .clip ih low high

theorem time_eq {whole part : Segment α} (piece : Piece whole part) : part.time = whole.time := by
  induction piece with
  | whole => rfl
  | clip _ _ _ ih => rw [clip_time, ih]

theorem within {whole part : Segment α} (piece : Piece whole part) :
    whole.start ≤ part.start ∧ part.stop ≤ whole.stop := by
  induction piece with
  | whole => exact ⟨Int.le_refl _, Int.le_refl _⟩
  | clip _ low high ih =>
      simp only [clip_start, clip_stop]
      omega

theorem cut {whole part : Segment α} {value : α} (piece : Piece whole part)
    (whole_cut : Clippable.Cut value whole.start whole.stop whole.value) :
    Clippable.Cut value part.start part.stop part.value := by
  induction piece with
  | whole => exact whole_cut
  | clip _ _ _ ih => exact .again _ _ ih

theorem since {whole part : Segment α} {position : Int} (piece : Piece whole part) :
    Piece whole (Overlay.since part position) := by
  unfold Overlay.since
  split
  · exact .clip piece (by omega) (Int.le_refl _)
  · exact piece

end Segment.Piece

namespace Overlay

open Segment

theorem since_start {segment : Segment α} {position : Int} :
    (since segment position).start = max segment.start position := by
  unfold since
  split
  · simp only [clip_start]
    omega
  · omega

theorem at?_before (segment : Segment α) (high position : Int) :
    at? (before segment high) position =
      if segment.start ≤ position ∧ position < high then some (segment.clip segment.start high)
      else none := by
  unfold before
  split
  · simp [at?_cons]
  · rw [at?_nil, if_neg (by omega)]

theorem at?_beyond (segment : Segment α) (low position : Int) :
    at? (beyond segment low) position =
      if low ≤ position ∧ position < segment.stop then some (segment.clip low segment.stop)
      else none := by
  unfold beyond
  split
  · simp [at?_cons]
  · rw [at?_nil, if_neg (by omega)]

/-- What is seen at a position once a new segment is there as well: it has to be at least as new
as what was seen. -/
def newer (new : Segment α) : Option (Segment α) → Option (Segment α)
  | none => some new
  | some old => if old.time ≤ new.time then some new else some old

/-- What is seen at a position after laying over a segment where it is at least as new. -/
def settled (new : Segment α) (old : Option (Segment α)) (position : Int) : Option (Segment α) :=
  if new.covers position then newer new old else old

theorem rel_piece_refl (seen : Option (Segment α)) : seen.Rel Piece seen := by
  cases seen with
  | none => exact .none
  | some segment => exact .some .whole

theorem rel_piece_or {first second third fourth : Option (Segment α)}
    (front : first.Rel Piece third) (back : second.Rel Piece fourth) :
    (first.or second).Rel Piece (third.or fourth) := by
  cases front with
  | some piece => exact .some piece
  | none => exact back

theorem rel_of_rel_piece {β : Type} {told still : β → Segment α → Prop} {what : Option β}
    {old seen : Option (Segment α)} (h : what.Rel told old) (pieces : old.Rel Piece seen)
    (keeps : ∀ {it whole part}, told it whole → Piece whole part → still it part) :
    what.Rel still seen := by
  cases h with
  | none =>
      cases pieces with
      | none => exact .none
  | some inner =>
      cases pieces with
      | some piece => exact .some (keeps inner piece)

/-- A piece is laid over where its whole would be, as far as it reaches. -/
theorem newer_mono {new part : Segment α} (piece : Piece new part)
    {old seen : Option (Segment α)} (h : (newer part old).Rel Piece seen) :
    (newer new old).Rel Piece seen := by
  cases old with
  | none =>
      cases h with
      | some inner => exact .some (piece.trans inner)
  | some old =>
      simp only [newer, piece.time_eq] at h ⊢
      by_cases le : old.time ≤ new.time
      · rw [if_pos le] at h ⊢
        cases h with
        | some inner => exact .some (piece.trans inner)
      · rw [if_neg le] at h ⊢
        exact h

/-- Where a new segment meets one that is not newer, that one keeps what lies outside. -/
theorem at?_over {new old : Segment α} {rest later : Overlay α} {position : Int}
    (behind : ∀ next ∈ rest, old.stop ≤ next.start) (proper : new.start < new.stop)
    (meets : old.start < new.stop ∧ new.start < old.stop) (le : old.time ≤ new.time)
    (ih : (settled new (at? rest position) position).Rel Piece (at? later position)) :
    (settled new (at? (old :: rest) position) position).Rel Piece
      (at? (before old new.start ++ if new.stop < old.stop then
        new :: (since old new.start).clip new.stop old.stop :: rest else later) position) := by
  have unseen : position < old.stop → at? rest position = none := at?_eq_none_of_before behind
  rw [at?_append, at?_before, at?_cons, settled]
  by_cases inside : old.start ≤ position ∧ position < old.stop
  · rw [if_pos ((covers_iff old position).mpr inside), newer, if_pos le]
    by_cases left : position < new.start
    · rw [if_neg (not_covers_of_lt left), if_pos ⟨inside.1, left⟩, Option.some_or]
      exact .some (.clip .whole (Int.le_refl _) (by omega))
    have kept : ¬(old.start ≤ position ∧ position < new.start) := fun h => left h.2
    rw [if_neg kept, Option.none_or]
    by_cases covered : new.covers position
    · rw [if_pos covered]
      split
      · rw [at?_cons, if_pos covered]
        exact .some .whole
      · rwa [settled, if_pos covered, unseen inside.2] at ih
    · have right : new.stop ≤ position := by
        rw [covers_iff] at covered
        omega
      have cut : ((since old new.start).clip new.stop old.stop).covers position = true :=
        (covers_iff _ position).mpr ⟨right, inside.2⟩
      rw [if_neg covered, if_pos (by omega), at?_cons, if_neg covered, at?_cons, if_pos cut]
      refine .some (.clip (.since .whole) ?_ (by simp))
      rw [since_start]
      omega
  · have hidden : ¬old.covers position = true := by rwa [covers_iff]
    have left : ¬(old.start ≤ position ∧ position < new.start) := by omega
    rw [if_neg hidden, if_neg left, Option.none_or]
    by_cases stops : new.stop < old.stop
    · rw [if_pos stops, at?_cons]
      by_cases covered : new.covers position
      · have within := (covers_iff new position).mp covered
        rw [if_pos covered, if_pos covered, unseen (by omega)]
        exact .some .whole
      · have cut : ¬((since old new.start).clip new.stop old.stop).covers position = true := by
          rw [covers_iff, clip_start, clip_stop]
          omega
        rw [if_neg covered, if_neg covered, at?_cons, if_neg cut]
        exact rel_piece_refl _
    · rw [if_neg stops]
      exact ih

/-- Where a new segment meets a newer one, only what lies outside of that one is seen of it. -/
theorem at?_under {new old : Segment α} {rest later : Overlay α} {position : Int}
    (first : old.start < old.stop) (behind : ∀ next ∈ rest, old.stop ≤ next.start)
    (meets : old.start < new.stop ∧ new.start < old.stop) (lt : new.time < old.time)
    (ih : old.stop < new.stop → (settled ((since new old.start).clip old.stop new.stop)
      (at? rest position) position).Rel Piece (at? later position)) :
    (settled new (at? (old :: rest) position) position).Rel Piece
      (at? (before new old.start ++ old :: if old.stop < new.stop then later else rest)
        position) := by
  have unseen : position < old.stop → at? rest position = none := at?_eq_none_of_before behind
  rw [at?_append, at?_before, at?_cons, at?_cons old, settled]
  by_cases inside : old.start ≤ position ∧ position < old.stop
  · have left : ¬(new.start ≤ position ∧ position < old.start) := by omega
    have older : ¬old.time ≤ new.time := by omega
    have hold := (covers_iff old position).mpr inside
    rw [if_pos hold, if_pos hold, if_neg left, Option.none_or, newer, if_neg older, ite_self]
    exact rel_piece_refl _
  have hidden : ¬old.covers position = true := by rwa [covers_iff]
  rw [if_neg hidden, if_neg hidden]
  by_cases left : new.start ≤ position ∧ position < old.start
  · have covered : new.covers position = true := by
      rw [covers_iff]
      omega
    rw [if_pos left, Option.some_or, if_pos covered, unseen (by omega)]
    exact .some (.clip .whole (Int.le_refl _) (by omega))
  rw [if_neg left, Option.none_or]
  by_cases stops : old.stop < new.stop
  · have piece : Piece new ((since new old.start).clip old.stop new.stop) := by
      refine .clip (.since .whole) ?_ (by simp)
      rw [since_start]
      omega
    have same : ((since new old.start).clip old.stop new.stop).covers position =
        new.covers position := by
      rw [Bool.eq_iff_iff, covers_iff, covers_iff, clip_start, clip_stop]
      omega
    have seen := ih stops
    rw [settled, same] at seen
    rw [if_pos stops]
    by_cases covered : new.covers position
    · rw [if_pos covered] at seen ⊢
      exact newer_mono piece seen
    · rw [if_neg covered] at seen ⊢
      exact seen
  · have uncovered : ¬new.covers position = true := by
      rw [covers_iff]
      omega
    rw [if_neg uncovered, if_neg stops]
    exact rel_piece_refl _

/-- After laying over a segment where it is at least as new, a position in its range shows the
newer one of the segment and what was seen there, and any other position what was seen there. -/
theorem at?_settle {new : Segment α} {list : Overlay α} (ordered : Ordered list)
    (proper : new.start < new.stop) (position : Int) :
    (settled new (at? list position) position).Rel Piece (at? (settle new list) position) := by
  induction list generalizing new with
  | nil =>
      simp only [settle, settled, at?_cons, at?_nil]
      exact rel_piece_refl _
  | cons old rest ih =>
      obtain ⟨first, behind, later⟩ := ordered_cons.mp ordered
      unfold settle
      split
      · by_cases inside : new.covers position
        · have before : at? (old :: rest) position = none := by
            rw [covers_iff] at inside
            rw [at?_cons, at?_eq_none_of_before behind (by omega),
              if_neg (by rw [covers_iff]; omega)]
          rw [settled, before, if_pos inside, at?_cons, if_pos inside]
          exact .some .whole
        · rw [settled, if_neg inside, at?_cons new, if_neg inside]
          exact rel_piece_refl _
      split
      · rw [at?_cons, at?_cons old (settle new rest)]
        by_cases hold : old.covers position
        · rw [if_pos hold, if_pos hold, settled, if_neg]
          · exact rel_piece_refl _
          · rw [covers_iff] at hold ⊢
            omega
        · rw [if_neg hold, if_neg hold]
          exact ih later proper
      split
      · exact at?_over behind proper (by omega) (by assumption) (ih later proper)
      · exact at?_under first behind (by omega) (by omega) fun stops => ih later stops

/-- After laying over a segment every segment is a piece of it or of one that was there before. -/
theorem piece_of_mem_settle {new : Segment α} {list : Overlay α} (ordered : Ordered list)
    (proper : new.start < new.stop) {part : Segment α} (member : part ∈ settle new list) :
    Piece new part ∨ ∃ segment ∈ list, Piece segment part := by
  have seen := at?_settle ordered proper part.start
  rw [at?_start (ordered_settle ordered proper) member, settled] at seen
  have old {whole : Segment α} (found : at? list part.start = some whole)
      (piece : Piece whole part) : ∃ segment ∈ list, Piece segment part :=
    ⟨whole, mem_of_at? found, piece⟩
  cases found : at? list part.start with
  | none =>
      simp only [found, newer] at seen
      split at seen
      · exact .inl (by simpa using seen)
      · simp at seen
  | some whole =>
      simp only [found, newer] at seen
      split at seen
      · split at seen
        · exact .inl (by simpa using seen)
        · exact .inr (old found (by simpa using seen))
      · exact .inr (old found (by simpa using seen))

/-- Before a range, what some segments that meet it show is what the first one keeps. -/
theorem at?_beforeFirst {met : Overlay α} {low position : Int} (ordered : Ordered met)
    (reaches : ∀ segment ∈ met, low < segment.stop) (h : position < low) :
    (at? met position).Rel Piece (at? (beforeFirst met low) position) := by
  cases met with
  | nil => exact .none
  | cons first rest =>
      obtain ⟨_, behind, _⟩ := ordered_cons.mp ordered
      have stops := reaches first (by simp)
      rw [beforeFirst, List.head?_cons, at?_before, at?_cons,
        at?_eq_none_of_before behind (by omega)]
      by_cases starts : first.start ≤ position
      · have covered : first.covers position = true := by
          rw [covers_iff]
          omega
        rw [if_pos covered, if_pos ⟨starts, h⟩]
        exact .some (.clip .whole (Int.le_refl _) (by omega))
      · rw [if_neg (not_covers_of_lt (Int.lt_of_not_ge starts)), if_neg (by omega)]
        exact .none

/-- Behind a range, what some segments that meet it show is what the last one keeps. -/
theorem at?_beyondLast {met : Overlay α} {high position : Int} (ordered : Ordered met)
    (starts : ∀ segment ∈ met, segment.start < high) (h : high ≤ position) :
    (at? met position).Rel Piece (at? (beyondLast met high) position) := by
  rcases List.eq_nil_or_concat met with rfl | ⟨front, last, rfl⟩
  · exact .none
  · rw [List.concat_eq_append] at ordered starts ⊢
    have first := starts last (by simp)
    obtain ⟨_, _, between⟩ := ordered_append.mp ordered
    have hidden : at? front position = none :=
      at?_eq_none_of_behind (fun segment member => between segment member last (by simp))
        (by omega)
    rw [beyondLast, List.getLast?_concat, at?_beyond, at?_append, hidden, Option.none_or,
      at?_cons, at?_nil]
    by_cases stops : position < last.stop
    · have covered : last.covers position = true := by
        rw [covers_iff]
        omega
      rw [if_pos covered, if_pos ⟨h, stops⟩]
      exact .some (.clip .whole (by omega) (Int.le_refl _))
    · rw [if_neg (not_covers_of_le (Int.le_of_not_gt stops)), if_neg (by omega)]
      exact .none

/-- After a segment has been put in place of others, a position in its range shows that segment,
and any other position what was seen there. -/
theorem at?_replace {new : Segment α} {list : Overlay α} (ordered : Ordered list)
    (proper : new.start < new.stop) (position : Int) :
    (if new.covers position then some new else at? list position).Rel Piece
      (at? (replace new list) position) := by
  obtain ⟨earlier, met, later, whole, result, low, middle, high⟩ := replace_parts new ordered
  rw [whole] at ordered
  obtain ⟨_, back, _⟩ := ordered_append.mp ordered
  obtain ⟨met_ordered, _, _⟩ := ordered_append.mp back
  have kept : ∀ segment ∈ beforeFirst met new.start, segment.stop ≤ new.start := by
    intro segment member
    obtain ⟨first, _, _, rfl⟩ := mem_beforeFirst member
    exact Int.le_refl _
  rw [result, whole]
  simp only [at?_append, at?_cons new]
  rcases Int.lt_or_le position new.start with left | right
  · have uncovered : ¬new.covers position = true := not_covers_of_lt left
    have behind : ∀ segment ∈ beyondLast met new.stop, new.stop ≤ segment.start := by
      intro segment member
      obtain ⟨last, _, _, rfl⟩ := mem_beyondLast member
      exact Int.le_refl _
    rw [if_neg uncovered, if_neg uncovered, at?_eq_none_of_before high (by omega),
      at?_eq_none_of_before behind (by omega), Option.or_none, Option.or_none, Option.or_none]
    exact rel_piece_or (rel_piece_refl _)
      (at?_beforeFirst met_ordered (fun segment member => (middle segment member).1) left)
  rw [at?_eq_none_of_behind low right, at?_eq_none_of_behind kept right, Option.none_or,
    Option.none_or, Option.none_or]
  by_cases covered : new.covers position
  · rw [if_pos covered, if_pos covered]
    exact .some .whole
  · have beyond : new.stop ≤ position := by
      rw [covers_iff] at covered
      omega
    rw [if_neg covered, if_neg covered]
    exact rel_piece_or
      (at?_beyondLast met_ordered (fun segment member => (middle segment member).2) beyond)
      (rel_piece_refl _)

theorem covers_make_of_le {start stop time : Int} {value : α} (h : ¬start < stop)
    (position : Int) : ¬(make start stop time value).covers position = true := by
  rw [covers_iff, make_start, make_stop]
  omega

theorem ordered_insert {list : Overlay α} (ordered : Ordered list) (start stop time : Int)
    (value : α) : Ordered (insert list start stop time value) := by
  unfold insert
  split
  · exact ordered_settle ordered (by assumption)
  · exact ordered

theorem at?_insert {list : Overlay α} (ordered : Ordered list) (start stop time : Int) (value : α)
    (position : Int) :
    (settled (make start stop time value) (at? list position) position).Rel Piece
      (at? (insert list start stop time value) position) := by
  unfold insert
  split
  · exact at?_settle ordered (by assumption) position
  · rw [settled, if_neg (covers_make_of_le (by assumption) position)]
    exact rel_piece_refl _

theorem piece_of_mem_insert {list : Overlay α} (ordered : Ordered list) {start stop time : Int}
    {value : α} {part : Segment α} (member : part ∈ insert list start stop time value) :
    Piece (make start stop time value) part ∨ ∃ segment ∈ list, Piece segment part := by
  unfold insert at member
  split at member
  · exact piece_of_mem_settle ordered (by assumption) member
  · exact .inr ⟨part, member, .whole⟩

theorem ordered_cover {list : Overlay α} (ordered : Ordered list) (start stop time : Int)
    (value : α) : Ordered (cover list start stop time value) := by
  unfold cover
  split
  · exact ordered_replace ordered (by assumption)
  · exact ordered

theorem at?_cover {list : Overlay α} (ordered : Ordered list) (start stop time : Int) (value : α)
    (position : Int) :
    (if (make start stop time value).covers position then some (make start stop time value)
      else at? list position).Rel Piece (at? (cover list start stop time value) position) := by
  unfold cover
  by_cases proper : start < stop
  · rw [if_pos proper]
    exact at?_replace ordered proper position
  · rw [if_neg proper, if_neg (covers_make_of_le proper position)]
    exact rel_piece_refl _

/-- A value is laid over the list or put behind all of its segments. -/
theorem append_cases {list : Overlay α} (ordered : Ordered list) (start stop time : Int)
    (value : α) :
    append list start stop time value = cover list start stop time value ∨
      start < stop ∧ (∀ segment ∈ list, segment.stop ≤ start) ∧
        append list start stop time value = list ++ [make start stop time value] := by
  unfold append
  split
  · split
    · rename_i proper _ none
      rw [List.getLast?_eq_none_iff.mp none]
      exact .inr ⟨proper, by simp, rfl⟩
    · rename_i proper _ last found
      split
      · exact .inl rfl
      · refine .inr ⟨proper, ?_, rfl⟩
        intro segment member
        have := ordered.stop_le_of_getLast? found segment member
        omega
  · rename_i improper
    exact .inl (by rw [cover, if_neg improper])

theorem ordered_append_value {list : Overlay α} (ordered : Ordered list) (start stop time : Int)
    (value : α) : Ordered (append list start stop time value) := by
  rcases append_cases ordered start stop time value with same | ⟨proper, behind, same⟩
  · rw [same]
    exact ordered_cover ordered start stop time value
  · rw [same]
    refine ordered_append.mpr ⟨ordered, ordered_singleton proper, ?_⟩
    intro segment member next last
    rw [List.mem_singleton.mp last]
    exact behind segment member

/-- What is seen after a value has been put behind the last segment, or laid over the list. -/
theorem at?_append_value {list : Overlay α} (ordered : Ordered list) (start stop time : Int)
    (value : α) (position : Int) :
    (if (make start stop time value).covers position then some (make start stop time value)
      else at? list position).Rel Piece (at? (append list start stop time value) position) := by
  rcases append_cases ordered start stop time value with same | ⟨_, behind, same⟩
  · rw [same]
    exact at?_cover ordered start stop time value position
  · rw [same, at?_append, at?_cons, at?_nil]
    by_cases covered : (make start stop time value).covers position
    · have inside := (covers_iff _ position).mp covered
      rw [if_pos covered, if_pos covered, at?_eq_none_of_behind behind inside.1]
      exact rel_piece_refl _
    · rw [if_neg covered, if_neg covered, Option.or_none]
      exact rel_piece_refl _

end Overlay

end Haystack
