import Haystack.Proofs.Chunk.Views
import Haystack.Proofs.Overlay.Linked

/-!
# The policies compared

There are three ways to lay a value over a range, and where they mean the same they leave the same
segments. A value that is appended is laid over the range. So is one that is inserted and as new as
all that it meets; only a segment that reaches out of the range on both sides has its value told one
range more on the way, which makes no difference where only the last range counts. A value that is
inserted and older than all that it meets changes no segment: it fills the gaps of the range.
-/

namespace Haystack

namespace Segment

/-- A segment and a range have a position in common. -/
def Meets {α : Type} (segment : Segment α) (start stop : Int) : Prop :=
  segment.start < stop ∧ start < segment.stop

instance {α : Type} (segment : Segment α) (start stop : Int) :
    Decidable (segment.Meets start stop) :=
  inferInstanceAs (Decidable (_ ∧ _))

variable {α : Type} [Clippable α]

/-- Segments that are the same but for a range that the value of the first one is told before its
own. -/
inductive Retold : Segment α → Segment α → Prop
  | same (segment : Segment α) : Retold segment segment
  | again (segment : Segment α) (start stop low high : Int) :
      Retold ((segment.clip start stop).clip low high) (segment.clip low high)

theorem Retold.eq {segment other : Segment α} (retold : Retold segment other)
    (last : Clippable.LastCounts α) : segment = other := by
  cases retold with
  | same => rfl
  | again whole start stop low high =>
      unfold Segment.clip make
      rw [last]

end Segment

namespace Overlay

open Segment

variable {α : Type}

/-- A longest range within a range that lies in no segment. -/
structure Gap (list : Overlay α) (start stop low high : Int) : Prop where
  proper : low < high
  within : start ≤ low ∧ high ≤ stop
  free : ∀ position, low ≤ position → position < high → at? list position = none
  before : start < low → at? list (low - 1) ≠ none
  behind : high < stop → at? list high ≠ none

section

variable {list other rest : Overlay α} {old : Segment α} {start stop low high : Int}

/-- A range that meets no segment is its own gap. -/
theorem gap_iff_of_free (proper : start < stop)
    (free : ∀ position, start ≤ position → position < stop → at? list position = none) :
    Gap list start stop low high ↔ low = start ∧ high = stop := by
  constructor
  · intro gap
    have less := gap.proper
    have within := gap.within
    constructor
    · by_contra apart
      exact gap.before (by omega) (free (low - 1) (by omega) (by omega))
    · by_contra apart
      exact gap.behind (by omega) (free high (by omega) (by omega))
  · rintro ⟨rfl, rfl⟩
    exact ⟨proper, ⟨Int.le_refl _, Int.le_refl _⟩, free, by omega, by omega⟩

theorem Gap.congr (gap : Gap list start stop low high)
    (same : ∀ position, start ≤ position → position < stop →
      at? list position = at? other position) : Gap other start stop low high := by
  have less := gap.proper
  have within := gap.within
  refine ⟨less, within, ?_, ?_, ?_⟩
  · intro position from_low below_high
    rw [← same position (by omega) (by omega)]
    exact gap.free position from_low below_high
  · intro apart
    rw [← same (low - 1) (by omega) (by omega)]
    exact gap.before apart
  · intro apart
    rw [← same high (by omega) (by omega)]
    exact gap.behind apart

theorem at?_cons_of_before (ordered : Ordered (old :: rest)) {position : Int}
    (h : position < old.start) : at? (old :: rest) position = none := by
  obtain ⟨proper, behind, _⟩ := ordered_cons.mp ordered
  rw [at?_cons, if_neg (not_covers_of_lt h), at?_eq_none_of_before behind (by omega)]

theorem at?_cons_of_behind {position : Int} (h : old.stop ≤ position) :
    at? (old :: rest) position = at? rest position := by
  rw [at?_cons, if_neg (not_covers_of_le h)]

theorem at?_cons_ne_none {position : Int} (low : old.start ≤ position)
    (high : position < old.stop) : at? (old :: rest) position ≠ none := by
  rw [at?_cons, if_pos ((covers_iff old position).mpr ⟨low, high⟩)]
  exact Option.some_ne_none old

/-- A gap of a range that meets the first segment lies before that segment, or is one of what the
range has behind it. -/
theorem gap_cons_iff (ordered : Ordered (old :: rest)) (meets : old.Meets start stop) :
    Gap (old :: rest) start stop low high ↔
      start < old.start ∧ low = start ∧ high = old.start ∨
        old.stop < stop ∧ Gap rest old.stop stop low high := by
  obtain ⟨first, last⟩ := meets
  have proper := (ordered_cons.mp ordered).1
  constructor
  · intro gap
    have less := gap.proper
    have within := gap.within
    have outside : high ≤ old.start ∨ old.stop ≤ low := by
      by_contra inside
      exact at?_cons_ne_none (by omega) (by omega)
        (gap.free (max low old.start) (by omega) (by omega))
    rcases outside with left | right
    · refine .inl ⟨by omega, ?_, ?_⟩
      · by_contra apart
        exact gap.before (by omega) (at?_cons_of_before ordered (by omega))
      · by_contra apart
        exact gap.behind (by omega) (at?_cons_of_before ordered (by omega))
    · refine .inr ⟨by omega, less, ⟨right, within.2⟩, ?_, ?_, ?_⟩
      · intro position from_low below_high
        rw [← at?_cons_of_behind (by omega : old.stop ≤ position)]
        exact gap.free position from_low below_high
      · intro apart
        rw [← at?_cons_of_behind (by omega : old.stop ≤ low - 1)]
        exact gap.before (by omega)
      · intro apart
        rw [← at?_cons_of_behind (by omega : old.stop ≤ high)]
        exact gap.behind apart
  · rintro (⟨starts, rfl, rfl⟩ | ⟨stops, gap⟩)
    · refine ⟨starts, ⟨Int.le_refl _, by omega⟩, ?_, by omega, fun _ => ?_⟩
      · intro position _ below
        exact at?_cons_of_before ordered below
      · exact at?_cons_ne_none (Int.le_refl _) proper
    · have less := gap.proper
      have within := gap.within
      refine ⟨less, ⟨by omega, within.2⟩, ?_, fun _ => ?_, ?_⟩
      · intro position from_low below_high
        rw [at?_cons_of_behind (by omega)]
        exact gap.free position from_low below_high
      · -- Just before the first gap behind it lies the segment itself.
        by_cases touches : low = old.stop
        · exact at?_cons_ne_none (by omega) (by omega)
        · rw [at?_cons_of_behind (by omega)]
          exact gap.before (by omega)
      · intro apart
        rw [at?_cons_of_behind (by omega)]
        exact gap.behind apart

theorem takeWhile_of_none {test : Segment α → Bool}
    (none : ∀ segment ∈ list, test segment = false) :
    list.takeWhile test = [] ∧ list.dropWhile test = list := by
  cases list with
  | nil => exact ⟨rfl, rfl⟩
  | cons segment rest => simp [none segment (by simp)]

theorem starts_ne_of_perm {parts : Overlay α} (ordered : Ordered list)
    (perm : list.Perm parts) : parts.Pairwise fun part other => part.start ≠ other.start := by
  have apart : list.Pairwise fun part other => part.start ≠ other.start := by
    refine ordered.apart.imp_of_mem ?_
    intro segment next member _ behind
    have := ordered.proper segment member
    omega
  exact (perm.pairwise_iff Ne.symm).mp apart

end

section

variable [Clippable α] {new : Segment α} {list : Overlay α} {low high : Int}

/-- The parts of a segment that lie in the gaps of an overlay. -/
def fill (new : Segment α) : Overlay α → Overlay α
  | [] => [new]
  | old :: rest =>
    if new.stop ≤ old.start then [new]
    else if old.stop ≤ new.start then fill new rest
    else
      before new old.start ++
        if old.stop < new.stop then fill ((since new old.start).clip old.stop new.stop) rest
        else []

/-- Laying a segment over others that are newer where it meets them adds what fills the gaps. -/
theorem settle_perm_fill (older : ∀ segment ∈ list, segment.Meets new.start new.stop →
    new.time < segment.time) : (settle new list).Perm (list ++ fill new list) := by
  -- Further on only what is left of the segment is laid over, which meets no more than the whole.
  induction list generalizing new with
  | nil => exact .refl _
  | cons old rest ih =>
      have later : ∀ segment ∈ rest, segment.Meets new.start new.stop →
          new.time < segment.time := fun segment member => older segment (by simp [member])
      unfold settle fill
      split
      · exact (List.perm_append_singleton new (old :: rest)).symm
      split
      · exact (ih later).cons old
      · have meets : old.Meets new.start new.stop := ⟨by omega, by omega⟩
        have less := older old (by simp) meets
        rw [if_neg (by omega)]
        have behind : (if old.stop < new.stop then
            settle ((since new old.start).clip old.stop new.stop) rest else rest).Perm
            (rest ++ if old.stop < new.stop then
              fill ((since new old.start).clip old.stop new.stop) rest else []) := by
          split
          · refine ih ?_
            intro segment member inside
            simp only [clip_start, clip_stop, clip_time, since_time, Meets] at inside ⊢
            exact later segment member ⟨inside.1, by omega⟩
          · rw [List.append_nil]
        refine List.perm_middle.trans ?_
        exact ((behind.append_left _).trans (List.perm_append_comm_assoc ..)).cons old

theorem mem_before_iff {segment part : Segment α} {position : Int} :
    part ∈ before segment position ↔
      segment.start < position ∧ part = segment.clip segment.start position := by
  refine ⟨mem_before, ?_⟩
  rintro ⟨starts, rfl⟩
  rw [before, if_pos starts]
  exact List.mem_singleton_self _

/-- What fills the gaps has one part for each of them. -/
theorem gap_iff_fill (ordered : Ordered list) (proper : new.start < new.stop) :
    Gap list new.start new.stop low high ↔
      ∃ part ∈ fill new list, part.start = low ∧ part.stop = high := by
  induction list generalizing new with
  | nil =>
      rw [gap_iff_of_free proper fun _ _ _ => rfl]
      simp [fill, eq_comm]
  | cons old rest ih =>
      obtain ⟨_, _, later⟩ := ordered_cons.mp ordered
      unfold fill
      split
      · rw [gap_iff_of_free proper fun position _ below =>
          at?_cons_of_before ordered (by omega)]
        simp [eq_comm]
      split
      · have same : ∀ position, new.start ≤ position → position < new.stop →
            at? (old :: rest) position = at? rest position := fun position low _ =>
          at?_cons_of_behind (by omega)
        rw [← ih later proper]
        exact ⟨fun gap => gap.congr same,
          fun gap => gap.congr fun position low high => (same position low high).symm⟩
      · rw [gap_cons_iff ordered ⟨by omega, by omega⟩]
        simp only [List.mem_append, mem_before_iff, or_and_right, exists_or]
        refine or_congr ?_ ?_
        · constructor
          · rintro ⟨starts, rfl, rfl⟩
            exact ⟨_, ⟨starts, rfl⟩, rfl, rfl⟩
          · rintro ⟨_, ⟨starts, rfl⟩, rfl, rfl⟩
            exact ⟨starts, rfl, rfl⟩
        · split
          · rename_i stops
            rw [and_iff_right stops]
            have cut : ((since new old.start).clip old.stop new.stop).start <
                ((since new old.start).clip old.stop new.stop).stop := stops
            exact ih later cut
          · rename_i stops
            simp [stops]

theorem piece_of_mem_fill (ordered : Ordered list) {part : Segment α}
    (member : part ∈ fill new list) : new.Piece part := by
  induction list generalizing new with
  | nil =>
      rw [List.mem_singleton.mp member]
      exact .whole
  | cons old rest ih =>
      obtain ⟨proper, _, later⟩ := ordered_cons.mp ordered
      unfold fill at member
      split at member
      · rw [List.mem_singleton.mp member]
        exact .whole
      split at member
      · exact ih later member
      · rcases List.mem_append.mp member with front | back
        · obtain ⟨_, rfl⟩ := mem_before front
          exact .clip .whole (Int.le_refl _) (by omega)
        · split at back
          · have piece : new.Piece ((since new old.start).clip old.stop new.stop) := by
              refine .clip (.since .whole) ?_ (by simp)
              rw [since_start]
              omega
            exact piece.trans (ih later back)
          · cases back

end

section

variable [Clippable α] {new old : Segment α} {list rest : Overlay α}

theorem replace_cons_of_stop_le (before : old.stop ≤ new.start) :
    replace new (old :: rest) = old :: replace new rest := by
  simp [replace, before]

theorem replace_cons_of_le_start (ordered : Ordered (old :: rest))
    (proper : new.start < new.stop) (behind : new.stop ≤ old.start) :
    replace new (old :: rest) = new :: old :: rest := by
  have first := (ordered_cons.mp ordered).1
  have reaches : ¬old.stop ≤ new.start := by omega
  have starts : ¬old.start < new.stop := by omega
  simp [replace, reaches, starts, beforeFirst, beyondLast]

theorem beforeFirst_cons (position : Int) :
    beforeFirst (old :: list) position = before old position := rfl

theorem beyondLast_cons {position : Int} (stops : ¬position < old.stop) :
    beyondLast (old :: list) position = beyondLast list position := by
  cases list with
  | nil => simp [beyondLast, beyond, stops]
  | cons first rest => simp [beyondLast]

theorem replace_cons_of_within (ordered : Ordered (old :: rest))
    (meets : old.Meets new.start new.stop) (stops : new.stop < old.stop) :
    replace new (old :: rest) =
      before old new.start ++ new :: old.clip new.stop old.stop :: rest := by
  obtain ⟨_, above, _⟩ := ordered_cons.mp ordered
  have reaches : ¬old.stop ≤ new.start := Int.not_le.mpr meets.2
  obtain ⟨met, later⟩ : (rest.takeWhile fun segment => segment.start < new.stop) = [] ∧
      (rest.dropWhile fun segment => segment.start < new.stop) = rest := by
    refine takeWhile_of_none fun segment member => ?_
    have := above segment member
    simp
    omega
  simp [replace, reaches, meets.1, met, later, beforeFirst_cons, beyondLast, beyond, stops]

/-- Where the first segment met does not reach behind the new one, that one is put in place of what
it meets of the rest. -/
theorem replace_cons_of_over (ordered : Ordered (old :: rest))
    (meets : old.Meets new.start new.stop) (stops : ¬new.stop < old.stop) :
    replace new (old :: rest) = before old new.start ++ replace new rest := by
  obtain ⟨_, above, _⟩ := ordered_cons.mp ordered
  have reaches : ¬old.stop ≤ new.start := Int.not_le.mpr meets.2
  have beyond_start : ∀ segment ∈ rest, new.start < segment.start := by
    intro segment member
    have := above segment member
    have := meets.2
    omega
  obtain ⟨earlier, behind⟩ : (rest.takeWhile fun segment => segment.stop ≤ new.start) = [] ∧
      (rest.dropWhile fun segment => segment.stop ≤ new.start) = rest := by
    refine takeWhile_of_none fun segment member => ?_
    have := beyond_start segment member
    have := (ordered_cons.mp ordered).2.2.proper segment member
    simp
    omega
  have kept : beforeFirst (rest.takeWhile fun segment => segment.start < new.stop) new.start =
      [] := by
    refine List.eq_nil_iff_forall_not_mem.mpr fun part inside => ?_
    obtain ⟨first, member, starts, _⟩ := mem_beforeFirst inside
    have := beyond_start first ((List.takeWhile_sublist _).mem member)
    omega
  simp [replace, reaches, meets.1, earlier, behind, kept, beforeFirst_cons,
    beyondLast_cons stops]

theorem retold_refl (list : Overlay α) : List.Forall₂ Retold list list :=
  List.forall₂_same.mpr fun segment _ => .same segment

theorem retold_append {front front' back back' : Overlay α}
    (first : List.Forall₂ Retold front front') (second : List.Forall₂ Retold back back') :
    List.Forall₂ Retold (front ++ back) (front' ++ back') :=
  List.rel_append first second

/-- A segment laid over others that are not newer where it meets them is put in their place. -/
theorem retold_settle_replace (ordered : Ordered list) (proper : new.start < new.stop)
    (newest : ∀ segment ∈ list, segment.Meets new.start new.stop → segment.time ≤ new.time) :
    List.Forall₂ Retold (settle new list) (replace new list) := by
  induction list with
  | nil => exact retold_refl [new]
  | cons old rest ih =>
      obtain ⟨_, _, later⟩ := ordered_cons.mp ordered
      have further := ih later fun segment member => newest segment (by simp [member])
      unfold settle
      split
      · rw [replace_cons_of_le_start ordered proper (by assumption)]
        exact retold_refl _
      split
      · rw [replace_cons_of_stop_le (by assumption)]
        exact .cons (.same old) further
      · have meets : old.Meets new.start new.stop := ⟨by omega, by omega⟩
        rw [if_pos (newest old (by simp) meets)]
        split
        · rename_i stops
          rw [replace_cons_of_within ordered meets stops]
          refine retold_append (retold_refl _) (.cons (.same new) (.cons ?_ (retold_refl rest)))
          unfold since
          split
          · exact .again old new.start old.stop new.stop old.stop
          · exact .same _
        · rename_i stops
          rw [replace_cons_of_over ordered meets stops]
          exact retold_append (retold_refl _) further

theorem replace_of_behind (behind : ∀ segment ∈ list, segment.stop ≤ new.start) :
    replace new list = list ++ [new] := by
  have earlier : (list.takeWhile fun segment => segment.stop ≤ new.start) = list :=
    List.takeWhile_eq_self_iff.mpr (by simpa using behind)
  have later : (list.dropWhile fun segment => segment.stop ≤ new.start) = [] :=
    List.dropWhile_eq_nil_iff.mpr (by simpa using behind)
  simp [replace, earlier, later, beforeFirst, beyondLast]

/-- Appending a value and laying it over its range is the same. -/
theorem append_eq_cover (ordered : Ordered list) (start stop time : Int) (value : α) :
    append list start stop time value = cover list start stop time value := by
  rcases append_cases ordered start stop time value with same | ⟨proper, behind, same⟩
  · exact same
  · rw [same, cover, if_pos proper, replace_of_behind behind]

theorem retold_insert_cover (ordered : Ordered list) {start stop time : Int}
    (newest : ∀ segment ∈ list, segment.Meets start stop → segment.time ≤ time) (value : α) :
    List.Forall₂ Retold (insert list start stop time value)
      (cover list start stop time value) := by
  unfold insert cover
  split
  · exact retold_settle_replace ordered (by assumption) newest
  · exact retold_refl list

theorem eq_of_retold {other : Overlay α} (retold : List.Forall₂ Retold list other)
    (last : Clippable.LastCounts α) : list = other :=
  List.forall₂_eq_eq_eq ▸ retold.imp fun _ _ same => same.eq last

/-- Some segments are those of a list and one part of a value for each gap of a range, in order. -/
structure FillsGaps (list : Overlay α) (start stop time : Int) (value : α)
    (segments : Overlay α) : Prop where
  ordered : Ordered segments
  filled : ∃ added : Overlay α, segments.Perm (list ++ added) ∧
    (added.Pairwise fun part other => part.start ≠ other.start) ∧
    (∀ low high, Gap list start stop low high ↔
      ∃ part ∈ added, part.start = low ∧ part.stop = high) ∧
    ∀ part ∈ added, part.time = time ∧ Clippable.Cut value part.start part.stop part.value

/-- A value that is older than all that it meets fills the gaps of its range when it is inserted. -/
theorem fillsGaps_insert (ordered : Ordered list) {start stop time : Int} (proper : start < stop)
    (older : ∀ segment ∈ list, segment.Meets start stop → time < segment.time) (value : α) :
    FillsGaps list start stop time value (insert list start stop time value) := by
  let new : Segment α := .make start stop time value
  have settled : Ordered (settle new list) := ordered_settle ordered proper
  have perm : (settle new list).Perm (list ++ fill new list) := settle_perm_fill older
  have gaps (low high : Int) : Gap list new.start new.stop low high ↔
      ∃ part ∈ fill new list, part.start = low ∧ part.stop = high := gap_iff_fill ordered proper
  rw [insert, if_pos proper]
  refine ⟨settled, fill new list, perm, ?_, gaps, ?_⟩
  · exact (List.pairwise_append.mp (starts_ne_of_perm settled perm)).2.1
  · intro part member
    have piece := piece_of_mem_fill ordered member
    exact ⟨piece.time_eq, piece.cut (.once start stop)⟩

/-- On the list that any calls leave, appending a value to a range and laying it over the range
show the same segments. So do inserting it and laying it over the range if it is as new as all that
it meets: the same segments but for a value that is told a range more, and just the same where only
the last range counts, as it does for the visible parts of chunks and for views of chunks. If it is
older than all that it meets, inserting it changes no segment and adds one for each gap. -/
theorem policies_compared :
    (∀ (α : Type) [Clippable α] (calls : List (Call α)) (start stop time : Int) (value : α),
      start < stop → ∃ list covered inserted : Overlay α,
        LinkedOverlay.shown calls = some list ∧
        LinkedOverlay.shown (calls ++ [⟨.cover, start, stop, time, value⟩]) = some covered ∧
        LinkedOverlay.shown (calls ++ [⟨.append, start, stop, time, value⟩]) = some covered ∧
        LinkedOverlay.shown (calls ++ [⟨.insert, start, stop, time, value⟩]) = some inserted ∧
        ((∀ segment ∈ list, segment.Meets start stop → segment.time ≤ time) →
          List.Forall₂ Retold inserted covered ∧
            (Clippable.LastCounts α → inserted = covered)) ∧
        ((∀ segment ∈ list, segment.Meets start stop → time < segment.time) →
          FillsGaps list start stop time value inserted)) ∧
    Clippable.LastCounts VisibleChunk ∧ Clippable.LastCounts ChunkView := by
  refine ⟨?_, VisibleChunk.lastCounts, ChunkView.lastCounts⟩
  intro α _ calls start stop time value proper
  have ordered := ordered_run calls
  refine ⟨run calls, (run calls).cover start stop time value,
    (run calls).insert start stop time value, LinkedOverlay.shown_eq calls, ?_, ?_, ?_, ?_, ?_⟩
  · rw [LinkedOverlay.shown_eq, run_concat]
    rfl
  · rw [LinkedOverlay.shown_eq, run_concat, ← append_eq_cover ordered]
    rfl
  · rw [LinkedOverlay.shown_eq, run_concat]
    rfl
  · intro newest
    have retold := retold_insert_cover ordered newest value
    exact ⟨retold, eq_of_retold retold⟩
  · exact fun older => fillsGaps_insert ordered proper older value

/-- Two parts of chunks are visible. A third chunk over both of them is laid over its range if it
is as new as both, and fills the gap between them and the one behind if it is older than both. -/
theorem third_chunk_laid_over_two :
    let value (fileId : String) : VisibleChunk :=
      .ofChunk { fileId, offset := 0, size := 100, modified := 0 }
    let calls : List (Call VisibleChunk) :=
      [⟨.insert, 0, 10, 5, value "1,a"⟩, ⟨.insert, 20, 30, 6, value "1,b"⟩]
    (∃ covered : Overlay VisibleChunk,
      LinkedOverlay.shown (calls ++ [⟨.cover, 5, 25, 6, value "1,c"⟩]) = some covered ∧
      LinkedOverlay.shown (calls ++ [⟨.append, 5, 25, 6, value "1,c"⟩]) = some covered ∧
      LinkedOverlay.shown (calls ++ [⟨.insert, 5, 25, 6, value "1,c"⟩]) = some covered) ∧
    ∃ inserted, LinkedOverlay.shown (calls ++ [⟨.insert, 5, 40, 4, value "1,c"⟩]) = some inserted ∧
      FillsGaps (run calls) 5 40 4 (value "1,c") inserted ∧
      Gap (run calls) 5 40 10 20 ∧ Gap (run calls) 5 40 30 40 := by
  intro value calls
  have before := LinkedOverlay.shown_eq calls
  obtain ⟨compared, last, _⟩ := policies_compared
  constructor
  · obtain ⟨list, covered, inserted, shown, laid, appended, settled, newest, _⟩ :=
      compared VisibleChunk calls 5 25 6 (value "1,c") (by decide)
    obtain rfl : run calls = list := Option.some.inj (before.symm.trans shown)
    obtain rfl := (newest (by decide)).2 last
    exact ⟨inserted, laid, appended, settled⟩
  · obtain ⟨list, covered, inserted, shown, _, _, settled, _, older⟩ :=
      compared VisibleChunk calls 5 40 4 (value "1,c") (by decide)
    obtain rfl : run calls = list := Option.some.inj (before.symm.trans shown)
    let third : Segment VisibleChunk := .make 5 40 4 (value "1,c")
    have gap (low high : Int) (filled : ∃ part ∈ fill third (run calls),
        part.start = low ∧ part.stop = high) : Gap (run calls) third.start third.stop low high :=
      (gap_iff_fill (ordered_run calls) (by decide)).mpr filled
    exact ⟨inserted, settled, older (by decide), gap 10 20 (by decide), gap 30 40 (by decide)⟩

end

end Overlay

end Haystack
