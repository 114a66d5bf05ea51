import Haystack.Overlay.Basic
import Mathlib.Data.List.TakeWhile

/-!
# Order of overlays

The segments of an overlay are not empty and stop before the next one starts. So a position lies
in one segment at most, and an overlay is told by the segment at each position. Laying a segment
over an overlay, in either way, keeps the order.
-/

namespace Haystack

namespace Segment

variable {α : Type}

/-- Whether a position lies in the range of a segment. -/
def covers (segment : Segment α) (position : Int) : Bool :=
  segment.start ≤ position && position < segment.stop

@[simp] theorem covers_iff (segment : Segment α) (position : Int) :
    segment.covers position = true ↔ segment.start ≤ position ∧ position < segment.stop := by
  simp [covers]

@[simp] theorem covers_eq_false_iff (segment : Segment α) (position : Int) :
    segment.covers position = false ↔
      ¬(segment.start ≤ position ∧ position < segment.stop) := by
  rw [← covers_iff, Bool.not_eq_true]

theorem not_covers_of_lt {segment : Segment α} {position : Int} (h : position < segment.start) :
    ¬segment.covers position = true := by
  rw [covers_iff]
  omega

theorem not_covers_of_le {segment : Segment α} {position : Int} (h : segment.stop ≤ position) :
    ¬segment.covers position = true := by
  rw [covers_iff]
  omega

variable [Clippable α]

@[simp] theorem make_start (start stop time : Int) (value : α) :
    (make start stop time value).start = start := rfl

@[simp] theorem make_stop (start stop time : Int) (value : α) :
    (make start stop time value).stop = stop := rfl

@[simp] theorem make_time (start stop time : Int) (value : α) :
    (make start stop time value).time = time := rfl

@[simp] theorem make_value (start stop time : Int) (value : α) :
    (make start stop time value).value = Clippable.clip value start stop := rfl

@[simp] theorem clip_start (segment : Segment α) (start stop : Int) :
    (segment.clip start stop).start = start := rfl

@[simp] theorem clip_stop (segment : Segment α) (start stop : Int) :
    (segment.clip start stop).stop = stop := rfl

@[simp] theorem clip_time (segment : Segment α) (start stop : Int) :
    (segment.clip start stop).time = segment.time := rfl

end Segment

namespace Overlay

section
variable {α : Type}

/-- Segments are not empty, and each one stops before the next one starts. -/
structure Ordered (list : Overlay α) : Prop where
  proper : ∀ segment ∈ list, segment.start < segment.stop
  apart : list.Pairwise fun segment next => segment.stop ≤ next.start

/-- The segment that a position lies in. -/
def at? (list : Overlay α) (position : Int) : Option (Segment α) :=
  list.find? fun segment => segment.covers position

theorem ordered_nil : Ordered ([] : Overlay α) :=
  ⟨by simp, .nil⟩

theorem ordered_cons {segment : Segment α} {rest : Overlay α} :
    Ordered (segment :: rest) ↔ segment.start < segment.stop ∧
      (∀ next ∈ rest, segment.stop ≤ next.start) ∧ Ordered rest := by
  constructor
  · rintro ⟨proper, apart⟩
    rw [List.pairwise_cons] at apart
    exact ⟨proper segment (by simp), apart.1,
      fun next member => proper next (by simp [member]), apart.2⟩
  · rintro ⟨first, behind, proper, apart⟩
    refine ⟨?_, List.pairwise_cons.mpr ⟨behind, apart⟩⟩
    intro next member
    rcases List.mem_cons.mp member with rfl | member
    · exact first
    · exact proper next member

theorem ordered_append {front back : Overlay α} :
    Ordered (front ++ back) ↔ Ordered front ∧ Ordered back ∧
      ∀ segment ∈ front, ∀ next ∈ back, segment.stop ≤ next.start := by
  constructor
  · rintro ⟨proper, apart⟩
    obtain ⟨first, second, between⟩ := List.pairwise_append.mp apart
    exact ⟨⟨fun segment member => proper segment (by simp [member]), first⟩,
      ⟨fun segment member => proper segment (by simp [member]), second⟩, between⟩
  · rintro ⟨⟨proper, first⟩, ⟨proper', second⟩, between⟩
    refine ⟨?_, List.pairwise_append.mpr ⟨first, second, between⟩⟩
    intro segment member
    rcases List.mem_append.mp member with member | member
    · exact proper segment member
    · exact proper' segment member

@[simp] theorem at?_nil (position : Int) : at? ([] : Overlay α) position = none := rfl

theorem at?_cons (segment : Segment α) (rest : Overlay α) (position : Int) :
    at? (segment :: rest) position =
      if segment.covers position then some segment else at? rest position := by
  simp only [at?, List.find?_cons]
  cases segment.covers position <;> rfl

theorem at?_append (front back : Overlay α) (position : Int) :
    at? (front ++ back) position = (at? front position).or (at? back position) :=
  List.find?_append

theorem at?_eq_none_of_before {list : Overlay α} {low position : Int}
    (above : ∀ segment ∈ list, low ≤ segment.start) (h : position < low) :
    at? list position = none := by
  simp only [at?, List.find?_eq_none, Segment.covers_iff]
  intro segment member
  have := above segment member
  omega

theorem at?_eq_none_of_behind {list : Overlay α} {high position : Int}
    (below : ∀ segment ∈ list, segment.stop ≤ high) (h : high ≤ position) :
    at? list position = none := by
  simp only [at?, List.find?_eq_none, Segment.covers_iff]
  intro segment member
  have := below segment member
  omega

theorem mem_of_at? {list : Overlay α} {position : Int} {segment : Segment α}
    (h : at? list position = some segment) : segment ∈ list :=
  List.mem_of_find?_eq_some h

/-- A position lies in one segment at most. -/
theorem filter_covers {list : Overlay α} (ordered : Ordered list) (position : Int) :
    (list.filter fun segment => segment.covers position) = (at? list position).toList := by
  induction list with
  | nil => rfl
  | cons segment rest ih =>
      obtain ⟨_, behind, ordered⟩ := ordered_cons.mp ordered
      rw [at?_cons, List.filter_cons]
      split
      · rename_i inside
        have none : at? rest position = none :=
          at?_eq_none_of_before behind (by simp at inside; omega)
        rw [ih ordered, none]
        rfl
      · exact ih ordered

theorem covers_of_at? {list : Overlay α} {position : Int} {segment : Segment α}
    (found : at? list position = some segment) :
    segment.start ≤ position ∧ position < segment.stop := by
  have inside := List.find?_some found
  exact (Segment.covers_iff segment position).mp inside

theorem at?_of_covers {list : Overlay α} (ordered : Ordered list) {segment : Segment α}
    (member : segment ∈ list) {position : Int} (low : segment.start ≤ position)
    (high : position < segment.stop) : at? list position = some segment := by
  have inside : segment ∈ list.filter fun other => other.covers position :=
    List.mem_filter.mpr ⟨member, (Segment.covers_iff segment position).mpr ⟨low, high⟩⟩
  rwa [filter_covers ordered, Option.mem_toList] at inside

theorem at?_start {list : Overlay α} (ordered : Ordered list) {segment : Segment α}
    (member : segment ∈ list) : at? list segment.start = some segment :=
  at?_of_covers ordered member (Int.le_refl _) (ordered.proper segment member)

theorem Ordered.stop_le_of_getLast? {list : Overlay α} (ordered : Ordered list)
    {last : Segment α} (h : list.getLast? = some last) :
    ∀ segment ∈ list, segment.stop ≤ last.stop := by
  obtain ⟨front, rfl⟩ := List.getLast?_eq_some_iff.mp h
  obtain ⟨_, single, between⟩ := ordered_append.mp ordered
  intro segment member
  rcases List.mem_append.mp member with member | member
  · have := between segment member last (by simp)
    have := single.proper last (by simp)
    omega
  · have same := List.mem_singleton.mp member
    subst same
    exact Int.le_refl _

theorem ordered_singleton {segment : Segment α} (h : segment.start < segment.stop) :
    Ordered [segment] :=
  ordered_cons.mpr ⟨h, by simp, ordered_nil⟩

theorem lt_stop_of_mem_dropWhile {list : Overlay α} (ordered : Ordered list) {position : Int}
    {segment : Segment α}
    (member : segment ∈ list.dropWhile fun segment => segment.stop ≤ position) :
    position < segment.stop := by
  induction list with
  | nil => cases member
  | cons first rest ih =>
      obtain ⟨_, behind, later⟩ := ordered_cons.mp ordered
      rw [List.dropWhile_cons] at member
      split at member
      · exact ih later member
      · rename_i reaches
        rw [decide_eq_true_iff] at reaches
        rcases List.mem_cons.mp member with rfl | member
        · omega
        · have := behind segment member
          have := later.proper segment member
          omega

theorem le_start_of_mem_dropWhile {list : Overlay α} (ordered : Ordered list) {position : Int}
    {segment : Segment α}
    (member : segment ∈ list.dropWhile fun segment => segment.start < position) :
    position ≤ segment.start := by
  induction list with
  | nil => cases member
  | cons first rest ih =>
      obtain ⟨proper, behind, later⟩ := ordered_cons.mp ordered
      rw [List.dropWhile_cons] at member
      split at member
      · exact ih later member
      · rename_i reaches
        rw [decide_eq_true_iff] at reaches
        rcases List.mem_cons.mp member with rfl | member
        · omega
        · have := behind segment member
          omega

end

section
variable {α : Type} [Clippable α]

theorem mem_before {segment part : Segment α} {position : Int}
    (h : part ∈ before segment position) :
    segment.start < position ∧ part = segment.clip segment.start position := by
  unfold before at h
  split at h
  · rename_i starts
    exact ⟨starts, List.mem_singleton.mp h⟩
  · cases h

theorem mem_beyond {segment part : Segment α} {position : Int}
    (h : part ∈ beyond segment position) :
    position < segment.stop ∧ part = segment.clip position segment.stop := by
  unfold beyond at h
  split at h
  · rename_i stops
    exact ⟨stops, List.mem_singleton.mp h⟩
  · cases h

@[simp] theorem since_stop (segment : Segment α) (position : Int) :
    (since segment position).stop = segment.stop := by
  unfold since
  split <;> rfl

@[simp] theorem since_time (segment : Segment α) (position : Int) :
    (since segment position).time = segment.time := by
  unfold since
  split <;> rfl

theorem ordered_before (segment : Segment α) (position : Int) :
    Ordered (before segment position) := by
  unfold before
  split
  · exact ordered_singleton ‹_›
  · exact ordered_nil

theorem ordered_beyond (segment : Segment α) (position : Int) :
    Ordered (beyond segment position) := by
  unfold beyond
  split
  · exact ordered_singleton ‹_›
  · exact ordered_nil

/-- Where no segment starts before a bound, none does after laying over a segment that does not
start before it either. -/
theorem le_start_settle {new : Segment α} {list : Overlay α} {low : Int}
    (above : ∀ segment ∈ list, low ≤ segment.start) (h : low ≤ new.start)
    (ordered : Ordered list) : ∀ segment ∈ settle new list, low ≤ segment.start := by
  induction list generalizing new with
  | nil =>
      intro segment member
      rw [List.mem_singleton.mp member]
      exact h
  | cons old rest ih =>
      obtain ⟨proper, behind, ordered⟩ := ordered_cons.mp ordered
      have first := above old (by simp)
      have later : ∀ segment ∈ rest, low ≤ segment.start := fun segment member =>
        above segment (by simp [member])
      intro segment member
      unfold settle at member
      split at member
      · rcases List.mem_cons.mp member with rfl | member
        · exact h
        · exact above segment member
      split at member
      · rcases List.mem_cons.mp member with rfl | member
        · exact first
        · exact ih later h ordered segment member
      split at member
      · rcases List.mem_append.mp member with member | member
        · rw [(mem_before member).2]
          exact first
        split at member
        · simp only [List.mem_cons] at member
          rcases member with rfl | rfl | member
          · exact h
          · simp only [Segment.clip_start]
            omega
          · exact later segment member
        · exact ih later h ordered segment member
      · rcases List.mem_append.mp member with member | member
        · rw [(mem_before member).2]
          exact h
        rcases List.mem_cons.mp member with rfl | member
        · exact first
        split at member
        · exact ih later (by simp only [Segment.clip_start]; omega) ordered segment member
        · exact later segment member

/-- The order where a new segment meets one that is not newer. -/
theorem ordered_over {new old : Segment α} {rest later : Overlay α}
    (ordered : Ordered (old :: rest)) (proper : new.start < new.stop) (settled : Ordered later)
    (above : ∀ next ∈ later, new.start ≤ next.start) :
    Ordered (before old new.start ++ if new.stop < old.stop then
      new :: (since old new.start).clip new.stop old.stop :: rest else later) := by
  obtain ⟨_, behind, rest_ordered⟩ := ordered_cons.mp ordered
  refine ordered_append.mpr ⟨ordered_before old new.start, ?_, ?_⟩
  · split
    · refine ordered_cons.mpr ⟨proper, ?_, ordered_cons.mpr
        ⟨by assumption, behind, rest_ordered⟩⟩
      intro next member
      rcases List.mem_cons.mp member with rfl | member
      · exact Int.le_refl _
      · have := behind next member
        omega
    · exact settled
  · intro segment member next
    rw [(mem_before member).2, Segment.clip_stop]
    split
    · intro inside
      simp only [List.mem_cons] at inside
      rcases inside with rfl | rfl | inside
      · exact Int.le_refl _
      · exact Int.le_of_lt proper
      · have := behind next inside
        omega
    · exact above next

/-- The order where a new segment meets a newer one. -/
theorem ordered_under {new old : Segment α} {rest later : Overlay α}
    (ordered : Ordered (old :: rest)) (settled : old.stop < new.stop → Ordered later)
    (above : ∀ next ∈ later, old.stop ≤ next.start) :
    Ordered (before new old.start ++ old :: if old.stop < new.stop then later else rest) := by
  obtain ⟨first, behind, rest_ordered⟩ := ordered_cons.mp ordered
  have from_old : Ordered (old :: if old.stop < new.stop then later else rest) := by
    refine ordered_cons.mpr ⟨first, ?_, ?_⟩
    · split
      · exact above
      · exact behind
    · split
      · exact settled (by assumption)
      · exact rest_ordered
  refine ordered_append.mpr ⟨ordered_before new old.start, from_old, ?_⟩
  intro segment member next inside
  rw [(mem_before member).2, Segment.clip_stop]
  rcases List.mem_cons.mp inside with rfl | inside
  · exact Int.le_refl _
  · have := (ordered_cons.mp from_old).2.1 next inside
    omega

/-- Laying a segment over an overlay where it is at least as new keeps the order. -/
theorem ordered_settle {new : Segment α} {list : Overlay α} (ordered : Ordered list)
    (proper : new.start < new.stop) : Ordered (settle new list) := by
  induction list generalizing new with
  | nil => exact ordered_singleton proper
  | cons old rest ih =>
      obtain ⟨first, behind, later⟩ := ordered_cons.mp ordered
      unfold settle
      split
      · refine ordered_cons.mpr ⟨proper, ?_, ordered⟩
        intro next member
        rcases List.mem_cons.mp member with rfl | member
        · assumption
        · have := behind next member
          omega
      split
      · exact ordered_cons.mpr
          ⟨first, le_start_settle behind (by assumption) later, ih later proper⟩
      split
      · refine ordered_over ordered proper (ih later proper) ?_
        refine le_start_settle ?_ (Int.le_refl _) later
        intro next inside
        have := behind next inside
        omega
      · exact ordered_under ordered (fun stops => ih later stops)
          (le_start_settle behind (Int.le_refl _) later)

theorem mem_beforeFirst {list : Overlay α} {part : Segment α} {position : Int}
    (h : part ∈ beforeFirst list position) :
    ∃ first ∈ list, first.start < position ∧ part = first.clip first.start position := by
  unfold beforeFirst at h
  split at h
  · cases h
  · rename_i first found
    exact ⟨first, List.mem_of_mem_head? found, mem_before h⟩

theorem mem_beyondLast {list : Overlay α} {part : Segment α} {position : Int}
    (h : part ∈ beyondLast list position) :
    ∃ last ∈ list, position < last.stop ∧ part = last.clip position last.stop := by
  unfold beyondLast at h
  split at h
  · cases h
  · rename_i last found
    exact ⟨last, List.mem_of_getLast? found, mem_beyond h⟩

theorem ordered_beforeFirst (list : Overlay α) (position : Int) :
    Ordered (beforeFirst list position) := by
  unfold beforeFirst
  split
  · exact ordered_nil
  · exact ordered_before _ position

theorem ordered_beyondLast (list : Overlay α) (position : Int) :
    Ordered (beyondLast list position) := by
  unfold beyondLast
  split
  · exact ordered_nil
  · exact ordered_beyond _ position

/-- A segment that is put in place of others divides an overlay into what lies before it, what it
meets and what lies behind it. -/
theorem replace_parts (new : Segment α) {list : Overlay α} (ordered : Ordered list) :
    ∃ earlier met later : Overlay α, list = earlier ++ (met ++ later) ∧
      replace new list =
        earlier ++ (beforeFirst met new.start ++ new :: (beyondLast met new.stop ++ later)) ∧
      (∀ segment ∈ earlier, segment.stop ≤ new.start) ∧
      (∀ segment ∈ met, new.start < segment.stop ∧ segment.start < new.stop) ∧
      ∀ segment ∈ later, new.stop ≤ segment.start := by
  let rest := list.dropWhile fun segment => segment.stop ≤ new.start
  have split : list = (list.takeWhile fun segment => segment.stop ≤ new.start) ++ rest :=
    List.takeWhile_append_dropWhile.symm
  have rest_ordered : Ordered rest := by
    rw [split] at ordered
    exact (ordered_append.mp ordered).2.1
  refine ⟨list.takeWhile fun segment => segment.stop ≤ new.start,
    rest.takeWhile fun segment => segment.start < new.stop,
    rest.dropWhile fun segment => segment.start < new.stop, ?_, ?_, ?_, ?_, ?_⟩
  · rw [List.takeWhile_append_dropWhile, ← split]
  · simp only [replace, rest, List.append_assoc, List.cons_append]
  · intro segment member
    simpa using List.mem_takeWhile_imp member
  · intro segment member
    exact ⟨lt_stop_of_mem_dropWhile ordered ((List.takeWhile_sublist _).mem member),
      by simpa using List.mem_takeWhile_imp member⟩
  · intro segment member
    exact le_start_of_mem_dropWhile rest_ordered member

/-- Putting a segment in place of others keeps the order. -/
theorem ordered_replace {new : Segment α} {list : Overlay α} (ordered : Ordered list)
    (proper : new.start < new.stop) : Ordered (replace new list) := by
  obtain ⟨earlier, met, later, whole, result, low, middle, high⟩ := replace_parts new ordered
  rw [whole] at ordered
  obtain ⟨front, back, between⟩ := ordered_append.mp ordered
  obtain ⟨_, later_ordered, above⟩ := ordered_append.mp back
  have behind : Ordered (beyondLast met new.stop ++ later) := by
    refine ordered_append.mpr ⟨ordered_beyondLast met new.stop, later_ordered, ?_⟩
    intro segment member next inside
    obtain ⟨last, last_met, _, rfl⟩ := mem_beyondLast member
    exact above last last_met next inside
  have from_new : Ordered (new :: (beyondLast met new.stop ++ later)) := by
    refine ordered_cons.mpr ⟨proper, ?_, behind⟩
    intro next member
    rcases List.mem_append.mp member with member | member
    · obtain ⟨last, _, _, rfl⟩ := mem_beyondLast member
      exact Int.le_refl _
    · exact high next member
  have bound : ∀ next ∈ new :: (beyondLast met new.stop ++ later), new.start ≤ next.start := by
    intro next member
    rcases List.mem_cons.mp member with rfl | member
    · exact Int.le_refl _
    · have := (ordered_cons.mp from_new).2.1 next member
      omega
  rw [result]
  refine ordered_append.mpr ⟨front, ordered_append.mpr
    ⟨ordered_beforeFirst met new.start, from_new, ?_⟩, ?_⟩
  · intro segment member next inside
    obtain ⟨first, _, _, rfl⟩ := mem_beforeFirst member
    exact bound next inside
  · intro segment member next inside
    rcases List.mem_append.mp inside with inside | inside
    · obtain ⟨first, first_met, _, rfl⟩ := mem_beforeFirst inside
      exact between segment member first (by simp [first_met])
    · have := low segment member
      have := bound next inside
      omega

end

end Overlay

end Haystack
