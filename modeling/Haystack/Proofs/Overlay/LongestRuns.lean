import Haystack.Proofs.Overlay.Linked
import Haystack.Proofs.Overlay.Runs
import Haystack.Proofs.Overlay.Values
import Mathlib.Data.List.Perm.Subperm

/-!
# Segments as longest runs of a call

Whatever calls are made, the segments that they leave are the longest ranges of positions that the
reference gives to one call. For the proof each value is given the number of its call. Cutting keeps
the number, and no segment has the number of a call that comes later, so that no two segments that
touch have the same number. Where a range ends the reference changes, which it does only where a
call starts or stops. So there are fewer segments than ends of calls.
-/

namespace Haystack.Overlay

open Segment

/-- The number of the call that is seen at a position. -/
def wonBy {α : Type} (calls : List (Call α)) (position : Int) : Option Nat :=
  (reference calls position).map Prod.snd

/-- A longest range of positions that show a call. -/
structure LongestRun (shown : Int → Option Nat) (number : Nat) (start stop : Int) : Prop where
  proper : start < stop
  inside : ∀ position, start ≤ position → position < stop → shown position = some number
  before : shown (start - 1) ≠ some number
  behind : shown stop ≠ some number

/-- A position where some call starts or stops that is not empty. -/
def IsEnd {α : Type} (calls : List (Call α)) (position : Int) : Prop :=
  ∃ call ∈ calls, call.start < call.stop ∧ (position = call.start ∨ position = call.stop)

section

variable {α β : Type} [Clippable α] {label : Segment α → β}

/-- What the first of some segments has before a position stands where that segment did. -/
theorem parted_beforeFirst (lasting : Lasting label) {earlier met : Overlay α} {position : Int}
    (parted : Parted label (earlier ++ met)) :
    Parted label (earlier ++ beforeFirst met position) := by
  obtain ⟨front, _, between⟩ := List.pairwise_append.mp parted
  refine List.pairwise_append.mpr ⟨front, ?_, ?_⟩
  · unfold beforeFirst before
    split
    · exact .nil
    · split
      · exact List.pairwise_singleton ..
      · exact .nil
  · intro segment member part inside touches
    obtain ⟨first, present, _, rfl⟩ := mem_beforeFirst inside
    rw [lasting]
    exact between segment member first present touches

/-- What the last of some segments has from a position on stops where that segment did. -/
theorem parted_beyondLast (lasting : Lasting label) {met later : Overlay α} {position : Int}
    (parted : Parted label (met ++ later)) :
    Parted label (beyondLast met position ++ later) := by
  obtain ⟨_, back, between⟩ := List.pairwise_append.mp parted
  refine List.pairwise_append.mpr ⟨?_, back, ?_⟩
  · unfold beyondLast beyond
    split
    · exact .nil
    · split
      · exact List.pairwise_singleton ..
      · exact .nil
  · intro part inside segment member touches
    obtain ⟨last, present, _, rfl⟩ := mem_beyondLast inside
    rw [lasting]
    exact between last present segment member touches

/-- A segment with a label of its own that is put in place of others leaves an overlay parted. -/
theorem parted_replace (lasting : Lasting label) {new : Segment α} {list : Overlay α}
    (ordered : Ordered list) (parted : Parted label list) (proper : new.start < new.stop)
    (fresh : ∀ segment ∈ list, label segment ≠ label new) : Parted label (replace new list) := by
  obtain ⟨earlier, met, later, whole, result, low, _, high⟩ := replace_parts new ordered
  rw [whole] at parted fresh
  have front : Parted label (earlier ++ beforeFirst met new.start) := by
    rw [← List.append_assoc] at parted
    exact parted_beforeFirst lasting (List.pairwise_append.mp parted).1
  have back : Parted label (beyondLast met new.stop ++ later) :=
    parted_beyondLast lasting (List.pairwise_append.mp parted).2.1
  have before : ∀ segment ∈ earlier ++ beforeFirst met new.start,
      segment.stop ≤ new.start ∧ label segment ≠ label new := by
    intro segment member
    rcases List.mem_append.mp member with member | member
    · exact ⟨low segment member, fresh segment (by simp [member])⟩
    · obtain ⟨first, present, _, rfl⟩ := mem_beforeFirst member
      refine ⟨Int.le_refl _, ?_⟩
      rw [lasting]
      exact fresh first (by simp [present])
  have behind : ∀ segment ∈ beyondLast met new.stop ++ later,
      new.stop ≤ segment.start ∧ label segment ≠ label new := by
    intro segment member
    rcases List.mem_append.mp member with member | member
    · obtain ⟨last, present, _, rfl⟩ := mem_beyondLast member
      refine ⟨Int.le_refl _, ?_⟩
      rw [lasting]
      exact fresh last (by simp [present])
    · exact ⟨high segment member, fresh segment (by simp [member])⟩
  rw [result, ← List.append_assoc]
  refine List.pairwise_append.mpr ⟨front, List.pairwise_cons.mpr ⟨?_, back⟩, ?_⟩
  · intro segment member _
    exact (behind segment member).2.symm
  · intro segment member next inside touches
    rcases List.mem_cons.mp inside with rfl | inside
    · exact (before segment member).2
    · have := (before segment member).1
      have := (behind next inside).1
      omega

/-- A call with a label of its own leaves an overlay parted. -/
theorem parted_apply (lasting : Lasting label) {list : Overlay α} (ordered : Ordered list)
    (parted : Parted label list) (call : Call α)
    (fresh : ∀ segment ∈ list, label segment ≠ label call.segment) :
    Parted label (call.apply list) := by
  have covered : Parted label (list.cover call.start call.stop call.time call.value) := by
    unfold cover
    split
    · exact parted_replace lasting ordered parted (by assumption) fresh
    · exact parted
  unfold Call.apply
  cases call.policy with
  | insert => exact parted_insert lasting ordered parted fun _ => fresh
  | cover => exact covered
  | append =>
      rcases append_cases ordered call.start call.stop call.time call.value with
        same | ⟨_, _, same⟩
      · rwa [same]
      · rw [same]
        refine List.pairwise_append.mpr ⟨parted, List.pairwise_singleton .., ?_⟩
        intro segment member next last _
        rw [List.mem_singleton.mp last]
        exact fresh segment member

end

/-- A value with a number. -/
structure Numbered (α : Type) where
  value : α
  number : Nat
  deriving DecidableEq, Repr

namespace Numbered

variable {α : Type}

/-- The calls with their own numbers in their values. -/
def calls (calls : List (Call α)) : List (Call (Numbered α)) :=
  calls.zipIdx.map fun call => call.1.map fun value => { value, number := call.2 }

/-- The number in the value of a segment. -/
def label (segment : Segment (Numbered α)) : Nat :=
  segment.value.number

theorem calls_concat (earlier : List (Call α)) (call : Call α) :
    calls (earlier ++ [call]) =
      calls earlier ++ [call.map fun value => { value, number := earlier.length }] := by
  simp [calls, List.zipIdx_append]

@[simp] theorem length_calls (earlier : List (Call α)) :
    (calls earlier).length = earlier.length := by
  simp [calls]

theorem map_value_calls (earlier : List (Call α)) :
    (calls earlier).map (Call.map value) = earlier := by
  induction earlier using List.reverseRecOn with
  | nil => rfl
  | append_singleton earlier call ih =>
      rw [calls_concat, List.map_append, ih]
      rfl

theorem getElem?_calls (earlier : List (Call α)) (place : Nat) :
    (calls earlier)[place]? =
      earlier[place]?.map (Call.map fun value => { value, number := place }) := by
  simp [calls, List.getElem?_zipIdx, Function.comp_def]

theorem reference_calls (earlier : List (Call α)) :
    reference (calls earlier) = reference earlier := by
  rw [← reference_map (f := value), map_value_calls]

variable [Clippable α]

instance : Clippable (Numbered α) :=
  ⟨fun numbered start stop =>
    { numbered with value := Clippable.clip numbered.value start stop }⟩

theorem natural_value : Clippable.Natural (value : Numbered α → α) := fun _ _ _ => rfl

theorem lasting_label : Lasting (label : Segment (Numbered α) → Nat) := fun _ _ _ => rfl

theorem map_run_calls (earlier : List (Call α)) :
    (run (calls earlier)).map (Segment.map value) = run earlier := by
  rw [map_run natural_value, map_value_calls]

/-- The number in what is seen at a position is that of the call that the reference names. -/
theorem labelAt?_run (earlier : List (Call α)) :
    labelAt? label (run (calls earlier)) = wonBy earlier := by
  funext position
  have shows := shows_run (calls earlier) position
  rw [reference_calls] at shows
  unfold labelAt? wonBy
  revert shows
  generalize reference earlier position = mark, (run (calls earlier)).at? position = seen
  intro shows
  cases shows with
  | none => rfl
  | @some mark segment shows =>
      obtain ⟨_, call, found, piece⟩ := shows
      rw [getElem?_calls] at found
      obtain ⟨original, _, rfl⟩ := Option.map_eq_some_iff.mp found
      exact congrArg some (lasting_label.piece piece)

theorem label_lt {earlier : List (Call α)} {segment : Segment (Numbered α)}
    (member : segment ∈ run (calls earlier)) : label segment < earlier.length := by
  obtain ⟨call, present, piece⟩ := exists_piece_of_mem_run member
  obtain ⟨place, found⟩ := List.mem_iff_getElem?.mp present
  have bound := (List.getElem?_eq_some_iff.mp found).1
  rw [length_calls] at bound
  rw [getElem?_calls] at found
  obtain ⟨original, _, rfl⟩ := Option.map_eq_some_iff.mp found
  rw [lasting_label.piece piece]
  exact bound

theorem parted_run (earlier : List (Call α)) : Parted label (run (calls earlier)) := by
  induction earlier using List.reverseRecOn with
  | nil => exact .nil
  | append_singleton earlier call ih =>
      rw [calls_concat, run_concat]
      refine parted_apply lasting_label (ordered_run (calls earlier)) ih _ ?_
      intro segment member
      exact Nat.ne_of_lt (label_lt member)

end Numbered

section

variable {α : Type}

theorem LongestRun.unique {shown : Int → Option Nat} {number : Nat} {start stop low high : Int}
    (longest : LongestRun shown number start stop) (again : LongestRun shown number low high)
    (from_low : low ≤ start) (below_high : start < high) : low = start ∧ high = stop := by
  let segment (start stop : Int) : Segment Unit := { start, stop, time := 0, value := () }
  have first : Run shown (fun _ => number) (segment start stop) :=
    ⟨longest.inside, longest.before, longest.behind⟩
  have second : Run shown (fun _ => number) (segment low high) :=
    ⟨again.inside, again.before, again.behind⟩
  exact (first.range_eq second from_low below_high longest.proper).2

/-- Where no call starts or stops the same is seen as just before. -/
theorem reference_pred {calls : List (Call α)} {position : Int} (h : ¬IsEnd calls position) :
    reference calls (position - 1) = reference calls position := by
  induction calls using List.reverseRecOn with
  | nil => rfl
  | append_singleton calls call ih =>
      have earlier := ih fun ⟨other, member, isEnd⟩ => h ⟨other, by simp [member], isEnd⟩
      have same : call.start ≤ position - 1 ∧ position - 1 < call.stop ↔
          call.start ≤ position ∧ position < call.stop := by
        by_cases proper : call.start < call.stop
        · have apart : ¬(position = call.start ∨ position = call.stop) := fun isEnd =>
            h ⟨call, by simp, proper, isEnd⟩
          omega
        · omega
      rw [reference_concat]
      unfold Call.mark
      simp only [same, earlier]

theorem isEnd_of_wonBy_ne {calls : List (Call α)} {position : Int}
    (h : wonBy calls (position - 1) ≠ wonBy calls position) : IsEnd calls position := by
  by_contra inner
  exact h (congrArg (Option.map Prod.snd) (reference_pred inner))

theorem LongestRun.isEnd_start {calls : List (Call α)} {number : Nat} {start stop : Int}
    (longest : LongestRun (wonBy calls) number start stop) : IsEnd calls start := by
  refine isEnd_of_wonBy_ne ?_
  rw [longest.inside start (Int.le_refl _) longest.proper]
  exact longest.before

theorem LongestRun.isEnd_stop {calls : List (Call α)} {number : Nat} {start stop : Int}
    (longest : LongestRun (wonBy calls) number start stop) : IsEnd calls stop := by
  refine isEnd_of_wonBy_ne ?_
  rw [longest.inside (stop - 1) (by have := longest.proper; omega) (by omega)]
  exact longest.behind.symm

/-- The calls that are not empty. -/
def properCalls (calls : List (Call α)) : List (Call α) :=
  calls.filter fun call => call.start < call.stop

/-- The starts and stops of the calls that are not empty. -/
def ends (calls : List (Call α)) : List Int :=
  (properCalls calls).flatMap fun call => [call.start, call.stop]

theorem length_ends (calls : List (Call α)) :
    (ends calls).length = 2 * (properCalls calls).length := by
  unfold ends
  rw [List.length_flatMap]
  simp [Nat.mul_comm]

theorem mem_ends {calls : List (Call α)} {position : Int} (h : IsEnd calls position) :
    position ∈ ends calls := by
  obtain ⟨call, member, proper, isEnd⟩ := h
  refine List.mem_flatMap.mpr ⟨call, List.mem_filter.mpr ⟨member, by simpa using proper⟩, ?_⟩
  simpa using isEnd

/-- The starts of all segments and the stop of the last one differ. -/
theorem nodup_starts {list : Overlay α} {last : Segment α} (ordered : Ordered (list ++ [last])) :
    ((list ++ [last]).map Segment.start ++ [last.stop]).Nodup := by
  have rising : ((list ++ [last]).map Segment.start ++ [last.stop]).Pairwise (· < ·) := by
    refine List.pairwise_append.mpr ⟨List.pairwise_map.mpr ?_, List.pairwise_singleton .., ?_⟩
    · refine ordered.apart.imp_of_mem ?_
      intro segment next member _ apart
      have := ordered.proper segment member
      omega
    · intro start member stop only
      obtain ⟨segment, inside, rfl⟩ := List.mem_map.mp member
      have := ordered.proper segment inside
      have := ordered.stop_le_of_getLast? List.getLast?_concat segment inside
      rw [List.mem_singleton.mp only]
      omega
  exact rising.imp fun less => Int.ne_of_lt less

/-- Segments in order that all start and stop where calls do are fewer than these ends. -/
theorem length_le_properCalls {calls : List (Call α)} {list : Overlay α} (ordered : Ordered list)
    (bounded : ∀ segment ∈ list, IsEnd calls segment.start ∧ IsEnd calls segment.stop) :
    list.length ≤ 2 * (properCalls calls).length - 1 := by
  rcases List.eq_nil_or_concat' list with rfl | ⟨front, last, rfl⟩
  · exact Nat.zero_le _
  · have among : ((front ++ [last]).map Segment.start ++ [last.stop]) ⊆ ends calls := by
      intro position member
      rcases List.mem_append.mp member with start | stop
      · obtain ⟨segment, inside, rfl⟩ := List.mem_map.mp start
        exact mem_ends (bounded segment inside).1
      · rw [List.mem_singleton.mp stop]
        exact mem_ends (bounded last (by simp)).2
    have fits := (List.subperm_of_subset (nodup_starts ordered) among).length_le
    rw [length_ends, List.length_append, List.length_map, List.length_singleton] at fits
    omega

end

section

variable {α : Type} [Clippable α] {calls : List (Call α)}

/-- A segment is a longest run of a call, and a piece of the segment of that call. -/
theorem longestRun_of_mem {segment : Segment α} (member : segment ∈ run calls) :
    ∃ number, LongestRun (wonBy calls) number segment.start segment.stop ∧
      ∃ call, calls[number]? = some call ∧ call.segment.Piece segment := by
  have proper := (ordered_run calls).proper segment member
  have seen := at?_start (ordered_run calls) member
  obtain ⟨numbered, inside, rfl⟩ : ∃ numbered ∈ run (Numbered.calls calls),
      numbered.map Numbered.value = segment := by
    rwa [← Numbered.map_run_calls, List.mem_map] at member
  have longest := run_of_mem (ordered_run _) (Numbered.parted_run calls) inside
  rw [Numbered.labelAt?_run] at longest
  refine ⟨Numbered.label numbered,
    ⟨proper, longest.inside, longest.before, longest.behind⟩, ?_⟩
  obtain ⟨mark, marked, number⟩ :=
    Option.map_eq_some_iff.mp (longest.inside numbered.start (Int.le_refl _) proper)
  have shows := shows_run calls (numbered.map Numbered.value).start
  rw [seen] at shows
  change (reference calls numbered.start).Rel _ _ at shows
  rw [marked] at shows
  cases shows with
  | some shows =>
      obtain ⟨_, call, found, piece⟩ := shows
      rw [number] at found
      exact ⟨call, found, piece⟩

/-- Every longest run of a call is the range of a segment. -/
theorem mem_of_longestRun {number : Nat} {start stop : Int}
    (longest : LongestRun (wonBy calls) number start stop) :
    ∃ segment ∈ run calls, segment.start = start ∧ segment.stop = stop := by
  have won := longest.inside start (Int.le_refl _) longest.proper
  obtain ⟨mark, marked, _⟩ := Option.map_eq_some_iff.mp won
  have shows := shows_run calls start
  rw [marked] at shows
  cases seen : (run calls).at? start with
  | none => simp [seen] at shows
  | some segment =>
      have covers := covers_of_at? seen
      obtain ⟨other, again, _⟩ := longestRun_of_mem (mem_of_at? seen)
      have same := again.inside start covers.1 covers.2
      rw [won] at same
      rw [← Option.some.inj same] at again
      exact ⟨segment, mem_of_at? seen, longest.unique again covers.1 covers.2⟩

theorem parted_run (calls : List (Call α)) :
    Parted (fun segment => wonBy calls segment.start) (run calls) := by
  refine (ordered_run calls).apart.imp_of_mem ?_
  intro segment next member _ _ touches
  obtain ⟨number, longest, _⟩ := longestRun_of_mem member
  have own := longest.inside segment.start (Int.le_refl _) longest.proper
  dsimp only
  rw [own, ← touches]
  exact longest.behind.symm

/-- Some segments are the longest runs of some calls. They are in order; each is a longest run of a
call, from which it has its time and its value; and each longest run is among them. If two of them
touch they belong to different calls. They start and stop where calls do that are not empty, and
there are less than twice as many of them as there are such calls. -/
structure LongestRuns (calls : List (Call α)) (segments : Overlay α) : Prop where
  ordered : Ordered segments
  longest : ∀ segment ∈ segments, ∃ number call,
    LongestRun (wonBy calls) number segment.start segment.stop ∧
      calls[number]? = some call ∧ segment.time = call.time ∧
      Clippable.Cut call.value segment.start segment.stop segment.value
  all : ∀ number start stop, LongestRun (wonBy calls) number start stop →
    ∃ segment ∈ segments, segment.start = start ∧ segment.stop = stop
  apart : segments.IsChain fun segment next =>
    segment.stop = next.start → wonBy calls segment.start ≠ wonBy calls next.start
  bounded : ∀ segment ∈ segments, IsEnd calls segment.start ∧ IsEnd calls segment.stop
  few : segments.length ≤ 2 * (properCalls calls).length - 1

/-- Whatever calls are made on an empty list, it shows the longest runs of these calls. -/
theorem segments_are_longest_runs (calls : List (Call α)) :
    ∃ segments, LinkedOverlay.shown calls = some segments ∧ LongestRuns calls segments := by
  have bounded : ∀ segment ∈ run calls, IsEnd calls segment.start ∧ IsEnd calls segment.stop := by
    intro segment member
    obtain ⟨number, longest, _⟩ := longestRun_of_mem member
    exact ⟨longest.isEnd_start, longest.isEnd_stop⟩
  refine ⟨run calls, LinkedOverlay.shown_eq calls, ?_⟩
  constructor
  case ordered => exact ordered_run calls
  case longest =>
    intro segment member
    obtain ⟨number, longest, call, found, piece⟩ := longestRun_of_mem member
    exact ⟨number, call, longest, found, piece.time_eq, piece.cut (.once call.start call.stop)⟩
  case all => exact fun number start stop longest => mem_of_longestRun longest
  case apart => exact (parted_run calls).isChain
  case bounded => exact bounded
  case few => exact length_le_properCalls (ordered_run calls) bounded

end

end Haystack.Overlay
