import Haystack.Chunk.View
import Haystack.Proofs.Overlay.Calls
import Haystack.Proofs.Overlay.Rows
import Haystack.Proofs.Position

/-!
# Linked overlays are overlays

A linked overlay represents the segments that are met from the head to the tail. Whatever calls are
made, it represents the overlay that the same calls leave: no cell is missing and no walk from cell
to cell is endless. So it is well formed after any calls.
-/

namespace Haystack.LinkedOverlay

section
variable {α : Type}

/-- The segments from the head to the tail are those of an overlay, and no cell is left over. -/
def Represents (list : LinkedOverlay α) (overlay : Overlay α) : Prop :=
  ∃ pairs, Whole list [] pairs ∧ pairs.map Prod.snd = overlay

variable {list : LinkedOverlay α} {overlay : Overlay α}

theorem represents_empty : Represents (empty : LinkedOverlay α) [] := by
  refine ⟨[], ⟨⟨?_, ?_, ?_, rfl, rfl⟩, ?_⟩, rfl⟩
  · intro pair member
    cases member
  · exact (by decide : [head, tail].Nodup)
  · exact (by decide : ∀ place ∈ [head, tail], place < 2)
  · exact List.isChain_pair.mpr ⟨rfl, rfl⟩

theorem Leaves.represents {result : Option (LinkedOverlay α)} {front : List (Nat × Segment α)}
    (leaves : Leaves result front overlay) :
    ∃ list, result = some list ∧ Represents list (front.map Prod.snd ++ overlay) := by
  obtain ⟨list, pairs, step, whole, rfl⟩ := leaves
  exact ⟨list, step, front ++ pairs, whole, List.map_append⟩

theorem Whole.segmentsFrom {front back : List (Nat × Segment α)} {steps : Nat}
    (whole : Whole list [] (front ++ back)) (enough : back.length < steps) :
    list.segmentsFrom steps (firstOf back) = some (back.map Prod.snd) := by
  induction back generalizing front steps with
  | nil =>
      obtain ⟨steps, rfl⟩ := Nat.exists_eq_add_one_of_ne_zero (Nat.ne_zero_of_lt enough)
      rw [LinkedOverlay.segmentsFrom, firstOf_nil, if_pos rfl]
      rfl
  | cons pair back ih =>
      obtain ⟨steps, rfl⟩ := Nat.exists_eq_add_one_of_ne_zero (Nat.ne_zero_of_lt enough)
      rw [LinkedOverlay.segmentsFrom, firstOf_cons, if_neg whole.ne_tail]
      have next : (Cell.storing pair.2 (lastOf front) (firstOf back)).next = firstOf back := rfl
      simp only [whole.cell, Option.bind_eq_bind, Option.bind_some, Cell.segment?_storing, next,
        ih whole.shift (Nat.lt_of_succ_lt_succ enough)]
      rfl

theorem Whole.cell_tail {pairs : List (Nat × Segment α)} (whole : Whole list [] pairs) :
    ∃ cell, list.cells[tail]? = some cell ∧ cell.previous = lastOf pairs ∧
      cell.segment? = none := by
  obtain ⟨cell, found, previous⟩ := exists_previous whole.previous_tail
  have bare := whole.stores.ends
  rw [segment?, found] at bare
  exact ⟨cell, found, previous, bare⟩

theorem Represents.segments (represents : Represents list overlay) :
    list.segments = some overlay := by
  obtain ⟨pairs, whole, rfl⟩ := represents
  obtain ⟨cell, found, next⟩ := exists_next whole.next_head
  simp only [LinkedOverlay.segments, found, Option.bind_eq_bind, Option.bind_some, next]
  exact whole.at_head.segmentsFrom (whole.stores.lt_steps (Nat.le_refl _))

theorem Represents.length (represents : Represents list overlay) :
    list.length = overlay.length := by
  obtain ⟨pairs, whole, rfl⟩ := represents
  rw [whole.stores.counted, List.nil_append, List.length_map]

theorem Represents.front (represents : Represents list overlay) :
    list.front = some overlay.head? := by
  obtain ⟨pairs, whole, rfl⟩ := represents
  obtain ⟨cell, found, next⟩ := exists_next whole.next_head
  simp only [LinkedOverlay.front, found, Option.bind_eq_bind, Option.bind_some, next]
  cases pairs with
  | nil =>
      obtain ⟨_, last, _, bare⟩ := whole.cell_tail
      simp only [firstOf_nil, last, Option.bind_some, bare]
      rfl
  | cons pair pairs =>
      have first := whole.at_head.cell
      simp only [firstOf_cons, first, Option.bind_some, Cell.segment?_storing]
      rfl

theorem Whole.exists_link_last {pairs : List (Nat × Segment α)} (whole : Whole list [] pairs)
    (new : Segment α) :
    ∃ own taken linked, list.take new = some (own, taken) ∧
      taken.linkBetween (lastOf pairs) own tail = some linked ∧
      Represents linked (pairs.map Prod.snd ++ [new]) := by
  obtain ⟨own, taken, take_step, whole⟩ := whole.take new
  obtain ⟨linked, link_step, whole⟩ := whole.at_tail.parts.link
  exact ⟨own, taken, linked, take_step, link_step, _, whole, by simp⟩

/-- A list shows these segments: they are in order, the length is their number, the front is the
first of them, and each value has been told the range that its segment has now. -/
structure WellFormed (list : LinkedOverlay α) (told : α → (start stop : Int) → Prop)
    (segments : Overlay α) : Prop where
  shown : list.segments = some segments
  ordered : Overlay.Ordered segments
  counted : list.length = segments.length
  front : list.front = some segments.head?
  told : ∀ segment ∈ segments, told segment.value segment.start segment.stop

theorem WellFormed.mono {told also : α → Int → Int → Prop} {segments : Overlay α}
    (wellFormed : WellFormed list told segments)
    (implies : ∀ value start stop, start < stop → told value start stop → also value start stop) :
    WellFormed list also segments :=
  { wellFormed with
    told := fun segment member =>
      implies _ _ _ (wellFormed.ordered.proper segment member) (wellFormed.told segment member) }

end

section
variable {α : Type} [Clippable α] {list : LinkedOverlay α} {overlay : Overlay α}

theorem Represents.replace (represents : Represents list overlay)
    (ordered : Overlay.Ordered overlay) (new : Segment α) (proper : new.start < new.stop) :
    ∃ replaced, list.replace new = some replaced ∧
      Represents replaced (Overlay.replace new overlay) := by
  obtain ⟨pairs, whole, rfl⟩ := represents
  obtain ⟨earlier, met, later, parts, result, low, middle, high⟩ :=
    Overlay.replace_parts new ordered
  obtain ⟨front, rest, rfl, rfl, rest_parts⟩ := List.map_eq_append_iff.mp parts
  obtain ⟨between, back, rfl, rfl, rfl⟩ := List.map_eq_append_iff.mp rest_parts
  have first : list.seekFront new.start list.steps head = some (lastOf front) := by
    refine whole.at_head.seekFront (whole.stores.lt_steps (by simp)) ?_ ?_
    · intro pair member
      exact low pair.2 (List.mem_map_of_mem member)
    · intro pair is_first
      rcases List.mem_append.mp (List.mem_of_mem_head? is_first) with member | member
      · exact (middle pair.2 (List.mem_map_of_mem member)).1
      · have behind := high pair.2 (List.mem_map_of_mem member)
        have := ordered.proper pair.2 (List.mem_map_of_mem (by simp [member]))
        omega
  have last : list.seekBack new.stop list.steps tail = some (firstOf back) := by
    have row : Whole list [] ((front ++ between) ++ (back ++ [])) := by simpa using whole
    have found : firstOf (back ++ []) = firstOf back := by rw [List.append_nil]
    rw [← found]
    refine row.seekBack (row.stores.lt_steps (by simp; omega)) ?_ ?_
    · intro pair member
      exact high pair.2 (List.mem_map_of_mem member)
    · intro pair is_last
      rcases List.mem_append.mp (List.mem_of_getLast? is_last) with member | member
      · have before := low pair.2 (List.mem_map_of_mem member)
        have := ordered.proper pair.2 (List.mem_map_of_mem (by simp [member]))
        omega
      · exact (middle pair.2 (List.mem_map_of_mem member)).2
  rw [result]
  exact (whole.replace_met first last).represents

theorem Represents.cover (represents : Represents list overlay)
    (ordered : Overlay.Ordered overlay) (start stop time : Int) (value : α) :
    ∃ covered, list.cover start stop time value = some covered ∧
      Represents covered (overlay.cover start stop time value) := by
  unfold LinkedOverlay.cover Overlay.cover
  split
  · exact represents.replace ordered (.make start stop time value) (by assumption)
  · exact ⟨list, rfl, represents⟩

theorem Represents.insert (represents : Represents list overlay) (start stop time : Int)
    (value : α) :
    ∃ inserted, list.insert start stop time value = some inserted ∧
      Represents inserted (overlay.insert start stop time value) := by
  unfold LinkedOverlay.insert Overlay.insert
  split
  · obtain ⟨pairs, whole, rfl⟩ := represents
    obtain ⟨own, taken, take_step, whole⟩ := whole.take (.make start stop time value)
    obtain ⟨cell, found, next⟩ := exists_next whole.next_head
    simp only [take_step, Option.bind_eq_bind, Option.bind_some, found, next]
    exact (whole.at_head.settle (whole.stores.lt_steps (by simp))).represents
  · exact ⟨list, rfl, represents⟩

theorem Represents.append (represents : Represents list overlay)
    (ordered : Overlay.Ordered overlay) (start stop time : Int) (value : α) :
    ∃ appended, list.append start stop time value = some appended ∧
      Represents appended (overlay.append start stop time value) := by
  unfold LinkedOverlay.append Overlay.append
  split
  · rename_i proper
    have replaced := represents.replace ordered (.make start stop time value) proper
    obtain ⟨pairs, whole, rfl⟩ := represents
    obtain ⟨cell, found, previous, _⟩ := whole.cell_tail
    obtain ⟨own, taken, linked, take_step, link_step, behind⟩ :=
      whole.exists_link_last (.make start stop time value)
    simp only [found, previous, Option.bind_eq_bind, Option.bind_some]
    rcases List.eq_nil_or_concat' pairs with rfl | ⟨front, pair, rfl⟩
    · obtain ⟨first, first_found, _⟩ := exists_next whole.next_head
      rw [lastOf_nil] at link_step ⊢
      simp only [first_found, ne_eq, not_true_eq_false, false_and, ↓reduceIte, Option.bind_some,
        take_step, link_step]
      exact ⟨linked, rfl, behind⟩
    · have row : Whole list [] (front ++ pair :: []) := whole
      rw [lastOf_concat] at link_step ⊢
      simp only [row.cell, Cell.storing, ne_eq, row.ne_head, not_false_eq_true, true_and,
        Option.bind_some, take_step, link_step, List.map_append, List.map_cons, List.map_nil,
        List.getLast?_concat]
      simp only [List.map_append, List.map_cons, List.map_nil] at replaced behind
      split
      · rw [Overlay.cover, if_pos proper]
        exact replaced
      · exact ⟨linked, rfl, behind⟩
  · exact ⟨list, rfl, represents⟩

/-- The list after a call. -/
def apply (list : LinkedOverlay α) (call : Overlay.Call α) : Option (LinkedOverlay α) :=
  match call.policy with
  | .insert => list.insert call.start call.stop call.time call.value
  | .cover => list.cover call.start call.stop call.time call.value
  | .append => list.append call.start call.stop call.time call.value

/-- The list after some calls. -/
def run (calls : List (Overlay.Call α)) : Option (LinkedOverlay α) :=
  calls.foldlM apply empty

theorem Represents.apply (represents : Represents list overlay)
    (ordered : Overlay.Ordered overlay) (call : Overlay.Call α) :
    ∃ applied, list.apply call = some applied ∧ Represents applied (call.apply overlay) := by
  unfold LinkedOverlay.apply Overlay.Call.apply
  cases call.policy with
  | insert => exact represents.insert call.start call.stop call.time call.value
  | cover => exact represents.cover ordered call.start call.stop call.time call.value
  | append => exact represents.append ordered call.start call.stop call.time call.value

/-- After any calls there is a list, and it represents the overlay after the same calls. -/
theorem exists_run (calls : List (Overlay.Call α)) :
    ∃ list, run calls = some list ∧ Represents list (Overlay.run calls) := by
  induction calls using List.reverseRecOn with
  | nil => exact ⟨empty, rfl, represents_empty⟩
  | append_singleton calls call ih =>
      obtain ⟨list, before, represents⟩ := ih
      obtain ⟨applied, step, represents⟩ :=
        represents.apply (Overlay.ordered_run calls) call
      rw [Overlay.run_concat]
      refine ⟨applied, ?_, represents⟩
      rw [run] at before
      rw [run, List.foldlM_append, before]
      simpa using step

/-- The segments that a list shows after some calls. -/
def shown (calls : List (Overlay.Call α)) : Option (Overlay α) :=
  (run calls).bind segments

theorem shown_eq (calls : List (Overlay.Call α)) : shown calls = some (Overlay.run calls) := by
  obtain ⟨list, ran, represents⟩ := exists_run calls
  rw [shown, ran]
  exact represents.segments

end

/-- The segments that a list shows after some calls denote the reference: a position that the
reference says nothing of lies in no segment. Any other lies in one segment, which has the time that
the reference names, and the value of the call that it names, cut to the range of the segment. -/
theorem shown_denotes_reference {α : Type} [Clippable α] (calls : List (Overlay.Call α)) :
    ∃ segments, shown calls = some segments ∧ ∀ position,
      match Overlay.reference calls position with
      | none => segments.filter (fun segment => segment.covers position) = []
      | some (time, number) => ∃ segment call,
          segments.filter (fun segment => segment.covers position) = [segment] ∧
          segment.time = time ∧ calls[number]? = some call ∧
          Clippable.Cut call.value segment.start segment.stop segment.value :=
  ⟨Overlay.run calls, shown_eq calls, Overlay.run_denotes_reference calls⟩

end Haystack.LinkedOverlay
