import Haystack.Proofs.Overlay.Cells
import Mathlib.Data.List.Induction

/-!
# Rows of linked cells

The cells of a linked overlay are one row from the head to the tail (`Whole`), but for some that
are not linked. While a segment is put in the place of others, the row is open at one point
(`Parts`). Laying a segment over the rest of a row, and putting it in the place of a part of it,
leaves the segments that the same step leaves of an overlay.
-/

namespace Haystack.LinkedOverlay

section
variable {α : Type}

/-- The place of the last of some cells behind the head. -/
def lastOf (front : List (Nat × Segment α)) : Nat :=
  (front.getLast?.map Prod.fst).getD head

/-- The place of the first of some cells before the tail. -/
def firstOf (back : List (Nat × Segment α)) : Nat :=
  (back.head?.map Prod.fst).getD tail

@[simp] theorem lastOf_nil : lastOf ([] : List (Nat × Segment α)) = head := rfl

@[simp] theorem lastOf_concat (front : List (Nat × Segment α)) (pair : Nat × Segment α) :
    lastOf (front ++ [pair]) = pair.1 := by
  simp [lastOf]

@[simp] theorem firstOf_nil : firstOf ([] : List (Nat × Segment α)) = tail := rfl

@[simp] theorem firstOf_cons (pair : Nat × Segment α) (back : List (Nat × Segment α)) :
    firstOf (pair :: back) = pair.1 := rfl

theorem getLast?_fore (front : List (Nat × Segment α)) :
    (head :: front.map Prod.fst).getLast? = some (lastOf front) := by
  rw [List.getLast?_cons, List.getLast?_map, lastOf]

theorem head?_rear (back : List (Nat × Segment α)) :
    (back.map Prod.fst ++ [tail]).head? = some (firstOf back) := by
  cases back <;> rfl

/-- Cells that are linked from the head on, others that are linked up to the tail, and some that
are not linked. -/
structure Parts (list : LinkedOverlay α) (loose front back : List (Nat × Segment α)) : Prop where
  stores : Stores list (loose ++ (front ++ back))
  fore : Linked list (head :: front.map Prod.fst)
  rear : Linked list (back.map Prod.fst ++ [tail])

/-- Cells that are linked from the head to the tail, and some that are not linked. -/
structure Whole (list : LinkedOverlay α) (loose pairs : List (Nat × Segment α)) : Prop where
  stores : Stores list (loose ++ pairs)
  linked : Linked list (head :: (pairs.map Prod.fst ++ [tail]))

variable {list : LinkedOverlay α} {loose front back pairs : List (Nat × Segment α)} {place : Nat}
  {segment : Segment α}

theorem row_append (front back : List (Nat × Segment α)) :
    head :: ((front ++ back).map Prod.fst ++ [tail]) =
      (head :: front.map Prod.fst) ++ (back.map Prod.fst ++ [tail]) := by
  simp

theorem whole_append_iff : Whole list loose (front ++ back) ↔
    Parts list loose front back ∧ Follows list (lastOf front) (firstOf back) := by
  constructor
  · rintro ⟨stores, linked⟩
    rw [row_append] at linked
    obtain ⟨fore, rear, follows⟩ := List.isChain_append.mp linked
    exact ⟨⟨stores, fore, rear⟩, follows _ (getLast?_fore front) _ (head?_rear back)⟩
  · rintro ⟨⟨stores, fore, rear⟩, follows⟩
    refine ⟨stores, ?_⟩
    rw [row_append]
    refine List.isChain_append.mpr ⟨fore, rear, ?_⟩
    rintro _ is_last _ is_first
    rw [getLast?_fore, Option.mem_some_iff] at is_last
    rw [head?_rear, Option.mem_some_iff] at is_first
    subst is_last is_first
    exact follows

theorem Whole.parts (whole : Whole list loose (front ++ back)) : Parts list loose front back :=
  (whole_append_iff.mp whole).1

theorem Whole.follows (whole : Whole list loose (front ++ back)) :
    Follows list (lastOf front) (firstOf back) :=
  (whole_append_iff.mp whole).2

theorem Whole.at_head (whole : Whole list loose pairs) : Whole list loose ([] ++ pairs) :=
  whole

theorem Whole.at_tail (whole : Whole list loose pairs) : Whole list loose (pairs ++ []) := by
  rwa [List.append_nil]

theorem Stores.nodup_row (stores : Stores list (loose ++ (front ++ back))) :
    ((head :: front.map Prod.fst) ++ (back.map Prod.fst ++ [tail])).Nodup := by
  have distinct := stores.distinct
  simp only [List.map_append] at distinct
  grind

theorem Stores.lastOf_lt (stores : Stores list (loose ++ (front ++ back))) :
    lastOf front < list.cells.size := by
  have member := List.mem_of_getLast? (getLast?_fore front)
  apply stores.inside
  simp only [List.map_append]
  grind

theorem Stores.firstOf_lt (stores : Stores list (loose ++ (front ++ back))) :
    firstOf back < list.cells.size := by
  have member := List.mem_of_mem_head? (head?_rear back)
  apply stores.inside
  simp only [List.map_append]
  grind

theorem perm_link (loose front back : List (Nat × Segment α)) (pair : Nat × Segment α) :
    (pair :: loose ++ (front ++ back)).Perm (loose ++ (front ++ pair :: back)) := by
  have middle : (loose ++ front ++ pair :: back).Perm (pair :: (loose ++ front ++ back)) :=
    List.perm_middle
  simpa using middle.symm

theorem Parts.perm {others : List (Nat × Segment α)} (parts : Parts list loose front back)
    (perm : loose.Perm others) : Parts list others front back :=
  ⟨parts.stores.perm (perm.append_right _), parts.fore, parts.rear⟩

theorem Parts.link (parts : Parts list ((place, segment) :: loose) front back) :
    ∃ linked, list.linkBetween (lastOf front) place (firstOf back) = some linked ∧
      Whole linked loose (front ++ (place, segment) :: back) := by
  obtain ⟨stores, fore, rear⟩ := parts
  have stored := stores.perm (perm_link loose front back (place, segment))
  obtain ⟨linked, step, same, nexts, previouses⟩ := exists_linkBetween stores.lastOf_lt
    (stores.inside place (by simp)) stores.firstOf_lt
  refine ⟨linked, step, stored.of_sameContents same, ?_⟩
  rw [row_append]
  exact linked_between fore rear (getLast?_fore front) (head?_rear back) stored.nodup_row nexts
    previouses

theorem Whole.shift {pair : Nat × Segment α} (whole : Whole list loose (front ++ pair :: back)) :
    Whole list loose (front ++ [pair] ++ back) := by
  rwa [List.append_assoc, List.singleton_append]

theorem Whole.cell (whole : Whole list loose (front ++ (place, segment) :: back)) :
    list.cells[place]? = some (.storing segment (lastOf front) (firstOf back)) := by
  have before := whole.follows.2
  have behind := whole.shift.follows.1
  rw [firstOf_cons] at before
  rw [lastOf_concat] at behind
  obtain ⟨previous, next, found⟩ := exists_cell
    (whole.stores.holds (place, segment) (by simp))
  rw [previous?, found] at before
  rw [next?, found] at behind
  rw [found, ← Option.some.inj before, ← Option.some.inj behind]
  rfl

theorem Whole.ne_tail (whole : Whole list loose (front ++ (place, segment) :: back)) :
    place ≠ tail :=
  (whole.stores.perm (perm_link loose front back (place, segment)).symm).fresh.2.1

theorem Whole.ne_head (whole : Whole list loose (front ++ (place, segment) :: back)) :
    place ≠ head :=
  (whole.stores.perm (perm_link loose front back (place, segment)).symm).fresh.1

/-- A linked cell is taken out of the list and given up. -/
theorem Whole.remove (whole : Whole list loose (front ++ (place, segment) :: back)) :
    ∃ left, list.remove place = some (firstOf back, left) ∧ Whole left loose (front ++ back) := by
  have stored := whole.stores.perm (perm_link loose front back (place, segment)).symm
  have row : ((head :: front.map Prod.fst) ++ (back.map Prod.fst ++ [tail])).Nodup := by
    have := whole.stores.nodup_row
    grind
  obtain ⟨one, joined, first_step, second_step, same, nexts, previouses⟩ :=
    exists_join whole.stores.lastOf_lt whole.shift.stores.firstOf_lt
  obtain ⟨left, third_step, rest, links⟩ := (stored.of_sameContents same).exists_giveUp
  refine ⟨left, ?_, rest, ?_⟩
  · simp only [LinkedOverlay.remove, whole.cell, Cell.storing, Option.bind_eq_bind,
      Option.bind_some, first_step, second_step, third_step]
    rfl
  · rw [row_append]
    exact (linked_join whole.parts.fore whole.shift.parts.rear (getLast?_fore front)
      (head?_rear back) row nexts previouses).of_sameLinks links

theorem Whole.of_keepsRows {others : List (Nat × Segment α)} {other : LinkedOverlay α}
    (whole : Whole list loose pairs) (stores : Stores other (others ++ pairs))
    (keeps : KeepsRows list other (loose ++ pairs)) : Whole other others pairs := by
  refine ⟨stores, keeps _ ?_ whole.linked⟩
  intro k member
  simp only [List.map_append]
  grind

theorem Whole.take (whole : Whole list loose pairs) (segment : Segment α) :
    ∃ place taken, list.take segment = some (place, taken) ∧
      Whole taken ((place, segment) :: loose) pairs := by
  obtain ⟨place, taken, step, stores, keeps⟩ := whole.stores.exists_take segment
  exact ⟨place, taken, step, whole.of_keepsRows stores keeps⟩

theorem Parts.take (parts : Parts list loose front back) (segment : Segment α) :
    ∃ place taken, list.take segment = some (place, taken) ∧
      Parts taken ((place, segment) :: loose) front back := by
  obtain ⟨place, taken, step, stores, keeps⟩ := parts.stores.exists_take segment
  refine ⟨place, taken, step, stores, keeps _ ?_ parts.fore, keeps _ ?_ parts.rear⟩
  · intro k member
    simp only [List.map_append]
    grind
  · intro k member
    simp only [List.map_append]
    grind

theorem Whole.split {content : Overlay α} {result : Option (Option Nat × LinkedOverlay α)}
    (whole : Whole list loose pairs) (splits : Splits list (loose ++ pairs) content result) :
    ∃ (part : Option (Nat × Segment α)) (split : LinkedOverlay α),
      result = some (part.map Prod.fst, split) ∧ part.toList.map Prod.snd = content ∧
        Whole split (part.toList ++ loose) pairs := by
  obtain ⟨part, split, step, same, stores, keeps⟩ := splits
  rw [← List.append_assoc] at stores
  exact ⟨part, split, step, same, whole.of_keepsRows stores keeps⟩

theorem Whole.giveUp (whole : Whole list ((place, segment) :: loose) pairs) :
    ∃ left, list.giveUp place = some left ∧ Whole left loose pairs := by
  obtain ⟨left, step, stores, links⟩ := whole.stores.exists_giveUp
  exact ⟨left, step, stores, whole.linked.of_sameLinks links⟩

theorem Whole.next_head (whole : Whole list loose pairs) :
    list.next? head = some (firstOf pairs) :=
  whole.at_head.follows.1

theorem Whole.previous_tail (whole : Whole list loose pairs) :
    list.previous? tail = some (lastOf pairs) :=
  whole.at_tail.follows.2

/-- The walk from the head passes the cells that stop before a position. -/
theorem Whole.seekFront {passed : List (Nat × Segment α)} {position : Int} {steps : Nat}
    (whole : Whole list loose (front ++ (passed ++ back))) (enough : passed.length < steps)
    (stops : ∀ pair ∈ passed, pair.2.stop ≤ position)
    (reaches : ∀ pair ∈ back.head?, position < pair.2.stop) :
    list.seekFront position steps (lastOf front) = some (lastOf (front ++ passed)) := by
  induction passed generalizing front steps with
  | nil =>
      obtain ⟨steps, rfl⟩ := Nat.exists_eq_add_one_of_ne_zero (Nat.ne_zero_of_lt enough)
      rw [List.nil_append] at whole
      obtain ⟨cell, found, next⟩ := exists_next whole.follows.1
      rw [LinkedOverlay.seekFront]
      simp only [found, next, Option.bind_eq_bind, Option.bind_some, List.append_nil]
      cases back with
      | nil => rw [firstOf_nil, if_pos rfl]; rfl
      | cons pair back =>
          have reach := reaches pair rfl
          simp only [firstOf_cons, whole.ne_tail, whole.cell, Cell.storing, Option.bind_some,
            if_neg (Int.not_le.mpr reach), ↓reduceIte]
          rfl
  | cons pair passed ih =>
      obtain ⟨steps, rfl⟩ := Nat.exists_eq_add_one_of_ne_zero (Nat.ne_zero_of_lt enough)
      obtain ⟨cell, found, next⟩ := exists_next whole.follows.1
      have further := ih whole.shift (Nat.lt_of_succ_lt_succ enough)
        fun other member => stops other (by simp [member])
      rw [lastOf_concat, List.append_assoc, List.singleton_append] at further
      rw [LinkedOverlay.seekFront]
      simp only [found, next, Option.bind_eq_bind, Option.bind_some, List.cons_append,
        firstOf_cons, whole.ne_tail, whole.cell, Cell.storing, stops pair (by simp),
        ↓reduceIte, further]

/-- The walk from the tail passes the cells that do not start before a position. -/
theorem Whole.seekBack {passed : List (Nat × Segment α)} {position : Int} {steps : Nat}
    (whole : Whole list loose (front ++ (passed ++ back))) (enough : passed.length < steps)
    (starts : ∀ pair ∈ passed, position ≤ pair.2.start)
    (reaches : ∀ pair ∈ front.getLast?, pair.2.start < position) :
    list.seekBack position steps (firstOf back) = some (firstOf (passed ++ back)) := by
  induction passed using List.reverseRecOn generalizing back steps with
  | nil =>
      obtain ⟨steps, rfl⟩ := Nat.exists_eq_add_one_of_ne_zero (Nat.ne_zero_of_lt enough)
      rw [List.nil_append] at whole
      obtain ⟨cell, found, previous⟩ := exists_previous whole.follows.2
      rw [LinkedOverlay.seekBack]
      simp only [found, previous, Option.bind_eq_bind, Option.bind_some, List.nil_append]
      rcases List.eq_nil_or_concat' front with rfl | ⟨front, pair, rfl⟩
      · rw [lastOf_nil, if_pos rfl]
        rfl
      · have reach := reaches pair (by simp)
        rw [List.append_assoc, List.singleton_append] at whole
        simp only [lastOf_concat, whole.ne_head, whole.cell, Cell.storing, Option.bind_some,
          if_neg (Int.not_le.mpr reach), ↓reduceIte]
        rfl
  | append_singleton passed pair ih =>
      obtain ⟨steps, rfl⟩ := Nat.exists_eq_add_one_of_ne_zero (Nat.ne_zero_of_lt enough)
      rw [List.append_assoc, List.singleton_append] at whole ⊢
      rw [List.length_append, List.length_singleton] at enough
      have further := ih whole (Nat.lt_of_succ_lt_succ enough)
        fun other member => starts other (by simp [member])
      rw [← List.append_assoc] at whole
      obtain ⟨cell, found, previous⟩ := exists_previous whole.shift.follows.2
      rw [firstOf_cons] at further
      rw [lastOf_concat] at previous
      rw [LinkedOverlay.seekBack]
      simp only [found, previous, Option.bind_eq_bind, Option.bind_some, whole.ne_head,
        whole.cell, Cell.storing, starts pair (by simp), ↓reduceIte, further]

/-- Giving up linked cells leaves those before and behind them. -/
theorem Parts.giveUpUntil {met : List (Nat × Segment α)} {steps : Nat}
    (parts : Parts list loose front (met ++ back)) (enough : met.length < steps) :
    ∃ left, list.giveUpUntil steps (firstOf (met ++ back)) (firstOf back) = some left ∧
      Parts left loose front back := by
  induction met generalizing list steps with
  | nil =>
      obtain ⟨steps, rfl⟩ := Nat.exists_eq_add_one_of_ne_zero (Nat.ne_zero_of_lt enough)
      rw [LinkedOverlay.giveUpUntil]
      exact ⟨list, by simp, parts⟩
  | cons pair met ih =>
      obtain ⟨steps, rfl⟩ := Nat.exists_eq_add_one_of_ne_zero (Nat.ne_zero_of_lt enough)
      obtain ⟨stores, fore, rear⟩ := parts
      have apart : pair.1 ≠ firstOf back := by
        have row := stores.nodup_row
        have member := List.mem_of_mem_head? (head?_rear back)
        simp only [List.cons_append, List.map_cons, List.map_append] at row
        grind
      obtain ⟨follows, rear⟩ := List.isChain_cons.mp rear
      obtain ⟨cell, found, next⟩ := exists_next (follows _ (head?_rear (met ++ back))).1
      obtain ⟨left, step, stores, links⟩ :=
        (stores.perm (perm_link loose front (met ++ back) pair).symm).exists_giveUp
      obtain ⟨rest, further, parts⟩ :=
        ih ⟨stores, fore.of_sameLinks links, Linked.of_sameLinks rear links⟩
          (Nat.lt_of_succ_lt_succ enough)
      refine ⟨rest, ?_, parts⟩
      rw [LinkedOverlay.giveUpUntil, List.cons_append, firstOf_cons]
      simp only [if_neg apart, found, next, step, further, Option.bind_eq_bind, Option.bind_some]

/-- A loose cell, if there is one, is linked between two parts of the list. -/
theorem Parts.linkPart {part : Option (Nat × Segment α)}
    (parts : Parts list (part.toList ++ loose) front back) :
    ∃ linked, list.linkPart (lastOf front) (part.map Prod.fst) (firstOf back) =
        some (lastOf (front ++ part.toList), linked) ∧
      Parts linked loose (front ++ part.toList) back ∧
      (Follows list (lastOf front) (firstOf back) →
        Whole linked loose (front ++ part.toList ++ back)) := by
  cases part with
  | none =>
      rw [Option.toList_none, List.nil_append] at parts
      rw [Option.toList_none, List.append_nil]
      exact ⟨list, rfl, parts, fun follows => whole_append_iff.mpr ⟨parts, follows⟩⟩
  | some part =>
      obtain ⟨linked, step, whole⟩ := parts.link
      refine ⟨linked, ?_, whole.shift.parts, fun _ => whole.shift⟩
      simp [LinkedOverlay.linkPart, step]

/-- A step leaves a whole list, in which segments with this content lie behind some cells. -/
def Leaves (result : Option (LinkedOverlay α)) (front : List (Nat × Segment α))
    (content : Overlay α) : Prop :=
  ∃ list back, result = some list ∧ Whole list [] (front ++ back) ∧ back.map Prod.snd = content

theorem Leaves.behind {result : Option (LinkedOverlay α)} {middle : List (Nat × Segment α)}
    {content : Overlay α} (leaves : Leaves result (front ++ middle) content) :
    Leaves result front (middle.map Prod.snd ++ content) := by
  obtain ⟨list, back, step, whole, same⟩ := leaves
  refine ⟨list, middle ++ back, step, ?_, by rw [List.map_append, same]⟩
  rwa [← List.append_assoc]

end

section
variable {α : Type} [Clippable α] {list : LinkedOverlay α}
  {loose front met back pairs : List (Nat × Segment α)} {place : Nat} {segment : Segment α}

theorem Whole.setRange_loose (whole : Whole list ((place, segment) :: loose) pairs)
    (start stop : Int) :
    ∃ changed, list.setRange place start stop = some changed ∧
      Whole changed ((place, segment.clip start stop) :: loose) pairs := by
  obtain ⟨changed, step, stores, links⟩ := whole.stores.exists_setRange start stop
  exact ⟨changed, step, stores, whole.linked.of_sameLinks links⟩

theorem Whole.setRange (whole : Whole list loose (front ++ (place, segment) :: back))
    (start stop : Int) :
    ∃ changed, list.setRange place start stop = some changed ∧
      Whole changed loose (front ++ (place, segment.clip start stop) :: back) := by
  have stored := whole.stores.perm (perm_link loose front back (place, segment)).symm
  obtain ⟨changed, step, stores, links⟩ := stored.exists_setRange start stop
  refine ⟨changed, step, stores.perm (perm_link loose front back _), ?_⟩
  have linked := whole.linked.of_sameLinks links
  simpa only [List.map_append, List.map_cons] using linked

theorem Whole.splitOff (whole : Whole list loose pairs) (member : (place, segment) ∈ loose ++ pairs)
    (start stop : Int) :
    ∃ part split, list.splitOff place start stop = some (some part, split) ∧
      Whole split ((part, segment.clip start stop) :: loose) pairs := by
  obtain ⟨part, split, step, stores, keeps⟩ := whole.stores.exists_splitOff member start stop
  exact ⟨part, split, step, whole.of_keepsRows stores keeps⟩

/-- There is nothing before a position, or what is before it is linked and the cell has yet to be
told the rest. -/
theorem Whole.detach_cases (whole : Whole list loose (front ++ back))
    (member : (place, segment) ∈ loose ++ (front ++ back)) (position : Int) :
    (list.detach place position (lastOf front) (firstOf back) = some (lastOf front, list) ∧
      Overlay.before segment position = [] ∧ Overlay.since segment position = segment) ∨
    ∃ part linked, list.detach place position (lastOf front) (firstOf back) =
        (linked.setRange place position segment.stop).bind (fun list => some (part, list)) ∧
      Overlay.before segment position = [segment.clip segment.start position] ∧
      Overlay.since segment position = segment.clip position segment.stop ∧
      Whole linked loose (front ++ (part, segment.clip segment.start position) :: back) := by
  obtain ⟨previous, next, found⟩ := exists_cell (whole.stores.holds _ member)
  simp only [LinkedOverlay.detach, splitBefore, found, Cell.storing, Option.bind_eq_bind,
    Option.bind_some]
  by_cases starts : segment.start < position
  · obtain ⟨part, split, split_step, stored⟩ := whole.splitOff member segment.start position
    obtain ⟨linked, link_step, whole⟩ := stored.parts.link
    simp only [if_pos starts, split_step, Option.bind_some, link_step]
    exact .inr ⟨part, linked, rfl, if_pos starts, if_pos starts, whole⟩
  · simp only [if_neg starts]
    exact .inl ⟨rfl, if_neg starts, if_neg starts⟩

/-- What a loose cell has before a position is linked, and the cell keeps the rest. -/
theorem Whole.detach_loose (whole : Whole list ((place, segment) :: loose) (front ++ back))
    (position : Int) :
    ∃ (part : Option (Nat × Segment α)) (rest : LinkedOverlay α),
      list.detach place position (lastOf front) (firstOf back) =
        some (lastOf (front ++ part.toList), rest) ∧
      part.toList.map Prod.snd = Overlay.before segment position ∧
      Whole rest ((place, Overlay.since segment position) :: loose)
        (front ++ part.toList ++ back) := by
  have member : (place, segment) ∈ (place, segment) :: loose ++ (front ++ back) := by simp
  rcases whole.detach_cases member position with
    ⟨step, before, since⟩ | ⟨part, linked, step, before, since, linked_whole⟩
  · rw [before, since]
    exact ⟨none, list, by simpa using step, rfl, by simpa using whole⟩
  · obtain ⟨rest, range_step, rest_whole⟩ := linked_whole.setRange_loose position segment.stop
    rw [step, before, since, range_step]
    exact ⟨some (part, segment.clip segment.start position), rest, by simp, rfl,
      by simpa using rest_whole⟩

/-- What a linked cell has before a position is linked before it, and the cell keeps the rest. -/
theorem Whole.detach (whole : Whole list loose (front ++ (place, segment) :: back))
    (position : Int) :
    ∃ (part : Option (Nat × Segment α)) (rest : LinkedOverlay α),
      list.detach place position (lastOf front) place =
        some (lastOf (front ++ part.toList), rest) ∧
      part.toList.map Prod.snd = Overlay.before segment position ∧
      Whole rest loose
        (front ++ part.toList ++ (place, Overlay.since segment position) :: back) := by
  have member : (place, segment) ∈ loose ++ (front ++ (place, segment) :: back) := by simp
  rcases whole.detach_cases member position with
    ⟨step, before, since⟩ | ⟨part, linked, step, before, since, linked_whole⟩
  · rw [firstOf_cons] at step
    rw [before, since]
    exact ⟨none, list, by simpa using step, rfl, by simpa using whole⟩
  · obtain ⟨rest, range_step, rest_whole⟩ := linked_whole.shift.setRange position segment.stop
    rw [firstOf_cons, range_step] at step
    rw [step, before, since]
    exact ⟨some (part, segment.clip segment.start position), rest, by simp, rfl, rest_whole⟩

/-- Laying the segment of a loose cell over what lies from some cell on. -/
theorem Whole.settle {own steps : Nat} {new : Segment α}
    (whole : Whole list [(own, new)] (front ++ back)) (enough : back.length < steps) :
    Leaves (list.settle own steps (lastOf front) (firstOf back)) front
      (Overlay.settle new (back.map Prod.snd)) := by
  induction back generalizing list front new steps with
  | nil =>
      obtain ⟨steps, rfl⟩ := Nat.exists_eq_add_one_of_ne_zero (Nat.ne_zero_of_lt enough)
      obtain ⟨linked, step, whole⟩ := whole.parts.link
      rw [LinkedOverlay.settle, firstOf_nil, if_pos rfl]
      exact ⟨linked, _, step, whole, rfl⟩
  | cons pair back ih =>
      obtain ⟨steps, rfl⟩ := Nat.exists_eq_add_one_of_ne_zero (Nat.ne_zero_of_lt enough)
      have fewer : back.length < steps := Nat.lt_of_succ_lt_succ enough
      obtain ⟨place, old⟩ := pair
      obtain ⟨_, _, own_cell⟩ := exists_cell (whole.stores.holds (own, new) (by simp))
      rw [LinkedOverlay.settle, firstOf_cons, if_neg whole.ne_tail]
      simp only [own_cell, whole.cell, Cell.storing, Option.bind_eq_bind, Option.bind_some,
        List.map_cons, Overlay.settle]
      split
      · obtain ⟨linked, step, whole⟩ := whole.parts.link
        exact ⟨linked, _, step, whole, rfl⟩
      split
      · have further := ih whole.shift fewer
        rw [lastOf_concat] at further
        exact further.behind
      split
      · obtain ⟨part, cut, cut_step, content, whole⟩ := whole.detach new.start
        simp only [cut_step, Option.bind_some]
        rw [← content]
        refine Leaves.behind ?_
        split
        · obtain ⟨shrunk, range_step, whole⟩ := whole.setRange new.stop old.stop
          obtain ⟨linked, link_step, whole⟩ := whole.parts.link
          simp only [range_step, Option.bind_some]
          exact ⟨linked, _, link_step, whole, rfl⟩
        · obtain ⟨left, remove_step, whole⟩ := whole.remove
          simp only [remove_step, Option.bind_some]
          exact ih whole fewer
      · obtain ⟨part, cut, cut_step, content, whole⟩ := whole.detach_loose old.start
        rw [firstOf_cons] at cut_step
        simp only [cut_step, Option.bind_some]
        rw [← content]
        refine Leaves.behind ?_
        split
        · obtain ⟨shrunk, range_step, whole⟩ := whole.setRange_loose old.stop new.stop
          have further := ih whole.shift fewer
          rw [lastOf_concat] at further
          simp only [range_step, Option.bind_some, whole.cell, Cell.storing]
          exact further.behind
        · obtain ⟨left, step, whole⟩ := whole.giveUp
          exact ⟨left, _, step, whole, rfl⟩

/-- What the first of some linked cells has before a position is stored in a loose cell. -/
theorem Whole.splits_first (whole : Whole list loose (front ++ (met ++ back))) (position : Int) :
    Splits list (loose ++ (front ++ (met ++ back)))
      (Overlay.beforeFirst (met.map Prod.snd) position)
      (list.splitFirst (firstOf (met ++ back)) (firstOf back) position) := by
  unfold splitFirst
  cases met with
  | nil =>
      rw [List.nil_append, if_pos rfl]
      exact whole.stores.splits_none
  | cons pair met =>
      have apart : firstOf (pair :: met ++ back) ≠ firstOf back := by
        have row := whole.stores.nodup_row
        have member := List.mem_of_mem_head? (head?_rear back)
        simp only [List.cons_append, firstOf_cons, List.map_cons, List.map_append] at row ⊢
        grind
      rw [if_neg apart]
      exact whole.stores.splits_before (by simp) position

/-- What the last of some linked cells has from a position on is stored in a loose cell. -/
theorem Whole.splits_last (whole : Whole list loose (front ++ (met ++ back))) (position : Int) :
    Splits list (loose ++ (front ++ (met ++ back)))
      (Overlay.beyondLast (met.map Prod.snd) position)
      (list.splitLast (lastOf front) (lastOf (front ++ met)) position) := by
  unfold splitLast
  rcases List.eq_nil_or_concat' met with rfl | ⟨met, pair, rfl⟩
  · rw [List.append_nil, if_pos rfl]
    exact whole.stores.splits_none
  · have last : lastOf (front ++ (met ++ [pair])) = pair.1 := by
      rw [← List.append_assoc, lastOf_concat]
    have apart : pair.1 ≠ lastOf front := by
      have row := whole.stores.nodup_row
      have member := List.mem_of_getLast? (getLast?_fore front)
      simp only [List.map_append] at row
      grind
    rw [last, if_neg apart]
    have member : (pair.1, pair.2) ∈ loose ++ (front ++ (met ++ [pair] ++ back)) := by simp
    simpa [Overlay.beyondLast] using whole.stores.splits_beyond member position

/-- Putting a segment in the place of the cells between two places. -/
theorem Whole.replace_met {new : Segment α} (whole : Whole list [] (front ++ (met ++ back)))
    (low : list.seekFront new.start list.steps head = some (lastOf front))
    (high : list.seekBack new.stop list.steps tail = some (firstOf back)) :
    Leaves (list.replace new) front
      (Overlay.beforeFirst (met.map Prod.snd) new.start ++
        new :: (Overlay.beyondLast (met.map Prod.snd) new.stop ++ back.map Prod.snd)) := by
  obtain ⟨cell, found, next⟩ := exists_next whole.follows.1
  have behind : Whole list [] (front ++ met ++ back) := by rwa [List.append_assoc]
  obtain ⟨cell', found', previous⟩ := exists_previous behind.follows.2
  obtain ⟨left, _, left_step, left_content, whole⟩ :=
    whole.split (whole.splits_first new.start)
  obtain ⟨right, _, right_step, right_content, whole⟩ :=
    whole.split (whole.splits_last new.stop)
  have enough := whole.stores.lt_steps (by simp only [List.length_append]; omega : met.length ≤ _)
  obtain ⟨_, give_step, parts⟩ := whole.parts.giveUpUntil enough
  obtain ⟨own, _, take_step, parts⟩ := parts.take new
  have order : ((own, new) :: (right.toList ++ (left.toList ++ []))).Perm
      (left.toList ++ (own, new) :: right.toList) := by
    rw [List.append_nil]
    exact (List.perm_append_comm.cons (own, new)).trans List.perm_middle.symm
  obtain ⟨_, left_link, parts, _⟩ := (parts.perm order).linkPart
  obtain ⟨_, own_link, whole⟩ := parts.link
  rw [← List.append_nil right.toList] at whole
  obtain ⟨linked, right_link, _, joins⟩ := whole.shift.parts.linkPart
  rw [lastOf_concat] at right_link
  refine ⟨linked, left.toList ++ (own, new) :: (right.toList ++ back), ?_, ?_, ?_⟩
  · simp only [LinkedOverlay.replace, low, high, found, found', next, previous,
      Option.bind_eq_bind, Option.bind_some, Option.pure_def, left_step, right_step, give_step,
      take_step, left_link, own_link, right_link]
  · simpa using joins whole.shift.follows
  · rw [List.map_append, List.map_cons, List.map_append, left_content, right_content]

end

end Haystack.LinkedOverlay
