import Haystack.Overlay.Linked
import Mathlib.Data.List.Chain

/-!
# Cells of a linked overlay

A place is seen in three ways: by the segment stored there, by the place before it and by the one
behind it. Each step on the cells changes some of them and leaves the others as they are. `Stores`
says which segments the cells hold and that nothing else is counted; `Linked` that some places
name each other in a row.
-/

namespace Haystack

namespace Cell

variable {α : Type}

@[simp] theorem segment?_storing (segment : Segment α) (previous next : Nat) :
    (storing segment previous next).segment? = some segment := rfl

theorem eq_storing {cell : Cell α} {segment : Segment α} (h : cell.segment? = some segment) :
    cell = storing segment cell.previous cell.next := by
  obtain ⟨value, stored, rfl⟩ := Option.map_eq_some_iff.mp h
  cases cell
  simp only at stored
  simp only [storing, stored]

end Cell

namespace LinkedOverlay

section
variable {α : Type}

/-- The segment stored at a place. -/
def segment? (list : LinkedOverlay α) (place : Nat) : Option (Segment α) :=
  list.cells[place]?.bind Cell.segment?

def next? (list : LinkedOverlay α) (place : Nat) : Option Nat :=
  list.cells[place]?.map Cell.next

def previous? (list : LinkedOverlay α) (place : Nat) : Option Nat :=
  list.cells[place]?.map Cell.previous

/-- Places that name each other as neighbours. -/
def Follows (list : LinkedOverlay α) (place next : Nat) : Prop :=
  list.next? place = some next ∧ list.previous? next = some place

/-- Places in a row, each of which follows the one before. -/
def Linked (list : LinkedOverlay α) (places : List Nat) : Prop :=
  places.IsChain list.Follows

/-- The segments in the cells, with their places, linked or not. No place is used twice or used
and free. -/
structure Stores (list : LinkedOverlay α) (pairs : List (Nat × Segment α)) : Prop where
  holds : ∀ pair ∈ pairs, list.segment? pair.1 = some pair.2
  distinct : (head :: tail :: (pairs.map Prod.fst ++ list.free)).Nodup
  inside : ∀ place ∈ head :: tail :: (pairs.map Prod.fst ++ list.free), place < list.cells.size
  counted : list.length = pairs.length
  ends : list.segment? tail = none

/-- Lists whose cells store the same. -/
structure SameContents (list other : LinkedOverlay α) : Prop where
  segment? : ∀ place, other.segment? place = list.segment? place
  size : other.cells.size = list.cells.size
  free : other.free = list.free
  length : other.length = list.length

/-- Cells in use that are linked in one list are linked in the other. -/
def KeepsRows (list other : LinkedOverlay α) (pairs : List (Nat × Segment α)) : Prop :=
  ∀ places : List Nat, (∀ place ∈ places, place ∈ head :: tail :: pairs.map Prod.fst) →
    Linked list places → Linked other places

/-- The outcome of storing a part of a segment in a cell of its own, if there is such a part. -/
def Splits (list : LinkedOverlay α) (pairs : List (Nat × Segment α)) (content : Overlay α)
    (result : Option (Option Nat × LinkedOverlay α)) : Prop :=
  ∃ (part : Option (Nat × Segment α)) (split : LinkedOverlay α),
    result = some (part.map Prod.fst, split) ∧ part.toList.map Prod.snd = content ∧
      Stores split (part.toList ++ pairs) ∧ KeepsRows list split pairs

/-- Lists whose cells name the same neighbours. -/
def SameLinks (list other : LinkedOverlay α) : Prop :=
  ∀ place, other.next? place = list.next? place ∧ other.previous? place = list.previous? place

variable {list other : LinkedOverlay α} {pairs : List (Nat × Segment α)} {place : Nat}
  {segment : Segment α}

theorem exists_cell (h : list.segment? place = some segment) :
    ∃ previous next, list.cells[place]? = some (.storing segment previous next) := by
  obtain ⟨cell, found, stored⟩ := Option.bind_eq_some_iff.mp h
  exact ⟨cell.previous, cell.next, by rw [found, ← Cell.eq_storing stored]⟩

theorem exists_next {next : Nat} (h : list.next? place = some next) :
    ∃ cell, list.cells[place]? = some cell ∧ cell.next = next :=
  Option.map_eq_some_iff.mp h

theorem exists_previous {previous : Nat} (h : list.previous? place = some previous) :
    ∃ cell, list.cells[place]? = some cell ∧ cell.previous = previous :=
  Option.map_eq_some_iff.mp h

theorem exists_change (place : Nat) (inside : place < list.cells.size) (f : Cell α → Cell α) :
    ∃ changed, list.change place f = some changed ∧
      (∀ k, changed.cells[k]? = if k = place then list.cells[k]?.map f else list.cells[k]?) ∧
      changed.cells.size = list.cells.size ∧ changed.free = list.free ∧
      changed.length = list.length := by
  refine ⟨_, if_pos inside, ?_, by simp, rfl, rfl⟩
  intro k
  simp only [Array.getElem?_modify, eq_comm (a := place)]

/-- Rows of places stay linked where no link of theirs changes. -/
theorem Linked.congr {places : List Nat} (linked : Linked list places)
    (next : ∀ place ∈ places.dropLast, other.next? place = list.next? place)
    (previous : ∀ place ∈ places.tail, other.previous? place = list.previous? place) :
    Linked other places := by
  induction places with
  | nil => exact .nil
  | cons first rest ih =>
      cases rest with
      | nil => exact .singleton first
      | cons second rest =>
          obtain ⟨follows, linked⟩ := List.isChain_cons_cons.mp linked
          refine List.isChain_cons_cons.mpr ⟨⟨?_, ?_⟩, ih linked ?_ ?_⟩
          · rw [next first (by simp), follows.1]
          · rw [previous second (by simp), follows.2]
          · intro place member
            exact next place (by simp [member])
          · intro place member
            exact previous place (by simp [List.mem_of_mem_tail member])

theorem Linked.of_sameLinks {places : List Nat} (linked : Linked list places)
    (same : SameLinks list other) : Linked other places :=
  linked.congr (fun place _ => (same place).1) fun place _ => (same place).2

theorem Stores.perm {others : List (Nat × Segment α)} (stores : Stores list pairs)
    (perm : pairs.Perm others) : Stores list others := by
  have places := ((perm.map Prod.fst).append_right list.free).cons tail |>.cons head
  constructor
  case holds => exact fun pair member => stores.holds pair (perm.mem_iff.mpr member)
  case distinct => exact places.nodup_iff.mp stores.distinct
  case inside => exact fun place member => stores.inside place (places.mem_iff.mpr member)
  case counted => rw [stores.counted, perm.length_eq]
  case ends => exact stores.ends

theorem Stores.of_sameContents (stores : Stores list pairs) (same : SameContents list other) :
    Stores other pairs := by
  constructor
  case holds => exact fun pair member => by rw [same.segment?, stores.holds pair member]
  case distinct => exact same.free ▸ stores.distinct
  case inside => exact same.size ▸ same.free ▸ stores.inside
  case counted => rw [same.length, stores.counted]
  case ends => rw [same.segment?, stores.ends]

theorem SameContents.trans {third : LinkedOverlay α} (first : SameContents list other)
    (second : SameContents other third) : SameContents list third where
  segment? place := by rw [second.segment?, first.segment?]
  size := by rw [second.size, first.size]
  free := by rw [second.free, first.free]
  length := by rw [second.length, first.length]

theorem exists_relink (place : Nat) (inside : place < list.cells.size) (f : Cell α → Cell α)
    (keeps : ∀ cell, (f cell).segment? = cell.segment?) :
    ∃ changed, list.change place f = some changed ∧ SameContents list changed ∧
      ∀ k, changed.cells[k]? = if k = place then list.cells[k]?.map f else list.cells[k]? := by
  obtain ⟨changed, step, cells, size, free, length⟩ := exists_change place inside f
  refine ⟨changed, step, ⟨?_, size, free, length⟩, cells⟩
  intro k
  rw [segment?, cells, segment?]
  split
  · cases list.cells[k]? <;> simp [keeps]
  · rfl

theorem exists_refill (place : Nat) (inside : place < list.cells.size) (f : Cell α → Cell α)
    (keeps : ∀ cell, (f cell).next = cell.next ∧ (f cell).previous = cell.previous) :
    ∃ changed, list.change place f = some changed ∧ SameLinks list changed ∧
      (∀ k, changed.cells[k]? = if k = place then list.cells[k]?.map f else list.cells[k]?) ∧
      changed.cells.size = list.cells.size ∧ changed.free = list.free ∧
      changed.length = list.length := by
  obtain ⟨changed, step, cells, same⟩ := exists_change place inside f
  refine ⟨changed, step, ?_, cells, same⟩
  intro k
  rw [next?, previous?, cells, next?, previous?]
  split
  · cases list.cells[k]? <;> simp [keeps]
  · exact ⟨rfl, rfl⟩

theorem exists_linkBetween {previous next : Nat} (first : previous < list.cells.size)
    (inside : place < list.cells.size) (last : next < list.cells.size) :
    ∃ linked, list.linkBetween previous place next = some linked ∧ SameContents list linked ∧
      (∀ k, linked.next? k =
        if k = place then some next else if k = previous then some place else list.next? k) ∧
      ∀ k, linked.previous? k =
        if k = next then some place else if k = place then some previous else list.previous? k := by
  obtain ⟨one, first_step, same_one, one_cells⟩ :=
    exists_relink previous first (fun cell => { cell with next := place }) fun _ => rfl
  obtain ⟨two, second_step, same_two, two_cells⟩ :=
    exists_relink place (by rwa [same_one.size]) (fun cell => { cell with previous, next })
      fun _ => rfl
  obtain ⟨three, third_step, same_three, three_cells⟩ :=
    exists_relink next (by rwa [same_two.size, same_one.size])
      (fun cell => { cell with previous := place }) fun _ => rfl
  refine ⟨three, ?_, (same_one.trans same_two).trans same_three, ?_, ?_⟩
  · simp only [linkBetween, first_step, Option.bind_eq_bind, Option.bind_some, second_step,
      third_step]
  · intro k
    simp only [next?, three_cells, two_cells, one_cells]
    grind
  · intro k
    simp only [previous?, three_cells, two_cells, one_cells]
    grind

/-- Joining the neighbours of a cell. -/
theorem exists_join {previous next : Nat} (first : previous < list.cells.size)
    (last : next < list.cells.size) :
    ∃ one joined, list.change previous (fun cell => { cell with next }) = some one ∧
      one.change next (fun cell => { cell with previous }) = some joined ∧
      SameContents list joined ∧
      (∀ k, joined.next? k = if k = previous then some next else list.next? k) ∧
      ∀ k, joined.previous? k = if k = next then some previous else list.previous? k := by
  obtain ⟨one, first_step, same_one, one_cells⟩ :=
    exists_relink previous first (fun cell => { cell with next }) fun _ => rfl
  obtain ⟨joined, second_step, same_joined, joined_cells⟩ :=
    exists_relink next (by rwa [same_one.size]) (fun cell => { cell with previous }) fun _ => rfl
  refine ⟨one, joined, first_step, second_step, same_one.trans same_joined, ?_, ?_⟩
  · intro k
    simp only [next?, joined_cells, one_cells]
    grind
  · intro k
    simp only [previous?, joined_cells, one_cells]
    grind

/-- Two rows of cells stay linked where only the ends that they turn to each other change. -/
theorem linked_apart {front back : List Nat} {previous next : Nat} (fore : Linked list front)
    (rear : Linked list back) (last : front.getLast? = some previous)
    (first : back.head? = some next) (distinct : (front ++ back).Nodup)
    (nexts : ∀ k ∈ front ++ back, k ≠ previous → other.next? k = list.next? k)
    (previouses : ∀ k ∈ front ++ back, k ≠ next → other.previous? k = list.previous? k) :
    Linked other front ∧ Linked other back := by
  obtain ⟨start, rfl⟩ := List.getLast?_eq_some_iff.mp last
  obtain ⟨rest, rfl⟩ := List.head?_eq_some_iff.mp first
  constructor
  · refine fore.congr ?_ ?_
    · intro k member
      rw [List.dropLast_concat] at member
      exact nexts k (by simp [member]) (by grind)
    · intro k member
      have inside := List.mem_of_mem_tail member
      exact previouses k (List.mem_append_left _ inside) (by grind)
  · refine rear.congr ?_ ?_
    · intro k member
      have inside := (List.dropLast_sublist _).mem member
      exact nexts k (List.mem_append_right _ inside) (by grind)
    · intro k member
      rw [List.tail_cons] at member
      exact previouses k (by simp [member]) (by grind)

/-- Two rows of cells are one row once their ends are joined. -/
theorem linked_join {front back : List Nat} {previous next : Nat} (fore : Linked list front)
    (rear : Linked list back) (last : front.getLast? = some previous)
    (first : back.head? = some next) (distinct : (front ++ back).Nodup)
    (nexts : ∀ k, other.next? k = if k = previous then some next else list.next? k)
    (previouses : ∀ k, other.previous? k = if k = next then some previous else list.previous? k) :
    Linked other (front ++ back) := by
  obtain ⟨fore, rear⟩ := linked_apart fore rear last first distinct
    (fun k _ apart => by rw [nexts, if_neg apart])
    fun k _ apart => by rw [previouses, if_neg apart]
  refine List.isChain_append.mpr ⟨fore, rear, ?_⟩
  rintro _ is_last _ is_first
  rw [last, Option.mem_some_iff] at is_last
  rw [first, Option.mem_some_iff] at is_first
  subst is_last is_first
  exact ⟨by rw [nexts, if_pos rfl], by rw [previouses, if_pos rfl]⟩

/-- Two rows of cells are one row with a cell that is linked between them. -/
theorem linked_between {front back : List Nat} {previous next : Nat} (fore : Linked list front)
    (rear : Linked list back) (last : front.getLast? = some previous)
    (first : back.head? = some next) (distinct : (front ++ place :: back).Nodup)
    (nexts : ∀ k, other.next? k =
      if k = place then some next else if k = previous then some place else list.next? k)
    (previouses : ∀ k, other.previous? k =
      if k = next then some place else if k = place then some previous else list.previous? k) :
    Linked other (front ++ place :: back) := by
  have new : ∀ k ∈ front ++ back, k ≠ place := by grind
  have previous_new := new previous (List.mem_append_left _ (List.mem_of_getLast? last))
  have next_new := new next (List.mem_append_right _ (List.mem_of_mem_head? first))
  obtain ⟨fore, rear⟩ := linked_apart fore rear last first (by grind)
    (fun k member apart => by rw [nexts, if_neg (new k member), if_neg apart])
    fun k member apart => by rw [previouses, if_neg apart, if_neg (new k member)]
  refine List.isChain_append.mpr ⟨fore, List.isChain_cons.mpr ⟨?_, rear⟩, ?_⟩
  · rintro _ is_first
    rw [first, Option.mem_some_iff] at is_first
    subst is_first
    exact ⟨by rw [nexts, if_pos rfl], by rw [previouses, if_pos rfl]⟩
  · rintro _ is_last _ is_place
    rw [last, Option.mem_some_iff] at is_last
    rw [List.head?_cons, Option.mem_some_iff] at is_place
    subst is_last is_place
    exact ⟨by rw [nexts, if_neg previous_new, if_pos rfl],
      by rw [previouses, if_neg next_new.symm, if_pos rfl]⟩

theorem Stores.fresh (stores : Stores list ((place, segment) :: pairs)) :
    place ≠ head ∧ place ≠ tail ∧ ∀ pair ∈ pairs, pair.1 ≠ place := by
  have distinct := stores.distinct
  simp only [List.map_cons, List.cons_append, List.nodup_cons, List.mem_cons, not_or,
    List.mem_append, List.mem_map, not_exists, not_and] at distinct
  exact ⟨Ne.symm distinct.1.2.1, Ne.symm distinct.2.1.1, distinct.2.2.1.1⟩

theorem Stores.lt_steps {count : Nat} (stores : Stores list pairs)
    (within : count ≤ pairs.length) : count < list.steps := by
  rw [steps, stores.counted]
  omega

/-- One more segment is stored where a cell for it has been written. -/
theorem Stores.cons (stores : Stores list pairs)
    (cells : ∀ k, other.cells[k]? =
      if k = place then some (.storing segment head tail) else list.cells[k]?)
    (distinct : (head :: tail :: place :: (pairs.map Prod.fst ++ other.free)).Nodup)
    (inside : ∀ k ∈ head :: tail :: place :: (pairs.map Prod.fst ++ other.free),
      k < other.cells.size)
    (counted : other.length = list.length + 1) : Stores other ((place, segment) :: pairs) := by
  have same : ∀ k ≠ place, other.segment? k = list.segment? k := by
    intro k apart
    rw [segment?, cells, if_neg apart, segment?]
  have apart := distinct
  simp only [List.nodup_cons, List.mem_cons, not_or, List.mem_append, List.mem_map, not_exists,
    not_and] at apart
  constructor
  case holds =>
    intro pair member
    rcases List.mem_cons.mp member with rfl | member
    · rw [segment?, cells, if_pos rfl]
      rfl
    · rw [same pair.1 (apart.2.2.1.1 pair member), stores.holds pair member]
  case distinct => exact distinct
  case inside => exact inside
  case counted => rw [counted, stores.counted, List.length_cons]
  case ends => rw [same tail apart.2.1.1, stores.ends]

/-- Where only a cell that was not in use has other links, no row of those in use breaks. -/
theorem Stores.keepsRows (stores : Stores other ((place, segment) :: pairs))
    (same : ∀ k ≠ place, other.next? k = list.next? k ∧ other.previous? k = list.previous? k) :
    KeepsRows list other pairs := by
  intro places used linked
  have apart : ∀ k ∈ places, k ≠ place := by
    obtain ⟨not_head, not_tail, others⟩ := stores.fresh
    intro k member
    have known := used k member
    simp only [List.mem_cons, List.mem_map] at known
    rcases known with rfl | rfl | ⟨pair, inside, rfl⟩
    · exact not_head.symm
    · exact not_tail.symm
    · exact others pair inside
  exact linked.congr (fun k member => (same k (apart k ((List.dropLast_sublist _).mem member))).1)
    fun k member => (same k (apart k (List.mem_of_mem_tail member))).2

/-- A segment is stored in a cell that was not in use. -/
theorem Stores.exists_take (stores : Stores list pairs) (segment : Segment α) :
    ∃ place taken, list.take segment = some (place, taken) ∧
      Stores taken ((place, segment) :: pairs) ∧ KeepsRows list taken pairs := by
  have written {place : Nat} {taken : LinkedOverlay α}
      (cells : ∀ k, taken.cells[k]? =
        if k = place then some (.storing segment head tail) else list.cells[k]?)
      (stores : Stores taken ((place, segment) :: pairs)) :
      Stores taken ((place, segment) :: pairs) ∧ KeepsRows list taken pairs := by
    refine ⟨stores, stores.keepsRows ?_⟩
    intro k apart
    simp only [next?, previous?, cells, if_neg apart, and_self]
  have distinct := stores.distinct
  have inside := stores.inside
  unfold take
  cases free : list.free with
  | nil =>
      have cells (k : Nat) : (list.cells.push (.storing segment head tail))[k]? =
          if k = list.cells.size then some (.storing segment head tail) else list.cells[k]? :=
        Array.getElem?_push
      rw [free, List.append_nil] at distinct inside
      refine ⟨_, _, rfl, written cells (stores.cons cells ?_ ?_ rfl)⟩
      · have outside : list.cells.size ∉ head :: tail :: pairs.map Prod.fst :=
          fun member => Nat.lt_irrefl _ (inside _ member)
        grind
      · intro k member
        rw [Array.size_push]
        grind
  | cons place rest =>
      have bound : place < list.cells.size := stores.inside place (by simp [free])
      obtain ⟨changed, step, changed_cells, size, _, length⟩ :=
        exists_change place bound fun _ => .storing segment head tail
      have cells : ∀ k, changed.cells[k]? =
          if k = place then some (.storing segment head tail) else list.cells[k]? := by
        intro k
        rw [changed_cells]
        grind
      have moved : (head :: tail :: place :: (pairs.map Prod.fst ++ rest)).Perm
          (head :: tail :: (pairs.map Prod.fst ++ list.free)) := by
        rw [free]
        exact (List.perm_middle.symm.cons tail).cons head
      simp only [step, Option.bind_eq_bind, Option.bind_some]
      refine ⟨_, _, rfl, written cells (stores.cons cells (moved.nodup_iff.mpr distinct) ?_ ?_)⟩
      · intro k member
        rw [size]
        exact inside k (moved.mem_iff.mp member)
      · rw [length]

/-- A cell that is given up is no longer in use and can be taken again. -/
theorem Stores.exists_giveUp (stores : Stores list ((place, segment) :: pairs)) :
    ∃ left, list.giveUp place = some left ∧ Stores left pairs ∧ SameLinks list left := by
  obtain ⟨changed, step, links, cells, size, free, length⟩ :=
    exists_refill place (stores.inside place (by simp)) (fun cell => { cell with value := none })
      fun _ => ⟨rfl, rfl⟩
  have same : ∀ k ≠ place, changed.segment? k = list.segment? k := by
    intro k other
    rw [segment?, cells, if_neg other, segment?]
  obtain ⟨_, not_tail, others⟩ := stores.fresh
  have moved : (head :: tail :: (pairs.map Prod.fst ++ place :: list.free)).Perm
      (head :: tail :: (((place, segment) :: pairs).map Prod.fst ++ list.free)) :=
    (List.perm_middle.cons tail).cons head
  refine ⟨{ changed with free := place :: changed.free, length := pairs.length }, ?_, ?_, links⟩
  · simp [giveUp, step, length, stores.counted]
  constructor
  case holds =>
    intro pair member
    exact (same pair.1 (others pair member)).trans (stores.holds pair (by simp [member]))
  case distinct =>
    simp only [free]
    exact moved.nodup_iff.mpr stores.distinct
  case inside =>
    intro k member
    simp only [free] at member
    simp only [size]
    exact stores.inside k (moved.mem_iff.mp member)
  case counted => rfl
  case ends => exact (same tail not_tail.symm).trans stores.ends

end

section
variable {α : Type} [Clippable α] {list : LinkedOverlay α} {pairs : List (Nat × Segment α)}
  {place : Nat} {segment : Segment α}

/-- The value in a cell is told the range that the cell is given. -/
theorem Stores.exists_setRange (stores : Stores list ((place, segment) :: pairs))
    (start stop : Int) :
    ∃ changed, list.setRange place start stop = some changed ∧
      Stores changed ((place, segment.clip start stop) :: pairs) ∧ SameLinks list changed := by
  obtain ⟨changed, step, links, cells, size, free, length⟩ :=
    exists_refill place (stores.inside place (by simp))
      (fun cell => { cell with start, stop, value := cell.value.map (Clippable.clip · start stop) })
      fun _ => ⟨rfl, rfl⟩
  have same : ∀ k ≠ place, changed.segment? k = list.segment? k := by
    intro k other
    rw [segment?, cells, if_neg other, segment?]
  obtain ⟨_, not_tail, others⟩ := stores.fresh
  refine ⟨changed, step, ?_, links⟩
  constructor
  case holds =>
    intro pair member
    rcases List.mem_cons.mp member with rfl | member
    · obtain ⟨previous, next, found⟩ := exists_cell (stores.holds _ (List.mem_cons_self ..))
      rw [segment?, cells, if_pos rfl, found]
      rfl
    · rw [same pair.1 (others pair member), stores.holds pair (by simp [member])]
  case distinct => exact free ▸ stores.distinct
  case inside => exact size ▸ free ▸ stores.inside
  case counted => rw [length, stores.counted, List.length_cons, List.length_cons]
  case ends => rw [same tail not_tail.symm, stores.ends]

theorem Stores.exists_splitOff (stores : Stores list pairs) (member : (place, segment) ∈ pairs)
    (start stop : Int) :
    ∃ part split, list.splitOff place start stop = some (some part, split) ∧
      Stores split ((part, segment.clip start stop) :: pairs) ∧ KeepsRows list split pairs := by
  obtain ⟨previous, next, found⟩ := exists_cell (stores.holds _ member)
  obtain ⟨part, split, step, stored, keeps⟩ := stores.exists_take (segment.clip start stop)
  refine ⟨part, split, ?_, stored, keeps⟩
  rw [Segment.clip] at step
  simp only [splitOff, found, Cell.storing, Option.bind_eq_bind, Option.bind_some, step]
  rfl

omit [Clippable α] in
theorem Stores.splits_none (stores : Stores list pairs) :
    Splits list pairs [] (some (none, list)) :=
  ⟨none, list, rfl, rfl, stores, fun _ _ linked => linked⟩

theorem Stores.splits_before (stores : Stores list pairs) (member : (place, segment) ∈ pairs)
    (position : Int) :
    Splits list pairs (Overlay.before segment position) (list.splitBefore place position) := by
  obtain ⟨previous, next, found⟩ := exists_cell (stores.holds _ member)
  simp only [splitBefore, found, Cell.storing, Option.bind_eq_bind, Option.bind_some,
    Overlay.before]
  split
  · obtain ⟨part, split, step, stored, keeps⟩ :=
      stores.exists_splitOff member segment.start position
    exact ⟨some (part, segment.clip segment.start position), split, step, rfl, stored, keeps⟩
  · exact stores.splits_none

theorem Stores.splits_beyond (stores : Stores list pairs) (member : (place, segment) ∈ pairs)
    (position : Int) :
    Splits list pairs (Overlay.beyond segment position) (list.splitBeyond place position) := by
  obtain ⟨previous, next, found⟩ := exists_cell (stores.holds _ member)
  simp only [splitBeyond, found, Cell.storing, Option.bind_eq_bind, Option.bind_some,
    Overlay.beyond]
  split
  · obtain ⟨part, split, step, stored, keeps⟩ :=
      stores.exists_splitOff member position segment.stop
    exact ⟨some (part, segment.clip position segment.stop), split, step, rfl, stored, keeps⟩
  · exact stores.splits_none

end

end LinkedOverlay

end Haystack
