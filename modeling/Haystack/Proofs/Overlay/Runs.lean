import Haystack.Proofs.Overlay.Positions
import Mathlib.Data.List.Dedup

/-!
# Segments as runs

Let every segment have a label that cutting keeps. Where no two segments that touch have the same
label, each segment is a longest range of positions that show its label, so that the labels seen at
the positions tell the ranges of all segments. Laying a segment with a label of its own over such an
overlay, where nothing newer is, gives one again: neither the new segment nor an old one is ever cut
where nothing comes between the parts.
-/

namespace Haystack

namespace Overlay

open Segment

section

variable {α β : Type} {label : Segment α → β}

/-- No two segments that touch have the same label. -/
def Parted (label : Segment α → β) (list : Overlay α) : Prop :=
  list.Pairwise fun segment next => segment.stop = next.start → label segment ≠ label next

/-- The label seen at a position. -/
def labelAt? (label : Segment α → β) (list : Overlay α) (position : Int) : Option β :=
  (at? list position).map label

/-- A segment is a longest range of positions that show its label. -/
structure Run (shown : Int → Option β) (label : Segment α → β) (segment : Segment α) : Prop where
  inside : ∀ position, segment.start ≤ position → position < segment.stop →
    shown position = some (label segment)
  before : shown (segment.start - 1) ≠ some (label segment)
  behind : shown segment.stop ≠ some (label segment)

theorem Parted.label_ne {list : Overlay α} (parted : Parted label list) (ordered : Ordered list)
    {segment next : Segment α} (member : segment ∈ list) (present : next ∈ list)
    (touches : segment.stop = next.start) : label segment ≠ label next := by
  obtain ⟨place, inside, rfl⟩ := List.mem_iff_getElem.mp member
  obtain ⟨other, within, rfl⟩ := List.mem_iff_getElem.mp present
  have proper := ordered.proper _ member
  have follows := ordered.proper _ present
  obtain before | rfl | behind := Nat.lt_trichotomy place other
  · exact List.pairwise_iff_getElem.mp parted _ _ inside within before touches
  · omega
  · have := List.pairwise_iff_getElem.mp ordered.apart _ _ within inside behind
    omega

theorem covers_of_labelAt? {list : Overlay α} {position : Int} {mark : β}
    (shown : labelAt? label list position = some mark) :
    ∃ segment ∈ list, label segment = mark ∧ segment.start ≤ position ∧ position < segment.stop := by
  obtain ⟨segment, found, same⟩ := Option.map_eq_some_iff.mp shown
  exact ⟨segment, mem_of_at? found, same, covers_of_at? found⟩

theorem Ordered.stop_le_start {list : Overlay α} (ordered : Ordered list)
    {segment next : Segment α} (member : segment ∈ list) (present : next ∈ list)
    (less : segment.start < next.start) : segment.stop ≤ next.start := by
  by_contra reaches
  have first : at? list next.start = some segment :=
    at?_of_covers ordered member (Int.le_of_lt less) (Int.lt_of_not_ge reaches)
  have second := at?_start ordered present
  rw [first] at second
  obtain rfl := Option.some.inj second
  omega

/-- The segments of a parted overlay are runs of the labels that it shows. -/
theorem run_of_mem {list : Overlay α} (ordered : Ordered list) (parted : Parted label list)
    {segment : Segment α} (member : segment ∈ list) :
    Run (labelAt? label list) label segment := by
  have proper := ordered.proper segment member
  refine ⟨?_, ?_, ?_⟩
  · intro position low high
    rw [labelAt?, at?_of_covers ordered member low high, Option.map_some]
  · intro shown
    obtain ⟨other, present, same, low, high⟩ := covers_of_labelAt? shown
    have touches := ordered.stop_le_start present member (by omega)
    exact parted.label_ne ordered present member (by omega) same
  · intro shown
    obtain ⟨other, present, same, low, high⟩ := covers_of_labelAt? shown
    have touches : segment.stop ≤ other.start := by
      obtain less | more := Int.lt_or_le segment.start other.start
      · exact ordered.stop_le_start member present less
      · have first := at?_start ordered member
        rw [at?_of_covers ordered present more (by omega)] at first
        obtain rfl := Option.some.inj first
        omega
    exact parted.label_ne ordered member present (by omega) same.symm

/-- Runs of the same labels that meet have one range. -/
theorem Run.range_eq {shown : Int → Option β} {segment other : Segment α}
    (run : Run shown label segment) (again : Run shown label other)
    (low : other.start ≤ segment.start) (high : segment.start < other.stop)
    (proper : segment.start < segment.stop) :
    label other = label segment ∧ other.start = segment.start ∧ other.stop = segment.stop := by
  have same : label other = label segment := by
    have first := run.inside segment.start (Int.le_refl _) proper
    rw [again.inside segment.start low high] at first
    exact Option.some.inj first
  refine ⟨same, ?_, ?_⟩
  · by_contra apart
    have reaches := again.inside (segment.start - 1) (by omega) (by omega)
    rw [same] at reaches
    exact run.before reaches
  · by_contra apart
    obtain less | more := Int.lt_or_gt_of_ne apart
    · have reaches := run.inside other.stop (by omega) less
      rw [← same] at reaches
      exact again.behind reaches
    · have reaches := again.inside segment.stop (by omega) more
      rw [same] at reaches
      exact run.behind reaches

variable {list other : Overlay α}

theorem mem_of_labelAt?_eq (ordered : Ordered list) (parted : Parted label list)
    (other_ordered : Ordered other) (other_parted : Parted label other)
    (told : ∀ segment ∈ list, ∀ next ∈ other, label next = label segment →
      next.start = segment.start → next.stop = segment.stop → next = segment)
    (same : ∀ position, labelAt? label list position = labelAt? label other position)
    {segment : Segment α} (member : segment ∈ list) : segment ∈ other := by
  have run := run_of_mem ordered parted member
  have proper := ordered.proper segment member
  have shown := run.inside segment.start (Int.le_refl _) proper
  rw [same] at shown
  obtain ⟨next, present, _, low, high⟩ := covers_of_labelAt? shown
  have again := run_of_mem other_ordered other_parted present
  rw [← funext same] at again
  obtain ⟨like, start, stop⟩ := run.range_eq again low high proper
  exact told segment member next present like start stop ▸ present

theorem Ordered.nodup (ordered : Ordered list) : list.Nodup := by
  refine List.Pairwise.imp_of_mem ?_ ordered.apart
  intro segment next member _ apart same
  have := ordered.proper segment member
  rw [← same] at apart
  omega

/-- A parted overlay is told by the labels that it shows, if a label and a range tell a segment. -/
theorem eq_of_labelAt?_eq (ordered : Ordered list) (parted : Parted label list)
    (other_ordered : Ordered other) (other_parted : Parted label other)
    (told : ∀ segment ∈ list, ∀ next ∈ other, label next = label segment →
      next.start = segment.start → next.stop = segment.stop → next = segment)
    (same : ∀ position, labelAt? label list position = labelAt? label other position) :
    list = other := by
  have members : list.Perm other := by
    rw [List.perm_ext_iff_of_nodup ordered.nodup other_ordered.nodup]
    intro segment
    constructor
    · exact mem_of_labelAt?_eq ordered parted other_ordered other_parted told same
    · refine mem_of_labelAt?_eq other_ordered other_parted ordered parted ?_
        fun position => (same position).symm
      intro segment member next present like start stop
      exact (told next present segment member like.symm start.symm stop.symm).symm
  refine members.eq_of_pairwise ?_ ordered.apart other_ordered.apart
  intro segment next member present before behind
  have := ordered.proper segment member
  have := other_ordered.proper next present
  omega

end

section

variable {α β : Type} [Clippable α] {label : Segment α → β}

/-- Cutting a segment does not change its label. -/
def Lasting (label : Segment α → β) : Prop :=
  ∀ (segment : Segment α) (start stop : Int), label (segment.clip start stop) = label segment

theorem Lasting.piece (lasting : Lasting label) {whole part : Segment α}
    (piece : Piece whole part) : label part = label whole := by
  induction piece with
  | whole => rfl
  | clip _ _ _ ih => rw [lasting, ih]

theorem Lasting.since (lasting : Lasting label) (segment : Segment α) (position : Int) :
    label (since segment position) = label segment :=
  lasting.piece (.since .whole)

theorem parts_settle (lasting : Lasting label) {old new : Segment α} {rest : Overlay α}
    (ordered : Ordered (old :: rest)) (parted : Parted label (old :: rest))
    (fresh : label old ≠ label new) (proper : new.start < new.stop) :
    ∀ next ∈ settle new rest, old.stop = next.start → label old ≠ label next := by
  obtain ⟨_, behind, later⟩ := ordered_cons.mp ordered
  intro next member touches
  obtain piece | ⟨whole, inside, piece⟩ := piece_of_mem_settle later proper member
  · rwa [lasting.piece piece]
  · have above := behind whole inside
    have within := piece.within
    rw [lasting.piece piece]
    exact (List.pairwise_cons.mp parted).1 whole inside (by omega)

/-- Where a new segment meets one that is not newer, the parts of that one lie on both sides. -/
theorem parted_over (lasting : Lasting label) {new old : Segment α} {rest later : Overlay α}
    (ordered : Ordered (old :: rest)) (parted : Parted label (old :: rest))
    (fresh : ∀ segment ∈ old :: rest, label segment ≠ label new) (proper : new.start < new.stop)
    (meets : new.start < old.stop) (settled : Parted label later)
    (origin : ∀ next ∈ later, Piece new next ∨ ∃ segment ∈ rest, Piece segment next) :
    Parted label (before old new.start ++ if new.stop < old.stop then
      new :: (since old new.start).clip new.stop old.stop :: rest else later) := by
  obtain ⟨_, behind, _⟩ := ordered_cons.mp ordered
  obtain ⟨old_parts, rest_parted⟩ := List.pairwise_cons.mp parted
  have unlike : label old ≠ label new := fresh old (by simp)
  have remainder : label ((since old new.start).clip new.stop old.stop) = label old := by
    rw [lasting, lasting.since]
  refine List.pairwise_append.mpr ⟨?_, ?_, ?_⟩
  · unfold before
    split
    · exact List.pairwise_singleton ..
    · exact .nil
  · split
    · refine List.pairwise_cons.mpr ⟨?_, List.pairwise_cons.mpr ⟨?_, rest_parted⟩⟩
      · intro next member _
        rcases List.mem_cons.mp member with rfl | member
        · rw [remainder]
          exact unlike.symm
        · exact (fresh next (by simp [member])).symm
      · intro next member
        rw [remainder]
        exact old_parts next member
    · exact settled
  · intro segment member next inside touches
    obtain ⟨_, rfl⟩ := mem_before member
    rw [clip_stop] at touches
    rw [lasting]
    split at inside
    · simp only [List.mem_cons] at inside
      rcases inside with rfl | rfl | inside
      · exact unlike
      · rw [clip_start] at touches
        omega
      · have := behind next inside
        omega
    · obtain piece | ⟨whole, present, piece⟩ := origin next inside
      · rwa [lasting.piece piece]
      · have := behind whole present
        have := piece.within
        omega

/-- Where a new segment meets a newer one, its own parts lie on both sides. -/
theorem parted_under (lasting : Lasting label) {new old : Segment α} {rest later : Overlay α}
    (proper : old.start < old.stop)
    (fresh : ∀ segment ∈ old :: rest, label segment ≠ label new)
    (settled : Parted label (old :: later)) (untouched : Parted label (old :: rest))
    (behind : ∀ next ∈ later, old.stop ≤ next.start) (above : ∀ next ∈ rest, old.stop ≤ next.start) :
    Parted label (before new old.start ++ old :: if old.stop < new.stop then later else rest) := by
  have from_old : Parted label (old :: if old.stop < new.stop then later else rest) := by
    split
    · exact settled
    · exact untouched
  refine List.pairwise_append.mpr ⟨?_, from_old, ?_⟩
  · unfold before
    split
    · exact List.pairwise_singleton ..
    · exact .nil
  · intro segment member next inside touches
    obtain ⟨_, rfl⟩ := mem_before member
    rw [clip_stop] at touches
    rw [lasting]
    rcases List.mem_cons.mp inside with rfl | inside
    · exact (fresh next (by simp)).symm
    · have beyond : old.stop ≤ next.start := by
        split at inside
        · exact behind next inside
        · exact above next inside
      omega

/-- A segment with a label of its own leaves an overlay parted. -/
theorem parted_settle (lasting : Lasting label) {new : Segment α} {list : Overlay α}
    (ordered : Ordered list) (parted : Parted label list) (proper : new.start < new.stop)
    (fresh : ∀ segment ∈ list, label segment ≠ label new) : Parted label (settle new list) := by
  induction list generalizing new with
  | nil => exact List.pairwise_singleton ..
  | cons old rest ih =>
      obtain ⟨first, behind, later⟩ := ordered_cons.mp ordered
      obtain ⟨old_parts, rest_parted⟩ := List.pairwise_cons.mp parted
      have rest_fresh : ∀ segment ∈ rest, label segment ≠ label new := fun segment member =>
        fresh segment (by simp [member])
      have unlike : label old ≠ label new := fresh old (by simp)
      unfold settle
      split
      · exact List.pairwise_cons.mpr ⟨fun next member _ => (fresh next member).symm, parted⟩
      split
      · exact List.pairwise_cons.mpr ⟨parts_settle lasting ordered parted unlike proper,
          ih later rest_parted proper rest_fresh⟩
      split
      · exact parted_over lasting ordered parted fresh proper (by omega)
          (ih later rest_parted proper rest_fresh)
          fun next member => piece_of_mem_settle later proper member
      · by_cases stops : old.stop < new.stop
        · have same : label ((since new old.start).clip old.stop new.stop) = label new := by
            rw [lasting, lasting.since]
          have settled : Parted label
              (old :: settle ((since new old.start).clip old.stop new.stop) rest) := by
            refine List.pairwise_cons.mpr ⟨?_, ih later rest_parted stops ?_⟩
            · exact parts_settle lasting ordered parted (by rwa [same]) stops
            · rwa [same]
          exact parted_under lasting first fresh settled parted
            (le_start_settle behind (Int.le_refl _) later) behind
        · have untouched := parted_under lasting first fresh parted parted behind behind
          rw [if_neg stops] at untouched ⊢
          exact untouched

theorem parted_insert (lasting : Lasting label) {list : Overlay α} (ordered : Ordered list)
    (parted : Parted label list) {start stop time : Int} {value : α}
    (fresh : start < stop → ∀ segment ∈ list, label segment ≠ label (make start stop time value)) :
    Parted label (insert list start stop time value) := by
  unfold insert
  split
  · rename_i proper
    exact parted_settle lasting ordered parted proper (fresh proper)
  · exact parted

end

end Overlay

end Haystack
