import Haystack.Proofs.Chunk.Winner
import Haystack.Proofs.Overlay.Runs
import Mathlib.Data.List.Pairwise

/-!
# Chunks in another order

A visible segment tells the chunk that it shows. If chunks that overlap were modified at different
times, one of them counts at each position whatever their order is, and a chunk is cut only where
another one comes between. So the same segments are visible in whatever order the chunks are added.
-/

namespace Haystack.Chunk

open Overlay Segment

/-- The chunk that a visible segment was cut from. -/
def shownBy (segment : Segment VisibleChunk) : Chunk :=
  { fileId := segment.value.fileId
    offset := segment.value.start - segment.value.offsetInChunk
    size := segment.value.chunkSize
    modified := segment.value.modified
    cipherKey := segment.value.cipherKey
    isCompressed := segment.value.isCompressed }

theorem Visible.shownBy_eq {chunk : Chunk} {segment : Segment VisibleChunk}
    (visible : chunk.Visible segment) : shownBy segment = chunk := by
  have offset : segment.start - (0 + (segment.start - chunk.offset)) = chunk.offset := by omega
  unfold shownBy
  rw [visible.value_eq]
  change { chunk with offset := segment.start - (0 + (segment.start - chunk.offset)) } = chunk
  rw [offset]

theorem Visible.unique {chunk : Chunk} {segment other : Segment VisibleChunk}
    (visible : chunk.Visible segment) (again : chunk.Visible other)
    (start : other.start = segment.start) (stop : other.stop = segment.stop) : other = segment := by
  have value := again.value_eq
  rw [start, stop, ← visible.value_eq] at value
  have time : other.time = segment.time := again.1.trans visible.1.symm
  cases other
  cases segment
  simp_all only

theorem lasting_shownBy : Lasting shownBy := by
  intro segment start stop
  have offset : start - (segment.value.offsetInChunk + (start - segment.value.start)) =
      segment.value.start - segment.value.offsetInChunk := by omega
  change { shownBy segment with
    offset := start - (segment.value.offsetInChunk + (start - segment.value.start)) } = _
  rw [offset]
  rfl

/-- The chunks have a position in common. -/
def Overlaps (chunk other : Chunk) : Prop :=
  max chunk.offset other.offset < min chunk.stop other.stop

instance (chunk other : Chunk) : Decidable (chunk.Overlaps other) := by
  unfold Overlaps; infer_instance

theorem overlaps_iff {chunk other : Chunk} : chunk.Overlaps other ↔
    ∃ position, chunk.covers position = true ∧ other.covers position = true := by
  simp only [covers_iff, Overlaps]
  constructor
  · intro common
    exact ⟨max chunk.offset other.offset, by omega, by omega⟩
  · rintro ⟨position, first, second⟩
    omega

/-- If the chunks overlap they were modified at different times. -/
def DatedApart (chunk other : Chunk) : Prop :=
  chunk.Overlaps other → chunk.modified ≠ other.modified

instance (chunk other : Chunk) : Decidable (chunk.DatedApart other) := by
  unfold DatedApart; infer_instance

theorem DatedApart.symm {chunk other : Chunk} (apart : chunk.DatedApart other) :
    other.DatedApart chunk := by
  intro overlaps same
  obtain ⟨position, first, second⟩ := overlaps_iff.mp overlaps
  exact apart (overlaps_iff.mpr ⟨position, second, first⟩) same.symm

instance : Std.Symm DatedApart :=
  ⟨fun _ _ => DatedApart.symm⟩

/-- Any two chunks that overlap were modified at different times. -/
def Dated (chunks : List Chunk) : Prop :=
  chunks.Pairwise DatedApart

instance (chunks : List Chunk) : Decidable (Dated chunks) := by
  unfold Dated; infer_instance

variable {chunks others : List Chunk}

theorem Dated.modified_ne (dated : Dated chunks) {chunk other : Chunk} (member : chunk ∈ chunks)
    (present : other ∈ chunks) (apart : chunk ≠ other) {position : Int}
    (first : chunk.covers position = true) (second : other.covers position = true) :
    chunk.modified ≠ other.modified :=
  dated.forall member present apart (overlaps_iff.mpr ⟨position, first, second⟩)

theorem modified_le_of_winner? {position : Int} {chunk : Chunk}
    (found : winner? chunks position = some chunk) {other : Chunk} (member : other ∈ chunks)
    (covered : other.covers position = true) : other.modified ≤ chunk.modified := by
  obtain ⟨front, back, rfl, _, low, high⟩ := winner?_eq_some found
  rcases List.mem_append.mp member with member | member
  · exact low other member covered
  rcases List.mem_cons.mp member with rfl | member
  · exact Int.le_refl _
  · exact Int.le_of_lt (high other member covered)

/-- Which chunk counts at a position does not depend on the order. -/
theorem winner?_perm (dated : Dated chunks) (perm : chunks.Perm others) (position : Int) :
    winner? chunks position = winner? others position := by
  cases found : winner? chunks position with
  | none =>
      have uncovered := winner?_eq_none_iff.mp found
      exact (winner?_eq_none_iff.mpr fun other member =>
        uncovered other (perm.mem_iff.mpr member)).symm
  | some chunk =>
      have member := mem_of_winner? found
      have covered := (covers_iff chunk position).mpr (covers_of_winner? found)
      cases again : winner? others position with
      | none =>
          exact absurd covered (winner?_eq_none_iff.mp again chunk (perm.mem_iff.mp member))
      | some other =>
          have present := perm.mem_iff.mpr (mem_of_winner? again)
          have reached := (covers_iff other position).mpr (covers_of_winner? again)
          have newest := modified_le_of_winner? found present reached
          have latest := modified_le_of_winner? again (perm.mem_iff.mp member) covered
          by_contra apart
          refine dated.modified_ne member present ?_ covered reached (by omega)
          exact fun same => apart (congrArg some same)

/-- Segments that touch show different chunks. -/
theorem parted_resolve (dated : Dated chunks) (start stop : Int) :
    Parted shownBy (resolve chunks start stop) := by
  induction chunks using List.reverseRecOn with
  | nil => exact .nil
  | append_singleton chunks chunk ih =>
      obtain ⟨before, _, last⟩ := List.pairwise_append.mp dated
      rw [resolve_concat]
      refine parted_insert lasting_shownBy (ordered_resolve chunks start stop) (ih before) ?_
      intro proper segment member
      obtain ⟨other, present, visible, _, _⟩ := visible_of_mem_resolve member
      rw [visible.shownBy_eq, (visible_make chunk _ _).shownBy_eq]
      rintro rfl
      have overlaps : other.Overlaps other := by
        unfold Overlaps
        omega
      exact last other present other (List.mem_singleton.mpr rfl) overlaps rfl

/-- The chunk seen at a position of the window is the one that counts there. -/
theorem labelAt?_resolve (chunks : List Chunk) (start stop position : Int) :
    labelAt? shownBy (resolve chunks start stop) position =
      if start ≤ position ∧ position < stop then winner? chunks position else none := by
  unfold labelAt?
  split
  · rename_i inside
    have visible := visible_at inside.1 inside.2 chunks
    revert visible
    generalize winner? chunks position = best, (resolve chunks start stop).at? position = seen
    intro visible
    cases visible with
    | none => rfl
    | some visible => rw [Option.map_some, visible.shownBy_eq]
  · rename_i outside
    cases seen : (resolve chunks start stop).at? position with
    | none => rfl
    | some segment =>
        obtain ⟨_, _, _, low, high⟩ := visible_of_mem_resolve (mem_of_at? seen)
        have covered := covers_of_at? seen
        omega

/-- If chunks that overlap were modified at different times, the same segments are visible in every
window in whatever order the chunks are added: not only the same chunk at each position, but the
same ranges, times and values. -/
theorem resolve_perm (dated : Dated chunks) (perm : chunks.Perm others) (start stop : Int) :
    resolve chunks start stop = resolve others start stop := by
  have dated_others : Dated others := (perm.pairwise_iff DatedApart.symm).mp dated
  refine eq_of_labelAt?_eq (ordered_resolve chunks start stop) (parted_resolve dated start stop)
    (ordered_resolve others start stop) (parted_resolve dated_others start stop) ?_ ?_
  · intro segment member next present same from_start to_stop
    obtain ⟨chunk, _, visible, _⟩ := visible_of_mem_resolve member
    obtain ⟨other, _, again, _⟩ := visible_of_mem_resolve present
    rw [visible.shownBy_eq, again.shownBy_eq] at same
    rw [same] at again
    exact visible.unique again from_start to_stop
  · intro position
    rw [labelAt?_resolve, labelAt?_resolve, winner?_perm dated perm]

/-- Three chunks that are cut by each other, in two orders. -/
theorem three_chunks_resolve_perm :
    let oldest : Chunk := { fileId := "1,a", offset := 0, size := 100, modified := 1 }
    let newest : Chunk := { fileId := "1,b", offset := 40, size := 20, modified := 3 }
    let other : Chunk := { fileId := "1,c", offset := 50, size := 100, modified := 2 }
    Dated [oldest, newest, other] ∧ [oldest, newest, other].Perm [other, newest, oldest] ∧
      resolve [oldest, newest, other] 0 120 = resolve [other, newest, oldest] 0 120 ∧
      (resolve [oldest, newest, other] 0 120).map (fun segment =>
        (segment.start, segment.stop, segment.value.fileId, segment.value.offsetInChunk)) =
          [(0, 40, "1,a", 0), (40, 60, "1,b", 0), (60, 120, "1,c", 10)] := by
  intro oldest newest other
  have dated : Dated [oldest, newest, other] := by decide
  have perm : [oldest, newest, other].Perm [other, newest, oldest] := by decide
  exact ⟨dated, perm, resolve_perm dated perm 0 120, by decide⟩

end Haystack.Chunk
