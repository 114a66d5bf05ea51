import Haystack.Chunk.Visible
import Haystack.Proofs.Overlay.Positions
import Haystack.Proofs.Position
import Mathlib.Data.List.Induction

/-!
# The chunk that counts at a position

Of the chunks that cover a position the one modified last counts, and of chunks modified at one
time the later one. What is visible at a position of a window is that chunk, from the place on
that the position has in it.
-/

namespace Haystack

theorem VisibleChunk.lastCounts : Clippable.LastCounts VisibleChunk := by
  intro value start stop low high
  change (value.clip start stop).clip low high = value.clip low high
  simp only [VisibleChunk.clip, VisibleChunk.mk.injEq, true_and, and_true]
  omega

namespace Chunk

/-- The chunk starts and stops at positions of a file. -/
structure Fits (chunk : Chunk) : Prop where
  low : -(2 ^ (63 : Nat)) ≤ chunk.offset
  high : chunk.offset + chunk.size ≤ maxPosition

instance (chunk : Chunk) : Decidable chunk.Fits :=
  decidable_of_iff (-(2 ^ (63 : Nat)) ≤ chunk.offset ∧ chunk.offset + chunk.size ≤ maxPosition)
    ⟨fun ⟨low, high⟩ => ⟨low, high⟩, fun fits => ⟨fits.low, fits.high⟩⟩

/-- The chunk has a byte for the position. -/
def Holds (chunk : Chunk) (position : Int) : Prop :=
  chunk.offset ≤ position ∧ position < chunk.offset + chunk.size

instance (chunk : Chunk) (position : Int) : Decidable (chunk.Holds position) := by
  unfold Holds; infer_instance

theorem Fits.stop_eq {chunk : Chunk} (fits : chunk.Fits) :
    chunk.stop = chunk.offset + chunk.size := by
  have low := fits.low
  rw [stop, wrapped_add_signed64]
  exact wrapped_of_fits (by omega) fits.high

/-- Whether a position lies in a chunk. -/
def covers (chunk : Chunk) (position : Int) : Bool :=
  chunk.offset ≤ position && position < chunk.stop

@[simp] theorem covers_iff (chunk : Chunk) (position : Int) :
    chunk.covers position = true ↔ chunk.offset ≤ position ∧ position < chunk.stop := by
  simp [covers]

theorem Fits.covers_iff {chunk : Chunk} (fits : chunk.Fits) (position : Int) :
    chunk.covers position = true ↔ chunk.Holds position := by
  rw [Chunk.covers_iff, fits.stop_eq, Holds]

/-- The chunk that counts at a position after one more chunk. -/
def contend (position : Int) (best : Option Chunk) (chunk : Chunk) : Option Chunk :=
  if chunk.covers position && best.all fun best => best.modified ≤ chunk.modified then some chunk
  else best

/-- The chunk that counts at a position. -/
def winner? (chunks : List Chunk) (position : Int) : Option Chunk :=
  chunks.foldl (contend position) none

theorem winner?_concat (chunks : List Chunk) (chunk : Chunk) (position : Int) :
    winner? (chunks ++ [chunk]) position = contend position (winner? chunks position) chunk := by
  simp [winner?]

/-- No chunk counts where none covers the position. -/
theorem winner?_eq_none_iff {chunks : List Chunk} {position : Int} :
    winner? chunks position = none ↔ ∀ chunk ∈ chunks, ¬chunk.covers position = true := by
  induction chunks using List.reverseRecOn with
  | nil => simp [winner?]
  | append_singleton chunks chunk ih =>
      rw [winner?_concat, contend]
      constructor
      · intro h
        split at h
        · cases h
        · rename_i loses
          rw [h, Option.all_none, Bool.and_true] at loses
          intro other member
          rcases List.mem_append.mp member with member | member
          · exact ih.mp h other member
          · rw [List.mem_singleton.mp member]
            exact loses
      · intro h
        have none := ih.mpr fun other member => h other (by simp [member])
        rw [none, Option.all_none, Bool.and_true, if_neg (h chunk (by simp))]

/-- The chunk that counts covers the position, no chunk before it that covers the position was
modified after it, and all chunks behind it that cover the position were modified before it. -/
theorem winner?_eq_some {chunks : List Chunk} {position : Int} {chunk : Chunk}
    (h : winner? chunks position = some chunk) :
    ∃ front back, chunks = front ++ chunk :: back ∧ chunk.covers position = true ∧
      (∀ other ∈ front, other.covers position = true → other.modified ≤ chunk.modified) ∧
      ∀ other ∈ back, other.covers position = true → other.modified < chunk.modified := by
  induction chunks using List.reverseRecOn generalizing chunk with
  | nil => cases h
  | append_singleton chunks last ih =>
      rw [winner?_concat, contend] at h
      split at h
      · rename_i wins
        obtain ⟨covers, newest⟩ := Bool.and_eq_true_iff.mp wins
        cases h
        refine ⟨chunks, [], rfl, covers, ?_, by simp⟩
        intro other member covered
        cases found : winner? chunks position with
        | none => exact absurd covered (winner?_eq_none_iff.mp found other member)
        | some best =>
            have le : best.modified ≤ last.modified := by simpa [found] using newest
            obtain ⟨front, back, rfl, _, low, high⟩ := ih found
            rcases List.mem_append.mp member with member | member
            · have := low other member covered
              omega
            rcases List.mem_cons.mp member with rfl | member
            · exact le
            · have := high other member covered
              omega
      · rename_i loses
        obtain ⟨front, back, rfl, covers, low, high⟩ := ih h
        refine ⟨front, back ++ [last], by simp, covers, low, ?_⟩
        intro other member covered
        rcases List.mem_append.mp member with member | member
        · exact high other member covered
        · rw [List.mem_singleton.mp member] at covered ⊢
          simpa [h, covered, -covers_iff] using loses

theorem mem_of_winner? {chunks : List Chunk} {position : Int} {chunk : Chunk}
    (h : winner? chunks position = some chunk) : chunk ∈ chunks := by
  obtain ⟨front, back, rfl, _⟩ := winner?_eq_some h
  simp

theorem covers_of_winner? {chunks : List Chunk} {position : Int} {chunk : Chunk}
    (h : winner? chunks position = some chunk) :
    chunk.offset ≤ position ∧ position < chunk.stop := by
  obtain ⟨_, _, _, covers, _⟩ := winner?_eq_some h
  exact (covers_iff chunk position).mp covers

/-- A visible segment shows a chunk: it counts from the time of the chunk, and its value is the
part of the chunk in its range. -/
def Visible (chunk : Chunk) (segment : Segment VisibleChunk) : Prop :=
  segment.time = chunk.modified ∧
    Clippable.Cut (VisibleChunk.ofChunk chunk) segment.start segment.stop segment.value

theorem Visible.piece {chunk : Chunk} {segment part : Segment VisibleChunk}
    (visible : chunk.Visible segment) (piece : segment.Piece part) : chunk.Visible part :=
  ⟨by rw [piece.time_eq, visible.1], piece.cut visible.2⟩

theorem visible_make (chunk : Chunk) (start stop : Int) :
    chunk.Visible (.make start stop chunk.modified (.ofChunk chunk)) :=
  ⟨rfl, .once start stop⟩

theorem Visible.value_eq {chunk : Chunk} {segment : Segment VisibleChunk}
    (visible : chunk.Visible segment) :
    segment.value = (VisibleChunk.ofChunk chunk).clip segment.start segment.stop :=
  visible.2.eq_clip VisibleChunk.lastCounts

theorem resolve_concat (chunks : List Chunk) (chunk : Chunk) (start stop : Int) :
    resolve (chunks ++ [chunk]) start stop =
      addVisible start stop (resolve chunks start stop) chunk := by
  simp [resolve]

theorem ordered_resolve (chunks : List Chunk) (start stop : Int) :
    Overlay.Ordered (resolve chunks start stop) := by
  induction chunks using List.reverseRecOn with
  | nil => exact Overlay.ordered_nil
  | append_singleton chunks chunk ih =>
      rw [resolve_concat]
      exact Overlay.ordered_insert ih _ _ _ _

/-- Every visible segment shows a chunk, and lies within the chunk and the window. -/
theorem visible_of_mem_resolve {chunks : List Chunk} {start stop : Int}
    {segment : Segment VisibleChunk} (member : segment ∈ resolve chunks start stop) :
    ∃ chunk ∈ chunks, chunk.Visible segment ∧
      max chunk.offset start ≤ segment.start ∧ segment.stop ≤ min chunk.stop stop := by
  induction chunks using List.reverseRecOn generalizing segment with
  | nil => cases member
  | append_singleton chunks chunk ih =>
      rw [resolve_concat] at member
      rcases Overlay.piece_of_mem_insert (ordered_resolve chunks start stop) member with
        piece | ⟨whole, inside, piece⟩
      · exact ⟨chunk, by simp, (visible_make chunk _ _).piece piece, piece.within⟩
      · obtain ⟨other, present, visible, low, high⟩ := ih inside
        have within := piece.within
        exact ⟨other, by simp [present], visible.piece piece, by omega, by omega⟩

/-- What is visible at a position within a window is the chunk that counts there. -/
theorem visible_at {start stop position : Int} (low : start ≤ position) (high : position < stop)
    (chunks : List Chunk) :
    (winner? chunks position).Rel Visible ((resolve chunks start stop).at? position) := by
  induction chunks using List.reverseRecOn with
  | nil => exact .none
  | append_singleton chunks chunk ih =>
      rw [resolve_concat, winner?_concat, contend]
      have seen := Overlay.at?_insert (ordered_resolve chunks start stop)
        (max chunk.offset start) (min chunk.stop stop) chunk.modified (.ofChunk chunk) position
      have same : (Segment.make (max chunk.offset start) (min chunk.stop stop) chunk.modified
          (VisibleChunk.ofChunk chunk)).covers position = chunk.covers position := by
        rw [Bool.eq_iff_iff, Segment.covers_iff, covers_iff, Segment.make_start, Segment.make_stop]
        omega
      rw [Overlay.settled, same] at seen
      revert ih seen
      generalize winner? chunks position = best, (resolve chunks start stop).at? position = old
      intro ih seen
      by_cases covers : chunk.covers position
      · rw [if_pos covers] at seen
        rw [covers, Bool.true_and]
        cases ih with
        | none => exact Overlay.rel_of_rel_piece (.some (visible_make chunk _ _)) seen .piece
        | @some best old visible =>
            simp only [Overlay.newer, Segment.make_time, visible.1, Option.all_some,
              decide_eq_true_eq] at seen ⊢
            by_cases le : best.modified ≤ chunk.modified
            · rw [if_pos le] at seen ⊢
              exact Overlay.rel_of_rel_piece (.some (visible_make chunk _ _)) seen .piece
            · rw [if_neg le] at seen ⊢
              exact Overlay.rel_of_rel_piece (.some visible) seen .piece
      · rw [if_neg covers] at seen
        rw [if_neg (by simp [covers, -covers_iff])]
        exact Overlay.rel_of_rel_piece ih seen .piece

end Chunk

end Haystack
