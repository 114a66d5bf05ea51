import Haystack.Proofs.Erasure.Dealing
import Mathlib.Data.Set.Function

/-!
# Places in the shards

Each byte of a volume has a place: a data shard and an offset in it. The place tells the block and
the start within the block again, so no two bytes share a place. If the shards are made of whole
small blocks, the bytes in front of their common end fill them exactly. All this as long as the
bytes have positions.
-/

namespace Haystack.Erasure

namespace Layout

variable {layout : Layout} {piece : Piece}

/-- The shard of a byte of the volume and its offset in the shard. -/
def place (layout : Layout) (position : Int) : Nat × Int :=
  ((layout.pieceAt position).shard, layout.shardOffset (layout.pieceAt position))

/-- How far the large blocks reach into each shard. -/
def largeDepth (layout : Layout) : Int :=
  layout.largeRows * layout.blockLength true

theorem Fits.largeTotal_eq_depth (fits : layout.Fits) :
    layout.largeTotal = dataShards * layout.largeDepth := by
  rw [fits.largeTotal_eq, largeDepth]
  ring

theorem Places.depth_lt_iff_large (places : layout.Places piece) (fits : layout.Fits) :
    layout.depth piece < layout.largeDepth ↔ piece.isLarge = true := by
  have nonneg := places.nonneg
  have inside := places.start
  have positive := fits.blockLength_pos piece.isLarge
  have before : 0 ≤ layout.blockLength piece.isLarge * (piece.block / dataShards : Nat) :=
    Int.mul_nonneg (Int.le_of_lt positive) (Int.natCast_nonneg _)
  unfold depth shardOrigin largeDepth
  cases size : piece.isLarge with
  | true =>
      have row : piece.block / dataShards < layout.largeRows :=
        Nat.div_lt_of_lt_mul (by rw [Nat.mul_comm]; exact places.block size)
      have next : ((piece.block / dataShards : Nat) + 1 : Int) ≤ layout.largeRows := by
        exact_mod_cast row
      rw [size] at inside positive
      simp only [if_true, Int.zero_add, iff_true]
      calc piece.start + layout.blockLength true * (piece.block / dataShards : Nat)
          < ((piece.block / dataShards : Nat) + 1) * layout.blockLength true := by
            rw [Int.add_mul, Int.one_mul, Int.mul_comm]
            omega
        _ ≤ layout.largeRows * layout.blockLength true :=
            Int.mul_le_mul_of_nonneg_right next (Int.le_of_lt positive)
  | false =>
      rw [size] at before
      simp only [Bool.false_eq_true, if_false, iff_false]
      omega

theorem Fits.place_eq (fits : layout.Fits) {position : Int} (first : 0 ≤ position)
    (last : position ≤ maxPosition) : layout.place position =
      ((layout.pieceAt position).shard, layout.depth (layout.pieceAt position)) := by
  have places := fits.places_pieceAt first last
  have start := fits.position_pieceAt first last
  rw [place, places.shardOffset_eq fits (by omega)]

/-- The shards are made of whole small blocks, and so are the large blocks. -/
structure IsWhole (layout : Layout) : Prop where
  sound : layout.IsSound
  positive : 0 < layout.shardLength
  large : layout.smallBlock ∣ layout.largeBlock
  shard : layout.smallBlock ∣ layout.shardLength
  volume : dataShards * layout.shardLength ≤ 2 ^ 63

theorem IsWhole.largeRows_eq (whole : layout.IsWhole) :
    (layout.largeRows : Int) = (layout.shardLength - 1) / layout.largeBlock := by
  have positive := whole.positive
  have volume := whole.volume
  unfold dataShards at volume
  have wide : wrapped (layout.shardLength - 1) = layout.shardLength - 1 :=
    wrapped_of_fits (by omega) (by unfold maxPosition; omega)
  rw [largeRows, wide, Int.tdiv_eq_ediv_of_nonneg (by omega), Int.toNat_of_nonneg]
  exact Int.ediv_nonneg (by omega) (Int.le_of_lt whole.sound.1)

theorem IsWhole.largeDepth_lt (whole : layout.IsWhole) :
    layout.largeDepth < layout.shardLength := by
  have below := Int.ediv_mul_le (layout.shardLength - 1) (Int.ne_of_gt whole.sound.1)
  change layout.largeRows * layout.largeBlock < _
  rw [whole.largeRows_eq]
  omega

theorem IsWhole.fits (whole : layout.IsWhole) : layout.Fits := by
  refine ⟨whole.sound, ?_⟩
  have deep := whole.largeDepth_lt
  have volume := whole.volume
  have total : layout.largeRows * (layout.largeBlock * dataShards) =
      dataShards * layout.largeDepth := by
    change _ = dataShards * (layout.largeRows * layout.largeBlock)
    ring
  rw [total]
  unfold dataShards at volume ⊢
  unfold maxPosition
  omega

theorem IsWhole.exists_rows (whole : layout.IsWhole) :
    ∃ rows, layout.shardLength = layout.largeDepth + layout.blockLength false * rows := by
  have divides : layout.smallBlock ∣ layout.largeDepth := whole.large.mul_left _
  obtain ⟨rest, rest_eq⟩ := Int.dvd_sub whole.shard divides
  refine ⟨rest, ?_⟩
  change _ = _ + layout.smallBlock * rest
  omega

theorem lt_mul_iff {start length rows row : Int} (nonneg : 0 ≤ start) (inside : start < length) :
    start + length * row < length * rows ↔ row < rows := by
  have positive : 0 < length := by omega
  have quotient : (start + length * row) / length = row := by
    rw [Int.add_mul_ediv_left _ _ (Int.ne_of_gt positive), Int.ediv_eq_zero_of_lt nonneg inside,
      Int.zero_add]
  rw [Int.mul_comm length rows, ← Int.ediv_lt_iff_lt_mul positive, quotient]

/-- The first rows of blocks in the volume are the first rows of blocks on each shard. -/
theorem row_lt_iff {block : Nat} {start length rows : Int} (nonneg : 0 ≤ start)
    (inside : start < length) :
    start + length * (block / dataShards : Nat) < length * rows ↔
      block * length + start < dataShards * (length * rows) := by
  calc start + length * (block / dataShards : Nat) < length * rows
      ↔ ((block / dataShards : Nat) : Int) < rows := lt_mul_iff nonneg inside
    _ ↔ (block : Int) < rows * dataShards := by
        unfold dataShards
        omega
    _ ↔ start + length * block < length * (rows * dataShards) := (lt_mul_iff nonneg inside).symm
    _ ↔ block * length + start < dataShards * (length * rows) := by
        have left : start + length * block = block * length + start := by ring
        have right : length * (rows * dataShards) = dataShards * (length * rows) := by ring
        rw [left, right]

/-- If the shards are made of whole blocks, a byte is in front of the shards' end if it is in front
of the volume's. -/
theorem Places.depth_lt_iff (places : layout.Places piece) (whole : layout.IsWhole) :
    layout.depth piece < layout.shardLength ↔
      layout.position piece < dataShards * layout.shardLength := by
  obtain ⟨rows, length⟩ := whole.exists_rows
  have fits := whole.fits
  have inside := places.start
  have total := fits.largeTotal_eq_depth
  cases size : piece.isLarge with
  | true =>
      have shallow := (places.depth_lt_iff_large fits).mpr size
      have early := (places.position_lt_iff fits).mpr size
      have deep := whole.largeDepth_lt
      unfold dataShards at total ⊢
      omega
  | false =>
      rw [size] at inside
      have row := @row_lt_iff piece.block piece.start _ rows places.nonneg inside
      rw [length, Int.mul_add, ← total, depth, position, size, shardOrigin, origin,
        if_neg Bool.false_ne_true, if_neg Bool.false_ne_true, ← largeDepth]
      omega

theorem Deals.places {remaining : Nat} {list : List Piece}
    (deals : layout.Deals piece remaining list) (fits : layout.Fits)
    (first : layout.Places piece) : ∀ part ∈ list, layout.Places part := by
  induction deals with
  | none => simp
  | last => simpa using ⟨first.rows, first.block, first.nonneg, first.start⟩
  | more _ _ _ _ ih =>
      exact List.forall_mem_cons.mpr ⟨⟨first.rows, first.block, first.nonneg, first.start⟩,
        ih (first.following fits)⟩

/-- A piece of a range in front of the volume's end stays within its shard. -/
theorem Deals.stays {remaining : Nat} {list : List Piece}
    (deals : layout.Deals piece remaining list) (whole : layout.IsWhole)
    (first : layout.Places piece)
    (before : layout.position piece + remaining ≤ dataShards * layout.shardLength) :
    ∀ part ∈ list, 0 ≤ layout.shardOffset part ∧
      layout.shardOffset part + part.length ≤ layout.shardLength := by
  intro part member
  have fits := whole.fits
  have volume := whole.volume
  obtain ⟨positive, inside⟩ := deals.inside part member
  have places := deals.places fits first part member
  have nonneg := places.position_nonneg fits
  have start := first.position_nonneg fits
  have present : (layout.position part).toNat + (part.length - 1) ∈
      list.flatMap layout.bytes := by
    refine List.mem_flatMap.mpr ⟨part, member, ?_⟩
    rw [bytes, List.mem_range'_1]
    omega
  rw [deals.bytes_eq fits first, List.mem_range'_1] at present
  have last := @Places.advance _ _ places (part.length - 1) (by omega) 0
  have shallow := last.depth_lt_iff whole
  rw [position_advance] at shallow
  rw [depth_advance] at shallow
  rw [places.shardOffset_eq fits (by unfold maxPosition; omega)]
  exact ⟨places.depth_nonneg fits, by omega⟩

end Layout

end Haystack.Erasure
