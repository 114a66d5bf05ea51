import Haystack.Erasure.Layout
import Haystack.Proofs.Position
import Mathlib.Algebra.Order.Ring.Int
import Mathlib.Data.List.Chain
import Mathlib.Data.List.Range
import Mathlib.Tactic.Positivity
import Mathlib.Tactic.Ring

/-!
# Ranges dealt out to blocks

A volume's bytes are told apart by the block that they are in and their place within it. That is
one way to name a position, and so a range may be cut at the ends of blocks and put together again:
its pieces go on from block to block, and each byte is in the same place of the same shard whether
it is located alone or within a range. All this as long as the large blocks end at a position.
-/

namespace Haystack.Erasure

namespace Layout

variable {layout : Layout} {piece : Piece}

/-- The blocks have lengths, and the large ones end at a position of the volume. -/
structure Fits (layout : Layout) : Prop where
  sound : layout.IsSound
  total : layout.largeRows * (layout.largeBlock * dataShards) ≤ maxPosition

instance (layout : Layout) : Decidable layout.Fits :=
  decidable_of_iff
    (layout.IsSound ∧ layout.largeRows * (layout.largeBlock * dataShards) ≤ maxPosition)
    ⟨fun ⟨sound, total⟩ => ⟨sound, total⟩, fun fits => ⟨fits.sound, fits.total⟩⟩

theorem Fits.blockLength_pos (fits : layout.Fits) (isLarge : Bool) :
    0 < layout.blockLength isLarge := by
  obtain ⟨large, small⟩ := fits.sound
  cases isLarge with
  | true => exact large
  | false => exact small

theorem Fits.largeTotal_eq (fits : layout.Fits) :
    layout.largeTotal = layout.largeRows * dataShards * layout.blockLength true := by
  have nonneg : 0 ≤ layout.largeRows * (layout.largeBlock * (dataShards : Int)) :=
    Int.mul_nonneg (Int.natCast_nonneg _)
      (Int.mul_nonneg (Int.le_of_lt fits.sound.1) (Int.natCast_nonneg _))
  rw [largeTotal, wrapped_mul_wrapped, wrapped_of_fits (by omega) fits.total]
  change _ = layout.largeRows * dataShards * layout.largeBlock
  ring

theorem Fits.largeTotal_nonneg (fits : layout.Fits) : 0 ≤ layout.largeTotal := by
  rw [fits.largeTotal_eq]
  exact Int.mul_nonneg (by positivity) (Int.le_of_lt (fits.blockLength_pos true))

theorem Fits.largeTotal_le (_ : layout.Fits) : layout.largeTotal ≤ maxPosition :=
  wrapped_le _

/-- Where the blocks of a size begin in the volume. -/
def origin (layout : Layout) (isLarge : Bool) : Int :=
  if isLarge then 0 else layout.largeTotal

/-- The position in the volume that a piece starts at. -/
def position (layout : Layout) (piece : Piece) : Int :=
  layout.origin piece.isLarge + piece.block * layout.blockLength piece.isLarge + piece.start

/-- The piece starts inside a block that the layout has. -/
structure Places (layout : Layout) (piece : Piece) : Prop where
  rows : piece.largeRows = layout.largeRows
  block : piece.isLarge = true → piece.block < layout.largeRows * dataShards
  nonneg : 0 ≤ piece.start
  start : piece.start < layout.blockLength piece.isLarge

/-- The block and the place within it of a position counted from where the blocks of its size
begin. -/
def pieceWithin (layout : Layout) (isLarge : Bool) (within : Int) : Piece :=
  { block := (within / layout.blockLength isLarge).toNat
    start := within % layout.blockLength isLarge
    length := 0
    isLarge
    largeRows := layout.largeRows }

theorem unsigned64_tdiv {position length : Int} (first : 0 ≤ position)
    (last : position ≤ maxPosition) (positive : 0 < length) :
    unsigned64 (position.tdiv length) = (position / length).toNat := by
  have low : 0 ≤ position / length := Int.ediv_nonneg first (Int.le_of_lt positive)
  have high : position / length ≤ position := Int.ediv_le_self length first
  unfold maxPosition at last
  rw [Int.tdiv_eq_ediv_of_nonneg first, unsigned64_of_fits low (by omega)]

theorem Fits.pieceAt_of_lt (fits : layout.Fits) {position : Int} (first : 0 ≤ position)
    (large : position < layout.largeTotal) :
    layout.pieceAt position = layout.pieceWithin true position := by
  have last := fits.largeTotal_le
  have block := unsigned64_tdiv first (by omega) (fits.blockLength_pos true)
  have start := Int.tmod_eq_emod_of_nonneg (b := layout.blockLength true) first
  unfold pieceAt pieceWithin
  simp only [large, decide_true, if_true, block, start]

theorem Fits.pieceAt_of_le (fits : layout.Fits) {position : Int}
    (last : position ≤ maxPosition) (small : layout.largeTotal ≤ position) :
    layout.pieceAt position = layout.pieceWithin false (position - layout.largeTotal) := by
  have total := fits.largeTotal_nonneg
  have within : wrapped (position - layout.largeTotal) = position - layout.largeTotal :=
    wrapped_of_fits (by omega) (by omega)
  have block := @unsigned64_tdiv (position - layout.largeTotal) _ (by omega) (by omega)
    (fits.blockLength_pos false)
  have start := Int.tmod_eq_emod_of_nonneg (b := layout.blockLength false)
    (by omega : 0 ≤ position - layout.largeTotal)
  unfold pieceAt pieceWithin
  simp only [Int.not_lt.mpr small, decide_false, Bool.false_eq_true, if_false, within, block,
    start]

theorem Fits.places_pieceWithin (fits : layout.Fits) {isLarge : Bool} {within : Int}
    (first : 0 ≤ within) (inside : isLarge = true → within < layout.largeTotal) :
    layout.Places (layout.pieceWithin isLarge within) := by
  have positive := fits.blockLength_pos isLarge
  constructor
  case rows => rfl
  case block =>
    rintro rfl
    have before := inside rfl
    rw [fits.largeTotal_eq] at before
    have row : within / layout.blockLength true < layout.largeRows * dataShards :=
      Int.ediv_lt_of_lt_mul positive before
    have least : 0 ≤ within / layout.blockLength true :=
      Int.ediv_nonneg first (Int.le_of_lt positive)
    have bound : (within / layout.blockLength true).toNat < layout.largeRows * dataShards := by
      rw [Int.toNat_lt least]
      exact_mod_cast row
    exact bound
  case nonneg => exact Int.emod_nonneg _ (Int.ne_of_gt positive)
  case start => exact Int.emod_lt_of_pos _ positive

theorem Fits.position_pieceWithin (fits : layout.Fits) (isLarge : Bool) {within : Int}
    (first : 0 ≤ within) :
    layout.position (layout.pieceWithin isLarge within) = layout.origin isLarge + within := by
  have least : 0 ≤ within / layout.blockLength isLarge :=
    Int.ediv_nonneg first (Int.le_of_lt (fits.blockLength_pos isLarge))
  have whole := Int.ediv_mul_add_emod within (layout.blockLength isLarge)
  change _ + ((within / layout.blockLength isLarge).toNat : Int) * _ + _ = _
  rw [Int.toNat_of_nonneg least, Int.add_assoc]
  exact congrArg (layout.origin isLarge + ·) whole

section

variable (fits : layout.Fits) {position : Int} (first : 0 ≤ position)
  (last : position ≤ maxPosition)

include fits first last

theorem Fits.places_pieceAt : layout.Places (layout.pieceAt position) := by
  obtain large | small := lt_or_ge position layout.largeTotal
  · rw [fits.pieceAt_of_lt first large]
    exact fits.places_pieceWithin first fun _ => large
  · rw [fits.pieceAt_of_le last small]
    exact fits.places_pieceWithin (by omega) nofun

theorem Fits.position_pieceAt : layout.position (layout.pieceAt position) = position := by
  obtain large | small := lt_or_ge position layout.largeTotal
  · rw [fits.pieceAt_of_lt first large, fits.position_pieceWithin true first]
    exact Int.zero_add position
  · rw [fits.pieceAt_of_le last small, fits.position_pieceWithin false (by omega)]
    change layout.largeTotal + (position - layout.largeTotal) = position
    omega

end

section

variable (places : layout.Places piece) (fits : layout.Fits)

include places fits

/-- A piece starts before the end of the large blocks if it is one of them. -/
theorem Places.position_lt_iff :
    layout.position piece < layout.largeTotal ↔ piece.isLarge = true := by
  have positive := fits.blockLength_pos piece.isLarge
  have nonneg := places.nonneg
  have block : 0 ≤ piece.block * layout.blockLength piece.isLarge :=
    Int.mul_nonneg (Int.natCast_nonneg _) (Int.le_of_lt positive)
  unfold position origin
  cases size : piece.isLarge with
  | true =>
      have inside := places.start
      have before : (piece.block + 1 : Int) ≤ layout.largeRows * dataShards := by
        exact_mod_cast places.block size
      rw [size] at inside positive
      simp only [if_true, Int.zero_add, iff_true]
      rw [fits.largeTotal_eq]
      calc piece.block * layout.blockLength true + piece.start
          < (piece.block + 1) * layout.blockLength true := by
            rw [Int.add_mul, Int.one_mul]
            omega
        _ ≤ layout.largeRows * dataShards * layout.blockLength true :=
            Int.mul_le_mul_of_nonneg_right before (Int.le_of_lt positive)
  | false =>
      rw [size] at block
      simp only [Bool.false_eq_true, if_false, iff_false, Int.not_lt]
      omega

theorem Places.position_nonneg : 0 ≤ layout.position piece := by
  have block : 0 ≤ piece.block * layout.blockLength piece.isLarge :=
    Int.mul_nonneg (Int.natCast_nonneg _) (Int.le_of_lt (fits.blockLength_pos _))
  have nonneg := places.nonneg
  have total := fits.largeTotal_nonneg
  unfold position origin
  split <;> omega

/-- The position of a piece tells its block and its start. -/
theorem Places.pieceAt_position (near : layout.position piece ≤ maxPosition) :
    layout.pieceAt (layout.position piece) = { piece with length := 0 } := by
  have side := places.position_lt_iff fits
  have nonneg := places.position_nonneg fits
  have apart : piece.start + layout.blockLength piece.isLarge * piece.block =
      piece.block * layout.blockLength piece.isLarge + piece.start := by ring
  obtain ⟨quotient, remainder⟩ := (Int.ediv_emod_unique (fits.blockLength_pos piece.isLarge)).mpr
    ⟨apart, places.nonneg, places.start⟩
  have within : layout.pieceWithin piece.isLarge
      (piece.block * layout.blockLength piece.isLarge + piece.start) =
        { piece with length := 0 } := by
    rw [pieceWithin, quotient, remainder, Int.toNat_natCast, ← places.rows]
  rw [← within]
  by_cases size : piece.isLarge = true
  · have rest : layout.position piece =
        piece.block * layout.blockLength piece.isLarge + piece.start := by
      rw [position, origin, if_pos size, Int.zero_add]
    rw [fits.pieceAt_of_lt nonneg (side.mpr size), rest, size]
  · have beyond : layout.largeTotal ≤ layout.position piece := by
      rw [← Int.not_lt, side]
      exact size
    have rest : layout.position piece - layout.largeTotal =
        piece.block * layout.blockLength piece.isLarge + piece.start := by
      rw [position, origin, if_neg size]
      omega
    rw [fits.pieceAt_of_le near beyond, rest, Bool.eq_false_of_not_eq_true size]

end

/-- The start of the block behind the one of a piece. -/
def following (piece : Piece) : Piece :=
  if piece.isLarge ∧ piece.block + 1 = piece.largeRows * dataShards then
    { piece with block := 0, start := 0, isLarge := false }
  else { piece with block := piece.block + 1, start := 0 }

theorem following_of_last (last : piece.isLarge = true ∧
    piece.block + 1 = piece.largeRows * dataShards) :
    following piece = { piece with block := 0, start := 0, isLarge := false } := by
  unfold following
  rw [if_pos last]

theorem following_of_inner (inner : ¬(piece.isLarge = true ∧
    piece.block + 1 = piece.largeRows * dataShards)) :
    following piece = { piece with block := piece.block + 1, start := 0 } := by
  unfold following
  rw [if_neg inner]

/-- As long as positions are met, the numbers of blocks do not wrap around. -/
theorem Places.nextBlock_eq (places : layout.Places piece) (fits : layout.Fits)
    (near : layout.position piece ≤ maxPosition) : nextBlock piece = following piece := by
  have nonneg := places.nonneg
  have total := fits.largeTotal_nonneg
  have few : (piece.block : Int) ≤ piece.block * layout.blockLength piece.isLarge :=
    le_mul_of_one_le_right (Int.natCast_nonneg _) (fits.blockLength_pos _)
  have rows : (layout.largeRows * dataShards : Int) ≤ layout.largeTotal := by
    rw [fits.largeTotal_eq]
    exact le_mul_of_one_le_right (by positivity) (fits.blockLength_pos true)
  have bound := fits.largeTotal_le
  have origin_nonneg : 0 ≤ layout.origin piece.isLarge := by
    unfold origin
    split <;> omega
  unfold position at near
  unfold maxPosition at near bound
  have next : unsigned64 (piece.block + 1) = piece.block + 1 := by
    rw [unsigned64_of_fits (by omega) (by omega)]
    exact Int.toNat_natCast (piece.block + 1)
  have count : unsigned64 (piece.largeRows * dataShards) = piece.largeRows * dataShards := by
    rw [places.rows, unsigned64_of_fits (by positivity) (by omega)]
    exact Int.toNat_natCast (layout.largeRows * dataShards)
  unfold nextBlock following
  rw [next, count]

theorem Places.block_succ_lt (places : layout.Places piece)
    (inner : ¬(piece.isLarge = true ∧ piece.block + 1 = piece.largeRows * dataShards))
    (large : piece.isLarge = true) : piece.block + 1 < layout.largeRows * dataShards := by
  have before := places.block large
  rw [places.rows] at inner
  exact Nat.lt_of_le_of_ne before fun same => inner ⟨large, same⟩

theorem Places.following (places : layout.Places piece) (fits : layout.Fits) :
    layout.Places (following piece) := by
  by_cases last : piece.isLarge = true ∧ piece.block + 1 = piece.largeRows * dataShards
  · rw [following_of_last last]
    exact ⟨places.rows, nofun, Int.le_refl 0, fits.blockLength_pos false⟩
  · rw [following_of_inner last]
    exact ⟨places.rows, places.block_succ_lt last, Int.le_refl 0,
      fits.blockLength_pos piece.isLarge⟩

/-- The next block begins where the block of a piece ends. -/
theorem Places.position_following (places : layout.Places piece) (fits : layout.Fits)
    {room : Int} (full : piece.start + room = layout.blockLength piece.isLarge) :
    layout.position (Layout.following piece) = layout.position piece + room := by
  by_cases last : piece.isLarge = true ∧ piece.block + 1 = piece.largeRows * dataShards
  · rw [following_of_last last]
    obtain ⟨large, final⟩ := last
    rw [places.rows] at final
    rw [large] at full
    have rows : (layout.largeRows * dataShards : Int) = piece.block + 1 := by
      exact_mod_cast final.symm
    unfold position origin
    dsimp only
    rw [large, if_neg Bool.false_ne_true, if_pos rfl, fits.largeTotal_eq, rows, Int.add_mul,
      Int.one_mul, Int.natCast_zero, Int.zero_mul]
    omega
  · rw [following_of_inner last]
    unfold position
    dsimp only
    rw [Int.natCast_add, Int.add_mul, Int.natCast_one, Int.one_mul]
    omega

/-- The list is what some bytes from a piece's start on are dealt out to. -/
inductive Deals (layout : Layout) : Piece → Nat → List Piece → Prop where
  | none (piece : Piece) : Deals layout piece 0 []
  | last {piece : Piece} {remaining : Nat} : 0 < remaining →
      piece.start + remaining ≤ layout.blockLength piece.isLarge →
      Deals layout piece remaining [{ piece with length := remaining }]
  | more {piece : Piece} {room remaining : Nat} {rest : List Piece} : 0 < room → 0 < remaining →
      piece.start + room = layout.blockLength piece.isLarge →
      Deals layout (following piece) remaining rest →
      Deals layout piece (room + remaining) ({ piece with length := room } :: rest)

theorem pieces_zero (layout : Layout) (piece : Piece) : layout.pieces piece 0 = [] := by
  unfold pieces share
  simp

theorem pieces_of_pos {remaining : Nat} (positive : 0 < layout.share piece remaining) :
    layout.pieces piece remaining =
      { piece with length := layout.share piece remaining } ::
        layout.pieces (nextBlock piece) (remaining - layout.share piece remaining) := by
  rw [pieces, dif_pos positive]

theorem deals_pieces (fits : layout.Fits) (places : layout.Places piece) {remaining : Nat}
    (near : layout.position piece + remaining ≤ 2 ^ 63) :
    layout.Deals piece remaining (layout.pieces piece remaining) := by
  induction remaining using Nat.strongRecOn generalizing piece with
  | ind remaining ih =>
      have inside := places.start
      have shared : layout.share piece remaining =
          min remaining (layout.blockLength piece.isLarge - piece.start).toNat := rfl
      obtain rfl | positive := Nat.eq_zero_or_pos remaining
      · rw [pieces_zero]
        exact .none piece
      · have taken : 0 < layout.share piece remaining := by omega
        rw [pieces_of_pos taken]
        obtain long | short :=
          lt_or_ge (layout.blockLength piece.isLarge) (piece.start + remaining)
        · have some : layout.share piece remaining < remaining := by omega
          have full : piece.start + (layout.share piece remaining : Int) =
              layout.blockLength piece.isLarge := by omega
          have next := places.nextBlock_eq fits (by unfold maxPosition; omega)
          have further := places.position_following fits full
          have rest := ih _ (Nat.sub_lt positive taken) (places.following fits) (by omega)
          have dealt := Deals.more taken (Nat.sub_pos_of_lt some) full rest
          rwa [Nat.add_sub_of_le (Nat.le_of_lt some), ← next] at dealt
        · have all : layout.share piece remaining = remaining := by omega
          rw [all, Nat.sub_self, pieces_zero]
          exact .last positive short

section Dealing

variable {remaining : Nat} {list : List Piece}

theorem Deals.inside (deals : layout.Deals piece remaining list) :
    ∀ part ∈ list, 0 < part.length ∧
      part.start + part.length ≤ layout.blockLength part.isLarge := by
  induction deals with
  | none => simp
  | last positive short => simpa using ⟨positive, short⟩
  | more taken _ full _ ih =>
      exact List.forall_mem_cons.mpr ⟨⟨taken, Int.le_of_eq full⟩, ih⟩

theorem Deals.sum_length (deals : layout.Deals piece remaining list) :
    (list.map Piece.length).sum = remaining := by
  induction deals with
  | none => rfl
  | last => simp
  | more _ _ _ _ ih => rw [List.map_cons, List.sum_cons, ih]

end Dealing

/-- The positions in the volume of the bytes of a piece. -/
def bytes (layout : Layout) (piece : Piece) : List Nat :=
  List.range' (layout.position piece).toNat piece.length

theorem Deals.bytes_eq {remaining : Nat} {list : List Piece}
    (deals : layout.Deals piece remaining list) (fits : layout.Fits)
    (places : layout.Places piece) :
    list.flatMap layout.bytes = List.range' (layout.position piece).toNat remaining := by
  induction deals with
  | none => rfl
  | last => exact List.flatMap_singleton ..
  | @more piece room remaining rest _ _ full _ ih =>
      have nonneg := places.position_nonneg fits
      have next : (layout.position (Layout.following piece)).toNat =
          (layout.position piece).toNat + room := by
        rw [places.position_following fits full]
        omega
      rw [List.flatMap_cons, ih (places.following fits), next]
      exact List.range'_append_1

theorem Deals.head_eq {remaining : Nat} {list : List Piece}
    (deals : layout.Deals piece remaining list) {first : Piece} (head : first ∈ list.head?) :
    ∃ length, first = { piece with length } := by
  cases deals with
  | none => cases head
  | last => exact ⟨_, (Option.mem_some.mp head).symm⟩
  | more => exact ⟨_, (Option.mem_some.mp head).symm⟩

/-- A piece goes to the end of its block, and the other one begins the block behind it. That is
the next one of the same size, or the first small block after the last large one, and in any case
it is on the next shard. -/
structure Follows (layout : Layout) (piece other : Piece) : Prop where
  full : piece.start + piece.length = layout.blockLength piece.isLarge
  start : other.start = 0
  shard : other.shard = (piece.shard + 1) % dataShards
  block : other.isLarge = piece.isLarge ∧ other.block = piece.block + 1 ∧
      (piece.isLarge = true → piece.block + 1 < layout.largeRows * dataShards) ∨
    piece.isLarge = true ∧ piece.block + 1 = layout.largeRows * dataShards ∧
      other.isLarge = false ∧ other.block = 0

theorem Places.follows (places : layout.Places piece) {room : Nat}
    (full : piece.start + room = layout.blockLength piece.isLarge) (length : Nat) :
    layout.Follows { piece with length := room } { Layout.following piece with length } := by
  by_cases last : piece.isLarge = true ∧ piece.block + 1 = piece.largeRows * dataShards
  · rw [following_of_last last]
    obtain ⟨large, final⟩ := last
    rw [places.rows] at final
    refine ⟨full, rfl, ?_, .inr ⟨large, final, rfl, rfl⟩⟩
    simp only [Piece.shard]
    rw [Nat.mod_add_mod, final, Nat.mul_mod_left, Nat.zero_mod]
  · rw [following_of_inner last]
    exact ⟨full, rfl, (Nat.mod_add_mod ..).symm, .inl ⟨rfl, rfl, places.block_succ_lt last⟩⟩

theorem Deals.chain {remaining : Nat} {list : List Piece}
    (deals : layout.Deals piece remaining list) (fits : layout.Fits)
    (places : layout.Places piece) : list.IsChain layout.Follows := by
  induction deals with
  | none => exact .nil
  | last => exact .singleton _
  | more _ _ full rest ih =>
      rw [List.isChain_cons]
      refine ⟨?_, ih (places.following fits)⟩
      intro other head
      obtain ⟨length, rfl⟩ := rest.head_eq head
      exact places.follows full length

/-- The shard of a byte of a range, counted from its start, and the place within the shard, as the
piece tells that has the byte. -/
def placeIn (layout : Layout) : List Piece → Nat → Option (Nat × Int)
  | [], _ => none
  | piece :: rest, count =>
    if count < piece.length then some (piece.shard, layout.shardOffset piece + count)
    else layout.placeIn rest (count - piece.length)

/-- Where the blocks of a size begin in each shard. -/
def shardOrigin (layout : Layout) (isLarge : Bool) : Int :=
  if isLarge then 0 else layout.largeRows * layout.blockLength true

/-- How deep in its shard a piece starts. -/
def depth (layout : Layout) (piece : Piece) : Int :=
  layout.shardOrigin piece.isLarge +
    (piece.start + layout.blockLength piece.isLarge * (piece.block / dataShards : Nat))

theorem Places.shardOffset_eq_wrapped (places : layout.Places piece) :
    layout.shardOffset piece = wrapped (layout.depth piece) := by
  unfold shardOffset depth shardOrigin blockLength
  rw [places.rows]
  cases piece.isLarge with
  | true =>
      simp only [if_true]
      congr 1
      ring
  | false =>
      simp only [Bool.false_eq_true, if_false, if_true]
      congr 1
      ring

theorem Places.depth_nonneg (places : layout.Places piece) (fits : layout.Fits) :
    0 ≤ layout.depth piece := by
  have nonneg := places.nonneg
  have rows : 0 ≤ layout.largeRows * layout.blockLength true :=
    Int.mul_nonneg (Int.natCast_nonneg _) (Int.le_of_lt (fits.blockLength_pos true))
  have block : 0 ≤ layout.blockLength piece.isLarge * (piece.block / dataShards : Nat) :=
    Int.mul_nonneg (Int.le_of_lt (fits.blockLength_pos _)) (Int.natCast_nonneg _)
  unfold depth shardOrigin
  split <;> omega

/-- A piece starts no deeper in its shard than in the volume. -/
theorem Places.depth_le_position (_ : layout.Places piece) (fits : layout.Fits) :
    layout.depth piece ≤ layout.position piece := by
  have large := fits.blockLength_pos true
  have own := fits.blockLength_pos piece.isLarge
  have row : layout.blockLength piece.isLarge * (piece.block / dataShards : Nat) ≤
      piece.block * layout.blockLength piece.isLarge := by
    rw [Int.mul_comm]
    exact Int.mul_le_mul_of_nonneg_right (by exact_mod_cast Nat.div_le_self _ _)
      (Int.le_of_lt own)
  have rows : layout.largeRows * layout.blockLength true ≤ layout.largeTotal := by
    have more : (layout.largeRows : Int) ≤ layout.largeRows * dataShards :=
      le_mul_of_one_le_right (Int.natCast_nonneg _) (by decide)
    rw [fits.largeTotal_eq]
    exact Int.mul_le_mul_of_nonneg_right more (Int.le_of_lt large)
  unfold depth position shardOrigin origin
  split <;> omega

theorem Places.shardOffset_eq (places : layout.Places piece) (fits : layout.Fits)
    (near : layout.position piece ≤ maxPosition) :
    layout.shardOffset piece = layout.depth piece := by
  have low := places.depth_nonneg fits
  have high := places.depth_le_position fits
  rw [places.shardOffset_eq_wrapped]
  exact wrapped_of_fits (by omega) (by omega)

theorem Places.advance (places : layout.Places piece) {count : Nat}
    (inside : piece.start + count < layout.blockLength piece.isLarge) (length : Nat) :
    layout.Places { piece with start := piece.start + count, length } :=
  ⟨places.rows, places.block, Int.add_nonneg places.nonneg (Int.natCast_nonneg count), inside⟩

theorem position_advance (layout : Layout) (piece : Piece) (count : Int) (length : Nat) :
    layout.position { piece with start := piece.start + count, length } =
      layout.position piece + count :=
  (Int.add_assoc ..).symm

theorem depth_advance (layout : Layout) (piece : Piece) (count : Int) (length : Nat) :
    layout.depth { piece with start := piece.start + count, length } =
      layout.depth piece + count := by
  unfold depth
  dsimp only
  omega

theorem Places.shardOffset_advance (places : layout.Places piece) (fits : layout.Fits)
    {count : Nat} (inside : piece.start + count < layout.blockLength piece.isLarge)
    (near : layout.position piece + count ≤ maxPosition) (length : Nat) :
    layout.shardOffset { piece with start := piece.start + count, length } =
      layout.shardOffset piece + count := by
  have moved := places.advance inside length
  rw [← position_advance layout piece count length] at near
  rw [moved.shardOffset_eq fits near, depth_advance]
  rw [position_advance] at near
  rw [places.shardOffset_eq fits (by omega)]

theorem Places.pieceAt_add (places : layout.Places piece) (fits : layout.Fits) {count : Nat}
    (inside : piece.start + count < layout.blockLength piece.isLarge)
    (near : layout.position piece + count ≤ maxPosition) :
    layout.pieceAt (layout.position piece + count) =
      { piece with start := piece.start + count, length := 0 } := by
  have moved := places.advance inside 0
  rw [← position_advance layout piece count 0] at near ⊢
  exact moved.pieceAt_position fits near

/-- Each byte is placed as if it were located alone. -/
theorem Deals.placeIn_eq {remaining : Nat} {list : List Piece}
    (deals : layout.Deals piece remaining list) (fits : layout.Fits)
    (places : layout.Places piece) (near : layout.position piece + remaining ≤ 2 ^ 63)
    {count : Nat} (inside : count < remaining) :
    layout.placeIn list count =
      some ((layout.pieceAt (layout.position piece + count)).shard,
        layout.shardOffset (layout.pieceAt (layout.position piece + count))) := by
  have here {piece : Piece} (places : layout.Places piece) {room count : Nat}
      (short : piece.start + room ≤ layout.blockLength piece.isLarge)
      (near : layout.position piece + room ≤ 2 ^ 63) (inside : count < room) :
      ((layout.pieceAt (layout.position piece + count)).shard,
        layout.shardOffset (layout.pieceAt (layout.position piece + count))) =
      (piece.shard, layout.shardOffset piece + count) := by
    have before : layout.position piece + count ≤ maxPosition := by
      unfold maxPosition
      omega
    rw [places.pieceAt_add fits (by omega) before,
      places.shardOffset_advance fits (by omega) before]
    rfl
  induction deals generalizing count with
  | none => omega
  | last _ short =>
      rw [here places short near inside, placeIn, if_pos inside]
      rfl
  | @more piece room remaining rest _ _ full _ ih =>
      have next := places.position_following fits full
      rw [placeIn]
      dsimp only
      obtain early | late := Nat.lt_or_ge count room
      · rw [here places (Int.le_of_eq full) (by omega) early, if_pos early]
        rfl
      · have further : layout.position piece + count =
            layout.position (Layout.following piece) + (count - room : Nat) := by omega
        rw [if_neg (Nat.not_lt.mpr late), further]
        exact ih (places.following fits) (by omega) (by omega)

theorem Fits.locate_eq (fits : layout.Fits) {offset : Int} (first : 0 ≤ offset) (size : Nat) :
    layout.locate offset size = layout.pieces (layout.pieceAt offset) size := by
  unfold locate
  rw [if_pos ⟨fits.sound, first⟩]

theorem Fits.locate_one (fits : layout.Fits) {offset : Int} (first : 0 ≤ offset)
    (last : offset ≤ maxPosition) :
    layout.locate offset 1 = [{ layout.pieceAt offset with length := 1 }] := by
  have inside := (fits.places_pieceAt first last).start
  have one : layout.share (layout.pieceAt offset) 1 = 1 := by
    unfold share
    omega
  rw [fits.locate_eq first, pieces_of_pos (by omega), one, Nat.sub_self, pieces_zero]

/-- A range that ends at a position is dealt out completely and in order: its pieces are never
empty, each stays within one block, together they have the bytes of the range, every byte is placed
as if it were located alone, and the pieces go on from block to block, with one change from large to
small blocks at most. -/
theorem locate_deals_range (fits : layout.Fits) {offset : Int} (known : 0 ≤ offset)
    (last : offset ≤ maxPosition) {size : Nat} (near : offset + size ≤ 2 ^ 63) :
    let list := layout.locate offset size
    (∀ piece ∈ list, 0 < piece.length ∧
        piece.start + piece.length ≤ layout.blockLength piece.isLarge) ∧
      (list.map Piece.length).sum = size ∧
      list.flatMap layout.bytes = List.range' offset.toNat size ∧
      (∀ count < size, ∃ single, layout.locate (offset + count) 1 = [single] ∧
        layout.placeIn list count = some (single.shard, layout.shardOffset single)) ∧
      list.IsChain layout.Follows ∧
      list.Pairwise fun piece later => later.isLarge = true → piece.isLarge = true := by
  intro list
  have places := fits.places_pieceAt known last
  have start := fits.position_pieceAt known last
  rw [← start] at near
  have deals : layout.Deals (layout.pieceAt offset) size list := by
    have located : list = _ := fits.locate_eq known size
    rw [located]
    exact deals_pieces fits places near
  have chain := deals.chain fits places
  refine ⟨deals.inside, deals.sum_length, ?_, ?_, chain, ?_⟩
  · rw [deals.bytes_eq fits places, start]
  · intro count inside
    have before : offset + count ≤ maxPosition := by
      rw [start] at near
      unfold maxPosition
      omega
    refine ⟨_, fits.locate_one (by omega) before, ?_⟩
    rw [deals.placeIn_eq fits places near inside, start]
    rfl
  · have ordered : list.IsChain fun piece later => later.isLarge = true → piece.isLarge = true := by
      apply chain.imp
      intro piece other follows large
      obtain ⟨same, -⟩ | ⟨before, -⟩ := follows.block
      · rwa [← same]
      · exact before
    have transitive : IsTrans Piece fun piece later =>
        later.isLarge = true → piece.isLarge = true :=
      ⟨fun _ _ _ first second large => first (second large)⟩
    exact ordered.pairwise

/-- A range from the last large block on into the second small one. -/
theorem range_over_border_dealt :
    let layout : Layout := ⟨1000, 100, 2500⟩
    let list := layout.locate 19950 200
    layout.Fits ∧ (0 : Int) ≤ 19950 ∧ 19950 + (200 : Nat) ≤ (2 ^ 63 : Int) ∧
      list = [⟨19, 950, 50, true, 2⟩, ⟨0, 0, 100, false, 2⟩, ⟨1, 0, 50, false, 2⟩] ∧
      (list.map Piece.length).sum = 200 ∧
      list.flatMap layout.bytes = List.range' 19950 200 ∧
      layout.placeIn list 160 = some (1, 2010) ∧
      (∃ single, layout.locate (19950 + 160) 1 = [single] ∧
        layout.placeIn list 160 = some (single.shard, layout.shardOffset single)) ∧
      list.IsChain layout.Follows := by
  intro layout list
  have fits : layout.Fits := by decide
  have known : (0 : Int) ≤ 19950 := by decide
  have near : 19950 + (200 : Nat) ≤ (2 ^ 63 : Int) := by decide
  have parts : Layout.locate ⟨1000, 100, 2500⟩ 19950 200 =
      [⟨19, 950, 50, true, 2⟩, ⟨0, 0, 100, false, 2⟩, ⟨1, 0, 50, false, 2⟩] := by
    decide +kernel
  obtain ⟨-, sum, bytes, places, chain, -⟩ := locate_deals_range fits known (by decide) near
  refine ⟨fits, known, near, parts, sum, bytes, ?_, places 160 (by decide), chain⟩
  have same : list = _ := parts
  rw [same]
  decide

end Layout

end Haystack.Erasure
