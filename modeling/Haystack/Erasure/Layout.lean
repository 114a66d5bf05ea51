import Haystack.Position

/-!
# Where a volume's bytes lie in its shards

An erasure coded volume is dealt out over ten data shards, block by block: first rows of ten large
blocks, then rows of ten small ones for the rest. A range of the volume is a list of pieces, each
inside one block, that follow each other without gaps.
-/

namespace Haystack.Erasure

def dataShards : Nat := 10

def parityShards : Nat := 4

def totalShards : Nat := dataShards + parityShards

def largeBlockLength : Nat := 1024 * 1024 * 1024

def smallBlockLength : Nat := 1024 * 1024

/-- The lengths that fix where a byte lies. -/
structure Layout where
  largeBlock : Int
  smallBlock : Int
  shardLength : Int
  deriving DecidableEq, Repr

/-- A part of a range that lies inside one block. -/
structure Piece where
  /-- The block's number among the large or among the small blocks. -/
  block : Nat
  /-- Where the part starts within its block. -/
  start : Int
  length : Nat
  isLarge : Bool
  /-- The number of rows of large blocks. -/
  largeRows : Nat
  deriving DecidableEq, Repr

namespace Layout

def IsSound (layout : Layout) : Prop :=
  0 < layout.largeBlock ∧ 0 < layout.smallBlock

instance (layout : Layout) : Decidable layout.IsSound := by
  unfold IsSound; infer_instance

/-- The number of rows of large blocks: all but the last byte of a shard count. -/
def largeRows (layout : Layout) : Nat :=
  ((wrapped (layout.shardLength - 1)).tdiv layout.largeBlock).toNat

def blockLength (layout : Layout) (isLarge : Bool) : Int :=
  if isLarge then layout.largeBlock else layout.smallBlock

def largeTotal (layout : Layout) : Int :=
  wrapped (layout.largeRows * wrapped (layout.largeBlock * dataShards))

/-- The block and the place within it of one byte of the volume, as an empty piece. -/
def pieceAt (layout : Layout) (position : Int) : Piece :=
  let isLarge := decide (position < layout.largeTotal)
  let within := if isLarge then position else wrapped (position - layout.largeTotal)
  { block := unsigned64 (within.tdiv (layout.blockLength isLarge))
    start := within.tmod (layout.blockLength isLarge)
    length := 0
    isLarge
    largeRows := layout.largeRows }

def nextBlock (piece : Piece) : Piece :=
  let next := unsigned64 (piece.block + 1)
  if piece.isLarge ∧ next = unsigned64 (piece.largeRows * dataShards) then
    { piece with block := 0, start := 0, isLarge := false }
  else { piece with block := next, start := 0 }

/-- How much of `remaining` bytes from a piece's start on lies in its block. -/
def share (layout : Layout) (piece : Piece) (remaining : Nat) : Nat :=
  min remaining (layout.blockLength piece.isLarge - piece.start).toNat

/-- The pieces of `remaining` bytes, the first of them starting where `piece` does. -/
def pieces (layout : Layout) (piece : Piece) (remaining : Nat) : List Piece :=
  let taken := layout.share piece remaining
  if _h : 0 < taken then
    { piece with length := taken } :: layout.pieces (nextBlock piece) (remaining - taken)
  else []
  termination_by remaining
  decreasing_by
    have : taken ≤ remaining := Nat.min_le_left _ _
    omega

/-- The pieces of a range of the volume; none if the layout or the range makes no sense. -/
def locate (layout : Layout) (offset : Int) (size : Nat) : List Piece :=
  if layout.IsSound ∧ 0 ≤ offset then layout.pieces (layout.pieceAt offset) size else []

def shardOffset (layout : Layout) (piece : Piece) : Int :=
  let row := piece.block / dataShards
  if piece.isLarge then wrapped (row * layout.largeBlock + piece.start)
  else
    wrapped (piece.largeRows * layout.largeBlock + row * layout.smallBlock + piece.start)

end Layout

def Piece.shard (piece : Piece) : Nat :=
  piece.block % dataShards

end Haystack.Erasure
