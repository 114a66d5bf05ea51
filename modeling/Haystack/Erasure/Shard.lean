import Haystack.Erasure.Layout
import Haystack.Text.Numeral

/-!
# Shards

The shards of a volume are numbered, data shards first, and each is a file of its own.
-/

namespace Haystack.Erasure

/-- The number of a shard. -/
structure Shard where
  number : UInt8
  deriving DecidableEq, Repr

namespace Shard

def holdsData (shard : Shard) : Bool :=
  shard.number.toNat < dataShards

/-- The extension of a shard's file, with at least two digits. -/
def extension (shard : Shard) : String :=
  ".ec" ++ Numeral.padded 2 shard.number.toNat

def display (shard : Shard) : String :=
  toString shard.number

end Shard

end Haystack.Erasure
