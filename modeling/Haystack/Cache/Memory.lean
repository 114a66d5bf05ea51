import Haystack.Bytes
import Haystack.Table

/-!
# Chunks kept in memory

The memory tier keeps whole chunks. How large a chunk it should be given is written with it, and
left to whoever fills it. It is taken to be large enough never to be full.
-/

namespace Haystack

/-- Chunks kept in memory. -/
structure MemoryTier where
  chunks : Table String Bytes := []
  /-- The largest chunk to keep. -/
  partLimit : Nat
  deriving DecidableEq, Repr, Inhabited

namespace MemoryTier

def find? (tier : MemoryTier) (file : String) : Option Bytes :=
  tier.chunks.find? file

def has (tier : MemoryTier) (file : String) : Bool :=
  tier.chunks.has file

/-- The tier with a chunk, of whatever length. -/
def insert (tier : MemoryTier) (file : String) (data : Bytes) : MemoryTier :=
  { tier with chunks := tier.chunks.insert file data }

/-- The tier with a chunk if it is small enough; if not, the tier as it is. -/
def offer (tier : MemoryTier) (file : String) (data : Bytes) : MemoryTier :=
  if data.length ≤ tier.partLimit then tier.insert file data else tier

def remove (tier : MemoryTier) (file : String) : MemoryTier :=
  { tier with chunks := tier.chunks.erase file }

def count (tier : MemoryTier) : Nat :=
  tier.chunks.length

@[simp] theorem find?_insert_self (tier : MemoryTier) (file : String) (data : Bytes) :
    (tier.insert file data).find? file = some data := by
  simp [insert, find?]

theorem find?_insert_of_ne (tier : MemoryTier) {file other : String} (data : Bytes)
    (h : other ≠ file) : (tier.insert file data).find? other = tier.find? other := by
  exact Table.find?_insert_of_ne tier.chunks data h

@[simp] theorem find?_remove_self (tier : MemoryTier) (file : String) :
    (tier.remove file).find? file = none := by
  simp [remove, find?]

theorem find?_remove_of_ne (tier : MemoryTier) {file other : String} (h : other ≠ file) :
    (tier.remove file).find? other = tier.find? other := by
  exact Table.find?_erase_of_ne tier.chunks h

end MemoryTier

end Haystack
