import Haystack.Cache.Disk
import Haystack.Cache.Memory
import Haystack.Counters

/-!
# Tiers of a chunk cache

A cache has a memory tier and may have three disk tiers, for small, middle-sized and large chunks.
A chunk is stored in memory if it is small enough for that, and in the disk tier for its length.
It is looked up in memory first, then in the disk tiers in order; a chunk found on disk moves up
into memory if it is small enough.
-/

namespace Haystack

/-- A cache of chunks in tiers. -/
structure TieredCache where
  memory : MemoryTier
  /-- The disk tiers by rising length of their chunks, or none. -/
  disks : List DiskTier := []
  /-- The largest chunk of the first disk tier; the second takes chunks four times as large. -/
  unit : Nat := 0
  counters : Counters := {}
  deriving DecidableEq, Repr, Inhabited

namespace TieredCache

/-- The directories of the disk tiers, within the directory of the cache. -/
def directoryNames : List String :=
  ["c0", "c1", "c2"]

def inMemory (partLimit : Nat) : TieredCache :=
  { memory := { partLimit } }

/-- The capacities of three disk tiers that may take a number of bytes together: one, three and
four parts of eight. -/
def capacities (total : Nat) : List Nat :=
  [total / 8, total * 3 / 8, total / 2]

def openOver (partLimit unit total : Nat) (directories : List Directory) : TieredCache :=
  let tiers := List.zipWith DiskTier.openOver directories (capacities total)
  { memory := { partLimit }
    disks := List.zipWith DiskTier.withPartLimit tiers [unit, 4 * unit, 2 ^ (64 : Nat) - 1]
    unit }

def diskFor (cache : TieredCache) (length : Nat) : Nat :=
  if length ≤ cache.unit then 0 else if length ≤ 4 * cache.unit then 1 else 2

/-- The chunk from the first of some disk tiers that has it, and the tiers after looking. -/
def loadFirst (file : String) : List DiskTier → Option Bytes × List DiskTier
  | [] => (none, [])
  | tier :: rest =>
    match tier.load file with
    | (some data, tier) => (some data, tier :: rest)
    | (none, tier) =>
      let (found, rest) := loadFirst file rest
      (found, tier :: rest)

/-- A chunk from the tiers, and the cache after looking for it. -/
def find (cache : TieredCache) (file : String) : Option Bytes × TieredCache :=
  match cache.memory.find? file with
  | some data => (some data, cache)
  | none =>
    match loadFirst file cache.disks with
    | (some data, disks) => (some data, { cache with disks, memory := cache.memory.offer file data })
    | (none, disks) => (none, { cache with disks })

/-- A chunk, and the cache after looking for it and counting that. -/
def lookup (cache : TieredCache) (file : String) : Option Bytes × TieredCache :=
  let (found, cache) := cache.find file
  (found, { cache with counters := cache.counters.countLookup found.isSome })

def countFetch (cache : TieredCache) : TieredCache :=
  { cache with counters := cache.counters.countFetch }

/-- The cache with a chunk in the tiers for its length. Older contents that are in other tiers
stay there. -/
def store (cache : TieredCache) (file : String) (data : Bytes) : TieredCache :=
  { cache with
    memory := cache.memory.offer file data
    disks := cache.disks.modify (cache.diskFor data.length) (·.keep file data) }

def uncache (cache : TieredCache) (file : String) : TieredCache :=
  { cache with memory := cache.memory.remove file }

/-- Whether some tier has a chunk, as far as the indexes know. -/
def has (cache : TieredCache) (file : String) : Bool :=
  cache.memory.has file || cache.disks.any (·.has file)

end TieredCache

end Haystack
