import Haystack.Cache.Contents
import Haystack.Cache.Tiered

/-!
# Chunk caches

What a cache does is the same whether it is a memory tier, a disk tier or has several tiers: it
takes chunks, gives them back whole or in part, and tells which it has. What it takes and how long
it keeps it differs.
-/

namespace Haystack

/-- A cache of chunks. -/
inductive ChunkCache where
  | memory (tier : MemoryTier)
  | disk (tier : DiskTier)
  | tiered (cache : TieredCache)
  deriving DecidableEq, Repr, Inhabited

namespace ChunkCache

def set (cache : ChunkCache) (file : String) (data : Bytes) : ChunkCache :=
  match cache with
  | .memory tier => .memory (tier.insert file data)
  | .disk tier => .disk (tier.offer file data)
  | .tiered cache => .tiered (cache.store file data)

/-- A chunk, and the cache after looking for it. -/
def get (cache : ChunkCache) (file : String) : Option Bytes × ChunkCache :=
  match cache with
  | .memory tier => (tier.find? file, .memory tier)
  | .disk tier =>
    let (found, tier) := tier.load file
    (found, .disk tier)
  | .tiered cache =>
    let (found, cache) := cache.lookup file
    (found, .tiered cache)

/-- A part of a chunk, nothing if there is no such chunk, and the cache after looking for it. -/
def readAt (cache : ChunkCache) (file : String) (offset length : Nat) :
    Except Error (Option Bytes) × ChunkCache :=
  match cache.get file with
  | (none, cache) => (.ok none, cache)
  | (some data, cache) => ((Contents.read data offset length).map some, cache)

def has (cache : ChunkCache) (file : String) : Bool :=
  match cache with
  | .memory tier => tier.has file
  | .disk tier => tier.has file
  | .tiered cache => cache.has file

/-- The cache without a chunk; one with several tiers drops it from memory only. -/
def remove (cache : ChunkCache) (file : String) : ChunkCache :=
  match cache with
  | .memory tier => .memory (tier.remove file)
  | .disk tier => .disk (tier.remove file)
  | .tiered cache => .tiered (cache.uncache file)

/-- The largest chunk to keep. With several tiers this is said of memory. -/
def partLimit : ChunkCache → Nat
  | .memory tier => tier.partLimit
  | .disk tier => tier.partLimit
  | .tiered cache => cache.memory.partLimit

def disks : ChunkCache → List DiskTier
  | .memory _ => []
  | .disk tier => [tier]
  | .tiered cache => cache.disks

/-- The cache after something has happened to the directories of its disk tiers, each at its
place. -/
def onDirectories (cache : ChunkCache) (places : List (List String))
    (change : List String → Directory → Directory) : ChunkCache :=
  match cache with
  | .memory tier => .memory tier
  | .disk tier => .disk (tier.onDirectory (change (places.headD [])))
  | .tiered cache =>
    .tiered { cache with
      disks := cache.disks.mapIdx fun number tier =>
        tier.onDirectory (change (places.getD number [])) }

/-- What has been counted; only a cache with several tiers counts. -/
def counters : ChunkCache → Counters
  | .tiered cache => cache.counters
  | _ => {}

end ChunkCache

end Haystack
