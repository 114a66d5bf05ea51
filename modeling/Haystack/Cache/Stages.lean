import Haystack.Cache.Tiered

/-!
# Looking up and storing in stages

While a look-up waits for a tier, others may use the cache, and so they may while a chunk is being
stored. Both are therefore told in stages, between which anything can happen to the cache. When
nothing does, the stages together come to the same as the look-up or the storing as a whole.
-/

namespace Haystack

/-- What a stage leads to: the next stage, or the result. -/
inductive Advance (σ α : Type) where
  | more (stage : σ)
  | done (result : α)
  deriving DecidableEq, Repr

/-- What is next in a look-up. -/
inductive LookStage where
  /-- Memory is asked. -/
  | memory
  /-- The index of a disk tier is asked. -/
  | index (place : Nat)
  /-- The file of a chunk is read that the index of a disk tier has. -/
  | file (place : Nat)
  /-- A chunk is dropped from a disk tier, since its file cannot be read. -/
  | unreadable (place : Nat)
  /-- A chunk that was found on disk moves up into memory. -/
  | found (data : Bytes)
  deriving DecidableEq, Repr

/-- What is next in storing a chunk. -/
inductive StoreStage where
  | memory
  /-- The file is written in the disk tier for the length of the chunk. -/
  | file
  /-- The chunk is entered in the index of that tier. -/
  | index
  deriving DecidableEq, Repr

namespace DiskTier

/-- The tier after its index has been asked for a chunk, which is then the one used last. -/
def touch (tier : DiskTier) (file : String) : DiskTier :=
  match tier.index.find? file with
  | some length => { tier with index := tier.index.insert file length }
  | none => tier

/-- The file of a chunk, whether the index knows it or not. -/
def read? (tier : DiskTier) (file : String) : Option Bytes :=
  tier.directory.read? (fileName file)

end DiskTier

namespace TieredCache

def countLookup (cache : TieredCache) (found : Bool) : TieredCache :=
  { cache with counters := cache.counters.countLookup found }

/-- The cache after something has happened to the disk tier at a place. -/
def onDisk (cache : TieredCache) (place : Nat) (change : DiskTier → DiskTier) : TieredCache :=
  { cache with disks := cache.disks.modify place change }

/-- One stage of looking a chunk up. After the last disk tier there is nowhere else to look. -/
def look (cache : TieredCache) (file : String) :
    LookStage → Advance LookStage (Option Bytes) × TieredCache
  | .memory =>
    match cache.memory.find? file with
    | some data => (.done (some data), cache.countLookup true)
    | none => (.more (.index 0), cache)
  | .index place =>
    match cache.disks[place]? with
    | none => (.done none, cache.countLookup false)
    | some tier =>
      if tier.has file then (.more (.file place), cache.onDisk place (·.touch file))
      else (.more (.index (place + 1)), cache)
  | .file place =>
    match cache.disks[place]?.bind (·.read? file) with
    | some data => (.more (.found data), cache.countLookup true)
    | none => (.more (.unreadable place), cache)
  | .unreadable place => (.more (.index (place + 1)), cache.onDisk place (·.remove file))
  | .found data => (.done (some data), { cache with memory := cache.memory.offer file data })

/-- One stage of storing a chunk. A file that cannot be written ends it. -/
def save (cache : TieredCache) (file : String) (data : Bytes) :
    StoreStage → Advance StoreStage Unit × TieredCache
  | .memory => (.more .file, { cache with memory := cache.memory.offer file data })
  | .file =>
    let place := cache.diskFor data.length
    match cache.disks[place]? with
    | none => (.done (), cache)
    | some tier =>
      match tier.directory.write (DiskTier.fileName file) data with
      | .error _ => (.done (), cache)
      | .ok directory => (.more .index, cache.onDisk place ({ · with directory }))
  | .index => (.done (), cache.onDisk (cache.diskFor data.length) (·.enter file data.length))

end TieredCache

end Haystack
