import Haystack.Cache.Tiered
import Haystack.Source

/-!
# Chunks from the cache or from their source

A chunk that is not in the cache is fetched from its source and stored. A caller who no longer
wants to wait gets only what is in the cache.
-/

namespace Haystack.TieredCache

/-- Fetches a chunk from its source, stores it, and counts the fetch. -/
def fetch (cache : TieredCache) (source : ChunkSource) (file : String) :
    Except ReadError Bytes × TieredCache :=
  match source file with
  | .error problem => (.error (.fetch problem), cache.countFetch)
  | .ok data => (.ok data, cache.countFetch.store file data)

/-- A chunk from the cache or else from its source. The cache is asked a second time before the
fetch, since someone else may have fetched the chunk meanwhile. -/
def getOrFetch (cache : TieredCache) (source : ChunkSource) (cancelled : Bool) (file : String) :
    Except ReadError Bytes × TieredCache :=
  match cache.lookup file with
  | (some data, cache) => (.ok data, cache)
  | (none, cache) =>
    if cancelled then (.error .cancelled, cache)
    else
      match cache.lookup file with
      | (some data, cache) => (.ok data, cache)
      | (none, cache) => cache.fetch source file

end Haystack.TieredCache
