import Haystack.Cache.Fetch
import Haystack.Chunk.View
import Haystack.Reader.Pattern

/-!
# Reading through views

A reader fills a buffer from the views of a file, from the front without a gap: ranges that no
view covers become zeros, and so does what a chunk is too short for. Behind the last view it goes
on with zeros up to the length of the file. While reading in sequence, a chunk that has been left
behind leaves memory, and when the reading enters a view the chunk of the next one is to be
fetched ahead; those fetches are left to be run after the read.
-/

namespace Haystack

/-- What reads share: the cache, and the chunks to be fetched ahead, in order. -/
structure ReadSession where
  cache : TieredCache
  ahead : List String := []
  deriving DecidableEq, Repr, Inhabited

namespace ReadSession

/-- The cache after the chunks asked for have been fetched; a fetch that fails leaves no trace. -/
def fetchAhead (session : ReadSession) (source : ChunkSource) (cancelled : Bool) : TieredCache :=
  session.ahead.foldl (fun cache file => (cache.getOrFetch source cancelled file).2) session.cache

end ReadSession

/-- What became of a read: the number of bytes and the newest modification among the chunks read,
and the buffer as it is afterwards. -/
structure ReadOutcome where
  result : Except ReadError (Nat × Int)
  buffer : Bytes
  /-- Whether the read comes to an end. -/
  ends : Bool := true

/-- A read under way. -/
structure Progress where
  session : ReadSession
  /-- The chunk read last. -/
  lastFile : Option String
  /-- Where the read starts in the file. -/
  offset : Int
  /-- How many bytes are wanted. -/
  length : Nat
  /-- What the buffer has been filled with so far. -/
  written : Bytes := []
  /-- The newest modification among the chunks read. -/
  newest : Int := 0

namespace Progress

def position (progress : Progress) : Int :=
  progress.offset + progress.written.length

def remaining (progress : Progress) : Nat :=
  progress.length - progress.written.length

/-- Fills up with zeros to a position, as far as bytes are wanted. -/
def zeroUpTo (progress : Progress) (stop : Int) : Progress :=
  { progress with
    written := progress.written ++
      Bytes.zeros (min progress.remaining (stop - progress.position).toNat) }

def noteRandom (progress : Progress) (view : ChunkView) : Progress :=
  { progress with lastFile := some view.fileId }

/-- Drops the chunk read before from memory, if it was another one. -/
def leaveBehind (progress : Progress) (view : ChunkView) : Progress :=
  match progress.lastFile with
  | none => progress.noteRandom view
  | some file =>
    if file = view.fileId then progress
    else
      { progress.noteRandom view with
        session := { progress.session with cache := progress.session.cache.uncache file } }

def ask (progress : Progress) (view : ChunkView) : Progress :=
  { progress with
    session := { progress.session with ahead := progress.session.ahead ++ [view.fileId] } }

/-- Notes that a chunk is read, from a position within it on. -/
def note (progress : Progress) (random : Bool) (view : ChunkView) (next : Option ChunkView)
    (within : Int) : Progress :=
  if random then progress.noteRandom view
  else
    let progress := progress.leaveBehind view
    match next with
    | none => progress
    | some next => if within = view.offsetInChunk then progress.ask next else progress

/-- Takes `length` bytes of a chunk's contents, with zeros where the contents end early. -/
def take (progress : Progress) (view : ChunkView) (data : Bytes) (within : Int) (length : Nat) :
    Progress :=
  { progress with
    written := progress.written ++ (data.slice within.toNat length).resize length
    newest := max progress.newest view.modified }

/-- Fills up with zeros to the length of a file, as far as bytes are wanted. -/
def finish (progress : Progress) (fileSize : Int) : Progress :=
  progress.zeroUpTo (progress.position + wrapped (fileSize - progress.position))

/-- Reads through views, in order, as long as bytes are wanted. -/
def readViews (source : ChunkSource) (cancelled random : Bool) :
    List ChunkView → Progress → Except ReadError Unit × Progress
  | [], progress => (.ok (), progress)
  | view :: rest, progress =>
    let progress := progress.zeroUpTo view.offset
    let start := progress.position
    let stop := min view.stop (wrapped (start + progress.remaining))
    if stop ≤ start then readViews source cancelled random rest progress
    else
      match progress.session.cache.getOrFetch source cancelled view.fileId with
      | (.error problem, cache) =>
        (.error problem, { progress with session := { progress.session with cache } })
      | (.ok data, cache) =>
        let within := start - view.offset + view.offsetInChunk
        let progress := { progress with session := { progress.session with cache } }
        readViews source cancelled random rest
          ((progress.note random view rest.head? within).take view data within (stop - start).toNat)

end Progress

/-- Reads a file through its views. -/
structure ChunkReader where
  views : Overlay ChunkView
  fileSize : Int
  pattern : ReadPattern := {}
  /-- The chunk read last. -/
  lastFile : Option String := none
  deriving DecidableEq, Repr, Inhabited

namespace ChunkReader

/-- Fills a buffer from a position on. The fetches asked for are not run yet. -/
def read (reader : ChunkReader) (source : ChunkSource) (cancelled : Bool) (session : ReadSession)
    (buffer : Bytes) (offset : Int) : ReadOutcome × ChunkReader × ReadSession :=
  let pattern := reader.pattern.observe offset buffer.length
  let (result, progress) := Progress.readViews source cancelled pattern.isRandom
    (reader.views.map (·.value))
    { session, lastFile := reader.lastFile, offset, length := buffer.length }
  let progress := match result with
    | .ok () => progress.finish reader.fileSize
    | .error _ => progress
  ({ result := result.map fun () => (progress.written.length, progress.newest)
     buffer := progress.written ++ buffer.drop progress.written.length },
    { reader with pattern, lastFile := progress.lastFile }, progress.session)

/-- Fills a buffer from a position on, and fetches ahead what was asked for. -/
def readAt (reader : ChunkReader) (source : ChunkSource) (cancelled : Bool) (cache : TieredCache)
    (buffer : Bytes) (offset : Int) : ReadOutcome × ChunkReader × TieredCache :=
  let (outcome, reader, session) := reader.read source cancelled { cache } buffer offset
  (outcome, reader, session.fetchAhead source cancelled)

end ChunkReader

end Haystack
