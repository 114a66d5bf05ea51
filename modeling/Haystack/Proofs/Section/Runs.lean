import Haystack.Proofs.Section.Contents

/-!
# Files in use

Chunks are added to a file one after the other, and at any time between that it is read, from
whatever position and with whatever source of the chunks' contents, and searched for data. The
cache that it is read through may be used by others as well. Whenever the file is then read up to
where its chunks reach or further, the buffer gets the bytes of the chunks that count.
-/

namespace Haystack

theorem TieredCache.Holds.fetchAhead {content : String → Bytes} {session : ReadSession}
    (holds : session.cache.Holds content) {source : ChunkSource}
    (honest : source.Honest content) (cancelled : Bool) :
    (session.fetchAhead source cancelled).Holds content := by
  unfold ReadSession.fetchAhead
  generalize session.cache = cache at holds
  induction session.ahead generalizing cache with
  | nil => exact holds
  | cons file rest ih => exact ih _ (holds.getOrFetch honest cancelled file).1

namespace SectionedFile

/-- The files that are reached by adding chunks, reading and searching in any order, through
whatever caches and from whatever sources. -/
inductive Assembled : List Chunk → SectionedFile → Prop
  | empty : Assembled [] {}
  | add {chunks : List Chunk} {file : SectionedFile} (assembled : Assembled chunks file)
      {chunk : Chunk} (placed : -(2 ^ (63 : Nat)) ≤ chunk.offset) :
      Assembled (chunks ++ [chunk]) (file.add chunk)
  | read {chunks : List Chunk} {file : SectionedFile} (assembled : Assembled chunks file)
      (demand : Demand) (cache : TieredCache) (buffer : Bytes) :
      Assembled chunks (file.readAt demand cache buffer).2.1
  | search {chunks : List Chunk} {file : SectionedFile} (assembled : Assembled chunks file)
      (offset fileSize : Int) : Assembled chunks (file.dataStart offset fileSize).2

/-- The files that are reached by adding chunks, reading and searching in any order, together with
the caches they are read through. -/
inductive Reached (content : String → Bytes) :
    List Chunk → SectionedFile → TieredCache → Prop
  | empty {cache : TieredCache} (holds : cache.Holds content) : Reached content [] {} cache
  | add {chunks : List Chunk} {file : SectionedFile} {cache : TieredCache}
      (reached : Reached content chunks file cache) {chunk : Chunk}
      (placed : -(2 ^ (63 : Nat)) ≤ chunk.offset) :
      Reached content (chunks ++ [chunk]) (file.add chunk) cache
  | read {chunks : List Chunk} {file : SectionedFile} {cache : TieredCache}
      (reached : Reached content chunks file cache) (demand : Demand)
      (honest : demand.source.Honest content) (buffer : Bytes) :
      Reached content chunks (file.readAt demand cache buffer).2.1
        (file.readAt demand cache buffer).2.2
  | search {chunks : List Chunk} {file : SectionedFile} {cache : TieredCache}
      (reached : Reached content chunks file cache) (offset fileSize : Int) :
      Reached content chunks (file.dataStart offset fileSize).2 cache
  | share {chunks : List Chunk} {file : SectionedFile} {cache later : TieredCache}
      (reached : Reached content chunks file cache) (holds : later.Holds content) :
      Reached content chunks file later

variable {content : String → Bytes} {chunks : List Chunk} {file : SectionedFile}
  {cache : TieredCache} {demand : Demand}

theorem Sound.readAt (sound : file.Sound chunks) (demand : Demand) (cache : TieredCache)
    (buffer : Bytes) : (file.readAt demand cache buffer).2.1.Sound chunks := by
  unfold SectionedFile.readAt SectionedFile.read
  dsimp only
  split
  · exact sound
  · exact sound_readParts demand _ sound

theorem Assembled.sound (assembled : Assembled chunks file) : file.Sound chunks := by
  induction assembled with
  | empty => exact sound_empty
  | add _ placed ih => exact ih.add placed
  | read _ demand cache buffer ih => exact ih.readAt demand cache buffer
  | search _ offset fileSize ih => exact ih.dataStart offset fileSize

theorem Assembled.placed (assembled : Assembled chunks file) :
    ∀ chunk ∈ chunks, -(2 ^ (63 : Nat)) ≤ chunk.offset := by
  induction assembled with
  | empty => simp
  | add assembled placed ih =>
      intro chunk member
      rcases List.mem_append.mp member with member | member
      · exact ih chunk member
      · rwa [List.mem_singleton.mp member]
  | read assembled demand cache buffer ih => exact ih
  | search assembled offset fileSize ih => exact ih

theorem Reached.assembled (reached : Reached content chunks file cache) :
    Assembled chunks file := by
  induction reached with
  | empty holds => exact .empty
  | add reached placed ih => exact ih.add placed
  | read reached demand honest buffer ih => exact ih.read demand _ buffer
  | search reached offset fileSize ih => exact ih.search offset fileSize
  | share reached holds ih => exact ih

theorem holds_read {session : ReadSession} (holds : session.cache.Holds content)
    (honest : demand.source.Honest content) (file : SectionedFile) (buffer : Bytes) :
    (file.read demand session buffer).2.2.cache.Holds content := by
  unfold SectionedFile.read
  split
  · exact holds
  · exact holds_readParts honest _ holds

theorem holds_readAt (holds : cache.Holds content) (honest : demand.source.Honest content)
    (file : SectionedFile) (buffer : Bytes) :
    (file.readAt demand cache buffer).2.2.Holds content := by
  have read : (file.read demand { cache } buffer).2.2.cache.Holds content :=
    holds_read holds honest file buffer
  exact read.fetchAhead honest demand.cancelled

theorem Reached.holds (reached : Reached content chunks file cache) : cache.Holds content := by
  induction reached with
  | empty holds => exact holds
  | add reached placed ih => exact ih
  | @read chunks file cache reached demand honest buffer ih =>
      exact holds_readAt ih honest file buffer
  | search reached offset fileSize ih => exact ih
  | share reached holds ih => exact holds

theorem touched_spec {start stop : Int} (first : 0 ≤ start) (forth : start ≤ stop)
    (last : stop ≤ Section.lastStart) :
    ∃ index : Int, ∃ steps : Nat,
      touched start stop = (List.range steps).map (fun (step : Nat) => index + step) ∧
      0 ≤ index ∧ index * Section.length ≤ start ∧ start < (index + 1) * Section.length ∧
      stop ≤ (index + steps) * Section.length ∧
      (index + steps) * Section.length ≤ maxPosition := by
  refine ⟨Section.indexOf start, _, rfl, ?_⟩
  unfold Section.lastStart at last
  rw [Section.indexOf_of_nonneg first]
  unfold Section.length maxPosition at *
  omega

end SectionedFile

end Haystack
