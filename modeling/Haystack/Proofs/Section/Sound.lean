import Haystack.Proofs.Reader.Progress
import Haystack.Section.File

/-!
# What sections have worked out

A section resolves its chunks when it is first asked, drops those of which nothing is visible, and
lays later chunks over what it has. Whenever this happens, what is visible in the section is what
resolving all chunks of the file in its window gives, and its reader goes through the views of
that. A section that a file does not have is as good as an empty one.
-/

namespace Haystack

/-- The views of a window show the chunks that count there. -/
theorem ChunkView.show_ofVisibles {chunks : List Chunk} {start size limit : Int}
    (low : 0 ≤ start) (reach : ∀ chunk ∈ chunks, chunk.stop ≤ limit)
    (addressable : limit ≤ maxPosition) :
    Show (ofVisibles (Chunk.resolve chunks start (start + size)) start size) chunks limit start
      (start + size) := by
  have within : ∀ view ∈ ofVisibles (Chunk.resolve chunks start (start + size)) start size,
      view.stop ≤ limit := by
    intro view member
    obtain ⟨chunk, present, _, _, high⟩ := reads_of_mem_views member
    have := reach chunk present
    omega
  have told : ∀ view ∈ ofVisibles (Chunk.resolve chunks start (start + size)) start size,
      view.value.offset = view.start ∧ view.value.stop = view.stop := by
    intro view member
    have first := (within_of_mem_views member).1
    have last := within view member
    exact told_of_mem_views member (by omega) (by omega)
  refine ⟨ordered_views chunks start (start + size) start size, told, within, ?_⟩
  intro position first last
  have sum : addPositions start size = max (-(2 ^ 63)) (min maxPosition (start + size)) := rfl
  by_cases inside : position < limit
  · exact reads_at (Int.le_refl _) (by omega) first (by omega)
  · have none : Chunk.winner? chunks position = none := by
      rw [Chunk.winner?_eq_none_iff]
      intro chunk present
      have := reach chunk present
      rw [Chunk.covers_iff]
      omega
    rw [none, Overlay.at?_eq_none_of_behind within (by omega)]
    exact .none

namespace Section

variable {chunks : List Chunk} {it : Section}

/-- What a section has worked out is right for some chunks. -/
structure Sound (it : Section) (chunks : List Chunk) : Prop where
  resolved : it.resolved = Chunk.resolve chunks it.start it.stop
  views : ∀ reader, it.reader = some reader →
    reader.views = ChunkView.ofVisibles it.resolved it.start length

theorem sound_empty (index : Int) : Sound { index } [] :=
  ⟨rfl, by simp⟩

theorem resolved_add (it : Section) (chunk : Chunk) :
    (it.add chunk).resolved = Chunk.addVisible it.start it.stop it.resolved chunk := by
  unfold resolved add
  cases it.visible with
  | none => exact Chunk.resolve_concat it.chunks chunk it.start it.stop
  | some visible => rfl

theorem Sound.add (sound : it.Sound chunks) (chunk : Chunk) :
    (it.add chunk).Sound (chunks ++ [chunk]) := by
  refine ⟨?_, ?_⟩
  · rw [resolved_add, sound.resolved, ← Chunk.resolve_concat]
    rfl
  · intro reader found
    cases found

theorem Sound.pass (sound : it.Sound chunks) {chunk : Chunk}
    (apart : ¬max chunk.offset it.start < min chunk.stop it.stop) :
    it.Sound (chunks ++ [chunk]) := by
  refine ⟨?_, sound.views⟩
  rw [Chunk.resolve_concat, Chunk.addVisible, Overlay.insert, if_neg apart]
  exact sound.resolved

theorem Sound.remembered (sound : it.Sound chunks) : it.remembered.Sound chunks :=
  ⟨sound.resolved, sound.views⟩

theorem resolved_cleaned (it : Section) : it.cleaned.resolved = it.resolved := by
  unfold cleaned
  cases visible : it.visible with
  | none => rfl
  | some overlay => rfl

theorem index_cleaned (it : Section) : it.cleaned.index = it.index := by
  unfold cleaned
  split <;> rfl

/-- A section that gets ready to be read has a reader over the views of what is visible. -/
theorem Sound.prepare (sound : it.Sound chunks) (fileSize : Int) :
    (it.prepare fileSize).1.views = ChunkView.ofVisibles (Chunk.resolve chunks it.start it.stop)
        it.start length ∧
      (it.prepare fileSize).1.fileSize = fileSize ∧
      (it.prepare fileSize).2.index = it.index ∧
      (it.prepare fileSize).2.resolved = it.resolved := by
  unfold Section.prepare
  cases found : it.reader with
  | some reader =>
      have views := sound.views reader found
      rw [sound.resolved] at views
      exact ⟨views, rfl, rfl, rfl⟩
  | none =>
      refine ⟨?_, rfl, it.index_cleaned, it.resolved_cleaned⟩
      have start : it.cleaned.start = it.start := by
        rw [Section.start, index_cleaned, Section.start]
      simp only [freshReader, resolved_cleaned, start, sound.resolved]

theorem index_read (it : Section) (source : ChunkSource) (cancelled : Bool)
    (session : ReadSession) (fileSize : Int) (buffer : Bytes) (offset : Int) :
    (it.read source cancelled session fileSize buffer offset).2.1.index = it.index := by
  unfold read prepare
  cases it.reader with
  | none => exact it.index_cleaned
  | some reader => rfl

/-- Reading keeps what a section has worked out. -/
theorem Sound.read (sound : it.Sound chunks) (source : ChunkSource) (cancelled : Bool)
    (session : ReadSession) (fileSize : Int) (buffer : Bytes) (offset : Int) :
    (it.read source cancelled session fileSize buffer offset).2.1.Sound chunks := by
  obtain ⟨views, _, index, resolved⟩ := sound.prepare fileSize
  have start : (it.prepare fileSize).2.start = it.start := by
    rw [Section.start, index, Section.start]
  have stop : (it.prepare fileSize).2.stop = it.stop := by rw [Section.stop, start, Section.stop]
  refine ⟨?_, ?_⟩
  · change (it.prepare fileSize).2.resolved =
      Chunk.resolve chunks (it.prepare fileSize).2.start (it.prepare fileSize).2.stop
    rw [resolved, start, stop, sound.resolved]
  · intro reader found
    change some ((it.prepare fileSize).1.read source cancelled session buffer offset).2.1 =
      some reader at found
    change reader.views = ChunkView.ofVisibles (it.prepare fileSize).2.resolved
      (it.prepare fileSize).2.start length
    rw [← Option.some.inj found, ChunkReader.views_read, views, resolved, start, sound.resolved]

theorem holds_read {content : String → Bytes} (it : Section) {source : ChunkSource}
    (honest : source.Honest content) (cancelled : Bool) {session : ReadSession}
    (holds : session.cache.Holds content) (fileSize : Int) (buffer : Bytes) (offset : Int) :
    (it.read source cancelled session fileSize buffer offset).2.2.cache.Holds content :=
  (it.prepare fileSize).1.holds_read honest cancelled holds buffer offset

theorem stop_le (it : Section) : it.stop ≤ maxPosition :=
  wrapped_le _

theorem start_nonneg (first : 0 ≤ it.index) : 0 ≤ it.start :=
  Int.mul_nonneg first (by decide)

theorem stop_le_start_add (first : 0 ≤ it.index) : it.stop ≤ it.start + length := by
  have start := start_nonneg first
  have positive : 0 ≤ length := by decide
  exact wrapped_le_self (by omega)

theorem stop_eq (first : 0 ≤ it.index) (forth : it.start ≤ it.stop) :
    it.stop = it.start + length := by
  have start := start_nonneg first
  have positive : 0 ≤ length ∧ length < 2 ^ 64 := by decide
  have near : wrapped (it.start + length) = it.start + length ∨
      wrapped (it.start + length) ≤ it.start + length - 2 ^ 64 :=
    wrapped_eq_or_le (by omega)
  rcases near with same | less
  · exact same
  · unfold stop at forth
    omega

/-- A section fills its part of a buffer with the image of the file. -/
theorem Sound.read_fills (sound : it.Sound chunks) {content : String → Bytes}
    {source : ChunkSource} (honest : source.Honest content) (cancelled : Bool)
    {session : ReadSession} (holds : session.cache.Holds content) {fileSize : Int}
    (reach : ∀ chunk ∈ chunks, chunk.stop ≤ fileSize) (some : 0 ≤ fileSize)
    (addressable : fileSize ≤ maxPosition) (first : 0 ≤ it.index) {buffer : Bytes} {offset : Int}
    (low : it.start ≤ offset) (high : offset + buffer.length ≤ it.stop) :
    (it.read source cancelled session fileSize buffer offset).1.Fills content chunks fileSize
        offset buffer ∧
      (cancelled = false → source.Serves chunks offset (offset + buffer.length) →
        ∃ amount,
          (it.read source cancelled session fileSize buffer offset).1.result = .ok amount) := by
  obtain ⟨views, size, _, _⟩ := sound.prepare fileSize
  have start := start_nonneg first
  have most := it.stop_le
  have shown := @ChunkView.show_ofVisibles _ it.start length _ start reach addressable
  rw [← stop_eq first (by omega)] at shown
  have narrow : ChunkView.Show (it.prepare fileSize).1.views chunks
      (it.prepare fileSize).1.fileSize offset (offset + buffer.length) := by
    rw [views, size]
    exact shown.narrow low high
  have fits : (it.prepare fileSize).1.Fits offset buffer.length := by
    rw [← size] at some addressable
    unfold maxPosition at most
    exact ⟨by omega, by unfold maxPosition; omega, by omega, addressable⟩
  have fills := ChunkReader.read_fills honest cancelled holds narrow fits
  rw [size] at fills
  exact fills

end Section

end Haystack
