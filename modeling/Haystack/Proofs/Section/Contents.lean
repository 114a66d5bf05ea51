import Haystack.Proofs.Section.File

/-!
# Reading a file of sections

A read goes from section to section. Up to the border that it has reached the buffer is the image
of the file, as far as the file goes, and behind that it is as before. This holds whatever
happened to the file before: the sections are right for the chunks that were added.
-/

namespace Haystack

theorem ChunkSource.Serves.narrow {source : ChunkSource} {chunks : List Chunk}
    {start stop first last : Int} (serves : source.Serves chunks start stop)
    (low : start ≤ first) (high : last ≤ stop) : source.Serves chunks first last :=
  fun position inside below => serves position (by omega) (by omega)

namespace SectionedFile

variable {content : String → Bytes} {chunks : List Chunk} {buffer : Bytes}

/-- The buffer is filled up to a position, as far as the file goes. -/
structure Reading.Shows (reading : Reading) (content : String → Bytes) (chunks : List Chunk)
    (fileSize offset : Int) (buffer : Bytes) (upTo : Int) : Prop where
  count : reading.count = min (upTo - offset).toNat (fileSize - offset).toNat
  buffer : reading.buffer =
    Chunk.image content chunks offset reading.count ++ buffer.drop reading.count
  newest : reading.newest = Chunk.newestIn chunks offset reading.count

theorem Reading.Shows.length_eq {reading : Reading} {fileSize offset upTo : Int}
    (shows : reading.Shows content chunks fileSize offset buffer upTo)
    (within : upTo ≤ offset + buffer.length) : reading.buffer.length = buffer.length := by
  have amount := shows.count
  rw [shows.buffer, List.length_append, Chunk.length_image, List.length_drop]
  omega

/-- A part that starts with the image of the file takes the filling further. -/
theorem Reading.Shows.fill {reading : Reading} {fileSize offset low high : Int}
    (shows : reading.Shows content chunks fileSize offset buffer low) (first : offset ≤ low)
    (proper : low ≤ high) (last : high ≤ offset + buffer.length) {count length : Nat}
    (reaches : count = min (high - low).toNat (fileSize - low).toNat) (short : count ≤ length)
    (fits : low + length ≤ high) {newest : Int}
    (newest_eq : newest = Chunk.newestIn chunks low count) :
    (reading.fill (low - offset).toNat
      (Chunk.image content chunks low count ++
        (reading.buffer.slice (low - offset).toNat length).drop count) count newest).Shows
      content chunks fileSize offset buffer high := by
  have amount := shows.count
  have size := shows.length_eq (by omega)
  have laid := @Bytes.splice_append_slice reading.buffer (Chunk.image content chunks low count)
    (low - offset).toNat length (by rw [Chunk.length_image]; exact short) (by omega)
  rw [Chunk.length_image] at laid
  have filled := shows.buffer
  have newer := shows.newest
  by_cases inside : low < fileSize
  · have here : reading.count = (low - offset).toNat := by omega
    have place : offset + reading.count = low := by omega
    have front : reading.buffer.take (low - offset).toNat =
        Chunk.image content chunks offset reading.count := by
      rw [filled, ← here, List.take_left' (Chunk.length_image _ _ _ _)]
    have back : reading.buffer.drop ((low - offset).toNat + count) =
        buffer.drop (reading.count + count) := by
      rw [filled, ← here, ← List.drop_drop, List.drop_left' (Chunk.length_image _ _ _ _),
        List.drop_drop]
    refine ⟨?_, ?_, ?_⟩
    · change reading.count + count = _
      omega
    · change reading.buffer.splice _ _ =
        Chunk.image content chunks offset (reading.count + count) ++
          buffer.drop (reading.count + count)
      rw [laid, front, back, Chunk.image_add, place]
    · change max reading.newest newest = Chunk.newestIn chunks offset (reading.count + count)
      rw [newer, newest_eq, Chunk.newestIn_add, place]
  · have nothing : count = 0 := by omega
    subst nothing
    refine ⟨?_, ?_, ?_⟩
    · change reading.count + 0 = _
      omega
    · change reading.buffer.splice _ _ = Chunk.image content chunks offset (reading.count + 0) ++
        buffer.drop (reading.count + 0)
      rw [laid, Chunk.image_zero, List.append_nil, Nat.add_zero, List.take_append_drop]
      exact filled
    · have nonneg := Chunk.newestIn_nonneg chunks offset reading.count
      change max reading.newest newest = Chunk.newestIn chunks offset (reading.count + 0)
      rw [newest_eq, Chunk.newestIn_zero, Nat.add_zero]
      omega

/-- Where the part of a read in a section starts. -/
def Demand.low (demand : Demand) (index : Int) : Int :=
  max demand.offset (index * Section.length)

/-- Where the part of a read in a section stops. -/
def Demand.high (demand : Demand) (length : Nat) (index : Int) : Int :=
  min (wrapped (demand.offset + length)) (wrapped ((index + 1) * Section.length))

/-- The part of a read in a section. -/
def Reading.part (reading : Reading) (demand : Demand) (index : Int) (it : Section) :
    ReadOutcome × Section × ReadSession :=
  it.read demand.source demand.cancelled reading.session demand.fileSize
    (reading.buffer.slice (demand.low index - demand.offset).toNat
      (demand.high reading.buffer.length index - demand.low index).toNat) (demand.low index)

/-- The read under way with the section and the session that a part leaves. -/
def Reading.after (reading : Reading) (part : ReadOutcome × Section × ReadSession) : Reading :=
  { reading with file := reading.file.put part.2.1, session := part.2.2 }

/-- What the next step of a read can be: nothing if it does not reach the section, zeros if there is
no such section, or a part that the section reads, which may fail. -/
inductive Step (demand : Demand) (reading : Reading) (index : Int) :
    Except ReadError Unit → Reading → Prop
  | skip (past : demand.high reading.buffer.length index ≤ demand.low index) :
      Step demand reading index (.ok ()) reading
  | zeros (meets : demand.low index < demand.high reading.buffer.length index)
      (missing : reading.file.find? index = none) {count : Nat}
      (reaches : count = (min (demand.high reading.buffer.length index) demand.fileSize -
        demand.low index).toNat) :
      Step demand reading index (.ok ())
        (reading.fill (demand.low index - demand.offset).toNat (.zeros count) count 0)
  | part (meets : demand.low index < demand.high reading.buffer.length index) {it : Section}
      (found : reading.file.find? index = some it) {count : Nat} {newest : Int}
      (read : (reading.part demand index it).1.result = .ok (count, newest)) :
      Step demand reading index (.ok ())
        ((reading.after (reading.part demand index it)).fill
          (demand.low index - demand.offset).toNat (reading.part demand index it).1.buffer count
          newest)
  | failure (meets : demand.low index < demand.high reading.buffer.length index) {it : Section}
      (found : reading.file.find? index = some it) {problem : ReadError}
      (read : (reading.part demand index it).1.result = .error problem) :
      Step demand reading index (.error problem)
        ((reading.after (reading.part demand index it)).fill
          (demand.low index - demand.offset).toNat (reading.part demand index it).1.buffer 0 0)

/-- Reading parts is taking one step and then, if it does not fail, reading the other parts. -/
theorem readParts_cons (demand : Demand) (index : Int) (rest : List Int) (reading : Reading) :
    ∃ result later, Step demand reading index result later ∧
      readParts demand (index :: rest) reading =
        match result with
        | .ok () => readParts demand rest later
        | .error problem => (.error problem, later) := by
  rw [readParts]
  dsimp only
  split
  · rename_i past
    exact ⟨_, _, .skip past, rfl⟩
  · rename_i meets
    have meets : demand.low index < demand.high reading.buffer.length index :=
      Int.lt_of_not_ge meets
    cases found : reading.file.find? index with
    | none =>
        refine ⟨_, _, .zeros meets found rfl, ?_⟩
        rw [Bytes.length_zeros]
        rfl
    | some it =>
        cases read : (reading.part demand index it).1.result with
        | error problem =>
            refine ⟨_, _, .failure meets found read, ?_⟩
            unfold Reading.part Demand.low Demand.high at read
            dsimp only
            rw [read]
            rfl
        | ok amount =>
            refine ⟨_, _, .part meets found read, ?_⟩
            unfold Reading.part Demand.low Demand.high at read
            dsimp only
            rw [read]
            rfl

section

variable {demand : Demand} {reading later : Reading} {index : Int}
  {result : Except ReadError Unit}

theorem sectionAt_of_find? {file : SectionedFile} {it : Section}
    (found : file.find? index = some it) : file.sectionAt index = it := by
  rw [sectionAt, found, Option.getD_some]

theorem Sound.after {it : Section} (sound : reading.file.Sound chunks)
    (found : reading.file.find? index = some it) :
    (reading.after (reading.part demand index it)).file.Sound chunks := by
  refine sound.put fun first => ?_
  rw [Reading.part, Section.index_read, index_of_find? found] at first
  have right := sound index first
  rw [sectionAt_of_find? found] at right
  exact right.read demand.source demand.cancelled reading.session demand.fileSize _ _

theorem Step.sound (step : Step demand reading index result later)
    (sound : reading.file.Sound chunks) : later.file.Sound chunks := by
  cases step with
  | skip past => exact sound
  | zeros meets missing reaches => exact sound
  | part meets found read => exact sound.after found
  | failure meets found read => exact sound.after found

theorem Step.holds (step : Step demand reading index result later)
    (honest : demand.source.Honest content) (holds : reading.session.cache.Holds content) :
    later.session.cache.Holds content := by
  cases step with
  | skip past => exact holds
  | zeros meets missing reaches => exact holds
  | @part _ it found _ _ read => exact it.holds_read honest _ holds _ _ _
  | @failure _ it found _ read => exact it.holds_read honest _ holds _ _ _

theorem sound_readParts (demand : Demand) (indexes : List Int) {reading : Reading}
    (sound : reading.file.Sound chunks) :
    (readParts demand indexes reading).2.file.Sound chunks := by
  induction indexes generalizing reading with
  | nil => exact sound
  | cons index rest ih =>
      obtain ⟨result, later, step, read⟩ := readParts_cons demand index rest reading
      rw [read]
      cases result with
      | error problem => exact step.sound sound
      | ok => exact ih (step.sound sound)

theorem holds_readParts (honest : demand.source.Honest content) (indexes : List Int)
    {reading : Reading} (holds : reading.session.cache.Holds content) :
    (readParts demand indexes reading).2.session.cache.Holds content := by
  induction indexes generalizing reading with
  | nil => exact holds
  | cons index rest ih =>
      obtain ⟨result, later, step, read⟩ := readParts_cons demand index rest reading
      rw [read]
      cases result with
      | error problem => exact step.holds honest holds
      | ok => exact ih (step.holds honest holds)

/-- Where a read has got to when the sections before one of some number are behind it. -/
def Demand.border (demand : Demand) (length : Nat) (index : Int) : Int :=
  max demand.offset (min (demand.offset + length) (index * Section.length))

theorem Demand.border_le (demand : Demand) (length : Nat) (index : Int) :
    demand.border length index ≤ demand.offset + length := by
  unfold border
  omega

theorem Demand.border_of_le_offset {demand : Demand} (length : Nat)
    (low : index * Section.length ≤ demand.offset) :
    demand.border length index = demand.offset := by
  unfold border
  omega

theorem Demand.border_of_stop_le {demand : Demand} {length : Nat}
    (high : demand.offset + length ≤ index * Section.length) :
    demand.border length index = demand.offset + length := by
  unfold border
  omega

theorem Sound.missing {file : SectionedFile} (sound : file.Sound chunks) (first : 0 ≤ index)
    (border : (index + 1) * Section.length ≤ maxPosition) (missing : file.find? index = none)
    {position : Int} (low : index * Section.length ≤ position)
    (high : position < (index + 1) * Section.length) : Chunk.winner? chunks position = none := by
  have right := (sound index first).resolved
  rw [sectionAt, missing, Option.getD_none] at right
  rw [← @Section.stop_eq_border { index } first border] at high
  have shown := @Chunk.visible_at (Section.start { index }) _ position low high chunks
  rw [← right] at shown
  cases found : Chunk.winner? chunks position with
  | none => rfl
  | some chunk => simp [found, Section.resolved, Chunk.resolve] at shown

/-- What the reads of a file rely on: the source is honest, and the file is as long as its chunks
reach, within what can be addressed. -/
structure Demand.Fair (demand : Demand) (content : String → Bytes) (chunks : List Chunk) :
    Prop where
  honest : demand.source.Honest content
  placed : ∀ chunk ∈ chunks, -(2 ^ (63 : Nat)) ≤ chunk.offset
  reach : ∀ chunk ∈ chunks, chunk.offset + chunk.size ≤ demand.fileSize
  addressable : demand.fileSize ≤ maxPosition

theorem Demand.Fair.fits (fair : demand.Fair content chunks) :
    ∀ chunk ∈ chunks, chunk.Fits := by
  intro chunk present
  exact ⟨fair.placed chunk present, Int.le_trans (fair.reach chunk present) fair.addressable⟩

theorem Demand.Fair.stop_le (fair : demand.Fair content chunks) :
    ∀ chunk ∈ chunks, chunk.stop ≤ demand.fileSize := by
  intro chunk present
  rw [(fair.fits chunk present).stop_eq]
  exact fair.reach chunk present

/-- A read starts within its file, and ends before the last section starts. -/
structure Demand.Fits (demand : Demand) (length : Nat) : Prop where
  first : 0 ≤ demand.offset
  starts : demand.offset < demand.fileSize
  size : demand.fileSize ≤ maxPosition
  stop : demand.offset + length ≤ Section.lastStart

theorem lastStart_lt : Section.lastStart < maxPosition := by decide

theorem Demand.Fits.wrapped_stop {length : Nat} (fits : demand.Fits length) :
    wrapped (demand.offset + length) = demand.offset + length := by
  have first := fits.first
  have before := fits.stop
  have last := lastStart_lt
  exact wrapped_of_fits (by omega) (by omega)

theorem Demand.Fits.high_eq {length : Nat} (fits : demand.Fits length) (first : 0 ≤ index)
    (border : (index + 1) * Section.length ≤ maxPosition) :
    demand.high length index = min (demand.offset + length) ((index + 1) * Section.length) := by
  have low : 0 ≤ (index + 1) * Section.length := Int.mul_nonneg (by omega) (by decide)
  rw [high, fits.wrapped_stop, wrapped_of_fits (by omega) border]

section

variable (fits : demand.Fits reading.buffer.length) (first : 0 ≤ index)
  (border : (index + 1) * Section.length ≤ maxPosition)

include fits first border

theorem Demand.Fits.bounds :
    demand.offset ≤ demand.low index ∧ index * Section.length ≤ demand.low index ∧
      demand.high reading.buffer.length index ≤ demand.offset + reading.buffer.length ∧
      demand.high reading.buffer.length index ≤ (index + 1) * Section.length := by
  rw [fits.high_eq first border]
  unfold Demand.low
  omega

theorem Demand.Fits.borders_of_meets
    (meets : demand.low index < demand.high reading.buffer.length index) :
    demand.border reading.buffer.length index = demand.low index ∧
      demand.border reading.buffer.length (index + 1) =
        demand.high reading.buffer.length index := by
  have next := Section.border_succ index
  have positive := Section.length_pos
  rw [fits.high_eq first border] at meets ⊢
  unfold Demand.low at meets
  unfold Demand.border Demand.low
  omega

theorem Demand.Fits.border_of_past (ahead : demand.offset < (index + 1) * Section.length)
    (past : demand.high reading.buffer.length index ≤ demand.low index) :
    demand.border reading.buffer.length (index + 1) =
      demand.border reading.buffer.length index := by
  have next := Section.border_succ index
  have positive := Section.length_pos
  rw [fits.high_eq first border] at past
  unfold Demand.low at past
  unfold Demand.border
  omega

/-- The part of a read in a section is filled with the image of the file. -/
theorem Reading.part_fills (fair : demand.Fair content chunks)
    (sound : reading.file.Sound chunks) (holds : reading.session.cache.Holds content)
    (meets : demand.low index < demand.high reading.buffer.length index) {it : Section}
    (found : reading.file.find? index = some it) :
    let part := reading.buffer.slice (demand.low index - demand.offset).toNat
      (demand.high reading.buffer.length index - demand.low index).toNat
    part.length = (demand.high reading.buffer.length index - demand.low index).toNat ∧
      (reading.part demand index it).1.Fills content chunks demand.fileSize (demand.low index)
        part ∧
      (demand.cancelled = false →
        demand.source.Serves chunks demand.offset (demand.offset + reading.buffer.length) →
        ∃ amount, (reading.part demand index it).1.result = .ok amount) := by
  intro part
  have inside := fits.bounds first border
  have right := sound index first
  have number := index_of_find? found
  rw [sectionAt_of_find? found] at right
  have start : it.start = index * Section.length := by rw [Section.start, number]
  have stop : it.stop = (index + 1) * Section.length := by
    rw [← number] at first border ⊢
    exact Section.stop_eq_border first border
  have length : part.length =
      (demand.high reading.buffer.length index - demand.low index).toNat := by
    rw [Bytes.length_slice]
    omega
  have some : 0 ≤ demand.fileSize := by
    have begins := fits.first
    have starts := fits.starts
    omega
  have fills := right.read_fills fair.honest demand.cancelled holds fair.stop_le some
    fair.addressable (by rw [number]; exact first) (by rw [start]; exact inside.2.1)
    (by rw [stop, length]; omega : demand.low index + part.length ≤ it.stop)
  refine ⟨length, fills.1, fun waits serves => fills.2 waits ?_⟩
  exact serves.narrow inside.1 (by omega)

/-- No step fails if the source has the chunks that count. -/
theorem Step.served (step : Step demand reading index result later)
    (fair : demand.Fair content chunks) (sound : reading.file.Sound chunks)
    (holds : reading.session.cache.Holds content) (waits : demand.cancelled = false)
    (serves : demand.source.Serves chunks demand.offset (demand.offset + reading.buffer.length)) :
    result = .ok () := by
  cases step with
  | skip past => rfl
  | zeros meets missing reaches => rfl
  | part meets found read => rfl
  | @failure meets it found problem read =>
      obtain ⟨_, _, served⟩ := Reading.part_fills fits first border fair sound holds meets found
      obtain ⟨amount, ok⟩ := served waits serves
      rw [read] at ok
      contradiction

end

/-- A step takes the filling from one border to the next. -/
theorem Step.shows (step : Step demand reading index (.ok ()) later)
    (fair : demand.Fair content chunks) (fits : demand.Fits buffer.length) (first : 0 ≤ index)
    (border : (index + 1) * Section.length ≤ maxPosition)
    (ahead : demand.offset < (index + 1) * Section.length) (sound : reading.file.Sound chunks)
    (holds : reading.session.cache.Holds content)
    (shows : reading.Shows content chunks demand.fileSize demand.offset buffer
      (demand.border buffer.length index)) :
    later.Shows content chunks demand.fileSize demand.offset buffer
      (demand.border buffer.length (index + 1)) := by
  have size := shows.length_eq (demand.border_le buffer.length index)
  rw [← size] at fits shows ⊢
  have inside := fits.bounds first border
  cases step with
  | skip past =>
      rw [fits.border_of_past first border ahead past]
      exact shows
  | @zeros meets missing count reaches =>
      obtain ⟨from_here, further⟩ := fits.borders_of_meets first border meets
      rw [from_here] at shows
      rw [further]
      have none : ∀ position, demand.low index ≤ position → position < demand.low index + count →
          Chunk.winner? chunks position = none := by
        intro position low high
        exact sound.missing first border missing (by omega) (by omega)
      have filled := shows.fill inside.1 (Int.le_of_lt meets) (by omega)
        (by omega : count = _) (Nat.le_refl count) (by omega)
        (Chunk.newestIn_of_no_winner none).symm
      rw [Chunk.image_of_no_winner none, Bytes.drop_slice, List.append_nil] at filled
      exact filled
  | @part meets it found count newest read =>
      obtain ⟨from_here, further⟩ := fits.borders_of_meets first border meets
      rw [from_here] at shows
      rw [further]
      obtain ⟨length, fills, _⟩ :=
        Reading.part_fills fits first border fair sound holds meets found
      obtain ⟨amount, modified, image⟩ := fills count newest read
      rw [length] at amount
      have taken : (reading.after (reading.part demand index it)).Shows content chunks
          demand.fileSize demand.offset buffer (demand.low index) :=
        ⟨shows.count, shows.buffer, shows.newest⟩
      have filled := taken.fill inside.1 (Int.le_of_lt meets) (by omega) amount
        (by omega : count ≤ (demand.high reading.buffer.length index - demand.low index).toNat)
        (by omega) modified
      rw [image]
      exact filled

theorem consecutive_succ (steps : Nat) (index : Int) :
    ((List.range (steps + 1)).map fun (step : Nat) => index + step) =
      index :: (List.range steps).map fun (step : Nat) => index + 1 + step := by
  rw [List.range_succ_eq_map, List.map_cons, List.map_map]
  congr 1
  · exact Int.add_zero index
  · refine List.map_congr_left fun step _ => ?_
    rw [Function.comp_apply, Nat.succ_eq_add_one]
    omega

theorem border_le_last {steps : Nat}
    (last : (index + (steps + 1 : Nat)) * Section.length ≤ maxPosition) :
    (index + 1) * Section.length ≤ maxPosition := by
  have positive := Section.length_pos
  have order : (index + 1) * Section.length ≤ (index + (steps + 1 : Nat)) * Section.length :=
    Int.mul_le_mul_of_nonneg_right (by omega) (by omega)
  omega

end

end SectionedFile

end Haystack
