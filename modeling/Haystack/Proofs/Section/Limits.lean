import Haystack.Proofs.Reader.Reach
import Haystack.Proofs.Section.Runs

/-!
# Reads over the end of a file

A read is to stop at the length of the file. Where there is no section it does, and the zeros
behind the last view do, but a section reads on through all of its views. So a read stays within
the length unless it goes over the end and some chunk lies behind the end in a section that the
read touches, as it is after a file has been made shorter.
-/

namespace Haystack

/-- Some chunk has bytes in a range, where they can be addressed. -/
def Chunk.Occupied (chunks : List Chunk) (start stop : Int) : Prop :=
  ∃ chunk ∈ chunks, max chunk.offset start < min chunk.stop (min stop maxPosition)

instance (chunks : List Chunk) (start stop : Int) : Decidable (Chunk.Occupied chunks start stop) :=
  inferInstanceAs (Decidable (∃ chunk ∈ chunks, _))

/-- The views of a window reach beyond a position if chunks have bytes from there on. -/
theorem ChunkView.exists_beyond_iff {chunks : List Chunk} {start size position : Int}
    (low : 0 ≤ start) (positive : 0 ≤ size) (inside : start ≤ position) :
    (∃ view ∈ ofVisibles (Chunk.resolve chunks start (start + size)) start size,
        position < view.stop) ↔ Chunk.Occupied chunks position (start + size) := by
  have sum : addPositions start size = max (-(2 ^ 63)) (min maxPosition (start + size)) := rfl
  have addressable : maxPosition = 2 ^ 63 - 1 := rfl
  constructor
  · rintro ⟨view, member, beyond⟩
    obtain ⟨chunk, present, _, first, last⟩ := reads_of_mem_views member
    have within := within_of_mem_views member
    have proper := (ordered_views chunks start (start + size) start size).proper view member
    exact ⟨chunk, present, by omega⟩
  · rintro ⟨chunk, present, meets⟩
    have shown := @reads_at chunks start (start + size) start size (max chunk.offset position)
      (Int.le_refl _) (by omega) (by omega) (by omega)
    cases wins : Chunk.winner? chunks (max chunk.offset position) with
    | none =>
        have covers := Chunk.winner?_eq_none_iff.mp wins chunk present
        rw [Chunk.covers_iff] at covers
        omega
    | some winner =>
        rw [wins] at shown
        cases found : Overlay.at? (ofVisibles (Chunk.resolve chunks start (start + size)) start size)
            (max chunk.offset position) with
        | none => simp [found] at shown
        | some view =>
            have covers := Overlay.covers_of_at? found
            exact ⟨view, Overlay.mem_of_at? found, by omega⟩

namespace Section

variable {chunks : List Chunk} {it : Section}

/-- A section reads as far as the file goes, and further if chunks have bytes there. -/
theorem Sound.read_beyond (sound : it.Sound chunks) (first : 0 ≤ it.index) {source : ChunkSource}
    {cancelled : Bool} {session : ReadSession} {fileSize : Int} {buffer : Bytes} {offset : Int}
    (some : 0 ≤ fileSize) (addressable : fileSize ≤ maxPosition) (low : it.start ≤ offset)
    (high : offset + buffer.length ≤ it.stop) {count : Nat} {newest : Int}
    (read : (it.read source cancelled session fileSize buffer offset).1.result =
      .ok (count, newest)) :
    count ≤ buffer.length ∧ min (offset + buffer.length) fileSize ≤ offset + count ∧
      (max offset fileSize < offset + count ↔
        max offset fileSize < offset + buffer.length ∧
          Chunk.Occupied chunks (max offset fileSize) it.stop) := by
  obtain ⟨views, size, _, _⟩ := sound.prepare fileSize
  have start := start_nonneg first
  have most := it.stop_le
  have stop := stop_eq first (by omega)
  have proper : ∀ view ∈ (it.prepare fileSize).1.views, view.start < view.stop := by
    rw [views]
    exact (ChunkView.ordered_views chunks it.start it.stop it.start length).proper
  have told : ∀ view ∈ (it.prepare fileSize).1.views,
      view.value.offset = view.start ∧ view.value.stop = view.stop := by
    rw [views]
    intro view member
    obtain ⟨begins, ends⟩ := ChunkView.within_of_mem_views member
    have bound := addPositions_le it.start length
    exact ChunkView.told_of_mem_views member (by omega) (by omega)
  have fits : (it.prepare fileSize).1.Fits offset buffer.length := by
    rw [← size] at some addressable
    unfold maxPosition at most
    exact ⟨by omega, by unfold maxPosition; omega, by omega, addressable⟩
  have reaches := ChunkReader.read_reaches proper told fits read
  rw [size] at reaches
  have further := ChunkView.le_reach (it.prepare fileSize).1.views offset
  have beyond : max offset fileSize < ChunkView.reach (it.prepare fileSize).1.views offset ↔
      Chunk.Occupied chunks (max offset fileSize) it.stop := by
    rw [ChunkView.lt_reach_iff, views, stop,
      ← ChunkView.exists_beyond_iff start (by decide : 0 ≤ length)
        (by omega : it.start ≤ max offset fileSize)]
    exact or_iff_right (by omega)
  rw [← beyond]
  omega

end Section

namespace SectionedFile

variable {chunks : List Chunk} {file : SectionedFile} {buffer : Bytes}

/-- As many bytes have been read up to a position as the file has there, and behind them the buffer
is as it was. -/
structure Reading.Within (reading : Reading) (fileSize offset : Int) (buffer : Bytes)
    (upTo : Int) : Prop where
  count : reading.count = min (upTo - offset).toNat (fileSize - offset).toNat
  length : reading.buffer.length = buffer.length
  behind : reading.buffer.drop reading.count = buffer.drop reading.count

/-- A part that starts with as much as the file has takes the filling further. -/
theorem Reading.Within.fill {reading : Reading} {fileSize offset low high : Int}
    (within : reading.Within fileSize offset buffer low) (first : offset ≤ low)
    (proper : low ≤ high) (last : high ≤ offset + buffer.length) {front : Bytes} {length : Nat}
    (reaches : front.length = min (high - low).toNat (fileSize - low).toNat)
    (short : front.length ≤ length) (fits : low + length ≤ high) (newest : Int) :
    (reading.fill (low - offset).toNat
      (front ++ (reading.buffer.slice (low - offset).toNat length).drop front.length)
      front.length newest).Within fileSize offset buffer high := by
  have amount := within.count
  have size := within.length
  have laid := Bytes.splice_append_slice short
    (by omega : (low - offset).toNat + length ≤ reading.buffer.length)
  have start : (reading.buffer.take (low - offset).toNat).length = (low - offset).toNat := by
    rw [List.length_take]
    omega
  constructor
  case count =>
    change reading.count + front.length = _
    omega
  case length =>
    change (reading.buffer.splice _ _).length = _
    rw [laid, List.length_append, List.length_append, start, List.length_drop]
    omega
  case behind =>
    change (reading.buffer.splice _ _).drop (reading.count + front.length) =
      buffer.drop (reading.count + front.length)
    have behind := congrArg (List.drop front.length) within.behind
    rw [List.drop_drop, List.drop_drop] at behind
    rw [laid, ← behind]
    by_cases inside : low < fileSize
    · have here : reading.count = (low - offset).toNat := by omega
      rw [here]
      exact List.drop_left' (by rw [List.length_append, start])
    · have nothing : front = [] := List.length_eq_zero_iff.mp (by omega)
      rw [nothing, List.append_nil, List.length_nil, Nat.add_zero, Nat.add_zero,
        List.take_append_drop]

section

variable {demand : Demand} {reading later : Reading} {index : Int}
  {result : Except ReadError Unit}

/-- A read goes over the end of the file in a section, and a chunk has bytes from there on. -/
def Demand.OverrunsIn (demand : Demand) (chunks : List Chunk) (length : Nat) (index : Int) : Prop :=
  max (demand.low index) demand.fileSize < demand.high length index ∧
    Chunk.Occupied chunks (max (demand.low index) demand.fileSize) ((index + 1) * Section.length)

theorem Step.count_le (step : Step demand reading index result later) :
    reading.count ≤ later.count := by
  cases step with
  | skip past => exact Nat.le_refl _
  | zeros meets missing reaches => exact Nat.le_add_right _ _
  | part meets found read => exact Nat.le_add_right _ _
  | failure meets found read => exact Nat.le_add_right _ _

theorem count_le_readParts (demand : Demand) (indexes : List Int) (reading : Reading) :
    reading.count ≤ (readParts demand indexes reading).2.count := by
  induction indexes generalizing reading with
  | nil => exact Nat.le_refl _
  | cons index rest ih =>
      obtain ⟨result, later, step, read⟩ := readParts_cons demand index rest reading
      rw [read]
      cases result with
      | error problem => exact step.count_le
      | ok => exact Nat.le_trans step.count_le (ih later)

theorem Sound.not_occupied {file : SectionedFile} (sound : file.Sound chunks) (first : 0 ≤ index)
    (border : (index + 1) * Section.length ≤ maxPosition) (missing : file.find? index = none)
    {start : Int} (low : index * Section.length ≤ start) :
    ¬Chunk.Occupied chunks start ((index + 1) * Section.length) := by
  rintro ⟨chunk, present, meets⟩
  have none :=
    sound.missing first border missing (by omega : _ ≤ max chunk.offset start) (by omega)
  have covers := Chunk.winner?_eq_none_iff.mp none chunk present
  rw [Chunk.covers_iff] at covers
  omega

theorem Reading.buffer_part {it : Section} {count : Nat} {newest : Int}
    (read : (reading.part demand index it).1.result = .ok (count, newest)) :
    ∃ front : Bytes, front.length = count ∧ (reading.part demand index it).1.buffer =
      front ++ (reading.buffer.slice (demand.low index - demand.offset).toNat
        (demand.high reading.buffer.length index - demand.low index).toNat).drop front.length :=
  ChunkReader.buffer_read read

/-- The part of a read in a section gives as much as the file has there, and more if the read
overruns the end in it. -/
theorem Reading.part_beyond (fits : demand.Fits reading.buffer.length) (first : 0 ≤ index)
    (border : (index + 1) * Section.length ≤ maxPosition) (sound : reading.file.Sound chunks)
    (meets : demand.low index < demand.high reading.buffer.length index) {it : Section}
    (found : reading.file.find? index = some it) {count : Nat} {newest : Int}
    (read : (reading.part demand index it).1.result = .ok (count, newest)) :
    count ≤ (demand.high reading.buffer.length index - demand.low index).toNat ∧
      min (demand.high reading.buffer.length index) demand.fileSize ≤ demand.low index + count ∧
      (max (demand.low index) demand.fileSize < demand.low index + count ↔
        demand.OverrunsIn chunks reading.buffer.length index) := by
  have inside := fits.bounds first border
  have right := sound index first
  have number := index_of_find? found
  rw [sectionAt_of_find? found] at right
  have start : it.start = index * Section.length := by rw [Section.start, number]
  have stop : it.stop = (index + 1) * Section.length := by
    rw [← number] at first border ⊢
    exact Section.stop_eq_border first border
  have length : (reading.buffer.slice (demand.low index - demand.offset).toNat
      (demand.high reading.buffer.length index - demand.low index).toNat).length =
        (demand.high reading.buffer.length index - demand.low index).toNat := by
    rw [Bytes.length_slice]
    omega
  have high : demand.low index +
      ((demand.high reading.buffer.length index - demand.low index).toNat : Int) =
        demand.high reading.buffer.length index := by omega
  have some : 0 ≤ demand.fileSize := Int.le_of_lt (Int.lt_of_le_of_lt fits.first fits.starts)
  have beyond := right.read_beyond (by rw [number]; exact first) some fits.size
    (by rw [start]; exact inside.2.1) (by rw [length, high, stop]; exact inside.2.2.2) read
  rw [length, stop, high] at beyond
  exact beyond

/-- A step takes a read that stayed within the file to the next border, or over the end of the
file. -/
theorem Step.within (step : Step demand reading index (.ok ()) later)
    (fits : demand.Fits buffer.length) (first : 0 ≤ index)
    (border : (index + 1) * Section.length ≤ maxPosition)
    (ahead : demand.offset < (index + 1) * Section.length) (sound : reading.file.Sound chunks)
    (within : reading.Within demand.fileSize demand.offset buffer
      (demand.border buffer.length index)) :
    (demand.OverrunsIn chunks buffer.length index →
      (demand.fileSize - demand.offset).toNat < later.count) ∧
      (¬demand.OverrunsIn chunks buffer.length index →
        later.Within demand.fileSize demand.offset buffer
          (demand.border buffer.length (index + 1))) := by
  have size := within.length
  rw [← size] at fits within ⊢
  have inside := fits.bounds first border
  cases step with
  | skip past =>
      rw [fits.border_of_past first border ahead past]
      refine ⟨fun overruns => ?_, fun _ => within⟩
      have meets := overruns.1
      omega
  | @zeros meets missing count reaches =>
      obtain ⟨from_here, further⟩ := fits.borders_of_meets first border meets
      rw [from_here] at within
      rw [further]
      refine ⟨fun overruns => ?_, fun _ => ?_⟩
      · exact absurd overruns.2 (sound.not_occupied first border missing (by omega))
      · have filled := within.fill inside.1 (Int.le_of_lt meets) (by omega)
          (by rw [Bytes.length_zeros]; omega : (Bytes.zeros count).length = _) (Nat.le_refl _)
          (by rw [Bytes.length_zeros]; omega) 0
        rw [Bytes.drop_slice, List.append_nil, Bytes.length_zeros] at filled
        exact filled
  | @part meets it found count newest read =>
      obtain ⟨from_here, further⟩ := fits.borders_of_meets first border meets
      obtain ⟨short, least, beyond⟩ :=
        Reading.part_beyond fits first border sound meets found read
      rw [from_here] at within
      rw [further]
      have reached := within.count
      refine ⟨fun overruns => ?_, fun stays => ?_⟩
      · have further_on := beyond.mpr overruns
        change _ < reading.count + count
        omega
      · have under := mt beyond.mp stays
        have taken : (reading.after (reading.part demand index it)).Within demand.fileSize
            demand.offset buffer (demand.low index) :=
          ⟨within.count, within.length, within.behind⟩
        obtain ⟨front, length, filling⟩ := Reading.buffer_part read
        have filled := taken.fill inside.1 (Int.le_of_lt meets) (by omega)
          (by omega : front.length = _) (by omega)
          (by omega : demand.low index +
            ((demand.high reading.buffer.length index - demand.low index).toNat : Int) ≤ _) newest
        rw [filling, ← length]
        exact filled

/-- What one of consecutive sections does is done by the first one or by one of the others. -/
theorem exists_consecutive_succ {does : Int → Prop} (steps : Nat) (index : Int) :
    (∃ step : Nat, step < steps + 1 ∧ does (index + step)) ↔
      does index ∨ ∃ step : Nat, step < steps ∧ does (index + 1 + step) := by
  have next (step : Nat) : index + (step + 1 : Nat) = index + 1 + step := by omega
  constructor
  · rintro ⟨step, before, done⟩
    cases step with
    | zero =>
        rw [Int.natCast_zero, Int.add_zero] at done
        exact .inl done
    | succ step =>
        rw [next] at done
        exact .inr ⟨step, Nat.lt_of_succ_lt_succ before, done⟩
  · rintro (done | ⟨step, before, done⟩)
    · refine ⟨0, Nat.succ_pos steps, ?_⟩
      rw [Int.natCast_zero, Int.add_zero]
      exact done
    · rw [← next] at done
      exact ⟨step + 1, Nat.succ_lt_succ before, done⟩

/-- Reading the parts in consecutive sections stays within the file up to the last border, unless
it overruns the end in one of them. -/
theorem readParts_within (fits : demand.Fits buffer.length) (steps : Nat) {index : Int}
    (first : 0 ≤ index) (last : (index + steps) * Section.length ≤ maxPosition)
    (ahead : demand.offset < (index + 1) * Section.length) {reading : Reading}
    (sound : reading.file.Sound chunks)
    (within : reading.Within demand.fileSize demand.offset buffer
      (demand.border buffer.length index)) :
    let outcome :=
      readParts demand ((List.range steps).map fun (step : Nat) => index + step) reading
    outcome.1 = .ok () →
      ((∃ step : Nat, step < steps ∧ demand.OverrunsIn chunks buffer.length (index + step)) →
        (demand.fileSize - demand.offset).toNat < outcome.2.count) ∧
      ((¬∃ step : Nat, step < steps ∧ demand.OverrunsIn chunks buffer.length (index + step)) →
        outcome.2.Within demand.fileSize demand.offset buffer
          (demand.border buffer.length (index + steps))) := by
  induction steps generalizing index reading with
  | zero =>
      intro outcome _
      refine ⟨fun overruns => ?_, fun _ => ?_⟩
      · obtain ⟨step, before, _⟩ := overruns
        exact absurd before (Nat.not_lt_zero step)
      · rw [Int.natCast_zero, Int.add_zero]
        exact within
  | succ steps ih =>
      obtain ⟨result, later, step, read⟩ := readParts_cons demand index
        ((List.range steps).map fun (step : Nat) => index + 1 + step) reading
      rw [consecutive_succ, read]
      intro outcome ok
      cases result with
      | error problem => cases ok
      | ok =>
          have further : demand.offset < (index + 1 + 1) * Section.length := by
            have positive := Section.length_pos
            rw [Section.border_succ (index + 1)]
            omega
          have next : index + (steps + 1 : Nat) = index + 1 + steps := by omega
          obtain ⟨overrun, stay⟩ :=
            step.within fits first (border_le_last last) ahead sound within
          rw [exists_consecutive_succ, next]
          by_cases here : demand.OverrunsIn chunks buffer.length index
          · have exceeds := Nat.lt_of_lt_of_le (overrun here) (count_le_readParts demand
              ((List.range steps).map fun (step : Nat) => index + 1 + step) later)
            exact ⟨fun _ => exceeds, fun none => absurd (.inl here) none⟩
          · rw [or_iff_right here]
            exact ih (by omega) (next ▸ last) further (step.sound sound) (stay here) ok

/-- A read goes over the end of the file, and chunks have bytes behind the end in the sections that
the read touches. -/
structure Demand.Overruns (demand : Demand) (chunks : List Chunk) (length : Nat) : Prop where
  starts : demand.offset < demand.fileSize
  goes_over : demand.fileSize < demand.offset + length
  occupied : Chunk.Occupied chunks demand.fileSize
    ((Section.indexOf (demand.offset + length - 1) + 1) * Section.length)

/-- A read that starts within the file overruns the end if it does so in one of the sections that
follow on from the one that it starts in. -/
theorem Demand.Fits.overruns_iff {length : Nat} (fits : demand.Fits length) (chunks : List Chunk)
    {index : Int} {steps : Nat} (nonneg : 0 ≤ index) (low : index * Section.length ≤ demand.offset)
    (high : demand.offset + length ≤ (index + steps) * Section.length)
    (last : (index + steps) * Section.length ≤ maxPosition) :
    (∃ step : Nat, step < steps ∧ demand.OverrunsIn chunks length (index + step)) ↔
      demand.Overruns chunks length := by
  have first := fits.first
  have starts := fits.starts
  have border (number : Int) (inside : number < index + steps) :
      (number + 1) * Section.length ≤ maxPosition := by
    have order : (number + 1) * Section.length ≤ (index + steps) * Section.length :=
      Int.mul_le_mul_of_nonneg_right inside (by decide)
    omega
  constructor
  · rintro ⟨step, inside, meets, chunk, present, behind⟩
    rw [fits.high_eq (by omega) (border (index + step) (by omega))] at meets
    refine ⟨starts, by omega, chunk, present, ?_⟩
    have touches : (index + step + 1) * Section.length ≤
        (Section.indexOf (demand.offset + length - 1) + 1) * Section.length := by
      rw [Section.indexOf_of_nonneg (by omega), Section.length]
      unfold Demand.low Section.length at meets
      omega
    omega
  · rintro ⟨_, goes_over, chunk, present, behind⟩
    obtain ⟨number, steps_to, from_here, up_to, touches⟩ : ∃ number : Int, index ≤ number ∧
        number * Section.length ≤ max chunk.offset demand.fileSize ∧
        max chunk.offset demand.fileSize < (number + 1) * Section.length ∧
        number * Section.length < demand.offset + length := by
      refine ⟨max chunk.offset demand.fileSize / Section.length, ?_⟩
      rw [Section.indexOf_of_nonneg (by omega), Section.length] at behind
      unfold Section.length at *
      omega
    have inside : number < index + steps := by
      unfold Section.length at *
      omega
    have place : index + ((number - index).toNat : Int) = number := by omega
    refine ⟨(number - index).toNat, by omega, ?_⟩
    rw [place]
    have meets : max (demand.low number) demand.fileSize < demand.high length number := by
      rw [fits.high_eq (by omega) (border number inside)]
      unfold Demand.low
      omega
    refine ⟨meets, chunk, present, ?_⟩
    unfold Demand.low
    omega

/-- A read that starts within the file takes in as much as the file has, or more if it overruns the
end. -/
theorem readParts_touched_within (fits : demand.Fits buffer.length) (sound : file.Sound chunks)
    (session : ReadSession) :
    let outcome := readParts demand
      (touched demand.offset (demand.offset + buffer.length)) { file, session, buffer }
    outcome.1 = .ok () →
      (demand.Overruns chunks buffer.length →
        (demand.fileSize - demand.offset).toNat < outcome.2.count) ∧
      (¬demand.Overruns chunks buffer.length →
        outcome.2.Within demand.fileSize demand.offset buffer
          (demand.offset + buffer.length)) := by
  have forth : demand.offset ≤ demand.offset + buffer.length := by omega
  obtain ⟨index, steps, indexes, nonneg, low, ahead, high, last⟩ :=
    touched_spec fits.first forth fits.stop
  have untouched : Reading.Within { file, session, buffer } demand.fileSize demand.offset buffer
      (demand.border buffer.length index) := by
    rw [Demand.border_of_le_offset buffer.length low]
    exact ⟨by simp, rfl, rfl⟩
  have parts := readParts_within fits steps nonneg last ahead sound untouched
  rw [fits.overruns_iff chunks nonneg low high last, Demand.border_of_stop_le high,
    ← indexes] at parts
  exact parts

/-- A read that ends before the last section, and is not stopped, gives no more bytes than there are
up to the length of the file, unless it overruns the end. Then it gives as many as the file has and
the buffer takes, and behind them the buffer stays as it was. -/
theorem readAt_within_length_iff (assembled : Assembled chunks file) (first : 0 ≤ demand.offset)
    (last : demand.offset + buffer.length ≤ Section.lastStart)
    (addressable : demand.fileSize ≤ maxPosition) {cache : TieredCache} {count : Nat}
    {newest : Int}
    (read : (file.readAt demand cache buffer).1.result = .ok (count, newest)) :
    (count ≤ max 0 (demand.fileSize - demand.offset) ↔
      ¬demand.Overruns chunks buffer.length) ∧
      (¬demand.Overruns chunks buffer.length →
        count = min buffer.length (demand.fileSize - demand.offset).toNat ∧
          (file.readAt demand cache buffer).1.buffer.drop count = buffer.drop count) := by
  have whole : (file.readAt demand cache buffer).1 = (file.read demand { cache } buffer).1 := rfl
  rw [whole] at read ⊢
  unfold SectionedFile.read at read ⊢
  split at read
  · rename_i beyond
    rw [if_pos beyond]
    cases read
    have stays : ¬demand.Overruns chunks buffer.length := fun overruns =>
      absurd overruns.starts (by omega)
    exact ⟨iff_of_true (by omega) stays, fun _ => ⟨by omega, rfl⟩⟩
  · rename_i starts
    rw [if_neg starts]
    have fits : demand.Fits buffer.length :=
      ⟨first, Int.lt_of_not_ge starts, addressable, last⟩
    have parts := readParts_touched_within fits assembled.sound { cache }
    rw [fits.wrapped_stop] at read ⊢
    revert parts read
    dsimp only
    generalize readParts demand _ _ = run
    intro read parts
    obtain ⟨result, reading⟩ := run
    cases result with
    | error problem => cases read
    | ok =>
        cases read
        obtain ⟨overruns, stays⟩ := parts rfl
        dsimp only at overruns stays ⊢
        have bounded (none : ¬demand.Overruns chunks buffer.length) :
            reading.count = min buffer.length (demand.fileSize - demand.offset).toNat := by
          have count := (stays none).count
          omega
        refine ⟨⟨fun inside beyond => ?_, fun none => ?_⟩, fun none => ?_⟩
        · have more := overruns beyond
          omega
        · have count := bounded none
          omega
        · exact ⟨bounded none, (stays none).behind⟩

end

/-- A chunk behind the end does no harm in a section that the read does not touch. -/
theorem read_before_far_chunk_stays_within :
    let near : Chunk := { fileId := "1,a", offset := 0, size := 4, modified := 5 }
    let far : Chunk := { fileId := "1,b", offset := 67108864, size := 3, modified := 6 }
    let demand : Demand :=
      { source := fun file => .ok (if file = "1,a" then [1, 2, 3, 4] else [9, 9, 9])
        fileSize := 6
        offset := 0 }
    let outcome := ((add (add {} near) far).readAt demand (.inMemory 100) (.replicate 10 255)).1
    outcome.result = .ok (6, 5) ∧ outcome.buffer.drop 6 = .replicate 4 255 := by
  intro near far demand outcome
  have read : outcome.result = .ok (6, 5) := by decide +kernel
  have stays : ¬demand.Overruns ([] ++ [near] ++ [far]) 10 := fun overruns =>
    absurd overruns.occupied (by decide)
  have assembled := (Assembled.empty.add (by decide : -(2 ^ (63 : Nat)) ≤ near.offset)).add
    (by decide : -(2 ^ (63 : Nat)) ≤ far.offset)
  have last : demand.offset + (10 : Nat) ≤ Section.lastStart := by decide
  have right := readAt_within_length_iff assembled (Int.le_refl 0) last (by decide) read
  exact ⟨read, (right.2 stays).2⟩

/-- A file that ends two bytes behind the start of a read, and in the section before that of its
second chunk. The first section stops at the end, but the second one gives its bytes all the same,
behind the gap that the first one left. So the count is too large, and yet bytes behind it are
written. -/
theorem read_of_shortened_file_overruns :
    let near : Chunk := { fileId := "1,a", offset := 0, size := 1, modified := 1 }
    let far : Chunk := { fileId := "1,b", offset := 67108864, size := 10, modified := 2 }
    let demand : Demand :=
      { source := fun file => .ok (if file = "1,a" then [1] else [1, 2, 3, 4, 5, 6, 7, 8, 9, 10])
        fileSize := 67108861
        offset := 67108859 }
    let buffer : Bytes := .replicate 10 255
    let outcome := ((add (add {} near) far).readAt demand (.inMemory 100) buffer).1
    outcome.result = .ok (7, 2) ∧ ¬(7 : Int) ≤ max 0 (demand.fileSize - demand.offset) ∧
      outcome.buffer.drop 7 = [3, 4, 5] ∧ buffer.drop 7 = [255, 255, 255] := by
  decide +kernel

end SectionedFile

end Haystack
