import Haystack.File.Records
import Haystack.Index.Log
import Haystack.Proofs.Needle.RoundTrip

/-!
# Appending to files

Whatever is written at the end of a file goes behind its contents, so that what the file held before
is still there. If the file can be cut and tells its length, an append that fails leaves it as it
was, whatever part of the bytes had been stored. A record is read back from wherever it stands.
-/

namespace Haystack.File

/-- The file does nothing wrong. -/
def Reliable (file : File) : Prop :=
  file.faults = {}

def extended (file : File) (bytes : Bytes) : File :=
  { file with contents := file.contents ++ bytes }

section

variable {file : File} {needle : Needle} {version : Version}

@[simp] theorem contents_extended (file : File) (bytes : Bytes) :
    (file.extended bytes).contents = file.contents ++ bytes := rfl

@[simp] theorem faults_extended (file : File) (bytes : Bytes) :
    (file.extended bytes).faults = file.faults := rfl

@[simp] theorem extended_nil (file : File) : file.extended [] = file := by
  simp [extended]

theorem Reliable.extended (reliable : file.Reliable) (bytes : Bytes) :
    (file.extended bytes).Reliable := reliable

theorem store_at_end (file : File) (data : Bytes) :
    file.store data file.contents.length = file.extended data := by
  have longer : file.overwritten data file.contents.length = file.contents ++ data := by
    unfold overwritten
    split
    · rename_i nothing
      have empty : data = [] := by simpa using (Bool.and_eq_true_iff.mp nothing).1
      simp [empty]
    · simp [Bytes.splice, Bytes.zeros]
  rw [store, longer, File.extended]

theorem cutBack_extended (cuts : file.faults.truncate = false) (bytes : Bytes) :
    (file.extended bytes).cutBack file.contents.length = file := by
  have cut : (file.contents ++ bytes).resize file.contents.length = file.contents := by
    simp [Bytes.resize, Bytes.zeros]
  unfold cutBack truncate
  rw [faults_extended, cuts, contents_extended, cut]
  rfl

theorem cutBack_self (cuts : file.faults.truncate = false) :
    file.cutBack file.contents.length = file := by
  have cut := cutBack_extended cuts []
  rwa [extended_nil] at cut

/-- Writing at the end either fails and leaves the file as it was, or puts something behind it. -/
theorem writeOrCutBack_cases (cuts : file.faults.truncate = false) (data : Bytes) :
    (∃ problem, file.writeOrCutBack data file.contents.length = (.error problem, file)) ∨
      ∃ bytes, file.writeOrCutBack data file.contents.length = (.ok (), file.extended bytes) := by
  unfold writeOrCutBack write
  cases file.faults.write with
  | none => exact .inr ⟨data, by rw [store_at_end]⟩
  | some fault =>
      cases fault with
      | refuse =>
          simp only [cutBack_self cuts]
          exact .inl ⟨_, rfl⟩
      | tear kept =>
          simp only [store_at_end, cutBack_extended cuts]
          exact .inl ⟨_, rfl⟩
      | short =>
          simp only [store_at_end]
          exact .inr ⟨_, rfl⟩

theorem stat_of_truthful (truthful : file.faults.reportedLength = none) :
    file.stat = .error (.file .statFailed) ∨ file.stat = .ok file.contents.length := by
  unfold stat
  rw [truthful]
  cases file.faults.stat with
  | false => exact .inr rfl
  | true => exact .inl rfl

/-- Appending a record either fails and leaves the file as it was, or puts something behind it. -/
theorem appendNeedle_cases (cuts : file.faults.truncate = false)
    (truthful : file.faults.reportedLength = none) (needle : Needle) (version : Version) :
    (∃ problem, file.appendNeedle needle version = (.error problem, file)) ∨
      ∃ record bytes, file.appendNeedle needle version = (.ok record, file.extended bytes) ∧
        record.place.offset = file.contents.length := by
  unfold appendNeedle
  obtain lost | told := stat_of_truthful truthful
  · exact .inl ⟨_, by rw [lost]⟩
  · rw [told]
    dsimp only
    split
    · exact .inl ⟨_, rfl⟩
    · cases needle.encode version with
      | error problem => exact .inl ⟨problem, by rw [cutBack_self cuts]⟩
      | ok done =>
          obtain ⟨problem, failed⟩ | ⟨bytes, written⟩ := writeOrCutBack_cases cuts done.bytes
          · exact .inl ⟨problem, by simp only [failed]⟩
          · exact .inr ⟨_, bytes, by simp only [written]; exact ⟨rfl, rfl⟩⟩

theorem stat_of_reliable (reliable : file.Reliable) : file.stat = .ok file.contents.length := by
  rw [Reliable] at reliable
  simp [stat, reliable]

theorem write_at_end (reliable : file.Reliable) (data : Bytes) :
    file.write data file.contents.length = (.ok data.length, file.extended data) := by
  rw [Reliable] at reliable
  rw [write, reliable]
  dsimp only
  rw [store_at_end]

/-- A file that does nothing wrong takes every needle that can be encoded, unless it is full. -/
theorem appendNeedle_of_reliable (reliable : file.Reliable) (needle : Needle)
    (version : Version) :
    file.appendNeedle needle version =
      if maxVolumeLength ≤ file.contents.length ∧ !needle.data.isEmpty then
        (.error (.volumeFull file.contents.length maxVolumeLength), file)
      else
        match needle.encode version with
        | .error problem => (.error problem, file)
        | .ok done =>
          (.ok { place := { offset := file.contents.length, size := done.needle.size
                            length := done.bytes.length }
                 needle := done.needle }, file.extended done.bytes) := by
  have cuts : file.faults.truncate = false := by
    rw [reliable]
  unfold appendNeedle
  rw [stat_of_reliable reliable]
  dsimp only
  split
  · rfl
  · cases needle.encode version with
    | error problem => simp only [cutBack_self cuts]
    | ok done => simp only [writeOrCutBack, write_at_end reliable]

theorem appendEntry_of_reliable (reliable : file.Reliable) (entry : Entry) :
    file.appendEntry entry = (.ok (), file.extended entry.toBytes) := by
  unfold appendEntry
  simp only [stat_of_reliable reliable, write_at_end reliable]

theorem readExact_of_le {length offset : Nat}
    (inside : offset + length ≤ file.contents.length) :
    file.readExact length offset = .ok (file.contents.slice offset length) := by
  unfold readExact File.read
  exact if_neg (by rw [Bytes.length_slice]; omega)

theorem readExact_of_lt {length offset : Nat} (some : 0 < length)
    (beyond : file.contents.length < offset + length) :
    ∃ problem, file.readExact length offset = .error (.file problem) := by
  unfold readExact File.read
  exact ⟨_, if_pos (by rw [Bytes.length_slice]; omega)⟩

theorem le_of_readExact {length offset : Nat} {bytes : Bytes} (some : 0 < length)
    (read : file.readExact length offset = .ok bytes) :
    offset + length ≤ file.contents.length := by
  refine Nat.le_of_not_lt fun beyond => ?_
  obtain ⟨problem, failed⟩ := readExact_of_lt some beyond
  rw [failed] at read
  contradiction

theorem length_of_readHeader {offset : Nat} {header : Needle}
    (read : file.readHeader offset = .ok header) :
    offset + Record.headerLength ≤ file.contents.length := by
  unfold readHeader at read
  cases found : file.readExact Record.headerLength offset with
  | error problem =>
      rw [found] at read
      contradiction
  | ok bytes => exact le_of_readExact (by decide) found

theorem readExact_extended {length offset : Nat} {bytes : Bytes}
    (read : file.readExact length offset = .ok bytes) (more : Bytes) :
    (file.extended more).readExact length offset = .ok bytes := by
  unfold readExact File.read at *
  dsimp only at *
  split at read
  · contradiction
  · rename_i enough
    rw [Bytes.length_slice] at enough
    have same : (file.contents ++ more).slice offset length = file.contents.slice offset length := by
      have inside : length ≤ (file.contents.drop offset).length := by
        rw [List.length_drop]
        omega
      unfold Bytes.slice
      by_cases empty : length = 0
      · simp [empty]
      · rw [List.drop_append_of_le_length (by omega), List.take_append_of_le_length inside]
    rw [contents_extended, same, if_neg (by rw [Bytes.length_slice]; exact enough)]
    exact read

theorem readExact_of_stands {front bytes back : Bytes}
    (stands : file.contents = front ++ bytes ++ back) :
    file.readExact bytes.length front.length = .ok bytes := by
  have found : file.read bytes.length front.length = bytes := by
    rw [File.read, stands, Bytes.slice, List.append_assoc, List.drop_left, List.take_left]
  unfold readExact
  rw [found]
  exact if_neg (Nat.lt_irrefl _)

end

end Haystack.File

namespace Haystack.Needle

theorem length_record (needle : Needle) (version : Version) :
    (needle.record version).length =
      Record.length version (needle.trimmed.body version).length := by
  simp only [record, List.length_append, length_headerBytes, length_tailBytes, Bytes.length_zeros,
    Record.length, Record.restLength]
  omega

theorem decodeIndexed_of_readHeader {bytes : Bytes} {header : Needle} {size : Size}
    (read : readHeader bytes = .ok header) (same : header.size = size) (version : Version) :
    decodeIndexed bytes size version = decode bytes version := by
  unfold decodeIndexed decode
  rw [read]
  change (if header.size ≠ size then _ else _) = _
  rw [if_neg (not_not_intro same)]
  rfl

theorem decode_record {needle : Needle} {version : Version} (fits : needle.trimmed.Fits)
    (short : (needle.trimmed.body version).length ≤ maxBodyLength) :
    decode (needle.record version) version = .ok (needle.stored version) := by
  have decoded := decode_sized fits short
    (Bytes.zeros (Record.paddingLength version (needle.trimmed.body version).length))
  simp only [record, List.append_assoc]
  exact decoded

theorem decodeIndexed_record {needle : Needle} {version : Version} (fits : needle.trimmed.Fits)
    (short : (needle.trimmed.body version).length ≤ maxBodyLength) :
    decodeIndexed (needle.record version) (needle.stored version).size version =
      .ok (needle.stored version) := by
  have header := readHeader_headerBytes (needle.sized version)
    (needle.trimmed.body version ++ ((needle.sized version).tailBytes version ++
      Bytes.zeros (Record.paddingLength version (needle.trimmed.body version).length)))
  rw [← decode_record fits short]
  simp only [record, List.append_assoc]
  exact decodeIndexed_of_readHeader header (by rfl) version

/-- A record is read back from where it stands in a file. -/
theorem readNeedle_record {file : File} {needle : Needle} {version : Version}
    (fits : needle.trimmed.Fits)
    (short : (needle.trimmed.body version).length ≤ maxBodyLength) {front back : Bytes}
    (stands : file.contents = front ++ needle.record version ++ back) :
    file.readNeedle front.length (needle.stored version).size version =
      .ok (needle.stored version) := by
  have bound : (needle.trimmed.body version).length < 2 ^ 31 := by
    unfold maxBodyLength at short
    omega
  have size : (needle.stored version).size.length = (needle.trimmed.body version).length :=
    Size.length_ofLength bound
  have whole : file.readRecord front.length (needle.stored version).size version =
      .ok (needle.record version) := by
    have read := File.readExact_of_stands stands
    rw [length_record] at read
    rw [File.readRecord, size]
    exact read
  unfold File.readNeedle
  rw [whole]
  exact decodeIndexed_record fits short

end Haystack.Needle
