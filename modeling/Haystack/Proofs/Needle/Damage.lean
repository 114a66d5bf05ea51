import Haystack.Proofs.Checksum.Bursts
import Haystack.Proofs.Needle.Grammar
import Haystack.Proofs.Needle.RoundTrip

/-!
# Damaged data

A record whose data was changed is still laid out as a record: the header, the length of the data
and the fields behind it are the same, so that it is read up to its checksum. A change within four
bytes in a row is noticed there, and the error tells the checksum of the data that was written.
-/

namespace Haystack

namespace Bytes

/-- Two byte strings differ only from one position up to, not including, another. -/
def DiffersWithin (low high : Nat) (bytes altered : Bytes) : Prop :=
  ∀ index, altered[index]? ≠ bytes[index]? → low ≤ index ∧ index < high

variable {bytes altered : Bytes} {low high : Nat}

theorem differsWithin_iff : DiffersWithin low high bytes altered ↔
    ∀ index < max bytes.length altered.length,
      altered[index]? ≠ bytes[index]? → low ≤ index ∧ index < high := by
  constructor
  · intro differs index _ apart
    exact differs index apart
  · intro differs index apart
    by_cases inside : index < max bytes.length altered.length
    · exact differs index inside apart
    · rw [List.getElem?_eq_none (by omega), List.getElem?_eq_none (by omega)] at apart
      exact absurd rfl apart

instance : Decidable (DiffersWithin low high bytes altered) :=
  decidable_of_iff _ differsWithin_iff.symm

/-- Strings that differ only before their end are one string with other bytes in one place. -/
theorem DiffersWithin.exists_middle (differs : DiffersWithin low high bytes altered)
    (order : low ≤ high) (inside : high < bytes.length) :
    ∃ middle : Bytes, middle.length = high - low ∧
      altered = bytes.take low ++ middle ++ bytes.drop high := by
  have same (index : Nat) (outside : index < low ∨ high ≤ index) :
      altered[index]? = bytes[index]? := by
    by_contra apart
    have := differs index apart
    omega
  have front : altered.take low = bytes.take low := by
    refine List.ext_getElem? fun index => ?_
    rw [List.getElem?_take, List.getElem?_take]
    split
    · exact same index (.inl ‹_›)
    · rfl
  have back : altered.drop high = bytes.drop high := by
    refine List.ext_getElem? fun index => ?_
    rw [List.getElem?_drop, List.getElem?_drop]
    exact same (high + index) (.inr (by omega))
  have length : altered.length = bytes.length := by
    have := congrArg List.length back
    rw [List.length_drop, List.length_drop] at this
    omega
  refine ⟨(altered.take high).drop low, ?_, ?_⟩
  · rw [List.length_drop, List.length_take]
    omega
  · have cut : altered.take low = (altered.take high).take low := by
      rw [List.take_take, Nat.min_eq_left order]
    rw [← front, ← back, cut, List.take_append_drop, List.take_append_drop]

theorem DiffersWithin.and {first last : Nat} (differs : DiffersWithin low high bytes altered)
    (again : DiffersWithin first last bytes altered) :
    DiffersWithin (max low first) (min high last) bytes altered := by
  intro index apart
  have := differs index apart
  have := again index apart
  omega

theorem DiffersWithin.lt (differs : DiffersWithin low high bytes altered)
    (changed : altered ≠ bytes) : low < high := by
  by_contra empty
  refine changed (List.ext_getElem? fun index => ?_)
  by_contra apart
  have := differs index apart
  omega

/-- If only data in the middle of a string was changed, within some bytes in a row, then the data is
what it was but for a window of no more bytes. -/
theorem exists_window {front data back : Bytes} {place count : Nat} (ends : back ≠ [])
    (inside : DiffersWithin front.length (front.length + data.length) (front ++ data ++ back)
      altered)
    (burst : DiffersWithin place (place + count) (front ++ data ++ back) altered)
    (changed : altered ≠ front ++ data ++ back) :
    ∃ before window behind other : Bytes, data = before ++ window ++ behind ∧
      other.length = window.length ∧ window.length ≤ count ∧ other ≠ window ∧
      altered = front ++ (before ++ other ++ behind) ++ back := by
  have both := inside.and burst
  have proper := both.lt changed
  have room := List.length_pos_iff.mpr ends
  generalize start : max front.length place = low at both proper
  generalize stop : min (front.length + data.length) (place + count) = high at both proper
  obtain ⟨other, length, whole⟩ := both.exists_middle (by omega)
    (by simp only [List.length_append]; omega)
  have first : low = front.length + (low - front.length) := by omega
  have last : high = front.length + (high - front.length) := by omega
  have head : (front ++ data ++ back).take low = front ++ data.take (low - front.length) := by
    rw [List.append_assoc, first, List.take_length_add_append,
      List.take_append_of_le_length (by omega), ← first]
  have rest : (front ++ data ++ back).drop high = data.drop (high - front.length) ++ back := by
    rw [List.append_assoc, last, List.drop_length_add_append,
      List.drop_append_of_le_length (by omega), ← last]
  rw [head, rest] at whole
  have parts : data = data.take (low - front.length) ++
      (data.drop (low - front.length)).take (high - low) ++ data.drop (high - front.length) := by
    have onward : high - front.length = low - front.length + (high - low) := by omega
    rw [onward, List.append_assoc, ← List.drop_drop, List.take_append_drop, List.take_append_drop]
  refine ⟨_, _, _, other, parts, ?_, ?_, ?_, ?_⟩
  · rw [length, List.length_take, List.length_drop]
    omega
  · rw [List.length_take]
    omega
  · rintro rfl
    refine changed ?_
    rw [whole]
    conv_rhs => rw [parts]
    simp only [List.append_assoc]
  · rw [whole]
    simp only [List.append_assoc]

end Bytes

namespace Needle

/-- Where the data begins in a record of a version. -/
def dataStart (version : Version) : Nat :=
  Record.headerLength + if version.hasFields then 4 else 0

/-- What a body has before its data. -/
def beforeData (needle : Needle) (version : Version) : Bytes :=
  if version.hasFields then Bytes.ofNat 4 needle.data.length else []

/-- What a body has behind its data. -/
def behindData (needle : Needle) (version : Version) : Bytes :=
  if version.hasFields then needle.flags.bits :: needle.fieldBytes else []

/-- What a record has before its data. -/
def recordFront (needle : Needle) (version : Version) : Bytes :=
  (needle.sized version).headerBytes ++ needle.trimmed.beforeData version

/-- What a record has behind its data. -/
def recordBack (needle : Needle) (version : Version) : Bytes :=
  needle.trimmed.behindData version ++ ((needle.sized version).tailBytes version ++
    Bytes.zeros (Record.paddingLength version (needle.trimmed.body version).length))

variable {needle : Needle} {version : Version} {data : Bytes}

theorem body_trimmed (filled : needle.data ≠ []) (version : Version) :
    needle.trimmed.body version =
      needle.trimmed.beforeData version ++ needle.data ++ needle.trimmed.behindData version := by
  have data : needle.trimmed.data = needle.data := rfl
  have some : needle.data.isEmpty = false := by simpa using filled
  unfold body beforeData behindData
  rw [data, some]
  cases version.hasFields with
  | false => simp
  | true => simp [counted]

theorem record_eq_data (filled : needle.data ≠ []) (version : Version) :
    needle.record version =
      needle.recordFront version ++ needle.data ++ needle.recordBack version := by
  rw [record, recordFront, recordBack, body_trimmed filled]
  simp only [List.append_assoc]

theorem body_with_data (filled : data ≠ []) (like : data.length = needle.data.length)
    (version : Version) :
    { needle with data }.trimmed.body version =
      needle.trimmed.beforeData version ++ data ++ needle.trimmed.behindData version := by
  have before : { needle with data }.trimmed.beforeData version =
      needle.trimmed.beforeData version := by
    unfold beforeData trimmed
    rw [like]
  have body : { needle with data }.trimmed.body version = _ := body_trimmed filled version
  rw [body, before]
  rfl

theorem length_recordFront (needle : Needle) (version : Version) :
    (needle.recordFront version).length = dataStart version := by
  unfold recordFront beforeData dataStart
  rw [List.length_append, length_headerBytes]
  split
  · rw [Bytes.length_ofNat]
  · rfl

/-- The tail that is written tells the checksum of the needle. -/
theorem exists_tailOf_tailBytes (needle : Needle) (version : Version) (rest : Bytes) :
    ∃ stamp, TailOf version (needle.tailBytes version ++ rest) needle.checksum.value stamp := by
  have four : needle.checksum.toBytes.length = 4 := Bytes.length_ofNat 4 _
  have bound : needle.checksum.value.toNat < 256 ^ 4 := needle.checksum.value.toNat_lt
  have sum : UInt32.ofNat (Bytes.toNat needle.checksum.toBytes) = needle.checksum.value := by
    rw [Checksum.toBytes, Bytes.toNat_ofNat, Nat.mod_eq_of_lt bound, UInt32.ofNat_toNat]
  rw [← sum]
  cases version with
  | v1 =>
      rw [tailBytes, List.append_nil]
      exact ⟨_, .plain (by decide) four⟩
  | v2 =>
      rw [tailBytes, List.append_nil]
      exact ⟨_, .plain (by decide) four⟩
  | v3 =>
      rw [tailBytes, List.append_assoc]
      exact ⟨_, .stamped four (Bytes.length_ofNat 8 _)⟩

theorem headerOf_headerBytes (needle : Needle) :
    HeaderOf needle.headerBytes
      { cookie := needle.cookie, id := needle.id, size := needle.size } := by
  have read := readHeader_headerBytes needle []
  rw [List.append_nil] at read
  exact headerOf_of_readHeader (length_headerBytes needle) read

theorem bodyOf_body (fits : needle.trimmed.Fits) (version : Version) (size : Size) :
    BodyOf { cookie := needle.cookie, id := needle.id, size } version
      (needle.trimmed.body version)
      (.ok { needle.stored version with size, checksum := {}, appendedAt := 0 }) := by
  obtain ⟨result, derived⟩ := exists_bodyOf
    { cookie := needle.cookie, id := needle.id, size } version (needle.trimmed.body version)
  have same := derived.result
  rw [readBody_trimmed fits] at same
  rwa [← same] at derived

/-- A record with other data of the same length in it is read up to its checksum. -/
theorem decode_of_other_data (fits : needle.trimmed.Fits)
    (short : (needle.trimmed.body version).length ≤ maxBodyLength) (filled : needle.data ≠ [])
    (like : data.length = needle.data.length)
    (noticed : (Checksum.ofBytes data).value ≠ (Checksum.ofBytes needle.data).value) :
    decode (needle.recordFront version ++ data ++ needle.recordBack version) version =
      .error (.checksumMismatch (Checksum.ofBytes needle.data).value
        (Checksum.ofBytes data).value) := by
  have other_filled : data ≠ [] := by
    rw [← List.length_pos_iff, like]
    exact List.length_pos_iff.mpr filled
  have body := body_with_data other_filled like version
  have length : ({ needle with data }.trimmed.body version).length =
      (needle.trimmed.body version).length := by
    rw [body, body_trimmed filled]
    simp only [List.length_append, like]
  have size : (needle.sized version).size.value.toInt =
      ({ needle with data }.trimmed.body version).length := by
    rw [length]
    refine Size.toInt_ofLength ?_
    unfold maxBodyLength at short
    omega
  have other_fits : { needle with data }.trimmed.Fits :=
    ⟨fits.name, fits.mime, fits.pairs, (Nat.le_of_eq like).trans fits.data⟩
  have announced := headerOf_headerBytes (needle.sized version)
  have reads := bodyOf_body other_fits version (needle.sized version).size
  obtain ⟨stamp, behind⟩ := exists_tailOf_tailBytes (needle.sized version) version
    (Bytes.zeros (Record.paddingLength version (needle.trimmed.body version).length))
  have parts : needle.recordFront version ++ data ++ needle.recordBack version =
      (needle.sized version).headerBytes ++ ({ needle with data }.trimmed.body version ++
        ((needle.sized version).tailBytes version ++
          Bytes.zeros (Record.paddingLength version (needle.trimmed.body version).length))) := by
    rw [recordFront, recordBack, body]
    simp only [List.append_assoc]
  rw [parts]
  exact RecordOf.result
    (.corrupt announced size behind reads other_filled noticed.symm)

/-- If bytes of the data within four in a row are changed in an encoded record, decoding it fails
at the checksum, and the error tells the checksum that was written and that of the changed data. -/
theorem changed_data_is_noticed {done : Sealed} {altered : Bytes} {place : Nat}
    (encoded : needle.encode version = .ok done)
    (inside : Bytes.DiffersWithin (dataStart version) (dataStart version + needle.data.length)
      done.bytes altered)
    (burst : Bytes.DiffersWithin place (place + 4) done.bytes altered)
    (changed : altered ≠ done.bytes) :
    ∃ computed, computed ≠ done.needle.checksum.value ∧
      computed = (Checksum.ofBytes (altered.slice (dataStart version) needle.data.length)).value ∧
      decode altered version = .error (.checksumMismatch done.needle.checksum.value computed) := by
  obtain ⟨fits, short, rfl⟩ := encode_eq_ok_iff.mp encoded
  have filled : needle.data ≠ [] := by
    have := inside.lt changed
    exact List.length_pos_iff.mp (by omega)
  have ends : needle.recordBack version ≠ [] := by
    have room := Record.paddingLength_pos version (needle.trimmed.body version).length
    rw [← List.length_pos_iff, recordBack, List.length_append, List.length_append,
      Bytes.length_zeros]
    omega
  dsimp only at inside burst changed ⊢
  rw [record_eq_data filled version] at inside burst changed
  rw [← length_recordFront needle version] at inside ⊢
  obtain ⟨before, window, behind, other, parts, like, within, apart, rfl⟩ :=
    Bytes.exists_window ends inside burst changed
  have length : (before ++ other ++ behind).length = needle.data.length := by
    rw [parts]
    simp only [List.length_append, like]
  have noticed := Checksum.ofBytes_ne_of_burst like within apart before behind
  rw [← parts] at noticed
  have place : (needle.recordFront version ++ (before ++ other ++ behind) ++
      needle.recordBack version).slice (needle.recordFront version).length needle.data.length =
        before ++ other ++ behind := by
    rw [← length, List.append_assoc (needle.recordFront version)]
    exact (Bytes.slice_append_add _ _ 0 _).trans (Bytes.slice_append _ _)
  rw [place]
  exact ⟨_, noticed, rfl, decode_of_other_data fits short filled length noticed⟩

/-- Four bytes in a row are cleared in the data of a needle with a time stamp. -/
theorem cleared_word_is_noticed :
    let needle : Needle := { cookie := 7, id := 9, data := [1, 2, 3, 4, 5, 6], appendedAt := 11 }
    let altered := (needle.record .v3).splice 21 [0, 0, 0, 0]
    needle.encode .v3 = .ok { needle := needle.sized .v3, bytes := needle.record .v3 } ∧
      Bytes.DiffersWithin 20 26 (needle.record .v3) altered ∧
      Bytes.DiffersWithin 21 25 (needle.record .v3) altered ∧ altered ≠ needle.record .v3 ∧
      ∃ computed, decode altered .v3 =
        .error (.checksumMismatch (Checksum.ofBytes [1, 2, 3, 4, 5, 6]).value computed) := by
  intro needle altered
  have encoded : needle.encode .v3 =
      .ok { needle := needle.sized .v3, bytes := needle.record .v3 } := by
    apply encode_eq_ok_iff.mpr
    exact ⟨⟨by decide, by decide, by decide, by decide⟩, by decide, rfl⟩
  have inside : Bytes.DiffersWithin 20 26 (needle.record .v3) altered := by decide +kernel
  have burst : Bytes.DiffersWithin 21 25 (needle.record .v3) altered := by decide +kernel
  have changed : altered ≠ needle.record .v3 := by decide +kernel
  obtain ⟨computed, _, _, decoded⟩ := changed_data_is_noticed encoded inside burst changed
  exact ⟨encoded, inside, burst, changed, computed, decoded⟩

end Needle

end Haystack
