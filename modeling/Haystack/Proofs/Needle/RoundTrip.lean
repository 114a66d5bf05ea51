import Haystack.Proofs.Needle.Fields

/-!
# Reading back records

A record that was written is read back as what it stores of its needle, with any bytes behind it:
the fields that the version keeps and the flags name, and defaults elsewhere. Such a needle is
written as the same record again, so that copying records from volume to volume loses nothing more.
-/

namespace Haystack.Needle

/-- The flags that a record stores, none where it has no fields. -/
def storedFlags (needle : Needle) (version : Version) : Flags :=
  if version.hasFields && !needle.data.isEmpty then needle.flags else {}

/-- What a record of a version stores of a needle: the fields that the stored flags name. -/
def stored (needle : Needle) (version : Version) : Needle :=
  let flags := needle.storedFlags version
  { cookie := needle.cookie
    id := needle.id
    size := .ofLength (needle.trimmed.body version).length
    data := needle.data
    flags
    name := if flags.has .name then needle.name.take maxNameLength else []
    mime := if flags.has .mime then needle.mime else []
    pairs := if flags.has .pairs then needle.pairs else []
    lastModified :=
      if flags.has .lastModified then UInt64.ofNat (needle.lastModified.toNat % 2 ^ (40 : Nat)) else 0
    ttl := if flags.has .ttl then some (needle.ttl.getD .forever) else none
    checksum := .ofBytes needle.data
    appendedAt :=
      match version with
      | .v3 => needle.appendedAt
      | .v2 => 0
      | .v1 => 0 }

@[simp] theorem has_noFlags (flag : Flag) : ({} : Flags).has flag = false := by
  cases flag <;> decide

theorem length_headerBytes (needle : Needle) :
    needle.headerBytes.length = Record.headerLength := by
  simp [headerBytes, Record.headerLength]

theorem length_tailBytes (needle : Needle) (version : Version) :
    (needle.tailBytes version).length = Record.tailLength version := by
  cases version <;>
    simp [tailBytes, Checksum.toBytes, Record.tailLength, Record.checksumLength,
      Record.stampLength]

/-- The header of a record gives cookie, number and size. -/
theorem readHeader_headerBytes (needle : Needle) (rest : Bytes) :
    readHeader (needle.headerBytes ++ rest) =
      .ok { cookie := needle.cookie, id := needle.id, size := needle.size } := by
  have cookie := Bytes.wordAt_ofNat_append 4 needle.cookie.toNat
    (.ofNat 8 needle.id.toNat ++ (needle.size.toBytes ++ rest))
  have id := Bytes.slice_append_add (.ofNat 4 needle.cookie.toNat)
    (.ofNat 8 needle.id.toNat ++ (needle.size.toBytes ++ rest)) 0 8
  have size := Bytes.slice_append_add (.ofNat 4 needle.cookie.toNat ++ .ofNat 8 needle.id.toNat)
    (needle.size.toBytes ++ rest) 0 4
  have front := Bytes.slice_append needle.size.toBytes rest
  have cookieBound : needle.cookie.toNat < 256 ^ 4 := needle.cookie.toNat_lt
  have idBound : needle.id.toNat < 256 ^ 8 := needle.id.toNat_lt
  simp only [List.length_append, Bytes.length_ofNat, Size.length_toBytes, List.append_assoc,
    Nat.add_zero, Nat.reduceAdd] at cookie id size front
  have word := Bytes.wordAt_ofNat_append 8 needle.id.toNat (needle.size.toBytes ++ rest)
  rw [Bytes.wordAt] at word
  unfold readHeader headerBytes
  simp only [List.append_assoc]
  rw [if_neg (by simp [Record.headerLength]; omega), cookie, Bytes.wordAt, id, word, size, front,
    Nat.mod_eq_of_lt cookieBound, Nat.mod_eq_of_lt idBound, Size.ofBytes_toBytes,
    UInt32.ofNat_toNat, UInt64.ofNat_toNat]

/-- The body gives the fields that a record stores. -/
theorem readBody_trimmed {needle : Needle} (fits : needle.trimmed.Fits) (version : Version)
    (size : Size) :
    readBody { cookie := needle.cookie, id := needle.id, size } version
        (needle.trimmed.body version) =
      { needle := { needle.stored version with size, checksum := {}, appendedAt := 0 } } := by
  unfold readBody body stored storedFlags
  cases fields : version.hasFields with
  | false => simp [trimmed]
  | true =>
      cases data : needle.data.isEmpty with
      | true =>
          rw [List.isEmpty_iff] at data
          simp [trimmed, data]
      | false =>
          have steps := takeSteps_fields fits
            { cookie := needle.cookie, id := needle.id, size }
          have same : needle.trimmed.data = needle.data := rfl
          simp only [same, data, Bool.not_true, Bool.not_false, Bool.and_self, if_true,
            Bool.false_eq_true, if_false]
          rw [if_neg (by simp [counted]), ← same, steps]
          rfl

/-- The tail gives back the checksum of the data and the time stamp. -/
theorem readTail_tailBytes {needle read : Needle} (sum : needle.checksum = .ofBytes read.data)
    (version : Version) (rest : Bytes) :
    readTail read version (needle.tailBytes version ++ rest) =
      .ok { read with
        checksum := needle.checksum
        appendedAt :=
          match version with
          | .v3 => needle.appendedAt
          | .v2 => read.appendedAt
          | .v1 => read.appendedAt } := by
  have checksumBound : needle.checksum.value.toNat < 256 ^ 4 := needle.checksum.value.toNat_lt
  have stampBound : needle.appendedAt.toNat < 256 ^ 8 := needle.appendedAt.toNat_lt
  have word (rest : Bytes) :
      UInt32.ofNat ((needle.checksum.toBytes ++ rest).wordAt 0 4) = needle.checksum.value := by
    rw [Checksum.toBytes, Bytes.wordAt_ofNat_append, Nat.mod_eq_of_lt checksumBound,
      UInt32.ofNat_toNat]
  have stamp (rest : Bytes) :
      UInt64.ofNat ((needle.checksum.toBytes ++ (.ofNat 8 needle.appendedAt.toNat ++ rest)).wordAt
        4 8) = needle.appendedAt := by
    have behind := Bytes.slice_append_add needle.checksum.toBytes
      (.ofNat 8 needle.appendedAt.toNat ++ rest) 0 8
    have front := Bytes.wordAt_ofNat_append 8 needle.appendedAt.toNat rest
    rw [Checksum.toBytes, Bytes.length_ofNat] at behind
    rw [Bytes.wordAt] at front
    rw [Checksum.toBytes, Bytes.wordAt, behind, front, Nat.mod_eq_of_lt stampBound,
      UInt64.ofNat_toNat]
  have checked : (!read.data.isEmpty && needle.checksum.value != (Checksum.ofBytes read.data).value)
      = false := by
    rw [sum]
    simp
  have long : ¬(needle.tailBytes version ++ rest).length < Record.tailLength version := by
    rw [List.length_append, length_tailBytes]
    omega
  unfold readTail
  rw [if_neg long]
  cases version <;>
    simp only [tailBytes, List.append_assoc, List.append_nil, word, stamp, checked,
      Bool.false_eq_true, if_false]

/-- The needle that is written: cut to what can be stored, and with its size. -/
def sized (needle : Needle) (version : Version) : Needle :=
  { needle.trimmed with size := .ofLength (needle.trimmed.body version).length }

/-- The record of a needle: header, body, tail and padding. -/
def record (needle : Needle) (version : Version) : Bytes :=
  (needle.sized version).headerBytes ++ needle.trimmed.body version ++
    (needle.sized version).tailBytes version ++
    Bytes.zeros (Record.paddingLength version (needle.trimmed.body version).length)

theorem tooLarge?_eq_none_iff (needle : Needle) :
    needle.tooLarge? = none ↔ needle.trimmed.Fits := by
  constructor
  · exact fits_trimmed
  · intro fits
    have mime : needle.mime.length ≤ maxMimeLength := fits.mime
    have pairs : needle.pairs.length ≤ maxPairsLength := fits.pairs
    have data : needle.data.length ≤ maxBodyLength := fits.data
    rw [tooLarge?, if_neg (Nat.not_lt_of_le mime), if_neg (Nat.not_lt_of_le pairs),
      if_neg (Nat.not_lt_of_le data)]

/-- A needle is encoded exactly if its fields and its body fit, and then as its record. -/
theorem encode_eq_ok_iff {needle : Needle} {version : Version} {done : Sealed} :
    needle.encode version = .ok done ↔
      needle.trimmed.Fits ∧ (needle.trimmed.body version).length ≤ maxBodyLength ∧
        done = { needle := needle.sized version, bytes := needle.record version } := by
  rw [← tooLarge?_eq_none_iff, ← Nat.not_lt]
  unfold encode sealWith
  cases needle.tooLarge? with
  | some problem => simp
  | none =>
      by_cases long : maxBodyLength < (needle.trimmed.body version).length
      · simp [long]
      · simp only [long, if_false, Except.ok.injEq, not_false_iff, true_and]
        exact eq_comm

/-- A written record is read back as what it stores, whatever follows it. -/
theorem decode_sized {needle : Needle} {version : Version} (fits : needle.trimmed.Fits)
    (short : (needle.trimmed.body version).length ≤ maxBodyLength) (rest : Bytes) :
    decode ((needle.sized version).headerBytes ++ (needle.trimmed.body version ++
        ((needle.sized version).tailBytes version ++ rest))) version =
      .ok (needle.stored version) := by
  generalize sealedBody : needle.trimmed.body version = body at short ⊢
  have bound : body.length < 2 ^ 31 := by
    unfold maxBodyLength at short
    omega
  have size : (needle.sized version).size = .ofLength body.length := by rw [sized, sealedBody]
  have header := readHeader_headerBytes (needle.sized version)
    (body ++ ((needle.sized version).tailBytes version ++ rest))
  have front := Bytes.slice_append_add (needle.sized version).headerBytes
    (body ++ ((needle.sized version).tailBytes version ++ rest)) 0 body.length
  rw [Bytes.slice_append, length_headerBytes, Nat.add_zero] at front
  have behind :
      ((needle.sized version).headerBytes ++ (body ++
        ((needle.sized version).tailBytes version ++ rest))).drop
          (Record.headerLength + body.length) =
        (needle.sized version).tailBytes version ++ rest := by
    rw [← length_headerBytes (needle.sized version), ← List.append_assoc, ← List.length_append,
      List.drop_left]
  have readBack := readBody_trimmed fits version (.ofLength body.length)
  rw [sealedBody] at readBack
  have length := Size.length_ofLength bound
  unfold decode
  rw [header, size]
  change readRecord _ version _ = _
  unfold readRecord
  simp only [Size.isDeleted_ofLength bound, length, Bool.false_eq_true, if_false]
  rw [if_neg (by simp [length_headerBytes, length_tailBytes]; omega), front, behind]
  change (do
    let read ← (readBody { cookie := needle.cookie, id := needle.id, size := _ } version body).result
    read.readTail version _) = _
  rw [readBack]
  change readTail _ version _ = _
  refine Eq.trans (readTail_tailBytes (by rfl) version rest) ?_
  subst sealedBody
  cases version <;> rfl

theorem flagged_congr {needle other : Needle} {flag : Flag} {front back : Bytes}
    (flags : other.flags = needle.flags) (same : needle.flags.has flag = true → back = front) :
    other.flagged flag back = needle.flagged flag front := by
  unfold flagged has
  rw [flags]
  split
  · rename_i marked
    exact same marked
  · rfl

/-- If the flags are stored, so are the fields. -/
theorem fieldBytes_stored {needle : Needle} {version : Version}
    (flags : needle.storedFlags version = needle.flags) :
    (needle.stored version).trimmed.fieldBytes = needle.trimmed.fieldBytes := by
  have same : (needle.stored version).trimmed.flags = needle.trimmed.flags := flags
  have name (marked : needle.flags.has .name = true) :
      (needle.stored version).trimmed.name = needle.trimmed.name := by
    simp [trimmed, stored, flags, marked, List.take_take]
  have mime (marked : needle.flags.has .mime = true) :
      (needle.stored version).trimmed.mime = needle.trimmed.mime := by
    simp [trimmed, stored, flags, marked]
  have seconds (marked : needle.flags.has .lastModified = true) :
      Bytes.ofNat 5 (needle.stored version).trimmed.lastModified.toNat =
        .ofNat 5 needle.trimmed.lastModified.toNat := by
    have low := Bytes.ofNat_mod 5 needle.lastModified.toNat
    have kept : needle.lastModified.toNat % 2 ^ 40 % 2 ^ 64 =
        needle.lastModified.toNat % 256 ^ 5 := by
      omega
    simp only [trimmed, stored, flags, marked, if_true]
    rw [UInt64.toNat_ofNat', kept, low]
  have ttl (marked : needle.flags.has .ttl = true) :
      (needle.stored version).trimmed.ttl.getD .forever = needle.trimmed.ttl.getD .forever := by
    simp [trimmed, stored, flags, marked]
  have pairs (marked : needle.flags.has .pairs = true) :
      (needle.stored version).trimmed.pairs = needle.trimmed.pairs := by
    simp [trimmed, stored, flags, marked]
  unfold fieldBytes
  rw [flagged_congr same fun marked => congrArg (counted 1) (name marked),
    flagged_congr same fun marked => congrArg (counted 1) (mime marked),
    flagged_congr same seconds,
    flagged_congr same fun marked => congrArg Ttl.toBytes (ttl marked),
    flagged_congr same fun marked => congrArg (counted 2) (pairs marked)]

/-- What a record stores of a needle has the body that it was stored with. -/
theorem body_stored (needle : Needle) (version : Version) :
    (needle.stored version).trimmed.body version = needle.trimmed.body version := by
  have data : (needle.stored version).trimmed.data = needle.trimmed.data := rfl
  unfold body
  rw [data]
  split
  · rfl
  · rename_i fields
    split
    · rfl
    · rename_i full
      have flags : needle.storedFlags version = needle.flags := by
        have full : ¬needle.data.isEmpty = true := full
        simp_all [storedFlags]
      rw [fieldBytes_stored flags]
      have bits : (needle.stored version).trimmed.flags = needle.trimmed.flags := flags
      rw [bits]

theorem record_stored (needle : Needle) (version : Version) :
    (needle.stored version).record version = needle.record version := by
  have body := body_stored needle version
  have header :
      ((needle.stored version).sized version).headerBytes = (needle.sized version).headerBytes := by
    unfold headerBytes sized
    rw [body]
    rfl
  have tail :
      ((needle.stored version).sized version).tailBytes version =
        (needle.sized version).tailBytes version := by
    cases version <;> rfl
  rw [record, header, body, tail, record]

theorem fits_stored {needle : Needle} (fits : needle.trimmed.Fits) (version : Version) :
    (needle.stored version).trimmed.Fits := by
  refine ⟨?_, ?_, ?_, fits.data⟩
  · simp only [trimmed, List.length_take]
    exact Nat.min_le_left _ _
  · have mime : needle.mime.length ≤ maxMimeLength := fits.mime
    simp only [trimmed, stored]
    split
    · exact mime
    · exact Nat.zero_le _
  · have pairs : needle.pairs.length ≤ maxPairsLength := fits.pairs
    simp only [trimmed, stored]
    split
    · exact pairs
    · exact Nat.zero_le _

/-- An encoded needle is decoded as what its record stores, with any bytes behind the record, and
that is encoded as the same bytes again. -/
theorem record_round_trips {needle : Needle} {version : Version} {done : Sealed}
    (encoded : needle.encode version = .ok done) (rest : Bytes) :
    decode (done.bytes ++ rest) version = .ok (needle.stored version) ∧
      ((needle.stored version).encode version).map Sealed.bytes = .ok done.bytes := by
  obtain ⟨fits, short, rfl⟩ := encode_eq_ok_iff.mp encoded
  constructor
  · have read := decode_sized fits short
      (Bytes.zeros (Record.paddingLength version (needle.trimmed.body version).length) ++ rest)
    simp only [record, List.append_assoc]
    exact read
  · have again : (needle.stored version).encode version = .ok
        { needle := (needle.stored version).sized version
          bytes := (needle.stored version).record version } := by
      apply encode_eq_ok_iff.mpr
      refine ⟨fits_stored fits version, ?_, rfl⟩
      rw [body_stored]
      exact short
    rw [again, record_stored]
    rfl

/-- A needle with an unmarked type, marked with a name, a lifetime it does not have and a bit that
has no meaning. -/
theorem marked_needle_round_trips :
    let needle : Needle :=
      { cookie := 7, id := 9, data := [1], flags := ⟨0x52⟩, name := [97, 98], mime := [99] }
    let bytes : Bytes :=
      [0, 0, 0, 7, 0, 0, 0, 0, 0, 0, 0, 9, 0, 0, 0, 11, 0, 0, 0, 1, 1, 0x52, 2, 97, 98, 0, 0,
        160, 22, 208, 82, 0]
    needle.encode .v2 = .ok { needle := needle.sized .v2, bytes } ∧
      decode (bytes ++ [5]) .v2 = .ok { needle.sized .v2 with mime := [], ttl := some .forever } := by
  intro needle bytes
  have encoded : needle.encode .v2 = .ok { needle := needle.sized .v2, bytes } := by
    apply encode_eq_ok_iff.mpr
    exact ⟨⟨by decide, by decide, by decide, by decide⟩, by decide, by decide +kernel⟩
  have stored : needle.stored .v2 =
      { needle.sized .v2 with mime := [], ttl := some .forever } := by
    decide +kernel
  have read := (record_round_trips encoded [5]).1
  rw [stored] at read
  exact ⟨encoded, read⟩

end Haystack.Needle
