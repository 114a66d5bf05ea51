import Haystack.Proofs.Json.ReadBack
import Haystack.SuperBlock

/-!
# Reading back super blocks

A super block is read back in a normal form: with a placement and a lifetime even if it had none,
and with an extension only if its version has one. The normal form is written as the same bytes, so
that however often a volume is opened its first block stays what it is.
-/

namespace Haystack

namespace ReplicaPlacement

/-- The placement of which a byte spells the digits. -/
def spelled (byte : UInt8) : ReplicaPlacement :=
  { otherDataCenters := byte / 100, otherRacks := byte / 10 % 10, sameRack := byte % 10 }

theorem value_spelled (byte : UInt8) : (spelled byte).value = byte.toNat := by
  simp only [value, spelled, UInt8.toNat_div, UInt8.toNat_mod, UInt8.reduceToNat]
  omega

theorem ofByte_eq_spelled (byte : UInt8) : ofByte byte = .ok (spelled byte) := by
  have digits : ¬(9 < byte / 100 ∨ 9 < byte / 10 % 10 ∨ 9 < byte % 10) := by
    have bound := byte.toNat_lt
    simp only [UInt8.lt_iff_toNat_lt, UInt8.toNat_div, UInt8.toNat_mod, UInt8.reduceToNat]
    omega
  have fits : ¬255 < (spelled byte).value := by
    have bound := byte.toNat_lt
    rw [value_spelled]
    omega
  unfold ofByte make
  rw [if_neg digits]
  exact if_neg fits

@[simp] theorem toByte_spelled (byte : UInt8) : (spelled byte).toByte = byte := by
  rw [toByte, value_spelled, UInt8.ofNat_toNat]

theorem spelled_toByte {placement : ReplicaPlacement} (valid : placement.IsValid) :
    spelled placement.toByte = placement := by
  obtain ⟨dataCenters, racks, same⟩ := placement
  obtain ⟨first, second, third, fits⟩ := valid
  simp only [UInt8.le_iff_toNat_le, UInt8.reduceToNat, value] at first second third fits
  have word := Nat.mod_eq_of_lt (Nat.lt_succ_of_le fits)
  simp only [spelled, toByte, value, mk.injEq, ← UInt8.toNat_inj, UInt8.toNat_div, UInt8.toNat_mod,
    UInt8.toNat_ofNat', UInt8.reduceToNat, Nat.reducePow, word]
  refine ⟨?_, ?_, ?_⟩ <;> omega

end ReplicaPlacement

namespace ErasureCoding

open Json

/-- The members of the JSON object, with what they are read as. -/
def members (coding : ErasureCoding) : List Member :=
  [("data_shards", writeInteger coding.dataShards.toNat,
      .number (writeInteger coding.dataShards.toNat)),
    ("parity_shards", writeInteger coding.parityShards.toNat,
      .number (writeInteger coding.parityShards.toNat))] ++
  if coding.volumeIds.isEmpty then []
  else [("volume_ids", writeArray (coding.volumeIds.map fun id => writeInteger id.toNat),
      .array (coding.volumeIds.map fun id => .number (writeInteger id.toNat)))]

theorem toJson_eq_members (coding : ErasureCoding) :
    coding.toJson = writeObject (coding.members.map fun member => (member.1, member.2.1)) := by
  unfold toJson members
  split <;> rfl

theorem readAs_ids (ids : List UInt32) :
    ReadAs (writeArray (ids.map fun id => writeInteger id.toNat))
      (.array (ids.map fun id => .number (writeInteger id.toNat))) := by
  have read := @readAs_array
    (ids.map fun id => (writeInteger id.toNat, .number (writeInteger id.toNat))) (by
      intro item member
      obtain ⟨id, _, rfl⟩ := List.mem_map.mp member
      exact readAs_number id.toNat)
  rw [List.map_map, List.map_map] at read
  exact read

theorem readAs_members (coding : ErasureCoding) :
    ∀ member ∈ coding.members, ReadAs member.2.1 member.2.2 := by
  intro member inside
  unfold members at inside
  obtain numbers | list := List.mem_append.mp inside
  · simp only [List.mem_cons, List.not_mem_nil, or_false] at numbers
    obtain rfl | rfl := numbers
    · exact readAs_number _
    · exact readAs_number _
  · split at list
    · exact absurd list List.not_mem_nil
    · obtain rfl := List.mem_singleton.mp list
      exact readAs_ids _

theorem word?_number (value : UInt32) :
    word? (.number (writeInteger value.toNat)) = some value := by
  rw [word?, natural?_number value.toNat_lt, Option.map_some, UInt32.ofNat_toNat]

theorem mapM_word? (ids : List UInt32) :
    (ids.map fun id => Json.number (writeInteger id.toNat)).mapM word? = some ids := by
  rw [mapM_map_eq_some (h := id) word?_number ids, List.map_id]

theorem ofJson?_members (coding : ErasureCoding) :
    ofJson? (.object (coding.members.map fun member => (body member.1, member.2.2))) =
      some coding := by
  obtain ⟨dataShards, parityShards, volumeIds⟩ := coding
  cases volumeIds with
  | nil =>
      simp [ofJson?, members, fields?, members?, only?, word?_number]
  | cons id rest =>
      have items := mapM_word? (id :: rest)
      rw [List.map_cons] at items
      simp [ofJson?, members, fields?, members?, only?, word?_number, items?, items]

end ErasureCoding

namespace Extension

open Json

theorem readAs_toJson (extension : Extension) :
    ∃ json, ReadAs extension.toJson json ∧ ofJson? json = some extension := by
  obtain ⟨coding⟩ := extension
  cases coding with
  | none => exact ⟨.object [], @readAs_object [] (by simp), rfl⟩
  | some coding =>
      have inner := readAs_object coding.readAs_members
      rw [← coding.toJson_eq_members] at inner
      have outer := @readAs_object [("erasure_coding", coding.toJson, _)] (by
        intro member inside
        obtain rfl := List.mem_singleton.mp inside
        exact inner)
      refine ⟨_, outer, ?_⟩
      simp [ofJson?, fields?, members?, only?, coding.ofJson?_members]

theorem decode_toJson (extension : Extension) : decode extension.toJson = .ok extension := by
  obtain ⟨json, read, same⟩ := extension.readAs_toJson
  rw [decode, ofBytes?_of_readAs read, Option.bind_some, same]

end Extension

namespace SuperBlock

variable {block : SuperBlock}

/-- The byte that stores the placement. -/
def placementByte (block : SuperBlock) : UInt8 :=
  (block.placement.map ReplicaPlacement.toByte).getD 0

/-- The length of the extension's text as it is written. -/
def writtenLength (block : SuperBlock) : Nat :=
  (block.writtenExtension.map fun extension => extension.toJson.length).getD 0

theorem writtenLength_of_noFields (fields : block.version.hasFields = false) :
    block.writtenLength = 0 := by
  rw [writtenLength, writtenExtension, fields]
  rfl

/-- What a super block is read back as. -/
def normal (block : SuperBlock) : SuperBlock :=
  { version := block.version
    placement := some (.spelled block.placementByte)
    ttl := some (block.ttl.getD .forever)
    revision := block.revision
    extension := block.writtenExtension
    extensionLength := UInt16.ofNat block.writtenLength }

theorem writtenExtension_normal (block : SuperBlock) :
    block.normal.writtenExtension = block.writtenExtension := by
  unfold writtenExtension normal
  cases fields : block.version.hasFields with
  | false => simp
  | true => simp [writtenExtension, fields]

theorem fixedBytes_normal (block : SuperBlock) (length : Nat) :
    block.normal.fixedBytes length = block.fixedBytes length := by
  simp [fixedBytes, normal, placementByte]

theorem toBytes_normal (block : SuperBlock) : block.normal.toBytes = block.toBytes := by
  unfold toBytes
  simp only [writtenExtension_normal, fixedBytes_normal]

@[simp] theorem length_fixedBytes (block : SuperBlock) (length : Nat) :
    (block.fixedBytes length).length = fixedLength := by
  simp [fixedBytes, fixedLength]

/-- A block that can be written is written as its fixed fields and then the text of its extension,
of which the length fits into its field. -/
theorem toBytes_eq_ok {bytes : Bytes} (written : block.toBytes = .ok bytes) :
    ∃ text : Bytes, bytes = block.fixedBytes text.length ++ text ∧
      text.length = block.writtenLength ∧ text.length ≤ Extension.maxLength ∧
      ∀ extension, block.writtenExtension = some extension → text = extension.toJson := by
  unfold toBytes at written
  unfold writtenLength
  cases found : block.writtenExtension with
  | none =>
      rw [found] at written
      cases written
      exact ⟨[], by simp, rfl, Nat.zero_le _, by simp⟩
  | some extension =>
      rw [found] at written
      simp only [Extension.encode] at written
      by_cases long : Extension.maxLength < extension.toJson.length
      · simp [long] at written
      · simp only [long, if_false, Except.ok.injEq] at written
        refine ⟨extension.toJson, written.symm, rfl, Nat.le_of_not_lt long, ?_⟩
        rintro _ ⟨⟩
        rfl

theorem fixedBytes_append (block : SuperBlock) (length : Nat) (rest : Bytes) :
    block.fixedBytes length ++ rest =
      block.version.toByte :: block.placementByte :: ((block.ttl.getD .forever).toBytes ++
        (Bytes.ofNat 2 block.revision.toNat ++ (Bytes.ofNat 2 length ++ rest))) := by
  simp [fixedBytes, placementByte]

theorem version_fixedBytes (block : SuperBlock) (length : Nat) :
    Version.ofByte (UInt8.ofNat ((block.fixedBytes length).wordAt 0 1)) = .ok block.version := by
  have first := fixedBytes_append block length []
  rw [List.append_nil] at first
  rw [first]
  simp [Bytes.wordAt, Bytes.slice, Bytes.toNat]

theorem wordAt_fixedBytes_revision (block : SuperBlock) (length : Nat) (rest : Bytes) :
    (block.fixedBytes length ++ rest).wordAt 4 2 = block.revision.toNat := by
  have behind := Bytes.slice_append_add
    (block.version.toByte :: block.placementByte :: (block.ttl.getD .forever).toBytes)
    (Bytes.ofNat 2 block.revision.toNat ++ (Bytes.ofNat 2 length ++ rest)) 0 2
  have word := Bytes.wordAt_ofNat_append 2 block.revision.toNat (Bytes.ofNat 2 length ++ rest)
  have range : block.revision.toNat < 256 ^ 2 := block.revision.toNat_lt
  rw [Nat.mod_eq_of_lt range, Bytes.wordAt] at word
  refine Eq.trans ?_ word
  rw [fixedBytes_append, Bytes.wordAt, ← behind]
  simp [Ttl.toBytes]

theorem wordAt_fixedBytes_extension (block : SuperBlock) {length : Nat}
    (short : length ≤ Extension.maxLength) (rest : Bytes) :
    (block.fixedBytes length ++ rest).wordAt 6 2 = length := by
  have behind := Bytes.slice_append_add
    (block.version.toByte :: block.placementByte :: ((block.ttl.getD .forever).toBytes ++
      Bytes.ofNat 2 block.revision.toNat)) (Bytes.ofNat 2 length ++ rest) 0 2
  have word := Bytes.wordAt_ofNat_append 2 length rest
  have range : length < 256 ^ 2 := by
    unfold Extension.maxLength at short
    omega
  rw [Nat.mod_eq_of_lt range, Bytes.wordAt] at word
  refine Eq.trans ?_ word
  rw [fixedBytes_append, Bytes.wordAt, ← behind]
  simp [Ttl.toBytes]

theorem parse_fixedBytes (block : SuperBlock) (length : Nat) (rest : Bytes) :
    parse (block.fixedBytes length ++ rest) =
      readExtension { block.normal with extension := none, extensionLength := 0 }
        (block.fixedBytes length ++ rest) := by
  have long : ¬(block.fixedBytes length ++ rest).length < fixedLength := by
    simp
  have revision := wordAt_fixedBytes_revision block length rest
  rw [fixedBytes_append] at long revision ⊢
  unfold parse
  simp only [if_neg long, Version.ofByte_toByte, ReplicaPlacement.ofByte_eq_spelled, revision,
    Ttl.ofBytes_toBytes, UInt16.ofNat_toNat]
  rfl

/-- A written block is read back in its normal form, whatever follows it. -/
theorem parse_toBytes {bytes : Bytes} (written : block.toBytes = .ok bytes) (rest : Bytes) :
    parse (bytes ++ rest) = .ok block.normal := by
  obtain ⟨text, rfl, length, short, extended⟩ := toBytes_eq_ok written
  have word := wordAt_fixedBytes_extension block short (text ++ rest)
  rw [List.append_assoc, parse_fixedBytes]
  unfold readExtension
  rw [word]
  cases found : block.writtenExtension with
  | none =>
      have empty : text.length = 0 := by
        rw [length, writtenLength, found]
        rfl
      simp [empty, normal, found, writtenLength]
  | some extension =>
      obtain rfl := extended extension found
      have fields : block.version.hasFields = true := by
        unfold writtenExtension at found
        split at found
        · assumption
        · contradiction
      have full : extension.toJson.length ≠ 0 := by
        simp [Extension.toJson, Json.writeObject]
      rw [length] at full
      have inside : (block.fixedBytes extension.toJson.length ++ (extension.toJson ++ rest)).slice
          fixedLength extension.toJson.length = extension.toJson := by
        have behind := Bytes.slice_append_add (block.fixedBytes extension.toJson.length)
          (extension.toJson ++ rest) 0 extension.toJson.length
        rwa [length_fixedBytes, Bytes.slice_append] at behind
      simp only [inside, extension.decode_toJson]
      simp [fields, full, normal, found, length]

theorem length_normal {bytes : Bytes} (written : block.toBytes = .ok bytes) :
    block.normal.length = bytes.length := by
  obtain ⟨text, rfl, length, short, -⟩ := toBytes_eq_ok written
  have range : text.length < 2 ^ 16 := by
    unfold Extension.maxLength at short
    omega
  have word : (UInt16.ofNat block.writtenLength).toNat = text.length := by
    rw [← length, UInt16.toNat_ofNat', Nat.mod_eq_of_lt range]
  rw [List.length_append, length_fixedBytes, SuperBlock.length]
  cases fields : block.version.hasFields with
  | false =>
      rw [writtenLength_of_noFields fields] at length
      simp [normal, fields, length]
  | true => simp [normal, fields, word]

theorem parse_of_short {bytes : Bytes} (short : bytes.length < fixedLength) :
    parse bytes = .error (.sizeMismatch .superBlock bytes.length fixedLength) := by
  unfold parse
  split
  · exact if_pos short
  · rfl

/-- A written block that is cut off is too short: for its fixed fields, or for the extension that
these announce. -/
theorem parse_take {bytes : Bytes} (written : block.toBytes = .ok bytes) {count : Nat}
    (cut : count < bytes.length) :
    parse (bytes.take count) =
      .error (.sizeMismatch .superBlock count
        (if count < fixedLength then fixedLength else bytes.length : Nat)) := by
  have left : (bytes.take count).length = count := List.length_take_of_le (Nat.le_of_lt cut)
  by_cases fixed : count < fixedLength
  · rw [parse_of_short (by rwa [left]), left, if_pos fixed]
  · obtain ⟨text, rfl, length, short, -⟩ := toBytes_eq_ok written
    rw [List.length_append, length_fixedBytes] at cut ⊢
    have front : (block.fixedBytes text.length ++ text).take count =
        block.fixedBytes text.length ++ text.take (count - fixedLength) := by
      rw [List.take_append, length_fixedBytes, List.take_of_length_le]
      rw [length_fixedBytes]
      exact Nat.le_of_not_lt fixed
    have fields : block.version.hasFields = true := by
      cases fields : block.version.hasFields with
      | true => rfl
      | false =>
          rw [writtenLength_of_noFields fields] at length
          omega
    have announced : ¬(!block.version.hasFields || text.length == 0) = true := by
      rw [fields, Bool.not_true, Bool.false_or, beq_iff_eq]
      omega
    rw [front] at left ⊢
    rw [parse_fixedBytes, readExtension, wordAt_fixedBytes_extension block short, left]
    refine (if_neg announced).trans ((if_pos cut).trans ?_)
    rw [if_neg fixed, Int.natCast_add]

theorem normal_normal {bytes : Bytes} (written : block.toBytes = .ok bytes) :
    block.normal.normal = block.normal := by
  have once := parse_toBytes written []
  have twice := parse_toBytes (block.toBytes_normal.trans written) []
  rw [once, Except.ok.injEq] at twice
  exact twice.symm

end SuperBlock

end Haystack
