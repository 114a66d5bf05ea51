import Haystack.Proofs.File.Records
import Mathlib.Control.Monad.Basic

/-!
# Records under a new time stamp

An encoded record is appended again under another time stamp. The stamp lies behind the checksum,
and nothing else in a record depends on it; so what is written is the record that the needle has
with the new stamp. The first two versions store no stamp and their records stay as they are. If
something fails the file is left as it was, and a record that has no room for a stamp too.
-/

namespace Haystack

namespace Needle

/-- What a record gives of a needle after its time stamp is replaced. -/
def restamped (needle : Needle) (version : Version) (stamp : UInt64) : Needle :=
  match version with
  | .v1 => needle
  | .v2 => needle
  | .v3 => { needle with appendedAt := stamp }

/-- What stands before the time stamp in a record that has one. -/
def beforeStamp (needle : Needle) : Bytes :=
  (needle.sized .v3).headerBytes ++ needle.trimmed.body .v3 ++
    (needle.sized .v3).checksum.toBytes

variable {needle : Needle} {version : Version}

theorem record_stamped (needle : Needle) (stamp : UInt64) :
    { needle with appendedAt := stamp }.record .v3 =
      needle.beforeStamp ++ (Bytes.ofNat Record.stampLength stamp.toNat ++
        Bytes.zeros (Record.paddingLength .v3 (needle.trimmed.body .v3).length)) := by
  simp only [record, tailBytes, beforeStamp, List.append_assoc]
  rfl

theorem length_beforeStamp (short : (needle.trimmed.body .v3).length ≤ maxBodyLength) :
    needle.beforeStamp.length =
      Record.headerLength + (needle.sized .v3).size.length + Record.checksumLength := by
  have bound : (needle.trimmed.body .v3).length < 2 ^ 31 := by
    unfold maxBodyLength at short
    omega
  have size : (needle.sized .v3).size.length = (needle.trimmed.body .v3).length :=
    Size.length_ofLength bound
  rw [beforeStamp, List.length_append, List.length_append, length_headerBytes, size,
    Checksum.toBytes, Bytes.length_ofNat]
  rfl

/-- Replacing the stamp in the record of a needle gives its record with the new stamp. -/
theorem stampRecord_record (short : (needle.trimmed.body version).length ≤ maxBodyLength)
    (stamp : UInt64) :
    File.stampRecord (needle.record version) (needle.sized version).size stamp version =
      .ok ({ needle with appendedAt := stamp }.record version) := by
  cases version with
  | v1 => rfl
  | v2 => rfl
  | v3 =>
      have parts : needle.record .v3 = _ := record_stamped needle needle.appendedAt
      have enough : ¬ (needle.record .v3).length <
          needle.beforeStamp.length + Record.stampLength := by
        rw [parts]
        simp only [List.length_append, Bytes.length_ofNat]
        omega
      have same : (Bytes.ofNat Record.stampLength needle.appendedAt.toNat).length =
          (Bytes.ofNat Record.stampLength stamp.toNat).length := by
        rw [Bytes.length_ofNat, Bytes.length_ofNat]
      simp only [File.stampRecord, ← length_beforeStamp short, if_neg enough]
      rw [parts, Bytes.splice_middle same, record_stamped]

theorem stored_stamped (needle : Needle) (version : Version) (stamp : UInt64) :
    { needle with appendedAt := stamp }.stored version =
      (needle.stored version).restamped version stamp := by
  cases version <;> rfl

end Needle

namespace File

section Appending

variable {file : File} {record : Bytes} {size : Size} {stamp : UInt64} {version : Version}
  {problem : Error}

/-- Either nothing is done to the record and to the file, or the record has its stamp and is written
where the file says that it ends. -/
theorem appendStamped_cases (file : File) (record : Bytes) (size : Size) (stamp : UInt64)
    (version : Version) :
    (∃ problem, file.appendStamped record size stamp version =
      { result := .error problem, record, file }) ∨
      ∃ stop stamped, file.stat = .ok stop ∧
        stampRecord record size stamp version = .ok stamped ∧
        file.appendStamped record size stamp version =
          { result := (file.writeOrCutBack stamped stop).1.map fun _ => stop
            record := stamped
            file := (file.writeOrCutBack stamped stop).2 } := by
  unfold appendStamped
  cases file.stat with
  | error problem => exact .inl ⟨problem, rfl⟩
  | ok stop =>
      dsimp only
      cases stampRecord record size stamp version with
      | error problem => exact .inl ⟨problem, rfl⟩
      | ok stamped =>
          refine .inr ⟨stop, stamped, rfl, rfl, ?_⟩
          dsimp only
          rcases file.writeOrCutBack stamped stop with ⟨written | written, left⟩ <;> rfl

/-- Writing fails for what is wrong with a file, never for a length. -/
theorem exists_cause {data : Bytes} {offset : Nat}
    (failed : (file.writeOrCutBack data offset).1 = .error problem) :
    ∃ cause, problem = .file cause := by
  unfold writeOrCutBack write at failed
  cases fault : file.faults.write with
  | none =>
      rw [fault] at failed
      cases failed
  | some wrong =>
      rw [fault] at failed
      cases wrong with
      | refuse =>
          cases failed
          exact ⟨_, rfl⟩
      | tear kept =>
          cases failed
          exact ⟨_, rfl⟩
      | short => cases failed

/-- A record is refused for its length before anything is done to it or to the file. -/
theorem untouched_of_sizeMismatch {check : LengthCheck} {found expected : Int}
    (refused : (file.appendStamped record size stamp version).result =
      .error (.sizeMismatch check found expected)) :
    (file.appendStamped record size stamp version).record = record ∧
      (file.appendStamped record size stamp version).file = file := by
  obtain ⟨problem, same⟩ | ⟨stop, stamped, _, _, same⟩ :=
    appendStamped_cases file record size stamp version
  · rw [same]
    exact ⟨rfl, rfl⟩
  · rw [same] at refused
    cases written : (file.writeOrCutBack stamped stop).1 with
    | ok _ =>
        rw [written] at refused
        cases refused
    | error problem =>
        obtain ⟨cause, rfl⟩ := exists_cause written
        rw [written] at refused
        cases refused

/-- Whatever goes wrong, the file is left as it was. -/
theorem file_appendStamped_of_error (cuts : file.faults.truncate = false)
    (truthful : file.faults.reportedLength = none)
    (failed : (file.appendStamped record size stamp version).result = .error problem) :
    (file.appendStamped record size stamp version).file = file := by
  obtain ⟨problem, same⟩ | ⟨stop, stamped, told, _, same⟩ :=
    appendStamped_cases file record size stamp version
  · rw [same]
  · have stops : stop = file.contents.length := by
      obtain lost | true := stat_of_truthful truthful
      · cases told.symm.trans lost
      · exact Except.ok.inj (told.symm.trans true)
    rw [same, stops] at failed ⊢
    obtain ⟨problem, written⟩ | ⟨bytes, written⟩ := writeOrCutBack_cases cuts stamped
    · rw [written]
    · rw [written] at failed
      cases failed

theorem exists_error_of_torn {kept : Nat → Nat} (torn : file.faults.write = some (.tear kept))
    (record : Bytes) (size : Size) (stamp : UInt64) (version : Version) :
    ∃ problem, (file.appendStamped record size stamp version).result = .error problem := by
  obtain ⟨problem, same⟩ | ⟨stop, stamped, _, _, same⟩ :=
    appendStamped_cases file record size stamp version
  · exact ⟨problem, by rw [same]⟩
  · refine ⟨.file .tornWrite, ?_⟩
    rw [same]
    simp only [writeOrCutBack, write, torn]
    rfl

theorem appendStamped_of_reliable {stamped : Bytes} (reliable : file.Reliable)
    (room : stampRecord record size stamp version = .ok stamped) :
    file.appendStamped record size stamp version =
      { result := .ok file.contents.length, record := stamped, file := file.extended stamped } := by
  simp only [appendStamped, stat_of_reliable reliable, room, writeOrCutBack,
    write_at_end reliable]

end Appending

/-- A needle's record is appended as the record of the needle with the new time stamp, behind what
the file held, and read back from there as the needle that it was, but for the stamp. -/
theorem appendStamped_record {file : File} {needle : Needle} {version : Version}
    {done : Needle.Sealed} (reliable : file.Reliable) (encoded : needle.encode version = .ok done)
    (stamp : UInt64) :
    let appended := file.appendStamped done.bytes done.needle.size stamp version
    appended.result = .ok file.contents.length ∧
      appended.file = file.extended appended.record ∧
      ({ needle with appendedAt := stamp }.encode version).map Needle.Sealed.bytes =
        .ok appended.record ∧
      ∃ read, Needle.decode done.bytes version = .ok read ∧
        appended.file.readNeedle file.contents.length done.needle.size version =
          .ok (read.restamped version stamp) := by
  obtain ⟨fits, short, rfl⟩ := Needle.encode_eq_ok_iff.mp encoded
  generalize renewed : { needle with appendedAt := stamp } = other
  have fitting : other.trimmed.Fits := renewed ▸ ⟨fits.name, fits.mime, fits.pairs, fits.data⟩
  have brief : (other.trimmed.body version).length ≤ Needle.maxBodyLength := renewed ▸ short
  have encoded : other.encode version = .ok _ :=
    Needle.encode_eq_ok_iff.mpr ⟨fitting, brief, rfl⟩
  have room := Needle.stampRecord_record short stamp
  rw [renewed] at room
  have stands : (file.extended (other.record version)).contents =
      file.contents ++ other.record version ++ [] := by
    rw [contents_extended, List.append_nil]
  have read := Needle.readNeedle_record fitting brief stands
  have size : (other.stored version).size = (needle.sized version).size := renewed ▸ rfl
  have kept : other.stored version = (needle.stored version).restamped version stamp :=
    renewed ▸ Needle.stored_stamped needle version stamp
  rw [size, kept] at read
  dsimp only
  rw [appendStamped_of_reliable reliable room, encoded]
  exact ⟨rfl, rfl, rfl, needle.stored version, Needle.decode_record fits short, read⟩

/-- A needle's record that is appended under a new time stamp is the record of the needle with that
stamp. It goes behind what the file held, and what is read there is what the record gave before, but
for the stamp of a version that stores one. A record refused for its length is left alone and the
file with it. Whatever goes wrong leaves a file that can be cut as it was; so does a write that is
torn, after any part of the record. -/
theorem appendStamped_stamps_or_undoes (file : File) (version : Version) (stamp : UInt64) :
    (file.Reliable → ∀ needle done, Needle.encode needle version = .ok done →
        let appended := file.appendStamped done.bytes done.needle.size stamp version
        appended.result = .ok file.contents.length ∧
          appended.file = file.extended appended.record ∧
          ({ needle with appendedAt := stamp }.encode version).map Needle.Sealed.bytes =
            .ok appended.record ∧
          ∃ read, Needle.decode done.bytes version = .ok read ∧
            appended.file.readNeedle file.contents.length done.needle.size version =
              .ok (read.restamped version stamp)) ∧
      ∀ record size,
        let appended := file.appendStamped record size stamp version
        (∀ check found expected, appended.result = .error (.sizeMismatch check found expected) →
          appended.record = record ∧ appended.file = file) ∧
        (file.faults.truncate = false → file.faults.reportedLength = none →
          ∀ problem, appended.result = .error problem → appended.file = file) ∧
        (∀ kept, file.faults.write = some (.tear kept) →
          ∃ problem, appended.result = .error problem) := by
  constructor
  · intro reliable needle done encoded
    exact appendStamped_record reliable encoded stamp
  · intro record size
    refine ⟨?_, ?_, ?_⟩
    · intro check found expected refused
      exact untouched_of_sizeMismatch refused
    · intro cuts truthful problem failed
      exact file_appendStamped_of_error cuts truthful failed
    · intro kept torn
      exact exists_error_of_torn torn record size stamp version

/-- A record is appended under the stamp 5, torn off in the middle, and refused without its end. -/
theorem appended_torn_and_cut_record :
    let needle : Needle := { cookie := 7, id := 9, data := [1, 2], appendedAt := 3 }
    let size := (needle.sized .v3).size
    let file : File := { contents := Bytes.zeros 8 }
    let torn : File := { file with faults := { write := some (.tear fun length => length / 2) } }
    let appended := file.appendStamped (needle.record .v3) size 5 .v3
    let failed := torn.appendStamped (needle.record .v3) size 5 .v3
    let refused := file.appendStamped [1, 2, 3] size 5 .v3
    needle.encode .v3 = .ok { needle := needle.sized .v3, bytes := needle.record .v3 } ∧
      appended.result = .ok 8 ∧
      appended.file.readNeedle 8 size .v3 = .ok { needle.stored .v3 with appendedAt := 5 } ∧
      failed.result = .error (.file .tornWrite) ∧ failed.file = torn ∧
      refused.result = .error (.sizeMismatch .stamp 3 35) ∧
      refused.record = [1, 2, 3] ∧ refused.file = file := by
  intro needle size file torn appended failed refused
  have fits : needle.trimmed.Fits := ⟨by decide, by decide, by decide, by decide⟩
  have brief : (needle.trimmed.body .v3).length ≤ Needle.maxBodyLength := by decide
  have encoded : needle.encode .v3 =
      .ok { needle := needle.sized .v3, bytes := needle.record .v3 } :=
    Needle.encode_eq_ok_iff.mpr ⟨fits, brief, rfl⟩
  have decoded := Needle.decode_record fits brief
  have wrong : failed.result = .error (.file .tornWrite) := by decide +kernel
  have short : refused.result = .error (.sizeMismatch .stamp 3 35) := by decide +kernel
  obtain ⟨done, _, _, read, same, again⟩ :=
    (appendStamped_stamps_or_undoes file .v3 5).1 rfl needle _ encoded
  cases Except.ok.inj (same.symm.trans decoded)
  have undone := ((appendStamped_stamps_or_undoes torn .v3 5).2 (needle.record .v3) size).2.1
    rfl rfl _ wrong
  obtain ⟨record, left⟩ :=
    ((appendStamped_stamps_or_undoes file .v3 5).2 [1, 2, 3] size).1 _ _ _ short
  exact ⟨encoded, done, again, wrong, undone, short, record, left⟩

end File

end Haystack
