import Haystack.File.Records
import Haystack.Proofs.File.Records
import Haystack.Proofs.Needle.Grammar

/-!
# Reading in steps

A needle can be read in one step, if the size of its record is known from an index, or in two, the
header first and then what the header announces. Both ways find the same bytes and cut them into
body and tail at the same place. So they give the same needle or the same error, but for the text of
the error where the file ends within the record.
-/

namespace Haystack

namespace File

variable {file : File} {header : Needle} {offset : Nat}

theorem headerOf_slice (readable : file.readHeader offset = .ok header) :
    Needle.HeaderOf (file.contents.slice offset Record.headerLength) header := by
  have inside := length_of_readHeader readable
  rw [readHeader, readExact_of_le inside] at readable
  refine Needle.headerOf_of_readHeader ?_ readable
  rw [Bytes.length_slice]
  exact Nat.min_eq_left (Nat.le_sub_of_add_le' inside)

/-- If what a header announces is in the file, it is read as body and tail. -/
theorem result_readBody {version : Version} {body tail : Bytes}
    (inside : offset + Record.restLength version header.size.length ≤ file.contents.length)
    (parts : file.contents.slice offset (Record.restLength version header.size.length) =
      body ++ tail)
    (size : body.length = header.size.length) :
    (file.readBody header version offset (Record.restLength version header.size.length)).result =
      (header.readBody version body).result >>= fun needle => needle.readTail version tail := by
  have some := Record.restLength_pos version header.size.length
  have long : ¬ (body ++ tail).length < header.size.length := by
    rw [List.length_append]
    omega
  have first : (body ++ tail).take header.size.length = body := by rw [← size, List.take_left]
  have second : (body ++ tail).drop header.size.length = tail := by rw [← size, List.drop_left]
  rw [readBody, if_neg (Nat.ne_of_gt some), readExact_of_le inside, parts]
  simp only [if_neg long, first, second, Needle.Progress.result]
  cases (header.readBody version body).failure with
  | some problem => rfl
  | none =>
      change _ = (header.readBody version body).needle.readTail version tail
      cases (header.readBody version body).needle.readTail version tail <;> rfl

theorem readInSteps_of_readable (version : Version)
    (readable : file.readHeader offset = .ok header) :
    file.readInSteps offset version =
      (file.readBody header version (offset + Record.headerLength)
        (Record.restLength version header.size.length)).result := by
  rw [readInSteps, readable]
  rfl

/-- A record that is all in the file is cut at the same places in one step and in two. -/
theorem readInSteps_of_le {version : Version} (readable : file.readHeader offset = .ok header)
    (live : 0 ≤ header.size.value.toInt)
    (inside : offset + Record.length version header.size.length ≤ file.contents.length) :
    file.readInSteps offset version = file.readNeedle offset header.size version := by
  have announced := headerOf_slice readable
  generalize rest : file.contents.slice (offset + Record.headerLength)
    (Record.restLength version header.size.length) = bytes
  have whole : file.contents.slice offset (Record.length version header.size.length) =
      file.contents.slice offset Record.headerLength ++ bytes := by
    rw [Record.length, Bytes.slice_add, rest]
  have onward : offset + Record.headerLength + Record.restLength version header.size.length ≤
      file.contents.length := by
    rwa [Record.length, ← Nat.add_assoc] at inside
  have count : bytes.length = Record.restLength version header.size.length := by
    rw [← rest, Bytes.length_slice]
    omega
  unfold Record.restLength at count
  have long : header.size.length ≤ bytes.length := by omega
  obtain ⟨body, tail, rfl, size⟩ := Needle.exists_front long
  rw [List.length_append] at count
  have number : header.size.value.toInt = body.length := by
    rw [size, Size.length, Int.toNat_of_nonneg live]
  have enough : Record.tailLength version ≤ tail.length := by omega
  calc file.readInSteps offset version
      = (header.readBody version body).result >>= fun needle => needle.readTail version tail := by
        rw [readInSteps_of_readable version readable, result_readBody onward rest size]
    _ = Needle.decode (file.contents.slice offset Record.headerLength ++ (body ++ tail)) version :=
        (Needle.decode_append announced number enough).symm
    _ = Needle.decodeIndexed (file.contents.slice offset Record.headerLength ++ (body ++ tail))
          header.size version :=
        (Needle.decodeIndexed_of_readHeader (announced.readHeader _) rfl version).symm
    _ = file.readNeedle offset header.size version := by
        rw [readNeedle, readRecord, readExact_of_le inside, whole]
        rfl

/-- If the file ends within a record, both ways run out of bytes. -/
theorem errors_of_lt {version : Version} (readable : file.readHeader offset = .ok header)
    (beyond : file.contents.length < offset + Record.length version header.size.length) :
    (∃ problem, file.readInSteps offset version = .error (.file problem)) ∧
      ∃ problem, file.readNeedle offset header.size version = .error (.file problem) := by
  have some := Record.restLength_pos version header.size.length
  constructor
  · rw [Record.length, ← Nat.add_assoc] at beyond
    obtain ⟨problem, short⟩ := readExact_of_lt some beyond
    refine ⟨problem, ?_⟩
    rw [readInSteps_of_readable version readable, readBody, if_neg (Nat.ne_of_gt some), short]
    rfl
  · have whole : 0 < Record.length version header.size.length :=
      Nat.lt_of_lt_of_le some (Nat.le_add_left ..)
    obtain ⟨problem, short⟩ := readExact_of_lt whole beyond
    refine ⟨problem, ?_⟩
    rw [readNeedle, readRecord, short]
    rfl

/-- A needle whose size is not negative is read alike in one step and in two: both ways give the
same needle, or both fail with an error of the same kind. Unless the file ends within the record,
the errors are the same. -/
theorem readInSteps_agrees (version : Version) (readable : file.readHeader offset = .ok header)
    (live : 0 ≤ header.size.value.toInt) :
    (file.readInSteps offset version).mapError Error.kind =
        (file.readNeedle offset header.size version).mapError Error.kind ∧
      (offset + Record.length version header.size.length ≤ file.contents.length →
        file.readInSteps offset version = file.readNeedle offset header.size version) := by
  constructor
  · rcases Nat.lt_or_ge file.contents.length
      (offset + Record.length version header.size.length) with beyond | inside
    · obtain ⟨⟨_, steps⟩, _, whole⟩ := errors_of_lt readable beyond
      rw [steps, whole]
      rfl
    · rw [readInSteps_of_le readable live inside]
  · intro inside
    exact readInSteps_of_le readable live inside

/-- A record behind eight other bytes, and what both ways come to if its last byte is missing. -/
theorem record_without_last_byte_reads_alike :
    let needle : Needle := { cookie := 7, id := 9, data := [1, 2], flags := ⟨2⟩, name := [97] }
    let file : File := { contents := Bytes.zeros 8 ++ needle.record .v3 }
    let cut : File := { contents := file.contents.take 47 }
    let size := (needle.sized .v3).size
    file.contents.length = 48 ∧
      file.readHeader 8 = .ok { cookie := 7, id := 9, size } ∧
      cut.readHeader 8 = .ok { cookie := 7, id := 9, size } ∧
      0 ≤ size.value.toInt ∧
      file.readInSteps 8 .v3 = .ok (needle.stored .v3) ∧
      file.readNeedle 8 size .v3 = .ok (needle.stored .v3) ∧
      (cut.readInSteps 8 .v3).mapError Error.kind = .error .file ∧
      (cut.readNeedle 8 size .v3).mapError Error.kind = .error .file := by
  intro needle file cut size
  have whole : file.readHeader 8 = .ok { cookie := 7, id := 9, size } := by decide +kernel
  have front : cut.readHeader 8 = .ok { cookie := 7, id := 9, size } := by decide +kernel
  have live : 0 ≤ size.value.toInt := by decide +kernel
  have steps : file.readInSteps 8 .v3 = .ok (needle.stored .v3) := by decide +kernel
  have short : (cut.readInSteps 8 .v3).mapError Error.kind = .error .file := by decide +kernel
  have same := (readInSteps_agrees .v3 whole live).2 (by decide +kernel)
  have alike := (readInSteps_agrees .v3 front live).1
  exact ⟨by decide +kernel, whole, front, live, steps, same ▸ steps, short, alike ▸ short⟩

end File

end Haystack
