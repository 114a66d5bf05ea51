import Haystack.Needle.Decode
import Haystack.Needle.Encode

/-!
# Fields of a body

Reading a flagged field where it was written takes off its bytes and no more, whatever follows it.
A flagged field is never written as no bytes at all, so that the reader, which passes over flagged
fields once the body is used up, does not pass over one that was written.
-/

namespace Haystack.Needle

/-- The fields of a needle are no longer than what their lengths can be written as. -/
structure Fits (needle : Needle) : Prop where
  name : needle.name.length ≤ maxNameLength
  mime : needle.mime.length ≤ maxMimeLength
  pairs : needle.pairs.length ≤ maxPairsLength
  data : needle.data.length ≤ maxBodyLength

theorem fits_trimmed {needle : Needle} (small : needle.tooLarge? = none) :
    needle.trimmed.Fits := by
  unfold tooLarge? at small
  split at small
  · contradiction
  · rename_i mime
    split at small
    · contradiction
    · rename_i pairs
      split at small
      · contradiction
      · rename_i data
        refine ⟨?_, Nat.le_of_not_lt mime, Nat.le_of_not_lt pairs, Nat.le_of_not_lt data⟩
        simp only [trimmed, List.length_take]
        exact Nat.min_le_left _ _

theorem takeField_append (field : BodyField) (front rest : Bytes) :
    takeField field front.length (front ++ rest) = .ok (front, rest) := by
  unfold takeField
  rw [if_neg (by simp), List.take_left, List.drop_left]

theorem takeCounted_counted (lengthField field : BodyField) {width : Nat} {bytes : Bytes}
    (fits : bytes.length < 256 ^ width) (rest : Bytes) :
    takeCounted lengthField field width (counted width bytes ++ rest) = .ok (bytes, rest) := by
  have length := takeField_append lengthField (.ofNat width bytes.length) (bytes ++ rest)
  rw [Bytes.length_ofNat] at length
  rw [takeCounted, counted, List.append_assoc, length]
  change takeField field (Bytes.ofNat width bytes.length).toNat (bytes ++ rest) = _
  rw [Bytes.toNat_ofNat, Nat.mod_eq_of_lt fits, takeField_append]

theorem counted_ne_nil {width : Nat} (positive : 0 < width) (bytes : Bytes) :
    counted width bytes ≠ [] := by
  intro empty
  have length := congrArg List.length empty
  simp only [counted, List.length_append, Bytes.length_ofNat, List.length_nil] at length
  omega

/-- Reading a field under its flag takes off what was written under it. -/
theorem readFlagged_flagged {needle read next : Needle} {flag : Flag} {bytes rest : Bytes}
    {step : Reading → Except Error Reading} (flags : read.flags = needle.flags)
    (written : bytes ≠ [])
    (reads : step { needle := read, rest := bytes ++ rest } = .ok { needle := next, rest }) :
    readFlagged flag step { needle := read, rest := needle.flagged flag bytes ++ rest } =
      .ok { needle := if needle.has flag then next else read, rest } := by
  have same : read.has flag = needle.has flag := by rw [has, has, flags]
  unfold readFlagged flagged
  cases marked : needle.has flag with
  | false => simp [same, marked]
  | true =>
      have full : (bytes ++ rest).isEmpty = false := by
        rw [List.isEmpty_eq_false_iff]
        exact fun empty => written (List.append_eq_nil_iff.mp empty).1
      simp [same, marked, full, reads]

theorem takeSteps_cons {step : Reading → Except Error Reading}
    {steps : List (Reading → Except Error Reading)} {state next : Reading}
    (reads : step state = .ok next) : takeSteps (step :: steps) state = takeSteps steps next := by
  rw [takeSteps, reads]

theorem readFlags_cons (read : Needle) (flags : Flags) (rest : Bytes) :
    readFlags { needle := read, rest := flags.bits :: rest } =
      .ok { needle := { read with flags }, rest } := rfl

section

variable {needle read : Needle}

theorem readData_counted (fits : needle.Fits) (rest : Bytes) :
    readData { needle := read, rest := counted 4 needle.data ++ rest } =
      .ok { needle := { read with data := needle.data }, rest } := by
  have bound := fits.data
  unfold maxBodyLength at bound
  rw [readData, takeCounted_counted _ _ (by omega)]
  rfl

theorem readName_flagged (fits : needle.Fits) (flags : read.flags = needle.flags) (rest : Bytes) :
    readFlagged .name readName
        { needle := read, rest := needle.flagged .name (counted 1 needle.name) ++ rest } =
      .ok { needle := { read with name := if needle.has .name then needle.name else read.name }
            rest } := by
  have bound := fits.name
  unfold maxNameLength at bound
  have reads : readName { needle := read, rest := counted 1 needle.name ++ rest } =
      .ok { needle := { read with name := needle.name }, rest } := by
    rw [readName, takeCounted_counted _ _ (by omega)]
    rfl
  rw [readFlagged_flagged flags (counted_ne_nil (by decide) _) reads]
  split <;> rfl

theorem readMime_flagged (fits : needle.Fits) (flags : read.flags = needle.flags) (rest : Bytes) :
    readFlagged .mime readMime
        { needle := read, rest := needle.flagged .mime (counted 1 needle.mime) ++ rest } =
      .ok { needle := { read with mime := if needle.has .mime then needle.mime else read.mime }
            rest } := by
  have bound := fits.mime
  unfold maxMimeLength at bound
  have reads : readMime { needle := read, rest := counted 1 needle.mime ++ rest } =
      .ok { needle := { read with mime := needle.mime }, rest } := by
    rw [readMime, takeCounted_counted _ _ (by omega)]
    rfl
  rw [readFlagged_flagged flags (counted_ne_nil (by decide) _) reads]
  split <;> rfl

/-- Of the time of modification forty bits come back. -/
theorem readLastModified_flagged (flags : read.flags = needle.flags) (rest : Bytes) :
    readFlagged .lastModified readLastModified
        { needle := read
          rest := needle.flagged .lastModified (.ofNat 5 needle.lastModified.toNat) ++ rest } =
      .ok { needle :=
              { read with
                lastModified :=
                  if needle.has .lastModified then
                    UInt64.ofNat (needle.lastModified.toNat % 2 ^ (40 : Nat))
                  else read.lastModified }
            rest } := by
  have taken := takeField_append .lastModified (.ofNat 5 needle.lastModified.toNat) rest
  rw [Bytes.length_ofNat] at taken
  have reads : readLastModified
      { needle := read, rest := .ofNat 5 needle.lastModified.toNat ++ rest } =
        .ok { needle :=
                { read with lastModified := UInt64.ofNat (needle.lastModified.toNat % 2 ^ (40 : Nat)) }
              rest } := by
    have range : (256 : Nat) ^ 5 = 2 ^ 40 := rfl
    rw [readLastModified, taken]
    change Except.ok _ = _
    rw [Bytes.toNat_ofNat, range]
  rw [readFlagged_flagged flags (by simp [Bytes.ofNat]) reads]
  split <;> rfl

/-- A lifetime that is missing under its flag comes back as the one that never ends. -/
theorem readTtl_flagged (flags : read.flags = needle.flags) (rest : Bytes) :
    readFlagged .ttl readTtl
        { needle := read
          rest := needle.flagged .ttl (needle.ttl.getD .forever).toBytes ++ rest } =
      .ok { needle :=
              { read with
                ttl := if needle.has .ttl then some (needle.ttl.getD .forever) else read.ttl }
            rest } := by
  have taken := takeField_append .ttl (needle.ttl.getD .forever).toBytes rest
  rw [Ttl.length_toBytes] at taken
  have same := Ttl.ofBytes_toBytes (needle.ttl.getD .forever) []
  rw [List.append_nil] at same
  have reads : readTtl { needle := read, rest := (needle.ttl.getD .forever).toBytes ++ rest } =
      .ok { needle := { read with ttl := some (needle.ttl.getD .forever) }, rest } := by
    rw [readTtl, taken]
    change Except.ok _ = _
    rw [same]
  rw [readFlagged_flagged flags (by simp [Ttl.toBytes]) reads]
  split <;> rfl

theorem readPairs_flagged (fits : needle.Fits) (flags : read.flags = needle.flags)
    (rest : Bytes) :
    readFlagged .pairs readPairs
        { needle := read, rest := needle.flagged .pairs (counted 2 needle.pairs) ++ rest } =
      .ok { needle :=
              { read with pairs := if needle.has .pairs then needle.pairs else read.pairs }
            rest } := by
  have bound := fits.pairs
  unfold maxPairsLength at bound
  have reads : readPairs { needle := read, rest := counted 2 needle.pairs ++ rest } =
      .ok { needle := { read with pairs := needle.pairs }, rest } := by
    rw [readPairs, takeCounted_counted _ _ (by omega)]
    rfl
  rw [readFlagged_flagged flags (counted_ne_nil (by decide) _) reads]
  split <;> rfl

/-- Reading a body of all the fields gives the fields that were written. -/
theorem takeSteps_fields (fits : needle.Fits) (read : Needle) :
    takeSteps bodySteps
        { needle := read
          rest := counted 4 needle.data ++ needle.flags.bits :: needle.fieldBytes } =
      { needle :=
          { read with
            data := needle.data
            flags := needle.flags
            name := if needle.has .name then needle.name else read.name
            mime := if needle.has .mime then needle.mime else read.mime
            lastModified :=
              if needle.has .lastModified then UInt64.ofNat (needle.lastModified.toNat % 2 ^ (40 : Nat))
              else read.lastModified
            ttl := if needle.has .ttl then some (needle.ttl.getD .forever) else read.ttl
            pairs := if needle.has .pairs then needle.pairs else read.pairs } } := by
  have fields : needle.fieldBytes = needle.fieldBytes ++ [] := (List.append_nil _).symm
  rw [fields]
  unfold fieldBytes
  simp only [List.append_assoc]
  refine Eq.trans (takeSteps_cons (readData_counted fits _)) ?_
  refine Eq.trans (takeSteps_cons (readFlags_cons _ _ _)) ?_
  refine Eq.trans (takeSteps_cons (readName_flagged fits (by rfl) _)) ?_
  refine Eq.trans (takeSteps_cons (readMime_flagged fits (by rfl) _)) ?_
  refine Eq.trans (takeSteps_cons (readLastModified_flagged (by rfl) _)) ?_
  refine Eq.trans (takeSteps_cons (readTtl_flagged (by rfl) _)) ?_
  exact takeSteps_cons (readPairs_flagged fits (by rfl) _)

end

end Haystack.Needle
