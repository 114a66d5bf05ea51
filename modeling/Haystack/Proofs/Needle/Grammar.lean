import Haystack.Proofs.Needle.Cursor
import Haystack.Proofs.Needle.Fields

/-!
# The grammar of records

Here is said which byte strings are records of which needles, and which are damaged in which way,
in terms of the parts they are made of and without a reader. The cases leave no byte string out,
and what a case says is what decoding comes to; so decoding decides the grammar, and no byte string
falls under two cases with different outcomes.
-/

namespace Haystack

namespace Needle

/-- How a field lies in a body: as a number of bytes that is fixed, or behind a word that counts
its bytes. -/
inductive Shape where
  | fixed (field : BodyField) (length : Nat)
  | counted (lengthField field : BodyField) (width : Nat)

/-- What a part of a body holds of a field that is laid out in a shape: the field's bytes and what
follows them, or the field that the end of the body cuts off. -/
inductive Shape.Holds : Shape → Bytes → Except BodyField (Bytes × Bytes) → Prop
  | fixed {field : BodyField} {length : Nat} {bytes rest : Bytes} (whole : bytes.length = length) :
      (Shape.fixed field length).Holds (bytes ++ rest) (.ok (bytes, rest))
  | fixedCut {field : BodyField} {length : Nat} {rest : Bytes} (short : rest.length < length) :
      (Shape.fixed field length).Holds rest (.error field)
  | counted {lengthField field : BodyField} {width : Nat} {count bytes rest : Bytes}
      (word : count.length = width) (whole : bytes.length = count.toNat) :
      (Shape.counted lengthField field width).Holds (count ++ (bytes ++ rest)) (.ok (bytes, rest))
  | countCut {lengthField field : BodyField} {width : Nat} {rest : Bytes}
      (short : rest.length < width) :
      (Shape.counted lengthField field width).Holds rest (.error lengthField)
  | countedCut {lengthField field : BodyField} {width : Nat} {count rest : Bytes}
      (word : count.length = width) (short : rest.length < count.toNat) :
      (Shape.counted lengthField field width).Holds (count ++ rest) (.error field)

/-- A field that a body has under a flag, and where its bytes go. -/
structure FlaggedField where
  flag : Flag
  shape : Shape
  put : Needle → Bytes → Needle

/-- The flagged fields in the order in which they are stored. -/
def flaggedFields : List FlaggedField :=
  [{ flag := .name
     shape := .counted .name .name 1
     put := fun needle name => { needle with name } },
   { flag := .mime
     shape := .counted .mime .mime 1
     put := fun needle mime => { needle with mime } },
   { flag := .lastModified
     shape := .fixed .lastModified 5
     put := fun needle seconds => { needle with lastModified := UInt64.ofNat seconds.toNat } },
   { flag := .ttl
     shape := .fixed .ttl 2
     put := fun needle ttl => { needle with ttl := some (.ofBytes ttl) } },
   { flag := .pairs
     shape := .counted .pairsSize .pairs 2
     put := fun needle pairs => { needle with pairs } }]

/-- What the part of a body behind the flags says of a needle. -/
inductive FieldsOf : List FlaggedField → Needle → Bytes → Except Error Needle → Prop
  /-- What lies behind the last field does not matter. -/
  | done {needle : Needle} {rest : Bytes} : FieldsOf [] needle rest (.ok needle)
  /-- Fields are absent from a body that is used up, whatever their flags are. -/
  | exhausted {fields : List FlaggedField} {needle : Needle} : FieldsOf fields needle [] (.ok needle)
  | unmarked {field : FlaggedField} {fields : List FlaggedField} {needle : Needle} {rest : Bytes}
      {result : Except Error Needle} (unmarked : needle.has field.flag = false)
      (others : FieldsOf fields needle rest result) : FieldsOf (field :: fields) needle rest result
  | present {field : FlaggedField} {fields : List FlaggedField} {needle : Needle}
      {rest bytes behind : Bytes} {result : Except Error Needle} (remain : rest ≠ [])
      (marked : needle.has field.flag = true) (holds : field.shape.Holds rest (.ok (bytes, behind)))
      (others : FieldsOf fields (field.put needle bytes) behind result) :
      FieldsOf (field :: fields) needle rest result
  | overrun {field : FlaggedField} {fields : List FlaggedField} {needle : Needle} {rest : Bytes}
      {part : BodyField} (remain : rest ≠ []) (marked : needle.has field.flag = true)
      (cut : field.shape.Holds rest (.error part)) :
      FieldsOf (field :: fields) needle rest (.error (.outOfRange part))

def dataShape : Shape := .counted .data .data 4

/-- What a body says of a needle. -/
inductive BodyOf (needle : Needle) : Version → Bytes → Except Error Needle → Prop
  | plain {data : Bytes} : BodyOf needle .v1 data (.ok { needle with data })
  | empty {version : Version} (later : version ≠ .v1) : BodyOf needle version [] (.ok needle)
  | overrun {version : Version} {body : Bytes} {part : BodyField} (later : version ≠ .v1)
      (remain : body ≠ []) (cut : dataShape.Holds body (.error part)) :
      BodyOf needle version body (.error (.outOfRange part))
  | bare {version : Version} {body data : Bytes} (later : version ≠ .v1)
      (holds : dataShape.Holds body (.ok (data, []))) :
      BodyOf needle version body (.ok { needle with data })
  | fields {version : Version} {body data rest : Bytes} {bits : UInt8}
      {result : Except Error Needle} (later : version ≠ .v1)
      (holds : dataShape.Holds body (.ok (data, bits :: rest)))
      (fields : FieldsOf flaggedFields { needle with data, flags := ⟨bits⟩ } rest result) :
      BodyOf needle version body result

/-- The bytes of a header and the needle it announces. -/
inductive HeaderOf : Bytes → Needle → Prop
  | intro {cookie id size : Bytes} (four : cookie.length = 4) (eight : id.length = 8)
      (last : size.length = 4) :
      HeaderOf (cookie ++ (id ++ size))
        { cookie := UInt32.ofNat cookie.toNat
          id := UInt64.ofNat id.toNat
          size := .ofBytes size }

/-- The bytes from the end of a body on, with the checksum and the time stamp they begin with. -/
inductive TailOf : Version → Bytes → UInt32 → UInt64 → Prop
  | plain {version : Version} {sum rest : Bytes} (early : version ≠ .v3) (four : sum.length = 4) :
      TailOf version (sum ++ rest) (UInt32.ofNat sum.toNat) 0
  | stamped {sum stamp rest : Bytes} (four : sum.length = 4) (eight : stamp.length = 8) :
      TailOf .v3 (sum ++ (stamp ++ rest)) (UInt32.ofNat sum.toNat) (UInt64.ofNat stamp.toNat)

/-- What a byte string is as a record: the record of a needle, or damaged in some way. -/
inductive RecordOf (version : Version) : Bytes → Except Error Needle → Prop
  | short {bytes : Bytes} (short : bytes.length < 16) :
      RecordOf version bytes (.error (.sizeMismatch .header bytes.length 16))
  | deleted {front rest : Bytes} {header : Needle} (announced : HeaderOf front header)
      (negative : header.size.value.toInt < 0) :
      RecordOf version (front ++ rest) (.error (.deleted header.id))
  | cut {front rest : Bytes} {header : Needle} {length : Nat} (announced : HeaderOf front header)
      (size : header.size.value.toInt = length)
      (short : rest.length < length + Record.tailLength version) :
      RecordOf version (front ++ rest)
        (.error (.sizeMismatch .record ((front ++ rest).length : Nat)
          (16 + length + Record.tailLength version : Nat)))
  | damaged {front body tail : Bytes} {header : Needle} {stored : UInt32} {stamp : UInt64}
      {problem : Error} (announced : HeaderOf front header)
      (size : header.size.value.toInt = body.length) (behind : TailOf version tail stored stamp)
      (fails : BodyOf header version body (.error problem)) :
      RecordOf version (front ++ (body ++ tail)) (.error problem)
  | corrupt {front body tail : Bytes} {header needle : Needle} {stored : UInt32} {stamp : UInt64}
      (announced : HeaderOf front header) (size : header.size.value.toInt = body.length)
      (behind : TailOf version tail stored stamp)
      (reads : BodyOf header version body (.ok needle)) (filled : needle.data ≠ [])
      (differs : stored ≠ (Checksum.ofBytes needle.data).value) :
      RecordOf version (front ++ (body ++ tail))
        (.error (.checksumMismatch stored (Checksum.ofBytes needle.data).value))
  | accepted {front body tail : Bytes} {header needle : Needle} {stored : UInt32} {stamp : UInt64}
      (announced : HeaderOf front header) (size : header.size.value.toInt = body.length)
      (behind : TailOf version tail stored stamp)
      (reads : BodyOf header version body (.ok needle))
      (same : needle.data = [] ∨ stored = (Checksum.ofBytes needle.data).value) :
      RecordOf version (front ++ (body ++ tail))
        (.ok { needle with checksum := ⟨stored⟩, appendedAt := stamp })

section Parts

variable {field : BodyField} {needle : Needle} {version : Version}

theorem exists_front {bytes : Bytes} {length : Nat} (fits : length ≤ bytes.length) :
    ∃ front rest, bytes = front ++ rest ∧ front.length = length :=
  ⟨bytes.take length, bytes.drop length, (List.take_append_drop length bytes).symm,
    List.length_take_of_le fits⟩

/-- Reading a field of a shape. -/
def Shape.take : Shape → Bytes → Except Error (Bytes × Bytes)
  | .fixed field length => takeField field length
  | .counted lengthField field width => takeCounted lengthField field width

theorem takeField_of_short {length : Nat} {rest : Bytes} (short : rest.length < length) :
    takeField field length rest = .error (.outOfRange field) :=
  if_pos short

theorem takeField_of_whole {length : Nat} {bytes : Bytes} (whole : bytes.length = length)
    (rest : Bytes) : takeField field length (bytes ++ rest) = .ok (bytes, rest) := by
  rw [← whole, takeField_append]

theorem takeCounted_append {lengthField : BodyField} {width : Nat} {count : Bytes}
    (word : count.length = width) (rest : Bytes) :
    takeCounted lengthField field width (count ++ rest) = takeField field count.toNat rest := by
  rw [takeCounted, takeField_of_whole word]
  rfl

theorem Shape.Holds.take {shape : Shape} {rest : Bytes}
    {result : Except BodyField (Bytes × Bytes)} (holds : shape.Holds rest result) :
    shape.take rest = result.mapError .outOfRange := by
  cases holds with
  | fixed whole => exact takeField_of_whole whole _
  | fixedCut short => exact takeField_of_short short
  | counted word whole => exact (takeCounted_append word _).trans (takeField_of_whole whole _)
  | countCut short =>
      rw [Shape.take, takeCounted, takeField_of_short short]
      rfl
  | countedCut word short => exact (takeCounted_append word _).trans (takeField_of_short short)

theorem Shape.exists_holds (shape : Shape) (rest : Bytes) : ∃ result, shape.Holds rest result := by
  cases shape with
  | fixed field length =>
      rcases Nat.lt_or_ge rest.length length with short | fits
      · exact ⟨_, .fixedCut short⟩
      · obtain ⟨bytes, rest, rfl, whole⟩ := exists_front fits
        exact ⟨_, .fixed whole⟩
  | counted lengthField field width =>
      rcases Nat.lt_or_ge rest.length width with short | fits
      · exact ⟨_, .countCut short⟩
      · obtain ⟨count, rest, rfl, word⟩ := exists_front fits
        rcases Nat.lt_or_ge rest.length count.toNat with short | fits
        · exact ⟨_, .countedCut word short⟩
        · obtain ⟨bytes, rest, rfl, whole⟩ := exists_front fits
          exact ⟨_, .counted word whole⟩

end Parts

section Fields

/-- Reading a flagged field. -/
def FlaggedField.read (field : FlaggedField) : Reading → Except Error Reading :=
  readFlagged field.flag fun state => do
    let (bytes, rest) ← field.shape.take state.rest
    return { needle := field.put state.needle bytes, rest }

theorem bodySteps_eq : bodySteps = readData :: readFlags :: flaggedFields.map FlaggedField.read :=
  rfl

variable {field : FlaggedField} {needle : Needle}

theorem FlaggedField.read_of_unmarked (unmarked : needle.has field.flag = false) (rest : Bytes) :
    field.read { needle, rest } = .ok { needle, rest } := by
  rw [read, readFlagged, if_pos (by simp [unmarked])]

theorem FlaggedField.read_exhausted :
    field.read { needle, rest := [] } = .ok { needle, rest := [] } := by
  rw [read, readFlagged, if_pos (by simp)]

theorem FlaggedField.read_of_marked {rest : Bytes} (remain : rest ≠ [])
    (marked : needle.has field.flag = true) {result : Except BodyField (Bytes × Bytes)}
    (holds : field.shape.Holds rest result) :
    field.read { needle, rest } =
      (result.mapError .outOfRange).map fun taken =>
        { needle := field.put needle taken.1, rest := taken.2 } := by
  have full : rest.isEmpty = false := List.isEmpty_eq_false_iff.mpr remain
  rw [read, readFlagged, if_neg (by simp [full, marked])]
  change (field.shape.take rest >>= _) = _
  rw [holds.take]
  cases result <;> rfl

/-- Fields read what the grammar says of them. -/
theorem FieldsOf.result {fields : List FlaggedField} {rest : Bytes} {result : Except Error Needle}
    (derived : FieldsOf fields needle rest result) :
    (takeSteps (fields.map FlaggedField.read) { needle, rest }).result = result := by
  induction derived with
  | done => rfl
  | @exhausted fields needle =>
      induction fields with
      | nil => rfl
      | cons field fields ih =>
          rw [List.map_cons, result_takeSteps_cons, FlaggedField.read_exhausted]
          exact ih
  | unmarked unmarked _ ih =>
      rw [List.map_cons, result_takeSteps_cons, FlaggedField.read_of_unmarked unmarked]
      exact ih
  | present remain marked holds _ ih =>
      rw [List.map_cons, result_takeSteps_cons, FlaggedField.read_of_marked remain marked holds]
      exact ih
  | overrun remain marked cut =>
      rw [List.map_cons, result_takeSteps_cons, FlaggedField.read_of_marked remain marked cut]
      rfl

theorem exists_fieldsOf (fields : List FlaggedField) (needle : Needle) (rest : Bytes) :
    ∃ result, FieldsOf fields needle rest result := by
  induction fields generalizing needle rest with
  | nil => exact ⟨_, .done⟩
  | cons field fields ih =>
      by_cases remain : rest = []
      · subst remain
        exact ⟨_, .exhausted⟩
      · cases marked : needle.has field.flag with
        | false =>
            obtain ⟨result, others⟩ := ih needle rest
            exact ⟨result, .unmarked marked others⟩
        | true =>
            obtain ⟨taken, holds⟩ := field.shape.exists_holds rest
            cases taken with
            | error part => exact ⟨_, .overrun remain marked holds⟩
            | ok taken =>
                obtain ⟨result, others⟩ := ih (field.put needle taken.1) taken.2
                exact ⟨result, .present remain marked holds others⟩

theorem FieldsOf.appendedAt_eq {fields : List FlaggedField} {rest : Bytes} {read : Needle}
    (keep : ∀ field ∈ fields, ∀ needle bytes, (field.put needle bytes).appendedAt = needle.appendedAt)
    (derived : FieldsOf fields needle rest (.ok read)) : read.appendedAt = needle.appendedAt := by
  generalize done : Except.ok read = result at derived
  induction derived with
  | done => exact congrArg appendedAt (Except.ok.inj done)
  | exhausted => exact congrArg appendedAt (Except.ok.inj done)
  | unmarked _ _ ih => exact ih (fun field member => keep field (.tail _ member)) done
  | present _ _ _ _ ih =>
      rw [ih (fun field member => keep field (.tail _ member)) done]
      exact keep _ (.head _) _ _
  | overrun _ _ _ => cases done

end Fields

section Bodies

variable {needle : Needle} {version : Version} {body : Bytes}

theorem readBody_of_later (later : version ≠ .v1) (remain : body ≠ []) :
    needle.readBody version body = takeSteps bodySteps { needle, rest := body } := by
  have full : body.isEmpty = false := List.isEmpty_eq_false_iff.mpr remain
  cases version with
  | v1 => exact absurd rfl later
  | v2 => simp [readBody, Version.hasFields, full]
  | v3 => simp [readBody, Version.hasFields, full]

theorem readData_of_holds {result : Except BodyField (Bytes × Bytes)}
    (holds : dataShape.Holds body result) :
    readData { needle, rest := body } =
      (result.mapError .outOfRange).map fun taken =>
        { needle := { needle with data := taken.1 }, rest := taken.2 } := by
  change (dataShape.take body >>= _) = _
  rw [holds.take]
  cases result <;> rfl

theorem remain_of_holds {taken : Bytes × Bytes} (holds : dataShape.Holds body (.ok taken)) :
    body ≠ [] := by
  rintro rfl
  have reads := holds.take
  contradiction

theorem result_readBody_of_holds {taken : Bytes × Bytes} (later : version ≠ .v1)
    (holds : dataShape.Holds body (.ok taken)) :
    (needle.readBody version body).result =
      readFlags { needle := { needle with data := taken.1 }, rest := taken.2 } >>= fun state =>
        (takeSteps (flaggedFields.map FlaggedField.read) state).result := by
  rw [readBody_of_later later (remain_of_holds holds), bodySteps_eq, result_takeSteps_cons,
    readData_of_holds holds]
  exact result_takeSteps_cons _ _ _

/-- Reading a body gives what the grammar says of it. -/
theorem BodyOf.result {result : Except Error Needle} (derived : BodyOf needle version body result) :
    (needle.readBody version body).result = result := by
  cases derived with
  | plain => rfl
  | empty later =>
      cases version with
      | v1 => exact absurd rfl later
      | v2 => rfl
      | v3 => rfl
  | overrun later remain cut =>
      rw [readBody_of_later later remain, bodySteps_eq, result_takeSteps_cons,
        readData_of_holds cut]
      rfl
  | @bare version body data later holds =>
      have fields : FieldsOf flaggedFields { needle with data } [] (.ok { needle with data }) :=
        .exhausted
      rw [result_readBody_of_holds later holds]
      exact fields.result
  | fields later holds fields =>
      rw [result_readBody_of_holds later holds]
      exact fields.result

theorem exists_bodyOf (needle : Needle) (version : Version) (body : Bytes) :
    ∃ result, BodyOf needle version body result := by
  by_cases later : version = .v1
  · subst later
    exact ⟨_, .plain⟩
  · by_cases remain : body = []
    · subst remain
      exact ⟨_, .empty later⟩
    · obtain ⟨taken, holds⟩ := dataShape.exists_holds body
      rcases taken with part | ⟨data, rest⟩
      · exact ⟨_, .overrun later remain holds⟩
      · cases rest with
        | nil => exact ⟨_, .bare later holds⟩
        | cons bits rest =>
            obtain ⟨result, fields⟩ :=
              exists_fieldsOf flaggedFields { needle with data, flags := ⟨bits⟩ } rest
            exact ⟨result, .fields later holds fields⟩

theorem BodyOf.appendedAt_eq {read : Needle} (derived : BodyOf needle version body (.ok read)) :
    read.appendedAt = needle.appendedAt := by
  cases derived with
  | plain => rfl
  | empty => rfl
  | bare => rfl
  | fields _ _ fields =>
      have keep : ∀ field ∈ flaggedFields, ∀ needle bytes,
          (field.put needle bytes).appendedAt = needle.appendedAt := by
        intro field member needle bytes
        simp only [flaggedFields, List.mem_cons, List.not_mem_nil, or_false] at member
        rcases member with rfl | rfl | rfl | rfl | rfl <;> rfl
      have same := fields.appendedAt_eq keep
      exact same

end Bodies

section Records

variable {front body tail rest : Bytes} {header needle : Needle} {version : Version}
  {stored : UInt32} {stamp : UInt64}

theorem HeaderOf.length_eq (announced : HeaderOf front header) : front.length = 16 := by
  cases announced with
  | intro four eight last => simp only [List.length_append, four, eight, last]

theorem HeaderOf.appendedAt_eq (announced : HeaderOf front header) : header.appendedAt = 0 := by
  cases announced
  rfl

theorem HeaderOf.readHeader (announced : HeaderOf front header) (rest : Bytes) :
    readHeader (front ++ rest) = .ok header := by
  have long : ¬ (front ++ rest).length < Record.headerLength := by
    rw [List.length_append, announced.length_eq, Record.headerLength]
    omega
  rw [Needle.readHeader, if_neg long]
  cases announced with
  | @intro cookie id size four eight last =>
      have first : Bytes.slice (cookie ++ (id ++ size) ++ rest) 0 4 = cookie := by
        rw [List.append_assoc, ← four, Bytes.slice_append]
      have second : Bytes.slice (cookie ++ (id ++ size) ++ rest) 4 8 = id := by
        rw [List.append_assoc, List.append_assoc, ← four, ← eight]
        exact (Bytes.slice_append_add _ _ 0 _).trans (Bytes.slice_append _ _)
      have third : Bytes.slice (cookie ++ (id ++ size) ++ rest) 12 4 = size := by
        have place : 12 = (cookie ++ id).length + 0 := by rw [List.length_append, four, eight]
        rw [← List.append_assoc, List.append_assoc (cookie ++ id), place, Bytes.slice_append_add,
          ← last, Bytes.slice_append]
      rw [Bytes.wordAt, Bytes.wordAt, first, second, third]

theorem exists_headerOf (sixteen : front.length = 16) : ∃ header, HeaderOf front header := by
  obtain ⟨cookie, front, rfl, four⟩ := exists_front (show 4 ≤ front.length by omega)
  rw [List.length_append] at sixteen
  obtain ⟨id, size, rfl, eight⟩ := exists_front (show 8 ≤ front.length by omega)
  rw [List.length_append] at sixteen
  exact ⟨_, .intro four eight (by omega)⟩

theorem headerOf_of_readHeader (sixteen : front.length = 16)
    (read : Needle.readHeader front = .ok header) : HeaderOf front header := by
  obtain ⟨announced, parts⟩ := exists_headerOf sixteen
  have same := parts.readHeader []
  rw [List.append_nil, read] at same
  rwa [← Except.ok.inj same] at parts

theorem TailOf.tailLength_le (behind : TailOf version tail stored stamp) :
    Record.tailLength version ≤ tail.length := by
  cases behind with
  | plain early four =>
      cases version with
      | v1 => simp [Record.tailLength, Record.checksumLength, four]
      | v2 => simp [Record.tailLength, Record.checksumLength, four]
      | v3 => exact absurd rfl early
  | stamped four eight =>
      simp only [Record.tailLength, Record.checksumLength, Record.stampLength, List.length_append,
        four, eight]
      omega

theorem exists_tailOf (long : Record.tailLength version ≤ tail.length) :
    ∃ stored stamp, TailOf version tail stored stamp := by
  have word : 4 ≤ tail.length := by
    cases version <;> simp only [Record.tailLength, Record.checksumLength] at long <;> omega
  obtain ⟨sum, rest, rfl, four⟩ := exists_front word
  by_cases late : version = .v3
  · subst late
    simp only [Record.tailLength, Record.checksumLength, Record.stampLength, List.length_append,
      four] at long
    obtain ⟨stamp, rest, rfl, eight⟩ := exists_front (show 8 ≤ rest.length by omega)
    exact ⟨_, _, .stamped four eight⟩
  · exact ⟨_, _, .plain late four⟩

/-- A tail is read as the grammar says, into a needle that has no time stamp yet. -/
theorem TailOf.readTail (behind : TailOf version tail stored stamp)
    (unstamped : needle.appendedAt = 0) :
    needle.readTail version tail =
      if needle.data ≠ [] ∧ stored ≠ (Checksum.ofBytes needle.data).value then
        .error (.checksumMismatch stored (Checksum.ofBytes needle.data).value)
      else .ok { needle with checksum := ⟨stored⟩, appendedAt := stamp } := by
  have corrupt : (!needle.data.isEmpty && stored != (Checksum.ofBytes needle.data).value) = true ↔
      needle.data ≠ [] ∧ stored ≠ (Checksum.ofBytes needle.data).value := by
    simp
  have plain : { needle with checksum := ⟨stored⟩ } =
      { needle with checksum := ⟨stored⟩, appendedAt := 0 } := by
    rw [← unstamped]
  rw [Needle.readTail, if_neg (Nat.not_lt.mpr behind.tailLength_le)]
  cases behind with
  | @plain version sum rest early four =>
      have word : Bytes.wordAt (sum ++ rest) 0 4 = sum.toNat := by
        rw [Bytes.wordAt, ← four, Bytes.slice_append]
      simp only [word, corrupt]
      cases version with
      | v1 => rw [plain]
      | v2 => rw [plain]
      | v3 => exact absurd rfl early
  | @stamped sum stamp rest four eight =>
      have word : Bytes.wordAt (sum ++ (stamp ++ rest)) 0 4 = sum.toNat := by
        rw [Bytes.wordAt, ← four, Bytes.slice_append]
      have next : Bytes.wordAt (sum ++ (stamp ++ rest)) 4 8 = stamp.toNat := by
        rw [Bytes.wordAt, ← four, ← eight]
        exact congrArg _ ((Bytes.slice_append_add _ _ 0 _).trans (Bytes.slice_append _ _))
      simp only [word, next, corrupt]

/-- A record that is all there is read part by part. -/
theorem decode_append (announced : HeaderOf front header)
    (size : header.size.value.toInt = body.length)
    (long : Record.tailLength version ≤ tail.length) :
    decode (front ++ (body ++ tail)) version =
      (header.readBody version body).result >>= fun needle => needle.readTail version tail := by
  have sixteen := announced.length_eq
  have length : header.size.length = body.length := by rw [Size.length, size, Int.toNat_natCast]
  have live : header.size.isDeleted = false := by simp [Size.isDeleted, size]
  have whole : ¬ (front ++ (body ++ tail)).length <
      Record.headerLength + body.length + Record.tailLength version := by
    simp only [List.length_append, sixteen, Record.headerLength]
    omega
  have inside : Bytes.slice (front ++ (body ++ tail)) Record.headerLength body.length = body := by
    have place : Record.headerLength = front.length + 0 := sixteen.symm
    rw [place, Bytes.slice_append_add, Bytes.slice_append]
  have behind : (front ++ (body ++ tail)).drop (Record.headerLength + body.length) = tail := by
    have place : Record.headerLength + body.length = (front ++ body).length := by
      rw [List.length_append, sixteen, Record.headerLength]
    rw [← List.append_assoc, place, List.drop_left]
  rw [decode, announced.readHeader]
  change header.readRecord version _ = _
  rw [readRecord, live, length, if_neg Bool.false_ne_true, if_neg whole, inside, behind]

/-- Decoding comes to what the grammar says. -/
theorem RecordOf.result {bytes : Bytes} {result : Except Error Needle}
    (derived : RecordOf version bytes result) : decode bytes version = result := by
  cases derived with
  | short short =>
      rw [decode, readHeader, if_pos (show bytes.length < Record.headerLength from short)]
      rfl
  | deleted announced negative =>
      rw [decode, announced.readHeader]
      exact if_pos (decide_eq_true negative)
  | @cut front rest header length announced size short =>
      have same : header.size.length = length := by rw [Size.length, size, Int.toNat_natCast]
      have live : header.size.isDeleted = false := by simp [Size.isDeleted, size]
      have long : (front ++ rest).length <
          Record.headerLength + length + Record.tailLength version := by
        rw [List.length_append, announced.length_eq, Record.headerLength]
        omega
      rw [decode, announced.readHeader]
      change header.readRecord version _ = _
      rw [readRecord, live, same, if_neg Bool.false_ne_true, if_pos long]
      rfl
  | damaged announced size behind fails =>
      rw [decode_append announced size behind.tailLength_le, fails.result]
      rfl
  | corrupt announced size behind reads filled differs =>
      rw [decode_append announced size behind.tailLength_le, reads.result]
      exact (behind.readTail (reads.appendedAt_eq.trans announced.appendedAt_eq)).trans (if_pos ⟨filled, differs⟩)
  | accepted announced size behind reads same =>
      rw [decode_append announced size behind.tailLength_le, reads.result]
      refine (behind.readTail (reads.appendedAt_eq.trans announced.appendedAt_eq)).trans (if_neg ?_)
      rintro ⟨filled, differs⟩
      exact same.elim filled differs

/-- Every byte string falls under a case of the grammar. -/
theorem exists_recordOf (version : Version) (bytes : Bytes) :
    ∃ result, RecordOf version bytes result := by
  rcases Nat.lt_or_ge bytes.length 16 with short | long
  · exact ⟨_, .short short⟩
  · obtain ⟨front, rest, rfl, sixteen⟩ := exists_front long
    obtain ⟨header, announced⟩ := exists_headerOf sixteen
    by_cases negative : header.size.value.toInt < 0
    · exact ⟨_, .deleted announced negative⟩
    · obtain ⟨length, size⟩ := Int.eq_ofNat_of_zero_le (Int.not_lt.mp negative)
      rcases Nat.lt_or_ge rest.length (length + Record.tailLength version) with short | whole
      · exact ⟨_, .cut announced size short⟩
      · obtain ⟨body, tail, rfl, rfl⟩ := exists_front (Nat.le_of_add_right_le whole)
        rw [List.length_append] at whole
        obtain ⟨stored, stamp, behind⟩ := exists_tailOf (Nat.le_of_add_le_add_left whole)
        obtain ⟨result, reads⟩ := exists_bodyOf header version body
        cases result with
        | error problem => exact ⟨_, .damaged announced size behind reads⟩
        | ok needle =>
            by_cases same : needle.data = [] ∨ stored = (Checksum.ofBytes needle.data).value
            · exact ⟨_, .accepted announced size behind reads same⟩
            · exact ⟨_, .corrupt announced size behind reads (not_or.mp same).1 (not_or.mp same).2⟩

/-- Decoding makes no access outside the bytes, and decides the grammar of records: it accepts a
byte string as a needle, or rejects it with an error, exactly where the grammar does. -/
theorem decode_decides_grammar (bytes : Bytes) (version : Version) :
    decodeAt bytes version = some (decode bytes version) ∧
      ∀ result, decode bytes version = result ↔ RecordOf version bytes result := by
  refine ⟨decodeAt_eq_some bytes version, fun result => ⟨?_, RecordOf.result⟩⟩
  rintro rfl
  obtain ⟨result, derived⟩ := exists_recordOf version bytes
  rwa [derived.result]

end Records

end Needle

end Haystack
