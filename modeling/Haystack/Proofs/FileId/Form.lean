import Haystack.Proofs.FileId.Positions

/-!
# The form of file ids

Here is said which texts are file ids, and of what, by the parts they are put together from and
without a reader. A text of this form is read as that file id. Every other text fails at one of the
checks before a part is used, so that no conversion behind the checks can fail.
-/

namespace Haystack.FileId

open Numeral

/-- Nine to twenty-four hexadecimal digits, the last eight of which write the cookie. -/
inductive Hash : List Char → (key cookie : Nat) → Prop
  | intro {front back : List Char} {key cookie : Nat} (some : 1 ≤ front.length)
      (most : front.length ≤ 16) (eight : back.length = 8) (first : Spells 16 front key)
      (last : Spells 16 back cookie) : Hash (front ++ back) key cookie

/-- What stands between the comma and the extension: a hash, maybe with a number behind its last
underscore that is added to the key. -/
inductive KeyPart : List Char → NeedleId → Cookie → Prop
  | plain {digits : List Char} {key cookie : Nat} (hash : Hash digits key cookie) :
      KeyPart digits (UInt64.ofNat key) (UInt32.ofNat cookie)
  | shifted {digits number : List Char} {key cookie delta : Nat} (hash : Hash digits key cookie)
      (last : '_' ∉ number) (writes : Writes 10 number delta) (below : delta < 2 ^ (64 : Nat)) :
      KeyPart (digits ++ '_' :: number) (UInt64.ofNat ((key + delta) % 2 ^ (64 : Nat)))
        (UInt32.ofNat cookie)

/-- A file id: the number of a volume, a comma, a key part and maybe an extension. -/
inductive Form : List Char → FileId → Prop
  | bare {number part : List Char} {volume : Nat} {key : NeedleId} {cookie : Cookie}
      (first : ',' ∉ number) (writes : Writes 10 number volume) (below : volume < 2 ^ (32 : Nat))
      (whole : '.' ∉ part) (keyPart : KeyPart part key cookie) :
      Form (number ++ ',' :: part) { volume := UInt32.ofNat volume, key, cookie }
  | extended {number part extension : List Char} {volume : Nat} {key : NeedleId} {cookie : Cookie}
      (first : ',' ∉ number) (writes : Writes 10 number volume) (below : volume < 2 ^ (32 : Nat))
      (whole : '.' ∉ part) (keyPart : KeyPart part key cookie) :
      Form (number ++ ',' :: (part ++ '.' :: extension))
        { volume := UInt32.ofNat volume, key, cookie }

section Parts

variable {text digits : List Char} {value : Nat}

theorem parse_key (some : text ≠ []) (spells : Spells 16 text value) (fits : value < 2 ^ (64 : Nat)) :
    NeedleId.parse (String.ofList text) = .ok (UInt64.ofNat value) := by
  have read : hex64 text = .ok value :=
    (read_eq_ok_iff (Nat.le_refl 16)).mpr ⟨.unsigned some spells, by omega⟩
  rw [NeedleId.parse, String.toList_ofList, read]

theorem parse_cookie (eight : text.length = 8) (spells : Spells 16 text value) :
    Cookie.parse (String.ofList text) = .ok (UInt32.ofNat value) := by
  have fits : value < 2 ^ 32 := by
    have bound := spells.lt
    rwa [eight] at bound
  have some : text ≠ [] := List.ne_nil_of_length_pos (by omega)
  have read : hex32 text = .ok value :=
    (read_eq_ok_iff (Nat.le_refl 16)).mpr ⟨.unsigned some spells, by omega⟩
  have length : (String.ofList text).utf8ByteSize = 8 := by
    rw [utf8ByteSize_ofList, byteLength_of_single, eight]
    intro c inside
    rcases spells.exists_digit inside with ⟨digit, shape⟩
    exact shape.utf8Size (Nat.le_refl 16)
  rw [Cookie.parse, if_neg (by omega), String.toList_ofList, read]

theorem Hash.isHex {key cookie : Nat} (hash : Hash digits key cookie) :
    (digits.all fun c => (digitOf? 16 c).isSome) = true := by
  apply all_digits_iff.mpr
  intro c inside
  cases hash with
  | intro some most eight first last =>
      rcases List.mem_append.mp inside with inside | inside
      · exact first.exists_digit inside
      · exact last.exists_digit inside

theorem Hash.not_mem {key cookie : Nat} (hash : Hash digits key cookie) {separator : Char}
    (strange : digitOf? 16 separator = none) : separator ∉ digits := by
  intro inside
  have digit := List.all_eq_true.mp hash.isHex separator inside
  rw [strange] at digit
  contradiction

/-- What the reader makes of a hash, with whatever delta stands behind it. -/
theorem parseKeyCookie_of_hash {chars : List Char} {key cookie : Nat} {delta : Option (List Char)}
    (split : splitDelta chars = (digits, delta)) (hash : Hash digits key cookie) :
    parseKeyCookie chars =
      (addDelta (String.ofList chars) (UInt64.ofNat key) delta).map
        fun key => (key, UInt32.ofNat cookie) := by
  have hex := hash.isHex
  have length := byteLength_of_digits hex
  cases hash with
  | @intro front back key cookie some most eight first last =>
      have fits : key < 2 ^ 64 :=
        calc key
          _ < 16 ^ front.length := first.lt
          _ ≤ 16 ^ 16 := Nat.pow_le_pow_right (by decide) most
          _ = 2 ^ 64 := by decide
      have border : (front ++ back).length - 8 = front.length := by
        rw [List.length_append]
        omega
      have bounds : 8 < (front ++ back).length ∧ (front ++ back).length ≤ 24 := by
        rw [List.length_append]
        omega
      rw [parseKeyCookie, split]
      dsimp only
      rw [length, if_neg (by omega), if_neg (by omega), hex, border, List.take_left, List.drop_left,
        parse_key (List.ne_nil_of_length_pos some) first fits, parse_cookie eight last]
      change (addDelta (String.ofList chars) (UInt64.ofNat key) delta >>= fun key =>
        pure (key, UInt32.ofNat cookie)) = _
      cases addDelta (String.ofList chars) (UInt64.ofNat key) delta <;> rfl

end Parts

section Reading

variable {chars text : List Char}

theorem KeyPart.parse {key : NeedleId} {cookie : Cookie} (part : KeyPart chars key cookie) :
    parseKeyCookie chars = .ok (key, cookie) := by
  cases part with
  | plain hash => exact parseKeyCookie_of_hash (splitDelta_of_not_mem (hash.not_mem rfl)) hash
  | @shifted digits number key cookie delta hash last writes below =>
      have some : digits ≠ [] := by
        cases hash with
        | intro some => exact List.append_ne_nil_of_left_ne_nil (List.ne_nil_of_length_pos some) _
      have sum : UInt64.ofNat key + UInt64.ofNat delta =
          UInt64.ofNat ((key + delta) % 2 ^ (64 : Nat)) := by
        apply UInt64.toNat_inj.mp
        simp
      rw [parseKeyCookie_of_hash (splitDelta_append some last) hash, addDelta,
        decimal64_eq_ok_iff.mpr ⟨writes, below⟩]
      dsimp only
      rw [sum]
      rfl

/-- Nine to twenty-four digits are a hash of some key and cookie. -/
theorem exists_hash {digits : List Char} (least : 8 < digits.length) (most : digits.length ≤ 24)
    (hex : (digits.all fun c => (digitOf? 16 c).isSome) = true) :
    ∃ key cookie, Hash digits key cookie := by
  have shapes := all_digits_iff.mp hex
  rcases exists_spells fun c inside => shapes c (List.mem_of_mem_take inside) with ⟨key, first⟩
  rcases exists_spells fun c inside => shapes c (List.mem_of_mem_drop inside) with ⟨cookie, last⟩
  have hash :
      Hash (digits.take (digits.length - 8) ++ digits.drop (digits.length - 8)) key cookie := by
    refine .intro ?_ ?_ ?_ first last
    · rw [List.length_take]
      omega
    · rw [List.length_take]
      omega
    · rw [List.length_drop]
      omega
  rw [List.take_append_drop] at hash
  exact ⟨key, cookie, hash⟩

/-- The part before a delta is a hash, or is rejected. -/
theorem hash_or_invalid {digits : List Char} {delta : Option (List Char)}
    (split : splitDelta chars = (digits, delta)) :
    (∃ key cookie, Hash digits key cookie) ∨
      ∃ problem, parseKeyCookie chars = .error (.invalidFileId problem) := by
  rw [parseKeyCookie, split]
  dsimp only
  by_cases least : byteLength digits ≤ 8
  · rw [if_pos least]
    exact .inr ⟨_, rfl⟩
  · by_cases most : 24 < byteLength digits
    · rw [if_neg least, if_pos most]
      exact .inr ⟨_, rfl⟩
    · cases hex : digits.all fun c => (digitOf? 16 c).isSome with
      | false =>
          rw [if_neg least, if_neg most]
          exact .inr ⟨_, rfl⟩
      | true =>
          rw [byteLength_of_digits hex] at least most
          exact .inl (exists_hash (Nat.not_le.mp least) (Nat.not_lt.mp most) hex)

theorem splitDelta_cases (chars : List Char) :
    splitDelta chars = (chars, none) ∨
      ∃ front back, chars = front ++ '_' :: back ∧ '_' ∉ back ∧
        splitDelta chars = (front, some back) := by
  by_cases inside : '_' ∈ chars
  · rcases eq_append_of_mem inside with ⟨front, back, rfl, absent⟩
    cases front with
    | nil => exact .inl (splitDelta_cons absent)
    | cons c front =>
        exact .inr ⟨_, _, rfl, absent, splitDelta_append (List.cons_ne_nil c front) absent⟩
  · exact .inl (splitDelta_of_not_mem inside)

/-- A key part has its form, or is rejected. -/
theorem keyPart_or_invalid (chars : List Char) :
    (∃ key cookie, KeyPart chars key cookie) ∨
      ∃ problem, parseKeyCookie chars = .error (.invalidFileId problem) := by
  rcases splitDelta_cases chars with split | ⟨digits, number, rfl, last, split⟩
  · rcases hash_or_invalid split with ⟨key, cookie, hash⟩ | invalid
    · exact .inl ⟨_, _, .plain hash⟩
    · exact .inr invalid
  · rcases hash_or_invalid split with ⟨key, cookie, hash⟩ | invalid
    · cases read : decimal64 number with
      | ok delta =>
          rcases decimal64_eq_ok_iff.mp read with ⟨writes, below⟩
          exact .inl ⟨_, _, .shifted hash last writes below⟩
      | error problem =>
          rw [parseKeyCookie_of_hash split hash, addDelta, read]
          exact .inr ⟨_, rfl⟩
    · exact .inr invalid

theorem parse_volume_eq_ok {number : List Char} {volume : Nat} (writes : Writes 10 number volume)
    (below : volume < 2 ^ (32 : Nat)) :
    VolumeId.parse (String.ofList number) = .ok (UInt32.ofNat volume) := by
  rw [VolumeId.parse, String.toList_ofList, decimal32_eq_ok_iff.mpr ⟨writes, below⟩]

theorem Writes.isEmpty {number : List Char} {volume : Nat} (writes : Writes 10 number volume) :
    number.isEmpty = false := by
  rw [List.isEmpty_eq_false_iff]
  cases writes with
  | unsigned some spells => exact some
  | signed some spells => exact List.cons_ne_nil _ _

/-- What the reader makes of a volume's number before the first comma, with whatever stands behind
it. -/
theorem parse_of_volume {number rest : List Char} {volume : Nat}
    (same : text = number ++ ',' :: rest) (first : ',' ∉ number)
    (writes : Writes 10 number volume) (below : volume < 2 ^ (32 : Nat)) :
    parse (String.ofList text) =
      (parseKeyCookie (splitFirst '.' rest).1).map fun (key, cookie) =>
        { volume := UInt32.ofNat volume, key, cookie } := by
  rw [parse, String.toList_ofList, same, splitFirst_append first]
  dsimp only
  rw [Writes.isEmpty writes, parse_volume_eq_ok writes below]
  cases parseKeyCookie (splitFirst '.' rest).1 <;> rfl

theorem Form.parse {id : FileId} (form : Form text id) : parse (String.ofList text) = .ok id := by
  cases form with
  | bare first writes below whole keyPart =>
      rw [parse_of_volume rfl first writes below, splitFirst_of_not_mem whole, keyPart.parse]
      rfl
  | extended first writes below whole keyPart =>
      rw [parse_of_volume rfl first writes below, splitFirst_append whole, keyPart.parse]
      rfl

theorem parse_of_form {text : String} {id : FileId} (form : Form text.toList id) :
    parse text = .ok id := by
  have read := form.parse
  rwa [String.ofList_toList] at read

theorem splitFirst_cases (separator : Char) (text : List Char) :
    splitFirst separator text = (text, none) ∧ separator ∉ text ∨
      ∃ front back, text = front ++ separator :: back ∧ separator ∉ front ∧
        splitFirst separator text = (front, some back) := by
  by_cases inside : separator ∈ text
  · rcases List.eq_append_cons_of_mem inside with ⟨front, back, rfl, absent⟩
    exact .inr ⟨front, back, rfl, absent, splitFirst_append absent back⟩
  · exact .inl ⟨splitFirst_of_not_mem inside, inside⟩

/-- Before the first comma there is the number of a volume, or the text is rejected. -/
theorem volume_or_invalid {number rest : List Char} (first : ',' ∉ number) :
    (∃ volume, Writes 10 number volume ∧ volume < 2 ^ (32 : Nat)) ∨
      ∃ problem, parse (String.ofList (number ++ ',' :: rest)) =
        .error (.invalidFileId problem) := by
  rw [parse, String.toList_ofList, splitFirst_append first]
  dsimp only
  cases empty : number.isEmpty with
  | true => exact .inr ⟨_, rfl⟩
  | false =>
      cases read : decimal32 number with
      | ok volume => exact .inl ⟨volume, decimal32_eq_ok_iff.mp read⟩
      | error problem =>
          rw [VolumeId.parse, String.toList_ofList, read]
          exact .inr ⟨_, rfl⟩

/-- A text has the form of a file id, or is rejected. -/
theorem form_or_invalid (text : List Char) :
    (∃ id, Form text id) ∨
      ∃ problem, parse (String.ofList text) = .error (.invalidFileId problem) := by
  rcases splitFirst_cases ',' text with ⟨split, -⟩ | ⟨number, rest, rfl, first, -⟩
  · rw [parse, String.toList_ofList, split]
    exact .inr ⟨_, rfl⟩
  · rcases volume_or_invalid first with ⟨volume, writes, below⟩ | invalid
    · rw [parse_of_volume rfl first writes below]
      rcases keyPart_or_invalid (splitFirst '.' rest).1 with ⟨key, cookie, keyPart⟩ | invalid
      · rcases splitFirst_cases '.' rest with ⟨split, whole⟩ | ⟨part, extension, rfl, whole, split⟩
        · rw [split] at keyPart
          exact .inl ⟨_, .bare first writes below whole keyPart⟩
        · rw [split] at keyPart
          exact .inl ⟨_, .extended first writes below whole keyPart⟩
      · rcases invalid with ⟨problem, failed⟩
        rw [failed]
        exact .inr ⟨problem, rfl⟩
    · exact .inr invalid

/-- Reading decides the form of file ids, and never cuts the text outside it or inside a character:
a text is read as the file id whose form it has, and a text of no such form is rejected. -/
theorem parse_decides_form (text : String) :
    parseAt text = some (parse text) ∧
      (∀ id, parse text = .ok id ↔ Form text.toList id) ∧
      ((∃ id, Form text.toList id) ∨
        ∃ problem, parse text = .error (.invalidFileId problem)) := by
  have either := form_or_invalid text.toList
  rw [String.ofList_toList] at either
  refine ⟨parseAt_eq_some text, fun id => ⟨fun read => ?_, parse_of_form⟩, either⟩
  rcases either with ⟨other, form⟩ | ⟨problem, failed⟩
  · rw [parse_of_form form] at read
    cases read
    exact form
  · rw [failed] at read
    contradiction

end Reading

end Haystack.FileId
