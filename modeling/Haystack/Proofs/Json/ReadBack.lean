import Haystack.Proofs.Json.Strings

/-!
# Reading back JSON

Numbers, texts, arrays and objects are read back as they were written, wherever they stand in front
of the end, a comma or a closing bracket. A reader that has as many steps as the text has bytes does
not run out of them.
-/

namespace Haystack.Json

/-- What may follow a value that was written: the end, a comma or a closing bracket. -/
inductive Closes : Bytes → Prop
  | done : Closes []
  | comma (rest : Bytes) : Closes (0x2C :: rest)
  | array (rest : Bytes) : Closes (0x5D :: rest)
  | object (rest : Bytes) : Closes (0x7D :: rest)

/-- A text that is read as a value in front of whatever may follow it. -/
structure ReadAs (text : Bytes) (json : Json) : Prop where
  starts : ∃ first rest, text = first :: rest ∧ isBlank first = false ∧ first ≠ 0x5D
  read : ∀ fuel rest, text.length ≤ fuel → Closes rest →
    readValue fuel (text ++ rest) = some (json, rest)

theorem skipBlanks_cons {first : UInt8} (solid : isBlank first = false) (rest : Bytes) :
    skipBlanks (first :: rest) = first :: rest := by
  rw [skipBlanks, List.dropWhile_cons, solid]
  rfl

theorem Closes.skipBlanks {rest : Bytes} (closes : Closes rest) : skipBlanks rest = rest := by
  cases closes with
  | done => rfl
  | comma rest => exact skipBlanks_cons rfl rest
  | array rest => exact skipBlanks_cons rfl rest
  | object rest => exact skipBlanks_cons rfl rest

section Numbers

/-- The digits of a number as bytes. -/
def digits (value : Nat) : Bytes :=
  (Nat.toDigits 10 value).map fun digit => UInt8.ofNat digit.toNat

theorem encode_of_ascii {text : List Char} (low : ∀ c ∈ text, c.toNat ≤ 127) :
    Utf8.encode text = text.map fun c => UInt8.ofNat c.toNat := by
  induction text with
  | nil => rfl
  | cons c rest ih =>
      have first : String.utf8EncodeChar c = [UInt8.ofNat c.toNat] := by
        have low : c.val.toNat ≤ 127 := low c List.mem_cons_self
        unfold String.utf8EncodeChar
        rw [if_pos low]
        rfl
      have rest := ih fun other member => low other (List.mem_cons_of_mem _ member)
      rw [Utf8.encode, List.flatMap_cons, first, List.map_cons]
      exact congrArg _ rest

theorem isDigit_toDigits {value : Nat} {digit : Char} (member : digit ∈ Nat.toDigits 10 value) :
    48 ≤ digit.toNat ∧ digit.toNat ≤ 57 := by
  have digit := Nat.isDigit_of_mem_toDigits (by decide) (by decide) member
  rw [Char.isDigit, Bool.and_eq_true, decide_eq_true_eq, decide_eq_true_eq] at digit
  exact digit

theorem writeInteger_natCast (value : Nat) : writeInteger value = digits value := by
  have text : (toString (value : Int)).toList = Nat.toDigits 10 value :=
    Nat.toList_repr
  rw [writeInteger, ascii, text, digits, encode_of_ascii]
  intro digit member
  have := (isDigit_toDigits member).2
  omega

theorem mem_digits {value : Nat} {byte : UInt8} (member : byte ∈ digits value) :
    ∃ digit < 10, byte = UInt8.ofNat (48 + digit) := by
  obtain ⟨digit, inside, rfl⟩ := List.mem_map.mp member
  obtain ⟨low, high⟩ := isDigit_toDigits inside
  exact ⟨digit.toNat - 48, by omega, by rw [Nat.add_sub_cancel' low]⟩

theorem isDigit_digits {value : Nat} {byte : UInt8} (member : byte ∈ digits value) :
    isDigit byte = true := by
  obtain ⟨digit, small, rfl⟩ := mem_digits member
  have table : ∀ digit < 10, isDigit (UInt8.ofNat (48 + digit)) = true := by decide
  exact table digit small

theorem decimal_digits (value : Nat) : decimal (digits value) = value := by
  have sum := Nat.ofDigitChars_toDigits (b := 10) (n := value) (by decide) (by decide)
  have same : ∀ (text : List Char) (start : Nat), (∀ c ∈ text, c.toNat ≤ 57) →
      (text.map fun c => UInt8.ofNat c.toNat).foldl
          (fun value byte => value * 10 + (byte.toNat - 0x30)) start =
        Nat.ofDigitChars 10 text start := by
    intro text
    induction text with
    | nil => intro start low; rfl
    | cons c rest ih =>
        intro start low
        have byte : (UInt8.ofNat c.toNat).toNat = c.toNat := by
          have := low c List.mem_cons_self
          rw [UInt8.toNat_ofNat']
          omega
        rw [List.map_cons, List.foldl_cons, Nat.ofDigitChars, List.foldl_cons, byte,
          Nat.mul_comm start]
        exact ih _ fun other member => low other (List.mem_cons_of_mem _ member)
  rw [decimal, digits, same _ _ fun c member => (isDigit_toDigits member).2, sum]

theorem head_toDigits {value : Nat} (positive : 0 < value) :
    ∃ first rest, Nat.toDigits 10 value = first :: rest ∧ first ≠ '0' := by
  induction value using Nat.strongRecOn with
  | ind value ih =>
      rw [Nat.toDigits_eq_if (by decide)]
      by_cases small : value < 10
      · have table : ∀ digit < 10, 0 < digit → digit.digitChar ≠ '0' := by decide
        exact ⟨_, [], if_pos small, table value small positive⟩
      · obtain ⟨first, rest, parts, solid⟩ := ih (value / 10) (by omega) (by omega)
        exact ⟨first, rest ++ [(value % 10).digitChar], by rw [if_neg small, parts]; rfl, solid⟩

theorem digits_cons (value : Nat) :
    ∃ first rest, digits value = first :: rest ∧ (first = 0x30 → rest = []) := by
  by_cases zero : value = 0
  · subst zero
    exact ⟨0x30, [], by decide, fun _ => rfl⟩
  · obtain ⟨first, rest, parts, solid⟩ := head_toDigits (Nat.pos_of_ne_zero zero)
    refine ⟨UInt8.ofNat first.toNat, rest.map fun c => UInt8.ofNat c.toNat,
      by rw [digits, parts, List.map_cons], ?_⟩
    intro same
    have inside : first ∈ Nat.toDigits 10 value := parts ▸ List.mem_cons_self
    have range := isDigit_toDigits inside
    have byte : first.toNat = 48 := by
      have value := congrArg UInt8.toNat same
      rw [UInt8.toNat_ofNat'] at value
      change first.toNat % 256 = 48 at value
      omega
    exact absurd (Char.toNat_inj.mp byte) solid

theorem Closes.takeDigits {rest : Bytes} (closes : Closes rest) {front : Bytes}
    (all : ∀ byte ∈ front, isDigit byte = true) :
    (front ++ rest).takeWhile isDigit = front ∧ (front ++ rest).dropWhile isDigit = rest := by
  have stop : rest.takeWhile isDigit = [] ∧ rest.dropWhile isDigit = rest := by
    cases closes <;> exact ⟨rfl, rfl⟩
  rw [List.takeWhile_append_of_pos all, List.dropWhile_append_of_pos all, stop.1, stop.2,
    List.append_nil]
  exact ⟨rfl, rfl⟩

theorem readWhole_digits (value : Nat) {rest : Bytes} (closes : Closes rest) :
    readWhole (digits value ++ rest) = some (digits value, rest) := by
  obtain ⟨first, more, parts, zero⟩ := digits_cons value
  have all : ∀ byte ∈ digits value, isDigit byte = true := fun byte => isDigit_digits
  obtain ⟨taken, dropped⟩ := closes.takeDigits all
  unfold readWhole
  rw [parts] at taken dropped ⊢
  split
  · rename_i same
    obtain ⟨rfl, rfl⟩ := List.cons.inj same
    rw [zero rfl]
    rfl
  · unfold readSomeDigits readDigits
    rw [taken, dropped]

theorem readUnsigned_digits (value : Nat) {rest : Bytes} (closes : Closes rest) :
    readUnsigned (digits value ++ rest) = some (digits value, rest) := by
  have fraction : readFraction rest = some ([], rest) := by
    cases closes <;> rfl
  have exponent : readExponent rest = some ([], rest) := by
    cases closes <;> rfl
  unfold readUnsigned
  rw [readWhole_digits value closes]
  dsimp only
  rw [fraction]
  dsimp only
  rw [exponent]
  simp

theorem readAs_number (value : Nat) : ReadAs (writeInteger value) (.number (writeInteger value)) := by
  rw [writeInteger_natCast]
  obtain ⟨first, more, parts, -⟩ := digits_cons value
  have member : first ∈ digits value := parts ▸ List.mem_cons_self
  obtain ⟨digit, small, byte⟩ := mem_digits member
  have table : ∀ digit < 10, ∀ first, first = UInt8.ofNat (48 + digit) →
      isBlank first = false ∧ first ≠ 0x5D ∧ first ≠ 0x5B ∧ first ≠ 0x7B ∧ first ≠ quote ∧
        first ≠ 0x6E ∧ first ≠ 0x74 ∧ first ≠ 0x66 ∧ first ≠ 0x2D := by
    simp only [forall_eq]
    decide
  obtain ⟨solid, noEnd, noArray, noObject, noString, noNull, noTrue, noFalse, noSign⟩ :=
    table digit small first byte
  refine ⟨⟨first, more, parts, solid, noEnd⟩, ?_⟩
  intro fuel rest enough closes
  cases fuel with
  | zero =>
      rw [parts] at enough
      exact absurd enough (by simp)
  | succ fuel =>
      have unsigned := readUnsigned_digits value closes
      rw [parts, List.cons_append] at unsigned
      have number : readNumber (first :: (more ++ rest)) = some (.number (first :: more), rest) := by
        unfold readNumber
        split
        · rename_i same
          exact absurd (List.cons.inj same).1 noSign
        · rw [unsigned]
          rfl
      rw [parts, List.cons_append, readValue, skipBlanks_cons solid]
      simp only [noArray, noObject, noString, noNull, noTrue, noFalse, if_false, number]

theorem integerOf?_digits (value : Nat) : integerOf? (digits value) = some (value : Int) := by
  obtain ⟨first, more, parts, -⟩ := digits_cons value
  have digit : isDigit first = true := isDigit_digits (parts ▸ List.mem_cons_self)
  have all : (digits value).all isDigit = true :=
    List.all_eq_true.mpr fun byte => isDigit_digits
  unfold integerOf?
  split
  · rename_i same
    rw [parts] at same
    rw [(List.cons.inj same).1] at digit
    exact absurd digit (by decide)
  · rw [all, decimal_digits]
    rfl

theorem natural?_number {bound value : Nat} (small : value < bound) :
    natural? bound (.number (writeInteger value)) = some value := by
  have inside : (decide ((0 : Int) ≤ value) && decide ((value : Int) ≤ bound - 1)) = true := by
    rw [Bool.and_eq_true, decide_eq_true_eq, decide_eq_true_eq]
    omega
  rw [writeInteger_natCast, natural?, integer?, integerOf?_digits, Option.filter_some, if_pos inside]
  rfl

end Numbers

theorem readAs_text (text : String) : ReadAs (writeText text) (.string (body text)) := by
  refine ⟨⟨quote, _, rfl, rfl, by decide⟩, ?_⟩
  intro fuel rest enough closes
  rw [writeText_eq_body] at enough ⊢
  cases fuel with
  | zero => exact absurd enough (by simp)
  | succ fuel =>
      have noArray : quote ≠ 0x5B := by decide
      have noObject : quote ≠ 0x7B := by decide
      rw [List.cons_append, List.append_assoc, List.cons_append, List.nil_append, readValue,
        skipBlanks_cons rfl]
      simp only [noArray, noObject, if_false, if_true, readBody_body]
      rfl

section Arrays

theorem readItems_joinCommas {items : List (Bytes × Json)} (some : items ≠ [])
    (each : ∀ item ∈ items, ReadAs item.1 item.2) (done : List Json) (fuel : Nat) (rest : Bytes)
    (enough : (joinCommas (items.map Prod.fst)).length < fuel) :
    readItems fuel done (joinCommas (items.map Prod.fst) ++ 0x5D :: rest) =
      .some (.array (done.reverse ++ items.map Prod.snd), rest) := by
  -- Every item takes a step, and its text at least one byte of what the steps are counted by.
  induction items generalizing done fuel with
  | nil => contradiction
  | cons item others ih =>
      have first := each item List.mem_cons_self
      cases fuel with
      | zero => exact absurd enough (Nat.not_lt_zero _)
      | succ fuel =>
          cases others with
          | nil =>
              have read := first.read fuel (0x5D :: rest) (Nat.le_of_lt_succ enough) (.array rest)
              simp only [List.map_cons, List.map_nil, joinCommas]
              rw [readItems, read]
              simp only [@skipBlanks_cons 0x5D rfl, List.reverse_cons]
          | cons next others =>
              simp only [List.map_cons, joinCommas, List.append_assoc, List.cons_append,
                List.length_append, List.length_cons] at enough ih ⊢
              have read := first.read fuel
                (0x2C :: (joinCommas (next.1 :: others.map Prod.fst) ++ 0x5D :: rest)) (by omega)
                (.comma _)
              have behind := ih (by simp)
                (fun other member => each other (List.mem_cons_of_mem _ member))
                (item.2 :: done) fuel (by omega)
              rw [readItems, read]
              simp only [@skipBlanks_cons 0x2C rfl, behind, List.reverse_cons,
                List.append_assoc, List.cons_append, List.nil_append]

theorem readAs_array {items : List (Bytes × Json)} (each : ∀ item ∈ items, ReadAs item.1 item.2) :
    ReadAs (writeArray (items.map Prod.fst)) (.array (items.map Prod.snd)) := by
  refine ⟨⟨0x5B, _, rfl, rfl, by decide⟩, ?_⟩
  intro fuel rest enough closes
  unfold writeArray at enough ⊢
  cases fuel with
  | zero => exact absurd enough (by simp)
  | succ fuel =>
      simp only [List.cons_append, List.length_cons, List.length_append, List.length_nil,
        List.append_assoc, List.nil_append] at enough ⊢
      rw [readValue, skipBlanks_cons rfl]
      cases items with
      | nil =>
          simp only [List.map_nil, joinCommas, List.nil_append, if_pos]
          rw [skipBlanks_cons (by rfl)]
          rfl
      | cons item others =>
          obtain ⟨first, more, parts, solid, noEnd⟩ := (each item List.mem_cons_self).starts
          have read := readItems_joinCommas (by simp) each [] fuel rest (by omega)
          have head : ∃ tail, joinCommas ((item :: others).map Prod.fst) ++ 0x5D :: rest =
              first :: tail := by
            rw [List.map_cons, parts]
            cases others <;> exact ⟨_, rfl⟩
          obtain ⟨tail, starts⟩ := head
          rw [starts] at read ⊢
          simp only [if_pos]
          rw [skipBlanks_cons solid]
          split
          · rename_i same
            exact absurd (List.cons.inj same).1 noEnd
          · rw [read]
            rfl

end Arrays

section Objects

theorem readName_writeText (name : String) (rest : Bytes) :
    readName (writeText name ++ 0x3A :: rest) = some (body name, rest) := by
  have read := readBody_body name (0x3A :: rest)
  rw [writeText_eq_body, readName, List.cons_append, List.append_assoc, skipBlanks_cons (by rfl),
    List.cons_append, List.nil_append]
  simp only [quote] at read ⊢
  rw [read]
  simp only [@skipBlanks_cons 0x3A rfl]

/-- A member of an object: its name, the text of its value and the value it is read as. -/
abbrev Member := String × Bytes × Json

def Member.text (member : Member) : Bytes :=
  writeText member.1 ++ 0x3A :: member.2.1

theorem readMembers_joinCommas {members : List Member} (some : members ≠ [])
    (each : ∀ member ∈ members, ReadAs member.2.1 member.2.2)
    (done : List (Bytes × Json)) (fuel : Nat) (rest : Bytes)
    (enough : (joinCommas (members.map Member.text)).length < fuel) :
    readMembers fuel done (joinCommas (members.map Member.text) ++ 0x7D :: rest) =
      .some (.object (done.reverse ++ members.map fun member => (body member.1, member.2.2)),
        rest) := by
  induction members generalizing done fuel with
  | nil => contradiction
  | cons member others ih =>
      have value := each member List.mem_cons_self
      cases fuel with
      | zero => exact absurd enough (Nat.not_lt_zero _)
      | succ fuel =>
          cases others with
          | nil =>
              simp only [List.map_cons, List.map_nil, joinCommas, Member.text, List.append_assoc,
                List.cons_append, List.length_append, List.length_cons] at enough ⊢
              have read := value.read fuel (0x7D :: rest) (by omega) (.object rest)
              rw [readMembers, readName_writeText]
              simp only [read, @skipBlanks_cons 0x7D rfl, List.reverse_cons]
          | cons next others =>
              simp only [List.map_cons, joinCommas, Member.text, List.append_assoc,
                List.cons_append, List.length_append, List.length_cons] at enough ih ⊢
              have read := value.read fuel
                (0x2C :: (joinCommas ((writeText next.1 ++ 0x3A :: next.2.1) ::
                  others.map Member.text) ++ 0x7D :: rest)) (by omega) (.comma _)
              have behind := ih (by simp)
                (fun other inside => each other (List.mem_cons_of_mem _ inside))
                ((body member.1, member.2.2) :: done) fuel (by omega)
              rw [readMembers, readName_writeText]
              simp only [read, @skipBlanks_cons 0x2C rfl, behind, List.reverse_cons,
                List.append_assoc, List.cons_append, List.nil_append]

theorem readAs_object {members : List Member}
    (each : ∀ member ∈ members, ReadAs member.2.1 member.2.2) :
    ReadAs (writeObject (members.map fun member => (member.1, member.2.1)))
      (.object (members.map fun member => (body member.1, member.2.2))) := by
  refine ⟨⟨0x7B, _, rfl, rfl, by decide⟩, ?_⟩
  intro fuel rest enough closes
  have texts : ((members.map fun member => (member.1, member.2.1)).map
      fun member : String × Bytes => writeText member.1 ++ 0x3A :: member.2) =
        members.map Member.text := by
    rw [List.map_map]
    rfl
  unfold writeObject at enough ⊢
  rw [texts] at enough ⊢
  cases fuel with
  | zero => exact absurd enough (by simp)
  | succ fuel =>
      simp only [List.cons_append, List.length_cons, List.length_append, List.length_nil,
        List.append_assoc, List.nil_append] at enough ⊢
      have noArray : (0x7B : UInt8) ≠ 0x5B := by decide
      rw [readValue, skipBlanks_cons rfl]
      cases members with
      | nil =>
          simp only [List.map_nil, joinCommas, List.nil_append, noArray, if_false, if_true]
          rw [skipBlanks_cons (by rfl)]
          rfl
      | cons member others =>
          have read := readMembers_joinCommas (by simp) each [] fuel rest (by omega)
          have head : ∃ tail, joinCommas ((member :: others).map Member.text) ++ 0x7D :: rest =
              quote :: tail := by
            rw [List.map_cons, Member.text, writeText]
            cases others <;> exact ⟨_, rfl⟩
          obtain ⟨tail, starts⟩ := head
          rw [starts] at read ⊢
          simp only [noArray, if_false, if_true]
          rw [skipBlanks_cons (by rfl)]
          split
          · rename_i same
            exact absurd (List.cons.inj same).1 (by decide)
          · rw [read]
            rfl

end Objects

theorem mapM_map_eq_some {α β γ : Type} {write : α → β} {read : β → Option γ} {h : α → γ}
    (each : ∀ a, read (write a) = some (h a)) (items : List α) :
    (items.map write).mapM read = some (items.map h) := by
  have same : read ∘ write = fun a => some (h a) := funext each
  rw [List.mapM_map, same]
  exact List.mapM_pure

theorem ofBytes?_of_readAs {text : Bytes} {json : Json} (read : ReadAs text json) :
    ofBytes? text = some json := by
  have value := read.read (2 * text.length + 2) [] (by omega) .done
  rw [List.append_nil] at value
  rw [ofBytes?, value]
  rfl

end Haystack.Json
