import Haystack.Json.Printer
import Haystack.Json.Reader
import Haystack.Proofs.Text.Utf8
import Mathlib.Tactic.SplitIfs

/-!
# Reading back JSON strings

Every text, whatever its characters, is read back from the string that it is written as. A byte is
written in one of three ways, and both steps of reading, finding the end of the string and resolving
its escapes, take one written byte at a time.
-/

namespace Haystack.Json

/-- What stands between the quotes of a written text. -/
def body (text : String) : Bytes :=
  (Utf8.encode text.toList).flatMap writeByte

theorem writeText_eq_body (text : String) : writeText text = quote :: (body text ++ [quote]) :=
  List.cons_append

/-- The three ways of writing a byte: by a letter, by the four digits of a control character, and as
itself. -/
inductive Written (byte : UInt8) : Bytes → Prop
  | letter {letter : UInt8} (stands : escaped? letter = some byte) :
      Written byte [backslash, letter]
  | word {a b : UInt8} (control : byte.toNat < 0x20)
      (stands : hexWord? 0x30 0x30 a b = some byte.toNat) :
      Written byte [backslash, 0x75, 0x30, 0x30, a, b]
  | plain (solid : 0x20 ≤ byte) (noQuote : byte ≠ quote) (noEscape : byte ≠ backslash) :
      Written byte [byte]

theorem escaped?_of_escapeLetter? {byte letter : UInt8}
    (escapes : escapeLetter? byte = some letter) : escaped? letter = some byte := by
  unfold escapeLetter? at escapes
  split_ifs at escapes with isQuote isEscape isBack isFeed isLine isReturn isTab <;>
    cases escapes <;> subst byte <;> decide

theorem ne_word_of_escaped? {byte letter : UInt8} (stands : escaped? letter = some byte) :
    letter ≠ 0x75 := by
  rintro rfl
  contradiction

theorem ascii_controlWord : ∀ value < 0x20,
    ascii ("\\u" ++ Numeral.paddedHex 4 value) =
      [backslash, 0x75, 0x30, 0x30, UInt8.ofNat (Nat.digitChar (value / 16)).toNat,
        UInt8.ofNat (Nat.digitChar (value % 16)).toNat] ∧
    hexWord? 0x30 0x30 (UInt8.ofNat (Nat.digitChar (value / 16)).toNat)
      (UInt8.ofNat (Nat.digitChar (value % 16)).toNat) = some value := by
  decide +kernel

theorem written_writeByte (byte : UInt8) : Written byte (writeByte byte) := by
  unfold writeByte
  cases escape : escapeLetter? byte with
  | some letter => exact .letter (escaped?_of_escapeLetter? escape)
  | none =>
      dsimp only
      by_cases control : byte < 0x20
      · obtain ⟨text, stands⟩ := ascii_controlWord byte.toNat control
        rw [if_pos control, text]
        exact .word control stands
      · rw [if_neg control]
        apply Written.plain (UInt8.not_lt.mp control)
        · rintro rfl
          contradiction
        · rintro rfl
          contradiction

theorem readBody_written {byte : UInt8} {text : Bytes} (written : Written byte text)
    (done rest : Bytes) : readBody done (text ++ rest) = readBody (text.reverse ++ done) rest := by
  cases written with
  | letter stands =>
      have noWord := ne_word_of_escaped? stands
      rw [List.cons_append, List.cons_append, List.nil_append, backslash, readBody]
      · rw [stands]
        rfl
      · intro a b c d more same
        exact absurd same noWord
  | word control stands =>
      rw [List.cons_append, backslash]
      simp only [List.cons_append, List.nil_append]
      rw [readBody, stands]
      rfl
  | plain solid noQuote noEscape =>
      rw [List.cons_append, List.nil_append, readBody]
      · rw [if_neg]
        · rfl
        · rintro (control | escape)
          · exact absurd control (UInt8.not_lt.mpr solid)
          · exact noEscape escape
      · exact fun same => noQuote same
      · intro _ _ _ _ _ same
        exact absurd same noEscape
      · intro _ _ same
        exact absurd same noEscape

/-- The end of a written text is found, whatever follows it. -/
theorem readBody_body (text : String) (rest : Bytes) :
    readBody [] (body text ++ quote :: rest) = some (body text, rest) := by
  have each : ∀ bytes done : Bytes, readBody done (bytes.flatMap writeByte ++ quote :: rest) =
      some (done.reverse ++ bytes.flatMap writeByte, rest) := by
    intro bytes
    induction bytes with
    | nil =>
        intro done
        rw [List.flatMap_nil, List.nil_append, List.append_nil, quote, readBody]
    | cons byte more ih =>
        intro done
        rw [List.flatMap_cons, List.append_assoc, readBody_written (written_writeByte byte), ih,
          List.reverse_append, List.reverse_reverse, List.append_assoc]
  exact each _ []

section Escapes

theorem utf8EncodeChar_control : ∀ value < 0x20,
    String.utf8EncodeChar (Char.ofNat value) = [UInt8.ofNat value] := by
  decide

/-- Behind an escaped control character the reader looks ahead for a second escape, which in a
written text is sound. -/
theorem unescapeOnto_word {a b : UInt8} {value : Nat} (control : value < 0x20)
    (stands : hexWord? 0x30 0x30 a b = some value) {rest : Bytes}
    (sound : ∀ e f g h more, rest = 0x5C :: 0x75 :: e :: f :: g :: h :: more →
      (hexWord? e f g h).isSome) (done : Bytes) :
    unescapeOnto done (0x5C :: 0x75 :: 0x30 :: 0x30 :: a :: b :: rest) =
      unescapeOnto (UInt8.ofNat value :: done) rest := by
  have noHigh : isHighSurrogate value = false := by
    unfold isHighSurrogate
    simp
    omega
  have noLow : isLowSurrogate value = false := by
    unfold isLowSurrogate
    simp
    omega
  have written := utf8EncodeChar_control value control
  by_cases second : ∃ e f g h more, rest = 0x5C :: 0x75 :: e :: f :: g :: h :: more
  · obtain ⟨e, f, g, h, more, rfl⟩ := second
    obtain ⟨other, word⟩ := Option.isSome_iff_exists.mp (sound e f g h more rfl)
    rw [unescapeOnto, stands, word]
    dsimp only
    rw [noHigh, noLow, written]
    rfl
  · rw [unescapeOnto, stands]
    · dsimp only
      rw [noHigh, noLow, written]
      rfl
    · intro e f g h more same
      exact second ⟨e, f, g, h, more, same⟩

theorem unescapeOnto_written {byte : UInt8} {text : Bytes} (written : Written byte text)
    {rest : Bytes}
    (sound : ∀ e f g h more, rest = 0x5C :: 0x75 :: e :: f :: g :: h :: more →
      (hexWord? e f g h).isSome) (done : Bytes) :
    unescapeOnto done (text ++ rest) = unescapeOnto (byte :: done) rest := by
  cases written with
  | letter stands =>
      have noWord := ne_word_of_escaped? stands
      rw [List.cons_append, List.cons_append, List.nil_append, backslash, unescapeOnto]
      · rw [stands]
      · intro a b c d e f g h more same
        exact absurd same noWord
      · intro a b c d more same
        exact absurd same noWord
  | word control stands =>
      have step := unescapeOnto_word control stands sound done
      rw [UInt8.ofNat_toNat] at step
      exact step
  | plain solid noQuote noEscape =>
      rw [List.cons_append, List.nil_append, unescapeOnto]
      · intro a b c d e f g h more same
        exact absurd same noEscape
      · intro a b c d more same
        exact absurd same noEscape
      · intro letter more same
        exact absurd same noEscape
      · intro same
        exact absurd same noEscape

/-- Digits behind the start of an escape in a written text are those of a control character. -/
theorem isSome_hexWord?_of_flatMap {bytes more : Bytes} {e f g h : UInt8}
    (same : bytes.flatMap writeByte = 0x5C :: 0x75 :: e :: f :: g :: h :: more) :
    (hexWord? e f g h).isSome := by
  cases bytes with
  | nil => contradiction
  | cons byte rest =>
      have written := written_writeByte byte
      rw [List.flatMap_cons] at same
      generalize writeByte byte = text, rest.flatMap writeByte = tail at written same
      cases written with
      | letter stands =>
          cases same
          contradiction
      | word control stands =>
          cases same
          rw [stands]
          rfl
      | plain solid noQuote noEscape =>
          cases same
          exact absurd rfl noEscape

theorem unescapeOnto_flatMap (bytes done : Bytes) :
    unescapeOnto done (bytes.flatMap writeByte) = some (done.reverse ++ bytes) := by
  induction bytes generalizing done with
  | nil => rw [List.flatMap_nil, unescapeOnto, List.append_nil]
  | cons byte more ih =>
      rw [List.flatMap_cons, unescapeOnto_written (written_writeByte byte)
        (fun e f g h rest same => isSome_hexWord?_of_flatMap same), ih, List.reverse_cons,
        List.append_assoc, List.cons_append, List.nil_append]

end Escapes

@[simp] theorem text?_body (text : String) : text? (body text) = some text := by
  have resolved := unescapeOnto_flatMap (Utf8.encode text.toList) []
  rw [List.reverse_nil, List.nil_append] at resolved
  rw [text?, body, resolved]
  simp

end Haystack.Json
