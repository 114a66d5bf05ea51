import Haystack.FileId.Positions
import Haystack.Proofs.FileId.ReadBack
import Haystack.Proofs.Needle.Cursor

/-!
# Reading file ids never cuts a character

Separators are found where characters begin, and the border between key and cookie is reached only
once all bytes before and behind it are known to be digits. So every cut is one between characters
of the text, and reading at positions comes to the same value or the same error as reading
character by character.
-/

namespace Haystack.FileId

open Numeral

section Cutting

variable {text front back : List Char} {position : Nat}

theorem byteLength_cons (c : Char) (text : List Char) :
    byteLength (c :: text) = c.utf8Size + byteLength text := by
  rw [byteLength, byteLength, List.map_cons, List.sum_cons]

theorem cutAt?_zero (text : List Char) : cutAt? text 0 = some ([], text) := by
  cases text <;> rfl

theorem cutAt?_cons (c : Char) (text : List Char) (position : Nat) :
    cutAt? (c :: text) (c.utf8Size + position) =
      (cutAt? text position).map fun (front, back) => (c :: front, back) := by
  have long := c.utf8Size_pos
  obtain ⟨before, sum⟩ := Nat.exists_eq_succ_of_ne_zero (n := c.utf8Size + position) (by omega)
  rw [sum, cutAt?, if_neg (by omega), ← Nat.succ_eq_add_one, ← sum, Nat.add_sub_cancel_left]

theorem cutAt?_append (front back : List Char) :
    cutAt? (front ++ back) (byteLength front) = some (front, back) := by
  induction front with
  | nil => exact cutAt?_zero back
  | cons c front ih => rw [List.cons_append, byteLength_cons, cutAt?_cons, ih, Option.map_some]

theorem before?_append (front back : List Char) :
    before? (front ++ back) (byteLength front) = some front := by
  rw [before?, cutAt?_append, Option.map_some]

theorem from?_append (front back : List Char) :
    from? (front ++ back) (byteLength front) = some back := by
  rw [from?, cutAt?_append, Option.map_some]

theorem from?_append_cons (front : List Char) (c : Char) (back : List Char) :
    from? (front ++ c :: back) (byteLength front + c.utf8Size) = some back := by
  have length : byteLength (front ++ [c]) = byteLength front + c.utf8Size := by
    simp [byteLength]
  rw [← length, List.append_cons]
  exact from?_append (front ++ [c]) back

end Cutting

section Splitting

variable {separator : Char} {text front back : List Char}

theorem positionOf?_of_not_mem (absent : separator ∉ text) : positionOf? separator text = none := by
  induction text with
  | nil => rfl
  | cons c rest ih =>
      rw [List.mem_cons, not_or] at absent
      rw [positionOf?, if_neg (Ne.symm absent.1), ih absent.2, Option.map_none]

theorem positionOf?_append (absent : separator ∉ front) (back : List Char) :
    positionOf? separator (front ++ separator :: back) = some (byteLength front) := by
  induction front with
  | nil => exact if_pos rfl
  | cons c front ih =>
      rw [List.mem_cons, not_or] at absent
      rw [List.cons_append, positionOf?, if_neg (Ne.symm absent.1), ih absent.2, Option.map_some,
        byteLength_cons]

theorem lastPositionOf?_of_not_mem (absent : separator ∉ text) :
    lastPositionOf? separator text = none := by
  induction text with
  | nil => rfl
  | cons c rest ih =>
      rw [List.mem_cons, not_or] at absent
      rw [lastPositionOf?, ih absent.2]
      exact if_neg (Ne.symm absent.1)

theorem lastPositionOf?_append (front : List Char) (absent : separator ∉ back) :
    lastPositionOf? separator (front ++ separator :: back) = some (byteLength front) := by
  induction front with
  | nil =>
      rw [List.nil_append, lastPositionOf?, lastPositionOf?_of_not_mem absent]
      exact if_pos rfl
  | cons c front ih => rw [List.cons_append, lastPositionOf?, ih, byteLength_cons]

theorem eq_append_of_mem (inside : separator ∈ text) :
    ∃ front back, text = front ++ separator :: back ∧ separator ∉ back := by
  rcases List.eq_append_cons_of_mem (List.mem_reverse.mpr inside) with ⟨back, front, parts, absent⟩
  refine ⟨front.reverse, back.reverse, ?_, by rwa [List.mem_reverse]⟩
  rw [← List.reverse_reverse text, parts, List.reverse_append, List.reverse_cons,
    List.append_assoc, List.singleton_append]

theorem splitDelta_append (some : front ≠ []) (absent : '_' ∉ back) :
    splitDelta (front ++ '_' :: back) = (front, .some back) := by
  have reversed : '_' ∉ back.reverse := by rwa [List.mem_reverse]
  have split : splitLast? '_' (front ++ '_' :: back) = .some (front, back) := by
    rw [splitLast?, List.reverse_append, List.reverse_cons, List.append_assoc,
      List.singleton_append, splitFirst_append reversed]
    simp only [List.reverse_reverse]
  rw [splitDelta, split]
  exact if_neg (by simpa using some)

theorem splitDelta_cons (absent : '_' ∉ back) :
    splitDelta ('_' :: back) = ('_' :: back, none) := by
  have reversed : '_' ∉ back.reverse := by rwa [List.mem_reverse]
  have split : splitLast? '_' ('_' :: back) = some ([], back) := by
    rw [splitLast?, List.reverse_cons, splitFirst_append reversed]
    simp only [List.reverse_reverse, List.reverse_nil]
  rw [splitDelta, split]
  rfl

theorem splitFirstAt_eq_some (separator : Char) (text : List Char) :
    splitFirstAt separator text = some (splitFirst separator text) := by
  by_cases inside : separator ∈ text
  · rcases List.eq_append_cons_of_mem inside with ⟨front, back, rfl, absent⟩
    rw [splitFirstAt, positionOf?_append absent, splitFirst_append absent]
    dsimp only
    rw [before?_append, from?_append_cons]
    rfl
  · rw [splitFirstAt, positionOf?_of_not_mem inside, splitFirst_of_not_mem inside]

theorem splitDeltaAt_eq_some (text : List Char) :
    splitDeltaAt text = some (splitDelta text) := by
  by_cases inside : '_' ∈ text
  · rcases eq_append_of_mem inside with ⟨front, back, rfl, absent⟩
    rw [splitDeltaAt, lastPositionOf?_append front absent]
    cases front with
    | nil =>
        rw [List.nil_append, splitDelta_cons absent]
        rfl
    | cons c front =>
        have long := c.utf8Size_pos
        rw [splitDelta_append (List.cons_ne_nil c front) absent]
        have behind : from? (c :: front ++ '_' :: back) (byteLength (c :: front) + 1) = some back :=
          from?_append_cons (c :: front) '_' back
        dsimp only
        rw [if_pos (by rw [byteLength_cons]; omega), before?_append, behind]
        rfl
  · rw [splitDeltaAt, lastPositionOf?_of_not_mem inside, splitDelta_of_not_mem inside]

end Splitting

section Digits

theorem encode_cons (c : Char) (text : List Char) :
    Utf8.encode (c :: text) = String.utf8EncodeChar c ++ Utf8.encode text :=
  List.flatMap_cons

theorem isHexByte_of_high {byte : UInt8} (high : 128 ≤ byte.toNat) : isHexByte byte = false := by
  simp only [isHexByte, UInt8.le_iff_toNat_le, Bool.or_eq_false_iff, Bool.and_eq_false_iff,
    decide_eq_false_iff_not]
  refine ⟨⟨.inr ?_, .inr ?_⟩, .inr ?_⟩ <;>
    exact Nat.not_le.mpr (Nat.lt_of_lt_of_le (by decide) high)

theorem exists_high_of_encodeChar {c : Char} (wide : 128 ≤ c.toNat) :
    ∃ byte rest, String.utf8EncodeChar c = byte :: rest ∧ 128 ≤ byte.toNat := by
  have high (low : Nat) (small : low < 64) : 128 ≤ (UInt8.ofNat (low + 192)).toNat := by
    rw [UInt8.toNat_ofNat']
    omega
  have long : ¬ c.val.toNat ≤ 127 := Nat.not_le.mpr wide
  unfold String.utf8EncodeChar
  rw [if_neg long]
  split
  · exact ⟨_, _, rfl, high _ (by omega)⟩
  · split
    · exact ⟨_, _, rfl, high (c.val.toNat / 4096 % 16 + 32) (by omega)⟩
    · exact ⟨_, _, rfl, high (c.val.toNat / 262144 % 8 + 48) (by omega)⟩

theorem all_isHexByte_encodeChar (c : Char) :
    (String.utf8EncodeChar c).all isHexByte = (digitOf? 16 c).isSome := by
  by_cases low : c.toNat < 128
  · have table : ∀ code < 128, (String.utf8EncodeChar (Char.ofNat code)).all isHexByte =
        (digitOf? 16 (Char.ofNat code)).isSome := by
      decide +kernel
    have entry := table c.toNat low
    rwa [Char.ofNat_toNat] at entry
  · rcases exists_high_of_encodeChar (Nat.not_lt.mp low) with ⟨byte, rest, bytes, high⟩
    have strange : digitOf? 16 c = none := by
      rw [Option.eq_none_iff_forall_ne_some]
      intro digit found
      have shape := (digitOf?_eq_some_iff (Nat.le_refl 16)).mp found
      exact low (toNat_lt_of_digitValue? (digitValue?_eq_some_iff.mpr shape))
    rw [bytes, strange, List.all_cons, isHexByte_of_high high]
    rfl

theorem all_isHexByte_encode (text : List Char) :
    (Utf8.encode text).all isHexByte = text.all fun c => (digitOf? 16 c).isSome := by
  induction text with
  | nil => rfl
  | cons c rest ih => rw [encode_cons, List.all_append, all_isHexByte_encodeChar, ih, List.all_cons]

theorem all_digits_iff {digits : List Char} :
    (digits.all fun c => (digitOf? 16 c).isSome) = true ↔
      ∀ c ∈ digits, ∃ digit, IsDigit 16 c digit := by
  rw [List.all_eq_true]
  simp only [Option.isSome_iff_exists, digitOf?_eq_some_iff (Nat.le_refl 16)]

theorem byteLength_of_digits {digits : List Char}
    (hex : (digits.all fun c => (digitOf? 16 c).isSome) = true) :
    byteLength digits = digits.length := by
  apply byteLength_of_single
  intro c inside
  rcases all_digits_iff.mp hex c inside with ⟨digit, shape⟩
  exact shape.utf8Size (Nat.le_refl 16)

theorem cutAt?_of_digits {digits : List Char}
    (hex : (digits.all fun c => (digitOf? 16 c).isSome) = true) {position : Nat}
    (inside : position ≤ digits.length) :
    cutAt? digits position = some (digits.take position, digits.drop position) := by
  have front : ((digits.take position).all fun c => (digitOf? 16 c).isSome) = true := by
    rw [List.all_eq_true] at hex ⊢
    exact fun c member => hex c (List.mem_of_mem_take member)
  have length : byteLength (digits.take position) = position := by
    rw [byteLength_of_digits front, List.length_take, Nat.min_eq_left inside]
  have cut := cutAt?_append (digits.take position) (digits.drop position)
  rwa [List.take_append_drop, length] at cut

end Digits

section Parsing

open Needle (Access Follows)

theorem follows_lift {α : Type} (result : Except Error α) :
    Follows Eq (result : Access α) result := by
  cases result with
  | ok value => exact .value rfl
  | error problem => exact .error problem

/-- Once the key part is known to consist of digits, it is long enough to be cut before the last
eight, and the cut is one between digits. -/
theorem follows_parseKeyCookieAt (chars : List Char) :
    Follows Eq (parseKeyCookieAt chars) (parseKeyCookie chars) := by
  unfold parseKeyCookieAt parseKeyCookie
  refine .access (splitDeltaAt_eq_some chars) ?_
  rcases splitDelta chars with ⟨digits, delta⟩
  dsimp only
  refine .ite Iff.rfl (fun _ => .error _) fun long => ?_
  refine .ite Iff.rfl (fun _ => .error _) fun short => ?_
  rw [all_isHexByte_encode]
  refine .ite Iff.rfl (fun _ => .error _) fun hex => ?_
  have hex : (digits.all fun c => (digitOf? 16 c).isSome) = true := by
    rwa [Bool.not_eq_true', Bool.not_eq_false] at hex
  rw [byteLength_of_digits hex] at long ⊢
  have cut := cutAt?_of_digits hex (Nat.sub_le digits.length 8)
  have border : stepBack? digits.length 8 = some (digits.length - 8) := if_pos (by omega)
  have front : before? digits (digits.length - 8) = some (digits.take (digits.length - 8)) := by
    rw [before?, cut, Option.map_some]
  have back : from? digits (digits.length - 8) = some (digits.drop (digits.length - 8)) := by
    rw [from?, cut, Option.map_some]
  refine .access border (.access front ?_)
  refine (follows_lift _).bind fun key _ same => ?_
  cases same
  refine .access back ((follows_lift _).bind fun cookie _ same => ?_)
  cases same
  refine (follows_lift _).bind fun shifted _ same => ?_
  cases same
  exact .value rfl

theorem follows_parseAt (text : String) : Follows Eq (parseAt text) (parse text) := by
  unfold parseAt parse
  refine .access (splitFirstAt_eq_some ',' text.toList) ?_
  rcases splitFirst ',' text.toList with ⟨volume, rest⟩
  cases rest with
  | none => exact .error _
  | some rest =>
      dsimp only
      refine .ite Iff.rfl (fun _ => .error _) fun filled => ?_
      refine .access (splitFirstAt_eq_some '.' rest) ?_
      refine (follows_lift _).bind fun number _ same => ?_
      cases same
      refine (follows_parseKeyCookieAt _).bind fun parts _ same => ?_
      cases same
      exact .value rfl

/-- Reading at positions always has a result, and the same as `parse`. -/
theorem parseAt_eq_some (text : String) : parseAt text = some (parse text) :=
  (follows_parseAt text).eq_some

end Parsing

end Haystack.FileId
