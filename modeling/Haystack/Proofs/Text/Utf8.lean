import Haystack.Text.Utf8

/-!
# Reading back UTF-8

Every text is decoded from its encoding. A character is followed through the four lengths that it
may be written in; that the reader leaves out overlong forms and surrogates matters only for the
range of the second byte, which no written character leaves.
-/

namespace Haystack.Utf8

theorem lead_of_shape {first further bits low high : Nat} (byte : first < 256)
    (shaped : shape? first = some { further, bits, low, high }) (rest : Bytes) :
    lead (UInt8.ofNat first) rest = continueWith further bits low high rest := by
  rw [lead, UInt8.toNat_ofNat', Nat.mod_eq_of_lt byte, shaped]

theorem continueWith_six {bits low high : Nat} (small : bits < 64) (above : low ≤ bits + 128)
    (below : bits + 128 ≤ high) (further value : Nat) (rest : Bytes) :
    continueWith (further + 1) value low high (UInt8.ofNat (bits + 128) :: rest) =
      continueWith further (value * 64 + bits) 0x80 0xBF rest := by
  have byte : (UInt8.ofNat (bits + 128)).toNat = bits + 128 := by
    rw [UInt8.toNat_ofNat']
    omega
  rw [continueWith, byte, if_pos ⟨above, below⟩, Nat.add_sub_cancel]

section

variable {a b c d : Nat}

theorem lead_one (small : a < 128) (rest : Bytes) :
    lead (UInt8.ofNat a) rest = .char (Char.ofNat a) rest := by
  have shaped : shape? a = some { further := 0, bits := a } := if_pos small
  rw [lead_of_shape (by omega) shaped, continueWith]

theorem lead_two (large : 2 ≤ a) (first : a < 32) (second : b < 64) (rest : Bytes) :
    lead (UInt8.ofNat (a + 192)) (UInt8.ofNat (b + 128) :: rest) =
      .char (Char.ofNat (a * 64 + b)) rest := by
  have shaped : shape? (a + 192) = some { further := 1, bits := a } := by
    unfold shape?
    rw [if_neg (by omega), if_neg (by omega), if_pos (by omega), Nat.add_sub_cancel]
  rw [lead_of_shape (by omega) shaped,
    continueWith_six second (Nat.le_add_left _ _) (by omega), continueWith]

/-- What three bytes write is no shorter and no surrogate, so the second byte lies in the range that
the first one asks for. -/
theorem lead_three (first : a < 16) (second : b < 64) (third : c < 64) (large : a = 0 → 32 ≤ b)
    (valid : a = 13 → b < 32) (rest : Bytes) :
    lead (UInt8.ofNat (a + 224)) (UInt8.ofNat (b + 128) :: UInt8.ofNat (c + 128) :: rest) =
      .char (Char.ofNat ((a * 64 + b) * 64 + c)) rest := by
  have shaped : ∃ low high, shape? (a + 224) = some { further := 2, bits := a, low, high } ∧
      low ≤ b + 128 ∧ b + 128 ≤ high := by
    by_cases zero : a = 0
    · subst zero
      exact ⟨0xA0, 0xBF, rfl, by omega, by omega⟩
    by_cases last : a = 13
    · subst last
      exact ⟨0x80, 0x9F, rfl, by omega, by omega⟩
    refine ⟨0x80, 0xBF, ?_, by omega, by omega⟩
    unfold shape?
    rw [if_neg (by omega), if_neg (by omega), if_neg (by omega), if_neg (by omega),
      if_neg (by omega), if_pos (by omega), Nat.add_sub_cancel]
  obtain ⟨low, high, shaped, above, below⟩ := shaped
  rw [lead_of_shape (by omega) shaped, continueWith_six second above below,
    continueWith_six third (Nat.le_add_left _ _) (by omega), continueWith]

/-- What four bytes write is no shorter and not past the last character, so the second byte lies in
the range that the first one asks for. -/
theorem lead_four (second : b < 64) (third : c < 64) (fourth : d < 64) (large : a = 0 → 16 ≤ b)
    (valid : a < 4 ∨ a = 4 ∧ b < 16) (rest : Bytes) :
    lead (UInt8.ofNat (a + 240))
        (UInt8.ofNat (b + 128) :: UInt8.ofNat (c + 128) :: UInt8.ofNat (d + 128) :: rest) =
      .char (Char.ofNat (((a * 64 + b) * 64 + c) * 64 + d)) rest := by
  have shaped : ∃ low high, shape? (a + 240) = some { further := 3, bits := a, low, high } ∧
      low ≤ b + 128 ∧ b + 128 ≤ high := by
    by_cases zero : a = 0
    · subst zero
      exact ⟨0x90, 0xBF, rfl, by omega, by omega⟩
    by_cases last : a = 4
    · subst last
      exact ⟨0x80, 0x8F, rfl, by omega, by omega⟩
    refine ⟨0x80, 0xBF, ?_, by omega, by omega⟩
    unfold shape?
    rw [if_neg (by omega), if_neg (by omega), if_neg (by omega), if_neg (by omega),
      if_neg (by omega), if_neg (by omega), if_neg (by omega), if_pos (by omega),
      Nat.add_sub_cancel]
  obtain ⟨low, high, shaped, above, below⟩ := shaped
  rw [lead_of_shape (by omega) shaped, continueWith_six second above below,
    continueWith_six third (Nat.le_add_left _ _) (by omega),
    continueWith_six fourth (Nat.le_add_left _ _) (by omega), continueWith]

end

/-- A written character is read as itself, whatever follows it. -/
theorem lead_char (c : Char) (rest : Bytes) :
    ∃ first more, String.utf8EncodeChar c = first :: more ∧
      lead first (more ++ rest) = .char c rest := by
  have valid : c.val.toNat < 0xD800 ∨ 0xDFFF < c.val.toNat ∧ c.val.toNat < 0x110000 := c.valid
  have same {value : Nat} (whole : value = c.val.toNat) : Char.ofNat value = c := by
    rw [whole]
    exact Char.ofNat_toNat c
  unfold String.utf8EncodeChar
  generalize c.val.toNat = value at valid same ⊢
  dsimp only
  by_cases one : value ≤ 127
  · rw [if_pos one]
    refine ⟨_, [], rfl, ?_⟩
    rw [List.nil_append, lead_one (by omega), same rfl]
  by_cases two : value ≤ 2047
  · rw [if_neg one, if_pos two]
    refine ⟨_, [_], rfl, ?_⟩
    rw [List.cons_append, List.nil_append, lead_two (by omega) (by omega) (by omega),
      same (by omega)]
  by_cases three : value ≤ 65535
  · rw [if_neg one, if_neg two, if_pos three]
    refine ⟨_, [_, _], rfl, ?_⟩
    rw [List.cons_append, List.cons_append, List.nil_append, lead_three (by omega) (by omega)
      (by omega) (by omega) (by omega), same (by omega)]
  · rw [if_neg one, if_neg two, if_neg three]
    refine ⟨_, [_, _, _], rfl, ?_⟩
    rw [List.cons_append, List.cons_append, List.cons_append, List.nil_append,
      lead_four (by omega) (by omega) (by omega) (by omega) (by omega), same (by omega)]

theorem decodeOnto_encode (text done : List Char) :
    decodeOnto done (encode text) = some (done.reverse ++ text) := by
  induction text generalizing done with
  | nil => rw [encode, List.flatMap_nil, decodeOnto, List.append_nil]
  | cons c rest ih =>
      obtain ⟨first, more, written, read⟩ := lead_char c (encode rest)
      have parts : encode (c :: rest) = first :: (more ++ encode rest) := by
        rw [encode, List.flatMap_cons, written]
        rfl
      rw [parts, decodeOnto]
      split
      · rename_i broken
        rw [read] at broken
        contradiction
      · rename_i other after found
        rw [read] at found
        cases found
        rw [ih, List.reverse_cons, List.append_assoc, List.cons_append, List.nil_append]

/-- A text is decoded from its own encoding. -/
@[simp] theorem decode?_encode (text : List Char) : decode? (encode text) = some text :=
  decodeOnto_encode text []

end Haystack.Utf8
