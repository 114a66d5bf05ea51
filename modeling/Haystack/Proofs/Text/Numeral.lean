import Haystack.Text.Numeral
import Mathlib.Data.List.Induction

/-!
# What numerals write

A numeral is a string of digits, highest first, maybe behind a plus sign. Here is said which number
it writes (`Spells`, `Writes`), digit after digit and without a reader. The reader takes the
numerals of the numbers up to its limit and nothing else, however many zeros they have at the front.
-/

namespace Haystack.Numeral

variable {radix limit : Nat}

/-- A character stands for a digit; a letter may be of either case. -/
def IsDigit (radix : Nat) (c : Char) (digit : Nat) : Prop :=
  digit < radix ∧ (c = digit.digitChar ∨ c = digit.digitChar.toUpper)

instance (radix : Nat) (c : Char) (digit : Nat) : Decidable (IsDigit radix c digit) :=
  inferInstanceAs (Decidable (_ ∧ _))

/-- The number that digits write: the last counts once, and all before it `radix` times. -/
inductive Spells (radix : Nat) : List Char → Nat → Prop
  | nil : Spells radix [] 0
  | concat {front : List Char} {value : Nat} {c : Char} {digit : Nat}
      (before : Spells radix front value) (last : IsDigit radix c digit) :
      Spells radix (front ++ [c]) (value * radix + digit)

/-- The number that a numeral writes. It has at least one digit. -/
inductive Writes (radix : Nat) : List Char → Nat → Prop
  | unsigned {digits : List Char} {value : Nat} (some : digits ≠ [])
      (spells : Spells radix digits value) : Writes radix digits value
  | signed {digits : List Char} {value : Nat} (some : digits ≠ [])
      (spells : Spells radix digits value) : Writes radix ('+' :: digits) value

section Digits

theorem toNat_lt_of_digitValue? {c : Char} {digit : Nat} (found : digitValue? c = some digit) :
    c.toNat < 128 := by
  have bound {high : Char} (small : high.toNat < 128) (below : c ≤ high) : c.toNat < 128 :=
    Nat.lt_of_le_of_lt below small
  unfold digitValue? at found
  split at found
  · rename_i range
    exact bound (by decide) range.2
  · split at found
    · rename_i range
      exact bound (by decide) range.2
    · split at found
      · rename_i range
        exact bound (by decide) range.2
      · contradiction

theorem digitValue?_eq_some_iff {c : Char} {digit : Nat} :
    digitValue? c = some digit ↔ IsDigit 16 c digit := by
  constructor
  · intro found
    have table : ∀ code < 128,
        (digitValue? (Char.ofNat code)).all fun digit => IsDigit 16 (Char.ofNat code) digit := by
      decide +kernel
    have entry := table c.toNat (toNat_lt_of_digitValue? found)
    rw [Char.ofNat_toNat, found] at entry
    exact of_decide_eq_true entry
  · rintro ⟨below, rfl | rfl⟩
    · have table : ∀ digit < 16, digitValue? digit.digitChar = some digit := by decide
      exact table digit below
    · have table : ∀ digit < 16, digitValue? digit.digitChar.toUpper = some digit := by decide
      exact table digit below

theorem digitOf?_eq_some_iff (small : radix ≤ 16) {c : Char} {digit : Nat} :
    digitOf? radix c = some digit ↔ IsDigit radix c digit := by
  rw [digitOf?, Option.filter_eq_some_iff, digitValue?_eq_some_iff, decide_eq_true_eq]
  constructor
  · rintro ⟨⟨-, shape⟩, below⟩
    exact ⟨below, shape⟩
  · rintro ⟨below, shape⟩
    exact ⟨⟨Nat.lt_of_lt_of_le below small, shape⟩, below⟩

theorem isDigit_digitChar {digit : Nat} (below : digit < radix) :
    IsDigit radix digit.digitChar digit :=
  ⟨below, .inl rfl⟩

theorem digitOf?_digitChar (small : radix ≤ 16) {digit : Nat} (below : digit < radix) :
    digitOf? radix digit.digitChar = some digit :=
  (digitOf?_eq_some_iff small).mpr (isDigit_digitChar below)

theorem IsDigit.mono {other : Nat} (small : radix ≤ other) {c : Char} {digit : Nat}
    (shape : IsDigit radix c digit) : IsDigit other c digit :=
  ⟨Nat.lt_of_lt_of_le shape.1 small, shape.2⟩

theorem IsDigit.of_table {p : Char → Prop} {c : Char} {digit : Nat}
    (shape : IsDigit radix c digit)
    (table : ∀ digit < radix, p digit.digitChar ∧ p digit.digitChar.toUpper) : p c := by
  rcases shape.2 with rfl | rfl
  · exact (table digit shape.1).1
  · exact (table digit shape.1).2

theorem IsDigit.utf8Size (small : radix ≤ 16) {c : Char} {digit : Nat}
    (shape : IsDigit radix c digit) : c.utf8Size = 1 :=
  (shape.mono small).of_table (p := fun c => c.utf8Size = 1) (by decide)

theorem IsDigit.ne {c other : Char} {digit : Nat} (small : radix ≤ 16)
    (shape : IsDigit radix c digit) (strange : digitValue? other = none) : c ≠ other := by
  rintro rfl
  have found := digitValue?_eq_some_iff.mpr (shape.mono small)
  rw [strange] at found
  contradiction

end Digits

section Spelling

variable {text : List Char} {value : Nat}

theorem Spells.exists_digit (spells : Spells radix text value) {c : Char} (inside : c ∈ text) :
    ∃ digit, IsDigit radix c digit := by
  induction spells with
  | nil => contradiction
  | concat before last ih =>
      rcases List.mem_append.mp inside with inside | inside
      · exact ih inside
      · rw [List.mem_singleton.mp inside]
        exact ⟨_, last⟩

theorem exists_spells (digits : ∀ c ∈ text, ∃ digit, IsDigit radix c digit) :
    ∃ value, Spells radix text value := by
  induction text using List.reverseRecOn with
  | nil => exact ⟨0, .nil⟩
  | append_singleton front c ih =>
      have before := ih fun other inside => digits other (List.mem_append_left _ inside)
      have last := digits c (List.mem_append_right _ (List.mem_singleton_self c))
      exact ⟨_, .concat before.choose_spec last.choose_spec⟩

theorem Spells.lt (spells : Spells radix text value) : value < radix ^ text.length := by
  induction spells with
  | nil => exact Nat.one_pos
  | @concat front value c digit before last ih =>
      have below := last.1
      calc value * radix + digit
        _ < value * radix + radix := Nat.add_lt_add_left below _
        _ = (value + 1) * radix := (Nat.succ_mul value radix).symm
        _ ≤ radix ^ front.length * radix := Nat.mul_le_mul_right radix ih
        _ = radix ^ (front ++ [c]).length := by
            rw [List.length_append, List.length_singleton, Nat.pow_succ]

theorem Writes.exists_digit (writes : Writes radix text value) {c : Char} (inside : c ∈ text) :
    c = '+' ∨ ∃ digit, IsDigit radix c digit := by
  cases writes with
  | unsigned some spells => exact .inr (spells.exists_digit inside)
  | signed some spells =>
      rcases List.mem_cons.mp inside with sign | inside
      · exact .inl sign
      · exact .inr (spells.exists_digit inside)

theorem Writes.not_mem (writes : Writes radix text value) (small : radix ≤ 16) {other : Char}
    (unsigned : other ≠ '+') (strange : digitValue? other = none) : other ∉ text := by
  intro inside
  rcases writes.exists_digit inside with sign | ⟨digit, shape⟩
  · exact unsigned sign
  · exact shape.ne small strange rfl

theorem Writes.exists_last (writes : Writes radix text value) :
    ∃ front c digit, text = front ++ [c] ∧ IsDigit radix c digit := by
  cases writes with
  | unsigned some spells =>
      cases spells with
      | nil => contradiction
      | concat before last => exact ⟨_, _, _, rfl, last⟩
  | signed some spells =>
      cases spells with
      | nil => contradiction
      | @concat front _ c _ before last => exact ⟨'+' :: front, c, _, rfl, last⟩

end Spelling

section Reading

variable {text : List Char} {value : Nat}

theorem readDigits_digitChar (small : radix ≤ 16) {digit : Nat} (below : digit < radix)
    {value : Nat} (fits : value * radix + digit ≤ limit) (rest : List Char) :
    readDigits radix limit value (digit.digitChar :: rest) =
      readDigits radix limit (value * radix + digit) rest := by
  rw [readDigits, digitOf?_digitChar small below]
  exact if_neg (Nat.not_lt.mpr fits)

theorem readDigits_append (value : Nat) (front back : List Char) :
    readDigits radix limit value (front ++ back) =
      readDigits radix limit value front >>= fun value => readDigits radix limit value back := by
  induction front generalizing value with
  | nil => rfl
  | cons c front ih =>
      rw [List.cons_append, readDigits, readDigits]
      cases digitOf? radix c with
      | none => rfl
      | some digit =>
          dsimp only
          split
          · rfl
          · exact ih _

/-- The digits of a number are read as the number. -/
theorem readDigits_toDigits (base : 1 < radix) (small : radix ≤ 16) {value : Nat}
    (fits : value ≤ limit) : readDigits radix limit 0 (Nat.toDigits radix value) = .ok value := by
  induction value using Nat.strongRecOn with
  | ind value ih =>
      rw [Nat.toDigits_eq_if base]
      by_cases single : value < radix
      · rw [if_pos single, readDigits_digitChar small single (by omega), Nat.zero_mul, Nat.zero_add]
        rfl
      · have less : value / radix < value := Nat.div_lt_self (by omega) base
        have sum : value / radix * radix + value % radix = value := Nat.div_add_mod' value radix
        rw [if_neg single, readDigits_append, ih _ less (by omega)]
        change readDigits radix limit (value / radix) [(value % radix).digitChar] = _
        rw [readDigits_digitChar small (Nat.mod_lt _ (by omega)) (by omega), sum]
        rfl

theorem readDigits_single_iff (small : radix ≤ 16) {c : Char} {front : Nat} :
    readDigits radix limit front [c] = .ok value ↔
      ∃ digit, IsDigit radix c digit ∧ value = front * radix + digit ∧ value ≤ limit := by
  rw [readDigits]
  constructor
  · intro read
    split at read
    · contradiction
    · rename_i digit found
      split at read
      · contradiction
      · rename_i fits
        cases read
        exact ⟨digit, (digitOf?_eq_some_iff small).mp found, rfl, Nat.not_lt.mp fits⟩
  · rintro ⟨digit, shape, rfl, fits⟩
    rw [(digitOf?_eq_some_iff small).mpr shape]
    exact if_neg (Nat.not_lt.mpr fits)

/-- Digits are read as the number they write. -/
theorem readDigits_eq_ok_iff (small : radix ≤ 16) :
    readDigits radix limit 0 text = .ok value ↔ Spells radix text value ∧ value ≤ limit := by
  constructor
  · intro read
    induction text using List.reverseRecOn generalizing value with
    | nil =>
        cases read
        exact ⟨.nil, Nat.zero_le limit⟩
    | append_singleton front c ih =>
        rw [readDigits_append] at read
        cases first : readDigits radix limit 0 front with
        | error problem =>
            rw [first] at read
            contradiction
        | ok before =>
            rw [first] at read
            rcases (readDigits_single_iff small).mp read with ⟨digit, shape, rfl, fits⟩
            exact ⟨.concat (ih first).1 shape, fits⟩
  · rintro ⟨spells, fits⟩
    induction spells with
    | nil => rfl
    | @concat front value c digit before last ih =>
        have first : value ≤ value * radix + digit :=
          Nat.le_add_right_of_le (Nat.le_mul_of_pos_right value (Nat.zero_lt_of_lt last.1))
        rw [readDigits_append, ih (Nat.le_trans first fits)]
        exact (readDigits_single_iff small).mpr ⟨digit, last, rfl, fits⟩

theorem spells_toDigits (base : 1 < radix) (small : radix ≤ 16) (value : Nat) :
    Spells radix (Nat.toDigits radix value) value :=
  ((readDigits_eq_ok_iff small).mp (readDigits_toDigits base small (Nat.le_refl value))).1

theorem writes_toDigits (base : 1 < radix) (small : radix ≤ 16) (value : Nat) :
    Writes radix (Nat.toDigits radix value) value :=
  .unsigned Nat.toDigits_ne_nil (spells_toDigits base small value)

theorem read_of_no_plus {text : List Char} (nonempty : text ≠ []) (unsigned : '+' ∉ text) :
    read radix limit text = readDigits radix limit 0 text := by
  unfold read
  split
  · contradiction
  · simp at unsigned
  · simp at unsigned
  · rfl

theorem read_plus (nonempty : text ≠ []) :
    read radix limit ('+' :: text) = readDigits radix limit 0 text := by
  cases text with
  | nil => contradiction
  | cons c rest => rfl

/-- The reader takes the numerals of the numbers up to its limit, and nothing else. -/
theorem read_eq_ok_iff (small : radix ≤ 16) :
    read radix limit text = .ok value ↔ Writes radix text value ∧ value ≤ limit := by
  constructor
  · intro taken
    unfold read at taken
    split at taken
    · contradiction
    · contradiction
    · rename_i digits alone
      have read := (readDigits_eq_ok_iff small).mp taken
      exact ⟨.signed alone read.1, read.2⟩
    · rename_i filled _ _
      have read := (readDigits_eq_ok_iff small).mp taken
      exact ⟨.unsigned filled read.1, read.2⟩
  · rintro ⟨writes, fits⟩
    cases writes with
    | unsigned some spells =>
        have bare : '+' ∉ text := by
          intro inside
          rcases spells.exists_digit inside with ⟨digit, shape⟩
          exact shape.ne small (by decide) rfl
        rw [read_of_no_plus some bare]
        exact (readDigits_eq_ok_iff small).mpr ⟨spells, fits⟩
    | signed some spells =>
        rw [read_plus some]
        exact (readDigits_eq_ok_iff small).mpr ⟨spells, fits⟩

theorem decimal32_eq_ok_iff :
    decimal32 text = .ok value ↔ Writes 10 text value ∧ value < 2 ^ (32 : Nat) := by
  rw [decimal32, read_eq_ok_iff (by decide)]
  exact and_congr_right fun _ => Nat.le_sub_one_iff_lt (by decide)

theorem decimal64_eq_ok_iff :
    decimal64 text = .ok value ↔ Writes 10 text value ∧ value < 2 ^ (64 : Nat) := by
  rw [decimal64, read_eq_ok_iff (by decide)]
  exact and_congr_right fun _ => Nat.le_sub_one_iff_lt (by decide)

end Reading

end Haystack.Numeral
