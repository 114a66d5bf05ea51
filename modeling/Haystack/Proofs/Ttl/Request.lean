import Haystack.Proofs.Text.Numeral
import Haystack.Ttl
import Mathlib.Order.Bounds.Basic

/-!
# Lifetimes last as long as they were asked to

A text asks for a number of minutes, as a count of some unit. Two bytes cannot store every number:
a count that is too large moves to a coarser unit, and where no unit has the number exactly, it is
rounded up to whole years. The search for a unit passes over the finer ones, in which the count
would be larger still, so it misses none that has the number exactly.
-/

namespace Haystack

open Numeral

namespace TtlUnit

theorem ne_none_of_letter {letter : Char} {unit : TtlUnit} (named : ofLetter? letter = some unit) :
    unit ≠ .none := by
  unfold ofLetter? at named
  split at named <;> cases named <;> decide

theorem not_isDigit_of_letter {letter : Char} {unit : TtlUnit}
    (named : ofLetter? letter = some unit) : letter.isDigit = false := by
  unfold ofLetter? at named
  split at named <;> trivial

theorem minutes_pos {unit : TtlUnit} (real : unit ≠ .none) : 0 < unit.minutes := by
  revert real
  cases unit <;> decide

theorem minutes_le_of_not_coarser {unit other : TtlUnit} (real : unit ≠ .none)
    (finer : other ∉ unit.coarser) : other.minutes ≤ unit.minutes := by
  revert real finer
  cases unit <;> cases other <;> decide

theorem ne_none_of_coarser {unit other : TtlUnit} (coarse : other ∈ unit.coarser) :
    other ≠ .none := by
  rintro rfl
  cases unit <;> exact absurd coarse (by decide)

theorem exists_letter {unit : TtlUnit} (real : unit ≠ .none) :
    ∃ letter, unit.letter.toList = [letter] ∧ ofLetter? letter = some unit ∧
      Blank.isBlank letter = false := by
  cases unit with
  | none => contradiction
  | minute => exact ⟨'m', by decide, rfl, by decide⟩
  | hour => exact ⟨'h', by decide, rfl, by decide⟩
  | day => exact ⟨'d', by decide, rfl, by decide⟩
  | week => exact ⟨'w', by decide, rfl, by decide⟩
  | month => exact ⟨'M', by decide, rfl, by decide⟩
  | year => exact ⟨'y', by decide, rfl, by decide⟩

end TtlUnit

namespace Ttl

/-- The minutes that a text asks for, which has no blanks around it: none if it is empty, and else
a count of minutes or of the unit that a letter names. -/
inductive Asks : List Char → Nat → Prop
  | nothing : Asks [] 0
  | minutes {digits : List Char} {count : Nat} (writes : Writes 10 digits count)
      (below : count < 2 ^ (32 : Nat)) : Asks digits count
  | units {digits : List Char} {count : Nat} {letter : Char} {unit : TtlUnit}
      (writes : Writes 10 digits count) (below : count < 2 ^ (32 : Nat))
      (named : TtlUnit.ofLetter? letter = some unit) :
      Asks (digits ++ [letter]) (count * unit.minutes)

section Reading

variable {text digits : List Char} {unit : TtlUnit} {count minutes : Nat}

theorem splitUnit?_of_digit {front : List Char} {c : Char} (digit : c.isDigit = true) :
    splitUnit? (front ++ [c]) = some (front ++ [c], .minute) := by
  rw [splitUnit?, List.getLast?_concat]
  exact if_pos digit

theorem splitUnit?_of_letter {letter : Char} (named : TtlUnit.ofLetter? letter = some unit) :
    splitUnit? (digits ++ [letter]) = some (digits, unit) := by
  rw [splitUnit?, List.getLast?_concat]
  dsimp only
  rw [TtlUnit.not_isDigit_of_letter named, if_neg Bool.false_ne_true, named, List.dropLast_concat]
  rfl

/-- What a text is split into: all of it and the minute, or what stands before a letter and the
unit that the letter names. -/
theorem splitUnit?_cases (split : splitUnit? text = some (digits, unit)) :
    digits = text ∧ unit = .minute ∨
      ∃ letter, text = digits ++ [letter] ∧ TtlUnit.ofLetter? letter = some unit := by
  unfold splitUnit? at split
  split at split
  · contradiction
  · rename_i last ends
    split at split
    · cases split
      exact .inl ⟨rfl, rfl⟩
    · rcases Option.map_eq_some_iff.mp split with ⟨named, letter, same⟩
      cases same
      rcases List.getLast?_eq_some_iff.mp ends with ⟨front, rfl⟩
      rw [List.dropLast_concat]
      exact .inr ⟨last, rfl, letter⟩

theorem isDigit_of_isDigit {c : Char} {digit : Nat} (shape : IsDigit 10 c digit) :
    c.isDigit = true :=
  shape.of_table (p := fun c => c.isDigit = true) (by decide)

/-- What a text asks for is what is read of it. -/
theorem asks_iff :
    Asks text minutes ↔ text = [] ∧ minutes = 0 ∨
      ∃ digits unit count, splitUnit? text = some (digits, unit) ∧
        decimal32 digits = .ok count ∧ minutes = count * unit.minutes := by
  constructor
  · intro asks
    cases asks with
    | nothing => exact .inl ⟨rfl, rfl⟩
    | minutes writes below =>
        rcases writes.exists_last with ⟨front, c, digit, rfl, shape⟩
        exact .inr ⟨_, _, _, splitUnit?_of_digit (isDigit_of_isDigit shape),
          decimal32_eq_ok_iff.mpr ⟨writes, below⟩, (Nat.mul_one _).symm⟩
    | units writes below named =>
        exact .inr ⟨_, _, _, splitUnit?_of_letter named,
          decimal32_eq_ok_iff.mpr ⟨writes, below⟩, rfl⟩
  · rintro (⟨rfl, rfl⟩ | ⟨digits, unit, count, split, read, rfl⟩)
    · exact .nothing
    · rcases decimal32_eq_ok_iff.mp read with ⟨writes, below⟩
      rcases splitUnit?_cases split with ⟨rfl, rfl⟩ | ⟨letter, rfl, named⟩
      · rw [TtlUnit.minutes, Nat.mul_one]
        exact .minutes writes below
      · exact .units writes below named

theorem Asks.unique {other : Nat} (asks : Asks text minutes) (again : Asks text other) :
    minutes = other := by
  rcases asks_iff.mp asks with ⟨rfl, rfl⟩ | ⟨digits, unit, count, split, read, rfl⟩
  · rcases asks_iff.mp again with ⟨-, rfl⟩ | ⟨digits, unit, count, split, -, -⟩
    · rfl
    · contradiction
  · rcases asks_iff.mp again with ⟨rfl, -⟩ | ⟨_, _, _, split', read', rfl⟩
    · contradiction
    · rw [split] at split'
      cases split'
      rw [read] at read'
      cases read'
      rfl

/-- What a lifetime is read from: no text, or a count of a unit. -/
theorem parse_eq_ok_iff {text : String} {ttl : Ttl} :
    parse text = .ok ttl ↔ Blank.trim text.toList = [] ∧ ttl = forever ∨
      ∃ digits unit count, splitUnit? (Blank.trim text.toList) = some (digits, unit) ∧
        decimal32 digits = .ok count ∧ ttl = ofCount count unit := by
  unfold parse
  cases trimmed : Blank.trim text.toList with
  | nil =>
      constructor
      · intro read
        cases read
        exact .inl ⟨rfl, rfl⟩
      · rintro (⟨-, rfl⟩ | ⟨digits, unit, count, split, -⟩)
        · rfl
        · contradiction
  | cons c rest =>
      dsimp only
      rw [List.isEmpty_cons, if_neg Bool.false_ne_true]
      constructor
      · intro read
        split at read
        · contradiction
        · rename_i digits unit split
          split at read
          · contradiction
          · rename_i count counted
            cases read
            exact .inr ⟨digits, unit, count, split, counted, rfl⟩
      · rintro (⟨empty, -⟩ | ⟨digits, unit, count, split, counted, rfl⟩)
        · contradiction
        · rw [split]
          dsimp only
          rw [counted]

end Reading

section Fitting

/-- A lifetime is what two bytes can say of a number of minutes: nothing of none, the number itself
if some unit has it, and else the next number of whole years, up to the largest. -/
structure Fits (minutes : Nat) (ttl : Ttl) : Prop where
  nothing : minutes = 0 → ttl = forever
  exact : (∃ other : Ttl, other.count ≠ 0 ∧ other.minutes = minutes) → ttl.minutes = minutes
  rounded : minutes ≠ 0 → (¬ ∃ other : Ttl, other.count ≠ 0 ∧ other.minutes = minutes) →
    ∃ years, IsLeast {years | minutes ≤ years * TtlUnit.year.minutes} years ∧
      ttl = { count := UInt8.ofNat (min 255 years), unit := .year }

variable {minutes count : Nat} {unit : TtlUnit} {units : List TtlUnit} {ttl : Ttl}

theorem minutes_ofNat (small : count ≤ 255) (unit : TtlUnit) :
    ({ count := UInt8.ofNat count, unit } : Ttl).minutes = count * unit.minutes := by
  have bound : count % 2 ^ 8 = count := Nat.mod_eq_of_lt (by omega)
  rw [Ttl.minutes, UInt8.toNat_ofNat', bound]

theorem Fits.of_exact (nonzero : minutes ≠ 0) (same : ttl.minutes = minutes)
    (filled : ttl.count ≠ 0) : Fits minutes ttl where
  nothing zero := absurd zero nonzero
  exact _ := same
  rounded _ none := absurd ⟨ttl, filled, same⟩ none

theorem fits_forever : Fits 0 forever where
  nothing _ := rfl
  exact _ := rfl
  rounded nonzero := absurd rfl nonzero

theorem count_ne_zero (nonzero : ttl.minutes ≠ 0) : ttl.count ≠ 0 := by
  intro zero
  rw [Ttl.minutes, zero] at nonzero
  exact nonzero (Nat.zero_mul _)

theorem exactIn?_eq_some (real : ∀ unit ∈ units, unit ≠ .none)
    (found : exactIn? minutes units = some ttl) : ttl.minutes = minutes ∧ ttl.unit ≠ .none := by
  rcases Option.map_eq_some_iff.mp found with ⟨unit, chosen, rfl⟩
  have holds := List.find?_some chosen
  rw [decide_eq_true_eq] at holds
  rw [minutes_ofNat holds.2, Nat.div_mul_cancel (Nat.dvd_of_mod_eq_zero holds.1)]
  exact ⟨rfl, real unit (List.mem_of_find?_eq_some chosen)⟩

theorem minutes_ne_of_exactIn? (missing : exactIn? minutes units = none) {other : Ttl}
    (listed : other.unit ∈ units) (real : other.unit ≠ .none) : other.minutes ≠ minutes := by
  rintro rfl
  have long := TtlUnit.minutes_pos real
  have fails := List.find?_eq_none.mp (Option.map_eq_none_iff.mp missing) other.unit listed
  rw [decide_eq_true_eq] at fails
  apply fails
  rw [Ttl.minutes, Nat.mul_mod_left, Nat.mul_div_cancel _ long]
  exact ⟨rfl, Nat.le_of_lt_succ other.count.toNat_lt⟩

theorem minutes_lt_of_not_coarser (real : unit ≠ .none) (large : 255 < count) {other : Ttl}
    (finer : other.unit ∉ unit.coarser) : other.minutes < count * unit.minutes :=
  calc other.minutes
    _ ≤ 255 * unit.minutes :=
        Nat.mul_le_mul (Nat.le_of_lt_succ other.count.toNat_lt)
          (TtlUnit.minutes_le_of_not_coarser real finer)
    _ < count * unit.minutes := Nat.mul_lt_mul_of_pos_right large (TtlUnit.minutes_pos real)

theorem isLeast_years (minutes : Nat) :
    IsLeast {years | minutes ≤ years * TtlUnit.year.minutes}
      ((minutes + TtlUnit.year.minutes - 1) / TtlUnit.year.minutes) := by
  have year : TtlUnit.year.minutes = 525600 := rfl
  rw [year]
  constructor
  · rw [Set.mem_ofPred_eq]
    omega
  · intro years enough
    rw [Set.mem_ofPred_eq] at enough
    omega

/-- A count of a unit becomes a lifetime that fits the number of minutes. -/
theorem fits_ofCount (count : Nat) (real : unit ≠ .none) :
    Fits (count * unit.minutes) (ofCount count unit) := by
  have long := TtlUnit.minutes_pos real
  rw [ofCount]
  by_cases zero : count = 0
  · rw [if_pos (.inl zero), zero, Nat.zero_mul]
    exact fits_forever
  · have nonzero : count * unit.minutes ≠ 0 := Nat.mul_ne_zero zero (by omega)
    rw [if_neg (by rintro (empty | none); exacts [zero empty, real none])]
    by_cases small : count ≤ 255
    · have same := minutes_ofNat small unit
      rw [if_pos small]
      exact .of_exact nonzero same (count_ne_zero (same ▸ nonzero))
    · rw [if_neg small]
      cases found : exactIn? (count * unit.minutes) unit.coarser with
      | some ttl =>
          have same := (exactIn?_eq_some (fun _ => TtlUnit.ne_none_of_coarser) found).1
          exact .of_exact nonzero same (count_ne_zero (same ▸ nonzero))
      | none =>
          have never : ¬ ∃ other : Ttl, other.count ≠ 0 ∧ other.minutes = count * unit.minutes := by
            rintro ⟨other, -, same⟩
            by_cases coarse : other.unit ∈ unit.coarser
            · exact minutes_ne_of_exactIn? found coarse (TtlUnit.ne_none_of_coarser coarse) same
            · have short := minutes_lt_of_not_coarser real (Nat.not_le.mp small) coarse
              omega
          exact ⟨fun none => absurd none nonzero, fun some => absurd some never,
            fun _ _ => ⟨_, isLeast_years _, rfl⟩⟩

theorem Fits.le_minutes (fits : Fits minutes ttl) (within : minutes ≤ 255 * TtlUnit.year.minutes) :
    minutes ≤ ttl.minutes := by
  by_cases zero : minutes = 0
  · rw [zero]
    exact Nat.zero_le _
  · by_cases some : ∃ other : Ttl, other.count ≠ 0 ∧ other.minutes = minutes
    · exact Nat.le_of_eq (fits.exact some).symm
    · rcases fits.rounded zero some with ⟨years, ⟨enough, least⟩, rfl⟩
      rw [Nat.min_eq_right (least within), minutes_ofNat (least within)]
      exact enough

theorem Fits.minutes_ne_zero (fits : Fits minutes ttl) (nonzero : minutes ≠ 0) :
    ttl.minutes ≠ 0 := by
  by_cases some : ∃ other : Ttl, other.count ≠ 0 ∧ other.minutes = minutes
  · rwa [fits.exact some]
  · rcases fits.rounded nonzero some with ⟨years, ⟨enough, -⟩, rfl⟩
    have year : TtlUnit.year.minutes = 525600 := rfl
    rw [Set.mem_ofPred_eq, year] at enough
    rw [minutes_ofNat (Nat.min_le_left _ _), year]
    omega

end Fitting

section Display

variable {ttl : Ttl}

theorem trim_of_solid {text : List Char} (solid : ∀ c ∈ text, Blank.isBlank c = false) :
    Blank.trim text = text := by
  have keep {text : List Char} (solid : ∀ c ∈ text, Blank.isBlank c = false) :
      text.dropWhile Blank.isBlank = text := by
    cases text with
    | nil => rfl
    | cons c rest =>
        rw [List.dropWhile_cons, solid c List.mem_cons_self, if_neg Bool.false_ne_true]
  rw [Blank.trim, keep solid, keep fun c inside => solid c (List.mem_reverse.mp inside),
    List.reverse_reverse]

theorem isBlank_of_isDigit {c : Char} {digit : Nat} (shape : IsDigit 10 c digit) :
    Blank.isBlank c = false :=
  shape.of_table (p := fun c => Blank.isBlank c = false) (by decide)

/-- A lifetime that ends is read back from its display. -/
theorem parse_display (lasting : ttl.minutes ≠ 0) : parse ttl.display = .ok ttl := by
  have filled : ttl.count ≠ 0 := count_ne_zero lasting
  have real : ttl.unit ≠ .none := by
    intro none
    rw [Ttl.minutes, none] at lasting
    exact lasting (Nat.mul_zero _)
  have shown : ttl.isForever = false := by simp [isForever, filled, real]
  rcases TtlUnit.exists_letter real with ⟨letter, text, named, solid⟩
  have digits : (toString ttl.count).toList = Nat.toDigits 10 ttl.count.toNat :=
    Nat.toList_repr
  have display : ttl.display.toList = Nat.toDigits 10 ttl.count.toNat ++ [letter] := by
    rw [Ttl.display, shown, if_neg Bool.false_ne_true, String.toList_append, digits, text]
  have spells := @spells_toDigits 10 (by decide) (by decide) ttl.count.toNat
  have trimmed : Blank.trim ttl.display.toList = Nat.toDigits 10 ttl.count.toNat ++ [letter] := by
    rw [display]
    apply trim_of_solid
    intro c inside
    rcases List.mem_append.mp inside with inside | inside
    · rcases spells.exists_digit inside with ⟨digit, shape⟩
      exact isBlank_of_isDigit shape
    · rw [List.mem_singleton.mp inside]
      exact solid
  have bound := ttl.count.toNat_lt
  have counted : decimal32 (Nat.toDigits 10 ttl.count.toNat) = .ok ttl.count.toNat :=
    decimal32_eq_ok_iff.mpr ⟨.unsigned Nat.toDigits_ne_nil spells, by omega⟩
  apply parse_eq_ok_iff.mpr
  refine .inr ⟨_, ttl.unit, _, ?_, counted, ?_⟩
  · rw [trimmed, splitUnit?_of_letter named]
  · have nonzero : ttl.count.toNat ≠ 0 := fun zero => filled (UInt8.toNat_inj.mp zero)
    rw [ofCount, if_neg (by rintro (zero | none); exacts [nonzero zero, real none]),
      if_pos (Nat.le_of_lt_succ bound), UInt8.ofNat_toNat]

end Display

/-- A text that is read as a lifetime asks for one number of minutes, and the lifetime fits it. So
it is no shorter than asked for, unless more than 255 years were asked for. It is read back from its
display. -/
theorem parsed_fits_request {text : String} {ttl : Ttl} (read : parse text = .ok ttl) :
    ∃ minutes, (∀ asked, Asks (Blank.trim text.toList) asked ↔ asked = minutes) ∧
      Fits minutes ttl ∧
      (minutes ≤ 255 * TtlUnit.year.minutes → minutes ≤ ttl.minutes) ∧
      parse ttl.display = .ok ttl := by
  have request : ∃ minutes, Asks (Blank.trim text.toList) minutes ∧ Fits minutes ttl := by
    rcases parse_eq_ok_iff.mp read with ⟨empty, rfl⟩ | ⟨digits, unit, count, split, counted, rfl⟩
    · rw [empty]
      exact ⟨0, .nothing, fits_forever⟩
    · have real : unit ≠ .none := by
        rcases splitUnit?_cases split with ⟨-, rfl⟩ | ⟨letter, -, named⟩
        · decide
        · exact TtlUnit.ne_none_of_letter named
      exact ⟨_, asks_iff.mpr (.inr ⟨digits, unit, count, split, counted, rfl⟩),
        fits_ofCount count real⟩
  rcases request with ⟨minutes, asks, fits⟩
  refine ⟨minutes, fun asked => ⟨fun again => again.unique asks, ?_⟩, fits, fits.le_minutes, ?_⟩
  · rintro rfl
    exact asks
  · by_cases zero : minutes = 0
    · rw [fits.nothing zero]
      rfl
    · exact parse_display (fits.minutes_ne_zero zero)

/-- More hours than a byte counts, which are no whole number of any coarser unit, become a year. -/
theorem many_hours_fit_year :
    let ttl : Ttl := { count := 1, unit := .year }
    parse " 257h" = .ok ttl ∧
      (∀ asked, Asks (Blank.trim " 257h".toList) asked ↔ asked = 15420) ∧ Fits 15420 ttl ∧
      15420 ≤ ttl.minutes ∧ parse "1y" = .ok ttl := by
  intro ttl
  have read : parse " 257h" = .ok ttl := by decide +kernel
  have text : Blank.trim " 257h".toList = ['2', '5', '7', 'h'] := by decide +kernel
  have asks : Asks (Blank.trim " 257h".toList) 15420 := by
    rw [text]
    exact asks_iff.mpr (.inr ⟨['2', '5', '7'], .hour, 257, by decide, by rfl, by rfl⟩)
  rcases parsed_fits_request read with ⟨minutes, asked, fits, enough, shown⟩
  have same : minutes = 15420 := ((asked 15420).mp asks).symm
  have display : ttl.display = "1y" := by decide +kernel
  rw [same] at asked fits enough
  rw [display] at shown
  exact ⟨read, asked, fits, enough (by decide), shown⟩

end Ttl

end Haystack
