import Haystack.Checksum
import Mathlib.Data.Nat.Bitwise
import Mathlib.Logic.Function.Iterate

/-!
# Bursts

A step of the register is linear over exclusive or, and it can be taken back: a register that has
come out small was exactly so many places longer. So two strings of one length lead to one register
only if their difference, taken in from an empty register, leaves it empty. Four bytes that differ
make up one word of the register's width, which never does. What is the same before and behind them
changes nothing, so that the checksum notices every change within four bytes in a row.
-/

namespace Haystack.Checksum

theorem toNat_and_one (register : UInt32) : (register &&& 1).toNat = register.toNat % 2 := by
  rw [UInt32.toNat_and]
  exact Nat.and_one_is_mod register.toNat

theorem and_one_eq_one_iff (register : UInt32) : register &&& 1 = 1 ↔ register.toNat % 2 = 1 := by
  rw [← UInt32.toNat_inj, toNat_and_one]
  rfl

theorem toNat_half (register : UInt32) : (register >>> 1).toNat = register.toNat / 2 := by
  rw [UInt32.toNat_shiftRight]
  exact Nat.shiftRight_eq_div_pow register.toNat 1

/-- A register that comes out without its highest bit was twice as much: no bit left it. -/
theorem toNat_of_shiftOut {register : UInt32} (small : (shiftOut register).toNat < 2 ^ 31) :
    register.toNat = 2 * (shiftOut register).toNat := by
  unfold shiftOut at small ⊢
  split at small
  · -- The polynomial sets the highest bit, which the shifted register does not have.
    have half : (register >>> 1).toNat < 2 ^ 31 := by
      have := register.toNat_lt
      rw [toNat_half]
      omega
    have top := Nat.testBit_lt_two_pow small
    rw [UInt32.toNat_xor, Nat.testBit_xor, Nat.testBit_lt_two_pow half] at top
    contradiction
  · rename_i even
    rw [and_one_eq_one_iff] at even
    rw [if_neg (by rwa [and_one_eq_one_iff]), toNat_half]
    omega

/-- A register that has come out small after some steps was so many places longer. -/
theorem toNat_of_iterate_shiftOut {steps : Nat} (few : steps < 32) {register : UInt32}
    (small : (shiftOut^[steps] register).toNat < 2 ^ (32 - steps)) :
    register.toNat = 2 ^ steps * (shiftOut^[steps] register).toNat := by
  induction steps generalizing register with
  | zero => simp
  | succ steps ih =>
      rw [Function.iterate_succ_apply] at small ⊢
      have less : 2 ^ (32 - (steps + 1)) ≤ 2 ^ (32 - steps) :=
        Nat.pow_le_pow_right (by decide) (by omega)
      have next := ih (by omega) (Nat.lt_of_lt_of_le small less)
      have bound : (shiftOut register).toNat < 2 ^ 31 := by
        calc
          (shiftOut register).toNat
              = 2 ^ steps * (shiftOut^[steps] (shiftOut register)).toNat := next
          _ < 2 ^ steps * 2 ^ (32 - (steps + 1)) :=
              Nat.mul_lt_mul_of_pos_left small (Nat.two_pow_pos steps)
          _ = 2 ^ 31 := by
              rw [← Nat.pow_add]
              congr 1
              omega
      rw [toNat_of_shiftOut bound, next, Nat.pow_succ', Nat.mul_assoc]

theorem absorb_eq_iterate (register : UInt32) (byte : UInt8) :
    absorb register byte = shiftOut^[8] (register ^^^ byte.toUInt32) := rfl

theorem toNat_of_absorb {register : UInt32} {byte : UInt8}
    (small : (absorb register byte).toNat < 2 ^ 24) :
    (register ^^^ byte.toUInt32).toNat = 2 ^ 8 * (absorb register byte).toNat :=
  toNat_of_iterate_shiftOut (by decide) small

/-- A difference between two registers goes through a step as a register does. -/
theorem shiftOut_xor (register other : UInt32) :
    shiftOut (register ^^^ other) = shiftOut register ^^^ shiftOut other := by
  have low : (register ^^^ other).toNat % 2 = (register.toNat + other.toNat) % 2 := by
    rw [UInt32.toNat_xor, Nat.xor_mod_two_eq]
  unfold shiftOut
  simp only [and_one_eq_one_iff, low, UInt32.shiftRight_xor]
  by_cases first : register.toNat % 2 = 1
  · by_cases second : other.toNat % 2 = 1
    · -- The polynomial comes in twice and goes out again.
      rw [if_pos first, if_pos second, if_neg (by omega), UInt32.xor_comm (other >>> 1),
        UInt32.xor_assoc, ← UInt32.xor_assoc polynomial, UInt32.xor_self, UInt32.zero_xor]
    · rw [if_pos first, if_neg second, if_pos (by omega), UInt32.xor_assoc,
        UInt32.xor_comm (other >>> 1), UInt32.xor_assoc]
  · by_cases second : other.toNat % 2 = 1
    · rw [if_neg first, if_pos second, if_pos (by omega), UInt32.xor_assoc]
    · rw [if_neg first, if_neg second, if_neg (by omega)]

theorem absorb_xor (register other : UInt32) (byte rival : UInt8) :
    absorb (register ^^^ other) (byte ^^^ rival) = absorb register byte ^^^ absorb other rival := by
  have mixed : register ^^^ other ^^^ (byte.toUInt32 ^^^ rival.toUInt32) =
      register ^^^ byte.toUInt32 ^^^ (other ^^^ rival.toUInt32) := by
    rw [UInt32.xor_assoc, UInt32.xor_assoc, ← UInt32.xor_assoc other,
      UInt32.xor_comm other byte.toUInt32, UInt32.xor_assoc byte.toUInt32]
  unfold absorb
  simp only [UInt8.toUInt32_xor, mixed, shiftOut_xor]

/-- Where two strings of one length differ is taken in as a string of its own. -/
theorem foldl_absorb_xor {bytes others : Bytes} (same : bytes.length = others.length)
    (register other : UInt32) :
    (List.zipWith (· ^^^ ·) bytes others).foldl absorb (register ^^^ other) =
      bytes.foldl absorb register ^^^ others.foldl absorb other := by
  induction bytes generalizing others register other with
  | nil =>
      obtain rfl := List.length_eq_zero_iff.mp same.symm
      rfl
  | cons byte bytes ih =>
      cases others with
      | nil => contradiction
      | cons rival others =>
          rw [List.zipWith_cons_cons, List.foldl_cons, absorb_xor]
          exact ih (Nat.succ.inj same) _ _

/-- A register that up to four bytes have emptied was no longer than they are, and if it was empty
before then so are they. -/
theorem empty_of_foldl_absorb {bytes : Bytes} (short : bytes.length ≤ 4) {register : UInt32}
    (emptied : bytes.foldl absorb register = 0) :
    register.toNat < 2 ^ (8 * bytes.length) ∧ (register = 0 → ∀ byte ∈ bytes, byte = 0) := by
  induction bytes generalizing register with
  | nil =>
      obtain rfl : register = 0 := emptied
      exact ⟨by decide, by simp⟩
  | cons byte bytes ih =>
      rw [List.length_cons] at short ⊢
      obtain ⟨small, zeros⟩ := ih (by omega) emptied
      have fits : 2 ^ (8 * bytes.length) ≤ 2 ^ 24 := Nat.pow_le_pow_right (by decide) (by omega)
      have mixed := toNat_of_absorb (Nat.lt_of_lt_of_le small fits)
      have byte_small : byte.toUInt32.toNat < 2 ^ 8 := byte.toNat_lt
      constructor
      · have length : 2 ^ (8 * (bytes.length + 1)) = 2 ^ 8 * 2 ^ (8 * bytes.length) := by
          rw [← Nat.pow_add, Nat.mul_succ, Nat.add_comm]
        have sum : (register ^^^ byte.toUInt32).toNat < 2 ^ (8 * (bytes.length + 1)) := by
          rw [mixed, length]
          exact Nat.mul_lt_mul_of_pos_left small (by decide)
        have low : byte.toUInt32.toNat < 2 ^ (8 * (bytes.length + 1)) :=
          Nat.lt_of_lt_of_le byte_small (Nat.pow_le_pow_right (by decide) (by omega))
        have back : register = register ^^^ byte.toUInt32 ^^^ byte.toUInt32 := by
          rw [UInt32.xor_assoc, UInt32.xor_self, UInt32.xor_zero]
        rw [back, UInt32.toNat_xor]
        exact Nat.xor_lt_two_pow sum low
      · rintro rfl
        rw [UInt32.zero_xor] at mixed
        have none : (absorb 0 byte).toNat = 0 := by omega
        have zero : byte.toUInt32.toNat = 0 := by omega
        intro other member
        rcases List.mem_cons.mp member with rfl | member
        · exact UInt8.toNat_inj.mp zero
        · exact zeros (UInt32.toNat_inj.mp none) other member

theorem absorb_injective {register other : UInt32} {byte : UInt8}
    (same : absorb register byte = absorb other byte) : register = other := by
  have emptied : absorb (register ^^^ other) (byte ^^^ byte) = 0 := by
    rw [absorb_xor, same, UInt32.xor_self]
  have small : (absorb (register ^^^ other) (byte ^^^ byte)).toNat < 2 ^ 24 := by
    rw [emptied]
    decide
  have mixed := toNat_of_absorb small
  have nothing : (0 : UInt8).toUInt32 = 0 := rfl
  rw [emptied, UInt8.xor_self, nothing, UInt32.xor_zero] at mixed
  exact UInt32.xor_eq_zero_iff.mp (UInt32.toNat_inj.mp mixed)

theorem foldl_absorb_injective {back : Bytes} {register other : UInt32}
    (same : back.foldl absorb register = back.foldl absorb other) : register = other := by
  induction back generalizing register other with
  | nil => exact same
  | cons byte back ih => exact absorb_injective (ih same)

/-- Up to four bytes are told by the register that they lead to. -/
theorem eq_of_foldl_absorb {window other : Bytes} (like : other.length = window.length)
    (short : window.length ≤ 4) {register : UInt32}
    (same : other.foldl absorb register = window.foldl absorb register) : other = window := by
  have emptied : (List.zipWith (· ^^^ ·) other window).foldl absorb 0 = 0 := by
    rw [← UInt32.xor_self (a := register), foldl_absorb_xor like, same, UInt32.xor_self,
      UInt32.xor_self]
  have length : (List.zipWith (· ^^^ ·) other window).length ≤ 4 := by
    rw [List.length_zipWith]
    omega
  have zeros := (empty_of_foldl_absorb length emptied).2 rfl
  refine List.ext_getElem like fun place low high => UInt8.xor_eq_zero_iff.mp ?_
  refine zeros _ ?_
  rw [← List.getElem_zipWith (f := (· ^^^ ·)) (h := by rw [List.length_zipWith]; omega)]
  exact List.getElem_mem _

/-- The checksum notices every change of bytes that lie within four in a row, wherever they are. -/
theorem ofBytes_ne_of_burst {window other : Bytes} (like : other.length = window.length)
    (short : window.length ≤ 4) (changed : other ≠ window) (front back : Bytes) :
    (ofBytes (front ++ other ++ back)).value ≠ (ofBytes (front ++ window ++ back)).value := by
  intro same
  unfold ofBytes update at same
  dsimp only at same
  rw [UInt32.xor_left_inj, List.foldl_append, List.foldl_append, List.foldl_append,
    List.foldl_append] at same
  exact changed (eq_of_foldl_absorb like short (foldl_absorb_injective same))

end Haystack.Checksum
