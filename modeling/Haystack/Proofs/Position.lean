import Haystack.Position

/-!
# Numbers that fit 64 bits

A number that fits is left as it is, whatever sums and products it was reckoned from wrapped around
on the way. Any number from the least position on is wrapped to itself or to something less.
-/

namespace Haystack

theorem wrapped_of_fits {number : Int} (low : -(2 ^ (63 : Nat)) ≤ number) (high : number ≤ maxPosition) :
    wrapped number = number := by
  unfold maxPosition at high
  exact Int.bmod_eq_of_le (by omega) (by omega)

theorem wrapped_le (number : Int) : wrapped number ≤ maxPosition := by
  have bound : wrapped number < (2 ^ 64 + 1) / 2 := Int.bmod_lt (by decide)
  unfold maxPosition
  omega

theorem wrapped_eq_or_le {number : Int} (low : -(2 ^ (63 : Nat)) ≤ number) :
    wrapped number = number ∨ wrapped number ≤ number - 2 ^ (64 : Nat) := by
  have bound := wrapped_le number
  unfold maxPosition at bound
  obtain ⟨around, same⟩ : ((2 ^ 64 : Nat) : Int) ∣ wrapped number - number :=
    Int.dvd_bmod_sub_self
  by_cases high : number ≤ maxPosition
  · exact .inl (wrapped_of_fits low high)
  · unfold maxPosition at high
    omega

theorem wrapped_le_self {number : Int} (low : -(2 ^ (63 : Nat)) ≤ number) : wrapped number ≤ number := by
  rcases wrapped_eq_or_le low with same | less
  · exact Int.le_of_eq same
  · omega

theorem wrapped_add_wrapped (a b : Int) : wrapped (a + wrapped b) = wrapped (a + b) :=
  Int.add_bmod_bmod ..

theorem wrapped_mul_wrapped (a b : Int) : wrapped (a * wrapped b) = wrapped (a * b) :=
  Int.mul_bmod_bmod ..

theorem wrapped_add_signed64 (number : Int) (word : Nat) :
    wrapped (number + signed64 word) = wrapped (number + word) :=
  wrapped_add_wrapped number word

theorem unsigned64_of_fits {number : Int} (low : 0 ≤ number) (high : number < 2 ^ (64 : Nat)) :
    unsigned64 number = number.toNat := by
  rw [unsigned64, Int.emod_eq_of_lt low high]

theorem addPositions_le (offset size : Int) : addPositions offset size ≤ maxPosition := by
  have least : -(2 ^ 63) ≤ maxPosition := by decide
  unfold addPositions
  omega

end Haystack
