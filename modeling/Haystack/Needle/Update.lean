import Haystack.Needle.Basic

/-!
# Changing a needle in place

An update works on a needle where it stands, and what it did before a failure stays done. That a
failed update leaves the needle as it was has to be seen from its steps.
-/

namespace Haystack.Needle

/-- A change of a needle in place that may fail. -/
abbrev Update := ExceptT Error (StateM Needle)

/-- Gives the needle metadata: a text that is too long is found before anything is changed. -/
def setPairs (pairs : Pairs) : Update Unit := do
  if pairs.isEmpty then return
  let text := pairs.stored.toJson
  if maxPairsLength < text.length then
    throw (.fieldTooLarge .pairs text.length maxPairsLength)
  modify fun needle => { needle with pairs := text }
  modify fun needle => needle.mark .pairs

/-- Changing a needle in place gives the needle with pairs, or leaves it as it was. -/
theorem setPairs_eq_withPairs (pairs : Pairs) (needle : Needle) :
    (setPairs pairs).run.run needle =
      match needle.withPairs pairs with
      | .ok marked => (.ok (), marked)
      | .error problem => (.error problem, needle) := by
  unfold setPairs withPairs
  cases pairs.isEmpty with
  | true => rfl
  | false =>
      by_cases long : maxPairsLength < pairs.stored.toJson.length
      · simp only [long, if_true, Bool.false_eq_true, if_false]
        rfl
      · simp only [long, Bool.false_eq_true, if_false]
        rfl

end Haystack.Needle
