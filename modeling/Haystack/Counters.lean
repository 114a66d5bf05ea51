/-!
# How well a cache serves

Every look-up counts as a hit or a miss, and every fetch from a source is counted when it begins.
-/

namespace Haystack

/-- What has been counted so far. -/
structure Counters where
  hits : Nat := 0
  misses : Nat := 0
  fetches : Nat := 0
  deriving DecidableEq, Repr, Inhabited

namespace Counters

def countLookup (counters : Counters) (found : Bool) : Counters :=
  if found then { counters with hits := counters.hits + 1 }
  else { counters with misses := counters.misses + 1 }

def countFetch (counters : Counters) : Counters :=
  { counters with fetches := counters.fetches + 1 }

def lookups (counters : Counters) : Nat :=
  counters.hits + counters.misses

/-- The part of the look-ups that were hits, zero before the first look-up. -/
def hitRate (counters : Counters) : Float :=
  if counters.lookups = 0 then 0
  else (UInt64.ofNat counters.hits).toFloat / (UInt64.ofNat counters.lookups).toFloat

theorem lookups_countLookup (counters : Counters) (found : Bool) :
    (counters.countLookup found).lookups = counters.lookups + 1 := by
  unfold countLookup
  split <;> simp only [lookups] <;> omega

end Counters

end Haystack
