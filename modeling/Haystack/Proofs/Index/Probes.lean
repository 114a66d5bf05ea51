import Haystack.Proofs.Index.Search
import Haystack.Proofs.Index.Walk
import Mathlib.Data.Nat.Log

/-!
# What a bisection probes

Every probe leaves less than half of the range, and neither half has the probed position in it. So a
bisection probes no position twice and no more positions than the range's length has binary digits,
and a probe that fails is its last one. The search of an index for the first entry that fails a test
need not find the first one if the entries that pass are scattered, but it always ends between an
entry that passes and one that does not; where all that pass come first there is one such place.
-/

namespace Haystack

namespace Bisection

variable {ε α : Type} {probe : Nat → Except ε (Turn α)} {low high position : Nat}

theorem nodup_probed (probe : Nat → Except ε (Turn α)) (low high : Nat) :
    (run probe low high).probed.Nodup := by
  fun_induction run probe low high with
  | case1 low high inside middle problem failed => exact List.pairwise_singleton _ middle
  | case2 low high inside middle answer found => exact List.pairwise_singleton _ middle
  | case3 low high inside middle before further ih =>
      apply List.nodup_cons.mpr
      constructor
      · intro again
        exact Nat.lt_irrefl _ (mem_probed again).2
      · exact ih
  | case4 low high inside middle behind further ih =>
      apply List.nodup_cons.mpr
      constructor
      · intro again
        exact Nat.lt_irrefl _ (mem_probed again).1
      · exact ih
  | case5 => exact List.nodup_nil

/-- Each turn halves the range. -/
theorem length_probed_le {turns : Nat} (fits : high - low < 2 ^ turns) :
    (run probe low high).probed.length ≤ turns := by
  induction turns generalizing low high with
  | zero =>
      rw [run, dif_neg (by omega)]
      exact Nat.le_refl 0
  | succ turns ih =>
      rw [Nat.pow_succ] at fits
      have before : middle low high - low < 2 ^ turns := by
        unfold middle
        omega
      have behind : high - (middle low high + 1) < 2 ^ turns := by
        unfold middle
        omega
      unfold run
      split
      · dsimp only
        split
        · exact Nat.succ_le_succ (Nat.zero_le turns)
        · exact Nat.succ_le_succ (Nat.zero_le turns)
        · exact Nat.succ_le_succ (ih before)
        · exact Nat.succ_le_succ (ih behind)
      · exact Nat.zero_le (turns + 1)

theorem length_probed_le_log (probe : Nat → Except ε (Turn α)) (count : Nat) :
    (run probe 0 count).probed.length ≤ Nat.log 2 count + 1 :=
  length_probed_le (Nat.lt_pow_succ_log_self Nat.one_lt_two count)

theorem probed_empty (probe : Nat → Except ε (Turn α)) (position : Nat) :
    (run probe position position).probed = [] := by
  rw [run, dif_neg (Nat.lt_irrefl position)]

/-- A probe that fails is the last one, and its error is that of the search. -/
theorem result_of_failed {problem : ε} (probed : position ∈ (run probe low high).probed)
    (failed : probe position = .error problem) :
    (run probe low high).result = .error problem ∧
      (run probe low high).probed.getLast? = some position := by
  fun_induction run probe low high with
  | case1 low high inside middle other stopped =>
      obtain rfl := List.mem_singleton.mp probed
      obtain rfl := Except.error.inj (failed.symm.trans stopped)
      exact ⟨rfl, rfl⟩
  | case2 low high inside middle answer found =>
      obtain rfl := List.mem_singleton.mp probed
      cases failed.symm.trans found
  | case3 low high inside middle before further ih =>
      obtain rfl | later := List.mem_cons.mp probed
      · cases failed.symm.trans before
      · obtain ⟨ended, last⟩ := ih later
        exact ⟨ended, by rw [List.getLast?_cons, last, Option.getD_some]⟩
  | case4 low high inside middle behind further ih =>
      obtain rfl | later := List.mem_cons.mp probed
      · cases failed.symm.trans behind
      · obtain ⟨ended, last⟩ := ih later
        exact ⟨ended, by rw [List.getLast?_cons, last, Option.getD_some]⟩
  | case5 => cases probed

end Bisection

namespace Entry

variable {test : Entry → Except Error Bool} {entries : List Entry} {place : Nat}

/-- A place right behind an entry that passes a test, or at the start, and right before one that
does not, or at the end. -/
structure Border (test : Entry → Except Error Bool) (entries : List Entry) (place : Nat) :
    Prop where
  within : place ≤ entries.length
  passed : place = 0 ∨ ∃ entry, entries[place - 1]? = some entry ∧ test entry = .ok true
  failed : place = entries.length ∨ ∃ entry, entries[place]? = some entry ∧ test entry = .ok false

/-- Whatever comes before an entry that passes a test passes it too. -/
def PassFirst (test : Entry → Except Error Bool) (entries : List Entry) : Prop :=
  entries.Pairwise fun entry next => test next = .ok true → test entry = .ok true

/-- If the entries that pass come first, no border lies before another one. -/
theorem Border.not_lt (border : Border test entries place) (first : PassFirst test entries)
    {other : Nat} (further : Border test entries other) : ¬ place < other := by
  intro before
  obtain start | ⟨last, found, passes⟩ := further.passed
  · omega
  · obtain ends | ⟨entry, here, fails⟩ := border.failed
    · have most := further.within
      omega
    · obtain ⟨reach, rfl⟩ := List.getElem?_eq_some_iff.mp found
      obtain ⟨inside, rfl⟩ := List.getElem?_eq_some_iff.mp here
      obtain same | less := Nat.eq_or_lt_of_le (show place ≤ other - 1 by omega)
      · subst same
        cases passes.symm.trans fails
      · have passes := List.pairwise_iff_getElem.mp first _ _ inside reach less passes
        cases passes.symm.trans fails

theorem Border.unique (border : Border test entries place) (first : PassFirst test entries)
    {other : Nat} (further : Border test entries other) : other = place := by
  have least := border.not_lt first further
  have most := further.not_lt first border
  omega

/-- The side of an entry on which the search goes on. -/
def side (passes : Bool) : Turn Empty :=
  if passes then .behind else .before

theorem side_injective {passes other : Bool} (same : side passes = side other) :
    passes = other := by
  cases passes with
  | false =>
      cases other with
      | false => rfl
      | true => cases same
  | true =>
      cases other with
      | false => cases same
      | true => rfl

/-- What a probe says tells what the test said. -/
theorem map_side_eq_iff {outcome : Except Error Bool} (other : Except Error Bool) :
    outcome.map side = other.map side ↔ outcome = other := by
  constructor
  · intro same
    cases outcome with
    | error problem =>
        cases other with
        | error known => exact congrArg _ (Except.error.inj same)
        | ok passes => cases same
    | ok passes =>
        cases other with
        | error problem => cases same
        | ok known => exact congrArg _ (side_injective (Except.ok.inj same))
  · intro same
    rw [same]

theorem firstFailing_eq (bytes : Bytes) (test : Entry → Except Error Bool) :
    firstFailing bytes test =
      Bisection.run (fun place => (test (inPlace bytes place)).map side) 0
        (listOfBytes bytes).length := by
  rw [length_listOfBytes]
  rfl

theorem getElem?_of_lt_length {bytes : Bytes} (inside : place < (listOfBytes bytes).length) :
    (listOfBytes bytes)[place]? = some (inPlace bytes place) := by
  rw [getElem?_listOfBytes, if_pos (by rwa [length_listOfBytes] at inside)]

/-- A search of which no probe fails ends at a border. -/
theorem border_of_lands {bytes : Bytes} {landing : Landing Empty}
    (lands : Bisection.Lands (fun place => (test (inPlace bytes place)).map side) 0
      (listOfBytes bytes).length landing) :
    ∃ place, landing = .gap place ∧ Border test (listOfBytes bytes) place := by
  cases lands with
  | @found _ answer => exact nomatch answer
  | @gap place _ most left right =>
      refine ⟨place, rfl, most, ?_, ?_⟩
      · obtain start | behind := Nat.eq_zero_or_pos place
        · exact .inl start
        · exact .inr ⟨_, getElem?_of_lt_length (by omega),
            (map_side_eq_iff (.ok true)).mp (left behind)⟩
      · obtain ends | before := Nat.eq_or_lt_of_le most
        · exact .inl ends
        · exact .inr ⟨_, getElem?_of_lt_length before,
            (map_side_eq_iff (.ok false)).mp (right before)⟩

/-- The search for the first entry that fails a test asks for no entry twice and for no more than
the number of entries has binary digits. An error of the test ends it. Otherwise it ends at a
border between entries that pass and entries that do not, the only one if those that pass come
first. -/
theorem firstFailing_ends_at_border (bytes : Bytes) (test : Entry → Except Error Bool) :
    let entries := listOfBytes bytes
    let search := firstFailing bytes test
    (∀ place ∈ search.probed, place < entries.length) ∧ search.probed.Nodup ∧
      search.probed.length ≤ Nat.log 2 entries.length + 1 ∧
      (entries = [] → search.probed = []) ∧
      (∀ place ∈ search.probed, ∀ entry problem, entries[place]? = some entry →
        test entry = .error problem →
          search.result = .error problem ∧ search.probed.getLast? = some place) ∧
      ((∀ place ∈ search.probed, ∀ entry, entries[place]? = some entry →
          ∃ passes, test entry = .ok passes) →
        ∃ place, search.result = .ok (.gap place) ∧ Border test entries place ∧
          (PassFirst test entries → ∀ other, Border test entries other → other = place)) := by
  intro entries search
  have steps : search = _ := firstFailing_eq bytes test
  rw [steps]
  have found {place : Nat} (probed : place ∈ (Bisection.run
      (fun place => (test (inPlace bytes place)).map side) 0 entries.length).probed) :
      entries[place]? = some (inPlace bytes place) :=
    getElem?_of_lt_length (Bisection.mem_probed probed).2
  refine ⟨?_, Bisection.nodup_probed _ _ _, Bisection.length_probed_le_log _ _, ?_, ?_, ?_⟩
  · intro place probed
    exact (Bisection.mem_probed probed).2
  · intro none
    rw [show entries.length = 0 from List.length_eq_zero_iff.mpr none]
    exact Bisection.probed_empty _ 0
  · intro place probed entry problem here fails
    obtain rfl := Option.some.inj ((found probed).symm.trans here)
    exact Bisection.result_of_failed probed ((map_side_eq_iff (.error problem)).mpr fails)
  · intro answers
    cases ended : (Bisection.run (fun place => (test (inPlace bytes place)).map side) 0
        entries.length).result with
    | error problem =>
        obtain ⟨place, probed, fails⟩ := Bisection.exists_failed ended
        obtain ⟨passes, answered⟩ := answers place probed _ (found probed)
        cases answered.symm.trans ((map_side_eq_iff (.error problem)).mp fails)
    | ok landing =>
        obtain ⟨place, rfl, border⟩ :=
          border_of_lands (Bisection.lands_of_result (Nat.zero_le _) ended)
        exact ⟨place, rfl, border, fun first other => border.unique first⟩

/-- Among entries that pass and fail in turn the search ends at one of the borders, and an error that
no probe meets does not show. -/
theorem scattered_entries_end_at_border :
    let entries : List Entry :=
      [⟨5, ⟨1⟩, ⟨1⟩⟩, ⟨1, ⟨2⟩, ⟨1⟩⟩, ⟨7, ⟨3⟩, ⟨1⟩⟩, ⟨2, ⟨4⟩, ⟨1⟩⟩, ⟨9, ⟨5⟩, ⟨1⟩⟩]
    let bytes := listToBytes entries ++ [0, 0, 7]
    let test : Entry → Except Error Bool := fun entry =>
      if entry.key = 5 then .error (.notFound (.inSortedIndex 5)) else .ok (entry.key < 4)
    let search := firstFailing bytes test
    (∀ place ∈ search.probed, ∀ entry, (listOfBytes bytes)[place]? = some entry →
        ∃ passes, test entry = .ok passes) ∧
      search.probed = [2, 1] ∧
      ∃ place, search.result = .ok (.gap place) ∧ Border test (listOfBytes bytes) place := by
  intro entries bytes test search
  have probed : search.probed = [2, 1] := by decide +kernel
  have answers : ∀ place ∈ search.probed, ∀ entry, (listOfBytes bytes)[place]? = some entry →
      ∃ passes, test entry = .ok passes := by
    intro place member entry found
    rw [show listOfBytes bytes = entries by decide +kernel] at found
    rw [probed] at member
    obtain rfl | rfl : place = 2 ∨ place = 1 := by simpa using member
    · cases found
      exact ⟨false, rfl⟩
    · cases found
      exact ⟨true, rfl⟩
  obtain ⟨-, -, -, -, -, ends⟩ := firstFailing_ends_at_border bytes test
  obtain ⟨place, ended, border, -⟩ := ends answers
  exact ⟨answers, probed, place, ended, border⟩

end Entry

end Haystack
