import Haystack.Index.Callbacks
import Haystack.Proofs.Index.Search
import Haystack.Proofs.Index.Walk

/-!
# Walks that call a function

A walk over an index makes the calls that would be made with the list of its entries, up to the
first failure, although it reads the entries in batches. A batch that is not full is the last one,
so a walk reads once more than there are full batches behind its start, and the entries at the end
of one batch and at the start of the next are neither left out nor passed on twice.
-/

namespace Haystack

variable {σ : Type}

namespace Entry

theorem listOfBytes_of_short {tail : Bytes} (short : tail.length < width) :
    listOfBytes tail = [] := by
  rw [listOfBytes, Nat.div_eq_of_lt short, takeEntries]

theorem listOfBytes_listToBytes (entries : List Entry) {tail : Bytes}
    (short : tail.length < width) : listOfBytes (listToBytes entries ++ tail) = entries := by
  induction entries with
  | nil => exact listOfBytes_of_short short
  | cons entry rest ih =>
      have whole : entry.toBytes.length % width = 0 := by
        rw [length_toBytes, Nat.mod_self]
      rw [listToBytes_cons, List.append_assoc, listOfBytes_append whole, listOfBytes_toBytes, ih,
        List.singleton_append]

end Entry

/-- Calls with some entries, one after the other, that all succeed and lead from one state to
another. -/
inductive Callback.Passes (callback : Callback σ Entry) : σ → List Entry → σ → Prop
  | done (state : σ) : Passes callback state [] state
  | next {state middle last : σ} {entry : Entry} {rest : List Entry} :
      callback state entry = (.ok (), middle) → Passes callback middle rest last →
      Passes callback state (entry :: rest) last

namespace Visits

/-- The calls with some entries in their order, each made once, up to the first that fails. -/
inductive UpToFailure (callback : Callback σ Entry) (state : σ) (entries : List Entry) :
    Visits σ → Prop
  | passed {last : σ} : callback.Passes state entries last →
      UpToFailure callback state entries { visited := entries, result := .ok (), state := last }
  | failed (front : List Entry) {middle last : σ} {entry : Entry} {back : List Entry}
      {problem : Error} :
      entries = front ++ entry :: back → callback.Passes state front middle →
      callback middle entry = (.error problem, last) →
      UpToFailure callback state entries
        { visited := front ++ [entry], result := .error problem, state := last }

theorem UpToFailure.cons {callback : Callback σ Entry} {state middle : σ} {entry : Entry}
    {rest : List Entry} {calls : Visits σ} (first : callback state entry = (.ok (), middle))
    (further : UpToFailure callback middle rest calls) :
    UpToFailure callback state (entry :: rest)
      { calls with visited := entry :: calls.visited } := by
  cases further with
  | passed passes => exact .passed (.next first passes)
  | failed front split passes stopped =>
      rw [split]
      exact .failed (entry :: front) rfl (.next first passes) stopped

theorem each_upToFailure (callback : Callback σ Entry) (state : σ) (entries : List Entry) :
    UpToFailure callback state entries (each callback state entries) := by
  induction entries generalizing state with
  | nil => exact .passed (.done state)
  | cons entry rest ih =>
      rw [each]
      cases called : callback state entry with
      | mk outcome middle =>
          cases outcome with
          | error problem => exact .failed [] rfl (.done state) called
          | ok => exact (ih middle).cons called

theorem each_append_of_error {callback : Callback σ Entry} {state : σ} {front : List Entry}
    {problem : Error} (failed : (each callback state front).result = .error problem)
    (back : List Entry) : each callback state (front ++ back) = each callback state front := by
  induction front generalizing state with
  | nil => cases failed
  | cons entry rest ih =>
      rw [each] at failed
      rw [List.cons_append, each, each]
      cases called : callback state entry with
      | mk outcome middle =>
          rw [called] at failed
          cases outcome with
          | error problem => rfl
          | ok => simp only [ih failed]

theorem each_append_of_ok {callback : Callback σ Entry} {state : σ} {front : List Entry}
    (passed : (each callback state front).result = .ok ()) (back : List Entry) :
    each callback state (front ++ back) =
      { each callback (each callback state front).state back with
        visited := (each callback state front).visited ++
          (each callback (each callback state front).state back).visited } := by
  induction front generalizing state with
  | nil => rfl
  | cons entry rest ih =>
      rw [each] at passed
      rw [List.cons_append, each, each]
      cases called : callback state entry with
      | mk outcome middle =>
          rw [called] at passed
          cases outcome with
          | error problem => cases passed
          | ok => simp only [ih passed, List.cons_append]

theorem toWalk_each (check : Entry → Except Error Unit) (state : σ) (entries : List Entry) :
    (each (fun state entry => (check entry, state)) state entries).toWalk =
      Walk.visit check entries := by
  induction entries with
  | nil => rfl
  | cons entry rest ih =>
      rw [each, Walk.visit, ← ih]
      cases check entry with
      | error problem => rfl
      | ok => rfl

end Visits

namespace Tour

theorem toVisits_onward (callback : Callback σ Entry) (file : File) (offset : Nat) (state : σ) :
    (onward callback file offset state).toVisits =
      Visits.each callback state (Entry.listOfBytes (file.contents.drop offset)) := by
  fun_induction onward callback file offset state with
  | case1 offset state bytes here problem failed =>
      by_cases short : bytes.length < Walk.batch * Entry.width
      · rw [Walk.drop_eq_read short]
      · rw [Walk.listOfBytes_drop_of_full short, Visits.each_append_of_error failed]
  | case2 offset state bytes here passed short => rw [Walk.drop_eq_read short]
  | case3 offset state bytes here passed full further ih =>
      rw [Walk.listOfBytes_drop_of_full full, Visits.each_append_of_ok passed, ← ih]

/-- The batches follow each other without gaps, and all but the last one are full. -/
theorem exists_reads_onward (callback : Callback σ Entry) (file : File) (offset : Nat)
    (state : σ) :
    ∃ count, count * (Walk.batch * Entry.width) ≤ file.contents.length - offset ∧
      (onward callback file offset state).reads =
        (List.range (count + 1)).map fun turn => offset + turn * (Walk.batch * Entry.width) := by
  have first (offset : Nat) : [offset] =
      (List.range (0 + 1)).map fun turn => offset + turn * (Walk.batch * Entry.width) := by
    rw [List.range_one, List.map_singleton, Nat.zero_mul, Nat.add_zero]
  fun_induction onward callback file offset state with
  | case1 offset state bytes here problem failed => exact ⟨0, by omega, first offset⟩
  | case2 offset state bytes here passed short => exact ⟨0, by omega, first offset⟩
  | case3 offset state bytes here passed full further ih =>
      obtain ⟨count, fits, reads⟩ := ih
      have length : bytes.length = Walk.batch * Entry.width := Walk.length_read_of_full full
      have inside := Bytes.length_slice file.contents offset (Walk.batch * Entry.width)
      change bytes.length = _ at inside
      refine ⟨count + 1, ?_, ?_⟩
      · rw [Nat.succ_mul]
        omega
      · change offset :: further.reads = _
        rw [reads, List.range_succ_eq_map (n := count + 1), List.map_cons, List.map_map,
          Nat.zero_mul, Nat.add_zero]
        congr 1
        apply List.map_congr_left
        intro turn _
        rw [length, Function.comp_apply, Nat.succ_mul]
        omega

theorem toWalk_run (check : Entry → Except Error Unit) (file : File) (start : Nat) (state : σ) :
    (run (fun state entry => (check entry, state)) file start state).toWalk =
      Walk.run check file start := by
  unfold run Walk.run
  split
  · rfl
  · rw [toVisits_onward, Visits.toWalk_each, Walk.onward_eq_visit]

theorem run_eq_onward {file : File} {start : Nat} (fits : start * Entry.width < 2 ^ (64 : Nat))
    (granted : file.refuses (Walk.batch * Entry.width) (start * Entry.width) = false)
    (callback : Callback σ Entry) (state : σ) :
    run callback file start state = onward callback file (start * Entry.width) state := by
  rw [run, Walk.origin_of_fits fits, granted, if_neg Bool.false_ne_true]

/-- A walk over the bytes of some entries and a piece of one more calls its function with the
entries from its start on, in their order and each once, and stops right behind the first call that
fails, with that call's error. It reads batch after batch and ends after one read more than there
are full batches behind the start, or sooner. All this if 64 bits hold the position of the start and
a disk lets a batch be read there. -/
theorem run_visits_entries {file : File} {entries : List Entry} {tail : Bytes}
    (holds : file.contents = Entry.listToBytes entries ++ tail)
    (short : tail.length < Entry.width) {start : Nat} (fits : start * Entry.width < 2 ^ (64 : Nat))
    (granted : file.refuses (Walk.batch * Entry.width) (start * Entry.width) = false)
    (callback : Callback σ Entry) (state : σ) :
    let tour := run callback file start state
    Visits.UpToFailure callback state (entries.drop start) tour.toVisits ∧
      ∃ count ≤ (entries.length - start) / Walk.batch,
        tour.reads = (List.range (count + 1)).map fun turn =>
          (start + turn * Walk.batch) * Entry.width := by
  rw [run_eq_onward fits granted]
  intro tour
  constructor
  · have calls : tour.toVisits = Visits.each callback state (entries.drop start) := by
      rw [← Entry.listOfBytes_listToBytes entries short, ← holds, ← Entry.listOfBytes_drop]
      exact toVisits_onward callback file _ state
    rw [calls]
    exact Visits.each_upToFailure callback state _
  · obtain ⟨count, inside, reads⟩ := exists_reads_onward callback file (start * Entry.width) state
    refine ⟨count, ?_, ?_⟩
    · rw [holds, List.length_append, Entry.length_listToBytes, ← Nat.mul_assoc] at inside
      have some : 0 < Walk.batch := by decide
      apply (Nat.le_div_iff_mul_le some).mpr
      generalize count * Walk.batch = passed at inside ⊢
      simp only [Entry.width] at inside short
      omega
    · refine reads.trans (List.map_congr_left fun turn _ => ?_)
      rw [Nat.add_mul, Nat.mul_assoc]

/-- A function that counts its calls and fails at the second one is called twice. -/
theorem failing_call_ends_walk :
    let entries : List Entry :=
      [⟨1, ⟨1⟩, ⟨10⟩⟩, ⟨2, ⟨2⟩, ⟨20⟩⟩, ⟨3, ⟨3⟩, ⟨30⟩⟩, ⟨4, ⟨4⟩, ⟨40⟩⟩]
    let file : File := { contents := Entry.listToBytes entries ++ [0, 0, 7] }
    let callback : Callback Nat Entry := fun count entry =>
      (if count = 1 then .error (.notFound (.inSortedIndex entry.key)) else .ok (), count + 1)
    let tour := run callback file 1 0
    file.contents = Entry.listToBytes entries ++ [0, 0, 7] ∧
      ([0, 0, 7] : Bytes).length < Entry.width ∧ 1 * Entry.width < 2 ^ (64 : Nat) ∧
      file.refuses (Walk.batch * Entry.width) (1 * Entry.width) = false ∧
      (Visits.UpToFailure callback 0 (entries.drop 1) tour.toVisits ∧
        ∃ count ≤ (entries.length - 1) / Walk.batch,
          tour.reads = (List.range (count + 1)).map fun turn =>
            (1 + turn * Walk.batch) * Entry.width) ∧
      tour.visited.map Entry.key = [2, 3] ∧ tour.state = 2 := by
  intro entries file callback tour
  have short : ([0, 0, 7] : Bytes).length < Entry.width := by decide
  have fits : 1 * Entry.width < 2 ^ (64 : Nat) := by decide
  have granted : file.refuses (Walk.batch * Entry.width) (1 * Entry.width) = false := rfl
  have calls : tour.toVisits = Visits.each callback 0 (entries.drop 1) := by
    rw [← Entry.listOfBytes_listToBytes entries short, ← Entry.listOfBytes_drop]
    exact (congrArg Tour.toVisits (run_eq_onward fits granted callback 0)).trans
      (toVisits_onward callback file _ 0)
  refine ⟨rfl, short, fits, granted, run_visits_entries rfl short fits granted callback 0, ?_, ?_⟩
  · rw [calls]
    rfl
  · rw [calls]
    rfl

/-- A walk from a number far behind the last entry is refused by a disk, and if its position does
not fit 64 bits it begins anew with the first one. -/
theorem far_start_is_refused_or_wraps_around :
    let entries : List Entry :=
      [⟨1, ⟨1⟩, ⟨10⟩⟩, ⟨2, ⟨2⟩, ⟨20⟩⟩, ⟨3, ⟨3⟩, ⟨30⟩⟩, ⟨4, ⟨4⟩, ⟨40⟩⟩]
    let file : File := { contents := Entry.listToBytes entries }
    let callback : Callback Nat Entry := fun count _ => (.ok (), count + 1)
    (run callback { file with medium := .disk } (2 ^ (59 : Nat)) 0).result =
        .error (.file .invalidArgument) ∧
      entries.drop (2 ^ (60 : Nat)) = [] ∧ (run callback file (2 ^ (60 : Nat)) 0).visited = entries := by
  intro entries file callback
  have beginning : Walk.origin (2 ^ (60 : Nat)) = 0 := by decide
  have granted : file.refuses (Walk.batch * Entry.width) 0 = false := rfl
  have listed : Entry.listOfBytes (file.contents.drop 0) = entries := by decide
  refine ⟨rfl, List.drop_of_length_le (by decide), ?_⟩
  have calls : (run callback file (2 ^ (60 : Nat)) 0).toVisits = Visits.each callback 0 entries := by
    rw [run, beginning, granted, if_neg Bool.false_ne_true, toVisits_onward, listed]
  rw [calls]
  rfl

end Tour

end Haystack
