import Haystack.Index.Callbacks
import Haystack.Proofs.Index.Probes

/-!
# Searches that hand on what they find

In an index with rising keys a search calls its function once, with the position of the entry of
its key, and not at all if there is no such entry. It reads whole entries only, and no more of them
than the number of entries has binary digits. Looking up a key and deleting it are two such
searches, one without a function and one with that which writes the tombstone.
-/

namespace Haystack

variable {σ : Type}

/-- The function, if there is one, was called with this position and nothing else, and unless it
failed the entry's location is the result. -/
def Handover.Found (search : Handover σ) (process : Option (Callback σ Nat)) (state : σ)
    (position : Nat) (entry : Entry) : Prop :=
  match process with
  | none => search.handed = [] ∧ search.state = state ∧ search.result = .ok entry.location
  | some process =>
    search.handed = [position] ∧ search.state = (process state position).2 ∧
      search.result = (process state position).1.map fun () => entry.location

/-- Nothing was called, and the key is reported as not found. -/
structure Handover.Missed (search : Handover σ) (key : NeedleId) (state : σ) : Prop where
  handed : search.handed = []
  state : search.state = state
  result : search.result = .error (.notFound (.inSortedIndex key))

namespace File

variable {file : File} {entries : List Entry} {entry : Entry} {tail : Bytes} {key : NeedleId}
  {place length : Nat}

theorem lists_of_contents (holds : file.contents = Entry.listToBytes entries ++ tail)
    (short : tail.length < Entry.width) : file.Lists entries file.contents.length := by
  constructor
  · exact ⟨tail, holds⟩
  · rw [holds, List.length_append, Entry.length_listToBytes]
    simp only [Entry.width] at short ⊢
    omega

theorem reads_searchThen (file : File) (length : Nat) (key : NeedleId)
    (process : Option (Callback σ Nat)) (state : σ) :
    (file.searchThen length key process state).reads =
      (file.searchEntry length key).probed.map (· * Entry.width) := by
  unfold searchThen
  cases file.findEntry length key with
  | error problem => rfl
  | ok placed =>
      cases process with
      | none => rfl
      | some process => rfl

theorem found_searchThen {placed : PlacedEntry} (found : file.findEntry length key = .ok placed)
    (process : Option (Callback σ Nat)) (state : σ) :
    (file.searchThen length key process state).Found process state placed.offset placed.entry := by
  unfold searchThen
  rw [found]
  cases process with
  | none => exact ⟨rfl, rfl, rfl⟩
  | some process => exact ⟨rfl, rfl, rfl⟩

theorem missed_searchThen
    (absent : file.findEntry length key = .error (.notFound (.inSortedIndex key)))
    (process : Option (Callback σ Nat)) (state : σ) :
    (file.searchThen length key process state).Missed key state := by
  unfold searchThen
  rw [absent]
  exact ⟨rfl, rfl, rfl⟩

theorem findEntry_eq_searchThen (file : File) (length : Nat) (key : NeedleId) (state : σ) :
    ((file.findEntry length key).map fun placed => placed.entry.location) =
      (file.searchThen length key none state).result := by
  unfold searchThen
  cases file.findEntry length key with
  | error problem => rfl
  | ok placed => rfl

theorem deleteEntry_eq_searchThen (file : File) (length : Nat) (key : NeedleId) :
    let search := file.searchThen length key (some markDeleted) file
    ((file.deleteEntry length key).1.map fun placed => placed.entry.location) = search.result ∧
      (file.deleteEntry length key).2 = search.state := by
  unfold searchThen deleteEntry
  cases file.findEntry length key with
  | error problem => exact ⟨rfl, rfl⟩
  | ok placed =>
      dsimp only
      obtain ⟨outcome, marked⟩ := file.markDeleted placed.offset
      cases outcome with
      | error problem => exact ⟨rfl, rfl⟩
      | ok => exact ⟨rfl, rfl⟩

/-- A search through an index with rising keys ends after few reads of whole entries. If the key
has an entry, the function is called once, with the position of this entry, and the entry's location
is the result. If it has none, nothing is called and the key is not found. -/
theorem search_hands_on_position (holds : file.contents = Entry.listToBytes entries ++ tail)
    (short : tail.length < Entry.width) (rising : Entry.Rising entries) (key : NeedleId)
    (process : Option (Callback σ Nat)) (state : σ) :
    let search := file.searchThen file.contents.length key process state
    (∀ place entry, entries[place]? = some entry → entry.key = key →
        search.Found process state (place * Entry.width) entry) ∧
      ((∀ entry ∈ entries, entry.key ≠ key) → search.Missed key state) ∧
      (∀ position ∈ search.reads, ∃ place < entries.length, position = place * Entry.width) ∧
      search.reads.length ≤ Nat.log 2 entries.length + 1 ∧
      (entries = [] → search.reads = []) := by
  intro search
  have lists := lists_of_contents holds short
  have reads : search.reads =
      (Bisection.run (file.probeEntry key) 0 entries.length).probed.map (· * Entry.width) := by
    rw [← lists.count]
    exact reads_searchThen file _ key process state
  refine ⟨?_, ?_, ?_, ?_, ?_⟩
  · rintro place entry found rfl
    exact found_searchThen (lists.findEntry rising found) process state
  · intro absent
    exact missed_searchThen (lists.findEntry_of_absent absent) process state
  · intro position member
    rw [reads] at member
    obtain ⟨place, probed, rfl⟩ := List.mem_map.mp member
    exact ⟨place, (Bisection.mem_probed probed).2, rfl⟩
  · rw [reads, List.length_map]
    exact Bisection.length_probed_le_log _ _
  · intro none
    rw [reads, none]
    exact congrArg (List.map _) (Bisection.probed_empty _ 0)

/-- Deleting the second of three keys writes the tombstone behind the sixteen bytes of the first
entry. -/
theorem deletion_hands_on_position :
    let entries : List Entry := [⟨2, ⟨1⟩, ⟨100⟩⟩, ⟨5, ⟨2⟩, ⟨101⟩⟩, ⟨9, ⟨3⟩, ⟨102⟩⟩]
    let file : File := { contents := Entry.listToBytes entries ++ [0, 0, 7] }
    let search := file.searchThen file.contents.length 5 (some markDeleted) file
    file.contents = Entry.listToBytes entries ++ [0, 0, 7] ∧
      ([0, 0, 7] : Bytes).length < Entry.width ∧ Entry.Rising entries ∧
      search.handed = [16] ∧ search.result = .ok ⟨⟨2⟩, ⟨101⟩⟩ ∧
      search.state.contents = Entry.listToBytes
        [⟨2, ⟨1⟩, ⟨100⟩⟩, ⟨5, ⟨2⟩, .tombstone⟩, ⟨9, ⟨3⟩, ⟨102⟩⟩] ++ [0, 0, 7] ∧
      search.reads.length ≤ 2 := by
  intro entries file search
  have short : ([0, 0, 7] : Bytes).length < Entry.width := by decide
  have rising : Entry.Rising entries := by decide
  have holds : file.contents = Entry.listToBytes entries ++ [0, 0, 7] := rfl
  obtain ⟨found, -, -, few, -⟩ :=
    search_hands_on_position holds short rising 5 (some markDeleted) file
  obtain ⟨handed, state, result⟩ := found 1 _ rfl rfl
  have marked : file.markDeleted (1 * Entry.width) = (.ok (), { file with
      contents := Entry.listToBytes (entries.set 1 (Entry.buried ⟨5, ⟨2⟩, ⟨101⟩⟩)) ++ [0, 0, 7] }) :=
    markDeleted_eq rfl holds rfl
  rw [marked] at state result
  exact ⟨holds, short, rising, handed, result, congrArg contents state, few⟩

end File

end Haystack
