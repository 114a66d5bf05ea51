/-!
# Tables

A table keeps one value for each of some keys. What an operation does to it is said by what
`find?` gives afterwards, for the key concerned and for every other.
-/

namespace Haystack

/-- Pairs of a key and its value. The operations below never let a key occur twice. -/
abbrev Table (κ α : Type) := List (κ × α)

namespace Table

variable {κ α : Type} [DecidableEq κ]

def find? (table : Table κ α) (key : κ) : Option α :=
  List.lookup key table

def has (table : Table κ α) (key : κ) : Bool :=
  (table.find? key).isSome

def erase (table : Table κ α) (key : κ) : Table κ α :=
  table.filter fun pair => pair.1 != key

/-- The table with a value for a key, in place of the one it had. -/
def insert (table : Table κ α) (key : κ) (value : α) : Table κ α :=
  (key, value) :: erase table key

/-- The table of a list of pairs, in which the last pair of a key counts. -/
def ofList (pairs : List (κ × α)) : Table κ α :=
  pairs.foldl (fun table pair => table.insert pair.1 pair.2) []

@[simp] theorem find?_erase_self (table : Table κ α) (key : κ) :
    find? (erase table key) key = none := by
  simp only [find?, erase, List.lookup_eq_none_iff, List.mem_filter, bne_iff_ne]
  exact fun pair h => by simpa using Ne.symm h.2

theorem find?_erase_of_ne (table : Table κ α) {key other : κ} (h : other ≠ key) :
    find? (erase table key) other = find? table other := by
  induction table with
  | nil => rfl
  | cons pair rest ih =>
    obtain ⟨present, value⟩ := pair
    simp only [find?, erase] at ih ⊢
    by_cases hp : present = key
    · have : (other == key) = false := by simpa using h
      simp [hp, List.lookup_cons, ih, this]
    · simp [hp, List.lookup_cons, ih]

@[simp] theorem find?_insert_self (table : Table κ α) (key : κ) (value : α) :
    find? (insert table key value) key = some value := by
  simp [insert, find?]

theorem find?_insert_of_ne (table : Table κ α) {key other : κ} (value : α) (h : other ≠ key) :
    find? (insert table key value) other = find? table other := by
  rw [← find?_erase_of_ne table h]
  have : (other == key) = false := by simpa using h
  simp [insert, find?, List.lookup_cons, this]

end Table

end Haystack
