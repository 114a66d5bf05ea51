import Haystack.Table
import Mathlib.Data.Set.Card

/-!
# Tables without double keys

The operations of a table never let a key occur twice. In such a table a pair is what its key is
looked up as, and the length is the number of keys.
-/

namespace Haystack

namespace Table

variable {κ α : Type} [DecidableEq κ] {table : Table κ α}

/-- No key occurs twice. -/
def Distinct (table : Table κ α) : Prop :=
  (table.map Prod.fst).Nodup

theorem Distinct.erase (distinct : table.Distinct) (key : κ) : (Table.erase table key).Distinct :=
  distinct.sublist (List.filter_sublist.map Prod.fst)

theorem Distinct.insert (distinct : table.Distinct) (key : κ) (value : α) :
    (Table.insert table key value).Distinct := by
  apply List.nodup_cons.mpr
  refine ⟨?_, distinct.erase key⟩
  intro again
  obtain ⟨pair, kept, same⟩ := List.mem_map.mp again
  have other := (List.mem_filter.mp kept).2
  simp [same] at other

theorem Distinct.length_eq (distinct : table.Distinct) :
    table.length = {key | (table.find? key).isSome}.ncard := by
  have keys : {key | (table.find? key).isSome} = ((table.map Prod.fst).toFinset : Set κ) := by
    ext key
    simp [find?, List.lookup_isSome_iff]
  rw [keys, Set.ncard_coe_finset, List.toFinset_card_of_nodup distinct, List.length_map]

theorem mem_of_find? {key : κ} {value : α} (found : table.find? key = some value) :
    (key, value) ∈ table := by
  obtain ⟨front, back, rfl, -⟩ := List.lookup_eq_some_iff.mp found
  exact List.mem_append_right _ List.mem_cons_self

/-- Without double keys a table gives every value that it has. -/
theorem Distinct.find?_eq_some_iff (distinct : table.Distinct) {key : κ} {value : α} :
    table.find? key = some value ↔ (key, value) ∈ table := by
  refine ⟨mem_of_find?, ?_⟩
  intro member
  obtain ⟨front, back, rfl⟩ := List.append_of_mem member
  apply List.lookup_eq_some_iff.mpr
  refine ⟨front, back, rfl, ?_⟩
  intro pair early
  have before : pair.1 ≠ key := by
    unfold Distinct at distinct
    rw [List.map_append, List.nodup_append'] at distinct
    rintro rfl
    exact distinct.2.2 (List.mem_map_of_mem early) List.mem_cons_self
  simpa using before.symm

theorem erase_of_find?_eq_none {key : κ} (missing : table.find? key = none) :
    table.erase key = table := by
  apply List.filter_eq_self.mpr
  intro pair member
  have other := List.lookup_eq_none_iff.mp missing pair member
  simpa using fun same => by simp [same] at other

end Table

end Haystack
