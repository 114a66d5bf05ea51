import Haystack.Needle.Pairs
import Haystack.Proofs.Json.ReadBack
import Mathlib.Data.List.Induction

/-!
# Maps of pairs

A map is read back from the JSON object that it is written as. The map under the stored names has a
name from every name it was given, and where two of them become one, the value of the greater.
-/

namespace Haystack.Pairs

/-- The names rise, so that no name occurs twice. -/
def Rising (pairs : Pairs) : Prop :=
  pairs.Pairwise fun pair next => pair.1 < next.1

instance (pairs : Pairs) : Decidable pairs.Rising :=
  inferInstanceAs (Decidable (pairs.Pairwise fun pair next => pair.1 < next.1))

section Insertion

variable {map : Pairs}

/-- An insertion adds its pair and takes away no other name. -/
theorem mem_insert (rising : map.Rising) {pair : String × String} {name value : String} :
    pair ∈ insert name value map ↔ pair = (name, value) ∨ pair ∈ map ∧ pair.1 ≠ name := by
  induction map with
  | nil => simp [insert]
  | cons next rest ih =>
      obtain ⟨first, others⟩ := List.pairwise_cons.mp rising
      have behind := ih others
      unfold insert
      split
      · rename_i less
        have other (inside : pair ∈ next :: rest) : pair.1 ≠ name := by
          rintro rfl
          rcases List.mem_cons.mp inside with rfl | inside
          · exact String.lt_irrefl _ less
          · exact String.lt_asymm less (first pair inside)
        rw [List.mem_cons, and_iff_left_of_imp other]
      · split
        · rename_i same
          subst same
          have other (inside : pair ∈ rest) : pair.1 ≠ next.1 := by
            intro same
            exact String.lt_irrefl _ (same ▸ first pair inside)
          rw [List.mem_cons, List.mem_cons, or_and_right, and_iff_left_of_imp other]
          have gone : ¬(pair = next ∧ pair.1 ≠ next.1) := by
            rintro ⟨rfl, other⟩
            exact other rfl
          rw [or_iff_right gone]
        · rename_i different
          have other (same : pair = next) : pair.1 ≠ name := by
            rintro rfl
            exact different (congrArg Prod.fst same)
          rw [List.mem_cons, List.mem_cons, behind, or_and_right, and_iff_left_of_imp other,
            or_left_comm]

theorem Rising.insert (rising : map.Rising) (name value : String) :
    (Pairs.insert name value map).Rising := by
  induction map with
  | nil => exact List.pairwise_singleton _ _
  | cons next rest ih =>
      obtain ⟨first, others⟩ := List.pairwise_cons.mp rising
      unfold Pairs.insert
      split
      · rename_i less
        apply List.pairwise_cons.mpr
        refine ⟨?_, rising⟩
        intro pair inside
        rcases List.mem_cons.mp inside with rfl | inside
        · exact less
        · exact String.lt_trans less (first pair inside)
      · rename_i least
        split
        · rename_i same
          subst same
          exact List.pairwise_cons.mpr ⟨first, others⟩
        · rename_i different
          apply List.pairwise_cons.mpr
          refine ⟨?_, ih others⟩
          intro pair inside
          rcases (mem_insert others).mp inside with rfl | ⟨inside, -⟩
          · exact String.not_le.mp fun below =>
              different (String.le_antisymm below (String.not_lt.mp least))
          · exact first pair inside

theorem insert_eq_append {name : String} (above : ∀ pair ∈ map, pair.1 < name) (value : String) :
    insert name value map = map ++ [(name, value)] := by
  induction map with
  | nil => rfl
  | cons next rest ih =>
      have less := above next List.mem_cons_self
      have behind := ih fun pair inside => above pair (List.mem_cons_of_mem _ inside)
      have different : name ≠ next.1 := by
        rintro rfl
        exact String.lt_irrefl _ less
      rw [insert, if_neg (String.lt_asymm less), if_neg different, behind]
      rfl

end Insertion

section Lists

variable {pairs : List (String × String)}

theorem ofList_append_singleton (pairs : List (String × String)) (pair : String × String) :
    ofList (pairs ++ [pair]) = insert pair.1 pair.2 (ofList pairs) := by
  rw [ofList, List.foldl_append]
  rfl

theorem rising_ofList (pairs : List (String × String)) : (ofList pairs).Rising := by
  induction pairs using List.reverseRecOn with
  | nil => exact List.Pairwise.nil
  | append_singleton front pair ih =>
      rw [ofList_append_singleton]
      exact ih.insert pair.1 pair.2

/-- A map has every pair behind which its name does not come again. -/
theorem mem_ofList_iff {name value : String} :
    (name, value) ∈ ofList pairs ↔
      ∃ front back, pairs = front ++ (name, value) :: back ∧ ∀ pair ∈ back, pair.1 ≠ name := by
  induction pairs using List.reverseRecOn with
  | nil => simp [ofList]
  | append_singleton front pair ih =>
      rw [ofList_append_singleton, mem_insert (rising_ofList front), ih]
      constructor
      · rintro (same | ⟨⟨before, behind, rfl, last⟩, other⟩)
        · exact ⟨front, [], by rw [same], by simp⟩
        · refine ⟨before, behind ++ [pair], by simp, ?_⟩
          intro next inside
          rcases List.mem_append.mp inside with inside | inside
          · exact last next inside
          · rw [List.mem_singleton.mp inside]
            exact fun same => other same.symm
      · rintro ⟨before, behind, parts, last⟩
        cases behind using List.reverseRecOn with
        | nil =>
            obtain ⟨-, same⟩ := List.append_inj' parts rfl
            exact .inl (List.singleton_inj.mp same).symm
        | append_singleton behind final =>
            rw [← List.cons_append, ← List.append_assoc] at parts
            obtain ⟨rfl, same⟩ := List.append_inj' parts rfl
            rw [List.singleton_inj.mp same]
            refine .inr ⟨⟨before, behind, rfl, ?_⟩, ?_⟩
            · intro pair inside
              exact last pair (List.mem_append_left _ inside)
            · exact (last final (List.mem_append_right _ (List.mem_singleton_self final))).symm

theorem Rising.ofList_eq (rising : Rising pairs) : ofList pairs = pairs := by
  induction pairs using List.reverseRecOn with
  | nil => rfl
  | append_singleton front pair ih =>
      obtain ⟨front, -, above⟩ := List.pairwise_append.mp rising
      rw [ofList_append_singleton, ih front, insert_eq_append]
      intro other inside
      exact above other inside pair (List.mem_singleton_self pair)

end Lists

section Names

/-- A key and the name under which it is stored: one common start of header names is left out. -/
inductive Strips : (key name : String) → Prop
  | header (name : String) : Strips ("Seaweed-" ++ name) name
  | plain {name : String} (noHeader : ∀ rest, name ≠ "Seaweed-" ++ rest) : Strips name name

theorem storedName_header (name : String) : storedName ("Seaweed-" ++ name) = name := by
  have front : headerStart.toList.isPrefixOf ("Seaweed-" ++ name).toList = true := by
    rw [List.isPrefixOf_iff_prefix, String.toList_append]
    exact List.prefix_append _ _
  have length : headerStart.length = "Seaweed-".toList.length := rfl
  rw [storedName, if_pos front, String.toList_append, length, List.drop_left, String.ofList_toList]

theorem storedName_plain {name : String} (noHeader : ∀ rest, name ≠ "Seaweed-" ++ rest) :
    storedName name = name := by
  have front : ¬headerStart.toList.isPrefixOf name.toList = true := by
    rw [List.isPrefixOf_iff_prefix]
    rintro ⟨rest, parts⟩
    apply noHeader (String.ofList rest)
    apply String.toList_inj.mp
    rw [String.toList_append, ← parts]
    exact congrArg (headerStart.toList ++ ·) String.toList_ofList.symm
  rw [storedName, if_neg front]

theorem strips_iff {key name : String} : Strips key name ↔ storedName key = name := by
  constructor
  · intro strips
    cases strips with
    | header => exact storedName_header name
    | plain noHeader => exact storedName_plain noHeader
  · rintro rfl
    by_cases header : ∃ rest, key = "Seaweed-" ++ rest
    · obtain ⟨rest, rfl⟩ := header
      rw [storedName_header]
      exact .header rest
    · have noHeader : ∀ rest, key ≠ "Seaweed-" ++ rest := fun rest same => header ⟨rest, same⟩
      rw [storedName_plain noHeader]
      exact .plain noHeader

/-- What a map of pairs is kept as: every name that some key is stored under, with the value of the
greatest such key. -/
structure KeptAs (pairs kept : Pairs) : Prop where
  rising : kept.Rising
  mem_iff : ∀ name value, (name, value) ∈ kept ↔
    ∃ key, (key, value) ∈ pairs ∧ Strips key name ∧
      ∀ other ∈ pairs, Strips other.1 name → other.1 ≤ key

theorem Rising.keptAs_stored {pairs : Pairs} (rising : pairs.Rising) :
    KeptAs pairs pairs.stored := by
  refine ⟨rising_ofList _, ?_⟩
  intro name value
  rw [stored, mem_ofList_iff]
  simp only [strips_iff]
  constructor
  · rintro ⟨front, back, parts, last⟩
    obtain ⟨before, others, rfl, -, parts⟩ := List.map_eq_append_iff.mp parts
    obtain ⟨pair, behind, rfl, same, rfl⟩ := List.map_eq_cons_iff.mp parts
    cases same
    obtain ⟨-, -, above⟩ := List.pairwise_append.mp rising
    refine ⟨pair.1, List.mem_append_right _ List.mem_cons_self, rfl, ?_⟩
    intro other inside same
    rcases List.mem_append.mp inside with inside | inside
    · exact String.not_lt.mp (String.lt_asymm (above other inside pair List.mem_cons_self))
    · rcases List.mem_cons.mp inside with rfl | inside
      · exact String.le_refl _
      · exact absurd same (last _ (List.mem_map_of_mem inside))
  · rintro ⟨key, inside, rfl, greatest⟩
    obtain ⟨before, behind, rfl⟩ := List.append_of_mem inside
    refine ⟨before.map _, behind.map _, List.map_append, ?_⟩
    intro pair inside same
    obtain ⟨other, member, rfl⟩ := List.mem_map.mp inside
    obtain ⟨-, rising, -⟩ := List.pairwise_append.mp rising
    have less := (List.pairwise_cons.mp rising).1 other member
    have below := greatest other (List.mem_append_right _ (List.mem_cons_of_mem _ member)) same
    exact String.not_lt.mpr below less

end Names

section Text

open Json

/-- The members of the JSON object, with what they are read as. -/
def members (pairs : Pairs) : List Member :=
  pairs.map fun pair => (pair.1, writeText pair.2, .string (body pair.2))

theorem readAs_toJson (pairs : Pairs) :
    ReadAs pairs.toJson
      (.object (pairs.map fun pair => (body pair.1, .string (body pair.2)))) := by
  have read : ReadAs (writeObject (pairs.members.map fun member => (member.1, member.2.1)))
      (.object (pairs.members.map fun member => (body member.1, member.2.2))) := by
    apply readAs_object
    intro member inside
    obtain ⟨pair, -, rfl⟩ := List.mem_map.mp inside
    exact readAs_text pair.2
  rw [members, List.map_map, List.map_map] at read
  exact read

theorem ofJson?_pairs (pairs : Pairs) :
    ofJson? (.object (pairs.map fun pair => (body pair.1, .string (body pair.2)))) =
      some (ofList pairs) := by
  have names : (Json.object (pairs.map fun pair => (body pair.1, .string (body pair.2)))).members? =
      some (pairs.map fun pair => (pair.1, .string (body pair.2))) :=
    mapM_map_eq_some (fun pair => by simp) pairs
  have values : (pairs.map fun pair => (pair.1, Json.string (body pair.2))).mapM
      (fun member => do return (member.1, ← member.2.string?)) = some pairs := by
    rw [mapM_map_eq_some (h := id) (fun pair => by simp [string?]) pairs, List.map_id]
  rw [ofJson?, names, Option.bind_eq_bind, Option.bind_some, values]
  rfl

theorem Rising.decode_toJson {pairs : Pairs} (rising : pairs.Rising) :
    decode pairs.toJson = .ok pairs := by
  rw [decode, ofBytes?_of_readAs pairs.readAs_toJson, Option.bind_some, ofJson?_pairs,
    rising.ofList_eq]

end Text

end Haystack.Pairs
