import Haystack.Proofs.Section.Sound
import Mathlib.Data.List.Nodup

/-!
# Files of sections

The sections that a chunk is added to are those that it touches. So every section from the start of
the file on has worked out what is visible of all chunks that were added, and looking for data
makes no difference.
-/

namespace Haystack

namespace Section

theorem length_pos : 0 < length := by decide

theorem border_succ (index : Int) : (index + 1) * length = index * length + length := by
  rw [Int.add_mul, Int.one_mul]

theorem indexOf_of_nonneg {position : Int} (h : 0 ≤ position) :
    indexOf position = position / length :=
  Int.tdiv_eq_ediv_of_nonneg h

theorem indexOf_mono {position other : Int} (h : position ≤ other) :
    indexOf position ≤ indexOf other :=
  Int.tdiv_le_tdiv (by decide) h

theorem indexOf_of_within {it : Section} (first : 0 ≤ it.index) {position : Int}
    (low : it.start ≤ position) (high : position < it.stop) : indexOf position = it.index := by
  have most := stop_le_start_add first
  unfold start length at low most
  rw [indexOf_of_nonneg (by omega), length]
  omega

theorem stop_eq_border {it : Section} (first : 0 ≤ it.index)
    (border : (it.index + 1) * length ≤ maxPosition) : it.stop = (it.index + 1) * length := by
  have low : 0 ≤ (it.index + 1) * length := Int.mul_nonneg (by omega) (by decide)
  rw [stop, start, ← border_succ]
  exact wrapped_of_fits (by omega) border

end Section

namespace SectionedFile

variable {chunks : List Chunk} {file : SectionedFile}

/-- The section of a number, an empty one if there is none yet. -/
def sectionAt (file : SectionedFile) (index : Int) : Section :=
  (file.find? index).getD { index }

/-- Every section from the start of the file on is right for some chunks. -/
def Sound (file : SectionedFile) (chunks : List Chunk) : Prop :=
  ∀ index, 0 ≤ index → (file.sectionAt index).Sound chunks

theorem index_of_find? {index : Int} {it : Section} (found : file.find? index = some it) :
    it.index = index := by
  have matches_ := List.find?_some found
  exact beq_iff_eq.mp matches_

theorem index_sectionAt (file : SectionedFile) (index : Int) :
    (file.sectionAt index).index = index := by
  unfold sectionAt
  cases found : file.find? index with
  | none => rfl
  | some it => exact index_of_find? found

theorem find?_place_self (new : Section) (sections : List Section) :
    (place new sections).find? (fun it => it.index == new.index) = some new := by
  induction sections with
  | nil => simp [place]
  | cons it rest ih =>
      unfold place
      split
      · rename_i less
        rw [List.find?_cons_of_neg (by simp; omega)]
        exact ih
      · split <;> simp

theorem find?_place_of_ne {new : Section} {index : Int} (other : index ≠ new.index)
    (sections : List Section) :
    (place new sections).find? (fun it => it.index == index) =
      sections.find? fun it => it.index == index := by
  induction sections with
  | nil => simp [place, Ne.symm other]
  | cons it rest ih =>
      unfold place
      split
      · simp only [List.find?_cons, ih]
      · split
        · rename_i same
          rw [List.find?_cons_of_neg (by simp; omega), List.find?_cons_of_neg (by simp; omega)]
        · rw [List.find?_cons_of_neg (by simp; omega)]

theorem sectionAt_put (file : SectionedFile) (new : Section) (index : Int) :
    (file.put new).sectionAt index =
      if index = new.index then new else file.sectionAt index := by
  unfold sectionAt find? put
  split
  · rename_i same
    rw [same, find?_place_self, Option.getD_some]
  · rename_i other
    rw [find?_place_of_ne other]

theorem Sound.put (sound : file.Sound chunks) {new : Section}
    (right : 0 ≤ new.index → new.Sound chunks) : (file.put new).Sound chunks := by
  intro index first
  rw [sectionAt_put]
  split
  · rename_i same
    rw [same] at first
    exact right first
  · exact sound index first

theorem sectionAt_addTo (chunk : Chunk) (file : SectionedFile) (index other : Int) :
    (addTo chunk file index).sectionAt other =
      if other = index then (file.sectionAt index).add chunk else file.sectionAt other := by
  have same : ((file.sectionAt index).add chunk).index = index := file.index_sectionAt index
  change (file.put ((file.sectionAt index).add chunk)).sectionAt other = _
  rw [sectionAt_put, same]

theorem sectionAt_foldl_addTo (chunk : Chunk) {indexes : List Int} (different : indexes.Nodup)
    (file : SectionedFile) (index : Int) :
    (indexes.foldl (addTo chunk) file).sectionAt index =
      if index ∈ indexes then (file.sectionAt index).add chunk else file.sectionAt index := by
  induction indexes generalizing file with
  | nil => simp
  | cons first rest ih =>
      obtain ⟨fresh, different⟩ := List.nodup_cons.mp different
      rw [List.foldl_cons, ih different, sectionAt_addTo]
      by_cases same : index = first
      · subst same
        simp [fresh]
      · simp [same]

theorem nodup_indexes (chunk : Chunk) : (indexes chunk).Nodup := by
  refine List.Nodup.map ?_ List.nodup_range
  intro step other same
  exact Int.ofNat_inj.mp (Int.add_left_cancel same)

/-- A chunk is added to every section from the start of the file on that it touches. -/
theorem mem_indexes {chunk : Chunk} {it : Section} (first : 0 ≤ it.index)
    (touches : max chunk.offset it.start < min chunk.stop it.stop) :
    it.index ∈ indexes chunk := by
  have proper : it.start < it.stop := by omega
  have start := Section.indexOf_of_within first (Int.le_refl _) proper
  have last := Section.indexOf_of_within first (Int.le_sub_one_of_lt proper)
    (Int.sub_one_lt_of_le (Int.le_refl _))
  have begins := Section.start_nonneg first
  have most : chunk.stop ≤ maxPosition := wrapped_le _
  have before : wrapped (chunk.stop - 1) = chunk.stop - 1 :=
    wrapped_of_fits (by omega) (by omega)
  have low : Section.indexOf chunk.offset ≤ Section.indexOf (it.stop - 1) :=
    Section.indexOf_mono (by omega)
  have high : Section.indexOf it.start ≤ Section.indexOf (chunk.stop - 1) :=
    Section.indexOf_mono (by omega)
  refine List.mem_map.mpr ⟨(it.index - Section.indexOf chunk.offset).toNat, ?_, by omega⟩
  rw [List.mem_range, before]
  omega

/-- Adding a chunk adds it to the chunks that the sections are right for. -/
theorem Sound.add (sound : file.Sound chunks) {chunk : Chunk}
    (placed : -(2 ^ (63 : Nat)) ≤ chunk.offset) : (file.add chunk).Sound (chunks ++ [chunk]) := by
  intro index first
  have right := sound index first
  have number := file.index_sectionAt index
  unfold SectionedFile.add
  split
  · rename_i empty
    refine right.pass ?_
    have nothing : chunk.stop = wrapped chunk.offset := by
      rw [Chunk.stop, empty]
      exact congrArg wrapped (Int.add_zero _)
    have before := wrapped_le_self placed
    omega
  · rw [sectionAt_foldl_addTo chunk (nodup_indexes chunk)]
    split
    · exact right.add chunk
    · rename_i absent
      refine right.pass fun touches => absent ?_
      have member := mem_indexes (by rw [number]; exact first) touches
      rwa [number] at member

theorem sound_empty : Sound {} [] := fun index _ => Section.sound_empty index

theorem searchData_forall₂ (fileSize offset : Int) (sections : List Section) :
    List.Forall₂ (fun it later => later = it ∨ later = it.remembered) sections
      (searchData fileSize offset sections).2 := by
  induction sections generalizing offset with
  | nil => exact .nil
  | cons it rest ih =>
      unfold searchData
      dsimp only
      split
      · exact .cons (.inr rfl) (List.forall₂_same.mpr fun _ _ => .inl rfl)
      · exact .cons (.inr rfl) (ih _)

theorem find?_forall₂ {sections later : List Section}
    (same : List.Forall₂ (fun it later => later = it ∨ later = it.remembered) sections later)
    (index : Int) :
    (sections.find? fun it => it.index == index).Rel
      (fun it later => later = it ∨ later = it.remembered)
      (later.find? fun it => it.index == index) := by
  induction same with
  | nil => exact .none
  | @cons it next _ _ first rest ih =>
      have number : next.index = it.index := by
        rcases first with rfl | rfl <;> rfl
      simp only [List.find?_cons, number]
      split
      · exact .some first
      · exact ih

theorem sectionAt_dataStart (file : SectionedFile) (offset fileSize index : Int) :
    (file.dataStart offset fileSize).2.sectionAt index = file.sectionAt index ∨
      (file.dataStart offset fileSize).2.sectionAt index = (file.sectionAt index).remembered := by
  have same : List.Forall₂ (fun it later => later = it ∨ later = it.remembered) file.sections
      (file.dataStart offset fileSize).2.sections := by
    have kept : List.Forall₂ (fun (it later : Section) => later = it ∨ later = it.remembered)
        (file.sections.takeWhile fun it => it.index < Section.indexOf offset)
        (file.sections.takeWhile fun it => it.index < Section.indexOf offset) :=
      List.forall₂_same.mpr fun _ _ => .inl rfl
    have searched := List.rel_append kept (searchData_forall₂ fileSize offset
      (file.sections.dropWhile fun it => it.index < Section.indexOf offset))
    dsimp only at searched
    rw [List.takeWhile_append_dropWhile] at searched
    exact searched
  have found : (file.find? index).Rel (fun it later => later = it ∨ later = it.remembered)
      ((file.dataStart offset fileSize).2.find? index) := find?_forall₂ same index
  unfold sectionAt
  generalize file.find? index = old at found ⊢
  generalize (file.dataStart offset fileSize).2.find? index = new at found ⊢
  cases found with
  | none => exact .inl rfl
  | some kept => exact kept

theorem Sound.dataStart (sound : file.Sound chunks) (offset fileSize : Int) :
    (file.dataStart offset fileSize).2.Sound chunks := by
  intro index first
  rcases file.sectionAt_dataStart offset fileSize index with same | same
  · rw [same]
    exact sound index first
  · rw [same]
    exact (sound index first).remembered

end SectionedFile

end Haystack
