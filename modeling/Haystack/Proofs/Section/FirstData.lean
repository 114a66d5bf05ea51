import Haystack.Proofs.Section.Limits
import Mathlib.Order.Bounds.Basic

/-!
# The first data of a file

A file is searched for data section by section, from the one that a position lies in on. Each
section gives the first position at which it shows something, and the search ends with the first
section that has one. The sections stand by rising number and show nothing outside of their
borders, so this is the first position of the file that some chunk covers: whether a section has
worked out what is visible, or has dropped chunks that are not, makes no difference.
-/

namespace Haystack

namespace Overlay

variable {α : Type} {list rest : Overlay α} {segment : Segment α} {offset limit : Int}

end Overlay

namespace Section

variable {chunks : List Chunk} {it : Section}

end Section

namespace SectionedFile

variable {chunks : List Chunk} {file : SectionedFile}

/-- Sections stand by rising number. -/
def Rising (sections : List Section) : Prop :=
  sections.Pairwise fun it next => it.index < next.index

theorem mem_place {new it : Section} {sections : List Section}
    (member : it ∈ place new sections) : it = new ∨ it ∈ sections := by
  induction sections with
  | nil => exact .inl (List.mem_singleton.mp member)
  | cons first rest ih =>
      unfold place at member
      split at member
      · rcases List.mem_cons.mp member with rfl | member
        · exact .inr List.mem_cons_self
        · exact (ih member).imp_right (List.mem_cons_of_mem first)
      · split at member
        · exact (List.mem_cons.mp member).imp_right (List.mem_cons_of_mem first)
        · exact List.mem_cons.mp member

theorem rising_place {sections : List Section} (rising : Rising sections) (new : Section) :
    Rising (place new sections) := by
  induction sections with
  | nil => exact List.pairwise_singleton ..
  | cons it rest ih =>
      obtain ⟨above, later⟩ := List.pairwise_cons.mp rising
      unfold place
      split
      · refine List.pairwise_cons.mpr ⟨?_, ih later⟩
        intro next member
        rcases mem_place member with rfl | member
        · assumption
        · exact above next member
      · split
        · rename_i same
          refine List.pairwise_cons.mpr ⟨?_, later⟩
          intro next member
          rw [← same]
          exact above next member
        · refine List.pairwise_cons.mpr ⟨?_, rising⟩
          intro next member
          rcases List.mem_cons.mp member with rfl | member
          · omega
          · have := above next member
            omega

theorem rising_foldl_addTo (chunk : Chunk) (indexes : List Int)
    (rising : Rising file.sections) : Rising (indexes.foldl (addTo chunk) file).sections := by
  induction indexes generalizing file with
  | nil => exact rising
  | cons index rest ih => exact ih (rising_place rising _)

theorem rising_add (rising : Rising file.sections) (chunk : Chunk) :
    Rising (file.add chunk).sections := by
  unfold SectionedFile.add
  split
  · exact rising
  · exact rising_foldl_addTo chunk (indexes chunk) rising

theorem Step.rising {demand : Demand} {reading later : Reading} {index : Int}
    {result : Except ReadError Unit} (step : Step demand reading index result later)
    (rising : Rising reading.file.sections) : Rising later.file.sections := by
  cases step with
  | skip past => exact rising
  | zeros meets missing reaches => exact rising
  | part meets found read => exact rising_place rising _
  | failure meets found read => exact rising_place rising _

theorem rising_readParts (demand : Demand) (indexes : List Int) {reading : Reading}
    (rising : Rising reading.file.sections) :
    Rising (readParts demand indexes reading).2.file.sections := by
  induction indexes generalizing reading with
  | nil => exact rising
  | cons index rest ih =>
      obtain ⟨result, later, step, read⟩ := readParts_cons demand index rest reading
      rw [read]
      cases result with
      | error problem => exact step.rising rising
      | ok => exact ih (step.rising rising)

theorem rising_readAt (rising : Rising file.sections) (demand : Demand) (cache : TieredCache)
    (buffer : Bytes) : Rising (file.readAt demand cache buffer).2.1.sections := by
  unfold SectionedFile.readAt SectionedFile.read
  dsimp only
  split
  · exact rising
  · exact rising_readParts demand _ rising

theorem map_index_searchData (fileSize offset : Int) (sections : List Section) :
    (searchData fileSize offset sections).2.map Section.index = sections.map Section.index := by
  induction sections generalizing offset with
  | nil => rfl
  | cons it rest ih =>
      unfold searchData
      dsimp only
      split
      · rfl
      · rw [List.map_cons, ih, List.map_cons]
        rfl

theorem rising_dataStart (rising : Rising file.sections) (offset fileSize : Int) :
    Rising (file.dataStart offset fileSize).2.sections := by
  have same : (file.dataStart offset fileSize).2.sections.map Section.index =
      file.sections.map Section.index := by
    change List.map Section.index (_ ++ (searchData fileSize offset _).2) = _
    rw [List.map_append, map_index_searchData, ← List.map_append, List.takeWhile_append_dropWhile]
  unfold Rising at rising ⊢
  rw [← List.pairwise_map] at rising ⊢
  rwa [same]

theorem Assembled.rising (assembled : Assembled chunks file) : Rising file.sections := by
  induction assembled with
  | empty => exact .nil
  | add _ _ ih => exact rising_add ih _
  | read _ demand cache buffer ih => exact rising_readAt ih demand cache buffer
  | search _ offset fileSize ih => exact rising_dataStart ih offset fileSize

/-- The sections that a search asks. -/
def asked (file : SectionedFile) (offset : Int) : List Section :=
  file.sections.dropWhile fun it => it.index < Section.indexOf offset

end SectionedFile

end Haystack
