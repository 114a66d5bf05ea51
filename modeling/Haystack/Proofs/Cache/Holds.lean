import Haystack.Cache.Fetch

/-!
# Caches that hold the right contents

Chunks never change, so that a cache may be asked in place of the source as long as each tier
holds nothing but the contents of the chunks it was given. Every operation of a cache keeps this.
On disk it rests on file names: chunks whose names have the same digest share a file, and of such
chunks the contents have to be the same.
-/

namespace Haystack

/-- A source gives the contents of chunks and nothing else, if it gives anything. -/
def ChunkSource.Honest (source : ChunkSource) (content : String → Bytes) : Prop :=
  ∀ file data, source file = .ok data → data = content file

namespace Directory

theorem read?_write {directory later : Directory} {name : String} {contents : Bytes}
    (written : directory.write name contents = .ok later) (other : String) :
    later.read? other = if other = name then some contents else directory.read? other := by
  unfold write at written
  split at written
  · contradiction
  · rename_i items
    split at written
    · contradiction
    · cases written
      unfold read? find?
      by_cases same : other = name
      · subst same
        simp
      · simp only [Option.bind_some, Table.find?_insert_of_ne _ _ same, if_neg same]

theorem read?_of_read?_delete {directory : Directory} {name other : String} {data : Bytes}
    (h : (directory.delete name).read? other = some data) : directory.read? other = some data := by
  unfold delete at h
  split at h
  · cases directory with
    | none => exact h
    | some items =>
        by_cases same : other = name
        · subst same
          simp [read?, find?] at h
        · simpa [read?, find?, Table.find?_erase_of_ne _ same] using h
  · exact h

/-- A directory that was swept has no files. -/
theorem read?_swept (directory : Directory) (name : String) :
    directory.swept.read? name = none := by
  unfold read? find? swept
  rw [Option.bind_some]
  cases found : Table.find? _ name with
  | none => rfl
  | some item =>
      obtain ⟨front, back, parts, _⟩ := List.lookup_eq_some_iff.mp found
      have member : (name, item) ∈ (directory.getD []).filter fun item => !item.2.isFile := by
        rw [parts]
        simp
      cases item with
      | folder => rfl
      | file contents => simp [DirectoryItem.isFile] at member

end Directory

namespace MemoryTier

/-- Memory holds the contents of chunks. -/
def Holds (tier : MemoryTier) (content : String → Bytes) : Prop :=
  ∀ file data, tier.find? file = some data → data = content file

variable {tier : MemoryTier} {content : String → Bytes}

theorem Holds.offer (holds : tier.Holds content) (file : String) :
    (tier.offer file (content file)).Holds content := by
  unfold MemoryTier.offer
  split
  · intro other data found
    by_cases same : other = file
    · subst same
      rw [find?_insert_self, Option.some.injEq] at found
      exact found.symm
    · rw [find?_insert_of_ne tier _ same] at found
      exact holds other data found
  · exact holds

theorem Holds.remove (holds : tier.Holds content) (file : String) :
    (tier.remove file).Holds content := by
  intro other data found
  by_cases same : other = file
  · subst same
    rw [find?_remove_self] at found
    contradiction
  · rw [find?_remove_of_ne tier same] at found
    exact holds other data found

end MemoryTier

namespace DiskTier

/-- The files of a disk tier hold the contents of the chunks they are named for. -/
def Holds (tier : DiskTier) (content : String → Bytes) : Prop :=
  ∀ file data, tier.directory.read? (fileName file) = some data → data = content file

/-- Chunks that would share a file on disk have the same contents. -/
def NamesTell (content : String → Bytes) : Prop :=
  ∀ file other, fileName file = fileName other → content file = content other

variable {tier : DiskTier} {content : String → Bytes}

theorem holds_openOver (directory : Directory) (capacity limit : Nat) :
    ((openOver directory capacity).withPartLimit limit).Holds content := by
  intro file data found
  change directory.swept.read? _ = _ at found
  rw [Directory.read?_swept] at found
  contradiction

theorem read?_of_read?_remove {file name : String} {data : Bytes}
    (h : (tier.remove file).directory.read? name = some data) :
    tier.directory.read? name = some data := by
  unfold remove at h
  split at h
  · exact Directory.read?_of_read?_delete h
  · exact h

theorem read?_of_read?_deleteAll {chunks : Table String Nat} {directory : Directory}
    {name : String} {data : Bytes}
    (h : (chunks.foldl (fun (directory : Directory) chunk => directory.delete (fileName chunk.1))
      directory).read? name = some data) :
    directory.read? name = some data := by
  induction chunks generalizing directory with
  | nil => exact h
  | cons chunk rest ih => exact Directory.read?_of_read?_delete (ih h)

theorem read?_of_read?_settle {file name : String} {length : Nat} {data : Bytes}
    (h : (tier.settle file length).directory.read? name = some data) :
    tier.directory.read? name = some data := by
  unfold settle at h
  split at h
  · split at h
    · exact read?_of_read?_deleteAll h
    · exact read?_of_read?_remove h
  · exact read?_of_read?_remove h

theorem read?_of_read?_enter {file name : String} {length : Nat} {data : Bytes}
    (h : (tier.enter file length).directory.read? name = some data) :
    tier.directory.read? name = some data := by
  unfold enter at h
  split at h
  · exact h
  · split at h
    · exact read?_of_read?_deleteAll h
    · dsimp only at h
      split at h
      · exact h
      · have before := read?_of_read?_settle h
        exact before

theorem Holds.keep (holds : tier.Holds content) (names : NamesTell content) (file : String) :
    (tier.keep file (content file)).Holds content := by
  unfold DiskTier.keep store
  cases written : tier.directory.write (fileName file) (content file) with
  | error problem => exact holds
  | ok directory =>
      intro other data found
      have read := read?_of_read?_enter found
      rw [Directory.read?_write written] at read
      split at read
      · rename_i same
        rw [names other file same]
        exact (Option.some.inj read).symm
      · exact holds other data read

/-- What is loaded is the chunk's contents, and the tier still holds contents. -/
theorem Holds.load (holds : tier.Holds content) (file : String) :
    (tier.load file).2.Holds content ∧
      ∀ data, (tier.load file).1 = some data → data = content file := by
  unfold DiskTier.load
  split
  · exact ⟨holds, by simp⟩
  · split
    · rename_i data read
      refine ⟨holds, ?_⟩
      intro found same
      rw [← Option.some.inj same]
      exact holds file data read
    · refine ⟨?_, by simp⟩
      intro other data found
      exact holds other data (read?_of_read?_remove found)

end DiskTier

namespace TieredCache

/-- A cache holds the contents of chunks in all of its tiers. -/
structure Holds (cache : TieredCache) (content : String → Bytes) : Prop where
  memory : cache.memory.Holds content
  disks : ∀ tier ∈ cache.disks, tier.Holds content
  /-- File names matter where there are files. -/
  names : cache.disks = [] ∨ DiskTier.NamesTell content

variable {cache : TieredCache} {content : String → Bytes}

theorem holds_openOver (names : DiskTier.NamesTell content) (partLimit unit total : Nat)
    (directories : List Directory) :
    (openOver partLimit unit total directories).Holds content := by
  refine ⟨?_, ?_, .inr names⟩
  · intro file data found
    cases found
  · intro tier member
    obtain ⟨place, bound, rfl⟩ := List.getElem_of_mem member
    simp only [openOver, List.getElem_zipWith]
    exact DiskTier.holds_openOver _ _ _

theorem holds_loadFirst {disks : List DiskTier} (holds : ∀ tier ∈ disks, tier.Holds content)
    (file : String) :
    (∀ tier ∈ (loadFirst file disks).2, tier.Holds content) ∧
      ∀ data, (loadFirst file disks).1 = some data → data = content file := by
  induction disks with
  | nil => simp [loadFirst]
  | cons tier rest ih =>
      obtain ⟨first, later⟩ := List.forall_mem_cons.mp holds
      have loaded := first.load file
      have others := ih later
      unfold loadFirst
      cases load : tier.load file with
      | mk found tier =>
          rw [load] at loaded
          cases found with
          | some data =>
              refine ⟨List.forall_mem_cons.mpr ⟨loaded.1, later⟩, ?_⟩
              intro other same
              rw [← Option.some.inj same]
              exact loaded.2 data rfl
          | none => exact ⟨List.forall_mem_cons.mpr ⟨loaded.1, others.1⟩, others.2⟩

theorem loadFirst_eq_nil {file : String} {disks : List DiskTier} (none : disks = []) :
    (loadFirst file disks).2 = [] := by
  rw [none, loadFirst]

/-- What is found is the chunk's contents, and the cache still holds contents. -/
theorem Holds.find (holds : cache.Holds content) (file : String) :
    (cache.find file).2.Holds content ∧
      ∀ data, (cache.find file).1 = some data → data = content file := by
  have disks := holds_loadFirst holds.disks file
  have names : (loadFirst file cache.disks).2 = [] ∨ DiskTier.NamesTell content :=
    holds.names.imp_left loadFirst_eq_nil
  unfold TieredCache.find
  cases found : cache.memory.find? file with
  | some data =>
      refine ⟨holds, ?_⟩
      intro other same
      rw [← Option.some.inj same]
      exact holds.memory file data found
  | none =>
      cases load : loadFirst file cache.disks with
      | mk loaded tiers =>
          rw [load] at disks names
          cases loaded with
          | none => exact ⟨⟨holds.memory, disks.1, names⟩, by simp⟩
          | some data =>
              have right := disks.2 data rfl
              subst right
              exact ⟨⟨holds.memory.offer file, disks.1, names⟩, disks.2⟩

theorem Holds.lookup (holds : cache.Holds content) (file : String) :
    (cache.lookup file).2.Holds content ∧
      ∀ data, (cache.lookup file).1 = some data → data = content file := by
  obtain ⟨later, right⟩ := holds.find file
  exact ⟨⟨later.memory, later.disks, later.names⟩, right⟩

theorem Holds.store (holds : cache.Holds content) (file : String) :
    (cache.store file (content file)).Holds content := by
  refine ⟨holds.memory.offer file, ?_, ?_⟩
  · intro tier member
    rcases holds.names with none | names
    · simp [TieredCache.store, none] at member
    · obtain ⟨place, bound, rfl⟩ := List.getElem_of_mem member
      simp only [TieredCache.store, List.getElem_modify]
      split
      · exact (holds.disks _ (List.getElem_mem _)).keep names file
      · exact holds.disks _ (List.getElem_mem _)
  · refine holds.names.imp_left ?_
    intro none
    simp [TieredCache.store, none]

theorem Holds.uncache (holds : cache.Holds content) (file : String) :
    (cache.uncache file).Holds content :=
  ⟨holds.memory.remove file, holds.disks, holds.names⟩

/-- A chunk that is fetched from an honest source has its contents and is stored as such. -/
theorem Holds.fetch (holds : cache.Holds content) {source : ChunkSource}
    (honest : source.Honest content) (file : String) :
    (cache.fetch source file).2.Holds content ∧
      ∀ data, (cache.fetch source file).1 = .ok data → data = content file := by
  have counted : cache.countFetch.Holds content := ⟨holds.memory, holds.disks, holds.names⟩
  unfold TieredCache.fetch
  cases given : source file with
  | error problem => exact ⟨counted, by simp⟩
  | ok data =>
      have right := honest file data given
      subst right
      refine ⟨counted.store file, ?_⟩
      intro data same
      exact (Except.ok.inj same).symm

/-- A chunk that is got from a cache, or else from an honest source, has its contents, and the
cache still holds contents. -/
theorem Holds.getOrFetch (holds : cache.Holds content) {source : ChunkSource}
    (honest : source.Honest content) (cancelled : Bool) (file : String) :
    (cache.getOrFetch source cancelled file).2.Holds content ∧
      ∀ data, (cache.getOrFetch source cancelled file).1 = .ok data → data = content file := by
  have known {found : Bytes} (right : ∀ data, some found = some data → data = content file)
      (data : Bytes) (same : (.ok found : Except ReadError Bytes) = .ok data) :
      data = content file := by
    rw [← Except.ok.inj same]
    exact right found rfl
  have first := holds.lookup file
  unfold TieredCache.getOrFetch
  cases look : cache.lookup file with
  | mk found cache =>
      rw [look] at first
      cases found with
      | some found => exact ⟨first.1, known first.2⟩
      | none =>
          cases cancelled with
          | true => exact ⟨first.1, by simp⟩
          | false =>
              have second := first.1.lookup file
              cases again : cache.lookup file with
              | mk found later =>
                  simp only [again] at second ⊢
                  cases found with
                  | some found => exact ⟨second.1, known second.2⟩
                  | none => exact second.1.fetch honest file

/-- Who waits for a chunk that the source has gets it. -/
theorem getOrFetch_eq_ok (cache : TieredCache) {source : ChunkSource} {file : String}
    {data : Bytes} (given : source file = .ok data) :
    ∃ found, (cache.getOrFetch source false file).1 = .ok found := by
  unfold TieredCache.getOrFetch
  cases cache.lookup file with
  | mk found cache =>
      cases found with
      | some found => exact ⟨found, rfl⟩
      | none =>
          simp only [Bool.false_eq_true, if_false]
          cases cache.lookup file with
          | mk found cache =>
              cases found with
              | some found => exact ⟨found, rfl⟩
              | none =>
                  simp only [TieredCache.fetch, given]
                  exact ⟨data, rfl⟩

end TieredCache

end Haystack
