import Haystack.Erasure.Journal
import Haystack.Proofs.Index.Search

/-!
# Deletions and their journal

After any deletions the index is the one it was, with the tombstone in the entries of the needles
that were deleted, and the journal names these needles in the order of the calls. Whichever of the
tombstones are lost, rebuilding the index from the journal writes them all again.
-/

namespace Haystack

namespace Entry

/-- The entry after the deletion of some needles. -/
def swept (ids : List NeedleId) (entry : Entry) : Entry :=
  if entry.key ∈ ids then entry.buried else entry

@[simp] theorem key_swept (ids : List NeedleId) (entry : Entry) :
    (entry.swept ids).key = entry.key := by
  unfold swept
  split <;> rfl

@[simp] theorem swept_nil (entry : Entry) : entry.swept [] = entry :=
  if_neg (List.not_mem_nil)

theorem swept_swept (ids further : List NeedleId) (entry : Entry) :
    (entry.swept ids).swept further = entry.swept (ids ++ further) := by
  unfold swept
  by_cases first : entry.key ∈ ids <;> by_cases second : entry.key ∈ further <;>
    simp [first, second, buried]

variable {entries : List Entry}

theorem map_swept_nil (entries : List Entry) : entries.map (swept []) = entries :=
  (List.map_congr_left fun entry _ => swept_nil entry).trans (List.map_id entries)

theorem map_swept_swept (ids further : List NeedleId) (entries : List Entry) :
    (entries.map (swept ids)).map (swept further) = entries.map (swept (ids ++ further)) := by
  rw [List.map_map]
  exact List.map_congr_left fun entry _ => swept_swept ids further entry

theorem Rising.swept (rising : Rising entries) (ids : List NeedleId) :
    Rising (entries.map (Entry.swept ids)) := by
  unfold Rising
  rw [List.pairwise_map]
  exact rising.imp fun less => by rwa [key_swept, key_swept]

theorem map_swept_congr {ids others : List NeedleId}
    (same : ∀ entry ∈ entries, entry.key ∈ ids ↔ entry.key ∈ others) :
    entries.map (swept ids) = entries.map (swept others) := by
  apply List.map_congr_left
  intro entry member
  unfold swept
  rw [if_congr (same entry member) rfl rfl]

/-- Where the keys rise, marking the entry of a key is all that its deletion does. -/
theorem Rising.set_buried (rising : Rising entries) {place : Nat} {entry : Entry}
    (found : entries[place]? = some entry) :
    entries.set place entry.buried = entries.map (Entry.swept [entry.key]) := by
  apply List.ext_getElem?
  intro other
  rw [List.getElem?_map]
  obtain rfl | apart := eq_or_ne place other
  · obtain ⟨inside, _⟩ := List.getElem?_eq_some_iff.mp found
    rw [List.getElem?_set_self inside, found, Option.map_some, Entry.swept,
      if_pos (List.mem_singleton.mpr rfl)]
  · rw [List.getElem?_set_ne apart]
    cases again : entries[other]? with
    | none => rfl
    | some next =>
        have unlike : next.key ∉ [entry.key] := by
          rw [List.mem_singleton]
          exact fun same => apart (rising.place_eq found again same.symm)
        rw [Option.map_some, Entry.swept, if_neg unlike]

/-- Whether some entry has a key. -/
def lists (entries : List Entry) (key : NeedleId) : Bool :=
  entries.any fun entry => entry.key == key

theorem lists_iff {key : NeedleId} :
    lists entries key = true ↔ ∃ entry ∈ entries, entry.key = key := by
  simp [lists]

theorem lists_swept (ids : List NeedleId) (key : NeedleId) :
    lists (entries.map (swept ids)) key = lists entries key := by
  simp [lists, List.any_map, Function.comp_def]

theorem map_swept_of_absent {key : NeedleId} (absent : ¬lists entries key = true) :
    entries.map (swept [key]) = entries := by
  have unlike : ∀ entry ∈ entries, entry.key ∈ [key] ↔ entry.key ∈ ([] : List NeedleId) := by
    intro entry member
    rw [List.mem_singleton]
    exact iff_of_false (fun same => absent (lists_iff.mpr ⟨entry, member, same⟩))
      List.not_mem_nil
  rw [map_swept_congr unlike, map_swept_nil]

end Entry

namespace Erasure.IndexFiles

open Entry

/-- The numbers of some needles as they stand in a journal. -/
def journalBytes (ids : List NeedleId) : Bytes :=
  ids.flatMap fun id => Bytes.ofNat 8 id.toNat

theorem journalBytes_concat (ids : List NeedleId) (id : NeedleId) :
    journalBytes (ids ++ [id]) = journalBytes ids ++ Bytes.ofNat 8 id.toNat := by
  rw [journalBytes, List.flatMap_append, List.flatMap_singleton]
  rfl

theorem length_journalBytes (ids : List NeedleId) :
    (journalBytes ids).length = ids.length * 8 := by
  induction ids with
  | nil => rfl
  | cons id rest ih =>
      rw [journalBytes, List.flatMap_cons, List.length_append, Bytes.length_ofNat,
        List.length_cons, Nat.succ_mul, Nat.add_comm]
      exact congrArg (· + 8) ih

theorem journaled_journalBytes (ids : List NeedleId) : journaled (journalBytes ids) = ids := by
  unfold journaled
  rw [length_journalBytes, Nat.mul_div_cancel _ (by decide)]
  induction ids with
  | nil => rfl
  | cons id rest ih =>
      have front : journalBytes (id :: rest) = Bytes.ofNat 8 id.toNat ++ journalBytes rest :=
        List.flatMap_cons
      have here : Bytes.wordAt (journalBytes (id :: rest)) 0 8 = id.toNat := by
        rw [front, Bytes.wordAt_ofNat_append, Nat.mod_eq_of_lt id.toNat_lt]
      have behind : (journalBytes (id :: rest)).drop 8 = journalBytes rest := by
        rw [front, List.drop_left' (Bytes.length_ofNat 8 id.toNat)]
      rw [List.length_cons, takeIds, here, UInt64.ofNat_toNat, behind, ih]

variable {entries : List Entry} {length : Nat} {file : File}

/-- An index file without faults that holds some entries and nothing else. -/
structure Sorted (file : File) (entries : List Entry) (length : Nat) : Prop where
  reliable : file.faults.write = none
  contents : file.contents = listToBytes entries
  count : length / width = entries.length
  rising : Rising entries

theorem Sorted.lists (sorted : Sorted file entries length) : file.Lists entries length :=
  ⟨⟨[], by rw [sorted.contents, List.append_nil]⟩, sorted.count⟩

/-- The file with the entries after the deletion of some needles. -/
def sweptFile (file : File) (entries : List Entry) (ids : List NeedleId) : File :=
  { file with contents := listToBytes (entries.map (swept ids)) }

theorem Sorted.swept (sorted : Sorted file entries length) (ids : List NeedleId) :
    Sorted (sweptFile file entries ids) (entries.map (Entry.swept ids)) length :=
  ⟨sorted.reliable, rfl, by rw [List.length_map, sorted.count], sorted.rising.swept ids⟩

theorem Sorted.deleteEntry (sorted : Sorted file entries length) {place : Nat} {entry : Entry}
    (found : entries[place]? = some entry) :
    file.deleteEntry length entry.key =
      (.ok { offset := place * width, entry }, sweptFile file entries [entry.key]) := by
  have holds : file.contents = listToBytes entries ++ [] := by
    rw [sorted.contents, List.append_nil]
  unfold File.deleteEntry
  rw [sorted.lists.findEntry sorted.rising found]
  dsimp only
  rw [File.markDeleted_eq sorted.reliable holds found, List.append_nil,
    sorted.rising.set_buried found]
  rfl

theorem Sorted.deleteEntry_of_absent (sorted : Sorted file entries length) {key : NeedleId}
    (absent : ¬Entry.lists entries key = true) :
    file.deleteEntry length key = (.error (.notFound (.inSortedIndex key)), file) := by
  unfold File.deleteEntry
  rw [sorted.lists.findEntry_of_absent]
  intro entry member same
  exact absent (lists_iff.mpr ⟨entry, member, same⟩)

theorem Sorted.bury (sorted : Sorted file entries length) (key : NeedleId) :
    bury file length key = (.ok (Entry.lists entries key), sweptFile file entries [key]) := by
  unfold IndexFiles.bury
  by_cases present : Entry.lists entries key = true
  · obtain ⟨entry, member, rfl⟩ := lists_iff.mp present
    obtain ⟨place, found⟩ := List.mem_iff_getElem?.mp member
    rw [sorted.deleteEntry found, present]
  · rw [sorted.deleteEntry_of_absent present, Bool.eq_false_iff.mpr present, sweptFile,
      map_swept_of_absent present, ← sorted.contents]
    rfl

theorem Sorted.buryAll (sorted : Sorted file entries length) (ids : List NeedleId) :
    buryAll file length ids = (.ok (), sweptFile file entries ids) := by
  induction ids generalizing file entries with
  | nil =>
      rw [sweptFile, map_swept_nil, ← sorted.contents]
      rfl
  | cons id rest ih =>
      unfold IndexFiles.buryAll
      rw [sorted.bury]
      dsimp only
      rw [ih (sorted.swept [id]), sweptFile, map_swept_swept]
      rfl

variable {files : IndexFiles} {opened : Opened} {ids : List NeedleId}

/-- Deletes needles one after the other, and gives what the calls answer. -/
def deleteEach (files : IndexFiles) (opened : Opened) :
    List NeedleId → List (Except Error Unit) × IndexFiles
  | [] => ([], files)
  | id :: rest =>
    let (answer, files) := files.delete opened id
    let (answers, files) := deleteEach files opened rest
    (answer :: answers, files)

/-- The files hold an index after some deletions, and the journal of them. -/
structure Deleted (files : IndexFiles) (opened : Opened) (entries : List Entry)
    (ids : List NeedleId) : Prop where
  rising : Rising entries
  length : opened.length / width = entries.length
  kept : opened.journalKept = true
  index : files.index = some (listToBytes (entries.map (swept ids)))
  journal : files.journal = some (journalBytes (ids.filter (Entry.lists entries)))

theorem Deleted.sorted (deleted : Deleted files opened entries ids) :
    Sorted files.indexFile (entries.map (swept ids)) opened.length := by
  refine ⟨rfl, ?_, by rw [List.length_map, deleted.length], deleted.rising.swept ids⟩
  rw [indexFile, deleted.index, Option.getD_some]

/-- A deletion answers that all went well, and is one more of those that the files tell of. -/
theorem Deleted.delete (deleted : Deleted files opened entries ids) (id : NeedleId) :
    (files.delete opened id).1 = .ok () ∧
      Deleted (files.delete opened id).2 opened entries (ids ++ [id]) := by
  have index : (sweptFile files.indexFile (entries.map (swept ids)) [id]).contents =
      listToBytes (entries.map (swept (ids ++ [id]))) := by
    rw [sweptFile, map_swept_swept]
  unfold IndexFiles.delete
  rw [deleted.sorted.bury, lists_swept]
  cases present : Entry.lists entries id with
  | false =>
      refine ⟨rfl, deleted.rising, deleted.length, deleted.kept, congrArg some index, ?_⟩
      rw [List.filter_append, List.filter_cons_of_neg (by simp [present]), List.filter_nil,
        List.append_nil]
      exact deleted.journal
  | true =>
      refine ⟨rfl, deleted.rising, deleted.length, deleted.kept, congrArg some index, ?_⟩
      rw [List.filter_append, List.filter_cons_of_pos present, List.filter_nil,
        journalBytes_concat]
      dsimp only
      rw [if_pos deleted.kept, deleted.journal, Option.map_some]

theorem Deleted.deleteEach (deleted : Deleted files opened entries ids)
    (further : List NeedleId) :
    (files.deleteEach opened further).1 = further.map (fun _ => .ok ()) ∧
      Deleted (files.deleteEach opened further).2 opened entries (ids ++ further) := by
  induction further generalizing files ids with
  | nil => exact ⟨rfl, by rwa [List.append_nil]⟩
  | cons id rest ih =>
      obtain ⟨answer, next⟩ := deleted.delete id
      obtain ⟨answers, last⟩ := ih next
      rw [List.append_assoc] at last
      refine ⟨?_, last⟩
      rw [List.map_cons, ← answers, ← answer]
      rfl

/-- A search finds the entry of a key as the deletions left it. -/
theorem Deleted.find (deleted : Deleted files opened entries ids) (key : NeedleId) :
    files.find opened key = match entries.find? fun entry => entry.key == key with
      | some entry => .ok (entry.swept ids)
      | none => .error (.notFound (.inSortedIndex key)) := by
  have sorted := deleted.sorted
  unfold IndexFiles.find
  cases present : entries.find? fun entry => entry.key == key with
  | none =>
      rw [sorted.lists.findEntry_of_absent]
      · rfl
      · intro other member
        obtain ⟨entry, inside, rfl⟩ := List.mem_map.mp member
        rw [key_swept]
        simpa using List.find?_eq_none.mp present entry inside
  | some entry =>
      obtain rfl : entry.key = key := by simpa using List.find?_some present
      obtain ⟨place, found⟩ := List.mem_iff_getElem?.mp (List.mem_of_find?_eq_some present)
      have swept : (entries.map (swept ids))[place]? = some (entry.swept ids) := by
        rw [List.getElem?_map, found, Option.map_some]
      rw [← key_swept ids entry, sorted.lists.findEntry sorted.rising swept]
      rfl

/-- The journal brings back every tombstone that was lost. -/
theorem Deleted.rebuild (deleted : Deleted files opened entries ids) {kept : List NeedleId}
    (written : kept ⊆ ids) (reopened : Option Opened) :
    rebuild { files with index := some (listToBytes (entries.map (swept kept)))
                         opened := reopened } =
      (.ok (), { files with
        journal := none
        opened := reopened.map fun opened => { opened with journalKept := false } }) := by
  let crashed : IndexFiles := { files with
    index := some (listToBytes (entries.map (swept kept))), opened := reopened }
  have sorted : Sorted crashed.indexFile (entries.map (swept kept))
      crashed.indexFile.contents.length := by
    refine ⟨rfl, rfl, ?_, deleted.rising.swept kept⟩
    change (listToBytes (entries.map (swept kept))).length / width = _
    rw [length_listToBytes, Nat.mul_div_cancel _ (by decide)]
  have restored : (entries.map (swept kept)).map (swept (ids.filter (Entry.lists entries))) =
      entries.map (swept ids) := by
    rw [map_swept_swept]
    apply map_swept_congr
    intro entry member
    have present : Entry.lists entries entry.key = true := lists_iff.mpr ⟨entry, member, rfl⟩
    rw [List.mem_append, List.mem_filter]
    constructor
    · rintro (before | ⟨again, _⟩)
      · exact written before
      · exact again
    · intro inside
      exact .inr ⟨inside, present⟩
  change crashed.rebuild = _
  unfold IndexFiles.rebuild
  rw [show crashed.journal = _ from deleted.journal]
  dsimp only
  rw [journaled_journalBytes, sorted.buryAll]
  dsimp only [sweptFile]
  rw [restored, ← deleted.index]

/-- After any deletions, of needles known or not and once or more often, all calls have gone well.
The index is what it was, with the tombstone for the size in the entries of the deleted needles; a
search finds each key with its entry, and no other. The journal names the deleted needles that the
index has, call by call. Whichever of the tombstones are lost then, rebuilding brings back the same
index and takes the journal away, and rebuilding again does nothing. -/
theorem lost_deletions_rebuilt {entries : List Entry} (rising : Rising entries) (base : String)
    (ids : List NeedleId) :
    let files : IndexFiles := { base, index := some (listToBytes entries) }
    let opened : Opened := { length := (listToBytes entries).length }
    let (answers, after) := files.openBoth.deleteEach opened ids
    files.openBoth.opened = some opened ∧ answers = ids.map (fun _ => .ok ()) ∧
      after.index = some (listToBytes (entries.map (swept ids))) ∧
      (∀ key, after.find opened key = match entries.find? fun entry => entry.key == key with
        | some entry => .ok (entry.swept ids)
        | none => .error (.notFound (.inSortedIndex key))) ∧
      after.journal = some (journalBytes (ids.filter fun id =>
        entries.any fun entry => entry.key == id)) ∧
      ∀ kept ⊆ ids, ∀ reopened : Option Opened,
        let (answer, rebuilt) := IndexFiles.rebuild { after with
          index := some (listToBytes (entries.map (swept kept))), opened := reopened }
        answer = .ok () ∧ rebuilt.index = after.index ∧ rebuilt.journal = none ∧
          rebuilt.rebuild = (.ok (), rebuilt) := by
  intro files opened
  have fresh : Deleted files.openBoth opened entries [] := by
    refine ⟨rising, ?_, rfl, ?_, rfl⟩
    · change (listToBytes entries).length / width = _
      rw [length_listToBytes, Nat.mul_div_cancel _ (by decide)]
    · rw [map_swept_nil]
      rfl
  obtain ⟨answers, deleted⟩ := fresh.deleteEach ids
  rw [List.nil_append] at deleted
  refine ⟨rfl, answers, deleted.index, deleted.find, deleted.journal, ?_⟩
  intro kept written reopened
  rw [deleted.rebuild written reopened]
  exact ⟨rfl, rfl, rfl, rfl⟩

/-- Of three deletions of two needles one tombstone is left, and rebuilding brings both back. -/
theorem lost_deletion_of_two_rebuilt :
    let entries : List Entry := [⟨10, ⟨1⟩, ⟨100⟩⟩, ⟨20, ⟨2⟩, ⟨101⟩⟩, ⟨30, ⟨3⟩, ⟨102⟩⟩]
    let files : IndexFiles := { base := "7", index := some (listToBytes entries) }
    let opened : Opened := { length := (listToBytes entries).length }
    let after := (files.openBoth.deleteEach opened [20, 999, 30, 20]).2
    let rebuilt := IndexFiles.rebuild { after with
      index := some (listToBytes (entries.map (swept [30]))), opened := none }
    Rising entries ∧ [30] ⊆ ([20, 999, 30, 20] : List NeedleId) ∧
      after.index = some (listToBytes
        [⟨10, ⟨1⟩, ⟨100⟩⟩, ⟨20, ⟨2⟩, .tombstone⟩, ⟨30, ⟨3⟩, .tombstone⟩]) ∧
      after.find opened 20 = .ok ⟨20, ⟨2⟩, .tombstone⟩ ∧
      after.find opened 999 = .error (.notFound (.inSortedIndex 999)) ∧
      after.journal = some (journalBytes [20, 30, 20]) ∧
      rebuilt.2.index = after.index ∧ rebuilt.2.journal = none := by
  intro entries files opened after rebuilt
  have rising : Rising entries := by decide
  have written : [30] ⊆ ([20, 999, 30, 20] : List NeedleId) := by decide
  obtain ⟨_, _, index, find, journal, rebuild⟩ :=
    lost_deletions_rebuilt rising "7" [20, 999, 30, 20]
  obtain ⟨_, restored, removed, _⟩ := rebuild [30] written none
  exact ⟨rising, written, index, find 20, find 999, journal, restored, removed⟩

end Erasure.IndexFiles

end Haystack
