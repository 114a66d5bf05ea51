import Haystack.Proofs.Volume.Failure
import Haystack.Proofs.Volume.Reload

/-!
# Opening a volume again after failures

A data file is cut back after a failure. An index is not: what a failing write stored of an entry
stays in it. As long as that is nothing, requests that fail leave the index as it was, and a volume
that is opened again, once nothing goes wrong any more, knows the needles that the open volume
knows. Behind a piece of an entry the entries of later requests are lost.
-/

namespace Haystack

/-- Whatever goes wrong with a file shows: its length is told as it is, it can be cut, and a write
that counts as done has stored all of its bytes. -/
structure Faults.Noticed (faults : Faults) : Prop where
  truthful : faults.reportedLength = none
  cuts : faults.truncate = false
  complete : faults.write ≠ some .short

/-- A write that fails also stores nothing of an entry. -/
structure Faults.SparesEntries (faults : Faults) : Prop extends faults.Noticed where
  nothing (kept : Nat → Nat) : faults.write = some (.tear kept) → kept Entry.width = 0

namespace File

/-- The file when nothing goes wrong with it any more. -/
def mended (file : File) : File :=
  { file with faults := {} }

/-- What a failing write stores of its bytes. -/
def remnant (file : File) (data : Bytes) : Bytes :=
  match file.faults.write with
  | some (.tear kept) => data.take (kept data.length)
  | _ => []

variable {file : File}

theorem reliable_mended (file : File) : file.mended.Reliable := rfl

theorem mended_of_reliable (reliable : file.Reliable) : file.mended = file := by
  rw [mended, ← reliable]

theorem write_of_noticed (noticed : file.faults.Noticed) (data : Bytes) :
    (∃ problem, file.write data file.contents.length =
        (.error problem, file.extended (file.remnant data))) ∨
      file.write data file.contents.length = (.ok data.length, file.extended data) := by
  have complete := noticed.complete
  unfold write remnant
  cases fault : file.faults.write with
  | none => exact .inr (by simp only [store_at_end])
  | some fault' =>
      cases fault' with
      | refuse => exact .inl ⟨_, by simp only [extended_nil]; rfl⟩
      | tear kept => exact .inl ⟨_, by simp only [store_at_end]; rfl⟩
      | short => exact absurd fault complete

/-- Appending a record either fails and leaves the file as it was, or does what it does when nothing
goes wrong. -/
theorem appendNeedle_of_noticed (noticed : file.faults.Noticed) (needle : Needle)
    (version : Version) :
    (∃ problem, file.appendNeedle needle version = (.error problem, file)) ∨
      ∃ record bytes, file.appendNeedle needle version = (.ok record, file.extended bytes) ∧
        file.mended.appendNeedle needle version = (.ok record, file.mended.extended bytes) ∧
        record.place.offset = file.contents.length := by
  have length : file.mended.contents.length = file.contents.length := rfl
  rw [appendNeedle_of_reliable file.reliable_mended, length]
  unfold appendNeedle
  obtain lost | told := stat_of_truthful noticed.truthful
  · exact .inl ⟨_, by rw [lost]⟩
  · rw [told]
    dsimp only
    split
    · exact .inl ⟨_, rfl⟩
    · cases needle.encode version with
      | error problem => exact .inl ⟨problem, by rw [cutBack_self noticed.cuts]⟩
      | ok done =>
          unfold writeOrCutBack
          obtain ⟨problem, failed⟩ | written := write_of_noticed noticed done.bytes
          · exact .inl ⟨problem, by simp only [failed, cutBack_extended noticed.cuts]⟩
          · exact .inr ⟨_, done.bytes, by simp only [written], rfl, rfl⟩

/-- Appending an entry either fails and leaves at most what the write stored of it, or appends all
of it. -/
theorem appendEntry_of_noticed (noticed : file.faults.Noticed) (entry : Entry) :
    (∃ problem left, file.appendEntry entry = (.error problem, file.extended left) ∧
        (left = [] ∨ left = file.remnant entry.toBytes)) ∨
      file.appendEntry entry = (.ok (), file.extended entry.toBytes) := by
  unfold appendEntry
  obtain lost | told := stat_of_truthful noticed.truthful
  · exact .inl ⟨_, [], by rw [lost, extended_nil], .inl rfl⟩
  · rw [told]
    dsimp only
    obtain ⟨problem, failed⟩ | written := write_of_noticed noticed entry.toBytes
    · exact .inl ⟨problem, _, by rw [failed], .inr rfl⟩
    · exact .inr (by rw [written])

end File

theorem Faults.SparesEntries.remnant_eq_nil {file : File} (spares : file.faults.SparesEntries)
    (entry : Entry) : file.remnant entry.toBytes = [] := by
  unfold File.remnant
  split
  · rename_i kept torn
    rw [entry.length_toBytes, spares.nothing kept torn, List.take_zero]
  · rfl

namespace Volume

theorem Answer.failed_written {result : Except Error File.AppendedNeedle}
    (refused : result.isOk = false) : (Answer.written result).Failed := by
  cases result with
  | error problem => exact .written problem
  | ok record => contradiction

theorem Answer.failed_freed {result : Except Error Size} (refused : result.isOk = false) :
    (Answer.freed result).Failed := by
  cases result with
  | error problem => exact .freed problem
  | ok size => contradiction

variable {volume : Volume}

/-- The volume when nothing goes wrong with its files any more. -/
def mended (volume : Volume) : Volume :=
  { volume with data := volume.data.mended, index := volume.index.mended }

theorem mended_of_ready (ready : volume.Ready) : volume.mended = volume := by
  rw [mended, File.mended_of_reliable ready.data, File.mended_of_reliable ready.index]

theorem read_mended (volume : Volume) (id : NeedleId) (cookie : Cookie) :
    volume.mended.read id cookie = volume.read id cookie := rfl

/-- How a volume whose files fail may answer a request: the request fails and leaves a piece of its
entry in the index, or all goes as if nothing went wrong. -/
inductive Withstood (volume : Volume) (request : Request) : Answer × Volume → Prop where
  | failed {answer : Answer} {left : Bytes} (failed : answer.Failed)
      (piece : left = [] ∨ ∃ entry : Entry, left = volume.index.remnant entry.toBytes) :
      Withstood volume request (answer, volume.withIndex (volume.index.contents ++ left))
  | done {answer : Answer} {again : Volume} (succeeded : ¬answer.Failed)
      (same : volume.mended.serve request = (answer, again)) :
      Withstood volume request (answer, again.withFaults volume.data.faults volume.index.faults)

section

variable (noticed : volume.data.faults.Noticed) (indexed : volume.index.faults.Noticed)

include noticed indexed

theorem enter_of_noticed (needle : Needle) (entrySize : Size → Size) :
    (∃ problem left, volume.enter needle entrySize =
        (.error problem, volume.withIndex (volume.index.contents ++ left)) ∧
        (left = [] ∨ ∃ entry : Entry, left = volume.index.remnant entry.toBytes)) ∨
      ∃ record again, volume.mended.enter needle entrySize = (.ok record, again) ∧
        volume.enter needle entrySize =
          (.ok record, again.withFaults volume.data.faults volume.index.faults) := by
  have data : volume.mended.data = volume.data.mended := rfl
  have version : volume.mended.version = volume.version := rfl
  unfold enter
  rw [data, version]
  obtain ⟨problem, refused⟩ | ⟨record, bytes, appended, same, place⟩ :=
    File.appendNeedle_of_noticed noticed needle volume.version
  · refine .inl ⟨problem, [], ?_, .inl rfl⟩
    rw [refused, List.append_nil]
    rfl
  · rw [appended, same]
    unfold commit
    dsimp only
    obtain ⟨problem, left, failed, piece⟩ | entered :=
      File.appendEntry_of_noticed indexed
        { key := needle.id, offset := .ofPosition record.place.offset
          size := entrySize record.place.size }
    · refine .inl ⟨problem, left, ?_, piece.imp_right fun torn => ⟨_, torn⟩⟩
      rw [failed, place, File.cutBack_extended noticed.cuts]
      rfl
    · have reliable : volume.mended.index.appendEntry _ = _ :=
        File.appendEntry_of_reliable volume.index.reliable_mended
          { key := needle.id, offset := .ofPosition record.place.offset
            size := entrySize record.place.size }
      rw [entered, reliable]
      exact .inr ⟨record, _, rfl, rfl⟩

/-- Whatever fails, a request does what it does when nothing goes wrong or leaves the volume as it
was but for a piece of an entry. -/
theorem serve_of_noticed (request : Request) :
    Withstood volume request (volume.serve request) := by
  cases request with
  | write now needle =>
      rw [serve, write_eq_enter]
      obtain ⟨problem, left, entered, piece⟩ | ⟨record, again, same, entered⟩ :=
        enter_of_noticed noticed indexed (needle.stamped now volume.lastStamp) fun size => size
      · rw [entered]
        exact .failed (.written problem) piece
      · rw [entered]
        refine .done (by rintro ⟨⟩) ?_
        have stamp : volume.mended.lastStamp = volume.lastStamp := rfl
        rw [serve, write_eq_enter, stamp, same]
  | read id cookie =>
      rw [serve]
      cases found : volume.read id cookie with
      | error problem =>
          have kept := @Withstood.failed volume (.read id cookie) _ [] (.found problem) (.inl rfl)
          rwa [List.append_nil] at kept
      | ok needle =>
          refine @Withstood.done volume (.read id cookie) _ volume.mended (by rintro ⟨⟩) ?_
          rw [serve, read_mended, found]
  | delete now id cookie =>
      have check : volume.mended.checkDelete id cookie = volume.checkDelete id cookie := rfl
      have marker : volume.mended.marker now id cookie = volume.marker now id cookie := rfl
      rw [serve]
      unfold delete
      cases checked : volume.checkDelete id cookie with
      | error problem =>
          have kept := @Withstood.failed volume (.delete now id cookie) _ [] (.freed problem)
            (.inl rfl)
          rwa [List.append_nil] at kept
      | ok found =>
          cases found with
          | none =>
              refine @Withstood.done volume (.delete now id cookie) _ volume.mended
                (by rintro ⟨⟩) ?_
              rw [serve, delete, check, checked]
          | some size =>
              dsimp only
              rw [bury_eq_enter]
              obtain ⟨problem, left, entered, piece⟩ | ⟨record, again, same, entered⟩ :=
                enter_of_noticed noticed indexed (volume.marker now id cookie) fun _ => .tombstone
              · rw [entered]
                exact .failed (.freed problem) piece
              · rw [entered]
                refine .done (by rintro ⟨⟩) ?_
                rw [serve, delete, check, checked]
                dsimp only
                rw [bury_eq_enter, marker, same]
                rfl

end

/-- What is loaded from files that fail would also be loaded if they did not. -/
theorem loadSuperBlock_of_noticed {data after : File} {block stored : SuperBlock}
    (noticed : data.faults.Noticed) (loaded : loadSuperBlock data block = (.ok stored, after)) :
    loadSuperBlock data.mended block = (.ok stored, after.mended) ∧
      after.faults = data.faults := by
  obtain lost | told := File.stat_of_truthful noticed.truthful
  · unfold loadSuperBlock at loaded
    rw [lost] at loaded
    cases loaded
  · by_cases empty : data.contents = []
    · rw [loadSuperBlock_of_empty data.reliable_mended empty]
      unfold loadSuperBlock at loaded
      rw [told, empty] at loaded
      dsimp only [List.length_nil] at loaded
      cases written : block.toBytes with
      | error problem =>
          rw [written] at loaded
          cases loaded
      | ok bytes =>
          rw [written] at loaded
          dsimp only at loaded
          have outcome := File.write_of_noticed noticed (bytes.resize (alignedLength bytes.length))
          rw [empty, List.length_nil] at outcome
          obtain ⟨problem, failed⟩ | stood := outcome
          · rw [failed] at loaded
            cases loaded
          · rw [stood] at loaded
            cases loaded
            exact ⟨rfl, rfl⟩
    · rw [loadSuperBlock_of_nonempty data.reliable_mended empty]
      obtain ⟨byte, rest, contents⟩ := List.exists_cons_of_ne_nil empty
      unfold loadSuperBlock at loaded
      rw [told, contents] at loaded
      obtain ⟨read, rfl⟩ := Prod.mk.inj loaded
      refine ⟨?_, rfl⟩
      rw [show readSuperBlock data.mended = readSuperBlock data from rfl, read]

theorem load_of_noticed {id : VolumeId} {data index after : File} {block : SuperBlock}
    (noticed : data.faults.Noticed) (loaded : load id data index block = (.ok volume, after)) :
    load id data.mended index.mended block = (.ok volume.mended, after.mended) ∧
      volume.data.faults = data.faults ∧ volume.index.faults = index.faults := by
  unfold load at loaded ⊢
  cases started : loadSuperBlock data block with
  | mk result later =>
      rw [started] at loaded
      cases result with
      | error problem => cases loaded
      | ok stored =>
          obtain ⟨same, faults⟩ := loadSuperBlock_of_noticed noticed started
          cases loaded
          rw [same, Walk.visited_replayed, Walk.visited_replayed]
          exact ⟨rfl, faults, rfl⟩

/-- The states that a new volume may come to whose files fail now and then, as long as failing
writes store nothing of an entry. -/
inductive Weathered : Volume → Prop where
  | new {id : VolumeId} {data index after : File} {block : SuperBlock} {volume : Volume}
      (noticed : data.faults.Noticed) (spares : index.faults.SparesEntries)
      (empty : data.contents = []) (unindexed : index.contents = [])
      (loaded : load id data index block = (.ok volume, after)) : Weathered volume
  | served {volume : Volume} (weathered : Weathered volume) (request : Request) :
      Weathered (volume.serve request).2
  | changed {volume : Volume} {data index : Faults} (weathered : Weathered volume)
      (noticed : data.Noticed) (spares : index.SparesEntries) :
      Weathered (volume.withFaults data index)
  | reloaded {volume again : Volume} {after : File} {block : SuperBlock}
      (weathered : Weathered volume)
      (loaded : load volume.id volume.data volume.index block = (.ok again, after)) :
      Weathered again

/-- Without pieces of entries a volume is, but for its faults, one to which nothing went wrong. -/
theorem Weathered.mended (weathered : Weathered volume) :
    Reached volume.mended ∧ volume.data.faults.Noticed ∧ volume.index.faults.SparesEntries := by
  induction weathered with
  | @new id data index after block volume noticed spares empty unindexed loaded =>
      obtain ⟨same, faults, faults'⟩ := load_of_noticed noticed loaded
      rw [faults, faults']
      exact ⟨.new data.reliable_mended index.reliable_mended empty unindexed same, noticed, spares⟩
  | @served volume _ request ih =>
      obtain ⟨reached, noticed, spares⟩ := ih
      have withstood := serve_of_noticed noticed spares.toNoticed request
      generalize volume.serve request = result at withstood
      cases withstood with
      | @failed answer left failed piece =>
          have nothing : left = [] := by
            obtain none | ⟨entry, torn⟩ := piece
            · exact none
            · rw [torn, spares.remnant_eq_nil]
          rw [nothing, List.append_nil]
          exact ⟨reached, noticed, spares⟩
      | @done answer again succeeded same =>
          have reached' := reached.served request
          rw [same] at reached'
          have mended := mended_of_ready reached'.consistent.ready
          refine ⟨?_, noticed, spares⟩
          rw [← mended] at reached'
          exact reached'
  | changed _ noticed spares ih => exact ⟨ih.1, noticed, spares⟩
  | reloaded _ loaded ih =>
      obtain ⟨reached, noticed, spares⟩ := ih
      obtain ⟨same, faults, faults'⟩ := load_of_noticed noticed loaded
      rw [faults, faults']
      exact ⟨reached.reloaded same, noticed, spares⟩

/-- As long as failing writes store nothing of an entry, a request that fails leaves the index as it
was, and at any time a volume that is opened again knows and reads the same needles. -/
theorem failures_spare_index (weathered : Weathered volume) :
    (∀ request, (volume.serve request).1.Failed →
        (volume.serve request).2.index.contents = volume.index.contents) ∧
      ∀ block, ∃ again,
        load volume.id volume.data.mended volume.index.mended block =
            (.ok again, volume.data.mended) ∧
          (∀ id, again.find? id = volume.find? id) ∧ again.count = volume.count ∧
          ∀ id cookie, again.read id cookie = volume.read id cookie := by
  obtain ⟨reached, noticed, spares⟩ := weathered.mended
  constructor
  · intro request failed
    have withstood := serve_of_noticed noticed spares.toNoticed request
    generalize volume.serve request = result at withstood failed
    cases withstood with
    | failed _ piece =>
        obtain rfl | ⟨entry, rfl⟩ := piece
        · exact List.append_nil _
        · rw [spares.remnant_eq_nil]
          exact List.append_nil _
    | done succeeded same => exact absurd failed succeeded
  · intro block
    refine ⟨_, reached.consistent.load_eq block, fun id => rfl, rfl, ?_⟩
    intro id cookie
    rw [← read_mended volume]
    exact read_congr rfl rfl rfl rfl id cookie

/-- A needle is written, and the write of its tombstone's entry fails and stores nothing. -/
theorem refused_tombstone_reload_agrees :
    let volume := opened 3 {} { contents := [3, 0, 0, 0, 0, 0, 0, 0] } {}
    let once := (volume.serve (.write 20 { id := 1, cookie := 7, data := [104] })).2
    let torn := once.withFaults {} { write := some (.tear (· / 32)) }
    let later := (torn.serve (.delete 30 1 7)).2
    Weathered torn ∧ (torn.serve (.delete 30 1 7)).1.Failed ∧
      later.index.contents = torn.index.contents ∧
      ∃ again, load later.id later.data.mended later.index.mended {} =
          (.ok again, later.data.mended) ∧
        (∀ id, again.find? id = later.find? id) ∧ again.count = later.count ∧
        ∀ id cookie, again.read id cookie = later.read id cookie := by
  intro volume once torn later
  have sound : Faults.SparesEntries {} := ⟨⟨rfl, rfl, by simp⟩, by simp⟩
  have spares : Faults.SparesEntries { write := some (.tear (· / 32)) } := by
    refine ⟨⟨rfl, rfl, by simp⟩, ?_⟩
    intro kept same
    cases same
    rfl
  have reliable : File.Reliable {} := rfl
  have written : ({} : SuperBlock).toBytes = .ok [3, 0, 0, 0, 0, 0, 0, 0] := rfl
  have loaded : load 3 {} {} {} = (.ok volume, volume.data) :=
    load_of_empty reliable rfl written 3 {}
  have new : Weathered volume := .new sound.toNoticed sound rfl rfl loaded
  have weathered : Weathered torn := (new.served _).changed sound.toNoticed spares
  have refused : (torn.delete 30 1 7).1.isOk = false := by decide +kernel
  have failed : (torn.serve (.delete 30 1 7)).1.Failed := Answer.failed_freed refused
  exact ⟨weathered, failed, (failures_spare_index weathered).1 _ failed,
    (failures_spare_index (weathered.served _)).2 {}⟩

/-- Half of an entry is stored and stays. A needle that is written behind it is known to the open
volume, and no longer once the volume is opened again. -/
theorem entry_behind_piece_is_lost :
    let title : File := { contents := [3, 0, 0, 0, 0, 0, 0, 0] }
    let volume := opened 3 {} title {}
    let torn := volume.withFaults {} { write := some (.tear (· / 2)) }
    let failed := (torn.serve (.write 20 { id := 1, cookie := 7, data := [104, 105] })).2
    let later := (failed.mended.serve (.write 30 { id := 2, cookie := 9, data := [106] })).2
    load 3 {} {} {} = (.ok volume, title) ∧
      (torn.serve (.write 20 { id := 1, cookie := 7, data := [104, 105] })).1.Failed ∧
      torn.index.contents = [] ∧ failed.index.contents = [0, 0, 0, 0, 0, 0, 0, 1] ∧
      (later.read 2 9).isOk = true ∧
      ∃ again, load later.id later.data later.index {} = (.ok again, later.data) ∧
        (again.read 2 9).isOk = false := by
  intro title volume torn failed later
  have reliable : File.Reliable {} := rfl
  have aligned : title.contents.length % StoredOffset.unit = 0 := by decide
  have long : StoredOffset.unit ≤ title.contents.length := by decide
  have written : ({} : SuperBlock).toBytes = .ok [3, 0, 0, 0, 0, 0, 0, 0] := rfl
  have loaded : load 3 {} {} {} = (.ok volume, title) :=
    load_of_empty reliable rfl written 3 {}
  have started : readSuperBlock title = .ok (SuperBlock.normal {}) :=
    @readSuperBlock_stored title {} _ written [] rfl
  have refused : (torn.write 20 { id := 1, cookie := 7, data := [104, 105] }).1.isOk = false := by
    decide +kernel
  have failure := Answer.failed_written refused
  have mended : failed.mended.Ready ∧ failed.mended.data = title := by
    obtain ⟨contents, same⟩ :=
      @serve_failed torn rfl rfl (.write 20 { id := 1, cookie := 7, data := [104, 105] }) failure
    rw [show failed = torn.withIndex contents from same]
    exact ⟨⟨rfl, rfl, aligned, long⟩, rfl⟩
  have kept : later.Ready ∧ readSuperBlock later.data = .ok (SuperBlock.normal {}) := by
    rw [← mended.2] at started
    obtain same | ⟨bytes, entry, stamp, whole, appended⟩ :=
      serve_cases mended.1 (.write 30 { id := 2, cookie := 9, data := [106] })
    · rw [show later = failed.mended from same]
      exact ⟨mended.1, started⟩
    · rw [show later = failed.mended.logged bytes entry stamp from appended]
      exact ⟨mended.1.logged whole entry stamp, readSuperBlock_extended started bytes⟩
  refine ⟨loaded, failure, rfl, ?_, ?_, _,
    load_of_nonempty kept.1.data kept.1.nonempty kept.2 later.id later.index {}, ?_⟩
  · decide +kernel
  · decide +kernel
  · decide +kernel

end Volume

end Haystack
