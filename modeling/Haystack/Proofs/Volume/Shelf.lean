import Mathlib.Data.Set.Card
import Haystack.Proofs.Table.Distinct
import Haystack.Proofs.Volume.Kept
import Haystack.Proofs.Volume.Opening

/-!
# A volume as a shelf

To its users a new volume is a shelf, on which stored needles stand under their numbers. Records,
offsets and the two files do not show: every request is answered from the shelf, whatever requests
came before it.
-/

namespace Haystack

theorem LiveMap.distinct_replay {map : LiveMap} (distinct : map.Distinct) (entry : Entry) :
    (map.replay entry).Distinct := by
  unfold replay
  split
  · exact distinct.insert _ _
  · exact distinct.erase _

theorem LiveMap.distinct_ofEntries (entries : List Entry) : (ofEntries entries).Distinct := by
  induction entries using List.reverseRecOn with
  | nil => exact List.nodup_nil
  | append_singleton entries entry ih =>
      rw [ofEntries_concat]
      exact distinct_replay ih entry

/-- The stored needles under their numbers. -/
abbrev Shelf := NeedleId → Option Needle

namespace Shelf

/-- The numbers under which a needle stands. -/
def taken (shelf : Shelf) : Set NeedleId :=
  {id | (shelf id).isSome}

/-- What a volume may do on a request if it is a shelf: its answer, the volume and the shelf
afterwards. -/
inductive Step (volume : Volume) (shelf : Shelf) :
    Volume.Request → Volume.Answer → Volume → Shelf → Prop where
  | full {now : UInt64} {needle : Needle}
      (long : File.maxVolumeLength ≤ volume.data.contents.length) (data : needle.data ≠ []) :
      Step volume shelf (.write now needle)
        (.written (.error (.volumeFull volume.data.contents.length File.maxVolumeLength)))
        volume shelf
  | unfit {now : UInt64} {needle : Needle} {problem : Error}
      (encoded : needle.encode volume.version = .error problem) :
      Step volume shelf (.write now needle) (.written (.error problem)) volume shelf
  | write {now : UInt64} {needle stored : Needle} {done : Needle.Sealed} {later : Volume}
      (room : needle.data ≠ [] → volume.data.contents.length < File.maxVolumeLength)
      (encoded : (needle.stamped now volume.lastStamp).encode volume.version = .ok done)
      (decoded : Needle.decode done.bytes volume.version = .ok stored)
      (grown : later.data.contents = volume.data.contents ++ done.bytes)
      (same : later.id = volume.id ∧ later.superBlock = volume.superBlock) :
      Step volume shelf (.write now needle)
        (.written (.ok
          { place := { offset := volume.data.contents.length, size := done.needle.size
                       length := done.bytes.length }
            needle := done.needle }))
        later
        (Function.update shelf needle.id (if needle.data.isEmpty then none else some stored))
  | find {id : NeedleId} {needle : Needle} (stands : shelf id = some needle)
      (own : needle.id = id) :
      Step volume shelf (.read id needle.cookie) (.found (.ok needle)) volume shelf
  | miss {id : NeedleId} {cookie : Cookie}
      (other : ∀ needle, shelf id = some needle → needle.cookie ≠ cookie) :
      Step volume shelf (.read id cookie) (.found (.error (.notFound (.inVolume id volume.id))))
        volume shelf
  | delete {now : UInt64} {id : NeedleId} {needle : Needle} {later : Volume}
      (stands : shelf id = some needle)
      (same : later.id = volume.id ∧ later.superBlock = volume.superBlock) :
      Step volume shelf (.delete now id needle.cookie) (.freed (.ok needle.size)) later
        (Function.update shelf id none)
  | ignore {now : UInt64} {id : NeedleId} {cookie : Cookie}
      (other : ∀ needle, shelf id = some needle → needle.cookie ≠ cookie) :
      Step volume shelf (.delete now id cookie) (.freed (.ok {})) volume shelf

end Shelf

namespace Volume

/-- A volume answers every one of a list of requests as the shelf does that earlier requests left,
and it counts as many needles as stand there. -/
def ServesAs (volume : Volume) (shelf : Shelf) : List Request → Prop
  | [] => volume.count = shelf.taken.ncard
  | request :: rest =>
    volume.count = shelf.taken.ncard ∧
      ∃ next, shelf.Step volume request (volume.serve request).1 (volume.serve request).2 next ∧
        (volume.serve request).2.ServesAs next rest

/-- A volume that can take records keeps what is on a shelf and nothing else. -/
structure Keeps (volume : Volume) (shelf : Shelf) : Prop where
  ready : volume.Ready
  distinct : volume.live.Distinct
  kept (id : NeedleId) : volume.Kept id (shelf id)

variable {volume : Volume} {shelf : Shelf}

theorem Keeps.count_eq (keeps : volume.Keeps shelf) : volume.count = shelf.taken.ncard := by
  have same : {id | (volume.live.find? id).isSome} = shelf.taken := by
    ext id
    change (volume.find? id).isSome = true ↔ _
    rw [(keeps.kept id).isSome_find?]
    rfl
  rw [count, keeps.distinct.length_eq, same]

theorem Keeps.logged (keeps : volume.Keeps shelf) {bytes : Bytes}
    (whole : bytes.length % StoredOffset.unit = 0) {entry : Entry} {stamp : UInt64}
    {slot : Option Needle} (kept : (volume.logged bytes entry stamp).Kept entry.key slot) :
    (volume.logged bytes entry stamp).Keeps (Function.update shelf entry.key slot) := by
  refine ⟨keeps.ready.logged whole entry stamp, LiveMap.distinct_replay keeps.distinct entry, ?_⟩
  intro id
  by_cases same : id = entry.key
  · rw [same, Function.update_self]
    exact kept
  · rw [Function.update_of_ne same]
    exact (keeps.kept id).logged_of_ne same

theorem Keeps.write (keeps : volume.Keeps shelf) (now : UInt64) (needle : Needle) :
    ∃ next, shelf.Step volume (.write now needle) (.written (volume.write now needle).1)
      (volume.write now needle).2 next ∧ (volume.write now needle).2.Keeps next := by
  have written := written_of_ready keeps.ready now needle
  generalize volume.write now needle = result at written
  cases written with
  | full long data => exact ⟨shelf, .full long data, keeps⟩
  | unfit encoded => exact ⟨shelf, .unfit (Needle.encode_of_stamped encoded), keeps⟩
  | done fits short room =>
      have encoded := Needle.encode_eq_ok_iff.mpr ⟨fits, short, rfl⟩
      have decoded := Needle.decode_record fits short
      refine ⟨_, @Shelf.Step.write _ _ now needle _ _ _ room encoded decoded rfl ⟨rfl, rfl⟩, ?_⟩
      apply keeps.logged (Needle.length_record_mod_unit _ _)
      exact kept_logged_record keeps.ready fits short room _

theorem Keeps.read (keeps : volume.Keeps shelf) (id : NeedleId) (cookie : Cookie) :
    shelf.Step volume (.read id cookie) (.found (volume.read id cookie)) volume shelf := by
  obtain ⟨needle, stands, own, rfl, read⟩ | ⟨other, read⟩ := (keeps.kept id).read_cases cookie
  · rw [read]
    exact .find stands own
  · rw [read]
    exact .miss other

theorem Keeps.delete (keeps : volume.Keeps shelf) (now : UInt64) (id : NeedleId)
    (cookie : Cookie) :
    ∃ next, shelf.Step volume (.delete now id cookie) (.freed (volume.delete now id cookie).1)
      (volume.delete now id cookie).2 next ∧ (volume.delete now id cookie).2.Keeps next := by
  unfold Volume.delete checkDelete
  obtain ⟨needle, stands, -, rfl, read⟩ | ⟨other, read⟩ := (keeps.kept id).read_cases cookie
  · simp only [read, bury_of_ready keeps.ready]
    refine ⟨_, .delete stands ⟨rfl, rfl⟩, ?_⟩
    apply keeps.logged (Needle.length_record_mod_unit _ _)
    have dead : Size.tombstone.isLive = false := by decide
    exact kept_logged_dead dead
  · simp only [read, Error.isNotFound, if_true]
    exact ⟨shelf, .ignore other, keeps⟩

theorem Keeps.serve (keeps : volume.Keeps shelf) (request : Request) :
    ∃ next, shelf.Step volume request (volume.serve request).1 (volume.serve request).2 next ∧
      (volume.serve request).2.Keeps next := by
  cases request with
  | write now needle => exact keeps.write now needle
  | read id cookie => exact ⟨shelf, keeps.read id cookie, keeps⟩
  | delete now id cookie => exact keeps.delete now id cookie

theorem Keeps.servesAs (keeps : volume.Keeps shelf) (requests : List Request) :
    volume.ServesAs shelf requests := by
  induction requests generalizing volume shelf with
  | nil => exact keeps.count_eq
  | cons request rest ih =>
      obtain ⟨next, step, keeps'⟩ := keeps.serve request
      exact ⟨keeps.count_eq, next, step, ih keeps'⟩

/-- A volume that was made over empty files answers all requests as a shelf does that was empty. -/
theorem new_servesAs_shelf {id : VolumeId} {data index after : File} {block : SuperBlock}
    (reliable : data.Reliable) (indexed : index.Reliable) (empty : data.contents = [])
    (unindexed : index.contents = []) (loaded : load id data index block = (.ok volume, after))
    (requests : List Request) : volume.ServesAs (fun _ => none) requests := by
  apply Keeps.servesAs
  obtain ⟨-, bytes, written, rfl, rfl⟩ | ⟨-, stored, read, -⟩ := load_cases reliable loaded
  · refine ⟨ready_of_new reliable indexed empty written, LiveMap.distinct_ofEntries _, ?_⟩
    intro id
    apply Kept.nothing
    rw [opened, unindexed]
    rfl
  · have long := fixedLength_le_of_readSuperBlock read
    rw [empty] at long
    contradiction

theorem written_and_buried_serves_as_shelf :
    let volume := opened 3 {} { contents := [3, 0, 0, 0, 0, 0, 0, 0] } {}
    let requests : List Request :=
      [.write 20 { id := 1, cookie := 7, data := [104, 105] }, .read 1 7, .read 1 8,
        .write 10 { id := 1, cookie := 9, data := [111] }, .delete 30 1 7, .delete 30 1 9, .read 1 9]
    File.Reliable {} ∧ load 3 {} {} {} = (.ok volume, volume.data) ∧
      volume.ServesAs (fun _ => none) requests := by
  intro volume requests
  have reliable : File.Reliable {} := rfl
  have written : ({} : SuperBlock).toBytes = .ok [3, 0, 0, 0, 0, 0, 0, 0] := rfl
  have loaded : load 3 {} {} {} = (.ok volume, volume.data) :=
    load_of_empty reliable rfl written 3 {}
  exact ⟨reliable, loaded, new_servesAs_shelf reliable reliable rfl rfl loaded requests⟩

end Volume

end Haystack
