import Haystack.Proofs.Volume.Opening

/-!
# Opening a volume again

The map of live needles is at all times the map that the index gives, and the super block at the
start of the data file is never touched. So a volume that is opened again knows and reads the same
needles, whatever super block it is opened with.
-/

namespace Haystack.Volume

variable {volume again : Volume} {bytes : Bytes}

/-- The super block can be written, and the data file starts with what is read as its normal form. -/
structure Titled (volume : Volume) : Prop where
  written : ∃ bytes, volume.superBlock.toBytes = .ok bytes
  read : readSuperBlock volume.data = .ok volume.superBlock.normal

theorem Titled.logged (titled : volume.Titled) (bytes : Bytes) (entry : Entry)
    (stamp : UInt64) : (volume.logged bytes entry stamp).Titled := by
  constructor
  · exact titled.written
  · exact readSuperBlock_extended titled.read bytes

/-- The states that a new volume over files that do nothing wrong may come to. -/
inductive Reached : Volume → Prop where
  | new {id : VolumeId} {data index after : File} {block : SuperBlock} {volume : Volume}
      (reliable : data.Reliable) (indexed : index.Reliable) (empty : data.contents = [])
      (unindexed : index.contents = [])
      (loaded : load id data index block = (.ok volume, after)) : Reached volume
  | served {volume : Volume} (reached : Reached volume) (request : Request) :
      Reached (volume.serve request).2
  | reloaded {volume again : Volume} {after : File} {block : SuperBlock}
      (reached : Reached volume)
      (loaded : load volume.id volume.data volume.index block = (.ok again, after)) :
      Reached again

/-- What is so in every such state. -/
structure Consistent (volume : Volume) : Prop where
  ready : volume.Ready
  indexed : volume.Indexed
  titled : volume.Titled

/-- A consistent volume is opened again with the same map and the normal form of its super block. -/
theorem Consistent.load_eq (consistent : volume.Consistent) (block : SuperBlock) :
    load volume.id volume.data volume.index block =
      (.ok { volume with superBlock := volume.superBlock.normal, lastStamp := 0 },
        volume.data) := by
  rw [load_of_nonempty consistent.ready.data consistent.ready.nonempty consistent.titled.read,
    opened, ← consistent.indexed.live]

theorem Reached.consistent (reached : Reached volume) : volume.Consistent := by
  induction reached with
  | new reliable indexed empty unindexed loaded =>
      obtain ⟨-, bytes, written, rfl, rfl⟩ | ⟨-, stored, read, -⟩ := load_cases reliable loaded
      · refine ⟨ready_of_new reliable indexed empty written, ⟨?_, rfl⟩, ⟨bytes, written⟩, ?_⟩
        · rw [opened, unindexed]
          rfl
        · exact readSuperBlock_of_new empty written
      · have long := fixedLength_le_of_readSuperBlock read
        rw [empty] at long
        contradiction
  | @served volume _ request ih =>
      obtain same | ⟨bytes, entry, stamp, whole, appended⟩ := serve_cases ih.ready request
      · rw [same]
        exact ih
      · rw [appended]
        exact ⟨ih.ready.logged whole entry stamp, ih.indexed.logged bytes entry stamp,
          ih.titled.logged bytes entry stamp⟩
  | @reloaded volume again after block _ loaded ih =>
      rw [ih.load_eq, Prod.mk.injEq, Except.ok.injEq] at loaded
      obtain ⟨rfl, -⟩ := loaded
      obtain ⟨bytes, written⟩ := ih.titled.written
      have kept := volume.superBlock.toBytes_normal.trans written
      constructor
      · exact ⟨ih.ready.data, ih.ready.index, ih.ready.aligned, ih.ready.started⟩
      · exact ⟨ih.indexed.whole, ih.indexed.live⟩
      · refine ⟨⟨bytes, kept⟩, ?_⟩
        rw [SuperBlock.normal_normal written]
        exact ih.titled.read

/-- However often it was written to and opened, a volume that is opened again knows and reads the
same needles, and has its super block in normal form. -/
theorem reload_agrees (reached : Reached volume) (block : SuperBlock) :
    ∃ again, load volume.id volume.data volume.index block = (.ok again, volume.data) ∧
      (∀ id, again.find? id = volume.find? id) ∧ again.count = volume.count ∧
      (∀ id cookie, again.read id cookie = volume.read id cookie) ∧
      ∃ bytes, volume.superBlock.toBytes = .ok bytes ∧
        SuperBlock.parse bytes = .ok again.superBlock := by
  have consistent := reached.consistent
  obtain ⟨bytes, written⟩ := consistent.titled.written
  refine ⟨_, consistent.load_eq block, fun id => rfl, rfl, ?_, bytes, written, ?_⟩
  · exact read_congr rfl rfl rfl rfl
  · have parsed := SuperBlock.parse_toBytes written []
    rwa [List.append_nil] at parsed

theorem overwritten_volume_reload_agrees :
    let block : SuperBlock := { version := .v2, extension := some {} }
    let volume := opened 3 block
      { contents := [2, 0, 0, 0, 0, 0, 0, 2, 123, 125, 0, 0, 0, 0, 0, 0] } {}
    let overwritten := (volume.serve (.write 20 { id := 1, cookie := 7, data := [104] })).2
    let emptied := (overwritten.serve (.write 30 { id := 1, cookie := 7 })).2
    Reached emptied ∧
      ∃ again, load emptied.id emptied.data emptied.index {} = (.ok again, emptied.data) ∧
        (∀ id, again.find? id = emptied.find? id) ∧ again.count = emptied.count ∧
        (∀ id cookie, again.read id cookie = emptied.read id cookie) ∧
        ∃ bytes, emptied.superBlock.toBytes = .ok bytes ∧
          SuperBlock.parse bytes = .ok again.superBlock := by
  intro block volume overwritten emptied
  have text : Extension.toJson {} = [123, 125] := by decide +kernel
  have written : block.toBytes = .ok [2, 0, 0, 0, 0, 0, 0, 2, 123, 125] := by
    unfold SuperBlock.toBytes SuperBlock.writtenExtension Extension.encode
    simp only [block, Version.hasFields, if_true, text]
    rfl
  have reliable : File.Reliable {} := rfl
  have new : Reached volume :=
    .new reliable reliable rfl rfl (load_of_empty reliable rfl written 3 {})
  have reached : Reached emptied := (new.served _).served _
  exact ⟨reached, reload_agrees reached {}⟩

end Haystack.Volume
