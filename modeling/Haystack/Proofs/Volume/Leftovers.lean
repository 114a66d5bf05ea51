import Haystack.Proofs.Volume.Kept
import Haystack.Proofs.Volume.Opening

/-!
# Writing behind what was left

A volume is opened over whatever files there are, and records and entries go behind what the files
hold. If that ends where a record may start, every needle written can be read, and if the index
ends with a whole entry, it is still there when the volume is opened again. A volume checks
neither: behind a piece of a record or of an entry needles are written and lost.
-/

namespace Haystack.Volume

/-- A run of writes of needles with data, which all succeed. The needles are listed as they are
stamped. -/
inductive Wrote : Volume → List Needle → Volume → Prop where
  | nothing (volume : Volume) : Wrote volume [] volume
  | needle {volume next later : Volume} {now : UInt64} {needle : Needle}
      {record : File.AppendedNeedle} {needles : List Needle} (data : needle.data ≠ [])
      (written : volume.write now needle = (.ok record, next)) (rest : Wrote next needles later) :
      Wrote volume (needle.stamped now volume.lastStamp :: needles) later

variable {volume later : Volume} {needle : Needle} {needles before behind : List Needle}

theorem Wrote.split (wrote : volume.Wrote (before ++ behind) later) :
    ∃ middle, volume.Wrote before middle ∧ middle.Wrote behind later := by
  induction before generalizing volume with
  | nil => exact ⟨volume, .nothing volume, wrote⟩
  | cons first before ih =>
      cases wrote with
      | needle data written rest =>
          obtain ⟨middle, front, back⟩ := ih rest
          exact ⟨middle, .needle data written front, back⟩

/-- The first write of a run puts its record and entry at the ends of the files. -/
theorem Wrote.first (wrote : volume.Wrote (needle :: needles) later) (ready : volume.Ready) :
    ∃ next, next.Wrote needles later ∧ next.Ready ∧
      next = volume.logged (needle.record volume.version)
        (volume.nextEntry needle.id (needle.sized volume.version).size) needle.appendedAt ∧
      next.Kept needle.id (some (needle.stored volume.version)) := by
  cases wrote with
  | @needle _ next _ now needle record _ data written rest =>
      have outcome := written_of_ready ready now needle
      rw [written] at outcome
      cases outcome with
      | done fits short room =>
          have kept := kept_logged_record ready fits short room
            (needle.stamped now volume.lastStamp).appendedAt
          have full : (needle.stamped now volume.lastStamp).data.isEmpty = false := by
            simpa [Needle.stamped] using data
          rw [full] at kept
          exact ⟨_, rest, ready.logged (Needle.length_record_mod_unit _ _) _ _, rfl, kept⟩

/-- What holds at the start of a run of writes and is kept by all entries of its needles holds at the
end. -/
theorem Wrote.preserves {motive : Volume → Prop} (wrote : volume.Wrote needles later)
    (ready : volume.Ready) (start : motive volume)
    (step : ∀ (volume : Volume) (bytes : Bytes) (entry : Entry) (stamp : UInt64),
      (∃ needle ∈ needles, needle.id = entry.key) → motive volume →
        motive (volume.logged bytes entry stamp)) :
    later.Ready ∧ motive later := by
  induction needles generalizing volume with
  | nil =>
      cases wrote
      exact ⟨ready, start⟩
  | cons needle needles ih =>
      obtain ⟨next, rest, ready', logged, -⟩ := wrote.first ready
      apply ih rest ready'
      · rw [logged]
        exact step volume _ _ _ ⟨needle, List.mem_cons_self, rfl⟩ start
      · rintro volume bytes entry stamp ⟨other, inside, key⟩
        exact step volume bytes entry stamp ⟨other, List.mem_cons_of_mem _ inside, key⟩

/-- The super block that is read from a volume's data file is of the volume's version. -/
def Reopens (volume : Volume) (version : Version) : Prop :=
  volume.version = version ∧
    ∃ stored, readSuperBlock volume.data = .ok stored ∧ stored.version = version

theorem Reopens.logged {version : Version} (reopens : volume.Reopens version) (bytes : Bytes)
    (entry : Entry) (stamp : UInt64) : (volume.logged bytes entry stamp).Reopens version := by
  obtain ⟨same, stored, read, known⟩ := reopens
  exact ⟨same, stored, readSuperBlock_extended read bytes, known⟩

theorem ready_of_load {id : VolumeId} {data index after : File} {block : SuperBlock}
    (reliable : data.Reliable) (indexed : index.Reliable)
    (aligned : data.contents.length % StoredOffset.unit = 0)
    (loaded : load id data index block = (.ok volume, after)) :
    volume.Ready ∧ volume.Reopens volume.version ∧ volume.index = index ∧
      volume.live = .ofEntries (Entry.listOfBytes index.contents) := by
  obtain ⟨empty, bytes, written, rfl, rfl⟩ | ⟨rfl, stored, read, rfl⟩ :=
    load_cases reliable loaded
  · refine ⟨ready_of_new reliable indexed empty written, ⟨rfl, ?_⟩, rfl, rfl⟩
    exact ⟨block.normal, readSuperBlock_of_new empty written, rfl⟩
  · have long := fixedLength_le_of_readSuperBlock read
    exact ⟨⟨reliable, indexed, aligned, long⟩, ⟨rfl, stored, read, rfl⟩, rfl, rfl⟩

/-- Behind an aligned data file the last needle written under a number is read by the volume, and,
behind an index of whole entries, also by a volume opened again. -/
theorem last_write_is_read {id : VolumeId} {data index after : File} {block : SuperBlock}
    (reliable : data.Reliable) (indexed : index.Reliable)
    (aligned : data.contents.length % StoredOffset.unit = 0)
    (loaded : load id data index block = (.ok volume, after))
    (wrote : volume.Wrote (before ++ needle :: behind) later)
    (last : ∀ other ∈ behind, other.id ≠ needle.id) :
    later.read needle.id needle.cookie = .ok (needle.stored volume.version) ∧
      (index.contents.length % Entry.width = 0 → ∀ block, ∃ again,
        load later.id later.data later.index block = (.ok again, later.data) ∧
          again.read needle.id needle.cookie = .ok (needle.stored volume.version)) := by
  obtain ⟨ready, reopens, rfl, live⟩ := ready_of_load reliable indexed aligned loaded
  have reopens' : later.Ready ∧ later.Reopens volume.version :=
    wrote.preserves (motive := fun other => other.Reopens volume.version) ready reopens
      fun _ bytes entry stamp _ kept => kept.logged bytes entry stamp
  have found : later.read needle.id needle.cookie = .ok (needle.stored volume.version) := by
    obtain ⟨middle, front, rest⟩ := wrote.split
    have atMiddle : middle.Ready ∧ middle.version = volume.version :=
      front.preserves (motive := fun other => other.version = volume.version) ready rfl
        fun _ _ _ _ _ same => same
    obtain ⟨next, tail, ready', -, kept⟩ := rest.first atMiddle.1
    rw [atMiddle.2] at kept
    have keeps : later.Ready ∧ later.Kept needle.id (some (needle.stored volume.version)) := by
      refine tail.preserves
        (motive := fun other => other.Kept needle.id (some (needle.stored volume.version)))
        ready' kept ?_
      rintro _ _ entry _ ⟨other, inside, key⟩ kept
      apply kept.logged_of_ne
      rw [← key]
      exact (last other inside).symm
    exact keeps.2.read_known
  refine ⟨found, ?_⟩
  intro whole block
  obtain ⟨ready', version, stored, read, known⟩ := reopens'
  have indexed' : later.Ready ∧ later.Indexed :=
    wrote.preserves (motive := Indexed) ready ⟨whole, live⟩
      fun _ bytes entry stamp _ kept => kept.logged bytes entry stamp
  have same : (opened later.id stored later.data later.index).read needle.id needle.cookie =
      later.read needle.id needle.cookie := by
    apply read_congr
    · rfl
    · exact known.trans version.symm
    · rfl
    · exact indexed'.2.live.symm
  exact ⟨_, load_of_nonempty ready'.data ready'.nonempty read later.id later.index block,
    same.trans found⟩

theorem eq_ok_of_isOk {now : UInt64} (done : (volume.write now needle).1.isOk = true) :
    ∃ record, volume.write now needle = (.ok record, (volume.write now needle).2) := by
  obtain ⟨record, same⟩ := exists_eq_ok done
  exact ⟨record, Prod.ext same rfl⟩

/-- Behind a piece of a record that fills a unit, and behind the entry of a record that is lost, a
needle is written, replaced, and followed by another one. -/
theorem replaced_needle_is_read :
    let data : File := { contents := [3, 0, 0, 0, 0, 0, 0, 0, 0, 0, 0, 7, 0, 0, 0, 0] }
    let index : File := { contents := [0, 0, 0, 0, 0, 0, 0, 1, 0, 0, 0, 1, 0, 0, 0, 6] }
    let volume := opened 3 (SuperBlock.normal {}) data index
    let first : Needle := { id := 1, cookie := 7, data := [104] }
    let second : Needle := { id := 1, cookie := 9, data := [105] }
    let third : Needle := { id := 2, cookie := 7, data := [106] }
    let once := (volume.write 20 first).2
    let twice := (once.write 20 second).2
    let later := (twice.write 20 third).2
    load 3 data index {} = (.ok volume, data) ∧
      volume.Wrote ([first.stamped 20 0] ++ second.stamped 20 once.lastStamp ::
        [third.stamped 20 twice.lastStamp]) later ∧
      later.read 1 9 = .ok ((second.stamped 20 once.lastStamp).stored .v3) ∧
      ∃ again, load later.id later.data later.index {} = (.ok again, later.data) ∧
        again.read 1 9 = .ok ((second.stamped 20 once.lastStamp).stored .v3) := by
  intro data index volume first second third once twice later
  have written : SuperBlock.toBytes {} = .ok [3, 0, 0, 0, 0, 0, 0, 0] := rfl
  have reliable : data.Reliable := rfl
  have indexed : index.Reliable := rfl
  have started : readSuperBlock data = .ok (SuperBlock.normal {}) :=
    @readSuperBlock_stored data {} _ written [0, 0, 0, 7, 0, 0, 0, 0] rfl
  have loaded : load 3 data index {} = (.ok volume, data) :=
    load_of_nonempty reliable (by decide) started 3 index {}
  have aligned : data.contents.length % StoredOffset.unit = 0 := by decide
  have full (needle : Needle) (byte : UInt8) (same : needle.data = [byte]) : needle.data ≠ [] := by
    simp [same]
  obtain ⟨record, firstDone⟩ := eq_ok_of_isOk (show (volume.write 20 first).1.isOk = true by
    decide +kernel)
  obtain ⟨record', secondDone⟩ := eq_ok_of_isOk (show (once.write 20 second).1.isOk = true by
    decide +kernel)
  obtain ⟨record'', thirdDone⟩ := eq_ok_of_isOk (show (twice.write 20 third).1.isOk = true by
    decide +kernel)
  have wrote : volume.Wrote ([first.stamped 20 0] ++ second.stamped 20 once.lastStamp ::
      [third.stamped 20 twice.lastStamp]) later :=
    .needle (full first 104 rfl) firstDone (.needle (full second 105 rfl) secondDone
      (.needle (full third 106 rfl) thirdDone (.nothing later)))
  have read := last_write_is_read reliable indexed aligned loaded wrote (by decide)
  have whole : index.contents.length % Entry.width = 0 := by decide
  exact ⟨loaded, wrote, read.1, read.2 whole {}⟩

/-- Behind a piece of a record that fills no unit a needle is written and cannot be read. Behind
half of an entry it is written and is gone once the volume is opened again. -/
theorem written_and_lost :
    let needle : Needle := { id := 1, cookie := 7, data := [104, 105] }
    let title : Bytes := [3, 0, 0, 0, 0, 0, 0, 0]
    let torn : File := { contents := title ++ [0, 0, 0, 7, 0] }
    let half : File := { contents := [0, 0, 0, 0, 0, 0, 0, 5] }
    let behindRecord := opened 7 (SuperBlock.normal {}) torn {}
    let behindEntry := opened 7 (SuperBlock.normal {}) { contents := title } half
    let later := (behindEntry.write 20 needle).2
    (load 7 torn {} {} = (.ok behindRecord, torn) ∧
        (behindRecord.write 20 needle).1.isOk = true ∧
        ((behindRecord.write 20 needle).2.read 1 7).isOk = false) ∧
      load 7 { contents := title } half {} = (.ok behindEntry, { contents := title }) ∧
        (behindEntry.write 20 needle).1.isOk = true ∧
        ∃ again, load 7 later.data later.index {} = (.ok again, later.data) ∧
          (again.read 1 7).isOk = false := by
  intro needle title torn half behindRecord behindEntry later
  have written : SuperBlock.toBytes {} = .ok title := rfl
  have fromTorn : readSuperBlock torn = .ok (SuperBlock.normal {}) :=
    @readSuperBlock_stored torn {} _ written [0, 0, 0, 7, 0] rfl
  have fromTitle : readSuperBlock { contents := title } = .ok (SuperBlock.normal {}) :=
    @readSuperBlock_stored { contents := title } {} _ written [] rfl
  have reliable (contents : Bytes) : File.Reliable { contents } := rfl
  have ready : behindEntry.Ready := ⟨reliable _, reliable _, by decide, by decide⟩
  have kept : later.Ready ∧ readSuperBlock later.data = .ok (SuperBlock.normal {}) := by
    obtain same | ⟨bytes, entry, stamp, whole, appended⟩ := serve_cases ready (.write 20 needle)
    · rw [show later = behindEntry from same]
      exact ⟨ready, fromTitle⟩
    · rw [show later = behindEntry.logged bytes entry stamp from appended]
      exact ⟨ready.logged whole entry stamp, readSuperBlock_extended fromTitle bytes⟩
  refine ⟨⟨?_, ?_, ?_⟩, ?_, ?_, opened 7 (SuperBlock.normal {}) later.data later.index, ?_, ?_⟩
  · exact load_of_nonempty (reliable _) (by decide) fromTorn 7 {} {}
  · decide +kernel
  · decide +kernel
  · exact load_of_nonempty (reliable _) (by decide) fromTitle 7 half {}
  · decide +kernel
  · exact load_of_nonempty kept.1.data kept.1.nonempty kept.2 7 later.index {}
  · decide +kernel

end Haystack.Volume
