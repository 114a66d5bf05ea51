import Mathlib.Data.List.Forall2
import Haystack.Proofs.Volume.InUse
import Haystack.Proofs.Volume.Scan

/-!
# Time stamps of records

Every record of the third version bears a time stamp, which is the time of the clock or comes right
after the stamp of the record before, whichever is later. So while a volume stays open the stamps
rise, whatever the clock does and whichever requests fail. A volume that is opened again does not
look at the stamps of the records it finds: its first record takes the time of the clock, and the
stamps go on rising if and only if that is beyond the last stamp.
-/

namespace Haystack

/-- The records that a scan from a position comes upon fill the file, and they read back as needles
with certain time stamps, in file order. -/
structure File.Bears (file : File) (start : Nat) (stamps : List UInt64) : Prop where
  whole : (file.scan .v3 start).stop = file.contents.length
  read : List.Forall₂ (fun sighting stamp => ∃ needle : Needle,
    file.readNeedle sighting.offset sighting.header.size .v3 = .ok needle ∧
      needle.appendedAt = stamp) (file.scan .v3 start).sightings stamps

/-- A record as it was appended: what the clock read, and whether the volume had been opened since
the record before. -/
structure Tick where
  clock : UInt64
  opened : Bool

namespace Tick

/-- The time stamps of records that were appended one after the other, behind a record with the
stamp `last`. -/
def stampsAfter (last : UInt64) : List Tick → List UInt64
  | [] => []
  | tick :: rest =>
    let stamp := Needle.nextStamp tick.clock (if tick.opened then 0 else last)
    stamp :: stampsAfter stamp rest

/-- The time stamps of the records of a volume. -/
def stamps (ticks : List Tick) : List UInt64 :=
  stampsAfter 0 ticks

/-- What a time stamp has to be below for the next record to bear a later one: the clock if the
volume was opened in between, and otherwise the greatest stamp. -/
def bound (tick : Tick) : UInt64 :=
  if tick.opened then tick.clock else UInt64.ofNat (2 ^ 64 - 1)

end Tick

namespace Needle

theorem toNat_nextStamp (now last : UInt64) :
    (nextStamp now last).toNat = max now.toNat (min (last.toNat + 1) (2 ^ 64 - 1)) := by
  have range := last.toNat_lt
  have next : (if last = UInt64.ofNat (2 ^ 64 - 1) then last else last + 1).toNat =
      min (last.toNat + 1) (2 ^ 64 - 1) := by
    split
    · rename_i greatest
      rw [greatest]
      rfl
    · rename_i below
      rw [← UInt64.toNat_inj, UInt64.toNat_ofNat'] at below
      rw [UInt64.toNat_add, UInt64.toNat_one]
      omega
  rw [nextStamp, ← next]
  generalize (if last = UInt64.ofNat (2 ^ 64 - 1) then last else last + 1) = next
  change (if now ≤ next then next else now).toNat = _
  split
  · rename_i behind
    rw [UInt64.le_iff_toNat_le] at behind
    omega
  · rename_i ahead
    rw [UInt64.le_iff_toNat_le] at ahead
    omega

theorem nextStamp_pos (now last : UInt64) : 0 < nextStamp now last := by
  rw [UInt64.lt_iff_toNat_lt, toNat_nextStamp, UInt64.toNat_zero]
  omega

end Needle

namespace Tick

/-- A stamp is later than the one before if that one is below the bound of its record. -/
theorem lt_stamp_iff (tick : Tick) {last : UInt64} (pos : 0 < last) :
    last < Needle.nextStamp tick.clock (if tick.opened then 0 else last) ↔ last < tick.bound := by
  have range := last.toNat_lt
  have read := tick.clock.toNat_lt
  have greatest : (UInt64.ofNat (2 ^ 64 - 1)).toNat = 2 ^ 64 - 1 := rfl
  rw [UInt64.lt_iff_toNat_lt, UInt64.toNat_zero] at pos
  rw [UInt64.lt_iff_toNat_lt, UInt64.lt_iff_toNat_lt, Needle.toNat_nextStamp, bound]
  cases tick.opened with
  | true =>
      simp only [if_true, UInt64.toNat_zero]
      omega
  | false =>
      simp only [Bool.false_eq_true, if_false, greatest]
      omega

theorem stampsAfter_concat (last : UInt64) (ticks : List Tick) (tick : Tick) :
    stampsAfter last (ticks ++ [tick]) =
      stampsAfter last ticks ++ [Needle.nextStamp tick.clock
        (if tick.opened then 0 else (stampsAfter last ticks).getLastD last)] := by
  induction ticks generalizing last with
  | nil => rfl
  | cons first rest ih =>
      rw [List.cons_append, stampsAfter, stampsAfter, ih, List.getLastD_cons]
      rfl

theorem stampsAfter_rise_iff {last : UInt64} (pos : 0 < last) (ticks : List Tick) :
    (last :: stampsAfter last ticks).IsChain (· < ·) ↔
      ∀ pair ∈ (last :: stampsAfter last ticks).zip ticks, pair.1 < pair.2.bound := by
  induction ticks generalizing last with
  | nil => simp [stampsAfter]
  | cons tick rest ih =>
      rw [stampsAfter, List.isChain_cons_cons, ih (Needle.nextStamp_pos _ _), tick.lt_stamp_iff pos,
        List.zip_cons_cons, List.forall_mem_cons]

theorem stamps_rise_iff (ticks : List Tick) :
    (stamps ticks).Pairwise (· < ·) ↔
      ∀ pair ∈ (stamps ticks).zip ticks.tail, pair.1 < pair.2.bound := by
  cases ticks with
  | nil => simp [stamps, stampsAfter]
  | cons tick rest =>
      rw [← List.isChain_iff_pairwise]
      exact stampsAfter_rise_iff (Needle.nextStamp_pos _ _) rest

end Tick

theorem File.Bears.extended {file : File} {start : Nat} {stamps : List UInt64}
    (bears : file.Bears start stamps) {needle : Needle} (fits : needle.trimmed.Fits)
    (short : (needle.trimmed.body .v3).length ≤ Needle.maxBodyLength) :
    (file.extended (needle.record .v3)).Bears start (stamps ++ [needle.appendedAt]) := by
  have last : (file.extended (needle.record .v3)).scan .v3 file.contents.length = _ :=
    @Note.scan_of_last (.written needle) .v3 file ⟨fits, short⟩
  have scanned := File.scan_extended bears.whole (needle.record .v3)
  rw [last] at scanned
  have stands : (file.extended (needle.record .v3)).contents =
      file.contents ++ needle.record .v3 ++ [] := by
    rw [File.contents_extended, List.append_nil]
  constructor
  case whole => rw [scanned]; rfl
  case read =>
    rw [scanned]
    refine List.rel_append (bears.read.imp ?_) (.cons ?_ .nil)
    · rintro sighting stamp ⟨stored, read, same⟩
      exact ⟨stored, File.readNeedle_extended read _, same⟩
    · exact ⟨needle.stored .v3, Needle.readNeedle_record fits short stands, rfl⟩

theorem File.scan_withFaults (file : File) (faults : Faults) (version : Version) (offset : Nat) :
    ({ file with faults } : File).scan version offset = file.scan version offset := by
  fun_induction scan file version offset with
  | case1 offset problem unread => exact scan_of_unreadable unread
  | case2 offset header read further ih =>
      rw [@scan_of_readable { file with faults } _ _ _ read]
      exact congrArg (Scan.followedBy { sightings := [{ offset, header }], stop := offset }) ih

theorem File.Bears.withFaults {file : File} {start : Nat} {stamps : List UInt64}
    (bears : file.Bears start stamps) (faults : Faults) :
    ({ file with faults } : File).Bears start stamps := by
  constructor
  case whole => rw [scan_withFaults, bears.whole]
  case read =>
    rw [scan_withFaults]
    exact bears.read

namespace Volume

variable {volume again : Volume} {request : Request} {ticks : List Tick} {fresh : Bool}

/-- The clock reading for the record that a request appended, as its answer tells: a needle was
written, or one that was there was deleted. -/
def clocked (volume : Volume) : Request → Option UInt64
  | .write now needle => if (volume.write now needle).1.isOk then some now else none
  | .read _ _ => none
  | .delete now id cookie =>
    match volume.checkDelete id cookie with
    | .ok (some _) => if (volume.delete now id cookie).1.isOk then some now else none
    | _ => none

/-- The states that a new volume of the third version may come to, with the clock readings of the
records appended so far, and whether none was appended since the volume was opened last. Its files
may fail in any way that shows. -/
inductive Timed : Volume → List Tick → Bool → Prop where
  | new {id : VolumeId} {data index after : File} {block : SuperBlock} {volume : Volume}
      (noticed : data.faults.Noticed) (noticed' : index.faults.Noticed)
      (empty : data.contents = []) (third : block.version = .v3)
      (loaded : load id data index block = (.ok volume, after)) : Timed volume [] true
  | passed {volume : Volume} {ticks : List Tick} {fresh : Bool} {request : Request}
      (timed : Timed volume ticks fresh) (nothing : volume.clocked request = none) :
      Timed (volume.serve request).2 ticks fresh
  | appended {volume : Volume} {ticks : List Tick} {fresh : Bool} {request : Request}
      {now : UInt64} (timed : Timed volume ticks fresh)
      (done : volume.clocked request = some now) :
      Timed (volume.serve request).2 (ticks ++ [{ clock := now, opened := fresh }]) false
  | changed {volume : Volume} {ticks : List Tick} {fresh : Bool} {data index : Faults}
      (timed : Timed volume ticks fresh) (noticed : data.Noticed) (noticed' : index.Noticed) :
      Timed (volume.withFaults data index) ticks fresh
  | reloaded {volume again : Volume} {ticks : List Tick} {fresh : Bool} {after : File}
      {block : SuperBlock} (timed : Timed volume ticks fresh)
      (loaded : load volume.id volume.data volume.index block = (.ok again, after)) :
      Timed again ticks true

/-- How a request leaves a volume: it appended no record, and at most the index is another, or it
appended the record of a needle with the next stamp. -/
inductive Stamped (volume : Volume) (request : Request) : Volume → Prop where
  | nothing (none : volume.clocked request = none) (contents : Bytes) :
      Stamped volume request (volume.withIndex contents)
  | record {now : UInt64} {needle : Needle} (entry : Entry)
      (done : volume.clocked request = some now) (fits : needle.trimmed.Fits)
      (short : (needle.trimmed.body volume.version).length ≤ Needle.maxBodyLength)
      (next : needle.appendedAt = Needle.nextStamp now volume.lastStamp) :
      Stamped volume request
        (volume.logged (needle.record volume.version) entry needle.appendedAt)

theorem Stamped.superBlock (stamped : Stamped volume request again) :
    again.superBlock = volume.superBlock := by
  cases stamped <;> rfl

namespace Sturdy

theorem enter_cases (sturdy : volume.Sturdy) (needle : Needle) (entrySize : Size → Size)
    (live : ∀ size, (entrySize size).isLive = true → size.isLive = true) :
    (∃ problem contents, volume.enter needle entrySize =
        (.error problem, volume.withIndex contents)) ∨
      ∃ record entry, needle.trimmed.Fits ∧
        (needle.trimmed.body volume.version).length ≤ Needle.maxBodyLength ∧
        volume.enter needle entrySize =
          (.ok record,
            volume.logged (needle.record volume.version) entry needle.appendedAt) := by
  obtain ⟨problem, left, entered, -⟩ | ⟨record, again, same, entered⟩ :=
    enter_of_noticed sturdy.data sturdy.index needle entrySize
  · exact .inl ⟨problem, _, entered⟩
  · have outcome := entered_of_ready sturdy.ready needle entrySize live
    rw [same] at outcome
    cases outcome with
    | done fits short room => exact .inr ⟨_, _, fits, short, entered⟩

theorem stamped (sturdy : volume.Sturdy) (request : Request) :
    Stamped volume request (volume.serve request).2 := by
  cases request with
  | write now needle =>
      rw [Volume.serve]
      have entered := sturdy.enter_cases (needle.stamped now volume.lastStamp)
        (fun size => size) fun _ live => live
      rw [← write_eq_enter] at entered
      obtain ⟨problem, contents, failed⟩ | ⟨record, entry, fits, short, done⟩ := entered
      · rw [failed]
        exact .nothing (by rw [clocked, failed]; rfl) contents
      · rw [done]
        exact .record entry (by rw [clocked, done]; rfl) fits short rfl
  | read id cookie => exact .nothing rfl volume.index.contents
  | delete now id cookie =>
      rw [Volume.serve]
      cases checked : volume.checkDelete id cookie with
      | error problem =>
          rw [delete, checked]
          exact .nothing (by rw [clocked, checked]) volume.index.contents
      | ok found =>
          cases found with
          | none =>
              rw [delete, checked]
              exact .nothing (by rw [clocked, checked]) volume.index.contents
          | some size =>
              have deleted := delete_of_found checked now
              rw [bury_eq_enter] at deleted
              obtain ⟨problem, contents, failed⟩ | ⟨record, entry, fits, short, done⟩ :=
                sturdy.enter_cases (volume.marker now id cookie) (fun _ => .tombstone)
                  fun _ live => absurd live (by decide)
              · rw [failed] at deleted
                rw [deleted]
                exact .nothing (by simp only [clocked, checked, deleted]; rfl) contents
              · rw [done] at deleted
                rw [deleted]
                exact .record entry (by simp only [clocked, checked, deleted]; rfl) fits short rfl

end Sturdy

/-- What is so in every such state: the data file bears the stamps of the records behind the super
block, and the last of them is known unless no record was appended since opening. -/
structure Dated (volume : Volume) (ticks : List Tick) (fresh : Bool) : Prop where
  sturdy : volume.Sturdy
  titled : volume.Titled
  third : volume.version = .v3
  bears : ∀ title, volume.superBlock.toBytes = .ok title →
    volume.data.Bears (alignedLength title.length) (Tick.stamps ticks)
  last : volume.lastStamp = if fresh then 0 else (Tick.stamps ticks).getLastD 0

theorem dated_of_new {id : VolumeId} {data index after : File} {block : SuperBlock}
    (noticed : data.faults.Noticed) (noticed' : index.faults.Noticed) (empty : data.contents = [])
    (third : block.version = .v3) (loaded : load id data index block = (.ok volume, after)) :
    volume.Dated [] true := by
  obtain ⟨same, faults, faults'⟩ := load_of_noticed noticed loaded
  obtain ⟨-, title, written, started, mended⟩ | ⟨-, stored, read, -⟩ :=
    load_cases data.reliable_mended same
  · have block' : volume.superBlock = block := congrArg superBlock mended
    have contents : volume.data.contents = [] ++ title.resize (alignedLength title.length) := by
      rw [← empty]
      exact congrArg (fun volume => volume.data.contents) (mended.trans (by rw [started]))
    rw [List.nil_append] at contents
    refine ⟨⟨?_, ?_, ?_⟩, ⟨?_, ?_⟩, ?_, ?_, ?_⟩
    · rwa [faults]
    · rwa [faults']
    · rw [mended, started]
      exact ready_of_new data.reliable_mended index.reliable_mended empty written
    · exact ⟨title, by rw [block', written]⟩
    · rw [block']
      apply readSuperBlock_stored written
      rw [contents, resize_alignedLength]
    · rw [version, block', third]
    · intro title' written'
      obtain rfl := Except.ok.inj ((block' ▸ written').symm.trans written)
      have stop : alignedLength title'.length = volume.data.contents.length := by
        rw [contents, Bytes.length_resize]
      rw [stop]
      constructor
      · rw [File.scan_at_end]
      · rw [File.scan_at_end]
        exact .nil
    · exact congrArg lastStamp mended
  · have long := fixedLength_le_of_readSuperBlock read
    rw [show data.mended.contents = [] from empty] at long
    contradiction

namespace Dated

theorem withIndex (dated : volume.Dated ticks fresh) (contents : Bytes) :
    (volume.withIndex contents).Dated ticks fresh := by
  have ready := dated.sturdy.ready
  exact ⟨⟨dated.sturdy.data, dated.sturdy.index, ready.data, rfl, ready.aligned, ready.started⟩,
    ⟨dated.titled.written, dated.titled.read⟩, dated.third, dated.bears, dated.last⟩

theorem logged (dated : volume.Dated ticks fresh) {now : UInt64} {needle : Needle} (entry : Entry)
    (fits : needle.trimmed.Fits)
    (short : (needle.trimmed.body volume.version).length ≤ Needle.maxBodyLength)
    (next : needle.appendedAt = Needle.nextStamp now volume.lastStamp) :
    (volume.logged (needle.record volume.version) entry needle.appendedAt).Dated
      (ticks ++ [{ clock := now, opened := fresh }]) false := by
  have stamps : Tick.stamps (ticks ++ [{ clock := now, opened := fresh }]) =
      Tick.stamps ticks ++ [needle.appendedAt] := by
    rw [Tick.stamps, Tick.stampsAfter_concat, next, dated.last]
    rfl
  refine ⟨⟨dated.sturdy.data, dated.sturdy.index, ?_⟩, dated.titled.logged _ _ _, dated.third,
    ?_, ?_⟩
  · exact dated.sturdy.ready.logged (Needle.length_record_mod_unit _ _) _ _
  · intro title written
    have bears := dated.bears title written
    rw [dated.third] at short
    rw [stamps, dated.third]
    exact bears.extended fits short
  · rw [stamps, List.getLastD_concat]
    rfl

theorem withFaults (dated : volume.Dated ticks fresh) {data index : Faults}
    (noticed : data.Noticed) (noticed' : index.Noticed) :
    (volume.withFaults data index).Dated ticks fresh :=
  ⟨dated.sturdy.withFaults noticed noticed', ⟨dated.titled.written, dated.titled.read⟩,
    dated.third, fun title written => (dated.bears title written).withFaults data, dated.last⟩

theorem reloaded (dated : volume.Dated ticks fresh) {after : File} {block : SuperBlock}
    (loaded : load volume.id volume.data volume.index block = (.ok again, after)) :
    again.Dated ticks true := by
  obtain ⟨stored, read, rfl⟩ := dated.sturdy.reloaded loaded
  obtain rfl := Except.ok.inj (dated.titled.read.symm.trans read)
  obtain ⟨title, written⟩ := dated.titled.written
  have kept := volume.superBlock.toBytes_normal
  have ready := dated.sturdy.ready
  refine ⟨⟨dated.sturdy.data, dated.sturdy.index, ready.data, ready.index, ready.aligned,
    ready.started⟩, ⟨⟨title, kept.trans written⟩, ?_⟩, dated.third, ?_, rfl⟩
  · rw [opened, SuperBlock.normal_normal written]
    exact read
  · intro title written
    exact dated.bears title (kept.symm.trans written)

end Dated

theorem Timed.dated (timed : Timed volume ticks fresh) : volume.Dated ticks fresh := by
  induction timed with
  | new noticed noticed' empty third loaded => exact dated_of_new noticed noticed' empty third loaded
  | @passed volume ticks fresh request _ nothing ih =>
      have stamped := ih.sturdy.stamped request
      generalize (volume.serve request).2 = later at stamped ⊢
      cases stamped with
      | nothing none contents => exact ih.withIndex contents
      | record entry done fits short next =>
          rw [nothing] at done
          contradiction
  | @appended volume ticks fresh request now _ done ih =>
      have stamped := ih.sturdy.stamped request
      generalize (volume.serve request).2 = later at stamped ⊢
      cases stamped with
      | nothing none contents =>
          rw [none] at done
          contradiction
      | record entry done' fits short next =>
          obtain rfl := Option.some.inj (done.symm.trans done')
          exact ih.logged entry fits short next
  | changed _ noticed noticed' ih => exact ih.withFaults noticed noticed'
  | reloaded _ loaded ih => exact ih.reloaded loaded

theorem opens_on_empty_files :
    let volume := opened 3 {} { contents := [3, 0, 0, 0, 0, 0, 0, 0] } {}
    load 3 {} {} {} = (.ok volume, volume.data) ∧ volume.Timed [] true ∧ volume.Reached := by
  intro volume
  have reliable : File.Reliable {} := rfl
  have written : ({} : SuperBlock).toBytes = .ok [3, 0, 0, 0, 0, 0, 0, 0] := rfl
  have loaded : load 3 {} {} {} = (.ok volume, volume.data) :=
    load_of_empty reliable rfl written 3 {}
  exact ⟨loaded, .new Faults.noticed_none Faults.noticed_none rfl rfl loaded,
    .new reliable reliable rfl rfl loaded⟩

/-- The records of a volume bear the stamps that the clock readings give. They rise in file order
if and only if each stamp is less than the greatest one, where the volume stays open up to the next
record, and less than what the clock reads for the next record, where it was opened in between. -/
theorem stamps_rise_unless_clock_lags_on_opening (timed : Timed volume ticks fresh) :
    ∃ title, volume.superBlock.toBytes = .ok title ∧
      volume.data.Bears (alignedLength title.length) (Tick.stamps ticks) ∧
      ((Tick.stamps ticks).Pairwise (· < ·) ↔
        ∀ pair ∈ (Tick.stamps ticks).zip ticks.tail, pair.1 < pair.2.bound) := by
  have dated := timed.dated
  obtain ⟨title, written⟩ := dated.titled.written
  exact ⟨title, written, dated.bears title written, Tick.stamps_rise_iff ticks⟩

/-- A needle is written and deleted while the clock stands still, and after some time the volume is
opened again and another one written. -/
theorem stamps_rise_over_clock_at_rest :
    let volume := opened 3 {} { contents := [3, 0, 0, 0, 0, 0, 0, 0] } {}
    let once := (volume.serve (.write 100 { id := 1, cookie := 7, data := [104] })).2
    let twice := (once.serve (.delete 100 1 7)).2
    ∃ again, load twice.id twice.data twice.index {} = (.ok again, twice.data) ∧
      let later := (again.serve (.write 200 { id := 2, cookie := 9, data := [105] })).2
      let ticks : List Tick := [⟨100, true⟩, ⟨100, false⟩, ⟨200, true⟩]
      later.Timed ticks false ∧ Tick.stamps ticks = [100, 101, 200] ∧
      ∃ title, later.superBlock.toBytes = .ok title ∧
        later.data.Bears (alignedLength title.length) (Tick.stamps ticks) ∧
        ((Tick.stamps ticks).Pairwise (· < ·) ↔
          ∀ pair ∈ (Tick.stamps ticks).zip ticks.tail, pair.1 < pair.2.bound) := by
  intro volume once twice
  obtain ⟨-, new, opens⟩ := opens_on_empty_files
  have timed : twice.Timed [⟨100, true⟩, ⟨100, false⟩] false :=
    (new.appended (by decide +kernel)).appended (by decide +kernel)
  have reached : twice.Reached := (opens.served _).served _
  have reloaded := reached.consistent.load_eq {}
  have last := @Timed.appended _ _ _ (.write 200 { id := 2, cookie := 9, data := [105] }) 200
    (timed.reloaded reloaded) (by decide +kernel)
  exact ⟨_, reloaded, last, by decide, stamps_rise_unless_clock_lags_on_opening last⟩

/-- A needle is written, the clock goes back and the volume is opened again. The next record bears
an earlier stamp. -/
theorem record_after_opening_bears_earlier_stamp :
    let volume := opened 3 {} { contents := [3, 0, 0, 0, 0, 0, 0, 0] } {}
    let once := (volume.serve (.write 100 { id := 1, cookie := 7, data := [104] })).2
    load 3 {} {} {} = (.ok volume, volume.data) ∧ volume.version = .v3 ∧
      (volume.write 100 { id := 1, cookie := 7, data := [104] }).1.isOk = true ∧
      ∃ again, load once.id once.data once.index {} = (.ok again, once.data) ∧
        (again.write 50 { id := 2, cookie := 9, data := [105] }).1.isOk = true ∧
        (again.serve (.write 50 { id := 2, cookie := 9, data := [105] })).2.data.Bears 8 [100, 50] ∧
        ¬ [(100 : UInt64), 50].Pairwise (· < ·) := by
  intro volume once
  obtain ⟨loaded, new, opens⟩ := opens_on_empty_files
  have timed : once.Timed [⟨100, true⟩] false := new.appended (by decide +kernel)
  have reached : once.Reached := opens.served _
  have reloaded := reached.consistent.load_eq {}
  have opened := timed.reloaded reloaded
  have last := @Timed.appended _ _ _ (.write 50 { id := 2, cookie := 9, data := [105] }) 50
    opened (by decide +kernel)
  have bears := last.dated.bears [3, 0, 0, 0, 0, 0, 0, 0] (by
    rw [(opened.dated.sturdy.stamped _).superBlock, SuperBlock.toBytes_normal,
      (new.dated.sturdy.stamped _).superBlock]
    rfl)
  rw [show Tick.stamps _ = [100, 50] by decide] at bears
  exact ⟨loaded, rfl, by decide +kernel, _, reloaded, by decide +kernel, bears, by decide⟩

end Volume

end Haystack
