import Haystack.Proofs.Volume.Reload
import Haystack.Proofs.Volume.Shelf

/-!
# Scanning a volume

The records of a volume can be found without its index, since each header tells where the next
record starts. What is come upon in this way, from behind the super block to the end of the data
file, is what was written and buried, in that order, and the index has one entry for each of it.
-/

namespace Haystack

namespace File

/-- A header that was come upon. -/
structure Sighting where
  offset : Nat
  header : Needle

/-- A way from header to header: what was come upon, and where no further header could be read. -/
structure Scan where
  sightings : List Sighting
  stop : Nat

/-- The scan of a file from a position on. -/
def scan (file : File) (version : Version) (offset : Nat) : Scan :=
  match _read : file.readHeader offset with
  | .error _ => { sightings := [], stop := offset }
  | .ok header =>
    let further := file.scan version
      (offset + (Record.headerLength + Record.restLength version header.size.length))
    { further with sightings := { offset, header } :: further.sightings }
  termination_by file.contents.length - offset
  decreasing_by
    have inside := length_of_readHeader _read
    simp only [Record.headerLength] at *
    omega

/-- A scan that goes on with another one. -/
def Scan.followedBy (first second : Scan) : Scan :=
  { second with sightings := first.sightings ++ second.sightings }

variable {file : File} {version : Version} {offset : Nat}

theorem scan_of_unreadable {problem : Error} (read : file.readHeader offset = .error problem) :
    file.scan version offset = { sightings := [], stop := offset } := by
  unfold scan
  split
  · rfl
  · rename_i header known
    rw [read] at known
    contradiction

theorem scan_of_readable {header : Needle} (read : file.readHeader offset = .ok header) :
    file.scan version offset =
      Scan.followedBy { sightings := [{ offset, header }], stop := offset }
        (file.scan version (offset + Record.length version header.size.length)) := by
  rw [scan]
  split
  · rename_i problem known
    rw [read] at known
    contradiction
  · rename_i again known
    rw [read, Except.ok.injEq] at known
    subst known
    rfl

theorem readHeader_extended {header : Needle} (read : file.readHeader offset = .ok header)
    (more : Bytes) : (file.extended more).readHeader offset = .ok header := by
  unfold readHeader at read ⊢
  cases start : file.readExact Record.headerLength offset with
  | error problem =>
      rw [start] at read
      contradiction
  | ok bytes =>
      rw [start] at read
      rw [readExact_extended start more]
      exact read

theorem readNeedle_extended {size : Size} {needle : Needle}
    (read : file.readNeedle offset size version = .ok needle) (more : Bytes) :
    (file.extended more).readNeedle offset size version = .ok needle := by
  unfold readNeedle readRecord at read ⊢
  cases start : file.readExact (Record.length version size.length) offset with
  | error problem =>
      rw [start] at read
      contradiction
  | ok bytes =>
      rw [start] at read
      rw [readExact_extended start more]
      exact read

theorem scan_extended (whole : (file.scan version offset).stop = file.contents.length)
    (bytes : Bytes) :
    (file.extended bytes).scan version offset =
      (file.scan version offset).followedBy
        ((file.extended bytes).scan version file.contents.length) := by
  fun_induction scan file version offset with
  | case1 offset problem unread =>
      subst whole
      rfl
  | case2 offset header read further ih =>
      rw [scan_of_readable (readHeader_extended read bytes)]
      exact congrArg (Scan.followedBy { sightings := [{ offset, header }], stop := offset })
        (ih whole)

theorem scan_at_end (file : File) (version : Version) :
    file.scan version file.contents.length =
      { sightings := [], stop := file.contents.length } := by
  cases read : file.readHeader file.contents.length with
  | error problem => exact scan_of_unreadable read
  | ok header =>
      have inside := length_of_readHeader read
      simp only [Record.headerLength] at inside
      omega

end File

/-- Only entries with a body keep a number alive. -/
theorem LiveMap.isLive_of_find? {entries : List Entry} {id : NeedleId} {location : Location}
    (known : (ofEntries entries).find? id = some location) : location.size.isLive = true := by
  induction entries using List.reverseRecOn with
  | nil => contradiction
  | append_singleton entries entry ih =>
      rw [ofEntries_concat] at known
      by_cases same : id = entry.key
      · subst same
        unfold replay at known
        split at known
        · rename_i alive
          rw [Table.find?_insert_self, Option.some.injEq] at known
          rw [← known]
          exact (Bool.and_eq_true_iff.mp alive).2
        · rw [Table.find?_erase_self] at known
          contradiction
      · rw [find?_replay_of_ne _ _ same] at known
        exact ih known

/-- What a request appends a record for: a needle that is written, or the deletion of one. -/
inductive Note where
  | written (needle : Needle)
  | buried (marker : Needle)

namespace Note

/-- The needle of the record. -/
def needle : Note → Needle
  | written needle => needle
  | buried marker => marker

/-- What the header of the record says. -/
def header (note : Note) (version : Version) : Needle :=
  { cookie := note.needle.cookie, id := note.needle.id, size := (note.needle.sized version).size }

/-- The entry of the record if it stands at a position. -/
def entry (note : Note) (version : Version) (offset : Nat) : Entry :=
  { key := note.needle.id
    offset := .ofPosition offset
    size :=
      match note with
      | written needle => (needle.sized version).size
      | buried _ => .tombstone }

/-- The record can be made. -/
structure Fits (note : Note) (version : Version) : Prop where
  fields : note.needle.trimmed.Fits
  body : (note.needle.trimmed.body version).length ≤ Needle.maxBodyLength

variable {note : Note} {version : Version}

theorem length_record (fits : note.Fits version) :
    Record.length version (note.header version).size.length =
      (note.needle.record version).length := by
  have bound : (note.needle.trimmed.body version).length < 2 ^ 31 := by
    have body := fits.body
    unfold Needle.maxBodyLength at body
    omega
  rw [Needle.length_record]
  exact congrArg (Record.length version) (Size.length_ofLength bound)

/-- The header of a record is read from where the record stands. -/
theorem readHeader_of_stands {file : File} {front back : Bytes}
    (stands : file.contents = front ++ note.needle.record version ++ back) :
    file.readHeader front.length = .ok (note.header version) := by
  obtain ⟨rest, parts⟩ : ∃ rest, note.needle.record version =
      (note.needle.sized version).headerBytes ++ rest := by
    refine ⟨note.needle.trimmed.body version ++ ((note.needle.sized version).tailBytes version ++
      Bytes.zeros (Record.paddingLength version (note.needle.trimmed.body version).length)), ?_⟩
    simp only [Needle.record, List.append_assoc]
  rw [parts, ← List.append_assoc, List.append_assoc] at stands
  have start := File.readExact_of_stands stands
  rw [Needle.length_headerBytes] at start
  unfold File.readHeader
  rw [start]
  have read := Needle.readHeader_headerBytes (note.needle.sized version) []
  rw [List.append_nil] at read
  exact read

theorem scan_of_last {file : File} (fits : note.Fits version) :
    (file.extended (note.needle.record version)).scan version file.contents.length =
      { sightings := [{ offset := file.contents.length, header := note.header version }]
        stop := (file.extended (note.needle.record version)).contents.length } := by
  have stands : (file.extended (note.needle.record version)).contents =
      file.contents ++ note.needle.record version ++ [] := by
    rw [File.contents_extended, List.append_nil]
  have stop : file.contents.length + Record.length version (note.header version).size.length =
      (file.extended (note.needle.record version)).contents.length := by
    rw [length_record fits, File.contents_extended, List.length_append]
  rw [File.scan_of_readable (readHeader_of_stands stands), stop, File.scan_at_end]
  rfl

end Note

/-- A noted record with its position. -/
structure Spot where
  offset : Nat
  note : Note

namespace Spot

/-- What a scan comes upon there. -/
def sighting (spot : Spot) (version : Version) : File.Sighting :=
  { offset := spot.offset, header := spot.note.header version }

def entry (spot : Spot) (version : Version) : Entry :=
  spot.note.entry version spot.offset

end Spot

namespace Volume

/-- The record that a request appends, if it appends one, as its answer tells: a needle that was
written, or the deletion of a needle that had data. -/
def noted (volume : Volume) : Request → List Note
  | .write now needle =>
    match (volume.write now needle).1 with
    | .ok _ => [.written (needle.stamped now volume.lastStamp)]
    | .error _ => []
  | .read _ _ => []
  | .delete now id cookie =>
    match (volume.delete now id cookie).1 with
    | .ok size => if size.isLive then [.buried (volume.marker now id cookie)] else []
    | .error _ => []

variable {volume : Volume} {notes : List Note} {spots : List Spot}

theorem Kept.isLive {id : NeedleId} {needle : Needle} (kept : volume.Kept id (some needle))
    (indexed : volume.Indexed) : needle.size.isLive = true := by
  cases kept with
  | needle known own placed =>
      rw [find?, indexed.live] at known
      cases placed with
      | record source front back fits short stands offset size =>
          rw [← size]
          exact LiveMap.isLive_of_find? known

theorem Kept.reloaded {id : NeedleId} {slot : Option Needle} (kept : volume.Kept id slot) :
    Kept { volume with superBlock := volume.superBlock.normal, lastStamp := 0 } id slot := by
  cases kept with
  | nothing unknown => exact .nothing unknown
  | needle known own placed => exact .needle known own placed

/-- A request appends nothing and changes nothing, or appends the record that is noted. -/
theorem noted_cases (ready : volume.Ready) (indexed : volume.Indexed) {shelf : Shelf}
    (keeps : volume.Keeps shelf) (request : Request) :
    (volume.noted request = [] ∧ (volume.serve request).2 = volume) ∨
      ∃ note stamp, volume.noted request = [note] ∧ note.Fits volume.version ∧
        ((note.entry volume.version volume.data.contents.length).size.isLive = true →
          volume.data.contents.length < File.maxVolumeLength) ∧
        (volume.serve request).2 =
          volume.logged (note.needle.record volume.version)
            (note.entry volume.version volume.data.contents.length) stamp := by
  cases request with
  | write now needle =>
      have written := written_of_ready ready now needle
      rw [serve, noted]
      generalize volume.write now needle = result at written
      cases written with
      | full long data => exact .inl ⟨rfl, rfl⟩
      | unfit encoded => exact .inl ⟨rfl, rfl⟩
      | done fits short room =>
          refine .inr
            ⟨.written (needle.stamped now volume.lastStamp), _, rfl, ⟨fits, short⟩, ?_, rfl⟩
          intro live
          have live := (Needle.isLive_sized short).symm.trans live
          exact room (by simpa using live)
  | read id cookie => exact .inl ⟨rfl, rfl⟩
  | delete now id cookie =>
      rw [serve, noted]
      obtain ⟨needle, stands, -, rfl, read⟩ | ⟨other, read⟩ := (keeps.kept id).read_cases cookie
      · have live : needle.size.isLive = true := by
          have kept := keeps.kept id
          rw [stands] at kept
          exact kept.isLive indexed
        have marker := Needle.encode_marker id needle.cookie now volume.lastStamp volume.version
        obtain ⟨fits, short, -⟩ := Needle.encode_eq_ok_iff.mp marker
        unfold delete checkDelete
        simp only [read, bury_of_ready ready, live, if_true]
        refine .inr ⟨.buried (volume.marker now id needle.cookie), _, rfl, ⟨fits, short⟩, ?_, rfl⟩
        intro alive
        contradiction
      · have ignored : volume.delete now id cookie = (.ok {}, volume) := by
          unfold delete checkDelete
          simp only [read, Error.isNotFound, if_true]
        rw [ignored]
        exact .inl ⟨rfl, rfl⟩

/-- The states that a new volume over files that do nothing wrong may come to, with a note of every
record that was appended. -/
inductive Recorded : Volume → List Note → Prop where
  | new {id : VolumeId} {data index after : File} {block : SuperBlock} {volume : Volume}
      (reliable : data.Reliable) (indexed : index.Reliable) (empty : data.contents = [])
      (unindexed : index.contents = [])
      (loaded : load id data index block = (.ok volume, after)) : Recorded volume []
  | served {volume : Volume} {notes : List Note} (recorded : Recorded volume notes)
      (request : Request) : Recorded (volume.serve request).2 (notes ++ volume.noted request)
  | reloaded {volume again : Volume} {notes : List Note} {after : File} {block : SuperBlock}
      (recorded : Recorded volume notes)
      (loaded : load volume.id volume.data volume.index block = (.ok again, after)) :
      Recorded again notes

/-- A record stands where it is noted and can be found from its entry. -/
structure Stands (volume : Volume) (spot : Spot) : Prop where
  aligned : spot.offset % StoredOffset.unit = 0
  read : volume.data.readNeedle spot.offset (spot.note.header volume.version).size volume.version =
    .ok (spot.note.needle.stored volume.version)
  reach : (spot.entry volume.version).size.isLive = true →
    (spot.entry volume.version).offset.position = spot.offset

/-- The records and entries of a volume are those that are noted, at some positions. -/
structure Charted (volume : Volume) (spots : List Spot) : Prop where
  scanned : ∃ title, volume.superBlock.toBytes = .ok title ∧
    volume.data.scan volume.version (alignedLength title.length) =
      { sightings := spots.map (·.sighting volume.version), stop := volume.data.contents.length }
  entries : volume.index.contents =
    (spots.map fun spot => (spot.entry volume.version).toBytes).flatten
  stands : ∀ spot ∈ spots, volume.Stands spot

theorem Stands.logged {spot : Spot} (stands : volume.Stands spot) (bytes : Bytes)
    (entry : Entry) (stamp : UInt64) : (volume.logged bytes entry stamp).Stands spot :=
  ⟨stands.aligned, File.readNeedle_extended stands.read bytes, stands.reach⟩

theorem stands_last (ready : volume.Ready) {note : Note} (fits : note.Fits volume.version)
    (room : (note.entry volume.version volume.data.contents.length).size.isLive = true →
      volume.data.contents.length < File.maxVolumeLength) (entry : Entry) (stamp : UInt64) :
    (volume.logged (note.needle.record volume.version) entry stamp).Stands
      { offset := volume.data.contents.length, note } := by
  refine ⟨ready.aligned, ?_, ?_⟩
  · apply Needle.readNeedle_record fits.fields fits.body
    exact (List.append_nil _).symm
  · intro live
    have reach := room live
    rw [File.maxVolumeLength_eq] at reach
    exact StoredOffset.position_ofPosition ready.aligned reach

/-- A record that is appended is the last that a scan comes upon. -/
theorem Charted.logged (charted : volume.Charted spots) (ready : volume.Ready) {note : Note}
    (fits : note.Fits volume.version)
    (room : (note.entry volume.version volume.data.contents.length).size.isLive = true →
      volume.data.contents.length < File.maxVolumeLength) (stamp : UInt64) :
    (volume.logged (note.needle.record volume.version)
      (note.entry volume.version volume.data.contents.length) stamp).Charted
        (spots ++ [{ offset := volume.data.contents.length, note }]) := by
  obtain ⟨title, written, scanned⟩ := charted.scanned
  refine ⟨⟨title, written, ?_⟩, ?_, ?_⟩
  · have whole : (volume.data.scan volume.version (alignedLength title.length)).stop =
        volume.data.contents.length := by
      rw [scanned]
    have longer := File.scan_extended whole (note.needle.record volume.version)
    rw [Note.scan_of_last fits, scanned] at longer
    change (volume.data.extended _).scan volume.version _ = _
    rw [longer, List.map_append]
    rfl
  · rw [List.map_append, List.flatten_append]
    change volume.index.contents ++ _ = _
    rw [charted.entries]
    exact congrArg _ (List.append_nil _).symm
  · intro spot member
    obtain before | last := List.mem_append.mp member
    · exact (charted.stands spot before).logged _ _ _
    · rw [List.mem_singleton.mp last]
      exact stands_last ready fits room _ _

theorem Recorded.reached (recorded : volume.Recorded notes) : volume.Reached := by
  induction recorded with
  | new reliable indexed empty unindexed loaded =>
      exact .new reliable indexed empty unindexed loaded
  | served _ request ih => exact ih.served request
  | reloaded _ loaded ih => exact ih.reloaded loaded

theorem Recorded.charted (recorded : volume.Recorded notes) :
    (∃ shelf, volume.Keeps shelf) ∧
      ∃ spots : List Spot, spots.map Spot.note = notes ∧ volume.Charted spots := by
  induction recorded with
  | @new id data index after block volume reliable indexed empty unindexed loaded =>
      obtain ⟨-, title, written, rfl, rfl⟩ | ⟨-, stored, read, -⟩ := load_cases reliable loaded
      · have ready := @ready_of_new id _ _ _ _ reliable indexed empty written
        refine ⟨⟨fun _ => none, ready, LiveMap.distinct_ofEntries _, ?_⟩,
          [], rfl, ⟨title, written, ?_⟩, unindexed, ?_⟩
        · intro id
          apply Kept.nothing
          rw [opened, unindexed]
          rfl
        · have stop : alignedLength title.length =
              (data.extended (title.resize (alignedLength title.length))).contents.length := by
            rw [File.contents_extended, empty, List.nil_append, Bytes.length_resize]
          have nothing := File.scan_at_end
            (data.extended (title.resize (alignedLength title.length))) block.version
          rw [← stop] at nothing
          change File.scan (data.extended _) block.version _ = _
          rw [nothing, opened, ← stop]
          rfl
        · intro spot member
          cases member
      · have long := fixedLength_le_of_readSuperBlock read
        rw [empty] at long
        contradiction
  | @served volume notes recorded request ih =>
      have consistent := recorded.reached.consistent
      obtain ⟨⟨shelf, keeps⟩, spots, same, charted⟩ := ih
      obtain ⟨next, -, keeps'⟩ := keeps.serve request
      refine ⟨⟨next, keeps'⟩, ?_⟩
      obtain ⟨nothing, unchanged⟩ | ⟨note, stamp, noted, fits, room, appended⟩ :=
        noted_cases consistent.ready consistent.indexed keeps request
      · rw [nothing, unchanged, List.append_nil]
        exact ⟨spots, same, charted⟩
      · rw [appended]
        refine ⟨_, ?_, charted.logged consistent.ready fits room stamp⟩
        rw [List.map_append, same, noted]
        rfl
  | @reloaded volume again notes after block recorded loaded ih =>
      obtain ⟨⟨shelf, keeps⟩, spots, same, charted⟩ := ih
      rw [recorded.reached.consistent.load_eq, Prod.mk.injEq, Except.ok.injEq] at loaded
      obtain ⟨rfl, -⟩ := loaded
      refine ⟨⟨shelf, ?_, keeps.distinct, ?_⟩, spots, same, ?_, charted.entries, ?_⟩
      · exact ⟨keeps.ready.data, keeps.ready.index, keeps.ready.aligned, keeps.ready.started⟩
      · intro id
        exact (keeps.kept id).reloaded
      · -- The super block is now in normal form, which is written as the same bytes.
        obtain ⟨title, written, scanned⟩ := charted.scanned
        exact ⟨title, volume.superBlock.toBytes_normal.trans written, scanned⟩
      · intro spot member
        have stands := charted.stands spot member
        exact ⟨stands.aligned, stands.read, stands.reach⟩

/-- A scan from behind the super block comes upon what was written and buried, in that order, at
aligned positions and up to the end of the data file. The index has the entries of these records and
nothing else, and where an entry says that its record has a body it leads to the record. -/
theorem scan_finds_records (recorded : volume.Recorded notes) :
    ∃ (title : Bytes) (spots : List Spot),
      volume.superBlock.toBytes = .ok title ∧ spots.map Spot.note = notes ∧
      volume.data.scan volume.version (alignedLength title.length) =
        { sightings := spots.map (·.sighting volume.version)
          stop := volume.data.contents.length } ∧
      volume.index.contents =
        (spots.map fun spot => (spot.entry volume.version).toBytes).flatten ∧
      ∀ spot ∈ spots, volume.Stands spot := by
  obtain ⟨-, spots, same, ⟨title, written, scanned⟩, entries, stands⟩ := recorded.charted
  exact ⟨title, spots, written, same, scanned, entries, stands⟩

/-- A needle is written and buried, and the volume opened again. -/
theorem scan_finds_written_and_buried :
    let volume := opened 3 {} { contents := [3, 0, 0, 0, 0, 0, 0, 0] } {}
    let once := (volume.serve (.write 20 { id := 1, cookie := 7, data := [104] })).2
    let twice := (once.serve (.delete 30 1 7)).2
    let notes := [] ++ volume.noted (.write 20 { id := 1, cookie := 7, data := [104] }) ++
      once.noted (.delete 30 1 7)
    ∃ again, load twice.id twice.data twice.index {} = (.ok again, twice.data) ∧
      again.Recorded notes ∧ notes.length = 2 ∧
      ∃ (title : Bytes) (spots : List Spot),
        again.superBlock.toBytes = .ok title ∧ spots.map Spot.note = notes ∧
        again.data.scan again.version (alignedLength title.length) =
          { sightings := spots.map (·.sighting again.version)
            stop := again.data.contents.length } ∧
        again.index.contents =
          (spots.map fun spot => (spot.entry again.version).toBytes).flatten ∧
        ∀ spot ∈ spots, again.Stands spot := by
  intro volume once twice notes
  have reliable : File.Reliable {} := rfl
  have written : ({} : SuperBlock).toBytes = .ok [3, 0, 0, 0, 0, 0, 0, 0] := rfl
  have loaded : load 3 {} {} {} = (.ok volume, volume.data) :=
    load_of_empty reliable rfl written 3 {}
  have recorded : twice.Recorded notes :=
    .served (.served (.new reliable reliable rfl rfl loaded) _) _
  have reloaded := recorded.reached.consistent.load_eq {}
  have again := recorded.reloaded reloaded
  have two : notes.length = 2 := by decide +kernel
  exact ⟨_, reloaded, again, two, scan_finds_records again⟩

end Volume

end Haystack
