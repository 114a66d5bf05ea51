import Haystack.Proofs.File.Records
import Haystack.Proofs.Index.Walk
import Haystack.Volume.Basic

/-!
# What requests do to a volume

If its files do nothing wrong and its data file is aligned, a volume either refuses a write, and
stays as it is, or puts the record and its entry behind what the files hold. The entry then counts
in the map of live needles just as it does when it is replayed: a needle with data is live since
its record lies behind the super block and within reach of a stored offset.
-/

namespace Haystack

theorem Size.isLive_ofLength {length : Nat} (short : length < 2 ^ (31 : Nat)) :
    (ofLength length).isLive = decide (0 < length) := by
  rw [isLive, toInt_ofLength short]
  simp

theorem StoredOffset.isZero_ofPosition {position : Nat} (behind : unit ≤ position)
    (reach : position < 2 ^ (32 : Nat) * unit) : (ofPosition position).isZero = false := by
  simp only [unit] at behind reach
  have units : (position / 8) % 2 ^ 32 ≠ 0 := by
    omega
  rw [isZero, beq_eq_false_iff_ne, ofPosition]
  intro zero
  apply units
  have word := congrArg UInt32.toNat zero
  rwa [UInt32.toNat_ofNat', UInt32.toNat_zero] at word

theorem File.maxVolumeLength_eq : maxVolumeLength = 2 ^ (32 : Nat) * StoredOffset.unit := rfl

namespace Needle

theorem isEmpty_body (needle : Needle) (version : Version) :
    (needle.body version).isEmpty = needle.data.isEmpty := by
  unfold body
  split
  · rfl
  · split
    · rename_i empty
      rw [empty]
      rfl
    · rename_i full
      rw [Bool.not_eq_true] at full
      rw [full]
      simp [counted]

theorem isLive_sized {needle : Needle} {version : Version}
    (short : (needle.trimmed.body version).length ≤ maxBodyLength) :
    (needle.sized version).size.isLive = !needle.data.isEmpty := by
  have bound : (needle.trimmed.body version).length < 2 ^ 31 := by
    unfold maxBodyLength at short
    omega
  have empty : (needle.trimmed.body version).isEmpty = needle.data.isEmpty :=
    isEmpty_body needle.trimmed version
  rw [← empty, sized, Size.isLive_ofLength bound]
  cases needle.trimmed.body version <;> simp

theorem length_record_mod_unit (needle : Needle) (version : Version) :
    (needle.record version).length % StoredOffset.unit = 0 := by
  rw [length_record]
  exact Record.length_mod_unit version _

/-- The time stamp of a needle does not decide whether it can be encoded. -/
theorem encode_of_stamped {needle : Needle} {now last : UInt64} {version : Version}
    {problem : Error} (encoded : (needle.stamped now last).encode version = .error problem) :
    needle.encode version = .error problem := by
  have large : (needle.stamped now last).tooLarge? = needle.tooLarge? := rfl
  have body : (needle.stamped now last).trimmed.body version = needle.trimmed.body version := rfl
  unfold encode sealWith at encoded ⊢
  rw [large, body] at encoded
  cases found : needle.tooLarge? with
  | some problem =>
      rw [found] at encoded
      exact encoded
  | none =>
      simp only [found] at encoded
      split at encoded
      · rename_i long
        simp only [if_pos long]
        exact encoded
      · contradiction

theorem encode_marker (id : NeedleId) (cookie : Cookie) (now last : UInt64) (version : Version) :
    ((ofData id cookie []).stamped now last).encode version =
      .ok { needle := ((ofData id cookie []).stamped now last).sized version
            bytes := ((ofData id cookie []).stamped now last).record version } := by
  apply encode_eq_ok_iff.mpr
  refine ⟨⟨?_, ?_, ?_, ?_⟩, ?_, rfl⟩
  · exact Nat.zero_le _
  · exact Nat.zero_le _
  · exact Nat.zero_le _
  · exact Nat.zero_le _
  · have empty := isEmpty_body ((ofData id cookie []).stamped now last).trimmed version
    rw [List.isEmpty_iff.mp empty]
    exact Nat.zero_le _

end Needle

/-- What the users of a volume ask for. -/
inductive Volume.Request where
  | write (now : UInt64) (needle : Needle)
  | read (id : NeedleId) (cookie : Cookie)
  | delete (now : UInt64) (id : NeedleId) (cookie : Cookie)

/-- The number that a request is about. -/
def Volume.Request.target : Request → NeedleId
  | .write _ needle => needle.id
  | .read id _ => id
  | .delete _ id _ => id

/-- What a volume gives for a request. -/
inductive Volume.Answer where
  | written (result : Except Error File.AppendedNeedle)
  | found (result : Except Error Needle)
  | freed (result : Except Error Size)

namespace Volume

def serve (volume : Volume) : Request → Answer × Volume
  | .write now needle => (.written (volume.write now needle).1, (volume.write now needle).2)
  | .read id cookie => (.found (volume.read id cookie), volume)
  | .delete now id cookie => (.freed (volume.delete now id cookie).1, (volume.delete now id cookie).2)

/-- What writing and burying have in common: a record is appended and then an entry of it, with a
size that may depend on the record's. -/
def enter (volume : Volume) (needle : Needle) (entrySize : Size → Size) :
    Except Error File.AppendedNeedle × Volume :=
  match volume.data.appendNeedle needle volume.version with
  | (.error problem, data) => (.error problem, { volume with data })
  | (.ok record, data) =>
    let entry : Entry :=
      { key := needle.id, offset := .ofPosition record.place.offset
        size := entrySize record.place.size }
    let live :=
      if entry.size.isLive then
        volume.live.insert entry.key { offset := entry.offset, size := entry.size }
      else volume.live.erase entry.key
    match { volume with data }.commit entry record.place.offset record.needle.appendedAt live with
    | (.error problem, volume) => (.error problem, volume)
    | (.ok (), volume) => (.ok record, volume)

/-- The needle without data of which the record marks a deletion. -/
def marker (volume : Volume) (now : UInt64) (id : NeedleId) (cookie : Cookie) : Needle :=
  (Needle.ofData id cookie []).stamped now volume.lastStamp

/-- The volume can take records: its files do nothing wrong, and the data file ends behind the
super block where a record may start. -/
structure Ready (volume : Volume) : Prop where
  data : volume.data.Reliable
  index : volume.index.Reliable
  aligned : volume.data.contents.length % StoredOffset.unit = 0
  started : StoredOffset.unit ≤ volume.data.contents.length

/-- The entry of a record that starts where the data file ends. -/
def nextEntry (volume : Volume) (id : NeedleId) (size : Size) : Entry :=
  { key := id, offset := .ofPosition volume.data.contents.length, size }

/-- The volume with a record and its entry behind what its files hold. -/
def logged (volume : Volume) (bytes : Bytes) (entry : Entry) (stamp : UInt64) : Volume :=
  { volume with
    data := volume.data.extended bytes
    index := volume.index.extended entry.toBytes
    live := volume.live.replay entry
    lastStamp := stamp }

variable {volume : Volume} {bytes : Bytes} {entry : Entry} {stamp : UInt64}

theorem Ready.logged (ready : volume.Ready) (whole : bytes.length % StoredOffset.unit = 0)
    (entry : Entry) (stamp : UInt64) : (volume.logged bytes entry stamp).Ready := by
  have aligned := ready.aligned
  have started := ready.started
  constructor
  · exact ready.data.extended bytes
  · exact ready.index.extended entry.toBytes
  · simp only [StoredOffset.unit, Volume.logged, File.contents_extended, List.length_append] at *
    omega
  · simp only [Volume.logged, File.contents_extended, List.length_append]
    omega

theorem Ready.nonempty (ready : volume.Ready) : volume.data.contents ≠ [] := by
  intro empty
  have started := ready.started
  rw [empty] at started
  contradiction

theorem commit_of_reliable (reliable : volume.index.Reliable) {live : LiveMap}
    (map : volume.live.replay entry = live) (position : Nat) :
    ({ volume with data := volume.data.extended bytes } : Volume).commit entry position stamp live =
      (.ok (), volume.logged bytes entry stamp) := by
  unfold commit
  rw [File.appendEntry_of_reliable reliable, ← map]
  rfl

/-- An entry counts on writing as it does when it is replayed. -/
theorem replay_nextEntry (ready : volume.Ready) (id : NeedleId) (size : Size)
    (room : size.isLive = true → volume.data.contents.length < File.maxVolumeLength) :
    volume.live.replay (volume.nextEntry id size) =
      if size.isLive then
        volume.live.insert id { offset := .ofPosition volume.data.contents.length, size }
      else volume.live.erase id := by
  unfold LiveMap.replay nextEntry
  cases live : size.isLive with
  | false => simp
  | true =>
      have reach := room live
      rw [File.maxVolumeLength_eq] at reach
      rw [StoredOffset.isZero_ofPosition ready.started reach]
      simp

theorem write_eq_enter (volume : Volume) (now : UInt64) (needle : Needle) :
    volume.write now needle =
      volume.enter (needle.stamped now volume.lastStamp) fun size => size := rfl

theorem bury_eq_enter (volume : Volume) (now : UInt64) (id : NeedleId) (cookie : Cookie) :
    volume.bury now id cookie =
      ((volume.enter (volume.marker now id cookie) fun _ => .tombstone).1.map fun _ => (),
        (volume.enter (volume.marker now id cookie) fun _ => .tombstone).2) := by
  have dead : Size.tombstone.isLive = false := by decide
  unfold bury enter marker
  dsimp only
  generalize volume.data.appendNeedle _ _ = appended
  obtain ⟨result, data⟩ := appended
  cases result with
  | error problem => rfl
  | ok record =>
      simp only [dead, Bool.false_eq_true, if_false, Needle.ofData, Needle.stamped]
      generalize commit _ _ _ _ _ = done
      obtain ⟨result, later⟩ := done
      cases result <;> rfl

/-- Deleting a needle that was found is burying it. -/
theorem delete_of_found {id : NeedleId} {cookie : Cookie} {size : Size}
    (found : volume.checkDelete id cookie = .ok (some size)) (now : UInt64) :
    volume.delete now id cookie =
      ((volume.bury now id cookie).1.map fun _ => size, (volume.bury now id cookie).2) := by
  rw [delete, found]
  dsimp only
  cases volume.bury now id cookie with
  | mk result later => cases result <;> rfl

theorem exists_eq_ok {α : Type} {result : Except Error α} (done : result.isOk = true) :
    ∃ value, result = .ok value := by
  cases result with
  | error problem => contradiction
  | ok value => exact ⟨value, rfl⟩

/-- How a volume that can take records may enter a needle: it is full and refuses data, the needle
cannot be encoded, or the record and its entry are appended. -/
inductive Entered (volume : Volume) (needle : Needle) (entrySize : Size → Size) :
    Except Error File.AppendedNeedle × Volume → Prop where
  | full (long : File.maxVolumeLength ≤ volume.data.contents.length) (data : needle.data ≠ []) :
      Entered volume needle entrySize
        (.error (.volumeFull volume.data.contents.length File.maxVolumeLength), volume)
  | unfit {problem : Error} (encoded : needle.encode volume.version = .error problem) :
      Entered volume needle entrySize (.error problem, volume)
  | done (fits : needle.trimmed.Fits)
      (short : (needle.trimmed.body volume.version).length ≤ Needle.maxBodyLength)
      (room : needle.data ≠ [] → volume.data.contents.length < File.maxVolumeLength) :
      Entered volume needle entrySize
        (.ok { place := { offset := volume.data.contents.length
                          size := (needle.sized volume.version).size
                          length := (needle.record volume.version).length }
               needle := needle.sized volume.version },
          volume.logged (needle.record volume.version)
            (volume.nextEntry needle.id (entrySize (needle.sized volume.version).size))
            needle.appendedAt)

theorem enter_of_appended {needle : Needle} {entrySize : Size → Size}
    {record : File.AppendedNeedle} (ready : volume.Ready)
    (appended : volume.data.appendNeedle needle volume.version =
      (.ok record, volume.data.extended bytes))
    (place : record.place.offset = volume.data.contents.length)
    (room : (entrySize record.place.size).isLive = true →
      volume.data.contents.length < File.maxVolumeLength) :
    volume.enter needle entrySize =
      (.ok record, volume.logged bytes (volume.nextEntry needle.id (entrySize record.place.size))
        record.needle.appendedAt) := by
  have map := replay_nextEntry ready needle.id (entrySize record.place.size) room
  rw [nextEntry, ← place] at map
  unfold enter
  rw [appended, nextEntry, ← place]
  dsimp only
  rw [commit_of_reliable ready.index map]

theorem entered_of_ready (ready : volume.Ready) (needle : Needle) (entrySize : Size → Size)
    (live : ∀ size, (entrySize size).isLive = true → size.isLive = true) :
    Entered volume needle entrySize (volume.enter needle entrySize) := by
  have appended := File.appendNeedle_of_reliable ready.data needle volume.version
  by_cases full : File.maxVolumeLength ≤ volume.data.contents.length ∧ !needle.data.isEmpty
  · rw [if_pos full] at appended
    unfold enter
    rw [appended]
    exact .full full.1 (by simpa using full.2)
  · rw [if_neg full] at appended
    cases encoded : needle.encode volume.version with
    | error problem =>
        rw [encoded] at appended
        unfold enter
        rw [appended]
        exact .unfit encoded
    | ok record =>
        rw [encoded] at appended
        obtain ⟨fits, short, rfl⟩ := Needle.encode_eq_ok_iff.mp encoded
        have room (data : needle.data ≠ []) :
            volume.data.contents.length < File.maxVolumeLength := by
          apply Nat.lt_of_not_le
          intro long
          exact full ⟨long, by simpa using data⟩
        rw [enter_of_appended ready appended rfl fun alive => by
          have alive := live _ alive
          rw [Needle.isLive_sized short] at alive
          exact room (by simpa using alive)]
        exact .done fits short room

theorem written_of_ready (ready : volume.Ready) (now : UInt64) (needle : Needle) :
    Entered volume (needle.stamped now volume.lastStamp) (fun size => size)
      (volume.write now needle) :=
  entered_of_ready ready _ _ fun _ live => live

/-- A volume that can take records always buries a needle. -/
theorem bury_of_ready (ready : volume.Ready) (now : UInt64) (id : NeedleId) (cookie : Cookie) :
    volume.bury now id cookie =
      (.ok (), volume.logged ((volume.marker now id cookie).record volume.version)
        (volume.nextEntry id .tombstone) (volume.marker now id cookie).appendedAt) := by
  have entered := entered_of_ready ready (volume.marker now id cookie) (fun _ => .tombstone)
    fun _ live => absurd live (by decide)
  rw [bury_eq_enter]
  generalize volume.enter _ _ = result at entered ⊢
  cases entered with
  | full long data => exact absurd rfl data
  | unfit encoded =>
      rw [marker, Needle.encode_marker] at encoded
      contradiction
  | done fits short room => rfl

/-- A request leaves a volume that can take records as it is, or appends a record and its entry under
the number that it is about. -/
theorem serve_logs (ready : volume.Ready) (request : Request) :
    (volume.serve request).2 = volume ∨
      ∃ bytes entry stamp, bytes.length % StoredOffset.unit = 0 ∧ entry.key = request.target ∧
        (volume.serve request).2 = volume.logged bytes entry stamp := by
  cases request with
  | write now needle =>
      rw [serve]
      have written := written_of_ready ready now needle
      generalize volume.write now needle = result at written
      cases written with
      | full long data => exact .inl rfl
      | unfit encoded => exact .inl rfl
      | done fits short room =>
          exact .inr ⟨_, _, _, Needle.length_record_mod_unit _ _, rfl, rfl⟩
  | read id cookie => exact .inl rfl
  | delete now id cookie =>
      rw [serve]
      unfold delete
      cases volume.checkDelete id cookie with
      | error problem => exact .inl rfl
      | ok found =>
          cases found with
          | none => exact .inl rfl
          | some size =>
              simp only [bury_of_ready ready]
              exact .inr ⟨_, _, _, Needle.length_record_mod_unit _ _, rfl, rfl⟩

theorem serve_cases (ready : volume.Ready) (request : Request) :
    (volume.serve request).2 = volume ∨
      ∃ bytes entry stamp, bytes.length % StoredOffset.unit = 0 ∧
        (volume.serve request).2 = volume.logged bytes entry stamp := by
  rcases serve_logs ready request with same | ⟨bytes, entry, stamp, whole, -, appended⟩
  · exact .inl same
  · exact .inr ⟨bytes, entry, stamp, whole, appended⟩

end Volume

end Haystack
