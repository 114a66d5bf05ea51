import Haystack.Proofs.Volume.Requests

/-!
# What a volume keeps

A volume keeps a needle if the map of live needles leads to a record of it. Since files only grow
and the map changes at one number at a time, a needle stays kept until the next entry of its
number. A kept needle is read by those who know its cookie, and by no one else.
-/

namespace Haystack

/-- The record of a stored needle stands in a data file where a location says. -/
inductive Placed (version : Version) (contents : Bytes) (location : Location) : Needle → Prop where
  | record (needle : Needle) (front back : Bytes) (fits : needle.trimmed.Fits)
      (short : (needle.trimmed.body version).length ≤ Needle.maxBodyLength)
      (stands : contents = front ++ needle.record version ++ back)
      (offset : location.offset.position = front.length)
      (size : location.size = (needle.stored version).size) :
      Placed version contents location (needle.stored version)

namespace Placed

variable {version : Version} {contents : Bytes} {location : Location} {needle : Needle}

theorem append (placed : Placed version contents location needle) (more : Bytes) :
    Placed version (contents ++ more) location needle := by
  cases placed with
  | record source front back fits short stands offset size =>
      refine .record source front (back ++ more) fits short ?_ offset size
      rw [stands, List.append_assoc]

theorem isDeleted (placed : Placed version contents location needle) :
    location.size.isDeleted = false := by
  cases placed with
  | record source front back fits short stands offset size =>
      rw [size]
      apply Size.isDeleted_ofLength
      unfold Needle.maxBodyLength at short
      omega

theorem readNeedle {file : File} (placed : Placed version file.contents location needle) :
    file.readNeedle location.offset.position location.size version = .ok needle := by
  cases placed with
  | record source front back fits short stands offset size =>
      rw [offset, size]
      exact Needle.readNeedle_record fits short stands

end Placed

namespace Volume

/-- What a volume keeps under a number: nothing, or a needle to which the map leads. -/
inductive Kept (volume : Volume) (id : NeedleId) : Option Needle → Prop where
  | nothing (unknown : volume.find? id = none) : Kept volume id none
  | needle {needle : Needle} {location : Location} (known : volume.find? id = some location)
      (own : needle.id = id) (placed : Placed volume.version volume.data.contents location needle) :
      Kept volume id (some needle)

variable {volume : Volume} {id : NeedleId} {needle : Needle} {kept : Option Needle}
  {bytes : Bytes} {entry : Entry} {stamp : UInt64}

theorem Kept.own (keeps : volume.Kept id (some needle)) : needle.id = id := by
  cases keeps with
  | needle known own placed => exact own

theorem Kept.isSome_find? (keeps : volume.Kept id kept) :
    (volume.find? id).isSome = kept.isSome := by
  cases keeps with
  | nothing unknown =>
      rw [unknown]
      rfl
  | needle known own placed =>
      rw [known]
      rfl

theorem Kept.read_known (keeps : volume.Kept id (some needle)) :
    volume.read id needle.cookie = .ok needle := by
  cases keeps with
  | needle known own placed =>
      unfold read
      simp [known, placed.isDeleted, placed.readNeedle]

theorem Kept.read_unknown (keeps : volume.Kept id kept) {cookie : Cookie}
    (other : ∀ needle, kept = some needle → needle.cookie ≠ cookie) :
    volume.read id cookie = .error (.notFound (.inVolume id volume.id)) := by
  unfold read
  cases keeps with
  | nothing unknown => rw [unknown]
  | needle known own placed =>
      simp [known, placed.isDeleted, placed.readNeedle, other _ rfl]

theorem Kept.read_cases (keeps : volume.Kept id kept) (cookie : Cookie) :
    (∃ needle, kept = some needle ∧ needle.id = id ∧ needle.cookie = cookie ∧
        volume.read id cookie = .ok needle) ∨
      (∀ needle, kept = some needle → needle.cookie ≠ cookie) ∧
        volume.read id cookie = .error (.notFound (.inVolume id volume.id)) := by
  by_cases known : ∃ needle, kept = some needle ∧ needle.cookie = cookie
  · obtain ⟨needle, rfl, rfl⟩ := known
    exact .inl ⟨needle, rfl, keeps.own, rfl, keeps.read_known⟩
  · have other (needle : Needle) (stands : kept = some needle) : needle.cookie ≠ cookie :=
      fun same => known ⟨needle, stands, same⟩
    exact .inr ⟨other, keeps.read_unknown other⟩

theorem Kept.logged_of_ne (keeps : volume.Kept id kept) (other : id ≠ entry.key) :
    (volume.logged bytes entry stamp).Kept id kept := by
  have same : (volume.logged bytes entry stamp).find? id = volume.find? id :=
    LiveMap.find?_replay_of_ne volume.live entry other
  cases keeps with
  | nothing unknown => exact .nothing (same.trans unknown)
  | needle known own placed => exact .needle (same.trans known) own (placed.append bytes)

theorem kept_logged_dead (dead : entry.size.isLive = false) :
    (volume.logged bytes entry stamp).Kept entry.key none :=
  .nothing (LiveMap.find?_replay_dead volume.live dead)

/-- What a record at the end of the data file is kept as under the number of its needle. -/
theorem kept_logged_record (ready : volume.Ready) (fits : needle.trimmed.Fits)
    (short : (needle.trimmed.body volume.version).length ≤ Needle.maxBodyLength)
    (room : needle.data ≠ [] → volume.data.contents.length < File.maxVolumeLength)
    (stamp : UInt64) :
    (volume.logged (needle.record volume.version)
      (volume.nextEntry needle.id (needle.sized volume.version).size) stamp).Kept needle.id
        (if needle.data.isEmpty then none else some (needle.stored volume.version)) := by
  have live := Needle.isLive_sized short
  cases empty : needle.data.isEmpty with
  | true =>
      rw [empty] at live
      exact kept_logged_dead live
  | false =>
      rw [empty] at live
      have reach := room (by simpa using empty)
      rw [File.maxVolumeLength_eq] at reach
      have placed := StoredOffset.isZero_ofPosition ready.started reach
      have known := @LiveMap.find?_replay_live volume.live
        (volume.nextEntry needle.id (needle.sized volume.version).size) placed live
      refine .needle known rfl
        (.record needle volume.data.contents [] fits short ?_ ?_ rfl)
      · exact (List.append_nil _).symm
      · exact StoredOffset.position_ofPosition ready.aligned reach

end Volume

end Haystack
