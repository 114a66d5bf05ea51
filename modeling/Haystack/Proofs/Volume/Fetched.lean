import Haystack.Proofs.FileId.ReadBack
import Haystack.Proofs.Volume.InUse
import Haystack.Proofs.Volume.Kept
import Haystack.Proofs.Volume.Leftovers
import Haystack.Source

/-!
# Fetching what was written

A needle that was written is kept by its volume until a needle is written under its number or it is
deleted, whatever fails meanwhile. As long as it is kept, the string form of its file id leads to
its data, unless the number is zero: that has no string form that can be read.
-/

namespace Haystack

namespace Volume

variable {volume later next again start : Volume} {id : NeedleId} {needle : Needle}
  {slot : Option Needle} {request : Request} {answer : Answer} {stored : SuperBlock}

/-- Whether a request, with its answer, leaves a needle alone that is kept under a number and has a
cookie. Requests that fail do, and so do deletions by those who do not know the cookie. -/
def Request.Spares (id : NeedleId) (cookie : Cookie) (answer : Answer) : Request → Prop
  | .write _ needle => needle.id = id → answer.Failed
  | .read _ _ => True
  | .delete _ other known => other = id → known = cookie → answer.Failed

/-- What may become of a volume while a needle is neither overwritten nor deleted. It is opened again
only over an index that gives the map of live needles. -/
inductive Undisturbed (id : NeedleId) (cookie : Cookie) (start : Volume) : Volume → Prop where
  | same : Undisturbed id cookie start start
  | served {volume : Volume} (before : Undisturbed id cookie start volume) (request : Request)
      (spares : request.Spares id cookie (volume.serve request).1) :
      Undisturbed id cookie start (volume.serve request).2
  | changed {volume : Volume} {data index : Faults} (before : Undisturbed id cookie start volume)
      (noticed : data.Noticed) (noticed' : index.Noticed) :
      Undisturbed id cookie start (volume.withFaults data index)
  | reloaded {volume again : Volume} {after : File} {block : SuperBlock}
      (before : Undisturbed id cookie start volume) (indexed : volume.Indexed)
      (loaded : load volume.id volume.data volume.index block = (.ok again, after)) :
      Undisturbed id cookie start again

theorem Kept.of_same (keeps : volume.Kept id slot) (known : later.find? id = volume.find? id)
    (version : later.version = volume.version)
    (contents : later.data.contents = volume.data.contents) : later.Kept id slot := by
  cases keeps with
  | nothing unknown => exact .nothing (known.trans unknown)
  | needle found own placed =>
      refine .needle (known.trans found) own ?_
      rwa [version, contents]

/-- A request that is about another number, reads, or deletes with another cookie does nothing to
the needle that is kept. -/
theorem Kept.left (keeps : volume.Kept id (some needle)) (left : Left volume request answer later)
    (spares : request.Spares id needle.cookie answer) : later.Kept id (some needle) := by
  cases left with
  | failed piece failed => exact keeps.of_same rfl rfl rfl
  | same served => exact keeps
  | logged whole key succeeded served =>
      by_cases own : request.target = id
      · have unchanged : (volume.mended.serve request).2 = volume.mended := by
          cases request with
          | write now other => exact absurd (spares own) succeeded
          | read other cookie => rfl
          | delete now other known =>
              have unknown : needle.cookie ≠ known := fun same =>
                succeeded (spares own same.symm)
              have missing : volume.mended.read other known =
                  .error (.notFound (.inVolume id volume.id)) := by
                rw [read_mended, show other = id from own]
                exact keeps.read_unknown (by rintro _ ⟨⟩; exact unknown)
              rw [serve, delete, checkDelete, missing]
              rfl
        rw [served] at unchanged
        have known := congrArg (fun volume => volume.find? id) unchanged
        have contents := congrArg (fun volume => volume.data.contents) unchanged
        exact keeps.of_same known rfl contents
      · exact keeps.logged_of_ne fun same => own (key.symm.trans same.symm)

/-- A needle with data that a volume in use has written is kept. -/
theorem kept_of_written (sturdy : volume.Sturdy) (filled : needle.data ≠ []) {now : UInt64}
    {record : File.AppendedNeedle} (written : volume.write now needle = (.ok record, next)) :
    next.Kept needle.id
      (some ((needle.stamped now volume.lastStamp).stored volume.version)) := by
  have withstood := serve_of_noticed sturdy.data sturdy.index (.write now needle)
  rw [serve, written] at withstood
  generalize served : (Answer.written (.ok record), next) = result at withstood
  cases withstood with
  | failed failed piece =>
      obtain ⟨rfl, -⟩ := Prod.mk.inj served
      cases failed
  | @done answer again succeeded same =>
      obtain ⟨rfl, rfl⟩ := Prod.mk.inj served
      have outcome := written_of_ready sturdy.ready now needle
      rw [serve] at same
      generalize volume.mended.write now needle = result at outcome same
      cases outcome with
      | full long data => simp at same
      | unfit encoded => simp at same
      | done fits short room =>
          obtain ⟨-, rfl⟩ := Prod.mk.inj same
          have kept := kept_logged_record sturdy.ready fits short room
            (needle.stamped now volume.mended.lastStamp).appendedAt
          have full : (needle.stamped now volume.mended.lastStamp).data.isEmpty = false := by
            simpa [Needle.stamped] using filled
          rw [full] at kept
          exact kept.of_same rfl rfl rfl

/-- Whatever becomes of a volume that leaves a needle alone, the needle stays kept. -/
theorem Undisturbed.kept (undisturbed : Undisturbed id needle.cookie start later)
    (entitled : start.Entitled stored) (keeps : start.Kept id (some needle)) :
    later.Entitled stored ∧ later.Kept id (some needle) := by
  induction undisturbed with
  | same => exact ⟨entitled, keeps⟩
  | served _ request spares ih =>
      have left := ih.1.sturdy.serve request
      exact ⟨ih.1.left left, ih.2.left left spares⟩
  | changed _ noticed noticed' ih =>
      exact ⟨⟨ih.1.sturdy.withFaults noticed noticed', ih.1.read, ih.1.version⟩,
        ih.2.of_same rfl rfl rfl⟩
  | reloaded _ indexed loaded ih =>
      obtain ⟨again, entitled'⟩ := ih.1.reloaded loaded
      refine ⟨entitled', ?_⟩
      rw [again]
      refine ih.2.of_same ?_ ih.1.version.symm rfl
      rw [find?, find?, opened, ← indexed.live]

theorem entitled_of_load {volume : VolumeId} {data index after : File} {block : SuperBlock}
    (noticed : data.faults.Noticed) (noticed' : index.faults.Noticed)
    (aligned : data.contents.length % StoredOffset.unit = 0)
    (loaded : load volume data index block = (.ok start, after)) :
    ∃ stored, start.Entitled stored := by
  obtain ⟨same, faults, faults'⟩ := load_of_noticed noticed loaded
  obtain ⟨ready, ⟨-, stored, read, version⟩, -, -⟩ :=
    ready_of_load data.reliable_mended index.reliable_mended aligned same
  refine ⟨stored, ⟨by rwa [faults], by rwa [faults'], ready⟩, read, version.symm⟩

end Volume

namespace ChunkSource

variable {volumes : Table VolumeId Volume} {volume : Volume} {id : NeedleId} {needle : Needle}

theorem ofVolumes_display (registered : volumes.find? volume.id = some volume) (nonzero : id ≠ 0)
    (cookie : Cookie) :
    ofVolumes volumes (FileId.display { volume := volume.id, key := id, cookie }) =
      match volume.read id cookie with
      | .error problem =>
        .error (.unreadable (FileId.display { volume := volume.id, key := id, cookie }) problem)
      | .ok needle => .ok needle.data := by
  unfold ofVolumes
  rw [FileId.parse_display_of_nonzero _ nonzero]
  cases read : volume.read id cookie with
  | error problem => simp only [registered, read]
  | ok needle => simp only [registered, read]

theorem ofVolumes_display_zero (volumes : Table VolumeId Volume) (volume : VolumeId)
    (cookie : Cookie) :
    ofVolumes volumes (FileId.display { volume, key := 0, cookie }) =
      .error (.malformedId (.invalidFileId (.keyTooShort
        (FileId.keyCookie { volume, key := 0, cookie })))) := by
  unfold ofVolumes
  rw [FileId.parse_display_of_zero _ rfl]

/-- What a volume keeps is fetched with its cookie and with no other. -/
theorem ofVolumes_of_kept (registered : volumes.find? volume.id = some volume) (nonzero : id ≠ 0)
    (kept : volume.Kept id (some needle)) :
    ofVolumes volumes (FileId.display { volume := volume.id, key := id, cookie := needle.cookie }) =
        .ok needle.data ∧
      ∀ cookie ≠ needle.cookie, ∃ problem,
        ofVolumes volumes (FileId.display { volume := volume.id, key := id, cookie }) =
          .error problem := by
  constructor
  · rw [ofVolumes_display registered nonzero, kept.read_known]
  · intro cookie other
    have missing : volume.read id cookie = .error (.notFound (.inVolume id volume.id)) :=
      kept.read_unknown (by rintro _ ⟨⟩; exact other.symm)
    rw [ofVolumes_display registered nonzero, missing]
    exact ⟨_, rfl⟩

/-- A needle with data that a volume wrote is fetched by the string form of its file id until it is
overwritten or deleted, and with no other cookie; under the number zero nothing is fetched, since
what follows the comma is too short. -/
theorem written_needle_is_fetched {start before next later : Volume} {opens : VolumeId}
    {data index after : File} {block : SuperBlock} {now : UInt64} {record : File.AppendedNeedle}
    (noticed : data.faults.Noticed) (noticed' : index.faults.Noticed)
    (aligned : data.contents.length % StoredOffset.unit = 0)
    (loaded : Volume.load opens data index block = (.ok start, after))
    (used : start.Later before) (filled : needle.data ≠ [])
    (written : before.write now needle = (.ok record, next))
    (undisturbed : Volume.Undisturbed needle.id needle.cookie next later)
    (registered : volumes.find? later.id = some later) :
    let form (cookie : Cookie) := FileId.display { volume := later.id, key := needle.id, cookie }
    ofVolumes volumes (form needle.cookie) =
        (if needle.id = 0 then
          .error (.malformedId (.invalidFileId (.keyTooShort
            (FileId.keyCookie { volume := later.id, key := 0, cookie := needle.cookie }))))
        else .ok needle.data) ∧
      ∀ cookie ≠ needle.cookie, ∃ problem, ofVolumes volumes (form cookie) = .error problem := by
  intro form
  obtain ⟨stored, entitled⟩ := Volume.entitled_of_load noticed noticed' aligned loaded
  have sturdy := (used.entitled entitled).sturdy
  by_cases zero : needle.id = 0
  · have short (cookie : Cookie) := ofVolumes_display_zero volumes later.id cookie
    simp only [form, zero, if_true]
    exact ⟨short needle.cookie, fun cookie _ => ⟨_, short cookie⟩⟩
  · have titled : next.Entitled stored := by
      have left := sturdy.serve (.write now needle)
      rw [Volume.serve, written] at left
      exact (used.entitled entitled).left left
    obtain ⟨held, cookie, bytes, keeps⟩ : ∃ held : Needle, held.cookie = needle.cookie ∧
        held.data = needle.data ∧ next.Kept needle.id (some held) :=
      ⟨(needle.stamped now before.lastStamp).stored before.version, rfl, rfl,
        Volume.kept_of_written sturdy filled written⟩
    rw [← cookie] at undisturbed
    rw [if_neg zero, ← cookie, ← bytes]
    exact ofVolumes_of_kept registered zero (undisturbed.kept titled keeps).2

/-- A needle is written, someone tries to delete it with another cookie, and it is fetched. -/
theorem needle_with_key_is_fetched :
    let needle : Needle := { id := 4660, cookie := 7, data := [104, 105] }
    let start := Volume.opened 3 {} { contents := [3, 0, 0, 0, 0, 0, 0, 0] } {}
    let later := ((start.write 20 needle).2.serve (.delete 30 4660 8)).2
    Volume.load 3 {} {} {} = (.ok start, start.data) ∧ (start.write 20 needle).1.isOk = true ∧
      ofVolumes [(3, later)] "3,123400000007" = .ok [104, 105] ∧
      ∃ problem, ofVolumes [(3, later)] "3,123400000008" = .error problem := by
  intro needle start later
  have reliable : File.Reliable {} := rfl
  have title : SuperBlock.toBytes {} = .ok [3, 0, 0, 0, 0, 0, 0, 0] := rfl
  have loaded : Volume.load 3 {} {} {} = (.ok start, start.data) :=
    Volume.load_of_empty reliable rfl title 3 {}
  have done : (start.write 20 needle).1.isOk = true := by decide +kernel
  obtain ⟨record, written⟩ := Volume.eq_ok_of_isOk done
  have undisturbed : Volume.Undisturbed needle.id needle.cookie (start.write 20 needle).2 later :=
    .served .same _ fun _ known => absurd known (by decide)
  have place : later.id = 3 := by decide +kernel
  have registered : Table.find? [(3, later)] later.id = some later := by
    rw [place]
    rfl
  have fetched := written_needle_is_fetched Faults.noticed_none Faults.noticed_none rfl loaded .same
    (by decide) written undisturbed registered
  have form : FileId.display { volume := later.id, key := needle.id, cookie := needle.cookie } =
      "3,123400000007" := by
    rw [place]
    decide +kernel
  have other : FileId.display { volume := later.id, key := needle.id, cookie := 8 } =
      "3,123400000008" := by
    rw [place]
    decide +kernel
  refine ⟨loaded, done, ?_, ?_⟩
  · rw [← form, fetched.1]
    rfl
  · rw [← other]
    exact fetched.2 8 (by decide)

/-- A needle under the number zero is written and cannot be fetched. -/
theorem needle_without_key_is_not_fetched :
    let needle : Needle := { id := 0, cookie := 7, data := [104, 105] }
    let start := Volume.opened 3 {} { contents := [3, 0, 0, 0, 0, 0, 0, 0] } {}
    let later := (start.write 20 needle).2
    Volume.load 3 {} {} {} = (.ok start, start.data) ∧ (start.write 20 needle).1.isOk = true ∧
      later.id = 3 ∧ FileId.display { volume := later.id, key := 0, cookie := 7 } = "3,00000007" ∧
      ofVolumes [(3, later)] "3,00000007" ≠ .ok needle.data := by
  intro needle start later
  have reliable : File.Reliable {} := rfl
  have title : SuperBlock.toBytes {} = .ok [3, 0, 0, 0, 0, 0, 0, 0] := rfl
  have place : later.id = 3 := by decide +kernel
  have form : FileId.display { volume := later.id, key := 0, cookie := 7 } = "3,00000007" := by
    rw [place]
    decide +kernel
  refine ⟨Volume.load_of_empty reliable rfl title 3 {}, by decide +kernel, place, form, ?_⟩
  rw [← form, ofVolumes_display_zero]
  nofun

end ChunkSource

end Haystack
