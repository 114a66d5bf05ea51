import Haystack.Proofs.File.Records
import Haystack.Proofs.Volume.Requests

/-!
# Requests that fail

A write or a deletion may fail at many points: the length of a file is not told, the needle cannot
be encoded, the volume is full, or only a part of the record or of its entry is stored. As long as
the data file can be cut, all that a failure leaves behind is a piece of an entry in the index, and
an open volume never looks at what its index holds.
-/

namespace Haystack

namespace File

theorem write_contents (file : File) (contents data : Bytes) (offset further : Nat) :
    ∃ result first second, file.write data offset = (result, { file with contents := first }) ∧
      { file with contents }.write data further = (result, { file with contents := second }) := by
  unfold write
  dsimp only
  cases file.faults.write with
  | none => exact ⟨_, _, _, rfl, rfl⟩
  | some fault => cases fault <;> exact ⟨_, _, _, rfl, rfl⟩

/-- Whether an entry can be appended does not depend on the entries before it. -/
theorem appendEntry_contents (index : File) (contents : Bytes) (entry : Entry) :
    ∃ result first second, index.appendEntry entry = (result, { index with contents := first }) ∧
      { index with contents }.appendEntry entry =
        (result, { index with contents := second }) := by
  unfold appendEntry stat
  dsimp only
  cases index.faults.stat with
  | true => exact ⟨_, index.contents, contents, rfl, rfl⟩
  | false =>
      obtain ⟨result, first, second, plain, other⟩ := index.write_contents contents entry.toBytes
        (index.faults.reportedLength.getD index.contents.length)
        (index.faults.reportedLength.getD contents.length)
      simp only [Bool.false_eq_true, if_false, plain, other]
      cases result with
      | error problem => exact ⟨_, first, second, rfl, rfl⟩
      | ok count => exact ⟨_, first, second, rfl, rfl⟩

end File

/-- A request that was not answered with what was asked for. -/
inductive Volume.Answer.Failed : Answer → Prop where
  | written (problem : Error) : Failed (.written (.error problem))
  | found (problem : Error) : Failed (.found (.error problem))
  | freed (problem : Error) : Failed (.freed (.error problem))

/-- What may happen to an open volume: a request, or its files begin or cease to do things wrong. -/
inductive Volume.Event where
  | request (request : Request)
  | change (data index : Faults)

namespace Volume

variable {volume : Volume}

/-- The volume with other contents of its index. -/
def withIndex (volume : Volume) (contents : Bytes) : Volume :=
  { volume with index := { volume.index with contents } }

def withFaults (volume : Volume) (data index : Faults) : Volume :=
  { volume with data := { volume.data with faults := data }
                index := { volume.index with faults := index } }

/-- What the volume answers to the requests among some events. -/
def answers (volume : Volume) : List Event → List Answer
  | [] => []
  | .request request :: events =>
    (volume.serve request).1 :: (volume.serve request).2.answers events
  | .change data index :: events => (volume.withFaults data index).answers events

theorem commit_withIndex (volume : Volume) (contents : Bytes) (entry : Entry) (position : Nat)
    (stamp : UInt64) (live : LiveMap) :
    ∃ after, (volume.withIndex contents).commit entry position stamp live =
      ((volume.commit entry position stamp live).1,
        (volume.commit entry position stamp live).2.withIndex after) := by
  obtain ⟨result, first, second, plain, other⟩ := volume.index.appendEntry_contents contents entry
  unfold commit withIndex
  simp only [plain, other]
  cases result with
  | error problem => exact ⟨second, rfl⟩
  | ok => exact ⟨second, rfl⟩

theorem enter_withIndex (volume : Volume) (contents : Bytes) (needle : Needle)
    (entrySize : Size → Size) :
    ∃ after, (volume.withIndex contents).enter needle entrySize =
      ((volume.enter needle entrySize).1, (volume.enter needle entrySize).2.withIndex after) := by
  unfold enter
  have data : (volume.withIndex contents).data = volume.data := rfl
  have version : (volume.withIndex contents).version = volume.version := rfl
  rw [data, version]
  generalize volume.data.appendNeedle _ _ = appended
  obtain ⟨result, data⟩ := appended
  cases result with
  | error problem => exact ⟨contents, rfl⟩
  | ok record =>
      obtain ⟨after, committed⟩ := commit_withIndex { volume with data } contents
        { key := needle.id, offset := .ofPosition record.place.offset
          size := entrySize record.place.size }
        record.place.offset record.needle.appendedAt
        (if (entrySize record.place.size).isLive then
          volume.live.insert needle.id
            { offset := .ofPosition record.place.offset, size := entrySize record.place.size }
        else volume.live.erase needle.id)
      refine ⟨after, ?_⟩
      dsimp only [withIndex] at committed ⊢
      rw [committed]
      generalize commit _ _ _ _ _ = done
      obtain ⟨result, later⟩ := done
      cases result <;> rfl

/-- What a volume answers, and what becomes of it but for its index, does not depend on what the
index holds. -/
theorem serve_withIndex (volume : Volume) (contents : Bytes) (request : Request) :
    ∃ after, (volume.withIndex contents).serve request =
      ((volume.serve request).1, (volume.serve request).2.withIndex after) := by
  cases request with
  | write now needle =>
      obtain ⟨after, entered⟩ := enter_withIndex volume contents
        (needle.stamped now volume.lastStamp) fun size => size
      have stamp : (volume.withIndex contents).lastStamp = volume.lastStamp := rfl
      refine ⟨after, ?_⟩
      rw [serve, serve, write_eq_enter, write_eq_enter, stamp, entered]
  | read id cookie => exact ⟨contents, rfl⟩
  | delete now id cookie =>
      have check : (volume.withIndex contents).checkDelete id cookie =
          volume.checkDelete id cookie := rfl
      have marker : (volume.withIndex contents).marker now id cookie =
          volume.marker now id cookie := rfl
      obtain ⟨after, entered⟩ := enter_withIndex volume contents (volume.marker now id cookie)
        fun _ => .tombstone
      rw [serve, serve]
      unfold delete
      rw [check, bury_eq_enter, bury_eq_enter, marker, entered]
      cases volume.checkDelete id cookie with
      | error problem => exact ⟨contents, rfl⟩
      | ok found =>
          cases found with
          | none => exact ⟨contents, rfl⟩
          | some size =>
              refine ⟨after, ?_⟩
              generalize volume.enter _ _ = done
              obtain ⟨result, later⟩ := done
              cases result <;> rfl

theorem answers_withIndex (volume : Volume) (contents : Bytes) (events : List Event) :
    (volume.withIndex contents).answers events = volume.answers events := by
  -- The two indexes go on to differ, so the induction is for all contents.
  induction events generalizing volume contents with
  | nil => rfl
  | cons event events ih =>
      cases event with
      | request request =>
          obtain ⟨after, served⟩ := serve_withIndex volume contents request
          rw [answers, answers, served, ih]
      | change data index => exact ih (volume.withFaults data index) contents

section

variable (cuts : volume.data.faults.truncate = false)
  (truthful : volume.data.faults.reportedLength = none)

include cuts

/-- If the entry of an appended record cannot be appended, the record is cut off again. -/
theorem commit_failed {bytes : Bytes} {entry : Entry} {stamp : UInt64} {live : LiveMap}
    {problem : Error} {later : Volume}
    (failed : ({ volume with data := volume.data.extended bytes } : Volume).commit entry
      volume.data.contents.length stamp live = (.error problem, later)) :
    ∃ contents, later = volume.withIndex contents := by
  obtain ⟨result, first, -, appended, -⟩ := volume.index.appendEntry_contents [] entry
  unfold commit at failed
  dsimp only at failed
  rw [appended] at failed
  cases result with
  | ok => simp at failed
  | error problem' =>
      simp only [Prod.mk.injEq] at failed
      obtain ⟨-, rfl⟩ := failed
      rw [File.cutBack_extended cuts]
      exact ⟨first, rfl⟩

include truthful

theorem enter_failed {needle : Needle} {entrySize : Size → Size} {problem : Error} {later : Volume}
    (failed : volume.enter needle entrySize = (.error problem, later)) :
    ∃ contents, later = volume.withIndex contents := by
  unfold enter at failed
  obtain ⟨problem', refused⟩ | ⟨record, bytes, appended, place⟩ :=
    File.appendNeedle_cases cuts truthful needle volume.version
  · rw [refused] at failed
    cases failed
    exact ⟨volume.index.contents, rfl⟩
  · rw [appended] at failed
    dsimp only at failed
    rw [place] at failed
    generalize committed : commit _ _ _ _ _ = done at failed
    obtain ⟨result, after⟩ := done
    cases result with
    | ok => simp at failed
    | error problem' =>
        cases failed
        exact commit_failed cuts committed

/-- A request that fails changes nothing but what the index holds. -/
theorem serve_failed {request : Request} (failed : (volume.serve request).1.Failed) :
    ∃ contents, (volume.serve request).2 = volume.withIndex contents := by
  cases request with
  | write now needle =>
      rw [serve, write_eq_enter] at failed ⊢
      generalize entered : volume.enter _ _ = result at failed ⊢
      obtain ⟨answer, later⟩ := result
      cases failed with
      | written problem => exact enter_failed cuts truthful entered
  | read id cookie => exact ⟨volume.index.contents, rfl⟩
  | delete now id cookie =>
      rw [serve] at failed ⊢
      unfold delete at failed ⊢
      cases checked : volume.checkDelete id cookie with
      | error problem => exact ⟨volume.index.contents, rfl⟩
      | ok found =>
          cases found with
          | none => exact ⟨volume.index.contents, rfl⟩
          | some size =>
              rw [checked] at failed
              dsimp only at failed ⊢
              rw [bury_eq_enter] at failed ⊢
              generalize entered : volume.enter _ _ = result at failed ⊢
              obtain ⟨answer, later⟩ := result
              cases answer with
              | error problem => exact enter_failed cuts truthful entered
              | ok record => cases failed

/-- A request that fails at whatever point leaves the data file, the map of live needles and the last
time stamp as they were, and from then on the volume answers as if there had been no such request. -/
theorem failed_request_undone {request : Request} (failed : (volume.serve request).1.Failed) :
    (volume.serve request).2.data = volume.data ∧ (volume.serve request).2.live = volume.live ∧
      (volume.serve request).2.lastStamp = volume.lastStamp ∧
      ∀ events, (volume.serve request).2.answers events = volume.answers events := by
  obtain ⟨contents, same⟩ := serve_failed cuts truthful failed
  rw [same]
  exact ⟨rfl, rfl, rfl, answers_withIndex volume contents⟩

end

theorem torn_entry_undone :
    let volume : Volume :=
      { id := 3, superBlock := {}, data := { contents := [3, 0, 0, 0, 0, 0, 0, 0] }
        index := { faults := { write := some (.tear (· / 2)) } } }
    let later := (volume.serve (.write 20 { id := 1, cookie := 7, data := [104] })).2
    (volume.serve (.write 20 { id := 1, cookie := 7, data := [104] })).1.Failed ∧
      later.index.contents = [0, 0, 0, 0, 0, 0, 0, 1] ∧
      later.data = volume.data ∧ later.live = volume.live ∧ later.lastStamp = volume.lastStamp ∧
      ∀ events, later.answers events = volume.answers events := by
  intro volume later
  have refused : (volume.write 20 { id := 1, cookie := 7, data := [104] }).1.isOk = false := by
    decide +kernel
  have failed : (volume.serve (.write 20 { id := 1, cookie := 7, data := [104] })).1.Failed := by
    rw [serve]
    cases answer : (volume.write 20 { id := 1, cookie := 7, data := [104] }).1 with
    | error problem => exact .written problem
    | ok record =>
        rw [answer] at refused
        contradiction
  have torn : later.index.contents = [0, 0, 0, 0, 0, 0, 0, 1] := by decide +kernel
  exact ⟨failed, torn, @failed_request_undone volume rfl rfl _ failed⟩

end Volume

end Haystack
