import Haystack.Proofs.Volume.Mended

/-!
# Volumes in use

An open volume serves requests, its files begin and cease to fail, and now and then it is opened
again. As long as failures show, its data file only grows, by whole records, and so the super block
at the start stays what it was and a volume that could take records still can.
-/

namespace Haystack

theorem Faults.noticed_none : ({} : Faults).Noticed :=
  ⟨rfl, rfl, nofun⟩

namespace Volume

/-- What may become of an open volume. -/
inductive Later (start : Volume) : Volume → Prop where
  | same : Later start start
  | served {volume : Volume} (later : Later start volume) (request : Request) :
      Later start (volume.serve request).2
  | changed {volume : Volume} {data index : Faults} (later : Later start volume)
      (noticed : data.Noticed) (noticed' : index.Noticed) :
      Later start (volume.withFaults data index)
  | reloaded {volume again : Volume} {after : File} {block : SuperBlock}
      (later : Later start volume)
      (loaded : load volume.id volume.data volume.index block = (.ok again, after)) :
      Later start again

/-- Whatever goes wrong with the files shows, and when nothing does the volume can take records. -/
structure Sturdy (volume : Volume) : Prop where
  data : volume.data.faults.Noticed
  index : volume.index.faults.Noticed
  ready : volume.mended.Ready

variable {start volume later again : Volume} {request : Request} {answer : Answer}
  {block stored : SuperBlock} {after : File}

theorem Ready.sturdy (ready : volume.Ready) : volume.Sturdy := by
  constructor
  · rw [ready.data]
    exact Faults.noticed_none
  · rw [ready.index]
    exact Faults.noticed_none
  · rwa [mended_of_ready ready]

/-- How a request may leave a volume: a failing one leaves at most a piece of an entry in the index,
and any other leaves nothing or a record with its entry, as if no file ever failed. -/
inductive Left (volume : Volume) (request : Request) : Answer → Volume → Prop where
  | failed {answer : Answer} (piece : Bytes) (failed : answer.Failed) :
      Left volume request answer (volume.withIndex (volume.index.contents ++ piece))
  | same {answer : Answer} (served : volume.mended.serve request = (answer, volume.mended)) :
      Left volume request answer volume
  | logged {answer : Answer} {bytes : Bytes} {entry : Entry} {stamp : UInt64}
      (whole : bytes.length % StoredOffset.unit = 0) (key : entry.key = request.target)
      (succeeded : ¬ answer.Failed)
      (served : volume.mended.serve request = (answer, volume.mended.logged bytes entry stamp)) :
      Left volume request answer (volume.logged bytes entry stamp)

namespace Sturdy

theorem serve (sturdy : volume.Sturdy) (request : Request) :
    Left volume request (volume.serve request).1 (volume.serve request).2 := by
  have withstood := serve_of_noticed sturdy.data sturdy.index request
  generalize volume.serve request = result at withstood
  cases withstood with
  | failed failed piece => exact .failed _ failed
  | @done answer again succeeded served =>
      have outcome := serve_logs sturdy.ready request
      rw [served] at outcome
      rcases outcome with rfl | ⟨bytes, entry, stamp, whole, key, rfl⟩
      · exact .same served
      · exact .logged whole key succeeded served

theorem left (sturdy : volume.Sturdy) (left : Left volume request answer later) :
    later.Sturdy := by
  cases left with
  | failed piece failed =>
      exact ⟨sturdy.data, sturdy.index, sturdy.ready.data, rfl, sturdy.ready.aligned,
        sturdy.ready.started⟩
  | same served => exact sturdy
  | logged whole key succeeded served =>
      exact ⟨sturdy.data, sturdy.index, sturdy.ready.logged whole _ _⟩

theorem withFaults (sturdy : volume.Sturdy) {data index : Faults} (noticed : data.Noticed)
    (noticed' : index.Noticed) : (volume.withFaults data index).Sturdy :=
  ⟨noticed, noticed', sturdy.ready⟩

/-- A volume in use is opened again with the super block that stands in its data file, and with the
map that its index gives. -/
theorem reloaded (sturdy : volume.Sturdy)
    (loaded : load volume.id volume.data volume.index block = (.ok again, after)) :
    ∃ stored, readSuperBlock volume.data = .ok stored ∧
      again = opened volume.id stored volume.data volume.index := by
  have nonempty : volume.data.contents ≠ [] := sturdy.ready.nonempty
  obtain ⟨byte, rest, contents⟩ := List.exists_cons_of_ne_nil nonempty
  unfold load loadSuperBlock at loaded
  rcases File.stat_of_truthful sturdy.data.truthful with lost | told
  · rw [lost] at loaded
    cases loaded
  · rw [told, contents] at loaded
    cases read : readSuperBlock volume.data with
    | error problem =>
        rw [read] at loaded
        cases loaded
    | ok stored =>
        rw [read, Walk.visited_replayed] at loaded
        cases loaded
        exact ⟨stored, rfl, rfl⟩

end Sturdy

/-- A sturdy volume with the super block that stands in its data file. -/
structure Entitled (volume : Volume) (stored : SuperBlock) : Prop where
  sturdy : volume.Sturdy
  read : readSuperBlock volume.data = .ok stored
  version : volume.version = stored.version

theorem Entitled.left (entitled : volume.Entitled stored)
    (left : Left volume request answer later) : later.Entitled stored := by
  refine ⟨entitled.sturdy.left left, ?_, ?_⟩
  · cases left with
    | failed piece failed => exact entitled.read
    | same served => exact entitled.read
    | logged whole key succeeded served => exact readSuperBlock_extended entitled.read _
  · cases left with
    | failed piece failed => exact entitled.version
    | same served => exact entitled.version
    | logged whole key succeeded served => exact entitled.version

theorem Entitled.reloaded (entitled : volume.Entitled stored)
    (loaded : load volume.id volume.data volume.index block = (.ok again, after)) :
    again = opened volume.id stored volume.data volume.index ∧ again.Entitled stored := by
  obtain ⟨stored', read, rfl⟩ := entitled.sturdy.reloaded loaded
  obtain rfl := Except.ok.inj (entitled.read.symm.trans read)
  have ready := entitled.sturdy.ready
  exact ⟨rfl, ⟨entitled.sturdy.data, entitled.sturdy.index, ready.data, ready.index, ready.aligned,
    ready.started⟩, read, rfl⟩

theorem Later.entitled (later : Later start volume) (entitled : start.Entitled stored) :
    volume.Entitled stored := by
  induction later with
  | same => exact entitled
  | served _ request ih => exact ih.left (ih.sturdy.serve request)
  | changed _ noticed noticed' ih => exact ⟨ih.sturdy.withFaults noticed noticed', ih.read, ih.version⟩
  | reloaded _ loaded ih => exact (ih.reloaded loaded).2

end Volume

end Haystack
