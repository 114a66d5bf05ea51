import Haystack.Cache.Stages
import Haystack.Proofs.Cache.Holds

/-!
# What stages do to a cache

Nothing happens between the stages of a look-up or of a storing that is left alone, and then they
are the look-up or the storing as a whole. If others come in between, no stage takes away what has
been stored of a chunk, as long as all that is stored of the chunk is the same.
-/

namespace Haystack

/-- Stages that follow one another, with nothing between them. -/
inductive Undisturbed {σ α : Type} (step : TieredCache → σ → Advance σ α × TieredCache) :
    TieredCache → σ → α → TieredCache → Prop where
  | last {cache later : TieredCache} {stage : σ} {result : α}
      (here : step cache stage = (.done result, later)) :
      Undisturbed step cache stage result later
  | next {cache between later : TieredCache} {stage stage' : σ} {result : α}
      (here : step cache stage = (.more stage', between))
      (rest : Undisturbed step between stage' result later) :
      Undisturbed step cache stage result later

namespace DiskTier

variable {tier : DiskTier} {file : String} {data : Bytes}

theorem has_eq_true_iff : tier.has file = true ↔ ∃ length, tier.index.find? file = some length :=
  Option.isSome_iff_exists

@[simp] theorem directory_touch (tier : DiskTier) (file : String) :
    (tier.touch file).directory = tier.directory := by
  unfold touch
  split <;> rfl

theorem has_remove (tier : DiskTier) (file : String) : (tier.remove file).has file = false := by
  unfold remove
  split
  · simp [has, Table.has]
  · rename_i missing
    exact eq_false_of_ne_true missing

theorem remove_touch (tier : DiskTier) (file : String) :
    (tier.touch file).remove file = tier.remove file := by
  unfold touch
  split
  · rename_i length known
    have present : tier.has file = true := has_eq_true_iff.mpr ⟨length, known⟩
    have erased : (tier.index.insert file length).erase file = tier.index.erase file := by
      simp [Table.insert, Table.erase]
    unfold remove
    rw [if_pos present, if_pos (by simp [has, Table.has]), erased]
  · rfl

theorem load_of_read? (present : tier.has file = true) (read : tier.read? file = some data) :
    tier.load file = (some data, tier.touch file) := by
  obtain ⟨length, known⟩ := has_eq_true_iff.mp present
  unfold DiskTier.read? at read
  simp only [load, touch, known, read]

theorem load_of_unreadable (present : tier.has file = true) (read : tier.read? file = none) :
    tier.load file = (none, tier.remove file) := by
  obtain ⟨length, known⟩ := has_eq_true_iff.mp present
  unfold DiskTier.read? at read
  simp only [load, known, read]

theorem load_of_not_has (absent : tier.has file = false) : tier.load file = (none, tier) := by
  have unknown : tier.index.find? file = none := by simpa [has, Table.has] using absent
  simp only [load, unknown]

end DiskTier

namespace TieredCache

variable {cache : TieredCache} {file : String} {data : Bytes}

theorem onDisk_append {front back : List DiskTier} {tier : DiskTier}
    (tiers : cache.disks = front ++ tier :: back) (change : DiskTier → DiskTier) :
    cache.onDisk front.length change = { cache with disks := front ++ change tier :: back } := by
  unfold onDisk
  rw [tiers, List.modify_eq_take_cons_drop (by simp)]
  simp

theorem loadFirst_of_some {tier later : DiskTier} (found : tier.load file = (some data, later))
    (back : List DiskTier) : loadFirst file (tier :: back) = (some data, later :: back) := by
  simp only [loadFirst, found]

theorem loadFirst_of_none {tier later : DiskTier} (missed : tier.load file = (none, later))
    (back : List DiskTier) :
    loadFirst file (tier :: back) =
      ((loadFirst file back).1, later :: (loadFirst file back).2) := by
  simp only [loadFirst, missed]

/-- The cache after the disk tiers from a place on have been asked. -/
def askedFrom (cache : TieredCache) (file : String) (front back : List DiskTier) : TieredCache :=
  let (result, disks) := loadFirst file back
  { cache with
    disks := front ++ disks
    memory := result.elim cache.memory (cache.memory.offer file)
    counters := cache.counters.countLookup result.isSome }

theorem look_index_undisturbed {front back : List DiskTier} (tiers : cache.disks = front ++ back) :
    Undisturbed (·.look file) cache (.index front.length) (loadFirst file back).1
      (cache.askedFrom file front back) := by
  induction back generalizing cache front with
  | nil =>
      apply Undisturbed.last
      simp [look, tiers, askedFrom, loadFirst, countLookup]
  | cons tier back asked =>
      have here : cache.disks[front.length]? = some tier := by rw [tiers]; simp
      have further {later : DiskTier} (missed : tier.load file = (none, later)) :
          Undisturbed (·.look file) { cache with disks := front ++ later :: back }
            (.index (front.length + 1)) (loadFirst file (tier :: back)).1
            (cache.askedFrom file front (tier :: back)) := by
        have rest := @asked { cache with disks := front ++ later :: back } (front ++ [later])
          (by simp)
        unfold askedFrom at rest ⊢
        rw [loadFirst_of_none missed]
        simpa using rest
      cases present : tier.has file with
      | false =>
          have step : cache.look file (.index front.length) =
              (.more (.index (front.length + 1)), cache) := by
            simp [look, here, present]
          refine .next step ?_
          have rest := further (DiskTier.load_of_not_has present)
          rwa [← tiers] at rest
      | true =>
          have step : cache.look file (.index front.length) =
              (.more (.file front.length), cache.onDisk front.length (·.touch file)) := by
            simp [look, here, present]
          refine .next step ?_
          have touched := onDisk_append tiers (·.touch file)
          have read : (cache.onDisk front.length (·.touch file)).disks[front.length]?.bind
              (·.read? file) = tier.read? file := by
            simp [touched, DiskTier.read?]
          cases contents : tier.read? file with
          | some data =>
              have loaded := DiskTier.load_of_read? present contents
              rw [contents] at read
              refine .next (by simp only [look, read]; rfl) (.last ?_)
              unfold askedFrom
              rw [touched, loadFirst_of_some loaded]
              rfl
          | none =>
              have loaded := DiskTier.load_of_unreadable present contents
              rw [contents] at read
              refine .next (by simp only [look, read]; rfl) (.next rfl ?_)
              have dropped := onDisk_append (congrArg disks touched) (·.remove file)
              rw [dropped, touched, DiskTier.remove_touch]
              exact further loaded

/-- A look-up that is left alone is the look-up as a whole. -/
theorem look_undisturbed (cache : TieredCache) (file : String) :
    Undisturbed (·.look file) cache .memory (cache.lookup file).1 (cache.lookup file).2 := by
  unfold lookup find
  cases found : cache.memory.find? file with
  | some data =>
      apply Undisturbed.last
      simp only [look, found]
      rfl
  | none =>
      refine .next (by simp only [look, found]; rfl) ?_
      have asked := @look_index_undisturbed cache file [] cache.disks rfl
      unfold askedFrom at asked
      cases result : loadFirst file cache.disks with
      | mk data disks =>
          rw [result] at asked
          cases data with
          | some data => exact asked
          | none => exact asked

/-- What happens to a disk tier at a place depends on the tier there, if there is one. -/
theorem onDisk_congr {place : Nat} {change change' : DiskTier → DiskTier}
    (same : ∀ tier, cache.disks[place]? = some tier → change tier = change' tier) :
    cache.onDisk place change = cache.onDisk place change' := by
  unfold onDisk
  congr 1
  apply List.ext_getElem?
  intro other
  by_cases here : other = place
  · subst here
    rw [List.getElem?_modify_eq, List.getElem?_modify_eq]
    cases tier : cache.disks[other]? with
    | none => rfl
    | some tier' => exact congrArg some (same tier' tier)
  · rw [List.getElem?_modify_ne _ _ (Ne.symm here), List.getElem?_modify_ne _ _ (Ne.symm here)]

theorem onDisk_id (cache : TieredCache) (place : Nat) : cache.onDisk place id = cache := by
  unfold onDisk
  rw [List.modify_id]

theorem onDisk_onDisk (cache : TieredCache) (place : Nat) (change change' : DiskTier → DiskTier) :
    (cache.onDisk place change).onDisk place change' =
      cache.onDisk place (fun tier => change' (change tier)) := by
  unfold onDisk
  rw [List.modify_modify_eq]
  rfl

/-- Storing that is left alone is storing as a whole. -/
theorem save_undisturbed (cache : TieredCache) (file : String) (data : Bytes) :
    Undisturbed (·.save file data) cache .memory () (cache.store file data) := by
  refine .next rfl ?_
  generalize remembered : { cache with memory := cache.memory.offer file data } = middle
  have stored : cache.store file data =
      middle.onDisk (middle.diskFor data.length) (·.keep file data) := by
    rw [← remembered]
    rfl
  rw [stored]
  cases here : middle.disks[middle.diskFor data.length]? with
  | none =>
      apply Undisturbed.last
      rw [@onDisk_congr middle _ _ id (by simp [here]), onDisk_id]
      simp only [save, here]
  | some tier =>
      cases written : tier.directory.write (DiskTier.fileName file) data with
      | error problem =>
          apply Undisturbed.last
          have failed : tier.keep file data = tier := by simp [DiskTier.keep, DiskTier.store, written]
          rw [@onDisk_congr middle _ _ id (by simp [here, failed]), onDisk_id]
          simp only [save, here, written]
      | ok directory =>
          refine .next (by simp only [save, here, written]; rfl) (.last ?_)
          have kept : tier.keep file data = DiskTier.enter { tier with directory } file data.length := by
            simp [DiskTier.keep, DiskTier.store, written]
          have entered := onDisk_onDisk middle (middle.diskFor data.length)
            ({ · with directory }) (·.enter file data.length)
          have same := @onDisk_congr middle (middle.diskFor data.length) (·.keep file data)
            (fun tier => DiskTier.enter { tier with directory } file data.length)
            (by simp [here, kept])
          rw [same, ← entered]
          rfl

end TieredCache

namespace DiskTier

variable {tier : DiskTier} {file : String} {data : Bytes}

/-- The file of a chunk, if there is one, holds some data and nothing else. -/
def Shows (tier : DiskTier) (file : String) (data : Bytes) : Prop :=
  ∀ contents, tier.read? file = some contents → contents = data

theorem Shows.touch (shows : tier.Shows file data) : (tier.touch file).Shows file data := by
  intro contents read
  unfold DiskTier.read? at read
  rw [directory_touch] at read
  exact shows contents read

theorem Shows.remove (shows : tier.Shows file data) : (tier.remove file).Shows file data :=
  fun contents read => shows contents (read?_of_read?_remove read)

theorem Shows.enter (shows : tier.Shows file data) (length : Nat) :
    (tier.enter file length).Shows file data :=
  fun contents read => shows contents (read?_of_read?_enter read)

theorem shows_of_write {directory : Directory}
    (written : tier.directory.write (fileName file) data = .ok directory) :
    Shows { tier with directory } file data := by
  intro contents read
  unfold DiskTier.read? at read
  rw [Directory.read?_write written, if_pos rfl] at read
  exact (Option.some.inj read).symm

end DiskTier

namespace TieredCache

variable {cache later : TieredCache} {file : String} {data : Bytes} {place : Nat}
  {change : DiskTier → DiskTier}

theorem getElem?_onDisk_self {tier : DiskTier} (here : cache.disks[place]? = some tier) :
    (cache.onDisk place change).disks[place]? = some (change tier) := by
  unfold onDisk
  rw [List.getElem?_modify_eq, here]
  rfl

theorem getElem?_onDisk_of_ne {other : Nat} (different : other ≠ place) :
    (cache.onDisk place change).disks[other]? = cache.disks[other]? :=
  List.getElem?_modify_ne _ _ (Ne.symm different)

/-- There is a disk tier at a place, and its file of a chunk holds nothing but some data. -/
def ShowsAt (cache : TieredCache) (place : Nat) (file : String) (data : Bytes) : Prop :=
  ∃ tier, cache.disks[place]? = some tier ∧ tier.Shows file data

/-- Whatever a cache has of a chunk is some data. -/
structure Tells (cache : TieredCache) (file : String) (data : Bytes) : Prop where
  memory : ∀ contents, cache.memory.find? file = some contents → contents = data
  disks : ∀ {place : Nat} {tier : DiskTier}, cache.disks[place]? = some tier →
    tier.has file = true → tier.Shows file data

/-- What others do to a cache while a chunk is looked up or stored. -/
structure Keeps (cache later : TieredCache) (file : String) (data : Bytes) : Prop where
  limit : later.memory.partLimit = cache.memory.partLimit
  unit : later.unit = cache.unit
  tiers : later.disks.length = cache.disks.length
  memory : cache.memory.find? file = some data → later.memory.find? file = some data
  shows : ∀ {place}, cache.ShowsAt place file data → later.ShowsAt place file data

theorem not_has_iff : cache.has file = false ↔ cache.memory.find? file = none ∧
    ∀ tier ∈ cache.disks, tier.has file = false := by
  simp [has, MemoryTier.has, MemoryTier.find?, Table.has]

theorem tells_of_not_has (absent : cache.has file = false) : cache.Tells file data := by
  obtain ⟨memory, disks⟩ := not_has_iff.mp absent
  refine ⟨?_, ?_⟩
  · intro contents found
    rw [memory] at found
    cases found
  · intro place tier here known
    rw [disks tier (List.mem_of_getElem? here)] at known
    cases known

theorem Keeps.refl (cache : TieredCache) (file : String) (data : Bytes) :
    cache.Keeps cache file data :=
  ⟨rfl, rfl, rfl, id, id⟩

theorem keeps_countLookup (cache : TieredCache) (found : Bool) (file : String) (data : Bytes) :
    cache.Keeps (cache.countLookup found) file data :=
  ⟨rfl, rfl, rfl, id, id⟩

theorem Tells.countLookup (tells : cache.Tells file data) (found : Bool) :
    (cache.countLookup found).Tells file data :=
  ⟨tells.memory, tells.disks⟩

theorem keeps_onDisk (still : ∀ tier, cache.disks[place]? = some tier → tier.Shows file data →
    (change tier).Shows file data) : cache.Keeps (cache.onDisk place change) file data := by
  refine ⟨rfl, rfl, List.length_modify .., id, ?_⟩
  rintro other ⟨tier, here, shows⟩
  by_cases same : other = place
  · subst same
    exact ⟨_, getElem?_onDisk_self here, still tier here shows⟩
  · exact ⟨tier, (getElem?_onDisk_of_ne same).trans here, shows⟩

theorem Tells.onDisk (tells : cache.Tells file data)
    (still : ∀ tier, cache.disks[place]? = some tier → (change tier).has file = true →
      (change tier).Shows file data) : (cache.onDisk place change).Tells file data := by
  refine ⟨tells.memory, ?_⟩
  intro other later here known
  by_cases same : other = place
  · subst same
    cases before : cache.disks[other]? with
    | none =>
        unfold TieredCache.onDisk at here
        rw [List.getElem?_modify_eq, before] at here
        cases here
    | some tier =>
        cases (getElem?_onDisk_self before).symm.trans here
        exact still tier before known
  · rw [getElem?_onDisk_of_ne same] at here
    exact tells.disks here known

theorem find?_offer (small : data.length ≤ cache.memory.partLimit) :
    (cache.memory.offer file data).find? file = some data := by
  unfold MemoryTier.offer
  rw [if_pos small, MemoryTier.find?_insert_self]

theorem find?_offer_eq_some {contents : Bytes}
    (found : (cache.memory.offer file data).find? file = some contents) :
    contents = data ∨ cache.memory.find? file = some contents := by
  unfold MemoryTier.offer at found
  split at found
  · rw [MemoryTier.find?_insert_self] at found
    exact .inl (Option.some.inj found).symm
  · exact .inr found

theorem keeps_offer (cache : TieredCache) (file : String) (data : Bytes) :
    cache.Keeps { cache with memory := cache.memory.offer file data } file data := by
  refine ⟨?_, rfl, rfl, ?_, id⟩
  · change (cache.memory.offer file data).partLimit = _
    unfold MemoryTier.offer
    split <;> rfl
  · intro found
    change (cache.memory.offer file data).find? file = _
    unfold MemoryTier.offer
    split
    · exact MemoryTier.find?_insert_self ..
    · exact found

theorem Tells.offer (tells : cache.Tells file data) :
    Tells { cache with memory := cache.memory.offer file data } file data := by
  refine ⟨?_, tells.disks⟩
  intro contents found
  exact (find?_offer_eq_some found).elim id (tells.memory contents)

end TieredCache

/-- A look-up has come across nothing of a chunk but some data. -/
def LookStage.Sound (cache : TieredCache) (file : String) (data : Bytes) : LookStage → Prop
  | .memory | .index _ => True
  | .file place | .unreadable place => cache.ShowsAt place file data
  | .found contents => contents = data

/-- The data that is being stored is in the file that the index is to be told of. -/
def StoreStage.Sound (cache : TieredCache) (file : String) (data : Bytes) : StoreStage → Prop
  | .memory | .file => True
  | .index => cache.ShowsAt (cache.diskFor data.length) file data

namespace TieredCache

variable {cache later : TieredCache} {file : String} {data : Bytes}

theorem Keeps.look_sound (keeps : cache.Keeps later file data) {stage : LookStage}
    (sound : stage.Sound cache file data) : stage.Sound later file data := by
  cases stage with
  | memory => trivial
  | index place => trivial
  | file place => exact keeps.shows sound
  | unreadable place => exact keeps.shows sound
  | found contents => exact sound

theorem Keeps.save_sound (keeps : cache.Keeps later file data) {stage : StoreStage}
    (sound : stage.Sound cache file data) : stage.Sound later file data := by
  cases stage with
  | memory => trivial
  | file => trivial
  | index =>
      unfold StoreStage.Sound diskFor at sound ⊢
      rw [keeps.unit]
      exact keeps.shows sound

/-- What a stage of a look-up comes to. -/
inductive Looked (cache : TieredCache) (file : String) :
    LookStage → Advance LookStage (Option Bytes) → TieredCache → Prop where
  | remembered {data : Bytes} (found : cache.memory.find? file = some data) :
      Looked cache file .memory (.done (some data)) (cache.countLookup true)
  | forgotten (missing : cache.memory.find? file = none) :
      Looked cache file .memory (.more (.index 0)) cache
  | nowhere {place : Nat} (beyond : cache.disks[place]? = none) :
      Looked cache file (.index place) (.done none) (cache.countLookup false)
  | known {place : Nat} {tier : DiskTier} (here : cache.disks[place]? = some tier)
      (present : tier.has file = true) :
      Looked cache file (.index place) (.more (.file place)) (cache.onDisk place (·.touch file))
  | unknown {place : Nat} {tier : DiskTier} (here : cache.disks[place]? = some tier)
      (absent : tier.has file = false) :
      Looked cache file (.index place) (.more (.index (place + 1))) cache
  | read {place : Nat} {tier : DiskTier} {data : Bytes} (here : cache.disks[place]? = some tier)
      (contents : tier.read? file = some data) :
      Looked cache file (.file place) (.more (.found data)) (cache.countLookup true)
  | unreadable {place : Nat} (missing : cache.disks[place]?.bind (·.read? file) = none) :
      Looked cache file (.file place) (.more (.unreadable place)) cache
  | dropped (place : Nat) :
      Looked cache file (.unreadable place) (.more (.index (place + 1)))
        (cache.onDisk place (·.remove file))
  | raised (data : Bytes) :
      Looked cache file (.found data) (.done (some data))
        { cache with memory := cache.memory.offer file data }

theorem looked (cache : TieredCache) (file : String) (stage : LookStage) :
    cache.Looked file stage (cache.look file stage).1 (cache.look file stage).2 := by
  cases stage with
  | memory =>
      cases found : cache.memory.find? file with
      | none => simpa only [look, found] using .forgotten found
      | some data => simpa only [look, found] using .remembered found
  | index place =>
      cases here : cache.disks[place]? with
      | none => simpa only [look, here] using .nowhere here
      | some tier =>
          cases present : tier.has file with
          | false => simpa [look, here, present] using .unknown here present
          | true => simpa [look, here, present] using .known here present
  | file place =>
      cases read : cache.disks[place]?.bind (·.read? file) with
      | none => simpa only [look, read] using .unreadable read
      | some data =>
          obtain ⟨tier, here, contents⟩ := Option.bind_eq_some_iff.mp read
          simpa only [look, read] using .read here contents
  | unreadable place => exact .dropped place
  | found data => exact .raised data

/-- What a stage of storing a chunk comes to. -/
inductive Saved (cache : TieredCache) (file : String) (data : Bytes) :
    StoreStage → Advance StoreStage Unit → TieredCache → Prop where
  | remembered : Saved cache file data .memory (.more .file)
      { cache with memory := cache.memory.offer file data }
  | unwritten (failed : ∀ tier directory, cache.disks[cache.diskFor data.length]? = some tier →
        tier.directory.write (DiskTier.fileName file) data ≠ .ok directory) :
      Saved cache file data .file (.done ()) cache
  | written {tier : DiskTier} {directory : Directory}
      (here : cache.disks[cache.diskFor data.length]? = some tier)
      (done : tier.directory.write (DiskTier.fileName file) data = .ok directory) :
      Saved cache file data .file (.more .index)
        (cache.onDisk (cache.diskFor data.length) ({ · with directory }))
  | entered : Saved cache file data .index (.done ())
      (cache.onDisk (cache.diskFor data.length) (·.enter file data.length))

theorem saved (cache : TieredCache) (file : String) (data : Bytes) (stage : StoreStage) :
    cache.Saved file data stage (cache.save file data stage).1 (cache.save file data stage).2 := by
  cases stage with
  | memory => exact .remembered
  | file =>
      cases here : cache.disks[cache.diskFor data.length]? with
      | none => simpa only [save, here] using .unwritten (by simp [here])
      | some tier =>
          cases written : tier.directory.write (DiskTier.fileName file) data with
          | error problem =>
              have failed : ∀ tier directory, cache.disks[cache.diskFor data.length]? = some tier →
                  tier.directory.write (DiskTier.fileName file) data ≠ .ok directory := by
                intro tier' directory here'
                cases here.symm.trans here'
                simp [written]
              simpa only [save, here, written] using .unwritten failed
          | ok directory => simpa only [save, here, written] using .written here written
  | index => exact .entered

/-- If what is known of a chunk is some data, this is still so after a stage of a look-up, and the
look-up comes across nothing else. -/
theorem Tells.looked (tells : cache.Tells file data) {stage : LookStage}
    (sound : stage.Sound cache file data) {next : Advance LookStage (Option Bytes)}
    (looked : cache.Looked file stage next later) :
    later.Tells file data ∧ cache.Keeps later file data ∧
      match next with
      | .more next => next.Sound later file data
      | .done found => ∀ contents, found = some contents → contents = data := by
  cases looked with
  | remembered found =>
      refine ⟨tells.countLookup true, keeps_countLookup .., ?_⟩
      rintro contents ⟨⟩
      exact tells.memory _ found
  | forgotten => exact ⟨tells, .refl .., trivial⟩
  | nowhere => exact ⟨tells.countLookup false, keeps_countLookup .., by simp⟩
  | known here present =>
      have shows := (tells.disks here present).touch
      refine ⟨tells.onDisk ?_, keeps_onDisk fun _ _ => .touch, _, getElem?_onDisk_self here, shows⟩
      rintro tier here' -
      cases here.symm.trans here'
      exact shows
  | unknown => exact ⟨tells, .refl .., trivial⟩
  | read here contents =>
      obtain ⟨tier, here', shows⟩ := sound
      cases here.symm.trans here'
      exact ⟨tells.countLookup true, keeps_countLookup .., shows _ contents⟩
  | unreadable => exact ⟨tells, .refl .., sound⟩
  | dropped =>
      refine ⟨tells.onDisk ?_, keeps_onDisk fun _ _ => .remove, trivial⟩
      intro tier here known
      rw [DiskTier.has_remove] at known
      cases known
  | raised =>
      cases sound
      refine ⟨tells.offer, keeps_offer .., ?_⟩
      rintro contents ⟨⟩
      rfl

/-- If what is known of a chunk is the data being stored, this is still so after a stage of it. -/
theorem Tells.saved (tells : cache.Tells file data) {stage : StoreStage}
    (sound : stage.Sound cache file data) {next : Advance StoreStage Unit}
    (saved : cache.Saved file data stage next later) :
    later.Tells file data ∧ cache.Keeps later file data ∧
      ∀ stage', next = .more stage' → stage'.Sound later file data := by
  cases saved with
  | remembered =>
      refine ⟨tells.offer, keeps_offer .., ?_⟩
      rintro stage ⟨⟩
      trivial
  | unwritten => exact ⟨tells, .refl .., by simp⟩
  | written here done =>
      have shows := DiskTier.shows_of_write done
      refine ⟨tells.onDisk ?_, keeps_onDisk ?_, ?_⟩
      · rintro tier here' -
        cases here.symm.trans here'
        exact shows
      · rintro tier here' -
        cases here.symm.trans here'
        exact shows
      · rintro stage ⟨⟩
        exact ⟨_, getElem?_onDisk_self here, shows⟩
  | entered =>
      obtain ⟨tier, here, shows⟩ := sound
      refine ⟨tells.onDisk ?_, keeps_onDisk fun _ _ shows => shows.enter _, by simp⟩
      rintro tier' here' -
      cases here.symm.trans here'
      exact shows.enter _

theorem fetches_countLookup (cache : TieredCache) (found : Bool) :
    (cache.countLookup found).counters.fetches = cache.counters.fetches := by
  cases found <;> rfl

theorem Looked.fetches_eq {stage : LookStage} {next : Advance LookStage (Option Bytes)}
    (looked : cache.Looked file stage next later) :
    later.counters.fetches = cache.counters.fetches := by
  cases looked with
  | remembered => exact fetches_countLookup cache true
  | nowhere => exact fetches_countLookup cache false
  | read => exact fetches_countLookup cache true
  | forgotten | known | unknown | unreadable | dropped | raised => rfl

theorem Saved.fetches_eq {stage : StoreStage} {next : Advance StoreStage Unit}
    (saved : cache.Saved file data stage next later) :
    later.counters.fetches = cache.counters.fetches := by
  cases saved <;> rfl

end TieredCache

/-- A look-up has not come across anything of a chunk. -/
def LookStage.Early : LookStage → Prop
  | .memory | .index _ => True
  | .file _ | .unreadable _ | .found _ => False

theorem LookStage.Early.sound {stage : LookStage} (early : stage.Early) (cache : TieredCache)
    (file : String) (data : Bytes) : stage.Sound cache file data := by
  cases stage with
  | memory => trivial
  | index place => trivial
  | file place => cases early
  | unreadable place => cases early
  | found contents => cases early

namespace TieredCache

variable {cache later : TieredCache} {file : String}

/-- Where nothing is known of a chunk, a look-up does not come across anything. -/
theorem Looked.of_not_has {stage : LookStage} {next : Advance LookStage (Option Bytes)}
    (looked : cache.Looked file stage next later) (absent : cache.has file = false)
    (early : stage.Early) :
    later.has file = false ∧
      match next with
      | .more next => next.Early ∧ next ≠ .memory
      | .done found => found = none := by
  obtain ⟨memory, disks⟩ := not_has_iff.mp absent
  cases looked with
  | remembered found =>
      rw [memory] at found
      cases found
  | forgotten => exact ⟨absent, trivial, by simp⟩
  | nowhere => exact ⟨absent, rfl⟩
  | known here present =>
      rw [disks _ (List.mem_of_getElem? here)] at present
      cases present
  | unknown => exact ⟨absent, trivial, by simp⟩
  | read | unreadable | dropped | raised => exact early.elim

end TieredCache

end Haystack
