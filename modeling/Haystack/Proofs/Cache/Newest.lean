import Haystack.Cache.Basic
import Haystack.Proofs.Cache.Holds
import Mathlib.Data.List.Induction

/-!
# Overwriting a chunk in a cache with tiers

Other data may be set for a chunk that a cache has. The tiers for the new data then hold it in
place of the old, but a tier that is not for data of its length keeps what it has, and may be asked
first. What a cache answers is therefore the newest of the data that went to the same tiers, and
the newest of all data if all of it did.
-/

namespace Haystack

/-- The last of the elements with a property is the last of those with a stronger one. -/
theorem getLast?_filter_of_imp {α : Type} {list : List α} {last : α} {wide narrow : α → Bool}
    (newest : (list.filter wide).getLast? = some last) (own : narrow last = true)
    (stronger : ∀ item, narrow item = true → wide item = true) :
    (list.filter narrow).getLast? = some last := by
  have again : list.filter narrow = (list.filter wide).filter narrow := by
    rw [List.filter_filter]
    apply List.filter_congr
    intro item _
    cases known : narrow item with
    | false => rfl
    | true => rw [stronger item known, Bool.and_true]
  obtain ⟨front, parts⟩ := List.getLast?_eq_some_iff.mp newest
  rw [again, parts, List.filter_append, List.filter_cons_of_pos own, List.filter_nil,
    List.getLast?_concat]

/-- A call of a cache with tiers. -/
inductive CacheCall where
  | set (file : String) (data : Bytes)
  | get (file : String)
  | readAt (file : String) (offset length : Nat)
  | uncache (file : String)

namespace CacheCall

/-- The data that is set for a chunk, in order. -/
def given (calls : List CacheCall) (file : String) : List Bytes :=
  calls.flatMap fun
    | set other data => if other = file then [data] else []
    | _ => []

/-- The chunks that data is set for. -/
def targets (calls : List CacheCall) : List String :=
  calls.flatMap fun
    | set file _ => [file]
    | _ => []

end CacheCall

namespace ChunkCache

def after (cache : ChunkCache) : CacheCall → ChunkCache
  | .set file data => cache.set file data
  | .get file => (cache.get file).2
  | .readAt file offset length => (cache.readAt file offset length).2
  | .uncache file => cache.remove file

def run (cache : ChunkCache) (calls : List CacheCall) : ChunkCache :=
  calls.foldl after cache

theorem readAt_of_none {cache later : ChunkCache} {file : String}
    (got : cache.get file = (none, later)) (offset length : Nat) :
    cache.readAt file offset length = (.ok none, later) := by
  unfold readAt
  rw [got]

theorem readAt_of_some {cache later : ChunkCache} {file : String} {data : Bytes}
    (got : cache.get file = (some data, later)) (offset length : Nat) :
    cache.readAt file offset length = ((Contents.read data offset length).map some, later) := by
  unfold readAt
  rw [got]

theorem after_readAt (cache : ChunkCache) (file : String) (offset length : Nat) :
    cache.after (.readAt file offset length) = cache.after (.get file) := by
  change (cache.readAt file offset length).2 = (cache.get file).2
  cases got : cache.get file with
  | mk found later =>
      cases found with
      | none => rw [readAt_of_none got]
      | some data => rw [readAt_of_some got]

/-- What is read of a chunk is a part of what is got of it. -/
theorem get_of_readAt {cache : ChunkCache} {file : String} {offset length : Nat} {part : Bytes}
    (read : (cache.readAt file offset length).1 = .ok (some part)) :
    ∃ data, (cache.get file).1 = some data ∧ Contents.read data offset length = .ok part := by
  cases got : cache.get file with
  | mk found later =>
      cases found with
      | none =>
          rw [readAt_of_none got] at read
          cases read
      | some data =>
          rw [readAt_of_some got] at read
          refine ⟨data, rfl, ?_⟩
          cases bytes : Contents.read data offset length with
          | error problem =>
              rw [bytes] at read
              cases read
          | ok bytes' =>
              rw [bytes] at read
              cases read
              rfl

end ChunkCache

/-- The tiers that data goes to: memory or not, and the number of a disk tier if there is one. -/
structure TierChoice where
  memory : Bool
  disk : Option Nat
  deriving DecidableEq

namespace TierChoice

/-- The part of some data that goes to the same tiers as a piece of it. -/
def alike (choice : Nat → TierChoice) (given : List Bytes) (data : Bytes) : List Bytes :=
  given.filter fun other => choice other.length = choice data.length

/-- The data is the last that was given among all that goes to the same tiers. -/
def Newest (choice : Nat → TierChoice) (given : List Bytes) (data : Bytes) : Prop :=
  (alike choice given data).getLast? = some data

variable {choice : Nat → TierChoice} {given : List Bytes} {data : Bytes}

theorem newest_last (choice : Nat → TierChoice) (given : List Bytes) (data : Bytes) :
    Newest choice (given ++ [data]) data := by
  unfold Newest alike
  rw [List.filter_append, List.filter_cons_of_pos (by simp), List.filter_nil, List.getLast?_concat]

theorem Newest.concat (newest : Newest choice given data) {other : Bytes}
    (different : choice other.length ≠ choice data.length) :
    Newest choice (given ++ [other]) data := by
  unfold Newest alike at newest ⊢
  rw [List.filter_append, List.filter_cons_of_neg (by simpa using different), List.filter_nil,
    List.append_nil]
  exact newest

theorem Newest.mem (newest : Newest choice given data) : data ∈ given :=
  (List.mem_filter.mp (List.mem_of_getLast? newest)).1

theorem Newest.getLast? (newest : Newest choice given data)
    (all : ∀ other ∈ given, choice other.length = choice data.length) :
    given.getLast? = some data := by
  unfold Newest alike at newest
  rwa [List.filter_eq_self.mpr (by simpa using all)] at newest

end TierChoice

theorem Directory.read?_of_write_error {directory : Directory} {name : String} {contents : Bytes}
    {problem : Error} (failed : directory.write name contents = .error problem) :
    directory.read? name = none := by
  unfold write at failed
  split at failed
  · rfl
  · split at failed
    · rename_i items taken
      unfold read? find?
      rw [Option.bind_some, taken]
    · cases failed

namespace DiskTier

/-- The file of a chunk, if there is one, holds the last of some data. -/
def ShowsLast (tier : DiskTier) (file : String) (given : List Bytes) : Prop :=
  ∀ data, tier.directory.read? (fileName file) = some data → given.getLast? = some data

variable {tier : DiskTier} {file other : String} {given : List Bytes}

theorem ShowsLast.load (shows : tier.ShowsLast file given) (other : String) :
    (tier.load other).2.ShowsLast file given := by
  unfold DiskTier.load
  split
  · exact shows
  · split
    · exact shows
    · intro data found
      exact shows data (read?_of_read?_remove found)

theorem read?_of_load {data : Bytes} (loaded : (tier.load file).1 = some data) :
    tier.directory.read? (fileName file) = some data := by
  unfold DiskTier.load at loaded
  split at loaded
  · cases loaded
  · split at loaded
    · rename_i read
      cases loaded
      exact read
    · cases loaded

/-- Even if nothing can be stored, no older data is left. -/
theorem showsLast_keep (tier : DiskTier) (file : String) (given : List Bytes) (data : Bytes) :
    (tier.keep file data).ShowsLast file (given ++ [data]) := by
  intro found read
  rw [List.getLast?_concat]
  unfold DiskTier.keep store at read
  cases written : tier.directory.write (fileName file) data with
  | error problem =>
      rw [written] at read
      have missing := Directory.read?_of_write_error written
      rw [missing] at read
      cases read
  | ok directory =>
      rw [written] at read
      have stored := read?_of_read?_enter read
      rwa [Directory.read?_write written, if_pos rfl] at stored

theorem ShowsLast.keep_of_ne (shows : tier.ShowsLast file given)
    (different : fileName other ≠ fileName file) (data : Bytes) :
    (tier.keep other data).ShowsLast file given := by
  unfold DiskTier.keep store
  cases written : tier.directory.write (fileName other) data with
  | error problem => exact shows
  | ok directory =>
      intro found read
      have before := read?_of_read?_enter read
      rw [Directory.read?_write written, if_neg different.symm] at before
      exact shows found before

end DiskTier

namespace TieredCache

/-- The cache whose disk tiers are going to deal with new chunks in the given ways. -/
def admitting (cache : TieredCache) (admissions : Nat → List Admission) : TieredCache :=
  { cache with
    disks := cache.disks.mapIdx fun place tier => { tier with admissions := admissions place } }

/-- A cache as it is made, in memory only or over directories, whatever its disk tiers are going to
let in. -/
inductive New : TieredCache → Prop where
  | inMemory (partLimit : Nat) : New (inMemory partLimit)
  | openOver (partLimit unit total : Nat) (directories : List Directory)
      (admissions : Nat → List Admission) :
      New ((openOver partLimit unit total directories).admitting admissions)

def tiersFor (cache : TieredCache) (length : Nat) : TierChoice :=
  { memory := length ≤ cache.memory.partLimit
    disk :=
      if cache.diskFor length < cache.disks.length then some (cache.diskFor length) else none }

/-- Whatever the tiers of a cache hold for a chunk is the newest of the data given that went
there. -/
structure Current (cache : TieredCache) (choice : Nat → TierChoice) (file : String)
    (given : List Bytes) : Prop where
  tiers : cache.tiersFor = choice
  memory : ∀ data, cache.memory.find? file = some data →
    (choice data.length).memory = true ∧ TierChoice.Newest choice given data
  disks : ∀ (place : Nat) (tier : DiskTier), cache.disks[place]? = some tier →
    tier.ShowsLast file (given.filter fun data => (choice data.length).disk = some place)

variable {cache : TieredCache} {choice : Nat → TierChoice} {file other : String}
  {given : List Bytes}

theorem current_of_new (new : cache.New) (file : String) :
    cache.Current cache.tiersFor file [] := by
  cases new with
  | inMemory partLimit =>
      refine ⟨rfl, ?_, ?_⟩
      · intro data found
        cases found
      · intro place tier member
        cases member
  | openOver partLimit unit total directories admissions =>
      refine ⟨rfl, ?_, ?_⟩
      · intro data found
        cases found
      · intro place tier member data read
        obtain ⟨bound, rfl⟩ := List.getElem?_eq_some_iff.mp member
        simp only [admitting, TieredCache.openOver, List.getElem_mapIdx,
          List.getElem_zipWith] at read
        change (Directory.swept _).read? _ = _ at read
        rw [Directory.read?_swept] at read
        cases read

theorem disk_tiersFor {place length : Nat} (here : cache.diskFor length = place)
    (bound : place < cache.disks.length) : (cache.tiersFor length).disk = some place := by
  unfold tiersFor
  rw [here, if_pos bound]

theorem length_loadFirst (file : String) (disks : List DiskTier) :
    (loadFirst file disks).2.length = disks.length := by
  induction disks with
  | nil => rfl
  | cons tier rest ih =>
      unfold loadFirst
      split
      · rfl
      · exact congrArg (· + 1) ih

/-- Looking for a chunk leaves each tier as it is or as its own look-up leaves it. -/
theorem getElem?_loadFirst {disks : List DiskTier} {place : Nat} {later : DiskTier}
    (member : (loadFirst file disks).2[place]? = some later) :
    ∃ tier, disks[place]? = some tier ∧ (later = tier ∨ later = (tier.load file).2) := by
  induction disks generalizing place with
  | nil => cases member
  | cons tier rest ih =>
      unfold loadFirst at member
      cases load : tier.load file with
      | mk found next =>
          have looked : next = (tier.load file).2 := by rw [load]
          rw [load] at member
          cases found with
          | some data =>
              cases place with
              | zero => exact ⟨tier, rfl, .inr ((Option.some.inj member).symm.trans looked)⟩
              | succ place => exact ⟨later, member, .inl rfl⟩
          | none =>
              cases place with
              | zero => exact ⟨tier, rfl, .inr ((Option.some.inj member).symm.trans looked)⟩
              | succ place => exact ih member

/-- A chunk that is found is in the file of some tier. -/
theorem read?_of_loadFirst {disks : List DiskTier} {data : Bytes}
    (loaded : (loadFirst file disks).1 = some data) :
    ∃ (place : Nat) (tier : DiskTier), disks[place]? = some tier ∧
      tier.directory.read? (DiskTier.fileName file) = some data := by
  induction disks with
  | nil => cases loaded
  | cons tier rest ih =>
      unfold loadFirst at loaded
      cases load : tier.load file with
      | mk found next =>
          rw [load] at loaded
          cases found with
          | some first =>
              cases loaded
              exact ⟨0, tier, rfl, DiskTier.read?_of_load (by rw [load])⟩
          | none =>
              obtain ⟨place, tier', member, read⟩ := ih loaded
              exact ⟨place + 1, tier', member, read⟩

theorem Current.tiers_of_eq (current : cache.Current choice file given) {later : TieredCache}
    (limit : later.memory.partLimit = cache.memory.partLimit) (unit : later.unit = cache.unit)
    (disks : later.disks.length = cache.disks.length) : later.tiersFor = choice := by
  rw [← current.tiers]
  funext length
  unfold tiersFor diskFor
  rw [limit, unit, disks]

theorem partLimit_offer (tier : MemoryTier) (file : String) (data : Bytes) :
    (tier.offer file data).partLimit = tier.partLimit := by
  unfold MemoryTier.offer
  split <;> rfl

theorem Current.loadFirst (current : cache.Current choice file given) (other : String) :
    ∀ (place : Nat) (tier : DiskTier),
      (TieredCache.loadFirst other cache.disks).2[place]? = some tier →
      tier.ShowsLast file (given.filter fun data => (choice data.length).disk = some place) := by
  intro place later member
  obtain ⟨tier, known, rfl | rfl⟩ := getElem?_loadFirst member
  · exact current.disks place later known
  · exact (current.disks place tier known).load other

section Finding

variable {data : Bytes} {tiers : List DiskTier}

theorem find_of_memory (kept : cache.memory.find? file = some data) :
    cache.find file = (some data, cache) := by
  unfold TieredCache.find
  rw [kept]

theorem find_of_disk (missed : cache.memory.find? file = none)
    (loaded : TieredCache.loadFirst file cache.disks = (some data, tiers)) :
    cache.find file =
      (some data, { cache with disks := tiers, memory := cache.memory.offer file data }) := by
  unfold TieredCache.find
  rw [missed, loaded]

theorem find_of_nothing (missed : cache.memory.find? file = none)
    (loaded : TieredCache.loadFirst file cache.disks = (none, tiers)) :
    cache.find file = (none, { cache with disks := tiers }) := by
  unfold TieredCache.find
  rw [missed, loaded]

/-- Data that is found is the newest for its tiers, whichever tier it is found in. -/
theorem Current.newest_of_find (current : cache.Current choice file given)
    (found : (cache.find file).1 = some data) : TierChoice.Newest choice given data := by
  cases kept : cache.memory.find? file with
  | some held =>
      rw [find_of_memory kept] at found
      cases found
      exact (current.memory data kept).2
  | none =>
      cases load : TieredCache.loadFirst file cache.disks with
      | mk loaded tiers =>
          cases loaded with
          | none =>
              rw [find_of_nothing kept load] at found
              cases found
          | some held =>
              rw [find_of_disk kept load] at found
              cases found
              obtain ⟨place, tier, member, read⟩ :=
                read?_of_loadFirst (congrArg Prod.fst load)
              have last := current.disks place tier member data read
              have own := List.mem_of_getLast? last
              rw [List.mem_filter, decide_eq_true_eq] at own
              apply getLast?_filter_of_imp last
              · exact decide_eq_true rfl
              · intro item same
                rw [decide_eq_true_eq] at same ⊢
                rw [same, own.2]

end Finding

theorem Current.offer (current : cache.Current choice file given) {data : Bytes}
    (newest : TierChoice.Newest choice given data) {held : Bytes}
    (found : (cache.memory.offer file data).find? file = some held) :
    (choice held.length).memory = true ∧ TierChoice.Newest choice given held := by
  unfold MemoryTier.offer at found
  split at found
  · rename_i small
    rw [MemoryTier.find?_insert_self] at found
    cases found
    refine ⟨?_, newest⟩
    rw [← current.tiers]
    exact decide_eq_true small
  · exact current.memory held found

theorem find?_offer_of_ne {tier : MemoryTier} (different : other ≠ file) (data : Bytes) :
    (tier.offer other data).find? file = tier.find? file := by
  unfold MemoryTier.offer
  split
  · exact MemoryTier.find?_insert_of_ne tier data different.symm
  · rfl

theorem Current.find (current : cache.Current choice file given) (other : String) :
    (cache.find other).2.Current choice file given := by
  have disks := current.loadFirst other
  have length := length_loadFirst other cache.disks
  cases kept : cache.memory.find? other with
  | some data =>
      rw [find_of_memory kept]
      exact current
  | none =>
      cases load : TieredCache.loadFirst other cache.disks with
      | mk loaded tiers =>
          rw [load] at disks length
          cases loaded with
          | none =>
              rw [find_of_nothing kept load]
              exact ⟨current.tiers_of_eq rfl rfl length, current.memory, disks⟩
          | some data =>
              have found := find_of_disk kept load
              rw [found]
              refine ⟨current.tiers_of_eq ?_ rfl length, ?_, disks⟩
              · exact partLimit_offer _ _ _
              · intro held moved
                by_cases same : other = file
                · subst same
                  have newest := current.newest_of_find (congrArg Prod.fst found)
                  exact current.offer newest moved
                · rw [find?_offer_of_ne same] at moved
                  exact current.memory held moved

theorem Current.lookup (current : cache.Current choice file given) (other : String) :
    (cache.lookup other).2.Current choice file given := by
  have found := current.find other
  exact ⟨found.tiers, found.memory, found.disks⟩

theorem Current.tiers_store (current : cache.Current choice file given) (other : String)
    (data : Bytes) : (cache.store other data).tiersFor = choice := by
  apply current.tiers_of_eq
  · exact partLimit_offer _ _ _
  · rfl
  · exact List.length_modify ..

/-- New data for a chunk is the newest in the tiers that take it, and the others do not matter to
it. -/
theorem Current.store (current : cache.Current choice file given) (data : Bytes) :
    (cache.store file data).Current choice file (given ++ [data]) := by
  have chosen : choice data.length = cache.tiersFor data.length := by rw [current.tiers]
  refine ⟨current.tiers_store file data, ?_, ?_⟩
  · intro held found
    change (cache.memory.offer file data).find? file = some held at found
    unfold MemoryTier.offer at found
    split at found
    · rename_i small
      rw [MemoryTier.find?_insert_self] at found
      cases found
      refine ⟨?_, TierChoice.newest_last choice given data⟩
      rw [chosen]
      exact decide_eq_true small
    · rename_i large
      obtain ⟨fits, newest⟩ := current.memory held found
      refine ⟨fits, newest.concat ?_⟩
      intro same
      rw [← same, chosen] at fits
      exact large (of_decide_eq_true fits)
  · intro place later member
    change (cache.disks.modify _ _)[place]? = _ at member
    rw [List.getElem?_modify] at member
    obtain ⟨tier, known, rfl⟩ := Option.map_eq_some_iff.mp member
    rw [List.filter_append]
    by_cases here : cache.diskFor data.length = place
    · have own := disk_tiersFor here (List.getElem?_eq_some_iff.mp known).1
      rw [← chosen] at own
      have kept : [data].filter (fun data => (choice data.length).disk = some place) = [data] :=
        List.filter_cons_of_pos (decide_eq_true own)
      rw [if_pos here, kept]
      exact DiskTier.showsLast_keep tier file _ data
    · have elsewhere : (choice data.length).disk ≠ some place := by
        rw [chosen, tiersFor]
        intro same
        split at same
        · exact here (Option.some.inj same)
        · cases same
      rw [if_neg here, List.filter_cons_of_neg (by simpa using elsewhere), List.filter_nil,
        List.append_nil]
      exact current.disks place tier known

theorem Current.store_of_ne (current : cache.Current choice file given) (different : other ≠ file)
    {data : Bytes} (names : (choice data.length).disk = none ∨
      DiskTier.fileName other ≠ DiskTier.fileName file) :
    (cache.store other data).Current choice file given := by
  refine ⟨current.tiers_store other data, ?_, ?_⟩
  · intro held found
    change (cache.memory.offer other data).find? file = some held at found
    rw [find?_offer_of_ne different] at found
    exact current.memory held found
  · intro place later member
    change (cache.disks.modify _ _)[place]? = _ at member
    rw [List.getElem?_modify] at member
    obtain ⟨tier, known, rfl⟩ := Option.map_eq_some_iff.mp member
    have shows := current.disks place tier known
    split
    · rename_i here
      have own := disk_tiersFor here (List.getElem?_eq_some_iff.mp known).1
      obtain nowhere | distinct := names
      · rw [current.tiers, nowhere] at own
        cases own
      · exact shows.keep_of_ne distinct data
    · exact shows

theorem Current.uncache (current : cache.Current choice file given) (other : String) :
    (cache.uncache other).Current choice file given := by
  refine ⟨current.tiers, ?_, current.disks⟩
  intro held found
  by_cases same : file = other
  · subst same
    rw [TieredCache.uncache, MemoryTier.find?_remove_self] at found
    cases found
  · rw [TieredCache.uncache, MemoryTier.find?_remove_of_ne _ same] at found
    exact current.memory held found

/-- A call leaves the tiers with the newest data, where that is what they had. -/
theorem Current.after (current : cache.Current choice file given) (call : CacheCall)
    (names : ∀ other data, call = .set other data → other ≠ file →
      (choice data.length).disk = none ∨ DiskTier.fileName other ≠ DiskTier.fileName file) :
    ∃ later, (ChunkCache.tiered cache).after call = .tiered later ∧
      later.Current choice file (given ++ CacheCall.given [call] file) := by
  cases call with
  | set other data =>
      refine ⟨_, rfl, ?_⟩
      by_cases same : other = file
      · subst same
        have alone : CacheCall.given [.set other data] other = [data] := by
          simp [CacheCall.given]
        rw [alone]
        exact current.store data
      · have nothing : CacheCall.given [.set other data] file = [] := by
          simp [CacheCall.given, same]
        rw [nothing, List.append_nil]
        exact current.store_of_ne same (names other data rfl same)
  | get other =>
      refine ⟨_, rfl, ?_⟩
      rw [show CacheCall.given [.get other] file = [] from rfl, List.append_nil]
      exact current.lookup other
  | readAt other offset length =>
      rw [ChunkCache.after_readAt]
      refine ⟨_, rfl, ?_⟩
      rw [show CacheCall.given [.readAt other offset length] file = [] from rfl, List.append_nil]
      exact current.lookup other
  | uncache other =>
      refine ⟨_, rfl, ?_⟩
      rw [show CacheCall.given [.uncache other] file = [] from rfl, List.append_nil]
      exact current.uncache other

/-- After any calls the tiers have the newest of the data that was set. -/
theorem current_run {start : TieredCache} (new : start.New) {calls : List CacheCall}
    (names : start.disks = [] ∨ ∀ other ∈ CacheCall.targets calls,
      DiskTier.fileName other = DiskTier.fileName file → other = file) :
    ∃ cache, (ChunkCache.tiered start).run calls = .tiered cache ∧
      cache.Current start.tiersFor file (CacheCall.given calls file) := by
  induction calls using List.reverseRecOn with
  | nil => exact ⟨start, rfl, current_of_new new file⟩
  | append_singleton calls call ih =>
      have before : start.disks = [] ∨ ∀ other ∈ CacheCall.targets calls,
          DiskTier.fileName other = DiskTier.fileName file → other = file := by
        refine names.imp_right ?_
        intro names other member
        apply names other
        rw [CacheCall.targets, List.flatMap_append]
        exact List.mem_append_left _ member
      obtain ⟨cache, ran, current⟩ := ih before
      obtain ⟨later, next, current'⟩ := current.after call (by
        rintro other data rfl different
        refine names.imp ?_ ?_
        · intro none
          unfold tiersFor
          rw [none]
          rfl
        · intro names same
          refine different (names other ?_ same)
          rw [CacheCall.targets, List.flatMap_append]
          exact List.mem_append_right _ (List.mem_singleton_self other))
      refine ⟨later, ?_, ?_⟩
      · unfold ChunkCache.run at ran ⊢
        rw [List.foldl_append, ran]
        exact next
      · rw [CacheCall.given, List.flatMap_append]
        exact current'

/-- Whatever a cache answers for a chunk is the newest data that was set for it among that which
went to the same tiers. If all its data went to the same tiers, it is the newest of all. -/
theorem answers_are_newest {start : TieredCache} (new : start.New) {calls : List CacheCall}
    (names : start.disks = [] ∨ ∀ other ∈ CacheCall.targets calls,
      DiskTier.fileName other = DiskTier.fileName file → other = file) :
    let cache := (ChunkCache.tiered start).run calls
    let given := CacheCall.given calls file
    (∀ data, (cache.get file).1 = some data → TierChoice.Newest start.tiersFor given data) ∧
      (∀ offset length part, (cache.readAt file offset length).1 = .ok (some part) →
        ∃ data, TierChoice.Newest start.tiersFor given data ∧
          Contents.read data offset length = .ok part) ∧
      ((∀ first ∈ given, ∀ second ∈ given,
          start.tiersFor first.length = start.tiersFor second.length) →
        (∀ data, (cache.get file).1 = some data → given.getLast? = some data) ∧
          ∀ offset length part, (cache.readAt file offset length).1 = .ok (some part) →
            ∃ data, given.getLast? = some data ∧ Contents.read data offset length = .ok part) := by
  intro cache given
  obtain ⟨tiers, ran, current⟩ := current_run new names
  have got : ∀ data, (cache.get file).1 = some data →
      TierChoice.Newest start.tiersFor given data := by
    intro data found
    rw [show cache = .tiered tiers from ran] at found
    exact current.newest_of_find found
  have last (alike : ∀ first ∈ given, ∀ second ∈ given,
      start.tiersFor first.length = start.tiersFor second.length) :
      ∀ data, (cache.get file).1 = some data → given.getLast? = some data := by
    intro data found
    have newest := got data found
    exact newest.getLast? fun other member => alike other member data newest.mem
  refine ⟨got, ?_, ?_⟩
  · intro offset length part read
    obtain ⟨data, found, bytes⟩ := ChunkCache.get_of_readAt read
    exact ⟨data, got data found, bytes⟩
  · intro alike
    refine ⟨last alike, ?_⟩
    intro offset length part read
    obtain ⟨data, found, bytes⟩ := ChunkCache.get_of_readAt read
    exact ⟨data, last alike data found, bytes⟩

theorem overwritten_chunk_is_newest :
    let start := openOver 64 16 64 [some [], some [], some []]
    let calls : List CacheCall :=
      [.set "1,01" [97], .set "1,01" [98], .uncache "1,01", .get "1,01"]
    let cache := (ChunkCache.tiered start).run calls
    start.New ∧ (∀ other ∈ CacheCall.targets calls, other = "1,01") ∧
      (cache.get "1,01").1 = some [98] ∧
      TierChoice.Newest start.tiersFor (CacheCall.given calls "1,01") [98] ∧
      (CacheCall.given calls "1,01").getLast? = some [98] := by
  intro start calls cache
  have new : start.New := .openOver 64 16 64 [some [], some [], some []] fun _ => []
  have targets : ∀ other ∈ CacheCall.targets calls, other = "1,01" := by decide
  have found : (cache.get "1,01").1 = some [98] := by decide +kernel
  obtain ⟨newest, -, last⟩ :=
    answers_are_newest new (.inr fun other member _ => targets other member)
  refine ⟨new, targets, found, newest [98] found, (last ?_).1 [98] found⟩
  decide

/-- Memory keeps what it has when data comes that is too large for it, and is asked first. A disk
tier keeps what it has when data comes for the next one, and is asked before it. -/
theorem outgrown_data_is_answered :
    let small : List CacheCall := [.set "1,01" [97], .set "1,01" (List.replicate 5 98)]
    let large : List CacheCall :=
      [.set "1,01" (List.replicate 10 97), .set "1,01" (List.replicate 40 98), .uncache "1,01"]
    let memory := (ChunkCache.tiered (inMemory 4)).run small
    let disks := (ChunkCache.tiered (openOver 64 16 (2 ^ (20 : Nat)) [some [], some [], some []])).run large
    (CacheCall.given small "1,01").getLast? = some (List.replicate 5 98) ∧
      (memory.get "1,01").1 = some [97] ∧ (memory.readAt "1,01" 0 5).1.toOption = some (some [97]) ∧
      (CacheCall.given large "1,01").getLast? = some (List.replicate 40 98) ∧
      (disks.get "1,01").1 = some (List.replicate 10 97) := by
  intro small large memory disks
  refine ⟨?_, ?_, ?_, ?_, ?_⟩
  · decide
  · decide
  · decide
  · decide
  · decide +kernel

end TieredCache

end Haystack
