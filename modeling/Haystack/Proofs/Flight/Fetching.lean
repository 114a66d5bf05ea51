import Haystack.Flight.Requests
import Haystack.Proofs.Cache.Stages
import Haystack.Proofs.Flight.Leaders
import Mathlib.Data.List.Induction

/-!
# Requests for one chunk

Nothing is known of a chunk, and requests for it come in any number. One of them fetches it, and
from then on it is in memory or the leader has it in hand, so that no later leader fetches again:
the leader looks into memory once more, and it finds the chunk there.
-/

namespace Haystack

/-- What comes of a request that takes a step without anything from outside. -/
inductive RequestState.Advanced (file : String) (cache : TieredCache)
    (registry : Registry String (Except ReadError Bytes)) : RequestState → RequestState →
    TieredCache → Registry String (Except ReadError Bytes) → Prop where
  | looks {stage stage' : LookStage} {later : TieredCache}
      (looked : cache.Looked file stage (.more stage') later) :
      Advanced file cache registry (.looking stage) (.looking stage') later registry
  | finds {stage : LookStage} {data : Bytes} {later : TieredCache}
      (looked : cache.Looked file stage (.done (some data)) later) :
      Advanced file cache registry (.looking stage) (.ended (.ok data)) later registry
  | misses {stage : LookStage} {later : TieredCache}
      (looked : cache.Looked file stage (.done none) later) :
      Advanced file cache registry (.looking stage) .joining later registry
  | leads (missing : registry.active.find? file = none) :
      Advanced file cache registry .joining (.checking registry.channels.length .memory) cache
        (registry.begun file)
  | follows {run : Nat} (found : registry.active.find? file = some run) :
      Advanced file cache registry .joining (.waiting run) cache registry
  | waits {run : Nat} (pending : registry.channel run = .pending) :
      Advanced file cache registry (.waiting run) (.waiting run) cache registry
  | receives {run : Nat} {result : Except ReadError Bytes}
      (published : registry.channel run = .published result) :
      Advanced file cache registry (.waiting run) (.ended result) cache registry
  | retries {run : Nat} (closed : registry.channel run = .closed) :
      Advanced file cache registry (.waiting run) .joining cache registry
  | checks {run : Nat} {stage stage' : LookStage} {later : TieredCache}
      (looked : cache.Looked file stage (.more stage') later) :
      Advanced file cache registry (.checking run stage) (.checking run stage') later registry
  | discovers {run : Nat} {stage : LookStage} {data : Bytes} {later : TieredCache}
      (looked : cache.Looked file stage (.done (some data)) later) :
      Advanced file cache registry (.checking run stage) (.publishing run (.ok data)) later registry
  | fetches {run : Nat} {stage : LookStage} {later : TieredCache}
      (looked : cache.Looked file stage (.done none) later) :
      Advanced file cache registry (.checking run stage) (.fetching run) later.countFetch registry
  | hangs (run : Nat) : Advanced file cache registry (.fetching run) (.fetching run) cache registry
  | saves {run : Nat} {data : Bytes} {stage stage' : StoreStage} {later : TieredCache}
      (saved : cache.Saved file data stage (.more stage') later) :
      Advanced file cache registry (.storing run data stage) (.storing run data stage') later
        registry
  | keeps {run : Nat} {data : Bytes} {stage : StoreStage} {later : TieredCache}
      (saved : cache.Saved file data stage (.done ()) later) :
      Advanced file cache registry (.storing run data stage) (.publishing run (.ok data)) later
        registry
  | publishes (run : Nat) (result : Except ReadError Bytes) :
      Advanced file cache registry (.publishing run result) (.ended result) cache
        (registry.publish file result)
  | rests (result : Except ReadError Bytes) :
      Advanced file cache registry (.ended result) (.ended result) cache registry

theorem RequestState.advanced (file : String) (cache : TieredCache)
    (registry : Registry String (Except ReadError Bytes)) (state : RequestState) :
    state.Advanced file cache registry (state.advance file cache registry).1
      (state.advance file cache registry).2.1 (state.advance file cache registry).2.2 := by
  cases state with
  | looking stage =>
      have looked := cache.looked file stage
      dsimp only [advance]
      generalize cache.look file stage = step at looked ⊢
      rcases step with ⟨_ | _ | _, later⟩
      · exact .looks looked
      · exact .misses looked
      · exact .finds looked
  | joining =>
      unfold advance
      cases found : registry.active.find? file with
      | none =>
          rw [Registry.join_of_none found]
          exact .leads found
      | some run =>
          rw [Registry.join_of_some found]
          exact .follows found
  | waiting run =>
      dsimp only [advance]
      split
      · exact .waits ‹_›
      · exact .receives ‹_›
      · exact .retries ‹_›
  | checking run stage =>
      have looked := cache.looked file stage
      dsimp only [advance]
      generalize cache.look file stage = step at looked ⊢
      rcases step with ⟨_ | _ | _, later⟩
      · exact .checks looked
      · exact .fetches looked
      · exact .discovers looked
  | fetching run => exact .hangs run
  | storing run data stage =>
      have saved := cache.saved file data stage
      dsimp only [advance]
      generalize cache.save file data stage = step at saved ⊢
      rcases step with ⟨_ | _, later⟩
      · exact .saves saved
      · exact .keeps saved
  | publishing run result => exact .publishes run result
  | ended result => exact .rests result

/-- What requests share: the cache, the runs, and who leads the run under way. -/
structure Scene where
  cache : TieredCache
  registry : Registry String (Except ReadError Bytes)
  /-- The leader and its run. -/
  lead : Option (Nat × Nat)

namespace Scene

/-- What holds of requests for a chunk of which a cache knew nothing after `before` fetches. Until
the chunk is fetched nobody comes across it, and after that it is in memory or its leader is about
to put it there. -/
structure Sound (scene : Scene) (file : String) (data : Bytes) (before : Nat) : Prop where
  tells : scene.cache.Tells file data
  small : data.length ≤ scene.cache.memory.partLimit
  active : scene.registry.active = (scene.lead.map fun leader => (file, leader.2)).toList
  pending : ∀ {request run : Nat}, scene.lead = some (request, run) →
    scene.registry.channel run = .pending
  channels : ∀ {run : Nat}, run < scene.registry.channels.length →
    scene.registry.channel run = .published (.ok data) ∧
      scene.cache.counters.fetches = before + 1 ∨
    scene.registry.channel run = .pending ∧ ∃ request, scene.lead = some (request, run)
  phase : scene.cache.counters.fetches = before ∧ scene.cache.has file = false ∨
    scene.cache.counters.fetches = before + 1 ∧
      (scene.cache.memory.find? file = some data ∨ scene.lead.isSome)

/-- What holds of a single request. The leader has looked into memory before anything was fetched,
or it is still to look there and is going to find the chunk. -/
def Fits (scene : Scene) (file : String) (data : Bytes) (before request : Nat) :
    RequestState → Prop
  | .looking stage => stage.Sound scene.cache file data ∧
      (scene.cache.counters.fetches = before → stage.Early)
  | .joining => True
  | .waiting run => run < scene.registry.channels.length
  | .checking run stage => scene.lead = some (request, run) ∧ stage.Early ∧
      (scene.cache.counters.fetches = before ∨
        stage = .memory ∧ scene.cache.memory.find? file = some data)
  | .fetching run => scene.lead = some (request, run) ∧ scene.cache.counters.fetches = before + 1
  | .storing run contents stage => scene.lead = some (request, run) ∧ contents = data ∧
      scene.cache.counters.fetches = before + 1 ∧ stage.Sound scene.cache file data ∧
      (stage = .memory ∨ scene.cache.memory.find? file = some data)
  | .publishing run result => scene.lead = some (request, run) ∧ result = .ok data ∧
      scene.cache.counters.fetches = before + 1 ∧ scene.cache.memory.find? file = some data
  | .ended result => result = .ok data ∧ scene.cache.counters.fetches = before + 1

/-- What a step of one request leaves to the others. -/
structure Leaves (request : Nat) (scene later : Scene) (file : String) (data : Bytes)
    (before : Nat) : Prop where
  keeps : scene.cache.Keeps later.cache file data
  longer : scene.registry.channels.length ≤ later.registry.channels.length
  fetched : scene.cache.counters.fetches = before + 1 → later.cache.counters.fetches = before + 1
  unfetched : later.cache.counters.fetches = before → scene.cache.counters.fetches = before
  lead : ∀ {other run : Nat}, other ≠ request → scene.lead = some (other, run) →
    later.lead = some (other, run) ∧ later.cache.counters.fetches = scene.cache.counters.fetches

/-- What has been published stays so, and a run under way has its leader until it is over. -/
structure Onward (scene later : Scene) : Prop where
  tiers : later.cache.disks.length = scene.cache.disks.length
  published : ∀ {run : Nat} {result : Except ReadError Bytes},
    scene.registry.channel run = .published result → later.registry.channel run = .published result
  leader : ∀ {leader run : Nat}, scene.lead = some (leader, run) →
    later.lead = some (leader, run) ∨ ∃ result, later.registry.channel run = .published result

variable {scene later : Scene} {file : String} {data : Bytes} {before request other : Nat}
  {state next : RequestState}

theorem Fits.leaves (fits : scene.Fits file data before other state)
    (leaves : Leaves request scene later file data before) (different : other ≠ request) :
    later.Fits file data before other state := by
  have remembered := leaves.keeps.memory
  cases state with
  | looking stage =>
      obtain ⟨sound, early⟩ := fits
      exact ⟨leaves.keeps.look_sound sound, fun now => early (leaves.unfetched now)⟩
  | joining => trivial
  | waiting run => exact Nat.lt_of_lt_of_le fits leaves.longer
  | checking run stage =>
      obtain ⟨leads, early, now⟩ := fits
      obtain ⟨leads', same⟩ := leaves.lead different leads
      exact ⟨leads', early, now.imp same.trans (And.imp_right remembered)⟩
  | fetching run => exact ⟨(leaves.lead different fits.1).1, leaves.fetched fits.2⟩
  | storing run contents stage =>
      obtain ⟨leads, same, fetched, sound, now⟩ := fits
      exact ⟨(leaves.lead different leads).1, same, leaves.fetched fetched,
        leaves.keeps.save_sound sound, now.imp_right remembered⟩
  | publishing run result =>
      obtain ⟨leads, same, fetched, here⟩ := fits
      exact ⟨(leaves.lead different leads).1, same, leaves.fetched fetched, remembered here⟩
  | ended result => exact ⟨fits.1, leaves.fetched fits.2⟩

theorem Sound.not_has (sound : scene.Sound file data before)
    (unfetched : scene.cache.counters.fetches = before) : scene.cache.has file = false := by
  obtain ⟨-, absent⟩ | ⟨fetched, -⟩ := sound.phase
  · exact absent
  · omega

theorem Sound.fetched (sound : scene.Sound file data before) {contents : Bytes}
    (here : scene.cache.memory.find? file = some contents) :
    scene.cache.counters.fetches = before + 1 := by
  obtain ⟨-, absent⟩ | ⟨fetched, -⟩ := sound.phase
  · rw [(TieredCache.not_has_iff.mp absent).1] at here
    cases here
  · exact fetched

theorem Sound.find?_eq_some_iff (sound : scene.Sound file data before) {run : Nat} :
    scene.registry.active.find? file = some run ↔ ∃ request, scene.lead = some (request, run) := by
  rw [sound.active]
  cases scene.lead with
  | none => simp [Table.find?]
  | some leader =>
      obtain ⟨request, run'⟩ := leader
      simp [Table.find?]

theorem leaves_of_keeps {cache : TieredCache} (keeps : scene.cache.Keeps cache file data)
    (same : cache.counters.fetches = scene.cache.counters.fetches) (request before : Nat) :
    Leaves request scene { scene with cache } file data before :=
  ⟨keeps, le_rfl, same.trans, same.symm.trans, fun _ leads => ⟨leads, same⟩⟩

theorem Sound.of_keeps (sound : scene.Sound file data before) {cache : TieredCache}
    (tells : cache.Tells file data) (keeps : scene.cache.Keeps cache file data)
    (same : cache.counters.fetches = scene.cache.counters.fetches)
    (absent : scene.cache.counters.fetches = before → cache.has file = false) :
    Sound { scene with cache } file data before := by
  refine ⟨tells, ?_, sound.active, sound.pending, ?_, ?_⟩
  · exact sound.small.trans_eq keeps.limit.symm
  · intro run known
    exact (sound.channels known).imp_left (And.imp_right same.trans)
  · obtain ⟨unfetched, -⟩ | ⟨fetched, here⟩ := sound.phase
    · exact .inl ⟨same.trans unfetched, absent unfetched⟩
    · exact .inr ⟨same.trans fetched, here.imp_left keeps.memory⟩

/-- A scene after a step of a request, and what has become of the request. -/
structure Turned (request : Nat) (scene later : Scene) (file : String) (data : Bytes)
    (before : Nat) (next : RequestState) : Prop where
  leaves : Leaves request scene later file data before
  onward : Onward scene later
  sound : later.Sound file data before
  fits : later.Fits file data before request next
  lead : ∀ {other run : Nat}, later.lead = some (other, run) →
    other = request ∧ next.leads? = some run ∨ other ≠ request ∧ scene.lead = some (other, run)

/-- A step that changes neither the runs nor who leads. -/
theorem Sound.quiet (sound : scene.Sound file data before)
    (leads : ∀ {run : Nat}, scene.lead = some (request, run) → next.leads? = some run)
    {cache : TieredCache} (tells : cache.Tells file data)
    (keeps : scene.cache.Keeps cache file data)
    (same : cache.counters.fetches = scene.cache.counters.fetches)
    (absent : scene.cache.counters.fetches = before → cache.has file = false)
    (fits : Fits { scene with cache } file data before request next) :
    Turned request scene { scene with cache } file data before next := by
  refine ⟨leaves_of_keeps keeps same request before, ⟨keeps.tiers, id, .inl⟩,
    sound.of_keeps tells keeps same absent, fits, ?_⟩
  intro other run leads'
  by_cases here : other = request
  · subst here
    exact .inl ⟨rfl, leads leads'⟩
  · exact .inr ⟨here, leads'⟩

theorem Sound.still (sound : scene.Sound file data before)
    (leads : ∀ {run : Nat}, scene.lead = some (request, run) → next.leads? = some run)
    (fits : scene.Fits file data before request next) :
    Turned request scene scene file data before next :=
  sound.quiet leads sound.tells (.refl ..) rfl sound.not_has fits

/-- A look-up goes on, or it ends and the request has no leader's part. -/
theorem Sound.looked (sound : scene.Sound file data before)
    {stage : LookStage} (fits : scene.Fits file data before request (.looking stage))
    (leads : ∀ {run : Nat}, scene.lead ≠ some (request, run))
    {progress : Advance LookStage (Option Bytes)} {cache : TieredCache}
    (looked : scene.cache.Looked file stage progress cache) :
    Turned request scene { scene with cache } file data before
      (match progress with
        | .more stage => .looking stage
        | .done (some data) => .ended (.ok data)
        | .done none => .joining) := by
  obtain ⟨tells, keeps, looks⟩ := sound.tells.looked fits.1 looked
  have absent (unfetched : scene.cache.counters.fetches = before) :=
    looked.of_not_has (sound.not_has unfetched) (fits.2 unfetched)
  refine sound.quiet (absurd · leads) tells keeps looked.fetches_eq (absent · |>.1) ?_
  match progress with
  | .more stage =>
      exact ⟨looks, fun unfetched => (absent (looked.fetches_eq.symm.trans unfetched)).2.1⟩
  | .done none => trivial
  | .done (some contents) =>
      cases looks contents rfl
      refine ⟨rfl, looked.fetches_eq.trans ?_⟩
      obtain ⟨unfetched, -⟩ | ⟨fetched, -⟩ := sound.phase
      · cases (absent unfetched).2
      · exact fetched

/-- Someone who joins while nobody leads begins a run. -/
theorem Sound.begun (sound : scene.Sound file data before)
    (missing : scene.registry.active.find? file = none) (request : Nat) :
    Turned request scene
      { scene with
        registry := scene.registry.begun file
        lead := some (request, scene.registry.channels.length) }
      file data before (.checking scene.registry.channels.length .memory) := by
  have nobody : scene.lead = none := by
    cases lead : scene.lead with
    | none => rfl
    | some leader =>
        rw [sound.find?_eq_some_iff.mpr ⟨leader.1, lead⟩] at missing
        cases missing
  have longer := Registry.length_begun scene.registry file
  refine ⟨⟨.refl .., ?_, id, id, ?_⟩, ⟨rfl, ?_, ?_⟩, ⟨sound.tells, sound.small, ?_, ?_, ?_, ?_⟩,
    ?_, ?_⟩
  · exact (Nat.le_succ _).trans_eq longer.symm
  · intro other run _ leads
    rw [nobody] at leads
    cases leads
  · intro run result published
    have earlier : run < scene.registry.channels.length :=
      Registry.lt_length_of_ne_closed (by simp [published])
    exact (Registry.channel_begun_of_lt earlier file).trans published
  · intro leader run leads
    rw [nobody] at leads
    cases leads
  · change (file, _) :: Table.erase scene.registry.active file = _
    rw [Table.erase_of_find?_eq_none missing, sound.active, nobody]
    rfl
  · rintro other run ⟨⟩
    exact Registry.channel_begun_self scene.registry file
  · intro run known
    obtain earlier | rfl := Nat.lt_succ_iff_lt_or_eq.mp (known.trans_eq longer)
    · refine .inl ?_
      change (scene.registry.begun file).channel run = _ ∧ _
      rw [Registry.channel_begun_of_lt earlier]
      obtain published | ⟨-, other, leads⟩ := sound.channels earlier
      · exact published
      · rw [nobody] at leads
        cases leads
    · exact .inr ⟨Registry.channel_begun_self .., request, rfl⟩
  · exact sound.phase.imp_right (And.imp_right fun _ => .inr rfl)
  · refine ⟨rfl, trivial, sound.phase.imp And.left ?_⟩
    rintro ⟨-, here | leads⟩
    · exact ⟨rfl, here⟩
    · rw [nobody] at leads
      cases leads
  · rintro other run ⟨⟩
    exact .inl ⟨rfl, rfl⟩

/-- The leader begins to fetch. -/
theorem Sound.fetching (sound : scene.Sound file data before) {run : Nat}
    (leads : scene.lead = some (request, run))
    (unfetched : scene.cache.counters.fetches = before) {cache : TieredCache}
    (tells : cache.Tells file data) (keeps : scene.cache.Keeps cache file data)
    (same : cache.counters.fetches = before) :
    Turned request scene { scene with cache := cache.countFetch } file data before
      (.fetching run) := by
  have fetched : cache.countFetch.counters.fetches = before + 1 := congrArg Nat.succ same
  refine ⟨⟨⟨keeps.limit, keeps.unit, keeps.tiers, keeps.memory, keeps.shows⟩, le_rfl,
    fun _ => fetched, fun now => ?_, ?_⟩, ⟨keeps.tiers, id, .inl⟩, ⟨⟨tells.memory, tells.disks⟩, ?_,
    sound.active, sound.pending, ?_, ?_⟩, ⟨leads, fetched⟩, ?_⟩
  · change cache.countFetch.counters.fetches = before at now
    omega
  · intro other run' different leads'
    cases leads.symm.trans leads'
    exact absurd rfl different
  · exact sound.small.trans_eq keeps.limit.symm
  · intro run' known
    exact (sound.channels known).imp_left (And.imp_right fun _ => fetched)
  · exact .inr ⟨fetched, .inr (by simp [leads])⟩
  · intro other run' leads'
    cases leads.symm.trans leads'
    exact .inl ⟨rfl, rfl⟩

/-- The leader looks once more. Before the fetch it finds nothing, and after it the chunk. -/
theorem Sound.checked (sound : scene.Sound file data before) {run : Nat} {stage : LookStage}
    (fits : scene.Fits file data before request (.checking run stage))
    {progress : Advance LookStage (Option Bytes)} {cache : TieredCache}
    (looked : scene.cache.Looked file stage progress cache) :
    match progress with
    | .more stage =>
        Turned request scene { scene with cache } file data before (.checking run stage)
    | .done (some data') =>
        Turned request scene { scene with cache } file data before (.publishing run (.ok data'))
    | .done none =>
        Turned request scene { scene with cache := cache.countFetch } file data before
          (.fetching run) := by
  obtain ⟨leads, early, unfetched | ⟨rfl, here⟩⟩ := fits
  · have absent := looked.of_not_has (sound.not_has unfetched) early
    have same := looked.fetches_eq.trans unfetched
    obtain ⟨tells, keeps, -⟩ := sound.tells.looked (early.sound ..) looked
    match progress with
    | .more stage =>
        refine sound.quiet ?_ tells keeps looked.fetches_eq (fun _ => absent.1)
          ⟨leads, absent.2.1, .inl same⟩
        intro run' leads'
        cases leads.symm.trans leads'
        rfl
    | .done (some contents) => cases absent.2
    | .done none => exact sound.fetching leads unfetched tells keeps same
  · cases looked with
    | remembered found =>
        cases here.symm.trans found
        refine sound.quiet ?_ (sound.tells.countLookup true) (TieredCache.keeps_countLookup ..)
          (TieredCache.fetches_countLookup ..) sound.not_has ⟨leads, rfl, ?_, here⟩
        · intro run' leads'
          cases leads.symm.trans leads'
          rfl
        · exact (TieredCache.fetches_countLookup ..).trans (sound.fetched here)
    | forgotten missing => cases here.symm.trans missing

/-- The leader stores the chunk, and memory is the first to have it. -/
theorem Sound.saved (sound : scene.Sound file data before) {run : Nat} {contents : Bytes}
    {stage : StoreStage} (fits : scene.Fits file data before request (.storing run contents stage))
    {progress : Advance StoreStage Unit} {cache : TieredCache}
    (saved : scene.cache.Saved file contents stage progress cache) :
    Turned request scene { scene with cache } file data before
      (match progress with
        | .more stage => .storing run contents stage
        | .done () => .publishing run (.ok contents)) := by
  obtain ⟨leads, rfl, fetched, stored, now⟩ := fits
  obtain ⟨tells, keeps, stored'⟩ := sound.tells.saved stored saved
  have here : cache.memory.find? file = some contents := by
    obtain rfl | here := now
    · cases saved
      exact TieredCache.find?_offer sound.small
    · exact keeps.memory here
  have fetched' := saved.fetches_eq.trans fetched
  refine sound.quiet ?_ tells keeps saved.fetches_eq (by omega) ?_
  · intro run' leads'
    cases leads.symm.trans leads'
    cases progress <;> rfl
  · match progress with
    | .more stage => exact ⟨leads, rfl, fetched', stored' stage rfl, .inr here⟩
    | .done () => exact ⟨leads, rfl, fetched', here⟩

/-- The leader publishes what it has, and its run is over. -/
theorem Sound.published (sound : scene.Sound file data before) {run : Nat}
    {result : Except ReadError Bytes}
    (fits : scene.Fits file data before request (.publishing run result)) :
    Turned request scene
      { scene with registry := scene.registry.publish file result, lead := none }
      file data before (.ended result) := by
  obtain ⟨leads, rfl, fetched, here⟩ := fits
  have published : scene.registry.publish file (.ok data) =
      scene.registry.finish file run (.published (.ok data)) := by
    unfold Registry.publish
    rw [sound.find?_eq_some_iff.mpr ⟨request, leads⟩]
  have same := Registry.length_finish scene.registry file run (.published (.ok data))
  have pending := sound.pending leads
  have known := Registry.lt_length_of_pending pending
  rw [published]
  refine ⟨⟨.refl .., same.ge, id, id, ?_⟩, ⟨rfl, ?_, ?_⟩,
    ⟨sound.tells, sound.small, ?_, by simp, ?_, ?_⟩, ⟨rfl, fetched⟩, by simp⟩
  · intro other run' different leads'
    cases leads.symm.trans leads'
    exact absurd rfl different
  · intro run' result earlier
    have different : run' ≠ run := by
      rintro rfl
      cases earlier.symm.trans pending
    exact (Registry.channel_finish_of_ne different ..).trans earlier
  · intro leader run' leads'
    cases leads.symm.trans leads'
    exact .inr ⟨_, Registry.channel_finish_self known ..⟩
  · change Table.erase scene.registry.active file = _
    rw [sound.active, leads]
    simp [Table.erase]
  · intro run' known
    refine .inl ⟨?_, fetched⟩
    have known' := known.trans_eq same
    by_cases mine : run' = run
    · subst mine
      exact Registry.channel_finish_self known' ..
    · obtain ⟨published', -⟩ | ⟨-, other, leads'⟩ := sound.channels known'
      · exact (Registry.channel_finish_of_ne mine ..).trans published'
      · cases leads.symm.trans leads'
        exact absurd rfl mine
  · exact .inr ⟨fetched, .inl here⟩

/-- A request takes a step without anything from outside. -/
theorem Sound.advanced (sound : scene.Sound file data before)
    (fits : scene.Fits file data before request state)
    (leads : ∀ {run : Nat}, scene.lead = some (request, run) → state.leads? = some run)
    {cache : TieredCache} {registry : Registry String (Except ReadError Bytes)}
    (advanced : state.Advanced file scene.cache scene.registry next cache registry) :
    ∃ lead, Turned request scene ⟨cache, registry, lead⟩ file data before next := by
  cases advanced with
  | looks looked => exact ⟨_, sound.looked fits (by simpa [RequestState.leads?] using @leads) looked⟩
  | finds looked => exact ⟨_, sound.looked fits (by simpa [RequestState.leads?] using @leads) looked⟩
  | misses looked => exact ⟨_, sound.looked fits (by simpa [RequestState.leads?] using @leads) looked⟩
  | leads missing => exact ⟨_, sound.begun missing request⟩
  | follows found =>
      obtain ⟨other, leads'⟩ := sound.find?_eq_some_iff.mp found
      exact ⟨_, sound.still (fun now => leads now)
        (Registry.lt_length_of_pending (sound.pending leads'))⟩
  | waits pending => exact ⟨_, sound.still leads fits⟩
  | receives published =>
      obtain ⟨published', fetched⟩ | ⟨pending, -⟩ := sound.channels fits
      · cases published.symm.trans published'
        exact ⟨_, sound.still (fun now => leads now) ⟨rfl, fetched⟩⟩
      · cases published.symm.trans pending
  | retries closed =>
      obtain ⟨published, -⟩ | ⟨pending, -⟩ := sound.channels fits
      · cases closed.symm.trans published
      · cases closed.symm.trans pending
  | checks looked => exact ⟨_, sound.checked fits looked⟩
  | discovers looked => exact ⟨_, sound.checked fits looked⟩
  | fetches looked => exact ⟨_, sound.checked fits looked⟩
  | hangs => exact ⟨_, sound.still leads fits⟩
  | saves saved => exact ⟨_, sound.saved fits saved⟩
  | keeps saved => exact ⟨_, sound.saved fits saved⟩
  | publishes => exact ⟨_, sound.published fits⟩
  | rests => exact ⟨_, sound.still leads fits⟩

end Scene

namespace Requests

/-- A request is for a chunk and has come so far. -/
def Has (requests : Requests) (file : String) (request : Nat) (state : RequestState) : Prop :=
  requests.list[request]? = some { file, state }

/-- The requests after one of them has changed its state, the cache and the runs. -/
def changed (requests : Requests) (request : Nat) (state : RequestState) (cache : TieredCache)
    (registry : Registry String (Except ReadError Bytes)) : Requests :=
  { requests.put request state with cache, registry }

section Changing

variable {requests : Requests} {file file' : String} {request other run : Nat}
  {state state' next : RequestState} {cache : TieredCache}
  {registry : Registry String (Except ReadError Bytes)}

theorem Has.unique (has : requests.Has file request state)
    (has' : requests.Has file' request state') : state = state' := by
  cases has.symm.trans has'
  rfl

theorem has_changed_iff (known : requests.Has file request state) :
    (requests.changed request next cache registry).Has file other state' ↔
      other = request ∧ state' = next ∨ other ≠ request ∧ requests.Has file other state' := by
  refine (getElem?_modify_eq_some_iff known _).trans ?_
  simp [Has]

theorem step_advance (known : requests.Has file request state) :
    ∃ next cache registry,
      state.Advanced file requests.cache requests.registry next cache registry ∧
      requests.step (.advance request) = requests.changed request next cache registry := by
  refine ⟨_, _, _, state.advanced file requests.cache requests.registry, ?_⟩
  change requests.advance request = _
  unfold advance
  rw [show requests.list[request]? = _ from known]
  rfl

theorem step_answer (known : requests.Has file request (.fetching run)) (data : Bytes) :
    requests.step (.answer request (.ok data)) =
      requests.changed request (.storing run data .memory) requests.cache requests.registry := by
  change requests.answer request (.ok data) = _
  unfold answer state?
  rw [show requests.list[request]? = _ from known]
  rfl

theorem step_answer_of_ne (known : requests.Has file request state)
    (busy : ∀ run, state ≠ .fetching run) (result : Except FetchError Bytes) :
    requests.step (.answer request result) = requests := by
  change requests.answer request result = _
  unfold answer state?
  rw [show requests.list[request]? = _ from known]
  cases state <;> first | rfl | exact absurd rfl (busy _)

end Changing

/-- A step of requests for one chunk, all of which go on until the source gives them some data. -/
inductive Smooth (file : String) (data : Bytes) : RequestStep → Prop where
  | arrive : Smooth file data (.arrive file)
  | advance (request : Nat) : Smooth file data (.advance request)
  | answer (request : Nat) : Smooth file data (.answer request (.ok data))

/-- What holds of requests for a chunk of which a cache knew nothing after `before` fetches. -/
structure Sound (requests : Requests) (file : String) (data : Bytes) (before : Nat)
    (lead : Option (Nat × Nat)) : Prop where
  files : ∀ it ∈ requests.list, it.file = file
  scene : Scene.Sound ⟨requests.cache, requests.registry, lead⟩ file data before
  fits : ∀ {request : Nat} {state : RequestState}, requests.Has file request state →
    Scene.Fits ⟨requests.cache, requests.registry, lead⟩ file data before request state
  leader : ∀ {request run : Nat}, lead = some (request, run) →
    ∃ state, requests.Has file request state ∧ state.leads? = some run

variable {requests : Requests} {file : String} {data : Bytes} {before request run : Nat}
  {lead : Option (Nat × Nat)} {state next : RequestState} {step : RequestStep}

theorem sound_empty {cache : TieredCache} (absent : cache.has file = false)
    (small : data.length ≤ cache.memory.partLimit) :
    Sound { cache } file data cache.counters.fetches none := by
  refine ⟨by simp, ⟨TieredCache.tells_of_not_has absent, small, rfl, by simp, ?_, ?_⟩, ?_, by simp⟩
  · intro run known
    exact absurd known (Nat.not_lt_zero run)
  · exact .inl ⟨rfl, absent⟩
  · intro request state has
    cases has

theorem Sound.exists_has (sound : requests.Sound file data before lead)
    (known : request < requests.list.length) : ∃ state, requests.Has file request state := by
  have here := List.getElem?_eq_getElem known
  have mine := sound.files _ (List.getElem_mem known)
  generalize requests.list[request] = it at here mine
  obtain ⟨file', state⟩ := it
  cases mine
  exact ⟨state, here⟩

theorem Sound.leads (sound : requests.Sound file data before lead)
    (known : requests.Has file request state) (leads : lead = some (request, run)) :
    state.leads? = some run := by
  obtain ⟨state', has, leads'⟩ := sound.leader leads
  rwa [known.unique has]

/-- A request has its turn, and the others make do with what it leaves. -/
theorem Sound.turned (sound : requests.Sound file data before lead)
    (known : requests.Has file request state) {cache : TieredCache}
    {registry : Registry String (Except ReadError Bytes)} {lead' : Option (Nat × Nat)}
    (turned : Scene.Turned request ⟨requests.cache, requests.registry, lead⟩
      ⟨cache, registry, lead'⟩ file data before next) :
    (requests.changed request next cache registry).Sound file data before lead' := by
  refine ⟨?_, turned.sound, ?_, ?_⟩
  · intro it member
    obtain ⟨other, here⟩ := List.mem_iff_getElem?.mp member
    obtain ⟨-, rfl⟩ | ⟨-, before⟩ := (getElem?_modify_eq_some_iff known _).mp here
    · rfl
    · exact sound.files it (List.mem_of_getElem? before)
  · intro other state' has
    obtain ⟨rfl, rfl⟩ | ⟨different, has'⟩ := (has_changed_iff known).mp has
    · exact turned.fits
    · exact (sound.fits has').leaves turned.leaves different
  · intro other run leads
    obtain ⟨rfl, leads'⟩ | ⟨different, leads'⟩ := turned.lead leads
    · exact ⟨next, (has_changed_iff known).mpr (.inl ⟨rfl, rfl⟩), leads'⟩
    · obtain ⟨state', has, mine⟩ := sound.leader leads'
      exact ⟨state', (has_changed_iff known).mpr (.inr ⟨different, has⟩), mine⟩

theorem has_arrive_iff : (requests.arrive file).Has file request state ↔
    requests.Has file request state ∨
      request = requests.list.length ∧ state = .looking .memory := by
  refine getElem?_concat_eq_some_iff.trans ?_
  simp [Has]

theorem Sound.arrive (sound : requests.Sound file data before lead) :
    (requests.arrive file).Sound file data before lead := by
  refine ⟨?_, sound.scene, ?_, ?_⟩
  · intro it member
    obtain old | new := List.mem_append.mp member
    · exact sound.files it old
    · cases List.mem_singleton.mp new
      rfl
  · intro request state has
    obtain old | ⟨-, rfl⟩ := has_arrive_iff.mp has
    · exact sound.fits old
    · exact ⟨trivial, fun _ => trivial⟩
  · intro request run leads
    obtain ⟨state, has, mine⟩ := sound.leader leads
    exact ⟨state, has_arrive_iff.mpr (.inl has), mine⟩

theorem step_advance_of_le (beyond : requests.list.length ≤ request) :
    requests.step (.advance request) = requests := by
  change requests.advance request = _
  unfold advance
  rw [List.getElem?_eq_none beyond]

theorem step_answer_of_le (beyond : requests.list.length ≤ request)
    (result : Except FetchError Bytes) : requests.step (.answer request result) = requests := by
  change requests.answer request result = _
  unfold answer state?
  rw [List.getElem?_eq_none beyond]
  rfl

theorem Sound.answered (sound : requests.Sound file data before lead)
    (known : requests.Has file request (.fetching run)) :
    Scene.Turned request ⟨requests.cache, requests.registry, lead⟩
      ⟨requests.cache, requests.registry, lead⟩ file data before (.storing run data .memory) := by
  obtain ⟨leads, fetched⟩ := sound.fits known
  have mine {run' : Nat} (now : lead = some (request, run')) :
      (RequestState.fetching run).leads? = some run' := sound.leads known now
  exact sound.scene.still mine ⟨leads, rfl, fetched, trivial, .inl rfl⟩

/-- What a step of requests for one chunk comes to. -/
inductive Stepped (requests : Requests) (file : String) (data : Bytes) :
    RequestStep → Requests → Prop where
  | idle (step : RequestStep) : Stepped requests file data step requests
  | arrived : Stepped requests file data (.arrive file) (requests.arrive file)
  | advanced {request : Nat} {state next : RequestState} {cache : TieredCache}
      {registry : Registry String (Except ReadError Bytes)} (has : requests.Has file request state)
      (advanced : state.Advanced file requests.cache requests.registry next cache registry) :
      Stepped requests file data (.advance request) (requests.changed request next cache registry)
  | answered {request run : Nat} (has : requests.Has file request (.fetching run)) :
      Stepped requests file data (.answer request (.ok data))
        (requests.changed request (.storing run data .memory) requests.cache requests.registry)

theorem Sound.stepped (sound : requests.Sound file data before lead)
    (smooth : Smooth file data step) : requests.Stepped file data step (requests.step step) := by
  cases smooth with
  | arrive => exact .arrived
  | advance request =>
      obtain known | beyond := Nat.lt_or_ge request requests.list.length
      · obtain ⟨state, has⟩ := sound.exists_has known
        obtain ⟨next, cache, registry, advanced, same⟩ := step_advance has
        rw [same]
        exact .advanced has advanced
      · rw [step_advance_of_le beyond]
        exact .idle _
  | answer request =>
      obtain known | beyond := Nat.lt_or_ge request requests.list.length
      · obtain ⟨state, has⟩ := sound.exists_has known
        by_cases busy : ∃ run, state = .fetching run
        · obtain ⟨run, rfl⟩ := busy
          rw [step_answer has data]
          exact .answered has
        · rw [step_answer_of_ne has (fun run same => busy ⟨run, same⟩)]
          exact .idle _
      · rw [step_answer_of_le beyond]
        exact .idle _

theorem sound_step (sound : requests.Sound file data before lead)
    (smooth : Smooth file data step) :
    ∃ lead', (requests.step step).Sound file data before lead' ∧
      Scene.Onward ⟨requests.cache, requests.registry, lead⟩
        ⟨(requests.step step).cache, (requests.step step).registry, lead'⟩ := by
  have stepped := sound.stepped smooth
  generalize requests.step step = later at stepped
  cases stepped with
  | idle => exact ⟨lead, sound, rfl, id, .inl⟩
  | arrived => exact ⟨lead, sound.arrive, rfl, id, .inl⟩
  | advanced has advanced =>
      obtain ⟨lead', turned⟩ := sound.scene.advanced (sound.fits has) (sound.leads has) advanced
      exact ⟨lead', sound.turned has turned, turned.onward⟩
  | answered has => exact ⟨lead, sound.turned has (sound.answered has), rfl, id, .inl⟩

end Requests

end Haystack
