import Haystack.Proofs.Flight.Fetching

/-!
# A request that is left alone

If no other request takes a step meanwhile and nobody fetches the chunk already, then the steps of
a request together are what getting the chunk from the cache or from its source is as a whole.
-/

namespace Haystack

namespace Registry

variable {κ ρ : Type} [DecidableEq κ] {registry : Registry κ ρ} {key : κ}

/-- The registry after a run has begun and its result has been published. -/
def published (registry : Registry κ ρ) (key : κ) (result : ρ) : Registry κ ρ :=
  (registry.begun key).publish key result

theorem published_eq (registry : Registry κ ρ) (key : κ) (result : ρ) :
    registry.published key result =
      (registry.begun key).finish key registry.channels.length (.published result) := by
  unfold published publish
  rw [show (registry.begun key).active.find? key = _ from Table.find?_insert_self ..]

theorem find?_published (missing : registry.active.find? key = none) (result : ρ) (other : κ) :
    (registry.published key result).active.find? other = registry.active.find? other := by
  rw [published_eq]
  by_cases same : other = key
  · subst same
    rw [missing]
    exact Table.find?_erase_self ..
  · exact (Table.find?_erase_of_ne _ same).trans (Table.find?_insert_of_ne _ _ same)

theorem channel_published {run : Nat} (known : run < registry.channels.length) (result : ρ) :
    (registry.published key result).channel run = registry.channel run := by
  rw [published_eq, channel_finish_of_ne known.ne, channel_begun_of_lt known]

end Registry

namespace Requests

/-- One request takes some steps, in which the source may answer it, and no other takes any. -/
inductive Goes (request : Nat) (answer : Except FetchError Bytes) : Requests → Requests → Prop where
  | stays (requests : Requests) : Goes request answer requests requests
  | advances {requests later : Requests}
      (rest : Goes request answer (requests.step (.advance request)) later) :
      Goes request answer requests later
  | answered {requests later : Requests}
      (rest : Goes request answer (requests.step (.answer request answer)) later) :
      Goes request answer requests later

variable {requests later : Requests} {file : String} {request : Nat} {state state' : RequestState}
  {answer : Except FetchError Bytes} {cache cache' : TieredCache}
  {registry : Registry String (Except ReadError Bytes)}

theorem Goes.trans {middle : Requests} (first : Goes request answer requests middle)
    (second : Goes request answer middle later) : Goes request answer requests later := by
  induction first with
  | stays => exact second
  | advances _ rest => exact .advances (rest second)
  | answered _ rest => exact .answered (rest second)

theorem changed_changed (requests : Requests) (request : Nat) (state next : RequestState)
    (cache cache' : TieredCache) (registry registry' : Registry String (Except ReadError Bytes)) :
    (requests.changed request state cache registry).changed request next cache' registry' =
      requests.changed request next cache' registry' := by
  unfold changed put
  rw [List.modify_modify_eq]
  rfl

theorem changed_self (known : requests.Has file request state) :
    requests.changed request state requests.cache requests.registry = requests := by
  have same : requests.list.modify request (fun it => { it with state }) = requests.list := by
    apply List.ext_getElem?
    intro other
    by_cases here : other = request
    · subst here
      rw [List.getElem?_modify_eq, show requests.list[other]? = _ from known]
      rfl
    · rw [List.getElem?_modify_ne _ _ (Ne.symm here)]
  unfold changed put
  rw [same]

theorem goes_advance (known : requests.Has file request state') :
    Goes request answer (requests.changed request state cache registry)
      (requests.changed request (state.advance file cache registry).1
        (state.advance file cache registry).2.1 (state.advance file cache registry).2.2) := by
  have has : (requests.changed request state cache registry).Has file request state :=
    (has_changed_iff known).mpr (.inl ⟨rfl, rfl⟩)
  have step : (requests.changed request state cache registry).step (.advance request) =
      (requests.changed request state cache registry).changed request
        (state.advance file cache registry).1 (state.advance file cache registry).2.1
        (state.advance file cache registry).2.2 := by
    change (requests.changed request state cache registry).advance request = _
    unfold advance
    rw [show (requests.changed request state cache registry).list[request]? = _ from has]
    rfl
  refine .advances ?_
  rw [step, changed_changed]
  exact .stays _

/-- What the leader of a run turns to when the source has answered. -/
def turnsTo (run : Nat) : Except FetchError Bytes → RequestState
  | .ok data => .storing run data .memory
  | .error problem => .publishing run (.error (.fetch problem))

theorem goes_answer (known : requests.Has file request state') {run : Nat} :
    Goes request answer (requests.changed request (.fetching run) cache registry)
      (requests.changed request (turnsTo run answer) cache registry) := by
  have has : (requests.changed request (.fetching run) cache registry).Has file request
      (.fetching run) := (has_changed_iff known).mpr (.inl ⟨rfl, rfl⟩)
  have step : (requests.changed request (.fetching run) cache registry).step
      (.answer request answer) = (requests.changed request (.fetching run) cache registry).changed
        request (turnsTo run answer) cache registry := by
    change (requests.changed request (.fetching run) cache registry).answer request answer = _
    unfold Requests.answer state?
    rw [show (requests.changed request (.fetching run) cache registry).list[request]? = _ from has]
    cases answer <;> rfl
  refine .answered ?_
  rw [step, changed_changed]
  exact .stays _

/-- A request goes through stages with nothing between them. -/
theorem goes_undisturbed {σ α : Type} {step : TieredCache → σ → Advance σ α × TieredCache}
    (stages : σ → RequestState) (next : α → RequestState) (after : α → TieredCache → TieredCache)
    (known : requests.Has file request state')
    (advances : ∀ cache stage, (stages stage).advance file cache registry =
      match step cache stage with
      | (.more stage, cache) => (stages stage, cache, registry)
      | (.done result, cache) => (next result, after result cache, registry))
    {stage : σ} {result : α} (undisturbed : Undisturbed step cache stage result cache') :
    Goes request answer (requests.changed request (stages stage) cache registry)
      (requests.changed request (next result) (after result cache') registry) := by
  induction undisturbed with
  | last here =>
      refine (goes_advance known).trans ?_
      rw [advances, here]
      exact .stays _
  | next here _ rest =>
      refine (goes_advance known).trans ?_
      rw [advances, here]
      exact rest

theorem goes_lookup (known : requests.Has file request state') {found : Option Bytes}
    (lookup : cache.lookup file = (found, cache')) :
    Goes request answer (requests.changed request (.looking .memory) cache registry)
      (requests.changed request (found.elim .joining (.ended <| .ok ·)) cache' registry) := by
  have whole := cache.look_undisturbed file
  rw [lookup] at whole
  refine goes_undisturbed .looking (·.elim .joining (.ended <| .ok ·)) (fun _ cache => cache) known
    ?_ whole
  intro cache stage
  dsimp only [RequestState.advance]
  rcases cache.look file stage with ⟨_ | _ | _, later⟩ <;> rfl

theorem goes_check (known : requests.Has file request state') {run : Nat} {found : Option Bytes}
    (lookup : cache.lookup file = (found, cache')) :
    Goes request answer (requests.changed request (.checking run .memory) cache registry)
      (requests.changed request (found.elim (.fetching run) (.publishing run <| .ok ·))
        (found.elim cache'.countFetch fun _ => cache') registry) := by
  have whole := cache.look_undisturbed file
  rw [lookup] at whole
  refine goes_undisturbed (.checking run) (·.elim (.fetching run) (.publishing run <| .ok ·))
    (fun found cache => found.elim cache.countFetch fun _ => cache) known ?_ whole
  intro cache stage
  dsimp only [RequestState.advance]
  rcases cache.look file stage with ⟨_ | _ | _, later⟩ <;> rfl

theorem goes_store (known : requests.Has file request state') {run : Nat} (data : Bytes) :
    Goes request answer (requests.changed request (.storing run data .memory) cache registry)
      (requests.changed request (.publishing run (.ok data)) (cache.store file data) registry) := by
  refine goes_undisturbed (.storing run data) (fun _ => .publishing run (.ok data))
    (fun _ cache => cache) known ?_ (cache.save_undisturbed file data)
  intro cache stage
  dsimp only [RequestState.advance]
  rcases cache.save file data stage with ⟨_ | _, later⟩ <;> rfl

theorem goes_fetch (known : requests.Has file request state') {run : Nat} (source : ChunkSource) :
    Goes request (source file) (requests.changed request (.fetching run) cache.countFetch registry)
      (requests.changed request (.ended (cache.fetch source file).1) (cache.fetch source file).2
        (registry.publish file (cache.fetch source file).1)) := by
  refine (goes_answer known).trans ?_
  unfold TieredCache.fetch
  cases source file with
  | error problem => exact goes_advance known
  | ok data => exact (goes_store known data).trans (goes_advance known)

/-- A request for a chunk that nobody fetches already is answered as the cache and the source
answer it, and leaves no run behind. -/
theorem goes_getOrFetch (known : requests.Has file request state') (source : ChunkSource)
    (missing : registry.active.find? file = none) :
    ∃ later : Registry String (Except ReadError Bytes),
      (∀ key, later.active.find? key = registry.active.find? key) ∧
      (∀ run < registry.channels.length, later.channel run = registry.channel run) ∧
      Goes request (source file) (requests.changed request (.looking .memory) cache registry)
        (requests.changed request (.ended (cache.getOrFetch source false file).1)
          (cache.getOrFetch source false file).2 later) := by
  unfold TieredCache.getOrFetch
  rcases first : cache.lookup file with ⟨_ | data, middle⟩ <;>
    dsimp only
  · have joins : Goes request (source file) (requests.changed request .joining middle registry)
        (requests.changed request (.checking registry.channels.length .memory) middle
          (registry.begun file)) := by
      have step := @goes_advance requests file request .joining state' (source file) middle
        registry known
      dsimp only [RequestState.advance] at step
      rwa [Registry.join_of_none missing] at step
    have leads := (goes_lookup known first).trans joins
    rcases second : middle.lookup file with ⟨_ | data, last⟩
    · refine ⟨registry.published file (last.fetch source file).1,
        Registry.find?_published missing _,
        fun run known => Registry.channel_published known _, ?_⟩
      exact (leads.trans (goes_check known second)).trans (goes_fetch known source)
    · refine ⟨registry.published file (.ok data), Registry.find?_published missing _,
        fun run known => Registry.channel_published known _, ?_⟩
      exact (leads.trans (goes_check known second)).trans (goes_advance known)
  · exact ⟨registry, fun _ => rfl, fun _ _ => rfl, goes_lookup known first⟩

/-- A request that arrives when nobody fetches its chunk and is then left alone. -/
theorem arrive_left_alone (requests : Requests) (source : ChunkSource)
    (missing : requests.registry.active.find? file = none) :
    ∃ later : Registry String (Except ReadError Bytes),
      (∀ key, later.active.find? key = requests.registry.active.find? key) ∧
      (∀ run < requests.registry.channels.length,
        later.channel run = requests.registry.channel run) ∧
      Goes requests.list.length (source file) (requests.arrive file)
        ((requests.arrive file).changed requests.list.length
          (.ended (requests.cache.getOrFetch source false file).1)
          (requests.cache.getOrFetch source false file).2 later) := by
  have known : (requests.arrive file).Has file requests.list.length (.looking .memory) :=
    has_arrive_iff.mpr (.inr ⟨rfl, rfl⟩)
  obtain ⟨later, active, channels, goes⟩ :=
    @goes_getOrFetch _ file _ _ requests.cache requests.registry known source missing
  refine ⟨later, active, channels, ?_⟩
  have start : (requests.arrive file).changed requests.list.length (.looking .memory)
      requests.cache requests.registry = requests.arrive file := changed_self known
  rwa [start] at goes

end Requests

end Haystack
