import Haystack.Proofs.Flight.Fetching

/-!
# One fetch serves all requests

Requests for a chunk that a cache does not know take their steps in any order. The chunk is fetched
once, and whoever gets a result gets the chunk. If every request has its turn again and again and
the source answers, then all requests come to their end: each step brings a request closer to it,
unless the request waits for a leader, and the leader's run comes to an end in the same way.
-/

namespace Haystack

/-- How many stages of a look-up may follow. -/
def LookStage.rank (tiers : Nat) : LookStage → Nat
  | .memory => 3 * tiers + 2
  | .index place => 3 * (tiers - place) + 1
  | .file place => 3 * (tiers - place)
  | .unreadable place => 3 * (tiers - place) - 1
  | .found _ => 0

theorem TieredCache.ShowsAt.lt_length {cache : TieredCache} {place : Nat} {file : String}
    {data : Bytes} (shows : cache.ShowsAt place file data) : place < cache.disks.length := by
  obtain ⟨tier, here, -⟩ := shows
  exact (List.getElem?_eq_some_iff.mp here).1

theorem TieredCache.Looked.rank_lt {cache later : TieredCache} {file : String} {data : Bytes}
    {stage stage' : LookStage} (looked : cache.Looked file stage (.more stage') later)
    (sound : stage.Sound cache file data) :
    stage'.rank cache.disks.length < stage.rank cache.disks.length := by
  cases looked with
  | forgotten => simp [LookStage.rank]
  | known here =>
      have bound := (List.getElem?_eq_some_iff.mp here).1
      simp [LookStage.rank]
  | unknown here =>
      have bound := (List.getElem?_eq_some_iff.mp here).1
      simp only [LookStage.rank]
      omega
  | read here =>
      have bound := (List.getElem?_eq_some_iff.mp here).1
      simp only [LookStage.rank]
      omega
  | unreadable =>
      have bound := sound.lt_length
      simp only [LookStage.rank]
      omega
  | dropped =>
      have bound := sound.lt_length
      simp only [LookStage.rank]
      omega

/-- How many stages of storing a chunk may follow. -/
def StoreStage.rank : StoreStage → Nat
  | .memory => 2
  | .file => 1
  | .index => 0

theorem TieredCache.Saved.rank_lt {cache later : TieredCache} {file : String} {data : Bytes}
    {stage stage' : StoreStage} (saved : cache.Saved file data stage (.more stage') later) :
    stage'.rank < stage.rank := by
  cases saved <;> simp [StoreStage.rank]

namespace RequestState

/-- How many steps a request may need to its end, if it waits for a run that ends with a result. -/
def rank (tiers : Nat) : RequestState → Nat
  | .ended _ => 0
  | .waiting _ | .publishing _ _ => 1
  | .storing _ _ stage => 2 + stage.rank
  | .fetching _ => 5
  | .checking _ stage => 6 + stage.rank tiers
  | .joining => 9 + 3 * tiers
  | .looking stage => 10 + 3 * tiers + stage.rank tiers

/-- A request is where it was or closer to its end. -/
def Nears (tiers : Nat) (state next : RequestState) : Prop :=
  next = state ∨ next.rank tiers < state.rank tiers

theorem Nears.trans {tiers : Nat} {state middle next : RequestState}
    (first : Nears tiers state middle) (second : Nears tiers middle next) :
    Nears tiers state next := by
  obtain rfl | lower := first
  · exact second
  · obtain rfl | lower' := second
    · exact .inr lower
    · exact .inr (lower'.trans lower)

/-- The step that a request needs. -/
def due (request : Nat) (data : Bytes) : RequestState → RequestStep
  | .fetching _ => .answer request (.ok data)
  | _ => .advance request

theorem due_of_ne_fetching {state : RequestState} (idle : ∀ run, state ≠ .fetching run)
    (request : Nat) (data : Bytes) : state.due request data = .advance request := by
  unfold due
  split
  · exact absurd rfl (idle _)
  · rfl

end RequestState

/-- A step brings a request closer to its end, or the request waits for someone or is there. -/
theorem Scene.Sound.rank_lt {scene : Scene} {file : String} {data : Bytes} {before request : Nat}
    {state next : RequestState} {cache : TieredCache}
    {registry : Registry String (Except ReadError Bytes)} (sound : scene.Sound file data before)
    (fits : scene.Fits file data before request state)
    (advanced : state.Advanced file scene.cache scene.registry next cache registry) :
    next.rank scene.cache.disks.length < state.rank scene.cache.disks.length ∨
      next = state ∧ ((∃ run, state = .waiting run ∧ scene.registry.channel run = .pending) ∨
        (∃ run, state = .fetching run) ∨ ∃ result, state = .ended result) := by
  cases advanced with
  | looks looked => exact .inl (Nat.add_lt_add_left (looked.rank_lt fits.1) _)
  | checks looked => exact .inl (Nat.add_lt_add_left (looked.rank_lt (fits.2.1.sound _ _ data)) _)
  | saves saved => exact .inl (Nat.add_lt_add_left saved.rank_lt _)
  | leads =>
      simp only [RequestState.rank, LookStage.rank]
      omega
  | finds | misses | follows | receives | discovers | fetches | keeps | publishes =>
      simp only [RequestState.rank]
      omega
  | retries closed =>
      obtain ⟨published, -⟩ | ⟨pending, -⟩ := sound.channels fits
      · cases closed.symm.trans published
      · cases closed.symm.trans pending
  | waits pending => exact .inr ⟨rfl, .inl ⟨_, rfl, pending⟩⟩
  | hangs run => exact .inr ⟨rfl, .inr (.inl ⟨run, rfl⟩)⟩
  | rests result => exact .inr ⟨rfl, .inr (.inr ⟨result, rfl⟩)⟩

theorem Scene.Onward.trans {scene middle later : Scene} (first : scene.Onward middle)
    (second : middle.Onward later) : scene.Onward later := by
  refine ⟨second.tiers.trans first.tiers, fun published => second.published (first.published published),
    ?_⟩
  intro leader run leads
  obtain still | ⟨result, published⟩ := first.leader leads
  · exact second.leader still
  · exact .inr ⟨result, second.published published⟩

namespace Requests

variable {requests : Requests} {file : String} {data : Bytes} {before request run : Nat}
  {lead : Option (Nat × Nat)} {state : RequestState} {step : RequestStep}

/-- A step of whatever request takes no request away from its end. -/
theorem Sound.nears_step (sound : requests.Sound file data before lead)
    (smooth : Smooth file data step) (has : requests.Has file request state) :
    ∃ next, (requests.step step).Has file request next ∧
      state.Nears requests.cache.disks.length next := by
  have turned {other : Nat} {state' next : RequestState} {cache : TieredCache}
      {registry : Registry String (Except ReadError Bytes)} (known : requests.Has file other state')
      (nears : state'.Nears requests.cache.disks.length next) :
      ∃ next', (requests.changed other next cache registry).Has file request next' ∧
        state.Nears requests.cache.disks.length next' := by
    by_cases here : request = other
    · subst here
      cases known.unique has
      exact ⟨next, (has_changed_iff known).mpr (.inl ⟨rfl, rfl⟩), nears⟩
    · exact ⟨state, (has_changed_iff known).mpr (.inr ⟨here, has⟩), .inl rfl⟩
  have stepped := sound.stepped smooth
  generalize requests.step step = later at stepped
  cases stepped with
  | idle => exact ⟨state, has, .inl rfl⟩
  | arrived => exact ⟨state, has_arrive_iff.mpr (.inl has), .inl rfl⟩
  | advanced has' advanced =>
      exact turned has' ((sound.scene.rank_lt (sound.fits has') advanced).symm.imp_left And.left)
  | answered has' => exact turned has' (.inr (by simp [RequestState.rank, StoreStage.rank]))

/-- The step that a request needs brings it closer to its end. -/
theorem Sound.rank_due (sound : requests.Sound file data before lead)
    (has : requests.Has file request state) (unfinished : ∀ result, state ≠ .ended result)
    (ready : ∀ run, state = .waiting run → requests.registry.channel run ≠ .pending) :
    ∃ next, (requests.step (state.due request data)).Has file request next ∧
      next.rank requests.cache.disks.length < state.rank requests.cache.disks.length := by
  by_cases busy : ∃ run, state = .fetching run
  · obtain ⟨run, rfl⟩ := busy
    refine ⟨.storing run data .memory, ?_, by simp [RequestState.rank, StoreStage.rank]⟩
    rw [RequestState.due, step_answer has data]
    exact (has_changed_iff has).mpr (.inl ⟨rfl, rfl⟩)
  · obtain ⟨next, cache, registry, advanced, same⟩ := step_advance has
    rw [RequestState.due_of_ne_fetching fun run same => busy ⟨run, same⟩, same]
    refine ⟨next, (has_changed_iff has).mpr (.inl ⟨rfl, rfl⟩), ?_⟩
    obtain closer | ⟨-, ⟨run, waits, pending⟩ | fetching | ⟨result, ended⟩⟩ :=
      sound.scene.rank_lt (sound.fits has) advanced
    · exact closer
    · exact absurd pending (ready run waits)
    · exact absurd fetching busy
    · exact absurd ended (unfinished result)

/-- The requests after so many steps of a schedule. -/
def follow (start : Requests) (schedule : Nat → RequestStep) : Nat → Requests
  | 0 => start
  | time + 1 => (follow start schedule time).step (schedule time)

/-- Every request has its turn again and again, and the source answers every fetch. -/
structure Fair (start : Requests) (schedule : Nat → RequestStep) (data : Bytes) : Prop where
  turns : ∀ {time request : Nat}, request < (follow start schedule time).list.length →
    ∃ later, time ≤ later ∧ schedule later = .advance request
  answers : ∀ {time request run : Nat},
    (follow start schedule time).state? request = some (.fetching run) →
    ∃ later, time ≤ later ∧ schedule later = .answer request (.ok data)

theorem Has.state? (has : requests.Has file request state) :
    requests.state? request = some state := by
  unfold Requests.state?
  rw [show requests.list[request]? = _ from has]
  rfl

theorem Sound.has_of_state? (sound : requests.Sound file data before lead)
    (here : requests.state? request = some state) : requests.Has file request state := by
  obtain ⟨⟨file', state'⟩, known, same⟩ := Option.map_eq_some_iff.mp here
  cases sound.files _ (List.mem_of_getElem? known)
  cases same
  exact known

section Following

variable {start : Requests} {schedule : Nat → RequestStep} {time later : Nat}

theorem follow_onward (smooth : ∀ time, Smooth file data (schedule time))
    (sound : (follow start schedule time).Sound file data before lead) (after : time ≤ later) :
    ∃ lead', (follow start schedule later).Sound file data before lead' ∧
      Scene.Onward ⟨(follow start schedule time).cache, (follow start schedule time).registry, lead⟩
        ⟨(follow start schedule later).cache, (follow start schedule later).registry, lead'⟩ := by
  induction later, after using Nat.le_induction with
  | base => exact ⟨lead, sound, rfl, id, .inl⟩
  | succ later _ onward =>
      obtain ⟨middle, sound', first⟩ := onward
      obtain ⟨lead', sound'', second⟩ := sound_step sound' (smooth later)
      exact ⟨lead', sound'', first.trans second⟩

theorem follow_nears (smooth : ∀ time, Smooth file data (schedule time))
    (sound : (follow start schedule time).Sound file data before lead)
    (has : (follow start schedule time).Has file request state) (after : time ≤ later) :
    ∃ next, (follow start schedule later).Has file request next ∧
      state.Nears (follow start schedule time).cache.disks.length next := by
  induction later, after using Nat.le_induction with
  | base => exact ⟨state, has, .inl rfl⟩
  | succ later after nears =>
      obtain ⟨middle, has', first⟩ := nears
      obtain ⟨lead', sound', onward⟩ := follow_onward smooth sound after
      obtain ⟨next, has'', second⟩ := sound'.nears_step (smooth later) has'
      rw [onward.tiers] at second
      exact ⟨next, has'', first.trans second⟩

theorem Fair.due (fair : Fair start schedule data)
    (has : (follow start schedule time).Has file request state) :
    ∃ later, time ≤ later ∧ schedule later = state.due request data := by
  by_cases busy : ∃ run, state = .fetching run
  · obtain ⟨run, rfl⟩ := busy
    exact fair.answers has.state?
  · rw [RequestState.due_of_ne_fetching fun run same => busy ⟨run, same⟩]
    exact fair.turns (List.getElem?_eq_some_iff.mp has).1

/-- A request that waits for nobody comes closer to its end. -/
theorem exists_closer (smooth : ∀ time, Smooth file data (schedule time))
    (fair : Fair start schedule data)
    (sound : (follow start schedule time).Sound file data before lead)
    (has : (follow start schedule time).Has file request state)
    (unfinished : ∀ result, state ≠ .ended result)
    (ready : ∀ run, state = .waiting run →
      ∃ result, (follow start schedule time).registry.channel run = .published result) :
    ∃ later next, time ≤ later ∧ (follow start schedule later).Has file request next ∧
      next.rank (follow start schedule time).cache.disks.length <
        state.rank (follow start schedule time).cache.disks.length := by
  obtain ⟨later, after, now⟩ := fair.due has
  obtain ⟨next, has', rfl | lower⟩ := follow_nears smooth sound has after
  · obtain ⟨lead', sound', onward⟩ := follow_onward smooth sound after
    have ready' (run : Nat) (waits : next = .waiting run) :
        (follow start schedule later).registry.channel run ≠ .pending := by
      obtain ⟨result, published⟩ := ready run waits
      simp [show _ = Channel.published result from onward.published published]
    obtain ⟨next', has'', lower⟩ := sound'.rank_due has' unfinished ready'
    rw [onward.tiers] at lower
    refine ⟨later + 1, next', Nat.le_succ_of_le after, ?_, lower⟩
    unfold follow
    rwa [now]
  · exact ⟨later, next, after, has', lower⟩

/-- A run under way ends with a result. -/
theorem exists_published (smooth : ∀ time, Smooth file data (schedule time))
    (fair : Fair start schedule data)
    (sound : (follow start schedule time).Sound file data before lead)
    (has : (follow start schedule time).Has file request state)
    (leads : lead = some (request, run)) :
    ∃ later, time ≤ later ∧
      ∃ result, (follow start schedule later).registry.channel run = .published result := by
  -- By how far the leader is from its end, since a leader waits for nobody but the source.
  induction rank : state.rank (follow start schedule time).cache.disks.length using
    Nat.strong_induction_on generalizing time state lead with
  | h rank closer =>
      subst rank
      have mine := sound.leads has leads
      obtain ⟨later, next, after, has', lower⟩ := exists_closer smooth fair sound has
        (by rintro result rfl; cases mine) (by rintro run' rfl; cases mine)
      obtain ⟨lead', sound', onward⟩ := follow_onward smooth sound after
      obtain still | published := onward.leader leads
      · rw [← onward.tiers] at lower closer
        obtain ⟨last, after', published⟩ := closer _ lower sound' has' still rfl
        exact ⟨last, after.trans after', published⟩
      · exact ⟨later, after, published⟩

/-- Whoever waits for a run finds its result at some time. -/
theorem exists_ready (smooth : ∀ time, Smooth file data (schedule time))
    (fair : Fair start schedule data)
    (sound : (follow start schedule time).Sound file data before lead)
    (has : (follow start schedule time).Has file request state) :
    ∃ later, time ≤ later ∧ ∀ run, state = .waiting run →
      ∃ result, (follow start schedule later).registry.channel run = .published result := by
  by_cases waits : ∃ run, state = .waiting run
  · obtain ⟨run, rfl⟩ := waits
    obtain ⟨published, -⟩ | ⟨-, leader, leads⟩ := sound.scene.channels (sound.fits has)
    · refine ⟨time, le_rfl, ?_⟩
      rintro run' ⟨⟩
      exact ⟨_, published⟩
    · obtain ⟨state', has', -⟩ := sound.leader leads
      obtain ⟨later, after, published⟩ := exists_published smooth fair sound has' leads
      refine ⟨later, after, ?_⟩
      rintro run' ⟨⟩
      exact published
  · exact ⟨time, le_rfl, fun run same => absurd ⟨run, same⟩ waits⟩

/-- Every request comes to its end. -/
theorem exists_ended (smooth : ∀ time, Smooth file data (schedule time))
    (fair : Fair start schedule data)
    (sound : (follow start schedule time).Sound file data before lead)
    (has : (follow start schedule time).Has file request state) :
    ∃ later, time ≤ later ∧
      ∃ result, (follow start schedule later).Has file request (.ended result) := by
  induction rank : state.rank (follow start schedule time).cache.disks.length using
    Nat.strong_induction_on generalizing time state lead with
  | h rank closer =>
      subst rank
      have goOn {later : Nat} {next : RequestState} (after : time ≤ later)
          (has' : (follow start schedule later).Has file request next)
          (lower : next.rank (follow start schedule time).cache.disks.length <
            state.rank (follow start schedule time).cache.disks.length) :
          ∃ last, time ≤ last ∧
            ∃ result, (follow start schedule last).Has file request (.ended result) := by
        obtain ⟨lead', sound', onward⟩ := follow_onward smooth sound after
        rw [← onward.tiers] at lower closer
        obtain ⟨last, after', ended⟩ := closer _ lower sound' has' rfl
        exact ⟨last, after.trans after', ended⟩
      by_cases finished : ∃ result, state = .ended result
      · obtain ⟨result, rfl⟩ := finished
        exact ⟨time, le_rfl, result, has⟩
      obtain ⟨middle, after, ready⟩ := exists_ready smooth fair sound has
      obtain ⟨next, has', rfl | lower⟩ := follow_nears smooth sound has after
      · obtain ⟨lead', sound', onward⟩ := follow_onward smooth sound after
        obtain ⟨later, next', after', has'', lower⟩ := exists_closer smooth fair sound' has'
          (fun result same => finished ⟨result, same⟩) ready
        rw [onward.tiers] at lower
        exact goOn (after.trans after') has'' lower
      · exact goOn after has' lower

end Following

/-- Requests for a chunk that a cache does not know take their steps in any order; none is
cancelled and the source gives the chunk, which is small enough for memory. Then it is fetched
once: nobody fetches it again, and it has been fetched when a request ends, which every request
does with the chunk, if it has its turn again and again and the source answers. -/
theorem fetched_once {cache : TieredCache} {file : String} {data : Bytes}
    {schedule : Nat → RequestStep} (absent : cache.has file = false)
    (small : data.length ≤ cache.memory.partLimit)
    (smooth : ∀ time, Smooth file data (schedule time)) :
    (∀ time, (follow { cache } schedule time).cache.counters.fetches ≤
      cache.counters.fetches + 1) ∧
    (∀ time request result,
      (follow { cache } schedule time).state? request = some (.ended result) →
      result = .ok data ∧
        (follow { cache } schedule time).cache.counters.fetches = cache.counters.fetches + 1) ∧
    (Fair { cache } schedule data → ∀ time request,
      request < (follow { cache } schedule time).list.length →
      ∃ later, time ≤ later ∧
        (follow { cache } schedule later).state? request = some (.ended (.ok data))) := by
  have sound (time : Nat) : ∃ lead, (follow { cache } schedule time).Sound file data
      cache.counters.fetches lead := by
    have first : (follow { cache } schedule 0).Sound file data cache.counters.fetches none :=
      sound_empty absent small
    obtain ⟨lead, sound, -⟩ := follow_onward smooth first (Nat.zero_le time)
    exact ⟨lead, sound⟩
  refine ⟨?_, ?_, ?_⟩
  · intro time
    obtain ⟨lead, sound⟩ := sound time
    obtain ⟨unfetched, -⟩ | ⟨fetched, -⟩ := sound.scene.phase
    · exact Nat.le_succ_of_le unfetched.le
    · exact fetched.le
  · intro time request result ended
    obtain ⟨lead, sound⟩ := sound time
    exact sound.fits (sound.has_of_state? ended)
  · intro fair time request known
    obtain ⟨lead, sound'⟩ := sound time
    obtain ⟨state, has⟩ := sound'.exists_has known
    obtain ⟨later, after, result, ended⟩ := exists_ended smooth fair sound' has
    obtain ⟨lead', sound''⟩ := sound later
    obtain ⟨rfl, -⟩ := sound''.fits ended
    exact ⟨later, after, ended.state?⟩

/-- A turn of one of two requests, or an answer to it. -/
def inTurns : Nat → RequestStep
  | 0 => .advance 0
  | 1 => .answer 0 (.ok [7, 8])
  | 2 => .advance 1
  | _ => .answer 1 (.ok [7, 8])

/-- Two requests miss the chunk. One of them fetches and publishes it before the other joins, and
from then on they have their turns one after the other. -/
def overtaking (time : Nat) : RequestStep :=
  if time < 2 then .arrive "3,01"
  else if time = 4 ∨ time = 5 then .advance 1
  else if time = 9 then .answer 0 (.ok [7, 8])
  else if time < 13 then .advance 0
  else inTurns (time % 4)

theorem smooth_overtaking (time : Nat) : Smooth "3,01" [7, 8] (overtaking time) := by
  unfold overtaking inTurns
  repeat' split
  all_goals constructor

theorem overtaking_later (time : Nat) {place : Nat} (bound : place < 4) :
    overtaking (4 * (time + 4) + place) = inTurns place := by
  unfold overtaking
  rw [if_neg (by omega), if_neg (by omega), if_neg (by omega), if_neg (by omega), Nat.mul_add_mod,
    Nat.mod_eq_of_lt bound]

theorem length_step (quiet : ∀ file, step ≠ .arrive file) :
    (requests.step step).list.length = requests.list.length := by
  cases step with
  | arrive file => exact absurd rfl (quiet file)
  | advance request =>
      change (requests.advance request).list.length = _
      unfold advance
      split
      · rfl
      · exact List.length_modify ..
  | answer request result =>
      change (requests.answer request result).list.length = _
      unfold answer
      repeat' split
      · exact List.length_modify ..
      · exact List.length_modify ..
      · rfl
  | cancel request =>
      change (requests.cancel request).list.length = _
      unfold cancel
      repeat' split
      all_goals first | rfl | exact List.length_modify ..

theorem length_follow_overtaking (time : Nat) :
    (follow { cache := .inMemory 8 } overtaking time).list.length ≤ 2 := by
  obtain early | late := Nat.lt_or_ge time 2
  · match time with
    | 0 => decide
    | 1 => decide
  · induction time, late using Nat.le_induction with
    | base => decide
    | succ time late before =>
        refine le_of_eq_of_le (length_step ?_) before
        intro file same
        unfold overtaking inTurns at same
        rw [if_neg (Nat.not_lt.mpr late)] at same
        repeat' split at same
        all_goals cases same

theorem fair_overtaking : Fair { cache := .inMemory 8 } overtaking [7, 8] := by
  have known {time request : Nat}
      (here : request < (follow { cache := .inMemory 8 } overtaking time).list.length) :
      request = 0 ∨ request = 1 := by
    have := length_follow_overtaking time
    omega
  refine ⟨?_, ?_⟩
  · intro time request here
    obtain rfl | rfl := known here
    · exact ⟨4 * (time + 4), by omega, overtaking_later time (Nat.zero_lt_succ 3)⟩
    · exact ⟨4 * (time + 4) + 2, by omega, overtaking_later time (by decide)⟩
  · intro time request run here
    obtain ⟨it, here, -⟩ := Option.map_eq_some_iff.mp here
    obtain rfl | rfl := known (List.getElem?_eq_some_iff.mp here).1
    · exact ⟨4 * (time + 4) + 1, by omega, overtaking_later time (by decide)⟩
    · exact ⟨4 * (time + 4) + 3, by omega, overtaking_later time (by decide)⟩

/-- A request that missed the chunk before it was fetched, and joined after the fetch was over,
gets the chunk without another fetch. -/
theorem fetched_once_if_overtaken :
    (follow { cache := .inMemory 8 } overtaking 13).registry.active = [] ∧
    (follow { cache := .inMemory 8 } overtaking 13).state? 1 = some .joining ∧
    (∀ time, (follow { cache := .inMemory 8 } overtaking time).cache.counters.fetches ≤ 1) ∧
    ∃ later, 13 ≤ later ∧ (follow { cache := .inMemory 8 } overtaking later).state? 1 =
      some (.ended (.ok [7, 8])) := by
  have once := @fetched_once (.inMemory 8) "3,01" [7, 8] overtaking rfl (by decide)
    smooth_overtaking
  exact ⟨rfl, rfl, once.1, once.2.2 fair_overtaking 13 1 (by decide)⟩

end Requests

end Haystack
