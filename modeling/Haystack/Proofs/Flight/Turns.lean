import Haystack.Proofs.Flight.Callers

/-!
# The registry names the leaders

A step gives the turn to one call at most, and the others stay as they are. A run is begun by the
call that leads it from then on, so that no other call leads it ever, and the call ends with it.
The registry has an entry for a key just as long as one call leads a run of the key.
-/

namespace Haystack.Calls

section Single

variable {κ ρ : Type} {calls : Calls κ ρ} {key key' : κ} {call : Nat}
  {state state' : CallState ρ}

theorem Has.unique (has : calls.Has call key state) (has' : calls.Has call key' state') :
    key = key' ∧ state = state' := by
  have same := has.symm.trans has'
  cases same
  exact ⟨rfl, rfl⟩

theorem Has.lt_length (has : calls.Has call key state) : call < calls.list.length :=
  (List.getElem?_eq_some_iff.mp has).1

theorem exists_has (known : call < calls.list.length) : ∃ key state, calls.Has call key state :=
  ⟨_, _, List.getElem?_eq_getElem known⟩

theorem Orderly.pending (orderly : calls.Orderly) {run : Nat}
    (leads : calls.Has call key (.leading run)) :
    calls.registry.channel run = .pending :=
  orderly.led.pending _ (mem_leaders.mpr ⟨call, leads⟩)

theorem Orderly.leader_eq (orderly : calls.Orderly) {other run : Nat}
    (leads : calls.Has call key (.leading run)) (leads' : calls.Has other key' (.leading run)) :
    call = other := by
  by_contra different
  obtain ⟨others, before, after⟩ := leaders_changed leads
  have rest := after .dropped calls.registry calls.started
  have still : (calls.changed call .dropped calls.registry calls.started).Has other key'
      (.leading run) := (has_changed_iff leads).mpr (.inr ⟨Ne.symm different, leads'⟩)
  have twice := List.mem_map_of_mem (f := Prod.snd) (rest.mem_iff.mp (mem_leaders.mpr ⟨_, still⟩))
  exact (List.nodup_cons.mp (orderly.led.congr before).runs).1 twice

end Single

variable {κ ρ : Type} [DecidableEq κ] {calls later : Calls κ ρ} {key key' : κ}
  {call other run run' : Nat} {state next : CallState ρ} {step : CallStep κ ρ}

/-- What comes of joining the run of a key. -/
inductive Joined (registry : Registry κ ρ) (key : κ) : CallState ρ → Prop where
  | leads (missing : registry.active.find? key = none) :
      Joined registry key (.leading registry.channels.length)
  | waits {run : Nat} (found : registry.active.find? key = some run) :
      Joined registry key (.waiting run)

theorem take_joined (calls : Calls κ ρ) (call : Nat) (key : κ) :
    ∃ next registry started, Joined calls.registry key next ∧
      calls.take call key = calls.changed call next registry started := by
  cases found : calls.registry.active.find? key with
  | none => exact ⟨_, _, _, .leads found, take_of_none found call⟩
  | some run => exact ⟨_, _, _, .waits found, take_of_some found call⟩

/-- What a step makes of a call. -/
inductive Turn (calls : Calls κ ρ) (call : Nat) (key : κ) :
    CallStep κ ρ → CallState ρ → CallState ρ → Prop where
  | stays (step : CallStep κ ρ) (state : CallState ρ) : Turn calls call key step state state
  | finishes (run : Nat) (result : ρ) :
      Turn calls call key (.finish call result) (.leading run) (.ended result)
  | leaves {state : CallState ρ} (active : ¬ state.isOver) :
      Turn calls call key (.drop call) state .dropped
  | receives {run : Nat} {result : ρ} (published : calls.registry.channel run = .published result) :
      Turn calls call key (.wake call) (.waiting run) (.ended result)
  | retries {run : Nat} {next : CallState ρ} (closed : calls.registry.channel run = .closed)
      (joined : Joined calls.registry key next) :
      Turn calls call key (.wake call) (.waiting run) next

theorem Turn.changed (turn : calls.Turn call key step state next)
    (known : calls.Has call key state) (registry : Registry κ ρ) (started : List Nat)
    (has : calls.Has other key' state') :
    ∃ next', (calls.changed call next registry started).Has other key' next' ∧
      calls.Turn other key' step state' next' := by
  by_cases here : other = call
  · subst here
    obtain ⟨rfl, rfl⟩ := known.unique has
    exact ⟨next, (has_changed_iff known).mpr (.inl ⟨rfl, rfl, rfl⟩), turn⟩
  · exact ⟨state', (has_changed_iff known).mpr (.inr ⟨here, has⟩), .stays _ _⟩

theorem Stepped.turn (stepped : calls.Stepped step later) (has : calls.Has call key state) :
    ∃ next, later.Has call key next ∧ calls.Turn call key step state next := by
  cases stepped with
  | idle => exact ⟨state, has, .stays _ _⟩
  | arrived key' =>
      obtain ⟨next, registry, started, -, same⟩ :=
        (calls.enter key').take_joined calls.list.length key'
      have entered : (calls.enter key').Has call key state := has_enter_iff.mpr (.inl has)
      refine ⟨state, ?_, .stays _ _⟩
      rw [same]
      exact (has_changed_iff (has_enter_self calls key')).mpr (.inr ⟨has.lt_length.ne, entered⟩)
  | finished result leads => exact (Turn.finishes _ result).changed leads _ _ has
  | abandoned leads => exact (Turn.leaves (by simp [CallState.isOver])).changed leads _ _ has
  | left waits => exact (Turn.leaves (by simp [CallState.isOver])).changed waits _ _ has
  | received waits published => exact (Turn.receives published).changed waits _ _ has
  | @retried other run key' waits closed =>
      obtain ⟨next, registry, started, joined, same⟩ := calls.take_joined other key'
      rw [same]
      exact (Turn.retries closed joined).changed waits _ _ has

/-- How a call came to be where it is: by its turn, or by its arrival. -/
theorem Stepped.origin (stepped : calls.Stepped step later) (has : later.Has call key next) :
    (∃ state, calls.Has call key state ∧ calls.Turn call key step state next) ∨
      call = calls.list.length ∧ step = .arrive key ∧ Joined calls.registry key next := by
  by_cases known : call < calls.list.length
  · obtain ⟨key', state, before⟩ := exists_has known
    obtain ⟨next', after, turn⟩ := stepped.turn before
    obtain ⟨rfl, rfl⟩ := after.unique has
    exact .inl ⟨state, before, turn⟩
  · have fresh {key'} {state : CallState ρ} : ¬ calls.Has call key' state :=
      fun before => known before.lt_length
    have unchanged {other key'} {state' next' : CallState ρ} {registry started}
        (before : calls.Has other key' state') :
        ¬ (calls.changed other next' registry started).Has call key next := by
      intro after
      obtain ⟨rfl, -, -⟩ | ⟨-, same⟩ := (has_changed_iff before).mp after
      · exact fresh before
      · exact fresh same
    cases stepped with
    | idle => exact absurd has fresh
    | arrived key' =>
        obtain ⟨next', registry, started, joined, same⟩ :=
          (calls.enter key').take_joined calls.list.length key'
        rw [same, has_changed_iff (has_enter_self calls key'), has_enter_iff] at has
        obtain ⟨rfl, rfl, rfl⟩ | ⟨different, before | ⟨here, -, -⟩⟩ := has
        · exact .inr ⟨rfl, rfl, joined⟩
        · exact absurd before fresh
        · exact absurd here different
    | finished result leads => exact absurd has (unchanged leads)
    | abandoned leads => exact absurd has (unchanged leads)
    | left waits => exact absurd has (unchanged waits)
    | received waits => exact absurd has (unchanged waits)
    | @retried other run key' waits closed =>
        obtain ⟨next', registry, started, -, same⟩ := calls.take_joined other key'
        rw [same] at has
        exact absurd has (unchanged waits)

/-- What a step makes of the channel of a run. -/
inductive Watched (calls : Calls κ ρ) (run : Nat) : CallStep κ ρ → Channel ρ → Prop where
  | stays (step : CallStep κ ρ) : Watched calls run step (calls.registry.channel run)
  | publishes {leader : Nat} {key : κ} (result : ρ) (leads : calls.Has leader key (.leading run)) :
      Watched calls run (.finish leader result) (.published result)
  | closes {leader : Nat} {key : κ} (leads : calls.Has leader key (.leading run)) :
      Watched calls run (.drop leader) .closed

theorem Stepped.length_le (stepped : calls.Stepped step later) :
    calls.registry.channels.length ≤ later.registry.channels.length := by
  have taken (before : Calls κ ρ) (call : Nat) (key : κ) :
      before.registry.channels.length ≤ (before.take call key).registry.channels.length := by
    cases found : before.registry.active.find? key with
    | none =>
        rw [take_of_none found]
        exact (Nat.le_succ _).trans_eq (Registry.length_begun before.registry key).symm
    | some run => rw [take_of_some found]; rfl
  cases stepped with
  | idle => rfl
  | arrived key => exact taken (calls.enter key) _ key
  | finished result leads => exact (Registry.length_finish calls.registry _ _ _).ge
  | abandoned leads => exact (Registry.length_finish calls.registry _ _ _).ge
  | left waits => rfl
  | received waits => rfl
  | retried waits => exact taken calls _ _

theorem Stepped.watched (stepped : calls.Stepped step later)
    (known : run < calls.registry.channels.length) :
    calls.Watched run step (later.registry.channel run) := by
  have taken (before : Calls κ ρ) (same : before.registry = calls.registry) (call : Nat) (key : κ) :
      (before.take call key).registry.channel run = calls.registry.channel run := by
    cases found : before.registry.active.find? key with
    | none =>
        rw [take_of_none found, ← same]
        exact Registry.channel_begun_of_lt (same ▸ known) key
    | some run => rw [take_of_some found, ← same]; rfl
  have ended {key : κ} {run' : Nat} {channel : Channel ρ}
      (watched : run' = run → calls.Watched run step channel) :
      calls.Watched run step ((calls.registry.finish key run' channel).channel run) := by
    by_cases here : run' = run
    · rw [here, Registry.channel_finish_self known]
      exact watched here
    · rw [Registry.channel_finish_of_ne (Ne.symm here)]
      exact .stays step
  cases stepped with
  | idle => exact .stays step
  | arrived key => rw [taken (calls.enter key) rfl]; exact .stays _
  | finished result leads => exact ended fun here => .publishes result (here ▸ leads)
  | abandoned leads => exact ended fun here => .closes (here ▸ leads)
  | left waits => exact .stays _
  | received waits => exact .stays _
  | retried waits => rw [taken calls rfl]; exact .stays _

theorem length_le_run (orderly : calls.Orderly) (steps : List (CallStep κ ρ)) :
    calls.registry.channels.length ≤ (calls.run steps).registry.channels.length := by
  induction steps using List.reverseRecOn with
  | nil => rfl
  | append_singleton steps step before =>
      rw [run_concat]
      exact before.trans ((orderly_run orderly steps).stepped step).length_le

theorem has_of_isOver (orderly : calls.Orderly) (has : calls.Has call key state)
    (past : state.isOver) (steps : List (CallStep κ ρ)) : (calls.run steps).Has call key state := by
  induction steps using List.reverseRecOn with
  | nil => exact has
  | append_singleton steps step before =>
      rw [run_concat]
      obtain ⟨next, after, turn⟩ := ((orderly_run orderly steps).stepped step).turn before
      cases turn with
      | stays => exact after
      | finishes => cases past
      | leaves active => exact absurd past active
      | receives => cases past
      | retries => cases past

/-- A call that leads keeps its run to its end. -/
theorem leads_or_isOver (orderly : calls.Orderly) (leads : calls.Has call key (.leading run))
    (steps : List (CallStep κ ρ)) :
    ∃ state, (calls.run steps).Has call key state ∧ (state = .leading run ∨ state.isOver) := by
  induction steps using List.reverseRecOn with
  | nil => exact ⟨_, leads, .inl rfl⟩
  | append_singleton steps step before =>
      rw [run_concat]
      obtain ⟨state, before, still⟩ := before
      obtain ⟨next, after, turn⟩ := ((orderly_run orderly steps).stepped step).turn before
      refine ⟨next, after, ?_⟩
      cases turn with
      | stays => exact still
      | finishes => exact .inr rfl
      | leaves => exact .inr rfl
      | receives => exact .inr rfl
      | retries => simp [CallState.isOver] at still

/-- Who leads a run that has begun has led it all the time. -/
theorem led_before (orderly : calls.Orderly) (begun : run < calls.registry.channels.length)
    (steps : List (CallStep κ ρ)) (leads : (calls.run steps).Has call key (.leading run)) :
    calls.Has call key (.leading run) := by
  induction steps using List.reverseRecOn with
  | nil => exact leads
  | append_singleton steps step before =>
      rw [run_concat] at leads
      have fresh : run ≠ (calls.run steps).registry.channels.length :=
        (begun.trans_le (length_le_run orderly steps)).ne
      obtain ⟨state, has, turn⟩ | ⟨-, -, joined⟩ :=
        ((orderly_run orderly steps).stepped step).origin leads
      · cases turn with
        | stays => exact before has
        | retries closed joined =>
            cases joined
            exact absurd rfl fresh
      · cases joined
        exact absurd rfl fresh

/-- The registry has an entry for a key just as long as one call leads a run of the key, and the
entry names the run. Leaders are as many as entries, no run has another leader ever, and no leader
another run. -/
theorem registry_names_leaders (steps : List (CallStep κ ρ)) :
    let calls := ({} : Calls κ ρ).run steps
    (∀ key, (calls.registry.active.find? key).isSome ↔
      ∃! call, ∃ run, calls.Has call key (.leading run)) ∧
    (∀ key run, calls.registry.active.find? key = some run ↔
      ∃ call, calls.Has call key (.leading run)) ∧
    (∀ key call other run run', calls.Has call key (.leading run) →
      calls.Has other key (.leading run') → call = other) ∧
    (∀ more key key' call other run run', calls.Has call key (.leading run) →
      (calls.run more).Has other key' (.leading run') → (run = run' ↔ call = other)) ∧
    calls.registry.inFlight = calls.list.countP (fun call => call.leads?.isSome) ∧
    ((∀ call ∈ calls.list, call.state.isOver) → calls.registry.active = []) := by
  intro calls
  have orderly : calls.Orderly := orderly_run orderly_empty steps
  have named (key : κ) (run : Nat) : calls.registry.active.find? key = some run ↔
      ∃ call, calls.Has call key (.leading run) := by
    rw [orderly.led.find?_eq_some_iff, mem_leaders]
  have single (key : κ) (call other run run' : Nat) (leads : calls.Has call key (.leading run))
      (leads' : calls.Has other key (.leading run')) : call = other := by
    have found := (named key run).mpr ⟨call, leads⟩
    obtain rfl := Option.some.inj (found.symm.trans ((named key run').mpr ⟨other, leads'⟩))
    exact orderly.leader_eq leads leads'
  have count : calls.registry.inFlight = calls.list.countP (fun call => call.leads?.isSome) :=
    orderly.led.same.length_eq.trans (List.length_filterMap_eq_countP ..)
  refine ⟨?_, named, single, ?_, count, ?_⟩
  · intro key
    constructor
    · intro registered
      obtain ⟨run, found⟩ := Option.isSome_iff_exists.mp registered
      obtain ⟨call, leads⟩ := (named key run).mp found
      exact ⟨call, ⟨run, leads⟩, fun other ⟨run', leads'⟩ => single _ _ _ _ _ leads' leads⟩
    · rintro ⟨call, ⟨run, leads⟩, -⟩
      rw [(named key run).mpr ⟨call, leads⟩]
      rfl
  · intro more key key' call other run run' leads leads'
    constructor
    · rintro rfl
      have begun := orderly.led.lt_length (mem_leaders.mpr ⟨call, leads⟩)
      exact orderly.leader_eq leads (led_before orderly begun more leads')
    · rintro rfl
      obtain ⟨state, later, still⟩ := leads_or_isOver orderly leads more
      obtain ⟨-, rfl⟩ := later.unique leads'
      simpa [CallState.isOver, eq_comm] using still
  · intro past
    apply List.eq_nil_of_length_eq_zero
    refine count.trans (List.countP_eq_zero.mpr ?_)
    intro call member
    rw [Call.leads?_of_isOver (past call member)]
    simp

/-- The one who takes over from a leader that was dropped has a run of its own. -/
theorem registry_names_second_leader :
    (({} : Calls Nat Nat).run
      [.arrive 7, .arrive 7, .drop 0, .wake 1]).registry.active.find? 7 = some 1 :=
  ((registry_names_leaders [.arrive 7, .arrive 7, .drop 0, .wake 1]).2.1 7 1).mpr ⟨1, rfl⟩

end Haystack.Calls
