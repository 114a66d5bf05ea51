import Haystack.Proofs.Flight.Turns

/-!
# Where results come from

A call that ends has the result of a run of its key that came to its end while the call led it or
waited for it. Who waited for a run with a result gets this result and no other, and a waiter
always has something to wait for: a leader, a result, or the news that there is no leader anymore.
-/

namespace Haystack.Calls

variable {κ ρ : Type} [DecidableEq κ] {calls later : Calls κ ρ} {key key' : κ}
  {call other run run' : Nat} {state next : CallState ρ} {step : CallStep κ ρ}
  {steps : List (CallStep κ ρ)} {result : ρ}

theorem Orderly.joined_pending (orderly : calls.Orderly)
    (joined : Joined calls.registry key (.waiting run)) :
    calls.registry.channel run = .pending := by
  cases joined with
  | waits found => exact orderly.led.pending _ (orderly.led.find?_eq_some_iff.mp found)

/-- What has come into the channel of a run stays there. -/
theorem channel_kept (orderly : calls.Orderly) (begun : run < calls.registry.channels.length)
    (past : calls.registry.channel run ≠ .pending) (steps : List (CallStep κ ρ)) :
    (calls.run steps).registry.channel run = calls.registry.channel run := by
  induction steps using List.reverseRecOn with
  | nil => rfl
  | append_singleton steps step before =>
      have orderly' := orderly_run orderly steps
      have watched := (orderly'.stepped step).watched
        (begun.trans_le (length_le_run orderly steps))
      rw [run_concat]
      generalize ((calls.run steps).step step).registry.channel run = channel at watched
      cases watched with
      | stays => exact before
      | publishes result leads => exact absurd (before.symm.trans (orderly'.pending leads)) past
      | closes leads => exact absurd (before.symm.trans (orderly'.pending leads)) past

theorem Stepped.published (stepped : calls.Stepped step later)
    (begun : run < calls.registry.channels.length)
    (published : later.registry.channel run = .published result) :
    calls.registry.channel run = .published result ∨
      ∃ leader key, step = .finish leader result ∧ calls.Has leader key (.leading run) := by
  have watched := stepped.watched begun
  generalize later.registry.channel run = channel at watched published
  cases watched with
  | stays => exact .inl published
  | publishes result' leads =>
      cases published
      exact .inr ⟨_, _, rfl, leads⟩
  | closes leads => cases published

theorem exists_arrival (has : (({} : Calls κ ρ).run steps).Has call key state) :
    ∃ first, first ++ [.arrive key] <+: steps ∧
      (({} : Calls κ ρ).run first).list.length = call := by
  induction steps using List.reverseRecOn generalizing state with
  | nil => cases has
  | append_singleton steps step before =>
      rw [run_concat] at has
      obtain ⟨state, has, -⟩ | ⟨rfl, rfl, -⟩ :=
        ((orderly_run orderly_empty steps).stepped step).origin has
      · obtain ⟨first, early, here⟩ := before has
        exact ⟨first, early.trans (List.prefix_append _ _), here⟩
      · exact ⟨steps, List.prefix_refl _, rfl⟩

/-- A run of a key ended with a result at a moment when a call led it or waited for it. -/
def EndedFor (steps : List (CallStep κ ρ)) (call : Nat) (key : κ) (run : Nat) (result : ρ) :
    Prop :=
  ∃ front leader back, steps = front ++ .finish leader result :: back ∧
    (({} : Calls κ ρ).run front).Has leader key (.leading run) ∧
    ((({} : Calls κ ρ).run front).Has call key (.leading run) ∨
      (({} : Calls κ ρ).run front).Has call key (.waiting run))

theorem EndedFor.concat (ended : EndedFor steps call key run result) (step : CallStep κ ρ) :
    EndedFor (steps ++ [step]) call key run result := by
  obtain ⟨front, leader, back, rfl, leads, part⟩ := ended
  exact ⟨front, leader, back ++ [step], by simp, leads, part⟩

/-- Who has a result, or waits where there is one, has taken part in the run that it is from. -/
theorem exists_endedFor (steps : List (CallStep κ ρ)) :
    (∀ {call key result}, (({} : Calls κ ρ).run steps).Has call key (.ended result) →
      ∃ run, EndedFor steps call key run result) ∧
    ∀ {call key run result}, (({} : Calls κ ρ).run steps).Has call key (.waiting run) →
      (({} : Calls κ ρ).run steps).registry.channel run = .published result →
      EndedFor steps call key run result := by
  induction steps using List.reverseRecOn with
  | nil =>
      refine ⟨?_, ?_⟩
      · intro call key result has
        cases has
      · intro call key run result has
        cases has
  | append_singleton steps step before =>
      obtain ⟨ended, waiting⟩ := before
      have orderly := orderly_run (κ := κ) (ρ := ρ) orderly_empty steps
      have stepped := orderly.stepped step
      rw [run_concat]
      generalize (({} : Calls κ ρ).run steps).step step = later at stepped
      refine ⟨?_, ?_⟩
      · intro call key result has
        obtain ⟨state, has, turn⟩ | ⟨-, -, joined⟩ := stepped.origin has
        · cases turn with
          | stays =>
              obtain ⟨run, before⟩ := ended has
              exact ⟨run, before.concat step⟩
          | finishes run => exact ⟨run, steps, call, [], rfl, has, .inl has⟩
          | receives published => exact ⟨_, (waiting has published).concat _⟩
          | retries closed joined => cases joined
        · cases joined
      · intro call key run result has published
        have fresh (joined : Joined (({} : Calls κ ρ).run steps).registry key (.waiting run))
            (quiet : ∀ leader, step ≠ .finish leader result) : False := by
          have pending := orderly.joined_pending joined
          obtain before | ⟨leader, _, now, -⟩ :=
            stepped.published (Registry.lt_length_of_pending pending) published
          · rw [pending] at before
            cases before
          · exact quiet leader now
        obtain ⟨state, has, turn⟩ | ⟨-, rfl, joined⟩ := stepped.origin has
        · cases turn with
          | stays =>
              obtain before | ⟨leader, key', rfl, leads⟩ :=
                stepped.published (orderly.known has) published
              · exact (waiting has before).concat step
              · have mine := orderly.waits has (orderly.pending leads)
                obtain rfl := orderly.led.key_eq mine (mem_leaders.mpr ⟨leader, leads⟩)
                exact ⟨steps, leader, [], rfl, leads, .inr has⟩
          | retries closed joined => exact (fresh joined (by simp)).elim
        · exact (fresh joined (by simp)).elim

theorem Orderly.step_finish (orderly : calls.Orderly) (leads : calls.Has call key (.leading run))
    (result : ρ) : calls.step (.finish call result) = calls.changed call (.ended result)
      (calls.registry.finish key run (.published result)) calls.started := by
  change calls.finish call result = _
  unfold Calls.finish
  rw [show calls.list[call]? = _ from leads]
  dsimp only
  rw [orderly.led.publish_eq (mem_leaders.mpr ⟨call, leads⟩)]
  rfl

theorem channel_step_finish (orderly : calls.Orderly) (leads : calls.Has call key (.leading run))
    (result : ρ) :
    (calls.step (.finish call result)).registry.channel run = .published result := by
  rw [orderly.step_finish leads]
  exact Registry.channel_finish_self (Registry.lt_length_of_pending (orderly.pending leads)) _ _

theorem has_step_finish_iff (orderly : calls.Orderly)
    (leads : calls.Has call key (.leading run)) (result : ρ) :
    (calls.step (.finish call result)).Has other key' state ↔
      other = call ∧ key' = key ∧ state = .ended result ∨
        other ≠ call ∧ calls.Has other key' state := by
  rw [orderly.step_finish leads]
  exact has_changed_iff leads

theorem has_step_finish_of_waiting (orderly : calls.Orderly)
    (leads : calls.Has call key (.leading run)) (result : ρ)
    (waits : calls.Has other key' (.waiting run')) :
    (calls.step (.finish call result)).Has other key' (.waiting run') := by
  refine (has_step_finish_iff orderly leads result).mpr (.inr ⟨?_, waits⟩)
  rintro rfl
  cases (waits.unique leads).2

theorem has_step_wake_of_published (has : calls.Has call key (.waiting run))
    (published : calls.registry.channel run = .published result) :
    (calls.step (.wake call)).Has call key (.ended result) := by
  change (calls.wake call).Has call key _
  unfold wake
  rw [show calls.list[call]? = _ from has]
  dsimp only
  rw [published]
  exact (has_changed_iff has).mpr (.inl ⟨rfl, rfl, rfl⟩)

theorem has_step_wake_of_closed (has : calls.Has call key (.waiting run))
    (closed : calls.registry.channel run = .closed) :
    ∃ next, (calls.step (.wake call)).Has call key next ∧ Joined calls.registry key next := by
  change ∃ next, (calls.wake call).Has call key next ∧ _
  unfold wake
  rw [show calls.list[call]? = _ from has]
  dsimp only
  rw [closed]
  obtain ⟨next, registry, started, joined, same⟩ := calls.take_joined call key
  refine ⟨next, ?_, joined⟩
  rw [same]
  exact (has_changed_iff has).mpr (.inl ⟨rfl, rfl, rfl⟩)

/-- Where a call can be that waited for a run when its result was published. -/
theorem has_of_published (orderly : calls.Orderly) (has : calls.Has call key (.waiting run))
    (published : calls.registry.channel run = .published result) (steps : List (CallStep κ ρ)) :
    ∃ state, (calls.run steps).Has call key state ∧
      (state = .waiting run ∨ state = .ended result ∨ state = .dropped) := by
  have kept := channel_kept orderly (orderly.known has) (by simp [published])
  induction steps using List.reverseRecOn with
  | nil => exact ⟨_, has, .inl rfl⟩
  | append_singleton steps step before =>
      rw [run_concat]
      obtain ⟨state, before, place⟩ := before
      obtain ⟨next, after, turn⟩ := ((orderly_run orderly steps).stepped step).turn before
      refine ⟨next, after, ?_⟩
      cases turn with
      | stays => exact place
      | finishes => simp at place
      | leaves => exact .inr (.inr rfl)
      | receives received =>
          obtain ⟨⟨⟩⟩ | ⟨⟨⟩⟩ | ⟨⟨⟩⟩ := place
          rw [kept, published] at received
          cases received
          exact .inr (.inl rfl)
      | retries closed =>
          obtain ⟨⟨⟩⟩ | ⟨⟨⟩⟩ | ⟨⟨⟩⟩ := place
          rw [kept, published] at closed
          cases closed

/-- An operation is only ever begun by a call that leads from then on. -/
theorem Stepped.started (stepped : calls.Stepped step later) (begun : call ∈ later.started) :
    call ∈ calls.started ∨ ∃ key run, later.Has call key (.leading run) := by
  have taken (before : Calls κ ρ) (other : Nat) (key : κ) {state : CallState ρ}
      (same : before.started = calls.started) (has : before.Has other key state)
      (begun : call ∈ (before.take other key).started) :
      call ∈ calls.started ∨ ∃ key' run, (before.take other key).Has call key' (.leading run) := by
    cases found : before.registry.active.find? key with
    | none =>
        rw [take_of_none found other] at begun ⊢
        obtain early | now := List.mem_append.mp begun
        · exact .inl (same ▸ early)
        · obtain rfl := List.mem_singleton.mp now
          exact .inr ⟨_, _, (has_changed_iff has).mpr (.inl ⟨rfl, rfl, rfl⟩)⟩
    | some run =>
        rw [take_of_some found] at begun
        exact .inl (same ▸ begun)
  cases stepped with
  | idle => exact .inl begun
  | arrived key => exact taken (calls.enter key) _ key rfl (has_enter_self calls key) begun
  | finished => exact .inl begun
  | abandoned => exact .inl begun
  | left => exact .inl begun
  | received => exact .inl begun
  | retried waits => exact taken calls _ _ rfl waits begun

/-- Who waits has not begun an operation. -/
theorem not_waiting_of_mem_started (steps : List (CallStep κ ρ)) :
    ∀ call ∈ (({} : Calls κ ρ).run steps).started,
      ∃ key state, (({} : Calls κ ρ).run steps).Has call key state ∧ ∀ run, state ≠ .waiting run := by
  induction steps using List.reverseRecOn with
  | nil => simp [run]
  | append_singleton steps step before =>
      have stepped := (orderly_run (κ := κ) (ρ := ρ) orderly_empty steps).stepped step
      rw [run_concat]
      intro call begun
      obtain early | ⟨key, run, leads⟩ := stepped.started begun
      · obtain ⟨key, state, has, active⟩ := before call early
        obtain ⟨next, after, turn⟩ := stepped.turn has
        refine ⟨key, next, after, ?_⟩
        cases turn with
        | stays => exact active
        | finishes => simp
        | leaves => simp
        | receives => simp
        | retries => exact absurd rfl (active _)
      · exact ⟨key, _, leads, by simp⟩

theorem started_of_published (orderly : calls.Orderly) (has : calls.Has call key (.waiting run))
    (published : calls.registry.channel run = .published result) (steps : List (CallStep κ ρ))
    (begun : call ∈ (calls.run steps).started) : call ∈ calls.started := by
  induction steps using List.reverseRecOn with
  | nil => exact begun
  | append_singleton steps step before =>
      obtain ⟨state, after, place⟩ := has_of_published orderly has published (steps ++ [step])
      rw [run_concat] at begun after
      obtain early | ⟨key', run', leads⟩ := ((orderly_run orderly steps).stepped step).started begun
      · exact before early
      · obtain ⟨-, rfl⟩ := after.unique leads
        simp at place

/-- After the run in which it took part has ended with a result, a call takes part in no other. -/
theorem run_eq_of_finish (orderly : calls.Orderly) (leads : calls.Has other key (.leading run))
    (part : calls.Has call key (.leading run) ∨ calls.Has call key (.waiting run))
    (steps : List (CallStep κ ρ))
    (again : (calls.run (.finish other result :: steps)).Has call key (.leading run') ∨
      (calls.run (.finish other result :: steps)).Has call key (.waiting run')) : run = run' := by
  have orderly' := orderly_step orderly (.finish other result)
  change ((calls.step (.finish other result)).run steps).Has call key _ ∨
    ((calls.step (.finish other result)).run steps).Has call key _ at again
  obtain leads' | waits := part
  · obtain rfl := orderly.leader_eq leads' leads
    have ended := (has_step_finish_iff orderly leads result).mpr (.inl ⟨rfl, rfl, rfl⟩)
    have past := has_of_isOver orderly' ended rfl steps
    obtain again | again := again
    · cases (past.unique again).2
    · cases (past.unique again).2
  · obtain ⟨state, later, place⟩ := has_of_published orderly'
      (has_step_finish_of_waiting orderly leads result waits)
      (channel_step_finish orderly leads result) steps
    obtain again | again := again
    · obtain ⟨-, rfl⟩ := later.unique again
      simp at place
    · obtain ⟨-, rfl⟩ := later.unique again
      simpa [eq_comm] using place

theorem EndedFor.unique (ended : EndedFor steps call key run result)
    (ended' : EndedFor steps call key run' result) : run = run' := by
  obtain ⟨front, leader, back, same, leads, part⟩ := ended
  obtain ⟨front', leader', back', same', leads', part'⟩ := ended'
  wlog shorter : front.length ≤ front'.length generalizing run run' front front' leader leader'
    back back'
  · exact (this front' leader' back' same' leads' part' front leader back same leads part
      (Nat.le_of_not_le shorter)).symm
  obtain ⟨middle, rfl⟩ := List.prefix_of_prefix_length_le
    (same ▸ List.prefix_append front _) (same' ▸ List.prefix_append front' _) shorter
  have rest : .finish leader result :: back = middle ++ .finish leader' result :: back' := by
    rw [same, List.append_assoc] at same'
    exact List.append_cancel_left same'
  have orderly := orderly_run (κ := κ) (ρ := ρ) orderly_empty front
  cases middle with
  | nil =>
      cases rest
      rw [List.append_nil] at leads'
      cases (leads.unique leads').2
      rfl
  | cons step middle =>
      obtain ⟨rfl, -⟩ := List.cons.inj rest
      rw [run_append] at part'
      exact run_eq_of_finish orderly leads part middle part'

/-- Every result that a call gets comes from one run of its key, which was not over when the call
began. A call that waits when a result of its run is published gets this result and begins no
operation of its own. Whoever waits waits for a run with a leader, for a result that is there, or
for nothing, and then joins anew. -/
theorem results_reach_waiters (steps : List (CallStep κ ρ)) :
    let calls := ({} : Calls κ ρ).run steps
    (∀ call key result, calls.Has call key (.ended result) →
      ∃! run, EndedFor steps call key run result) ∧
    (∀ call key run result, EndedFor steps call key run result →
      ∃ first, first ++ [.arrive key] <+: steps ∧
        let before := ({} : Calls κ ρ).run first
        before.list.length = call ∧
          (before.registry.channels.length ≤ run ∨ before.registry.channel run = .pending)) ∧
    (∀ leader waiter key key' run result more, calls.Has leader key (.leading run) →
      calls.Has waiter key' (.waiting run) →
      let later := calls.run (.finish leader result :: more)
      waiter ∉ later.started ∧ later.registry.channel run = .published result ∧
        ∃ state, later.Has waiter key' state ∧ (state = .ended result ∨ state = .dropped ∨
          state = .waiting run ∧ (later.step (.wake waiter)).Has waiter key' (.ended result))) ∧
    ∀ waiter key run, calls.Has waiter key (.waiting run) →
      (calls.registry.channels[run]? = some .pending ∧
        calls.registry.active.find? key = some run ∧
        ∃ leader, calls.Has leader key (.leading run)) ∨
      (∃ result, calls.registry.channels[run]? = some (.published result) ∧
        (calls.step (.wake waiter)).Has waiter key (.ended result)) ∨
      calls.registry.channels[run]? = some .closed ∧
        ∃ next, (calls.step (.wake waiter)).Has waiter key next ∧
          Joined calls.registry key next := by
  intro calls
  have orderly : calls.Orderly := orderly_run orderly_empty steps
  refine ⟨?_, ?_, ?_, ?_⟩
  · intro call key result has
    obtain ⟨run, ended⟩ := (exists_endedFor steps).1 has
    exact ⟨run, ended, fun run' ended' => ended'.unique ended⟩
  · rintro call key run result ⟨front, leader, back, rfl, leads, part⟩
    obtain ⟨first, early, here⟩ : ∃ first, first ++ [.arrive key] <+: front ∧
        (({} : Calls κ ρ).run first).list.length = call := by
      obtain leads' | waits := part
      · exact exists_arrival leads'
      · exact exists_arrival waits
    refine ⟨first, early.trans (List.prefix_append _ _), here, ?_⟩
    by_cases begun : run < (({} : Calls κ ρ).run first).registry.channels.length
    · right
      by_contra past
      obtain ⟨rest, rfl⟩ := (List.prefix_append first [.arrive key]).trans early
      rw [run_append] at leads
      have orderly' := orderly_run (κ := κ) (ρ := ρ) orderly_empty first
      have kept := channel_kept orderly' begun past rest
      rw [(orderly_run orderly' rest).pending leads] at kept
      exact past kept.symm
    · exact .inl (Nat.not_lt.mp begun)
  · intro leader waiter key key' run result more leads waits later
    have orderly' := orderly_step orderly (.finish leader result)
    have waits' := has_step_finish_of_waiting orderly leads result waits
    have published := channel_step_finish orderly leads result
    have kept := channel_kept orderly' (orderly'.known waits') (by simp [published]) more
    refine ⟨?_, kept.trans published, ?_⟩
    · intro begun
      have early := started_of_published orderly' waits' published more begun
      rw [orderly.step_finish leads] at early
      obtain ⟨key'', state, has, active⟩ := not_waiting_of_mem_started steps waiter early
      exact active run (has.unique waits).2
    · obtain ⟨state, has, rfl | rfl | rfl⟩ := has_of_published orderly' waits' published more
      · exact ⟨_, has, .inr (.inr ⟨rfl, has_step_wake_of_published has (kept.trans published)⟩)⟩
      · exact ⟨_, has, .inl rfl⟩
      · exact ⟨_, has, .inr (.inl rfl)⟩
  · intro waiter key run waits
    rw [Registry.getElem?_channels (orderly.known waits)]
    cases channel : calls.registry.channel run with
    | pending =>
        have leads := orderly.waits waits channel
        exact .inl ⟨rfl, orderly.led.find?_eq_some_iff.mpr leads, mem_leaders.mp leads⟩
    | published result => exact .inr (.inl ⟨result, rfl, has_step_wake_of_published waits channel⟩)
    | closed => exact .inr (.inr ⟨rfl, has_step_wake_of_closed waits channel⟩)

/-- A waiter gets the failure of the run that it waited for. -/
theorem failure_reaches_waiter :
    ∃! run, EndedFor (κ := Nat) (ρ := Except String Nat)
      [.arrive 7, .arrive 7, .finish 0 (.error "down"), .wake 1] 1 7 run (.error "down") :=
  (results_reach_waiters (κ := Nat) (ρ := Except String Nat)
    [.arrive 7, .arrive 7, .finish 0 (.error "down"), .wake 1]).1 1 7 _ rfl

end Haystack.Calls
