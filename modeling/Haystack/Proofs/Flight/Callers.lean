import Haystack.Flight.Calls
import Haystack.Proofs.Flight.Leaders
import Mathlib.Data.List.Induction

/-!
# Calls in good order

Calls arrive, finish, are dropped and wake up in any order. Whatever the order, the runs that the
registry knows are those of the calls that lead, and who waits for a run that is under way waits
for a run of its own key. So to publish a result, or to give up, ends the run of the call itself.
-/

namespace Haystack

/-- Whether a call has come to its end, in whatever way. -/
def CallState.isOver {ρ : Type} : CallState ρ → Bool
  | .ended _ | .dropped => true
  | .leading _ | .waiting _ => false

/-- The key and the run of a call that leads. -/
def Call.leads? {κ ρ : Type} : Call κ ρ → Option (κ × Nat)
  | { key, state := .leading run } => some (key, run)
  | _ => none

theorem Call.leads?_of_isOver {κ ρ : Type} {key : κ} {state : CallState ρ} (past : state.isOver) :
    Call.leads? ⟨key, state⟩ = none := by
  cases state with
  | leading run => cases past
  | waiting run => cases past
  | ended result => rfl
  | dropped => rfl

namespace Calls

section Changing

variable {κ ρ : Type} {calls : Calls κ ρ} {key key' : κ} {call other run : Nat}
  {state state' next : CallState ρ} {registry : Registry κ ρ} {started : List Nat}

def leaders (calls : Calls κ ρ) : List (κ × Nat) :=
  calls.list.filterMap Call.leads?

/-- The call of a number is for a key and has come so far. -/
def Has (calls : Calls κ ρ) (call : Nat) (key : κ) (state : CallState ρ) : Prop :=
  calls.list[call]? = some { key, state }

/-- The calls after one of them has changed its state and the registry. -/
def changed (calls : Calls κ ρ) (call : Nat) (state : CallState ρ) (registry : Registry κ ρ)
    (started : List Nat) : Calls κ ρ :=
  { calls.put call state with registry, started }

theorem has_changed_iff (known : calls.Has call key state) :
    (calls.changed call next registry started).Has other key' state' ↔
      other = call ∧ key' = key ∧ state' = next ∨ other ≠ call ∧ calls.Has other key' state' := by
  refine (getElem?_modify_eq_some_iff known _).trans ?_
  simp [Has]

theorem mem_leaders : (key, run) ∈ calls.leaders ↔ ∃ call, calls.Has call key (.leading run) := by
  unfold leaders Has
  rw [List.mem_filterMap]
  constructor
  · rintro ⟨⟨key', state⟩, member, leads⟩
    obtain ⟨call, bound, here⟩ := List.getElem_of_mem member
    refine ⟨call, ?_⟩
    rw [List.getElem?_eq_getElem bound, here]
    cases state <;> cases leads
    rfl
  · rintro ⟨call, leads⟩
    exact ⟨_, List.mem_of_getElem? leads, rfl⟩

/-- What a call does matters to the leaders by itself alone. -/
theorem leaders_changed (known : calls.Has call key state) :
    ∃ others, calls.leaders.Perm ((Call.leads? ⟨key, state⟩).toList ++ others) ∧
      ∀ next registry started, (calls.changed call next registry started).leaders.Perm
        ((Call.leads? ⟨key, next⟩).toList ++ others) := by
  obtain ⟨bound, here⟩ := List.getElem?_eq_some_iff.mp known
  let front := calls.list.take call
  let back := calls.list.drop (call + 1)
  have around (it : Call κ ρ) : ((front ++ it :: back).filterMap Call.leads?).Perm
      (it.leads?.toList ++ (front ++ back).filterMap Call.leads?) := by
    have moved : (front ++ it :: back).Perm (it :: (front ++ back)) := List.perm_middle
    refine (moved.filterMap Call.leads?).trans (.of_eq ?_)
    rw [List.filterMap_cons]
    cases it.leads? with
    | none => rfl
    | some leader => rfl
  have whole : calls.list = front ++ ⟨key, state⟩ :: back := by
    rw [← here, ← List.drop_eq_getElem_cons bound, List.take_append_drop]
  refine ⟨(front ++ back).filterMap Call.leads?, ?_, ?_⟩
  · have same := around ⟨key, state⟩
    rwa [← whole] at same
  · intro next registry started
    have later : (calls.changed call next registry started).list =
        front ++ ⟨key, next⟩ :: back := by
      change calls.list.modify _ _ = _
      rw [List.modify_eq_take_cons_drop bound, here]
    have same := around ⟨key, next⟩
    rwa [← later] at same

/-- The registry knows the leaders, and who waits for a run under way waits for the run of its own
key. -/
structure Orderly (calls : Calls κ ρ) : Prop where
  led : calls.registry.Led calls.leaders
  known : ∀ {call key run}, calls.Has call key (.waiting run) →
    run < calls.registry.channels.length
  waits : ∀ {call key run}, calls.Has call key (.waiting run) →
    calls.registry.channel run = .pending → (key, run) ∈ calls.leaders

theorem orderly_empty : Orderly ({} : Calls κ ρ) := by
  refine ⟨Registry.led_empty, ?_, ?_⟩
  · intro call key run waits
    cases waits
  · intro call key run waits
    cases waits

/-- A change is in order if the registry knows the leaders after it, forgets no run that others wait
for, and the call itself waits for a run of its key, if it waits. -/
theorem Orderly.changed (orderly : calls.Orderly) (known : calls.Has call key state)
    (led : registry.Led (calls.changed call next registry started).leaders)
    (longer : calls.registry.channels.length ≤ registry.channels.length)
    (others : ∀ {key run}, run < calls.registry.channels.length →
      registry.channel run = .pending → calls.registry.channel run = .pending ∧
        ((key, run) ∈ calls.leaders →
          (key, run) ∈ (calls.changed call next registry started).leaders))
    (own : ∀ {run}, next = .waiting run →
      (key, run) ∈ (calls.changed call next registry started).leaders) :
    (calls.changed call next registry started).Orderly := by
  refine ⟨led, ?_, ?_⟩
  · intro other key' run waits
    obtain ⟨-, rfl, rfl⟩ | ⟨-, before⟩ := (has_changed_iff known).mp waits
    · exact led.lt_length (own rfl)
    · exact (orderly.known before).trans_le longer
  · intro other key' run waits pending
    obtain ⟨-, rfl, rfl⟩ | ⟨-, before⟩ := (has_changed_iff known).mp waits
    · exact own rfl
    · obtain ⟨open', still⟩ := others (orderly.known before) pending
      exact still (orderly.waits before open')

theorem Orderly.leave (orderly : calls.Orderly) (waits : calls.Has call key (.waiting run))
    {next : CallState ρ} (past : next.isOver) :
    (calls.changed call next calls.registry calls.started).Orderly := by
  obtain ⟨others, before, after⟩ := leaders_changed waits
  have rest := after next calls.registry calls.started
  rw [Call.leads?_of_isOver past] at rest
  have same := before.trans rest.symm
  apply orderly.changed waits (orderly.led.congr same) le_rfl
  · intro key' run' _ pending
    exact ⟨pending, same.mem_iff.mp⟩
  · rintro run' rfl
    cases past

/-- The calls with one more, which does nothing yet. -/
def enter (calls : Calls κ ρ) (key : κ) : Calls κ ρ :=
  { calls with list := calls.list ++ [{ key, state := .dropped }] }

theorem has_enter_iff : (calls.enter key).Has call key' state ↔
    calls.Has call key' state ∨ call = calls.list.length ∧ key' = key ∧ state = .dropped := by
  refine getElem?_concat_eq_some_iff.trans ?_
  simp [Has]

theorem has_enter_self (calls : Calls κ ρ) (key : κ) :
    (calls.enter key).Has calls.list.length key .dropped :=
  has_enter_iff.mpr (.inr ⟨rfl, rfl, rfl⟩)

theorem leaders_enter (calls : Calls κ ρ) (key : κ) : (calls.enter key).leaders = calls.leaders := by
  unfold leaders enter
  rw [List.filterMap_append]
  exact List.append_nil _

theorem Orderly.enter (orderly : calls.Orderly) (key : κ) : (calls.enter key).Orderly := by
  refine ⟨?_, ?_, ?_⟩
  · rw [leaders_enter]
    exact orderly.led
  · intro call key' run waits
    obtain before | ⟨-, -, fresh⟩ := has_enter_iff.mp waits
    · exact orderly.known before
    · cases fresh
  · intro call key' run waits
    rw [leaders_enter]
    obtain before | ⟨-, -, fresh⟩ := has_enter_iff.mp waits
    · exact orderly.waits before
    · cases fresh

end Changing

variable {κ ρ : Type} [DecidableEq κ] {calls later : Calls κ ρ} {key key' : κ}
  {call other run run' : Nat} {state : CallState ρ} {step : CallStep κ ρ}

theorem take_of_some (found : calls.registry.active.find? key = some run) (call : Nat) :
    calls.take call key =
      calls.changed call (.waiting run) calls.registry calls.started := by
  unfold take
  rw [Registry.join_of_some found]
  rfl

theorem take_of_none (missing : calls.registry.active.find? key = none) (call : Nat) :
    calls.take call key =
      calls.changed call (.leading calls.registry.channels.length) (calls.registry.begun key)
        (calls.started ++ [call]) := by
  unfold take
  rw [Registry.join_of_none missing]
  rfl

/-- What a step does. As the registry knows the leaders, to publish a result and to give up ends the
run of the call itself. -/
inductive Stepped (calls : Calls κ ρ) : CallStep κ ρ → Calls κ ρ → Prop where
  | idle (step : CallStep κ ρ) : Stepped calls step calls
  | arrived (key : κ) :
      Stepped calls (.arrive key) ((calls.enter key).take calls.list.length key)
  | finished {call run : Nat} {key : κ} (result : ρ) (leads : calls.Has call key (.leading run)) :
      Stepped calls (.finish call result) (calls.changed call (.ended result)
        (calls.registry.finish key run (.published result)) calls.started)
  | abandoned {call run : Nat} {key : κ} (leads : calls.Has call key (.leading run)) :
      Stepped calls (.drop call) (calls.changed call .dropped
        (calls.registry.finish key run .closed) calls.started)
  | left {call run : Nat} {key : κ} (waits : calls.Has call key (.waiting run)) :
      Stepped calls (.drop call) (calls.changed call .dropped calls.registry calls.started)
  | received {call run : Nat} {key : κ} {result : ρ} (waits : calls.Has call key (.waiting run))
      (published : calls.registry.channel run = .published result) :
      Stepped calls (.wake call)
        (calls.changed call (.ended result) calls.registry calls.started)
  | retried {call run : Nat} {key : κ} (waits : calls.Has call key (.waiting run))
      (closed : calls.registry.channel run = .closed) :
      Stepped calls (.wake call) (calls.take call key)

theorem Orderly.stepped (orderly : calls.Orderly) (step : CallStep κ ρ) :
    calls.Stepped step (calls.step step) := by
  cases step with
  | arrive key => exact .arrived key
  | finish call result =>
      change calls.Stepped _ (calls.finish call result)
      unfold finish
      split
      · rename_i key run leads
        rw [orderly.led.publish_eq (mem_leaders.mpr ⟨call, leads⟩)]
        exact .finished result leads
      · exact .idle _
  | drop call =>
      change calls.Stepped _ (calls.drop call)
      unfold drop
      split
      · rename_i key run leads
        rw [orderly.led.abandon_eq (mem_leaders.mpr ⟨call, leads⟩)]
        exact .abandoned leads
      · rename_i key run waits
        exact .left waits
      · exact .idle _
  | wake call =>
      change calls.Stepped _ (calls.wake call)
      unfold wake
      split
      · rename_i key run waits
        split
        · exact .idle _
        · rename_i result published
          exact .received waits published
        · rename_i closed
          exact .retried waits closed
      · exact .idle _

/-- A call that comes to wait, or to lead, joins the others in good order. -/
theorem Orderly.take (orderly : calls.Orderly) (known : calls.Has call key state)
    (idle : Call.leads? ⟨key, state⟩ = none) : (calls.take call key).Orderly := by
  obtain ⟨others, before, after⟩ := leaders_changed known
  rw [idle, Option.toList_none, List.nil_append] at before
  cases found : calls.registry.active.find? key with
  | some run =>
      rw [take_of_some found]
      have same := before.trans (after (.waiting run) calls.registry calls.started).symm
      apply orderly.changed known (orderly.led.congr same) le_rfl
      · intro key' run' _ pending
        exact ⟨pending, same.mem_iff.mp⟩
      · rintro run' ⟨⟩
        exact same.mem_iff.mp (orderly.led.find?_eq_some_iff.mp found)
  | none =>
      rw [take_of_none found]
      have same := (before.cons (key, calls.registry.channels.length)).trans
        (after (.leading calls.registry.channels.length) (calls.registry.begun key)
          (calls.started ++ [call])).symm
      apply orderly.changed known ((orderly.led.begun found).congr same)
      · rw [Registry.length_begun]
        exact Nat.le_succ _
      · intro key' run' earlier pending
        rw [Registry.channel_begun_of_lt earlier] at pending
        exact ⟨pending, fun leads => same.mem_iff.mp (List.mem_cons_of_mem _ leads)⟩
      · rintro run' ⟨⟩

/-- A call that ends its run, in whatever way, leaves the others in good order. -/
theorem Orderly.finish (orderly : calls.Orderly) (leads : calls.Has call key (.leading run))
    {channel : Channel ρ} (closed : channel ≠ .pending) {next : CallState ρ}
    (past : next.isOver) :
    (calls.changed call next (calls.registry.finish key run channel) calls.started).Orderly := by
  obtain ⟨others, before, after⟩ := leaders_changed leads
  have rest := after next (calls.registry.finish key run channel) calls.started
  rw [Call.leads?_of_isOver past, Option.toList_none, List.nil_append] at rest
  have led := orderly.led.congr before
  apply orderly.changed leads ((led.finish channel).congr rest.symm)
  · rw [Registry.length_finish]
  · intro key' run' earlier pending
    have different : run' ≠ run := by
      rintro rfl
      rw [Registry.channel_finish_self earlier] at pending
      exact closed pending
    rw [Registry.channel_finish_of_ne different] at pending
    refine ⟨pending, fun leads' => rest.mem_iff.mpr ?_⟩
    obtain same | other := List.mem_cons.mp (before.mem_iff.mp leads')
    · cases same
      exact absurd rfl different
    · exact other
  · rintro run' rfl
    cases past

theorem orderly_step (orderly : calls.Orderly) (step : CallStep κ ρ) :
    (calls.step step).Orderly := by
  have stepped := orderly.stepped step
  generalize calls.step step = later at stepped
  cases stepped with
  | idle => exact orderly
  | arrived key => exact (orderly.enter key).take (has_enter_self calls key) rfl
  | finished result leads => exact orderly.finish leads (by simp) rfl
  | abandoned leads => exact orderly.finish leads (by simp) rfl
  | left waits => exact orderly.leave waits rfl
  | received waits => exact orderly.leave waits rfl
  | retried waits => exact orderly.take waits rfl

theorem run_append (calls : Calls κ ρ) (steps more : List (CallStep κ ρ)) :
    calls.run (steps ++ more) = (calls.run steps).run more :=
  List.foldl_append

theorem run_concat (calls : Calls κ ρ) (steps : List (CallStep κ ρ)) (step : CallStep κ ρ) :
    calls.run (steps ++ [step]) = (calls.run steps).step step :=
  run_append calls steps [step]

theorem orderly_run (orderly : calls.Orderly) (steps : List (CallStep κ ρ)) :
    (calls.run steps).Orderly := by
  induction steps using List.reverseRecOn with
  | nil => exact orderly
  | append_singleton steps step before =>
      rw [run_concat]
      exact orderly_step before step

end Calls

end Haystack
