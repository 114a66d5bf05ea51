import Haystack.Flight.Registry
import Haystack.Proofs.Table.Distinct

/-!
# A registry and the leaders of its runs

Who uses a registry keeps it in step with the calls that lead a run: to each leader belongs one
entry, no key and no run has two of them, and the channel of a run that is under way is open.
Beginning a run adds a leader, and ending one, with a result or without, takes its leader away.
-/

namespace Haystack

theorem getElem?_modify_eq_some_iff {α : Type} {list : List α} {place other : Nat} {it it' : α}
    (known : list[place]? = some it) (change : α → α) :
    (list.modify place change)[other]? = some it' ↔
      other = place ∧ it' = change it ∨ other ≠ place ∧ list[other]? = some it' := by
  by_cases here : other = place
  · subst here
    rw [List.getElem?_modify_eq, known]
    simp [eq_comm]
  · rw [List.getElem?_modify_ne _ _ (Ne.symm here)]
    simp [here]

theorem getElem?_concat_eq_some_iff {α : Type} {list : List α} {place : Nat} {it new : α} :
    (list ++ [new])[place]? = some it ↔
      list[place]? = some it ∨ place = list.length ∧ it = new := by
  rw [List.getElem?_append]
  split
  · rename_i known
    simp [known.ne]
  · rename_i beyond
    rw [List.getElem?_eq_none (Nat.not_lt.mp beyond), List.getElem?_singleton]
    by_cases here : place = list.length
    · simp [here, eq_comm]
    · simp [here, show place - list.length ≠ 0 by omega]

namespace Registry

variable {κ ρ : Type} {registry : Registry κ ρ} {leaders : List (κ × Nat)}
  {key : κ} {run other : Nat} {channel : Channel ρ}

theorem lt_length_of_ne_closed (known : registry.channel run ≠ .closed) :
    run < registry.channels.length := by
  by_contra beyond
  apply known
  unfold Registry.channel
  rw [List.getD_eq_getElem?_getD, List.getElem?_eq_none (Nat.not_lt.mp beyond), Option.getD_none]

theorem lt_length_of_pending (pending : registry.channel run = .pending) :
    run < registry.channels.length :=
  lt_length_of_ne_closed (by simp [pending])

theorem getElem?_channels (known : run < registry.channels.length) :
    registry.channels[run]? = some (registry.channel run) := by
  unfold Registry.channel
  rw [List.getD_eq_getElem?_getD, List.getElem?_eq_getElem known, Option.getD_some]

/-- The runs under way are those of the leaders. Each leader is given by its key and its run. -/
structure Led (registry : Registry κ ρ) (leaders : List (κ × Nat)) : Prop where
  same : registry.active.Perm leaders
  keys : (leaders.map Prod.fst).Nodup
  runs : (leaders.map Prod.snd).Nodup
  pending : ∀ leader ∈ leaders, registry.channel leader.2 = .pending

theorem Led.congr (led : registry.Led leaders) {leaders' : List (κ × Nat)}
    (same : leaders.Perm leaders') : registry.Led leaders' := by
  refine ⟨led.same.trans same, ?_, ?_, ?_⟩
  · exact (same.map Prod.fst).nodup_iff.mp led.keys
  · exact (same.map Prod.snd).nodup_iff.mp led.runs
  · intro leader member
    exact led.pending leader (same.mem_iff.mpr member)

theorem led_empty : Led ({} : Registry κ ρ) [] :=
  ⟨.refl _, .nil, .nil, by simp⟩

theorem Led.distinct (led : registry.Led leaders) : registry.active.Distinct :=
  (led.same.map Prod.fst).nodup_iff.mpr led.keys

theorem Led.lt_length (led : registry.Led leaders) (leads : (key, run) ∈ leaders) :
    run < registry.channels.length :=
  lt_length_of_pending (led.pending _ leads)

theorem Led.key_eq (led : registry.Led leaders) {key' : κ} (leads : (key, run) ∈ leaders)
    (leads' : (key', run) ∈ leaders) : key = key' :=
  congrArg Prod.fst (List.inj_on_of_nodup_map led.runs leads leads' rfl)

variable [DecidableEq κ]

/-- The registry after a run of a key has begun. -/
def begun (registry : Registry κ ρ) (key : κ) : Registry κ ρ :=
  { active := registry.active.insert key registry.channels.length
    channels := registry.channels ++ [.pending] }

theorem join_of_some (found : registry.active.find? key = some run) :
    registry.join key = (.waiter run, registry) := by
  unfold join
  rw [found]

theorem join_of_none (missing : registry.active.find? key = none) :
    registry.join key = (.leader registry.channels.length, registry.begun key) := by
  unfold join
  rw [missing]
  rfl

theorem length_begun (registry : Registry κ ρ) (key : κ) :
    (registry.begun key).channels.length = registry.channels.length + 1 :=
  List.length_append

theorem channel_begun_self (registry : Registry κ ρ) (key : κ) :
    (registry.begun key).channel registry.channels.length = .pending := by
  simp [begun, Registry.channel, List.getD_eq_getElem?_getD]

theorem channel_begun_of_lt (known : run < registry.channels.length) (key : κ) :
    (registry.begun key).channel run = registry.channel run := by
  simp [begun, Registry.channel, List.getD_eq_getElem?_getD, List.getElem?_append_left known]

theorem length_finish (registry : Registry κ ρ) (key : κ) (run : Nat) (channel : Channel ρ) :
    (registry.finish key run channel).channels.length = registry.channels.length :=
  List.length_set

theorem channel_finish_self (known : run < registry.channels.length) (key : κ)
    (channel : Channel ρ) : (registry.finish key run channel).channel run = channel := by
  simp [finish, Registry.channel, List.getD_eq_getElem?_getD, known]

theorem channel_finish_of_ne (different : other ≠ run) (key : κ) (channel : Channel ρ) :
    (registry.finish key run channel).channel other = registry.channel other := by
  simp [finish, Registry.channel, List.getD_eq_getElem?_getD,
    List.getElem?_set_ne different.symm]

theorem Led.find?_eq_some_iff (led : registry.Led leaders) :
    registry.active.find? key = some run ↔ (key, run) ∈ leaders := by
  rw [led.distinct.find?_eq_some_iff, led.same.mem_iff]

theorem Led.begun (led : registry.Led leaders) (missing : registry.active.find? key = none) :
    (registry.begun key).Led ((key, registry.channels.length) :: leaders) := by
  have fresh : ∀ leader ∈ leaders, leader.2 < registry.channels.length :=
    fun leader member => led.lt_length member
  refine ⟨?_, ?_, ?_, ?_⟩
  · change (_ :: Table.erase registry.active key).Perm _
    rw [Table.erase_of_find?_eq_none missing]
    exact led.same.cons _
  · refine List.nodup_cons.mpr ⟨?_, led.keys⟩
    intro again
    obtain ⟨⟨_, run⟩, member, rfl⟩ := List.mem_map.mp again
    rw [led.find?_eq_some_iff.mpr member] at missing
    cases missing
  · refine List.nodup_cons.mpr ⟨?_, led.runs⟩
    intro again
    obtain ⟨leader, member, same⟩ := List.mem_map.mp again
    exact absurd same (fresh leader member).ne
  · intro leader member
    obtain rfl | before := List.mem_cons.mp member
    · exact channel_begun_self registry key
    · rw [channel_begun_of_lt (fresh leader before)]
      exact led.pending leader before

theorem Led.finish (led : registry.Led ((key, run) :: leaders)) (channel : Channel ρ) :
    (registry.finish key run channel).Led leaders := by
  obtain ⟨otherKeys, keys⟩ := List.nodup_cons.mp led.keys
  obtain ⟨otherRuns, runs⟩ := List.nodup_cons.mp led.runs
  refine ⟨?_, keys, runs, ?_⟩
  · have erased := led.same.filter fun pair => pair.1 != key
    have rest : (leaders.filter fun pair => pair.1 != key) = leaders := by
      apply List.filter_eq_self.mpr
      intro leader member
      have known := List.mem_map_of_mem (f := Prod.fst) member
      exact bne_iff_ne.mpr fun same => otherKeys (same ▸ known)
    rw [List.filter_cons_of_neg (by simp), rest] at erased
    exact erased
  · intro leader member
    have known := List.mem_map_of_mem (f := Prod.snd) member
    have different : leader.2 ≠ run := fun same => otherRuns (same ▸ known)
    rw [channel_finish_of_ne different]
    exact led.pending leader (List.mem_cons_of_mem _ member)

theorem Led.publish_eq (led : registry.Led leaders) (leads : (key, run) ∈ leaders) (result : ρ) :
    registry.publish key result = registry.finish key run (.published result) := by
  unfold publish
  rw [led.find?_eq_some_iff.mpr leads]

theorem Led.abandon_eq (led : registry.Led leaders) (leads : (key, run) ∈ leaders) :
    registry.abandon key run = registry.finish key run .closed := by
  unfold abandon
  rw [if_pos (led.find?_eq_some_iff.mpr leads)]

end Registry

end Haystack
