import Haystack.Flight.Registry

/-!
# Calls that share runs

Any number of calls for any number of keys, as a machine whose steps can come in any order: a call
arrives, the operation of a leading call ends with a result, a call is dropped, or a waiting call
wakes up and looks at its channel. What the operation does is not part of the machine; its result
comes with the step that ends it.
-/

namespace Haystack

/-- How far a call is. -/
inductive CallState (ρ : Type) where
  /-- Its operation runs. -/
  | leading (run : Nat)
  /-- It waits for another call's run. -/
  | waiting (run : Nat)
  | ended (result : ρ)
  | dropped
  deriving DecidableEq, Repr

/-- A call for a key. -/
structure Call (κ ρ : Type) where
  key : κ
  state : CallState ρ
  deriving Repr

/-- A step of the machine. Calls are numbered in order of their arrival. -/
inductive CallStep (κ ρ : Type) where
  | arrive (key : κ)
  | finish (call : Nat) (result : ρ)
  | drop (call : Nat)
  | wake (call : Nat)
  deriving Repr

/-- All calls that have arrived, and the runs that they share. -/
structure Calls (κ ρ : Type) where
  registry : Registry κ ρ := {}
  list : List (Call κ ρ) := []
  /-- The calls whose operations began, in order. -/
  started : List Nat := []
  deriving Repr, Inhabited

namespace Calls

variable {κ ρ : Type} [DecidableEq κ]

def state? (calls : Calls κ ρ) (call : Nat) : Option (CallState ρ) :=
  calls.list[call]?.map (·.state)

def put (calls : Calls κ ρ) (call : Nat) (state : CallState ρ) : Calls κ ρ :=
  { calls with list := calls.list.modify call fun it => { it with state } }

/-- Lets a call join the run of its key, or lead one. -/
def take (calls : Calls κ ρ) (call : Nat) (key : κ) : Calls κ ρ :=
  match calls.registry.join key with
  | (.leader run, registry) =>
    { calls.put call (.leading run) with registry, started := calls.started ++ [call] }
  | (.waiter run, registry) => { calls.put call (.waiting run) with registry }

def arrive (calls : Calls κ ρ) (key : κ) : Calls κ ρ :=
  let call := calls.list.length
  take { calls with list := calls.list ++ [{ key, state := .dropped }] } call key

def finish (calls : Calls κ ρ) (call : Nat) (result : ρ) : Calls κ ρ :=
  match calls.list[call]? with
  | some { key, state := .leading _ } =>
    { calls.put call (.ended result) with registry := calls.registry.publish key result }
  | _ => calls

def drop (calls : Calls κ ρ) (call : Nat) : Calls κ ρ :=
  match calls.list[call]? with
  | some { key, state := .leading run } =>
    { calls.put call .dropped with registry := calls.registry.abandon key run }
  | some { key := _, state := .waiting _ } => calls.put call .dropped
  | _ => calls

def wake (calls : Calls κ ρ) (call : Nat) : Calls κ ρ :=
  match calls.list[call]? with
  | some { key, state := .waiting run } =>
    match calls.registry.channel run with
    | .pending => calls
    | .published result => calls.put call (.ended result)
    | .closed => calls.take call key
  | _ => calls

/-- The calls after a step. A step that does not apply changes nothing. -/
def step (calls : Calls κ ρ) : CallStep κ ρ → Calls κ ρ
  | .arrive key => calls.arrive key
  | .finish call result => calls.finish call result
  | .drop call => calls.drop call
  | .wake call => calls.wake call

def run (calls : Calls κ ρ) (steps : List (CallStep κ ρ)) : Calls κ ρ :=
  steps.foldl step calls

/-- The calls after all that wait have woken up, in order of arrival. -/
def settle (calls : Calls κ ρ) : Calls κ ρ :=
  calls.run ((List.range calls.list.length).map .wake)

end Calls

end Haystack
