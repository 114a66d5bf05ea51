import Haystack.Table

/-!
# One run at a time

Of several callers who want the result of one operation, the first leads: it runs the operation,
and the others wait for what comes out. The registry says for every key whose run is under way.
Runs are numbered, so that a leader that is dropped never ends a later run of its key. A waiter
keeps to the channel of the run it joined: the result is published there, or the channel is closed
because the leader went away, and then the waiter joins anew.
-/

namespace Haystack

/-- What the waiters of a run can see of it. -/
inductive Channel (ρ : Type) where
  /-- The run is under way. -/
  | pending
  /-- The run is over and this is its result. -/
  | published (result : ρ)
  /-- The leader went away without a result. -/
  | closed
  deriving DecidableEq, Repr

/-- The part that someone who joins gets: to lead a new run, or to wait for one under way. -/
inductive Seat where
  | leader (run : Nat)
  | waiter (run : Nat)
  deriving DecidableEq, Repr

/-- The runs under way by their keys, and the channels of all runs by number. -/
structure Registry (κ ρ : Type) where
  active : Table κ Nat := []
  channels : List (Channel ρ) := []
  deriving Repr, Inhabited

namespace Registry

variable {κ ρ : Type} [DecidableEq κ]

def inFlight (registry : Registry κ ρ) : Nat :=
  registry.active.length

/-- What can be seen of a run; a run that never was is closed. -/
def channel (registry : Registry κ ρ) (run : Nat) : Channel ρ :=
  registry.channels.getD run .closed

def finish (registry : Registry κ ρ) (key : κ) (run : Nat) (channel : Channel ρ) :
    Registry κ ρ :=
  { active := registry.active.erase key, channels := registry.channels.set run channel }

/-- Joins the run of a key, or begins one. -/
def join (registry : Registry κ ρ) (key : κ) : Seat × Registry κ ρ :=
  match registry.active.find? key with
  | some run => (.waiter run, registry)
  | none =>
    let run := registry.channels.length
    (.leader run,
      { active := registry.active.insert key run, channels := registry.channels ++ [.pending] })

def publish (registry : Registry κ ρ) (key : κ) (result : ρ) : Registry κ ρ :=
  match registry.active.find? key with
  | some run => registry.finish key run (.published result)
  | none => registry

/-- Ends a run without a result, if it is still the run of its key. -/
def abandon (registry : Registry κ ρ) (key : κ) (run : Nat) : Registry κ ρ :=
  if registry.active.find? key = some run then registry.finish key run .closed else registry

end Registry

end Haystack
