import Haystack.Cache.Fetch
import Haystack.Cache.Stages
import Haystack.Flight.Registry

/-!
# Requests for chunks

Any number of requests for chunks of one cache, as a machine whose steps can come in any order. A
request looks the chunk up and, if it is not there, joins the run of fetching it. The leader of a
run looks once more, then fetches, stores what it got and publishes it; the others wait. Looking up
and storing have stages, and other requests can come between them. A request that has been
cancelled gives up between any two of its steps once it has looked for the first time.
-/

namespace Haystack

/-- How far a request is. -/
inductive RequestState where
  /-- Looks the chunk up. -/
  | looking (stage : LookStage)
  /-- About to join a run. -/
  | joining
  | waiting (run : Nat)
  /-- Leads a run and looks once more. -/
  | checking (run : Nat) (stage : LookStage)
  /-- Leads a run and waits for the source. -/
  | fetching (run : Nat)
  /-- Leads a run and stores the chunk. -/
  | storing (run : Nat) (data : Bytes) (stage : StoreStage)
  /-- Leads a run and is about to publish its result. -/
  | publishing (run : Nat) (result : Except ReadError Bytes)
  | ended (result : Except ReadError Bytes)

namespace RequestState

def leads? : RequestState → Option Nat
  | .checking run _ | .fetching run | .storing run _ _ | .publishing run _ => some run
  | _ => none

def result? : RequestState → Option (Except ReadError Bytes)
  | .ended result => some result
  | _ => none

/-- How far a request is after its next step, and what the step makes of the cache and the runs. A
request that needs something from outside stays as it is. -/
def advance (file : String) (cache : TieredCache)
    (registry : Registry String (Except ReadError Bytes)) :
    RequestState → RequestState × TieredCache × Registry String (Except ReadError Bytes)
  | .looking stage =>
    match cache.look file stage with
    | (.more stage, cache) => (.looking stage, cache, registry)
    | (.done (some data), cache) => (.ended (.ok data), cache, registry)
    | (.done none, cache) => (.joining, cache, registry)
  | .joining =>
    match registry.join file with
    | (.leader run, registry) => (.checking run .memory, cache, registry)
    | (.waiter run, registry) => (.waiting run, cache, registry)
  | .waiting run =>
    match registry.channel run with
    | .pending => (.waiting run, cache, registry)
    | .published result => (.ended result, cache, registry)
    | .closed => (.joining, cache, registry)
  | .checking run stage =>
    match cache.look file stage with
    | (.more stage, cache) => (.checking run stage, cache, registry)
    | (.done (some data), cache) => (.publishing run (.ok data), cache, registry)
    | (.done none, cache) => (.fetching run, cache.countFetch, registry)
  | .fetching run => (.fetching run, cache, registry)
  | .storing run data stage =>
    match cache.save file data stage with
    | (.more stage, cache) => (.storing run data stage, cache, registry)
    | (.done (), cache) => (.publishing run (.ok data), cache, registry)
  | .publishing _ result => (.ended result, cache, registry.publish file result)
  | .ended result => (.ended result, cache, registry)

/-- Whether a request can be cancelled. -/
def canGiveUp : RequestState → Bool
  | .looking _ | .ended _ => false
  | _ => true

end RequestState

/-- A request for a chunk. -/
structure Request where
  file : String
  state : RequestState

/-- A step of the machine. Requests are numbered in order of their arrival. -/
inductive RequestStep where
  | arrive (file : String)
  /-- The next step of a request that needs nothing from outside. -/
  | advance (request : Nat)
  /-- The source answers a request. -/
  | answer (request : Nat) (result : Except FetchError Bytes)
  /-- A cancelled request gives up. -/
  | cancel (request : Nat)

/-- All requests that have arrived, the cache and the runs that they share. -/
structure Requests where
  cache : TieredCache
  registry : Registry String (Except ReadError Bytes) := {}
  list : List Request := []

namespace Requests

def state? (requests : Requests) (request : Nat) : Option RequestState :=
  requests.list[request]?.map (·.state)

def put (requests : Requests) (request : Nat) (state : RequestState) : Requests :=
  { requests with list := requests.list.modify request fun it => { it with state } }

def arrive (requests : Requests) (file : String) : Requests :=
  { requests with list := requests.list ++ [{ file, state := .looking .memory }] }

def advance (requests : Requests) (request : Nat) : Requests :=
  match requests.list[request]? with
  | none => requests
  | some { file, state } =>
    let (state, cache, registry) := state.advance file requests.cache requests.registry
    { requests.put request state with cache, registry }

/-- Hands the answer of the source to the request that waits for it. -/
def answer (requests : Requests) (request : Nat) (result : Except FetchError Bytes) : Requests :=
  match requests.state? request with
  | some (.fetching run) =>
    match result with
    | .ok data => requests.put request (.storing run data .memory)
    | .error problem => requests.put request (.publishing run (.error (.fetch problem)))
  | _ => requests

/-- Lets a cancelled request give up. A run that it leads is abandoned. -/
def cancel (requests : Requests) (request : Nat) : Requests :=
  match requests.list[request]? with
  | none => requests
  | some { file, state } =>
    if state.canGiveUp then
      let given := requests.put request (.ended (.error .cancelled))
      match state.leads? with
      | none => given
      | some run => { given with registry := given.registry.abandon file run }
    else requests

/-- The requests after a step. A step that does not apply changes nothing. -/
def step (requests : Requests) : RequestStep → Requests
  | .arrive file => requests.arrive file
  | .advance request => requests.advance request
  | .answer request result => requests.answer request result
  | .cancel request => requests.cancel request

def run (requests : Requests) (steps : List RequestStep) : Requests :=
  steps.foldl step requests

/-- A bound for how many steps a request can advance without anything from outside. It may look
the chunk up twice, with three stages for each disk tier and two more. -/
def longestAdvance (requests : Requests) : Nat :=
  2 * (3 * requests.cache.disks.length + 2) + 6

/-- The requests after each of them, in order of arrival, has advanced as far as it can. -/
def settle (requests : Requests) : Requests :=
  requests.run ((List.range requests.list.length).flatMap fun request =>
    List.replicate requests.longestAdvance (.advance request))

end Requests

end Haystack
