import Haystack.Proofs.Volume.Shelf

/-!
# Deletions that overlap with other requests

A write waits for its turn and is then done at once. A deletion first looks for its needle and only
then waits for its turn, so that others may append in between. If nobody appends an entry of its
number meanwhile, all requests are answered as if they came one after another. If somebody does, a
needle may be freed twice, or one be buried that nobody asked to delete.
-/

namespace Haystack.Volume

/-- How far a request has come. -/
inductive Task where
  | asked (request : Request)
  /-- A deletion that has found its needle. -/
  | checked (now : UInt64) (id : NeedleId) (cookie : Cookie) (size : Size)
  | answered (request : Request) (answer : Answer)

namespace Task

/-- The number of which the next step of a task may append an entry. -/
def target? : Task → Option NeedleId
  | asked (.write _ needle) => some needle.id
  | checked _ id _ _ => some id
  | _ => none

def request : Task → Request
  | asked request => request
  | checked now id cookie _ => .delete now id cookie
  | answered request _ => request

def outcome? : Task → Option (Request × Answer)
  | answered request answer => some (request, answer)
  | _ => none

end Task

/-- The first step of a deletion. -/
def lookFor (volume : Volume) (now : UInt64) (id : NeedleId) (cookie : Cookie) : Task :=
  match volume.checkDelete id cookie with
  | .error problem => .answered (.delete now id cookie) (.freed (.error problem))
  | .ok none => .answered (.delete now id cookie) (.freed (.ok {}))
  | .ok (some size) => .checked now id cookie size

/-- The next step of a task. -/
def advance (volume : Volume) : Task → Task × Volume
  | .asked (.delete now id cookie) => (volume.lookFor now id cookie, volume)
  | .asked request => (.answered request (volume.serve request).1, (volume.serve request).2)
  | .checked now id cookie size =>
    (.answered (.delete now id cookie) (.freed ((volume.bury now id cookie).1.map fun _ => size)),
      (volume.bury now id cookie).2)
  | .answered request answer => (.answered request answer, volume)

theorem request_advance (volume : Volume) (task : Task) :
    (volume.advance task).1.request = task.request := by
  cases task with
  | asked request =>
      cases request with
      | write now needle => rfl
      | read id cookie => rfl
      | delete now id cookie =>
          change (volume.lookFor now id cookie).request = _
          unfold lookFor
          cases volume.checkDelete id cookie with
          | error problem => rfl
          | ok found => cases found <;> rfl
  | checked now id cookie size => rfl
  | answered request answer => rfl

/-- Requests are served one after another, with these answers. -/
def Serves (volume : Volume) : List (Request × Answer) → Volume → Prop
  | [], later => later = volume
  | (request, answer) :: rest, later =>
    (volume.serve request).1 = answer ∧ (volume.serve request).2.Serves rest later

variable {volume later : Volume} {shelf : Shelf} {id : NeedleId} {slot : Option Needle}

theorem Serves.concat {order : List (Request × Answer)} (served : volume.Serves order later)
    (request : Request) :
    volume.Serves (order ++ [(request, (later.serve request).1)]) (later.serve request).2 := by
  induction order generalizing volume with
  | nil =>
      subst served
      exact ⟨rfl, rfl⟩
  | cons first rest ih => exact ⟨served.1, ih served.2⟩

theorem Kept.read_congr (kept : volume.Kept id slot) (kept' : later.Kept id slot)
    (same : later.id = volume.id) (cookie : Cookie) :
    later.read id cookie = volume.read id cookie := by
  obtain ⟨needle, rfl, -, rfl, read⟩ | ⟨other, read⟩ := kept.read_cases cookie
  · rw [read, kept'.read_known]
  · rw [read, kept'.read_unknown other, same]

theorem checkDelete_eq_some_iff (kept : volume.Kept id slot) {cookie : Cookie} {size : Size} :
    volume.checkDelete id cookie = .ok (some size) ↔
      ∃ needle, slot = some needle ∧ needle.cookie = cookie ∧ needle.size = size := by
  unfold checkDelete
  obtain ⟨needle, rfl, -, rfl, read⟩ | ⟨other, read⟩ := kept.read_cases cookie
  · rw [read]
    simp
  · rw [read]
    constructor
    · intro found
      cases found
    · rintro ⟨needle, stands, own, -⟩
      exact absurd own (other needle stands)

/-- A step appends nothing, or an entry of its target. -/
theorem advance_cases (ready : volume.Ready) (task : Task) :
    (volume.advance task).2 = volume ∨
      ∃ bytes entry stamp, task.target? = some entry.key ∧
        (volume.advance task).2 = volume.logged bytes entry stamp := by
  cases task with
  | asked request =>
      cases request with
      | write now needle =>
          have written := written_of_ready ready now needle
          change (volume.write now needle).2 = _ ∨ ∃ _ _ _, _ ∧ (volume.write now needle).2 = _
          generalize volume.write now needle = result at written
          cases written with
          | full long data => exact .inl rfl
          | unfit encoded => exact .inl rfl
          | done fits short room => exact .inr ⟨_, _, _, rfl, rfl⟩
      | read id cookie => exact .inl rfl
      | delete now id cookie => exact .inl rfl
  | checked now id cookie size =>
      right
      change ∃ _ _ _, _ ∧ (volume.bury now id cookie).2 = _
      rw [bury_of_ready ready]
      exact ⟨_, _, _, rfl, rfl⟩
  | answered request answer => exact .inl rfl

theorem checkDelete_advance (keeps : volume.Keeps shelf) {task : Task}
    (other : task.target? ≠ some id) (cookie : Cookie) :
    (volume.advance task).2.checkDelete id cookie = volume.checkDelete id cookie := by
  obtain same | ⟨bytes, entry, stamp, target, appended⟩ := advance_cases keeps.ready task
  · rw [same]
  · have distinct : id ≠ entry.key := by
      rintro rfl
      exact other target
    have kept := @Kept.logged_of_ne volume id _ bytes entry stamp (keeps.kept id) distinct
    unfold checkDelete
    rw [appended, (keeps.kept id).read_congr kept rfl]

theorem serve_delete_of_found {cookie : Cookie} {size : Size}
    (found : volume.checkDelete id cookie = .ok (some size)) (now : UInt64) :
    volume.serve (.delete now id cookie) =
      (.freed ((volume.bury now id cookie).1.map fun _ => size),
        (volume.bury now id cookie).2) := by
  rw [serve, delete_of_found found]

theorem lookFor_cases (volume : Volume) (now : UInt64) (id : NeedleId) (cookie : Cookie) :
    (∃ size, volume.checkDelete id cookie = .ok (some size) ∧
        volume.lookFor now id cookie = .checked now id cookie size) ∨
      ∃ answer, volume.serve (.delete now id cookie) = (answer, volume) ∧
        volume.lookFor now id cookie = .answered (.delete now id cookie) answer := by
  rw [serve]
  unfold delete lookFor
  cases volume.checkDelete id cookie with
  | error problem => exact .inr ⟨_, rfl, rfl⟩
  | ok found =>
      cases found with
      | none => exact .inr ⟨_, rfl, rfl⟩
      | some size => exact .inl ⟨size, rfl, rfl⟩

/-- What the next step of a task may come to: there is none, a deletion finds its needle, or the
request is answered as if it came only now. -/
inductive Advanced (volume : Volume) : Task → Task × Volume → Prop where
  | idle {request : Request} {answer : Answer} :
      Advanced volume (.answered request answer) (.answered request answer, volume)
  | found {task : Task} {now : UInt64} {id : NeedleId} {cookie : Cookie} {size : Size}
      (waiting : task.outcome? = none) (check : volume.checkDelete id cookie = .ok (some size)) :
      Advanced volume task (.checked now id cookie size, volume)
  | served {task : Task} (request : Request) (waiting : task.outcome? = none) :
      Advanced volume task (.answered request (volume.serve request).1, (volume.serve request).2)

/-- A deletion that still finds its needle is answered as if it came only now. -/
theorem advanced (task : Task)
    (still : ∀ now id cookie size, task = .checked now id cookie size →
      volume.checkDelete id cookie = .ok (some size)) :
    Advanced volume task (volume.advance task) := by
  cases task with
  | asked request =>
      cases request with
      | write now needle => exact .served (.write now needle) rfl
      | read id cookie => exact .served (.read id cookie) rfl
      | delete now id cookie =>
          change Advanced volume _ (volume.lookFor now id cookie, volume)
          obtain ⟨size, found, waits⟩ | ⟨answer, served, ended⟩ :=
            volume.lookFor_cases now id cookie
          · rw [waits]
            exact .found rfl found
          · have advanced := @Advanced.served volume (.asked (.delete now id cookie))
              (.delete now id cookie) rfl
            rw [served] at advanced
            rwa [ended]
  | checked now id cookie size =>
      have served := @Advanced.served volume (.checked now id cookie size)
        (.delete now id cookie) rfl
      rwa [serve_delete_of_found (still now id cookie size rfl)] at served
  | answered request answer => exact .idle

/-- Requests that share a volume. -/
structure Shared where
  volume : Volume
  tasks : List Task

namespace Shared

/-- One of the tasks takes its next step. -/
def step (shared : Shared) (place : Nat) : Shared :=
  match shared.tasks[place]? with
  | none => shared
  | some task =>
    { volume := (shared.volume.advance task).2
      tasks := shared.tasks.set place (shared.volume.advance task).1 }

def run (shared : Shared) (places : List Nat) : Shared :=
  places.foldl step shared

def outcomes (shared : Shared) : List (Request × Answer) :=
  shared.tasks.filterMap Task.outcome?

/-- The next step of a task appends no entry of a needle that another deletion has found. -/
def Undisturbed (shared : Shared) (place : Nat) : Prop :=
  ∀ task, shared.tasks[place]? = some task → ∀ (other : Nat) now id cookie size, other ≠ place →
    shared.tasks[other]? = some (.checked now id cookie size) → task.target? ≠ some id

def AllUndisturbed (shared : Shared) : List Nat → Prop
  | [] => True
  | place :: rest => shared.Undisturbed place ∧ (shared.step place).AllUndisturbed rest

/-- So far all is as if the answered requests had been served in some order. -/
structure Ordered (shared : Shared) (start : Volume) (order : List (Request × Answer)) : Prop where
  keeps : ∃ shelf, shared.volume.Keeps shelf
  found : ∀ (place : Nat) now id cookie size,
    shared.tasks[place]? = some (.checked now id cookie size) →
      shared.volume.checkDelete id cookie = .ok (some size)
  outcomes : shared.outcomes.Perm order
  served : start.Serves order shared.volume

variable {shared : Shared} {start : Volume} {order : List (Request × Answer)}

theorem step_of_none {place : Nat} (none : shared.tasks[place]? = none) :
    shared.step place = shared := by
  unfold step
  rw [none]

theorem step_of_some {place : Nat} {task : Task} (known : shared.tasks[place]? = some task) :
    shared.step place =
      { volume := (shared.volume.advance task).2
        tasks := shared.tasks.set place (shared.volume.advance task).1 } := by
  unfold step
  rw [known]

/-- The outcomes after a task has gone on that had none. -/
theorem outcomes_set {tasks : List Task} {place : Nat} {task : Task}
    (known : tasks[place]? = some task) (waiting : task.outcome? = none) (next : Task) :
    ((tasks.set place next).filterMap Task.outcome?).Perm
      (tasks.filterMap Task.outcome? ++ next.outcome?.toList) := by
  obtain ⟨bound, rfl⟩ := List.getElem?_eq_some_iff.mp known
  obtain ⟨front, back, parts, -, changed⟩ := @List.exists_of_set _ _ next _ bound
  have before : tasks.filterMap Task.outcome? =
      front.filterMap Task.outcome? ++ back.filterMap Task.outcome? := by
    rw [parts, List.filterMap_append, List.filterMap_cons_none waiting]
  have last : [next].filterMap Task.outcome? = next.outcome?.toList := by
    cases next <;> rfl
  rw [changed, before, List.filterMap_append, List.append_assoc, ← List.singleton_append,
    List.filterMap_append, last]
  apply List.Perm.append_left
  exact List.perm_append_comm

theorem requests_step (shared : Shared) (place : Nat) :
    (shared.step place).tasks.map Task.request = shared.tasks.map Task.request := by
  cases known : shared.tasks[place]? with
  | none => rw [step_of_none known]
  | some task =>
      obtain ⟨bound, rfl⟩ := List.getElem?_eq_some_iff.mp known
      rw [step_of_some known, List.map_set, request_advance, ← List.map_set,
        List.set_getElem_self]

theorem requests_run (shared : Shared) (places : List Nat) :
    (shared.run places).tasks.map Task.request = shared.tasks.map Task.request := by
  induction places generalizing shared with
  | nil => rfl
  | cons place rest ih => exact (ih (shared.step place)).trans (requests_step shared place)

/-- What deletions have found is found after a step as well if it is found by the others, and by the
task that went on. -/
theorem found_set {tasks : List Task} {place : Nat} {next : Task} {later : Volume}
    (own : ∀ now id cookie size, next = .checked now id cookie size →
      later.checkDelete id cookie = .ok (some size))
    (others : ∀ (other : Nat) now id cookie size, other ≠ place →
      tasks[other]? = some (.checked now id cookie size) →
        later.checkDelete id cookie = .ok (some size)) :
    ∀ (other : Nat) now id cookie size,
      (tasks.set place next)[other]? = some (.checked now id cookie size) →
        later.checkDelete id cookie = .ok (some size) := by
  intro other now id cookie size waits
  by_cases here : other = place
  · subst here
    have bound : other < tasks.length := by
      have inside := (List.getElem?_eq_some_iff.mp waits).1
      rwa [List.length_set] at inside
    rw [List.getElem?_set_self bound, Option.some.injEq] at waits
    exact own now id cookie size waits
  · rw [List.getElem?_set_ne (Ne.symm here)] at waits
    exact others other now id cookie size here waits

/-- A step keeps a volume that keeps a shelf, and what other deletions have found. -/
theorem Ordered.step (ordered : shared.Ordered start order) {place : Nat}
    (undisturbed : shared.Undisturbed place) :
    ∃ order, (shared.step place).Ordered start order := by
  cases known : shared.tasks[place]? with
  | none =>
      rw [step_of_none known]
      exact ⟨order, ordered⟩
  | some task =>
      obtain ⟨shelf, keeps⟩ := ordered.keeps
      rw [step_of_some known]
      have still : ∀ now id cookie size, task = .checked now id cookie size →
          shared.volume.checkDelete id cookie = .ok (some size) := by
        rintro now id cookie size rfl
        exact ordered.found place now id cookie size known
      have others : ∀ (other : Nat) now id cookie size, other ≠ place →
          shared.tasks[other]? = some (.checked now id cookie size) →
            (shared.volume.advance task).2.checkDelete id cookie = .ok (some size) := by
        intro other now id cookie size different waits
        have elsewhere := undisturbed task known other now id cookie size different waits
        rw [checkDelete_advance keeps elsewhere]
        exact ordered.found other now id cookie size waits
      have advanced := shared.volume.advanced task still
      generalize shared.volume.advance task = result at advanced others ⊢
      cases advanced with
      | @idle request answer =>
          have same : shared.tasks.set place (.answered request answer) = shared.tasks := by
            rw [← (List.getElem?_eq_some_iff.mp known).2, List.set_getElem_self]
          rw [same]
          exact ⟨order, ordered⟩
      | @found _ now id cookie size waiting check =>
          refine ⟨order, ⟨shelf, keeps⟩, found_set ?_ others, ?_, ordered.served⟩
          · intro now id cookie size same
            cases same
            exact check
          · have added := outcomes_set known waiting (.checked now id cookie size)
            rw [show (Task.checked now id cookie size).outcome? = none from rfl, Option.toList_none,
              List.append_nil] at added
            exact added.trans ordered.outcomes
      | served request waiting =>
          obtain ⟨next, -, keeps'⟩ := keeps.serve request
          refine ⟨_, ⟨next, keeps'⟩, found_set ?_ others, ?_, ordered.served.concat request⟩
          · intro now id cookie size same
            cases same
          · have added := outcomes_set known waiting
              (.answered request (shared.volume.serve request).1)
            exact added.trans (ordered.outcomes.append_right _)

theorem Ordered.run (ordered : shared.Ordered start order) {places : List Nat}
    (undisturbed : shared.AllUndisturbed places) :
    ∃ order, (shared.run places).Ordered start order := by
  induction places generalizing shared order with
  | nil => exact ⟨order, ordered⟩
  | cons place rest ih =>
      obtain ⟨first, others⟩ := undisturbed
      obtain ⟨next, ordered'⟩ := ordered.step first
      exact ih ordered' others

/-- As long as no entry of a needle's number is appended between the two steps of its deletion, the
requests that are answered are answered as if they came one after another, in some order. -/
theorem undisturbed_is_sequential (keeps : start.Keeps shelf) (requests : List Request)
    {places : List Nat}
    (undisturbed : AllUndisturbed ⟨start, requests.map Task.asked⟩ places) :
    let shared := run ⟨start, requests.map Task.asked⟩ places
    shared.tasks.map Task.request = requests ∧
      ∃ order, shared.outcomes.Perm order ∧ start.Serves order shared.volume := by
  have fresh : Ordered ⟨start, requests.map Task.asked⟩ start [] := by
    refine ⟨⟨shelf, keeps⟩, ?_, ?_, rfl⟩
    · intro place now id cookie size waits
      rw [List.getElem?_map] at waits
      obtain ⟨request, -, asked⟩ := Option.map_eq_some_iff.mp waits
      cases asked
    · have none : (requests.map Task.asked).filterMap Task.outcome? = [] := by
        rw [List.filterMap_map]
        exact List.filterMap_eq_nil_iff.mpr fun request _ => rfl
      unfold outcomes
      rw [none]
  obtain ⟨order, ordered⟩ := fresh.run undisturbed
  refine ⟨?_, order, ordered.outcomes, ordered.served⟩
  have own : (requests.map Task.asked).map Task.request = requests := by
    rw [List.map_map]
    exact List.map_id requests
  exact (requests_run _ places).trans own

theorem freed_or_empty {now : UInt64} {cookie : Cookie} {size : Size} {later : Volume}
    {next : Shelf}
    (step : shelf.Step start (.delete now id cookie) (.freed (.ok size)) later next) :
    size = {} ∨ (shelf id).isSome ∧ next id = none := by
  cases step with
  | delete stands same =>
      right
      rw [stands, Function.update_self]
      exact ⟨rfl, rfl⟩
  | ignore other => exact .inl rfl

/-- Of two deletions of one number that come one after another, only one frees anything. -/
theorem freed_once (keeps : start.Keeps shelf) {now now' : UInt64} {cookie cookie' : Cookie}
    {size size' : Size} {later : Volume}
    (served : start.Serves [(.delete now id cookie, .freed (.ok size)),
      (.delete now' id cookie', .freed (.ok size'))] later) : size = {} ∨ size' = {} := by
  obtain ⟨first, second, -⟩ := served
  obtain ⟨next, step, keeps'⟩ := keeps.serve (.delete now id cookie)
  obtain ⟨last, step', -⟩ := keeps'.serve (.delete now' id cookie')
  rw [first] at step
  rw [second] at step'
  obtain none | ⟨-, gone⟩ := freed_or_empty step
  · exact .inl none
  · obtain none | ⟨again, -⟩ := freed_or_empty step'
    · exact .inr none
    · rw [gone] at again
      cases again

theorem lookFor_of_kept (keeps : start.Keeps shelf) {needle : Needle}
    (stands : shelf id = some needle) (now : UInt64) :
    start.lookFor now id needle.cookie = .checked now id needle.cookie needle.size := by
  have found : start.checkDelete id needle.cookie = .ok (some needle.size) :=
    (checkDelete_eq_some_iff (keeps.kept id)).mpr ⟨needle, stands, rfl, rfl⟩
  unfold lookFor
  rw [found]

/-- Two deletions that both look for a needle before either buries it both free it. -/
theorem freed_twice (keeps : start.Keeps shelf) {needle : Needle}
    (stands : shelf id = some needle) (now now' : UInt64) :
    (run ⟨start, [.asked (.delete now id needle.cookie), .asked (.delete now' id needle.cookie)]⟩
      [0, 1, 0, 1]).outcomes =
        [(.delete now id needle.cookie, .freed (.ok needle.size)),
          (.delete now' id needle.cookie, .freed (.ok needle.size))] := by
  have waits := lookFor_of_kept keeps stands
  have buried := bury_of_ready keeps.ready now id needle.cookie
  have ready := keeps.ready.logged
    (Needle.length_record_mod_unit (start.marker now id needle.cookie) start.version)
    (start.nextEntry id .tombstone) (start.marker now id needle.cookie).appendedAt
  have again := bury_of_ready ready now' id needle.cookie
  simp [run, step, advance, waits, buried, again, outcomes, Task.outcome?, Except.map]

/-- This is what no order of the two deletions gives. -/
theorem freed_twice_not_sequential (keeps : start.Keeps shelf) {needle : Needle}
    (stands : shelf id = some needle) (live : needle.size ≠ {}) (now now' : UInt64) :
    let shared := run ⟨start,
      [.asked (.delete now id needle.cookie), .asked (.delete now' id needle.cookie)]⟩ [0, 1, 0, 1]
    ¬∃ order, shared.outcomes.Perm order ∧ start.Serves order shared.volume := by
  intro shared
  rintro ⟨order, same, served⟩
  rw [show shared.outcomes = _ from freed_twice keeps stands now now'] at same
  obtain ⟨first, second, rfl⟩ := List.length_eq_two.mp same.length_eq.symm
  have each : ∀ outcome ∈ [first, second], ∃ time,
      outcome = (.delete time id needle.cookie, .freed (.ok needle.size)) := by
    intro outcome member
    obtain known | known := List.mem_pair.mp (same.mem_iff.mpr member)
    · exact ⟨now, known⟩
    · exact ⟨now', known⟩
  obtain ⟨time, rfl⟩ := each first List.mem_cons_self
  obtain ⟨time', rfl⟩ := each second (List.mem_cons_of_mem _ List.mem_cons_self)
  obtain none | none := freed_once keeps served
  · exact live none
  · exact live none

example :
    let volume := ((opened 3 {} { contents := [3, 0, 0, 0, 0, 0, 0, 0] } {}).serve
      (.write 20 { id := 1, cookie := 7, data := [104] })).2
    let shared := run ⟨volume, [.asked (.delete 30 1 7), .asked (.delete 31 1 7)]⟩ [0, 1, 0, 1]
    shared.outcomes.map (fun outcome =>
      match outcome.2 with
      | .freed (.ok size) => size.isLive
      | _ => false) = [true, true] := by
  decide +kernel

/-- A deletion that has found its needle also buries what is written under its number meanwhile,
with whatever cookie. -/
theorem written_meanwhile_is_buried (keeps : start.Keeps shelf) {needle other : Needle}
    (stands : shelf other.id = some needle) (now now' : UInt64) :
    let shared : Shared := ⟨start,
      [.asked (.delete now other.id needle.cookie), .asked (.write now' other)]⟩
    (shared.run [0, 1]).volume = (start.write now' other).2 ∧
      (shared.run [0, 1, 0]).volume.find? other.id = none := by
  intro shared
  have waits := lookFor_of_kept keeps stands now
  obtain ⟨next, -, keeps'⟩ := keeps.write now' other
  have buried := bury_of_ready keeps'.ready now other.id needle.cookie
  have dead : Size.tombstone.isLive = false := by decide
  have last : (shared.run [0, 1, 0]).volume =
      ((start.write now' other).2.bury now other.id needle.cookie).2 := by
    simp [shared, run, step, advance, serve, waits]
  constructor
  · simp [shared, run, step, advance, serve, waits]
  · rw [last, buried]
    exact LiveMap.find?_replay_dead _ dead

end Shared

end Haystack.Volume
