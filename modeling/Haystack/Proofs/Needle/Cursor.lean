import Haystack.Needle.Cursor
import Mathlib.Data.List.Forall2

/-!
# Reading never leaves the bytes

Reading at positions follows reading part after part: it comes to the same value or the same
error, with the position where the part that is not read yet begins. Since both of these are
results, no access is made outside the bytes, whatever they are.
-/

namespace Haystack

namespace Bytes

theorem range?_eq_some {bytes : Bytes} {start stop : Nat} (order : start ≤ stop)
    (inside : stop ≤ bytes.length) :
    bytes.range? start stop = some (bytes.slice start (stop - start)) :=
  if_pos ⟨order, inside⟩

end Bytes

namespace Needle

/-- One reading follows another: both give related values, or both give the same error. -/
inductive Follows {α β : Type} (Related : α → β → Prop) : Access α → Except Error β → Prop
  | value {a : α} {b : β} (related : Related a b) : Follows Related (pure a) (.ok b)
  | error (problem : Error) : Follows Related (throw problem) (.error problem)

namespace Follows

variable {α β γ δ : Type} {Related : α → β → Prop} {Next : γ → δ → Prop}

theorem bind {read : Access α} {result : Except Error β} {next : α → Access γ}
    {rest : β → Except Error δ} (first : Follows Related read result)
    (onward : ∀ a b, Related a b → Follows Next (next a) (rest b)) :
    Follows Next (read >>= next) (result >>= rest) := by
  cases first with
  | value related => exact onward _ _ related
  | error problem => exact .error problem

theorem ite {c d : Prop} [Decidable c] [Decidable d] {read other : Access α}
    {result rest : Except Error β} (same : c ↔ d) (holds : c → Follows Related read result)
    (fails : ¬ c → Follows Related other rest) :
    Follows Related (if c then read else other) (if d then result else rest) := by
  by_cases h : c
  · rw [if_pos h, if_pos (same.mp h)]
    exact holds h
  · rw [if_neg h, if_neg fun other => h (same.mpr other)]
    exact fails h

theorem access {found : Option α} {a : α} {next : α → Access γ} {result : Except Error δ}
    (inside : found = some a) (onward : Follows Next (next a) result) :
    Follows Next ((found : Access α) >>= next) result := by
  rw [inside]
  exact onward

theorem eq_some {read : Access α} {result : Except Error α} (follows : Follows Eq read result) :
    read = some result := by
  cases follows with
  | value same => rw [same]; rfl
  | error problem => rfl

end Follows

/-- A position is where the rest of a body begins. -/
def Begins (body : Bytes) (index : Nat) (rest : Bytes) : Prop :=
  index ≤ body.length ∧ rest = body.drop index

theorem Begins.length_rest {body rest : Bytes} {index : Nat} (begins : Begins body index rest) :
    rest.length = body.length - index := by
  rw [begins.2, List.length_drop]

/-- A cursor stands where another reading of the body has got to. -/
def Cursor.At (body : Bytes) (cursor : Cursor) (state : Reading) : Prop :=
  cursor.needle = state.needle ∧ Begins body cursor.index state.rest

section Fields

variable {body rest : Bytes} {index : Nat}

/-- The bytes read are the same, and the position is where the rest begins. -/
def Taken (body : Bytes) (read : Bytes × Nat) (taken : Bytes × Bytes) : Prop :=
  read.1 = taken.1 ∧ Begins body read.2 taken.2

theorem follows_fieldAt (field : BodyField) (length : Nat) (begins : Begins body index rest) :
    Follows (Taken body) (fieldAt field length body index) (takeField field length rest) := by
  have count := begins.length_rest
  have inside := begins.1
  refine .ite (by omega) (fun _ => .error _) fun fits => ?_
  refine .access (Bytes.range?_eq_some (by omega) (by omega)) (.value ?_)
  rw [Taken, Nat.add_sub_cancel_left, begins.2, Bytes.slice]
  exact ⟨rfl, by omega, List.drop_drop⟩

theorem follows_countedAt (lengthField field : BodyField) (width : Nat)
    (begins : Begins body index rest) :
    Follows (Taken body) (countedAt lengthField field width body index)
      (takeCounted lengthField field width rest) := by
  refine (follows_fieldAt lengthField width begins).bind fun read taken same => ?_
  change Follows _ (fieldAt field read.1.toNat body read.2) (takeField field taken.1.toNat taken.2)
  rw [same.1]
  exact follows_fieldAt field _ same.2

/-- Where bytes remain, a count of one byte is there to be read, so it is no error that it might
be missing. -/
theorem follows_shortFieldAt (field : BodyField) (begins : Begins body index rest)
    (remain : rest ≠ []) :
    Follows (Taken body) (shortFieldAt field body index) (takeCounted field field 1 rest) := by
  cases rest with
  | nil => exact absurd rfl remain
  | cons count rest =>
      have found : body.byte? index = some count := by
        rw [Bytes.byte?, ← List.head?_drop, ← begins.2, List.head?_cons]
      have next : Begins body (index + 1) rest := by
        have length := begins.length_rest
        rw [List.length_cons] at length
        constructor
        · omega
        · rw [← List.drop_drop, ← begins.2, List.drop_one, List.tail_cons]
      have taken : takeField field 1 (count :: rest) = .ok ([count], rest) := by
        rw [takeField, if_neg (by simp)]
        rfl
      refine .access found ?_
      rw [takeCounted, taken]
      have value : Bytes.toNat [count] = count.toNat := by simp [Bytes.toNat]
      change Follows _ _ (takeField field (Bytes.toNat [count]) rest)
      rw [value]
      exact follows_fieldAt field _ next

end Fields

/-- A step at positions follows a step of the other reading wherever both have got to. -/
def StepFollows (body : Bytes) (stepAt : Bytes → Cursor → Access Cursor)
    (step : Reading → Except Error Reading) : Prop :=
  ∀ cursor state, cursor.At body state →
    Follows (Cursor.At body) (stepAt body cursor) (step state)

section Steps

variable {body : Bytes} {cursor : Cursor} {state : Reading}

theorem Cursor.At.lt_length_iff (here : cursor.At body state) :
    cursor.index < body.length ↔ state.rest ≠ [] := by
  rw [here.2.2, ne_eq, List.drop_eq_nil_iff, Nat.not_le]

/-- Under its flag a step only has to follow where bytes remain. -/
theorem stepFollows_flaggedAt {flag : Flag} {stepAt : Bytes → Cursor → Access Cursor}
    {step : Reading → Except Error Reading}
    (follows : ∀ cursor state, cursor.At body state → state.rest ≠ [] →
      Follows (Cursor.At body) (stepAt body cursor) (step state)) :
    StepFollows body (flaggedAt flag stepAt) (readFlagged flag step) := by
  intro cursor state here
  have more := here.lt_length_iff
  have turned : readFlagged flag step state =
      if state.rest ≠ [] ∧ state.needle.has flag = true then step state else .ok state := by
    unfold readFlagged
    cases state.rest <;> cases state.needle.has flag <;> rfl
  rw [turned, flaggedAt, here.1]
  refine .ite ?_ (fun read => follows cursor state here ?_) fun _ => .value here
  · rw [Bool.and_eq_true, decide_eq_true_iff, more]
  · rw [Bool.and_eq_true, decide_eq_true_iff] at read
    exact more.mp read.1

theorem Follows.put {read : Access (Bytes × Nat)} {taken : Except Error (Bytes × Bytes)}
    (follows : Follows (Taken body) read taken) (here : cursor.At body state)
    (put : Needle → Bytes → Needle) :
    Follows (Cursor.At body)
      (do let (bytes, index) ← read
          return { needle := put cursor.needle bytes, index })
      (do let (bytes, rest) ← taken
          return { needle := put state.needle bytes, rest }) := by
  refine follows.bind fun read taken same => .value ?_
  rw [Cursor.At, here.1, same.1]
  exact ⟨rfl, same.2⟩

theorem follows_dataAt : StepFollows body dataAt readData := fun _ _ here =>
  (follows_countedAt .data .data 4 here.2).put here fun needle data => { needle with data }

theorem follows_flagsAt : StepFollows body flagsAt readFlags := by
  intro cursor state here
  have more := here.lt_length_iff
  obtain ⟨needle, rest⟩ := state
  cases rest with
  | nil =>
      rw [flagsAt, if_neg fun low => more.mp low rfl]
      exact .value here
  | cons bits rest =>
      have inside : cursor.index < body.length := more.mpr (List.cons_ne_nil _ _)
      have found : body.byte? cursor.index = some bits := by
        rw [Bytes.byte?, ← List.head?_drop, ← here.2.2, List.head?_cons]
      rw [flagsAt, if_pos inside]
      refine .access found (.value ⟨?_, inside, ?_⟩)
      · rw [here.1]
      · rw [← List.drop_drop, ← here.2.2, List.drop_one, List.tail_cons]

theorem follows_nameAt : StepFollows body (flaggedAt .name nameAt) (readFlagged .name readName) :=
  stepFollows_flaggedAt fun _ _ here remain =>
    (follows_shortFieldAt .name here.2 remain).put here fun needle name => { needle with name }

theorem follows_mimeAt : StepFollows body (flaggedAt .mime mimeAt) (readFlagged .mime readMime) :=
  stepFollows_flaggedAt fun _ _ here remain =>
    (follows_shortFieldAt .mime here.2 remain).put here fun needle mime => { needle with mime }

theorem follows_lastModifiedAt :
    StepFollows body (flaggedAt .lastModified lastModifiedAt)
      (readFlagged .lastModified readLastModified) :=
  stepFollows_flaggedAt fun _ _ here _ =>
    (follows_fieldAt .lastModified 5 here.2).put here fun needle seconds =>
      { needle with lastModified := UInt64.ofNat seconds.toNat }

theorem follows_ttlAt : StepFollows body (flaggedAt .ttl ttlAt) (readFlagged .ttl readTtl) :=
  stepFollows_flaggedAt fun _ _ here _ =>
    (follows_fieldAt .ttl 2 here.2).put here fun needle ttl =>
      { needle with ttl := some (.ofBytes ttl) }

theorem follows_pairsAt :
    StepFollows body (flaggedAt .pairs pairsAt) (readFlagged .pairs readPairs) :=
  stepFollows_flaggedAt fun _ _ here _ =>
    (follows_countedAt .pairsSize .pairs 2 here.2).put here fun needle pairs => { needle with pairs }

theorem follows_cursorSteps (body : Bytes) :
    List.Forall₂ (StepFollows body) cursorSteps bodySteps :=
  .cons follows_dataAt <| .cons follows_flagsAt <| .cons follows_nameAt <| .cons follows_mimeAt <|
    .cons follows_lastModifiedAt <| .cons follows_ttlAt <| .cons follows_pairsAt .nil

end Steps

theorem result_takeSteps_cons (step : Reading → Except Error Reading)
    (steps : List (Reading → Except Error Reading)) (state : Reading) :
    (takeSteps (step :: steps) state).result =
      step state >>= fun next => (takeSteps steps next).result := by
  rw [takeSteps]
  cases step state with
  | error problem => rfl
  | ok next => rfl

theorem follows_runSteps {body : Bytes} {stepsAt : List (Bytes → Cursor → Access Cursor)}
    {steps : List (Reading → Except Error Reading)}
    (follows : List.Forall₂ (StepFollows body) stepsAt steps) {cursor : Cursor} {state : Reading}
    (here : cursor.At body state) :
    Follows Eq (runSteps body stepsAt cursor) (takeSteps steps state).result := by
  induction follows generalizing cursor state with
  | nil => exact .value here.1
  | cons step _ ih =>
      rw [result_takeSteps_cons]
      exact (step cursor state here).bind fun _ _ next => ih next

theorem follows_bodyAt (needle : Needle) (version : Version) (body : Bytes) :
    Follows Eq (needle.bodyAt version body) (needle.readBody version body).result := by
  unfold bodyAt readBody
  split
  · exact .value rfl
  · split
    · exact .value rfl
    · exact follows_runSteps (follows_cursorSteps body) ⟨rfl, Nat.zero_le _, rfl⟩

theorem follows_tailAt (needle : Needle) (version : Version) (tail : Bytes) :
    Follows Eq (needle.tailAt version tail) (needle.readTail version tail) := by
  refine .ite Iff.rfl (fun _ => .error _) fun fits => ?_
  have word : 4 ≤ tail.length := by
    cases version <;> simp only [Record.tailLength, Record.checksumLength] at fits <;> omega
  refine .access (Bytes.range?_eq_some (Nat.zero_le _) word) ?_
  refine .ite Iff.rfl (fun _ => .error _) fun _ => ?_
  cases version with
  | v1 => exact .value rfl
  | v2 => exact .value rfl
  | v3 =>
      simp only [Record.tailLength, Record.checksumLength, Record.stampLength] at fits
      exact .access (Bytes.range?_eq_some (by omega) (by omega)) (.value rfl)

theorem follows_headerAt (bytes : Bytes) : Follows Eq (headerAt bytes) (readHeader bytes) := by
  refine .ite Iff.rfl (fun _ => .error _) fun fits => ?_
  unfold Record.headerLength at fits
  refine .access (Bytes.range?_eq_some (by omega) (by omega)) ?_
  refine .access (Bytes.range?_eq_some (by omega) (by omega)) ?_
  exact .access (Bytes.range?_eq_some (by omega) (by omega)) (.value rfl)

theorem follows_recordAt (header : Needle) (version : Version) (bytes : Bytes) :
    Follows Eq (header.recordAt version bytes) (header.readRecord version bytes) := by
  refine .ite Iff.rfl (fun _ => .error _) fun _ => ?_
  refine .ite Iff.rfl (fun _ => .error _) fun fits => ?_
  refine .access (Bytes.range?_eq_some (by omega) (by omega)) ?_
  rw [Nat.add_sub_cancel_left]
  refine (follows_bodyAt header version _).bind fun read needle same => ?_
  refine .access (Bytes.range?_eq_some (by omega) (Nat.le_refl _)) ?_
  have tail : bytes.slice (Record.headerLength + header.size.length)
      (bytes.length - (Record.headerLength + header.size.length)) =
        bytes.drop (Record.headerLength + header.size.length) := by
    rw [Bytes.slice, ← List.length_drop, List.take_length]
  rw [same, tail]
  exact follows_tailAt needle version _

/-- Decoding at positions has a result whatever the bytes are, and it is the one of `decode`. -/
theorem decodeAt_eq_some (bytes : Bytes) (version : Version) :
    decodeAt bytes version = some (decode bytes version) := by
  refine ((follows_headerAt bytes).bind fun read header same => ?_).eq_some
  rw [same]
  exact follows_recordAt header version bytes

end Needle

end Haystack
