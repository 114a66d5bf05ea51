import Haystack.Proofs.Volume.Mended
import Haystack.Proofs.Volume.Scan

/-!
# Attempts with wrong cookies

Whoever does not know the cookie of a needle can neither read nor delete it, and cannot even find
out that it is there. An attempt with a wrong cookie goes all the way through the map, the record
and the cookie in it, but is answered like an attempt at a number that stands for nothing, and it
leaves the volume as it was.
-/

namespace Haystack.Volume

/-- What a volume answers to requests one after the other, and what becomes of it. -/
def serveAll (volume : Volume) : List Request → List Answer × Volume
  | [] => ([], volume)
  | request :: rest =>
    let (answer, volume) := volume.serve request
    let (answers, volume) := volume.serveAll rest
    (answer :: answers, volume)

theorem serveAll_append (volume : Volume) (first second : List Request) :
    volume.serveAll (first ++ second) =
      ((volume.serveAll first).1 ++ ((volume.serveAll first).2.serveAll second).1,
        ((volume.serveAll first).2.serveAll second).2) := by
  induction first generalizing volume with
  | nil => rfl
  | cons request rest ih => simp only [List.cons_append, serveAll, ih]

/-- An attempt to read or to delete a needle, which takes a cookie. -/
inductive Attempt where
  | read (id : NeedleId) (cookie : Cookie)
  | delete (now : UInt64) (id : NeedleId) (cookie : Cookie)

namespace Attempt

def request : Attempt → Request
  | .read id cookie => .read id cookie
  | .delete now id cookie => .delete now id cookie

def target : Attempt → NeedleId
  | .read id _ => id
  | .delete _ id _ => id

def cookie : Attempt → Cookie
  | .read _ cookie => cookie
  | .delete _ _ cookie => cookie

/-- What a volume answers that has no needle under the number. -/
def refusal (volume : VolumeId) : Attempt → Answer
  | .read id _ => .found (.error (.notFound (.inVolume id volume)))
  | .delete _ _ _ => .freed (.ok {})

/-- The cookie is wrong: nothing is live under the number, or a needle with another cookie. -/
inductive Wrong (volume : Volume) (attempt : Attempt) : Prop where
  | unknown (unknown : volume.find? attempt.target = none)
  | differs {right : Cookie} {needle : Needle}
      (live : volume.read attempt.target right = .ok needle) (wrong : attempt.cookie ≠ right)

end Attempt

variable {volume gone : Volume} {id : NeedleId} {cookie other : Cookie} {needle : Needle}

theorem read_of_unknown (unknown : volume.find? id = none) (cookie : Cookie) :
    volume.read id cookie = .error (.notFound (.inVolume id volume.id)) := by
  unfold read
  rw [unknown]

theorem read_eq_ok (live : volume.read id cookie = .ok needle) :
    needle.cookie = cookie ∧ ∃ location, volume.find? id = some location ∧
      location.size.isDeleted = false ∧
      volume.data.readNeedle location.offset.position location.size volume.version =
        .ok needle := by
  unfold read at live
  split at live
  · cases live
  · rename_i location known
    split at live
    · cases live
    · rename_i present
      split at live
      · cases live
      · rename_i stored found
        split at live
        · rename_i right
          cases live
          exact ⟨right, location, known, by simpa using present, found⟩
        · cases live

theorem read_of_wrong (live : volume.read id cookie = .ok needle) (wrong : other ≠ cookie) :
    volume.read id other = .error (.notFound (.inVolume id volume.id)) := by
  obtain ⟨right, location, known, present, found⟩ := read_eq_ok live
  have differs : needle.cookie ≠ other := by
    rw [right]
    exact wrong.symm
  unfold read
  simp [known, present, found, differs]

theorem delete_of_not_found
    (missed : volume.read id cookie = .error (.notFound (.inVolume id volume.id)))
    (now : UInt64) : volume.delete now id cookie = (.ok {}, volume) := by
  unfold delete checkDelete
  rw [missed]
  rfl

/-- A wrong attempt is refused and changes nothing. -/
theorem Attempt.Wrong.serve {attempt : Attempt} (wrong : attempt.Wrong volume) :
    volume.serve attempt.request = (attempt.refusal volume.id, volume) := by
  have missed : volume.read attempt.target attempt.cookie =
      .error (.notFound (.inVolume attempt.target volume.id)) := by
    cases wrong with
    | unknown unknown => exact read_of_unknown unknown _
    | differs live wrong => exact read_of_wrong live wrong
  cases attempt with
  | read id cookie => exact congrArg (fun found => (Answer.found found, volume)) missed
  | delete now id cookie =>
      have ignored : volume.delete now id cookie = (.ok {}, volume) :=
        delete_of_not_found missed now
      rw [request, Volume.serve, ignored]
      rfl

theorem serveAll_of_wrong {attempts : List Attempt}
    (wrong : ∀ attempt ∈ attempts, attempt.Wrong volume) :
    volume.serveAll (attempts.map Attempt.request) =
      (attempts.map (Attempt.refusal volume.id), volume) := by
  induction attempts with
  | nil => rfl
  | cons attempt rest ih =>
      obtain ⟨first, later⟩ := List.forall_mem_cons.mp wrong
      simp only [List.map_cons, serveAll, first.serve, ih later]

theorem commit_done {entry : Entry} {position : Nat} {stamp : UInt64} {live : LiveMap}
    (done : volume.commit entry position stamp live = (.ok (), gone)) :
    gone.id = volume.id ∧ gone.live = live := by
  unfold commit at done
  split at done
  · cases done
  · cases done
    exact ⟨rfl, rfl⟩

theorem bury_done {now : UInt64} (done : volume.bury now id cookie = (.ok (), gone)) :
    gone.id = volume.id ∧ gone.live = volume.live.erase id := by
  unfold bury at done
  dsimp only at done
  split at done
  · cases done
  · rename_i record data appended
    exact @commit_done { volume with data } gone _ _ _ _ done

/-- Nothing is live under the number of a needle that was deleted. -/
theorem delete_done {now : UInt64} {size : Size} (live : volume.read id cookie = .ok needle)
    (done : volume.delete now id cookie = (.ok size, gone)) :
    gone.id = volume.id ∧ gone.find? id = none := by
  unfold delete checkDelete at done
  rw [live] at done
  dsimp only at done
  split at done
  · cases done
  · rename_i buried
    cases done
    obtain ⟨same, erased⟩ := bury_done buried
    refine ⟨same, ?_⟩
    rw [find?, erased]
    exact Table.find?_erase_self volume.live id

theorem Reached.exists_recorded (reached : volume.Reached) : ∃ notes, volume.Recorded notes := by
  induction reached with
  | new reliable indexed empty unindexed loaded =>
      exact ⟨[], .new reliable indexed empty unindexed loaded⟩
  | served _ request ih =>
      obtain ⟨notes, recorded⟩ := ih
      exact ⟨_, recorded.served request⟩
  | reloaded _ loaded ih =>
      obtain ⟨notes, recorded⟩ := ih
      exact ⟨notes, recorded.reloaded loaded⟩

/-- Whatever is live in a volume whose failing writes spare the index is read by those who know its
cookie. -/
theorem Weathered.read_live (weathered : volume.Weathered) {location : Location}
    (known : volume.find? id = some location) :
    ∃ needle : Needle, needle.id = id ∧ volume.read id needle.cookie = .ok needle := by
  obtain ⟨reached, -, -⟩ := weathered.mended
  obtain ⟨notes, recorded⟩ := reached.exists_recorded
  obtain ⟨⟨shelf, keeps⟩, -⟩ := recorded.charted
  have kept := keeps.kept id
  cases stands : shelf id with
  | none =>
      rw [stands] at kept
      cases kept with
      | nothing unknown =>
          change volume.find? id = none at unknown
          rw [unknown] at known
          cases known
  | some needle =>
      rw [stands] at kept
      have read := kept.read_known
      rw [read_mended] at read
      exact ⟨needle, kept.own, read⟩

/-- Attempts with wrong cookies are answered by the number of the volume alone, so that they tell
nothing about what is live in it, and whatever is asked for later is answered as if there had been
no attempts. Deleting a needle makes every attempt at it wrong. In a volume whose failing writes
spare the index, every number that is live has a cookie that is right. -/
theorem wrong_attempts_tell_nothing {attempts : List Attempt}
    (wrong : ∀ attempt ∈ attempts, attempt.Wrong volume) :
    volume.serveAll (attempts.map Attempt.request) =
        (attempts.map (Attempt.refusal volume.id), volume) ∧
      (∀ requests, volume.serveAll (attempts.map Attempt.request ++ requests) =
        (attempts.map (Attempt.refusal volume.id) ++ (volume.serveAll requests).1,
          (volume.serveAll requests).2)) ∧
      (∀ gone : Volume, gone.id = volume.id → (∀ attempt ∈ attempts, attempt.Wrong gone) →
        gone.serveAll (attempts.map Attempt.request) =
          ((volume.serveAll (attempts.map Attempt.request)).1, gone)) ∧
      (∀ id cookie needle now size gone, volume.read id cookie = .ok needle →
        volume.delete now id cookie = (.ok size, gone) →
        gone.id = volume.id ∧ ∀ attempt : Attempt, attempt.target = id → attempt.Wrong gone) ∧
      (volume.Weathered → ∀ id location, volume.find? id = some location →
        ∃ needle : Needle, needle.id = id ∧ volume.read id needle.cookie = .ok needle) := by
  have refused := serveAll_of_wrong wrong
  refine ⟨refused, ?_, ?_, ?_, ?_⟩
  · intro requests
    rw [serveAll_append, refused]
  · intro gone same wrong'
    rw [serveAll_of_wrong wrong', refused, same]
  · intro id cookie needle now size gone live done
    obtain ⟨same, unknown⟩ := delete_done live done
    refine ⟨same, ?_⟩
    rintro attempt rfl
    exact .unknown unknown
  · intro weathered id location known
    exact weathered.read_live known

/-- Wrong attempts at a needle, and at a number without one, before and after it is deleted. -/
theorem guessed_cookies_tell_nothing :
    let volume := opened 3 {} { contents := [3, 0, 0, 0, 0, 0, 0, 0] } {}
    let once := (volume.serve (.write 20 { id := 1, cookie := 7, data := [104] })).2
    let gone := (once.delete 30 1 7).2
    let attempts : List Attempt := [.read 1 8, .delete 30 1 9, .read 2 7]
    (∀ attempt ∈ attempts, attempt.Wrong once) ∧ (once.read 1 7).isOk = true ∧
      once.serveAll (attempts.map Attempt.request) =
        (attempts.map (Attempt.refusal 3), once) ∧
      gone.serveAll (attempts.map Attempt.request) =
        (attempts.map (Attempt.refusal 3), gone) := by
  intro volume once gone attempts
  have opens : (once.read 1 7).isOk = true := by decide +kernel
  obtain ⟨needle, live⟩ := exists_eq_ok opens
  obtain ⟨size, freed⟩ := exists_eq_ok (show (once.delete 30 1 7).1.isOk = true by decide +kernel)
  have nothing : once.find? 2 = none := by decide +kernel
  have nothing' : gone.find? 2 = none := by decide +kernel
  have wrong : ∀ attempt ∈ attempts, attempt.Wrong once := by
    simp only [attempts, List.forall_mem_cons]
    exact ⟨.differs live (by decide), .differs live (by decide), .unknown nothing, nofun⟩
  obtain ⟨refused, -, alike, deleted, -⟩ := wrong_attempts_tell_nothing wrong
  obtain ⟨same, missed⟩ := deleted 1 7 needle 30 size gone live (Prod.ext freed rfl)
  have wrong' : ∀ attempt ∈ attempts, attempt.Wrong gone := by
    simp only [attempts, List.forall_mem_cons]
    exact ⟨missed _ rfl, missed _ rfl, .unknown nothing', nofun⟩
  have refused' := alike gone same wrong'
  have number : once.id = 3 := by decide +kernel
  rw [refused] at refused'
  rw [number] at refused refused'
  exact ⟨wrong, opens, refused, refused'⟩

end Haystack.Volume
