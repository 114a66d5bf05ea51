import Haystack.Proofs.Reader.Progress

/-!
# How far a reader gets

A reader does not stop at the length of its file. It goes through its views to the end of the last
one, and on to the length only where the views stop before it, as far as the buffer takes what it
gives. So the count of a read is known from the views alone, whatever the chunks hold.
-/

namespace Haystack

namespace ChunkView

/-- How far views reach, at least to where they are looked at from. -/
def reach (views : Overlay ChunkView) (start : Int) : Int :=
  views.foldl (fun far view => max far view.stop) start

theorem reach_cons (view : Segment ChunkView) (views : Overlay ChunkView) (start : Int) :
    reach (view :: views) start = reach views (max start view.stop) := rfl

theorem lt_reach_iff {views : Overlay ChunkView} {start position : Int} :
    position < reach views start ↔ position < start ∨ ∃ view ∈ views, position < view.stop := by
  induction views generalizing start with
  | nil => simp [reach]
  | cons view rest ih =>
      have either : (∃ next ∈ view :: rest, position < next.stop) ↔
          position < view.stop ∨ ∃ next ∈ rest, position < next.stop := by
        simp
      have further : position < max start view.stop ↔ position < start ∨ position < view.stop := by
        omega
      rw [reach_cons, ih, either, further, or_assoc]

theorem le_reach (views : Overlay ChunkView) (start : Int) : start ≤ reach views start := by
  have before : start - 1 < reach views start := lt_reach_iff.mpr (.inl (by omega))
  omega

end ChunkView

namespace Progress

open ChunkView

/-- A read has gone on to a position, or to its end before that. -/
structure Reaches (last progress : Progress) (far : Int) : Prop where
  offset : last.offset = progress.offset
  length : last.length = progress.length
  position : last.position = min progress.stop far

variable {progress last : Progress}

theorem Reaches.stop_eq {far : Int} (reaches : last.Reaches progress far) :
    last.stop = progress.stop := by
  rw [stop, reaches.offset, reaches.length, stop]

theorem Reaches.within {far : Int} (reaches : last.Reaches progress far) :
    last.position ≤ last.stop := by
  rw [reaches.position, reaches.stop_eq]
  exact Int.min_le_left _ _

theorem Reaches.trans {middle : Progress} {near far : Int} (later : last.Reaches middle far)
    (earlier : middle.Reaches progress near) : last.Reaches progress far :=
  ⟨later.offset.trans earlier.offset, later.length.trans earlier.length,
    by rw [later.position, earlier.stop_eq]⟩

theorem reaches_of_zeroUpTo (within : progress.position ≤ progress.stop) (start : Int) :
    (progress.zeroUpTo start).Reaches progress (max progress.position start) := by
  constructor
  case offset => rfl
  case length => rfl
  case position =>
    have moved := position_zeroUpTo progress start
    unfold remaining at moved
    unfold position Progress.stop at *
    omega

theorem reaches_of_take {noted : Progress} (offset : noted.offset = progress.offset)
    (length : noted.length = progress.length) {amount : Nat} {far : Int}
    (arrives : noted.position + amount = min progress.stop far) (view : ChunkView) (data : Bytes)
    (within : Int) : (noted.take view data within amount).Reaches progress far :=
  ⟨offset, length, by rw [position_take, arrives]⟩

/-- Where a read gets to through a view and then through the others. -/
theorem Reaches.cons {middle : Progress} {view : Segment ChunkView} {rest : Overlay ChunkView}
    (later : last.Reaches middle (reach rest middle.position))
    (first : middle.Reaches progress (max progress.position view.stop)) :
    last.Reaches progress (reach (view :: rest) progress.position) := by
  constructor
  case offset => exact later.offset.trans first.offset
  case length => exact later.length.trans first.length
  case position =>
    have arrived := later.position
    rw [first.stop_eq, first.position] at arrived
    rw [arrived, reach_cons]
    by_cases ends : progress.stop ≤ max progress.position view.stop
    · have further := le_reach rest progress.stop
      have beyond := le_reach rest (max progress.position view.stop)
      have done : min progress.stop (max progress.position view.stop) = progress.stop := by omega
      rw [done]
      omega
    · have inside : min progress.stop (max progress.position view.stop) =
          max progress.position view.stop := by omega
      rw [inside]

/-- Going through views without a failure goes on to where they reach. -/
theorem readViews_reaches {source : ChunkSource} {cancelled random : Bool}
    {views : Overlay ChunkView} (proper : ∀ view ∈ views, view.start < view.stop)
    (told : ∀ view ∈ views, view.value.offset = view.start ∧ view.value.stop = view.stop)
    (within : progress.position ≤ progress.stop) (fits : progress.Fits)
    (read : readViews source cancelled random (views.map (·.value)) progress = (.ok (), last)) :
    last.Reaches progress (reach views progress.position) := by
  induction views generalizing progress with
  | nil =>
      cases read
      exact ⟨rfl, rfl, (Int.min_eq_right within).symm⟩
  | cons view rest ih =>
      have goes := proper view (by simp)
      obtain ⟨told_start, told_stop⟩ := told view (by simp)
      have proper_rest : ∀ next ∈ rest, next.start < next.stop := fun next member =>
        proper next (by simp [member])
      have told_rest : ∀ next ∈ rest, next.value.offset = next.start ∧
          next.value.stop = next.stop := fun next member => told next (by simp [member])
      have filled := reaches_of_zeroUpTo within view.start
      rw [List.map_cons, readViews, told_start, told_stop] at read
      generalize progress.zeroUpTo view.start = here at filled read
      have arrived := filled.position
      have ends := filled.stop_eq
      have fits_here := fits.of_stop_eq ends
      simp only [wrapped_position_add_remaining filled.within fits_here] at read
      split at read
      · rename_i passed
        have first : here.Reaches progress (max progress.position view.stop) :=
          ⟨filled.offset, filled.length, by omega⟩
        exact (ih proper_rest told_rest first.within fits_here read).cons first
      · rename_i enters
        split at read
        · cases read
        · rename_i data cache got
          have same := same_note random view.value (rest.map (·.value)).head?
            (here.position - view.start + view.value.offsetInChunk)
            { here with session := { here.session with cache } }
          have stands := same.position_eq
          change _ = here.position at stands
          have first := reaches_of_take (same.offset.trans filled.offset)
            (same.length.trans filled.length)
            (by omega : _ + ((min view.stop here.stop - here.position).toNat : Int) =
              min progress.stop (max progress.position view.stop))
            view.value data (here.position - view.start + view.value.offsetInChunk)
          have fits_later := fits.of_stop_eq first.stop_eq
          exact (ih proper_rest told_rest first.within fits_later read).cons first

end Progress

namespace ChunkReader

open ChunkView

/-- How much a read gives that did not fail. -/
theorem read_reaches {reader : ChunkReader} {source : ChunkSource} {cancelled : Bool}
    {session : ReadSession} {buffer : Bytes} {offset : Int}
    (proper : ∀ view ∈ reader.views, view.start < view.stop)
    (told : ∀ view ∈ reader.views, view.value.offset = view.start ∧ view.value.stop = view.stop)
    (fits : reader.Fits offset buffer.length) {count : Nat} {newest : Int}
    (read : (reader.read source cancelled session buffer offset).1.result = .ok (count, newest)) :
    offset + count =
      min (offset + buffer.length) (max (reach reader.views offset) reader.fileSize) := by
  unfold ChunkReader.read at read
  dsimp only at read
  generalize run : Progress.readViews _ _ _ _ _ = outcome at read
  obtain ⟨result, last⟩ := outcome
  cases result with
  | error problem => cases read
  | ok =>
      cases read
      have start : Progress.position
          { session, lastFile := reader.lastFile, offset, length := buffer.length } = offset :=
        Int.add_zero offset
      have ends : Progress.stop
          { session, lastFile := reader.lastFile, offset, length := buffer.length } =
            offset + buffer.length := rfl
      have through :=
        Progress.readViews_reaches proper told (by omega) (fits.start session) run
      have filled := (Progress.reaches_of_zeroUpTo through.within reader.fileSize).trans through
      have position := filled.position
      have arrived := through.position
      have further := le_reach reader.views offset
      rw [start, ends] at arrived
      obtain ⟨_, last_fits, near, far⟩ := fits
      have finish : last.finish reader.fileSize = last.zeroUpTo reader.fileSize :=
        Progress.finish_eq_zeroUpTo (by omega) (by omega)
      change offset + ((last.finish reader.fileSize).written.length : Int) = _
      rw [finish]
      rw [Progress.position, filled.offset, ends, arrived] at position
      change offset + _ = _ at position
      rw [position]
      omega

/-- Behind what it gives a read leaves the buffer as it was. -/
theorem buffer_read {reader : ChunkReader} {source : ChunkSource} {cancelled : Bool}
    {session : ReadSession} {buffer : Bytes} {offset : Int} {count : Nat} {newest : Int}
    (read : (reader.read source cancelled session buffer offset).1.result = .ok (count, newest)) :
    ∃ written : Bytes, written.length = count ∧
      (reader.read source cancelled session buffer offset).1.buffer =
        written ++ buffer.drop written.length := by
  unfold ChunkReader.read at read ⊢
  dsimp only at read ⊢
  generalize Progress.readViews _ _ _ _ _ = outcome at read ⊢
  obtain ⟨result, last⟩ := outcome
  cases result with
  | error problem => cases read
  | ok =>
      cases read
      exact ⟨_, rfl, rfl⟩

end ChunkReader

end Haystack
