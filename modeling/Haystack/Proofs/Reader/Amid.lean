import Haystack.Proofs.Reader.Views
import Haystack.Proofs.Section.Runs

/-!
# Reading amid others

Fetches ahead run while a read goes on, and so do other reads with the same reader: they put chunks
into the cache and take them out, and they change what the reader guesses and which chunk it thinks
of as the last. As long as the cache holds nothing but the contents of chunks, none of this matters.
A read that is not stopped fills the buffer with the bytes that the views tell, as far as the views,
the length of the file and the buffer reach.
-/

namespace Haystack

open ChunkView

namespace Progress

/-- Reads through views as `readViews` does, while others change what they share with the read
before each view. They may see the views that are left, and let each chunk count as read at random
or in sequence. -/
def readAmid (others : List ChunkView → Progress → Progress) (random : List ChunkView → Bool)
    (source : ChunkSource) (cancelled : Bool) :
    List ChunkView → Progress → Except ReadError Unit × Progress
  | [], progress => (.ok (), progress)
  | view :: rest, progress =>
    let progress := others rest (progress.zeroUpTo view.offset)
    let start := progress.position
    let stop := min view.stop (wrapped (start + progress.remaining))
    if stop ≤ start then readAmid others random source cancelled rest progress
    else
      match progress.session.cache.getOrFetch source cancelled view.fileId with
      | (.error problem, cache) =>
        (.error problem, { progress with session := { progress.session with cache } })
      | (.ok data, cache) =>
        let within := start - view.offset + view.offsetInChunk
        let progress := { progress with session := { progress.session with cache } }
        readAmid others random source cancelled rest
          ((progress.note (random rest) view rest.head? within).take view data within
            (stop - start).toNat)

/-- Takes the contents of a view's chunk up to a position of the file. -/
def takeUpTo (progress : Progress) (content : String → Bytes) (view : ChunkView) (stop : Int) :
    Progress :=
  progress.take view (content view.fileId)
    (progress.position - view.offset + view.offsetInChunk) (stop - progress.position).toNat

@[simp] theorem stop_takeUpTo (progress : Progress) (content : String → Bytes) (view : ChunkView)
    (stop : Int) : (progress.takeUpTo content view stop).stop = progress.stop := rfl

theorem position_takeUpTo (progress : Progress) (content : String → Bytes) (view : ChunkView)
    {stop : Int} (ahead : progress.position ≤ stop) :
    (progress.takeUpTo content view stop).position = stop := by
  rw [takeUpTo, position_take]
  omega

/-- A read through views, without what it does to the cache: a view that gives nothing is passed,
and of any other a part of the chunk's contents is taken. -/
inductive Through (content : String → Bytes) : Overlay ChunkView → Progress → Progress → Prop where
  | done (progress : Progress) : Through content [] progress progress
  | passed {view : Segment ChunkView} {rest : Overlay ChunkView} {progress here last : Progress}
      (same : here.Same (progress.zeroUpTo view.start))
      (nothing : min view.stop progress.stop ≤ here.position)
      (further : Through content rest here last) : Through content (view :: rest) progress last
  | taken {view : Segment ChunkView} {rest : Overlay ChunkView} {progress here last : Progress}
      (same : here.Same (progress.zeroUpTo view.start))
      (enters : here.position < min view.stop progress.stop)
      (further : Through content rest
        (here.takeUpTo content view.value (min view.stop progress.stop)) last) :
      Through content (view :: rest) progress last

variable {content : String → Bytes} {views rest : Overlay ChunkView} {view : Segment ChunkView}
  {progress here last : Progress} {others : List ChunkView → Progress → Progress}
  {random : List ChunkView → Bool} {source : ChunkSource} {cancelled : Bool}

/-- Before a view, zeros bring the read to it or to the end. -/
structure Comes (here progress : Progress) (view : Segment ChunkView) : Prop where
  stop : here.stop = progress.stop
  within : here.position ≤ progress.stop
  position : here.position = max progress.position (min progress.stop view.start)

theorem comes_of_same (within : progress.position ≤ progress.stop)
    (same : here.Same (progress.zeroUpTo view.start)) : here.Comes progress view := by
  have reaches := reaches_of_zeroUpTo within view.start
  have position := reaches.position
  rw [← same.position_eq] at position
  exact ⟨same.stop_eq, by omega, by omega⟩

/-- How a read through views may end: it has gone through them, or the chunk of a view within its
range was not had. -/
inductive Ends (content : String → Bytes) (source : ChunkSource) (cancelled : Bool)
    (views : Overlay ChunkView) (progress : Progress) : Except ReadError Unit × Progress → Prop where
  | through {last : Progress} (through : Through content views progress last) :
      Ends content source cancelled views progress (.ok (), last)
  | failed {view : Segment ChunkView} {cache : TieredCache} {problem : ReadError} {last : Progress}
      (member : view ∈ met views progress.position progress.stop)
      (fails : (cache.getOrFetch source cancelled view.value.fileId).1 = .error problem) :
      Ends content source cancelled views progress (.error problem, last)

theorem Ends.before {later : Progress} {outcome : Except ReadError Unit × Progress}
    (ends : Ends content source cancelled rest later outcome)
    (further : progress.position ≤ later.position) (stop : later.stop = progress.stop)
    (through : ∀ last, Through content rest later last →
      Through content (view :: rest) progress last) :
    Ends content source cancelled (view :: rest) progress outcome := by
  cases ends with
  | through done => exact .through (through _ done)
  | failed member fails =>
      obtain ⟨present, meets⟩ := mem_met.mp member
      exact .failed (mem_met.mpr ⟨List.mem_cons_of_mem _ present, by omega⟩) fails

/-- Going through views goes on to where they reach. -/
theorem Through.reaches (through : Through content views progress last)
    (proper : ∀ view ∈ views, view.start < view.stop)
    (within : progress.position ≤ progress.stop) :
    last.Reaches progress (reach views progress.position) := by
  induction through with
  | done progress => exact ⟨rfl, rfl, (Int.min_eq_right within).symm⟩
  | @passed view rest progress here last same nothing _ ih =>
      have goes := proper view (by simp)
      obtain ⟨stop, inside, arrived⟩ := comes_of_same within same
      have first : here.Reaches progress (max progress.position view.stop) :=
        ⟨same.offset, same.length, by omega⟩
      exact (ih (fun next member => proper next (by simp [member])) first.within).cons first
  | @taken view rest progress here last same enters _ ih =>
      have goes := proper view (by simp)
      obtain ⟨stop, inside, arrived⟩ := comes_of_same within same
      have moved := here.position_takeUpTo content view.value (Int.le_of_lt enters)
      have first : (here.takeUpTo content view.value (min view.stop progress.stop)).Reaches progress
          (max progress.position view.stop) :=
        ⟨same.offset, same.length, by omega⟩
      exact (ih (fun next member => proper next (by simp [member])) first.within).cons first

theorem written_before (ordered : Overlay.Ordered (view :: rest))
    (same : here.Same (progress.zeroUpTo view.start)) :
    here.written = progress.written ++ image content (view :: rest) progress.position
      (here.position - progress.position).toNat := by
  have moved := position_zeroUpTo progress view.start
  rw [← same.position_eq] at moved
  have count : (here.position - progress.position).toNat =
      min progress.remaining (view.start - progress.position).toNat := by omega
  rw [count, image_before ordered (by omega), same.written]
  rfl

theorem written_within (ordered : Overlay.Ordered (view :: rest)) (sited : Sited view)
    (low : view.start ≤ here.position) {stop : Int} (high : stop ≤ view.stop) :
    (here.takeUpTo content view.value stop).written = here.written ++
      image content (view :: rest) here.position (stop - here.position).toNat := by
  have inside := sited.inside
  have offset := sited.offset
  have shown (position : Int) (first : here.position ≤ position)
      (last : position < here.position + (stop - here.position).toNat) :
      Overlay.at? (view :: rest) position = some view :=
    Overlay.at?_of_covers ordered (by simp) (by omega) (by omega)
  rw [image_of_view (by omega) shown]
  rfl

/-- What is read going through views is what they tell. -/
theorem Through.written (through : Through content views progress last)
    (ordered : Overlay.Ordered views) (sited : ∀ view ∈ views, Sited view)
    (within : progress.position ≤ progress.stop) :
    last.written = progress.written ++
      image content views progress.position (last.position - progress.position).toNat := by
  induction through with
  | done progress => simp [image]
  | @passed view rest progress here last same nothing further ih =>
      obtain ⟨goes, -, ordered_rest⟩ := Overlay.ordered_cons.mp ordered
      obtain ⟨stop, inside, arrived⟩ := comes_of_same within same
      have reaches := further.reaches ordered_rest.proper (stop ▸ inside)
      have position := reaches.position
      have ahead := le_reach rest here.position
      have behind : image content (view :: rest) here.position
          (last.position - here.position).toNat =
            image content rest here.position (last.position - here.position).toNat :=
        image_behind (by omega)
      rw [ih ordered_rest (fun next member => sited next (by simp [member])) (stop ▸ inside),
        written_before ordered same, List.append_assoc, ← behind,
        ← image_between content (view :: rest) (by omega) (by omega)]
  | @taken view rest progress here last same enters further ih =>
      obtain ⟨goes, -, ordered_rest⟩ := Overlay.ordered_cons.mp ordered
      obtain ⟨stop, inside, arrived⟩ := comes_of_same within same
      have moved := here.position_takeUpTo content view.value (Int.le_of_lt enters)
      have inside_rest : min view.stop progress.stop ≤ here.stop := by omega
      rw [← moved] at inside_rest
      have reaches := further.reaches ordered_rest.proper inside_rest
      have position := reaches.position
      have ahead := le_reach rest (min view.stop progress.stop)
      rw [moved, stop_takeUpTo] at position
      have taken := @written_within content rest view here ordered (sited view (by simp))
        (by omega) _ (Int.min_le_left view.stop progress.stop)
      have behind : image content (view :: rest) (min view.stop progress.stop)
          (last.position - min view.stop progress.stop).toNat =
            image content rest (min view.stop progress.stop)
              (last.position - min view.stop progress.stop).toNat :=
        image_behind (by omega)
      rw [ih ordered_rest (fun next member => sited next (by simp [member])) inside_rest, moved,
        taken, written_before ordered same, ← behind, List.append_assoc, List.append_assoc,
        ← image_between content (view :: rest) (by omega) (by omega),
        ← image_between content (view :: rest) (by omega) (by omega)]

/-- The time of a read through views is the newest of its own and those of the views met. -/
theorem Through.newest (through : Through content views progress last)
    (ordered : Overlay.Ordered views) (within : progress.position ≤ progress.stop) :
    last.newest = newestOf (met views progress.position last.position) progress.newest := by
  induction through with
  | done progress => rfl
  | @passed view rest progress here last same nothing further ih =>
      obtain ⟨goes, above, ordered_rest⟩ := Overlay.ordered_cons.mp ordered
      obtain ⟨stop, inside, arrived⟩ := comes_of_same within same
      have reaches := further.reaches ordered_rest.proper (stop ▸ inside)
      have position := reaches.position
      rw [ih ordered_rest (stop ▸ inside), same.newest, met_cons, if_neg (by omega)]
      congr 1
      refine met_congr fun next member => ?_
      have := above next member
      omega
  | @taken view rest progress here last same enters further ih =>
      obtain ⟨goes, above, ordered_rest⟩ := Overlay.ordered_cons.mp ordered
      obtain ⟨stop, inside, arrived⟩ := comes_of_same within same
      have moved := here.position_takeUpTo content view.value (Int.le_of_lt enters)
      have inside_rest : min view.stop progress.stop ≤ here.stop := by omega
      rw [← moved] at inside_rest
      have reaches := further.reaches ordered_rest.proper inside_rest
      have position := reaches.position
      have ahead := le_reach rest (min view.stop progress.stop)
      rw [moved, stop_takeUpTo] at position
      have newest : (here.takeUpTo content view.value (min view.stop progress.stop)).newest =
          max progress.newest view.value.modified := congrArg (max · _) same.newest
      rw [ih ordered_rest inside_rest, newest, moved, met_cons, if_pos (by omega), newestOf_cons]
      congr 1
      refine met_congr fun next member => ?_
      have := above next member
      omega

end Progress

namespace ChunkReader

/-- Fills a buffer as `read` does, amid others. -/
def readAmid (reader : ChunkReader) (others : List ChunkView → Progress → Progress)
    (random : List ChunkView → Bool) (source : ChunkSource) (cancelled : Bool)
    (session : ReadSession) (buffer : Bytes) (offset : Int) : ReadOutcome :=
  let (result, progress) := Progress.readAmid others random source cancelled
    (reader.views.map (·.value))
    { session, lastFile := reader.lastFile, offset, length := buffer.length }
  let progress := match result with
    | .ok () => progress.finish reader.fileSize
    | .error _ => progress
  { result := result.map fun () => (progress.written.length, progress.newest)
    buffer := progress.written ++ buffer.drop progress.written.length }

/-- How far a read may get that starts at a position: to the end of the last view or to the length
of the file, whichever comes later. -/
def extent (reader : ChunkReader) (offset : Int) : Int :=
  max (lastStop reader.views offset) reader.fileSize

end ChunkReader

variable {content : String → Bytes} {reader : ChunkReader} {source : ChunkSource}
  {cancelled : Bool} {others : List ChunkView → Progress → Progress}
  {random : List ChunkView → Bool} {session : ReadSession} {buffer : Bytes} {offset : Int}

/-- Behind the views there are zeros up to the length of the file. -/
theorem Progress.Through.finish {progress last : Progress}
    (through : Progress.Through content reader.views progress last)
    (ordered : Overlay.Ordered reader.views) (sited : ∀ view ∈ reader.views, Sited view)
    (within : progress.position ≤ progress.stop) (near : progress.stop - 2 ^ (63 : Nat) ≤ reader.fileSize)
    (far : reader.fileSize - progress.position ≤ maxPosition) :
    (last.finish reader.fileSize).position =
        min progress.stop (reader.extent progress.position) ∧
      (last.finish reader.fileSize).written = progress.written ++
        image content reader.views progress.position
          ((last.finish reader.fileSize).position - progress.position).toNat ∧
      (last.finish reader.fileSize).newest =
        newestOf (met reader.views progress.position (last.finish reader.fileSize).position)
          progress.newest := by
  have reaches := through.reaches ordered.proper within
  have filled := (reaches_of_zeroUpTo reaches.within reader.fileSize).trans reaches
  have written := through.written ordered sited within
  have newest := through.newest ordered within
  have arrived := reaches.position
  have position := filled.position
  have moved := last.position_zeroUpTo reader.fileSize
  have ahead := le_reach reader.views progress.position
  have most : ∀ view ∈ reader.views, view.stop ≤ reach reader.views progress.position :=
    fun view member => stop_le_reach member progress.position
  rw [finish_eq_zeroUpTo (by omega) (by omega)]
  refine ⟨?_, ?_, ?_⟩
  · rw [position, ChunkReader.extent, ← reach_eq_lastStop ordered]
    omega
  · have count : ((last.zeroUpTo reader.fileSize).position - last.position).toNat =
        min last.remaining (reader.fileSize - last.position).toNat := by omega
    have behind := @image_of_no_view content reader.views last.position
      (min last.remaining (reader.fileSize - last.position).toNat) fun position low high =>
        Overlay.at?_eq_none_of_behind most (by omega)
    rw [image_between content reader.views (by omega : progress.position ≤ last.position)
      (by omega), count, behind, ← List.append_assoc, ← written]
    rfl
  · have same : (last.zeroUpTo reader.fileSize).newest = last.newest := rfl
    rw [same, newest]
    congr 1
    refine met_congr fun view member => ?_
    have := most view member
    omega

end Haystack
