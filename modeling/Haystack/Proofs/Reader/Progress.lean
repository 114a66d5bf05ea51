import Haystack.Proofs.Cache.Holds
import Haystack.Proofs.Chunk.Views
import Haystack.Proofs.Reader.Image
import Haystack.Reader.Basic

/-!
# Reading is taking the image

While a reader goes through its views, what it has written is the image of the file from the start
of the read on, and the views that are left show the chunks that count from the position on. When
no view is left there is nothing but zeros up to the length of the file.
-/

namespace Haystack

/-- The views show the chunks that count in a range, and none of them reaches beyond a limit. -/
structure ChunkView.Show (views : Overlay ChunkView) (chunks : List Chunk) (limit : Int)
    (start stop : Int) : Prop where
  ordered : views.Ordered
  told : ∀ view ∈ views, view.value.offset = view.start ∧ view.value.stop = view.stop
  reach : ∀ view ∈ views, view.stop ≤ limit
  at_all : ∀ position, start ≤ position → position < stop →
    (Chunk.winner? chunks position).Rel Reads (views.at? position)

/-- A source has every chunk that counts in a range. -/
def ChunkSource.Serves (source : ChunkSource) (chunks : List Chunk) (start stop : Int) : Prop :=
  ∀ position, start ≤ position → position < stop →
    ∀ chunk, Chunk.winner? chunks position = some chunk → ∃ data, source chunk.fileId = .ok data

namespace ChunkView

variable {views : Overlay ChunkView} {view : Segment ChunkView} {chunks : List Chunk}
  {limit start stop : Int}

theorem Show.narrow (shown : Show views chunks limit start stop) {first last : Int}
    (low : start ≤ first) (high : last ≤ stop) : Show views chunks limit first last := by
  refine ⟨shown.ordered, shown.told, shown.reach, ?_⟩
  intro position inside below
  exact shown.at_all position (by omega) (by omega)

theorem Show.tail (shown : Show (view :: views) chunks limit start stop)
    (behind : stop ≤ start ∨ view.stop ≤ start) : Show views chunks limit start stop := by
  obtain ⟨_, _, ordered⟩ := Overlay.ordered_cons.mp shown.ordered
  refine ⟨ordered, fun next member => shown.told next (by simp [member]),
    fun next member => shown.reach next (by simp [member]), ?_⟩
  intro position low high
  have shows := shown.at_all position low high
  rw [Overlay.at?_cons, if_neg (by rw [Segment.covers_iff]; omega)] at shows
  exact shows

/-- Before the first view no chunk counts. -/
theorem Show.before (shown : Show (view :: views) chunks limit start stop) {position : Int}
    (low : start ≤ position) (high : position < stop) (before : position < view.start) :
    Chunk.winner? chunks position = none := by
  obtain ⟨_, above, _⟩ := Overlay.ordered_cons.mp shown.ordered
  have proper := shown.ordered.proper view (by simp)
  have behind : ∀ next ∈ view :: views, view.start ≤ next.start := by
    intro next member
    rcases List.mem_cons.mp member with rfl | member
    · exact Int.le_refl _
    · have := above next member
      omega
  have shows := shown.at_all position low high
  rw [Overlay.at?_eq_none_of_before behind before] at shows
  cases found : Chunk.winner? chunks position with
  | none => rfl
  | some chunk => simp [found] at shows

theorem Show.first (shown : Show (view :: views) chunks limit start stop) {position : Int}
    (low : start ≤ position) (high : position < stop)
    (within : view.start ≤ position ∧ position < view.stop) :
    ∃ chunk, Chunk.winner? chunks position = some chunk ∧ Reads chunk view := by
  have shows := shown.at_all position low high
  rw [Overlay.at?_cons, if_pos ((Segment.covers_iff _ _).mpr within)] at shows
  cases found : Chunk.winner? chunks position with
  | none => simp [found] at shows
  | some chunk => exact ⟨chunk, rfl, by simpa [found] using shows⟩

end ChunkView

namespace Progress

open ChunkView

variable {content : String → Bytes} {chunks : List Chunk} {limit : Int} {progress : Progress}

/-- What has been written is the image of the file from the start of the read on, not beyond a
limit unless the read starts there. -/
structure Shows (progress : Progress) (content : String → Bytes) (chunks : List Chunk)
    (limit : Int) : Prop where
  short : progress.written.length ≤ progress.length
  bound : progress.position ≤ max progress.offset limit
  image : progress.written = Chunk.image content chunks progress.offset progress.written.length
  newest : progress.newest = Chunk.newestIn chunks progress.offset progress.written.length

/-- The same has been read for the same read. -/
structure Same (progress earlier : Progress) : Prop where
  offset : progress.offset = earlier.offset
  length : progress.length = earlier.length
  written : progress.written = earlier.written
  newest : progress.newest = earlier.newest

theorem Same.position_eq {earlier : Progress} (same : progress.Same earlier) :
    progress.position = earlier.position := by
  rw [position, same.offset, same.written, position]

theorem Shows.same {earlier : Progress} (shows : earlier.Shows content chunks limit)
    (same : progress.Same earlier) : progress.Shows content chunks limit := by
  have position := same.position_eq
  obtain ⟨offset, length, written, newest⟩ := same
  refine ⟨?_, ?_, ?_, ?_⟩
  · rw [written, length]
    exact shows.short
  · rw [position, offset]
    exact shows.bound
  · rw [written, offset]
    exact shows.image
  · rw [newest, written, offset]
    exact shows.newest

/-- Where the read stops. -/
def stop (progress : Progress) : Int :=
  progress.offset + progress.length

theorem Same.stop_eq {earlier : Progress} (same : progress.Same earlier) :
    progress.stop = earlier.stop := by
  rw [stop, same.offset, same.length, stop]

/-- Where the read stops is left as it is by 64 bits. -/
def Fits (progress : Progress) : Prop :=
  wrapped progress.stop = progress.stop

theorem Fits.of_stop_eq {earlier : Progress} (fits : earlier.Fits)
    (same : progress.stop = earlier.stop) : progress.Fits := by
  rw [Fits, same]
  exact fits

theorem wrapped_position_add_remaining (within : progress.position ≤ progress.stop)
    (fits : progress.Fits) : wrapped (progress.position + progress.remaining) = progress.stop := by
  have whole : progress.position + progress.remaining = progress.stop := by
    unfold position stop at *
    unfold remaining
    omega
  rw [whole, fits]

theorem Shows.within (shows : progress.Shows content chunks limit) :
    progress.position ≤ progress.stop := by
  have short := shows.short
  unfold position stop
  omega

theorem Shows.start (session : ReadSession) (lastFile : Option String) (offset : Int)
    (length : Nat) :
    Shows { session, lastFile, offset, length } content chunks limit := by
  refine ⟨Nat.zero_le _, ?_, rfl, rfl⟩
  simp only [position, List.length_nil]
  omega

/-- Writing the image of the next positions keeps the progress right. -/
theorem Shows.append (shows : progress.Shows content chunks limit) {later : Progress}
    {part : Bytes} (written : later.written = progress.written ++ part)
    (offset : later.offset = progress.offset) (length : later.length = progress.length)
    (fits : part.length ≤ progress.remaining)
    (bound : progress.position + part.length ≤ max progress.offset limit)
    (image : part = Chunk.image content chunks progress.position part.length)
    (newest : later.newest =
      max progress.newest (Chunk.newestIn chunks progress.position part.length)) :
    later.Shows content chunks limit := by
  have count : later.written.length = progress.written.length + part.length := by
    rw [written, List.length_append]
  have short := shows.short
  unfold remaining at fits
  unfold position at bound image newest
  refine ⟨by omega, ?_, ?_, ?_⟩
  · rw [position, offset, count]
    omega
  · rw [offset, count, Chunk.image_add, ← shows.image, ← image, written]
  · rw [offset, count, Chunk.newestIn_add, ← shows.newest, newest]

@[simp] theorem offset_zeroUpTo (progress : Progress) (stop : Int) :
    (progress.zeroUpTo stop).offset = progress.offset := rfl

@[simp] theorem length_zeroUpTo (progress : Progress) (stop : Int) :
    (progress.zeroUpTo stop).length = progress.length := rfl

@[simp] theorem session_zeroUpTo (progress : Progress) (stop : Int) :
    (progress.zeroUpTo stop).session = progress.session := rfl

@[simp] theorem stop_zeroUpTo (progress : Progress) (start : Int) :
    (progress.zeroUpTo start).stop = progress.stop := rfl

theorem position_zeroUpTo (progress : Progress) (stop : Int) :
    (progress.zeroUpTo stop).position =
      progress.position + min progress.remaining (stop - progress.position).toNat := by
  simp only [position, zeroUpTo, List.length_append, Bytes.length_zeros]
  omega

theorem finish_eq_zeroUpTo {fileSize : Int} (low : progress.position - 2 ^ (63 : Nat) ≤ fileSize)
    (high : fileSize - progress.position ≤ maxPosition) :
    progress.finish fileSize = progress.zeroUpTo fileSize := by
  have rest : wrapped (fileSize - progress.position) = fileSize - progress.position :=
    wrapped_of_fits (by omega) high
  have whole : progress.position + (fileSize - progress.position) = fileSize := by omega
  rw [finish, rest, whole]

/-- Zeros are right where no chunk counts. -/
theorem Shows.zeroUpTo (shows : progress.Shows content chunks limit) {stop : Int}
    (reach : stop ≤ limit)
    (empty : ∀ position, progress.position ≤ position → position < stop →
      position < progress.stop → Chunk.winner? chunks position = none) :
    (progress.zeroUpTo stop).Shows content chunks limit := by
  have bound := shows.bound
  have short := shows.short
  have none : ∀ position, progress.position ≤ position →
      position < progress.position +
        (Bytes.zeros (min progress.remaining (stop - progress.position).toNat)).length →
      Chunk.winner? chunks position = none := by
    intro position low high
    rw [Bytes.length_zeros, remaining] at high
    refine empty position low (by omega) ?_
    unfold Progress.position at high low
    unfold Progress.stop
    omega
  refine shows.append rfl rfl rfl ?_ ?_ ?_ ?_
  · rw [Bytes.length_zeros]
    exact Nat.min_le_left _ _
  · rw [Bytes.length_zeros]
    omega
  · rw [Chunk.image_of_no_winner none, Bytes.length_zeros]
  · have nonneg := Chunk.newestIn_nonneg chunks progress.offset progress.written.length
    rw [← shows.newest] at nonneg
    rw [Chunk.newestIn_of_no_winner none]
    change progress.newest = _
    omega

section

variable (random : Bool) (view : ChunkView) (next : Option ChunkView) (within : Int)

theorem leaveBehind_cases (progress : Progress) :
    progress.leaveBehind view = progress ∨
      progress.leaveBehind view = progress.noteRandom view ∨
      ∃ file, progress.leaveBehind view =
        { progress.noteRandom view with
          session := { progress.session with cache := progress.session.cache.uncache file } } := by
  unfold leaveBehind
  split
  · exact .inr (.inl rfl)
  · rename_i file _
    split
    · exact .inl rfl
    · exact .inr (.inr ⟨file, rfl⟩)

/-- Noting that a chunk is read changes nothing about what has been read. -/
theorem same_note (progress : Progress) :
    (progress.note random view next within).Same progress := by
  have left : (progress.leaveBehind view).Same progress := by
    rcases progress.leaveBehind_cases view with same | noted | ⟨file, dropped⟩
    · rw [same]
      exact ⟨rfl, rfl, rfl, rfl⟩
    · rw [noted]
      exact ⟨rfl, rfl, rfl, rfl⟩
    · rw [dropped]
      exact ⟨rfl, rfl, rfl, rfl⟩
  unfold note
  split
  · exact ⟨rfl, rfl, rfl, rfl⟩
  · split
    · exact left
    · split
      · exact ⟨left.offset, left.length, left.written, left.newest⟩
      · exact left

theorem holds_note (progress : Progress) (holds : progress.session.cache.Holds content) :
    (progress.note random view next within).session.cache.Holds content := by
  have left : (progress.leaveBehind view).session.cache.Holds content := by
    rcases progress.leaveBehind_cases view with same | noted | ⟨file, dropped⟩
    · rw [same]
      exact holds
    · rw [noted]
      exact holds
    · rw [dropped]
      exact holds.uncache file
  unfold note
  split
  · exact holds
  · split
    · exact left
    · split
      · exact left
      · exact left

end

/-- Whatever the views are, the cache still holds contents afterwards. -/
theorem holds_readViews {source : ChunkSource} (honest : source.Honest content)
    (cancelled random : Bool) (views : List ChunkView) (progress : Progress)
    (holds : progress.session.cache.Holds content) :
    (readViews source cancelled random views progress).2.session.cache.Holds content := by
  induction views generalizing progress with
  | nil => exact holds
  | cons view rest ih =>
      have kept := holds.getOrFetch honest cancelled view.fileId
      rw [readViews]
      dsimp only
      split
      · exact ih _ holds
      · rw [session_zeroUpTo]
        cases got : progress.session.cache.getOrFetch source cancelled view.fileId with
        | mk result cache =>
            rw [got] at kept
            cases result with
            | error problem => exact kept.1
            | ok data => exact ih _ (holds_note random view rest.head? _ _ kept.1)

/-- What has to hold after going through some views: what has been written is the image, and if
nothing stopped the read no chunk counts from the position on. Nothing stops it if the source has
all chunks that count. -/
structure Served (progress : Progress) (content : String → Bytes) (chunks : List Chunk)
    (limit : Int) (source : ChunkSource) (cancelled : Bool)
    (outcome : Except ReadError Unit × Progress) : Prop where
  offset : outcome.2.offset = progress.offset
  length : outcome.2.length = progress.length
  shows : outcome.2.Shows content chunks limit
  done : outcome.1 = .ok () → ∀ position, outcome.2.position ≤ position →
    position < progress.stop → Chunk.winner? chunks position = none
  served : cancelled = false → source.Serves chunks progress.offset progress.stop →
    outcome.1 = .ok ()

/-- Taking a part of the first view's chunk keeps the progress right. -/
theorem Shows.take (shows : progress.Shows content chunks limit) {view : Segment ChunkView}
    {views : Overlay ChunkView}
    (shown : Show (view :: views) chunks limit progress.position progress.stop)
    {stop : Int} (proper : progress.position < stop) (low : view.start ≤ progress.position)
    (high : stop ≤ view.stop) (wanted : stop ≤ progress.stop) :
    (progress.take view.value (content view.value.fileId)
      (progress.position - view.value.offset + view.value.offsetInChunk)
      (stop - progress.position).toNat).Shows content chunks limit := by
  have told := (shown.told view (by simp)).1
  have reach := shown.reach view (by simp)
  have reads (position : Int) (from_here : progress.position ≤ position)
      (below : position < progress.position + (stop - progress.position).toNat) :
      ∃ chunk, Chunk.winner? chunks position = some chunk ∧ Reads chunk view :=
    shown.first from_here (by omega) (by omega)
  have inside : 0 ≤ progress.position - view.value.offset + view.value.offsetInChunk := by
    obtain ⟨chunk, found, shows⟩ := reads progress.position (Int.le_refl _) (by omega)
    have covers := Chunk.covers_of_winner? found
    rw [told, shows.place]
    omega
  refine shows.append rfl rfl rfl ?_ ?_ ?_ ?_
  · rw [Bytes.length_resize]
    unfold Progress.stop at wanted
    unfold Progress.position at proper ⊢
    unfold remaining
    omega
  · rw [Bytes.length_resize]
    omega
  · rw [Bytes.length_resize, Chunk.image_of_winner inside]
    intro position from_here below
    obtain ⟨chunk, found, shows⟩ := reads position from_here below
    refine ⟨chunk, found, shows.fileId.symm, ?_⟩
    rw [told, shows.place]
    omega
  · have nonneg := Chunk.newestIn_nonneg chunks progress.offset progress.written.length
    rw [← shows.newest] at nonneg
    have newest : Chunk.newestIn chunks progress.position (stop - progress.position).toNat =
        max 0 view.value.modified := by
      refine Chunk.newestIn_of_winner (by omega) ?_
      intro position from_here below
      obtain ⟨chunk, found, shows⟩ := reads position from_here below
      exact ⟨chunk, found, shows.modified.symm⟩
    rw [Bytes.length_resize, newest]
    change max progress.newest view.value.modified = _
    omega

theorem position_take (progress : Progress) (view : ChunkView) (data : Bytes) (within : Int)
    (length : Nat) :
    (progress.take view data within length).position = progress.position + length := by
  simp only [position, take, List.length_append, Bytes.length_resize]
  omega

/-- What holds whenever a view is taken up: the views that are left show what counts from the
position on, and what has been written is the image. -/
structure Ready (progress : Progress) (content : String → Bytes) (chunks : List Chunk)
    (limit : Int) (views : Overlay ChunkView) : Prop where
  shown : Show views chunks limit progress.position progress.stop
  holds : progress.session.cache.Holds content
  shows : progress.Shows content chunks limit
  fits : progress.Fits

section

variable {view : Segment ChunkView} {views : Overlay ChunkView}

theorem Ready.same {earlier : Progress} (ready : earlier.Ready content chunks limit views)
    (same : progress.Same earlier) (holds : progress.session.cache.Holds content) :
    progress.Ready content chunks limit views := by
  refine ⟨?_, holds, ready.shows.same same, ready.fits.of_stop_eq same.stop_eq⟩
  rw [same.position_eq, same.stop_eq]
  exact ready.shown

theorem reaches_zeroUpTo (progress : Progress) (start : Int) :
    start ≤ (progress.zeroUpTo start).position ∨
      progress.stop ≤ (progress.zeroUpTo start).position := by
  rw [position_zeroUpTo]
  unfold remaining position Progress.stop
  omega

theorem Ready.fill (ready : progress.Ready content chunks limit (view :: views)) :
    (progress.zeroUpTo view.start).Ready content chunks limit (view :: views) := by
  have proper := ready.shown.ordered.proper view (by simp)
  have reach := ready.shown.reach view (by simp)
  have moved := position_zeroUpTo progress view.start
  refine ⟨ready.shown.narrow (by omega) (Int.le_refl _), ready.holds, ?_, ready.fits⟩
  refine ready.shows.zeroUpTo (by omega) ?_
  intro position low before below
  exact ready.shown.before low below before

theorem Ready.pass (ready : progress.Ready content chunks limit (view :: views))
    (passed : min view.stop progress.stop ≤ progress.position) :
    progress.Ready content chunks limit views :=
  ⟨ready.shown.tail (by omega), ready.holds, ready.shows, ready.fits⟩

/-- A part of a chunk is taken after noting things that change nothing about what has been read. -/
theorem Ready.take (ready : progress.Ready content chunks limit (view :: views))
    (low : view.start ≤ progress.position)
    (enters : progress.position < min view.stop progress.stop) {noted : Progress}
    (same : noted.Same progress) (holds : noted.session.cache.Holds content) :
    (noted.take view.value (content view.value.fileId)
      (progress.position - view.value.offset + view.value.offsetInChunk)
      (min view.stop progress.stop - progress.position).toNat).Ready content chunks limit
        views := by
  have fresh := ready.same same holds
  rw [← same.position_eq, ← same.stop_eq] at enters ⊢
  rw [← same.position_eq] at low
  have moved := position_take noted view.value (content view.value.fileId)
    (noted.position - view.value.offset + view.value.offsetInChunk)
    (min view.stop noted.stop - noted.position).toNat
  refine ⟨?_, holds, ?_, fresh.fits⟩
  · rw [moved]
    exact (fresh.shown.narrow (by omega) (Int.le_refl _)).tail (by omega)
  · exact fresh.shows.take fresh.shown enters low (Int.min_le_left _ _) (Int.min_le_right _ _)

/-- If a chunk is not had the source lacks it. -/
theorem Ready.failed {source : ChunkSource} {cancelled : Bool} {problem : ReadError}
    {cache : TieredCache} (ready : progress.Ready content chunks limit (view :: views))
    (low : view.start ≤ progress.position)
    (enters : progress.position < min view.stop progress.stop)
    (got : progress.session.cache.getOrFetch source cancelled view.value.fileId =
      (.error problem, cache)) :
    progress.Served content chunks limit source cancelled
      (.error problem, { progress with session := { progress.session with cache } }) := by
  obtain ⟨short, bound, image, newest⟩ := ready.shows
  refine ⟨rfl, rfl, ⟨short, bound, image, newest⟩, by simp, ?_⟩
  intro waits serves
  obtain ⟨chunk, counts, reads⟩ := ready.shown.first (Int.le_refl _) (by omega) ⟨low, by omega⟩
  have ahead : progress.offset ≤ progress.position := by
    unfold position
    omega
  obtain ⟨data, given⟩ := serves progress.position ahead (by omega) chunk counts
  rw [← reads.fileId] at given
  obtain ⟨cached, ok⟩ := progress.session.cache.getOrFetch_eq_ok given
  rw [waits] at got
  rw [got] at ok
  contradiction

end

theorem Served.since {source : ChunkSource} {cancelled : Bool} {earlier : Progress}
    {outcome : Except ReadError Unit × Progress}
    (served : progress.Served content chunks limit source cancelled outcome)
    (offset : progress.offset = earlier.offset) (length : progress.length = earlier.length) :
    earlier.Served content chunks limit source cancelled outcome := by
  have stop : progress.stop = earlier.stop := by rw [Progress.stop, offset, length, Progress.stop]
  refine ⟨by rw [served.offset, offset], by rw [served.length, length],
    served.shows, ?_, ?_⟩
  · rw [← stop]
    exact served.done
  · rw [← stop, ← offset]
    exact served.served

theorem Ready.done (ready : progress.Ready content chunks limit []) (source : ChunkSource)
    (cancelled : Bool) :
    progress.Served content chunks limit source cancelled (.ok (), progress) := by
  refine ⟨rfl, rfl, ready.shows, ?_, fun _ _ => rfl⟩
  intro _ position low high
  have shows := ready.shown.at_all position low high
  cases found : Chunk.winner? chunks position with
  | none => rfl
  | some chunk => simp [found] at shows

/-- Going through the views of an honest source's chunks writes the image of the file. -/
theorem readViews_served {source : ChunkSource} (honest : source.Honest content)
    (cancelled random : Bool) {views : Overlay ChunkView} {progress : Progress}
    (ready : progress.Ready content chunks limit views) :
    progress.Served content chunks limit source cancelled
      (readViews source cancelled random (views.map (·.value)) progress) := by
  induction views generalizing progress with
  | nil => exact ready.done source cancelled
  | cons view rest ih =>
      obtain ⟨told_start, told_stop⟩ := ready.shown.told view (by simp)
      have filled := ready.fill
      have arrived := reaches_zeroUpTo progress view.start
      have offset := offset_zeroUpTo progress view.start
      have length := length_zeroUpTo progress view.start
      rw [← stop_zeroUpTo progress view.start] at arrived
      rw [List.map_cons, readViews, told_start, told_stop]
      generalize progress.zeroUpTo view.start = here at *
      simp only [wrapped_position_add_remaining filled.shows.within filled.fits]
      split
      · rename_i passed
        exact (ih (filled.pass passed)).since offset length
      · rename_i enters
        have low : view.start ≤ here.position := by omega
        have kept := filled.holds.getOrFetch honest cancelled view.value.fileId
        cases got : here.session.cache.getOrFetch source cancelled view.value.fileId with
        | mk result cache =>
            rw [got] at kept
            cases result with
            | error problem =>
                exact (filled.failed low (Int.lt_of_not_ge enters) got).since offset length
            | ok data =>
                have right := kept.2 data rfl
                subst right
                rw [← told_start]
                have same := same_note random view.value (rest.map (·.value)).head?
                  (here.position - view.value.offset + view.value.offsetInChunk)
                  { here with session := { here.session with cache } }
                have holds := holds_note random view.value (rest.map (·.value)).head?
                  (here.position - view.value.offset + view.value.offsetInChunk)
                  { here with session := { here.session with cache } } kept.1
                have taken := filled.take low (Int.lt_of_not_ge enters)
                  ⟨same.offset, same.length, same.written, same.newest⟩ holds
                refine (ih taken).since ?_ ?_
                · exact same.offset.trans offset
                · exact same.length.trans length

end Progress

/-- If the read was not stopped, the buffer starts with the image of the file, as far as both reach,
and is as before behind it. -/
def ReadOutcome.Fills (outcome : ReadOutcome) (content : String → Bytes) (chunks : List Chunk)
    (fileSize offset : Int) (buffer : Bytes) : Prop :=
  ∀ count newest, outcome.result = .ok (count, newest) →
    count = min buffer.length (fileSize - offset).toNat ∧
      newest = Chunk.newestIn chunks offset count ∧
      outcome.buffer = Chunk.image content chunks offset count ++ buffer.drop count

/-- What has been written before and after the last zeros reaches up to the length of the file. -/
theorem Progress.Served.finish {content : String → Bytes} {chunks : List Chunk}
    {fileSize : Int} {progress last : Progress} {source : ChunkSource} {cancelled : Bool}
    (served : progress.Served content chunks fileSize source cancelled (.ok (), last))
    (near : progress.stop - 2 ^ (63 : Nat) ≤ fileSize) (far : fileSize - progress.offset ≤ maxPosition) :
    (last.finish fileSize).Shows content chunks fileSize ∧
      (last.finish fileSize).offset = progress.offset ∧
      (last.finish fileSize).written.length =
        min progress.length (fileSize - progress.offset).toNat := by
  have shows : last.Shows content chunks fileSize := served.shows
  have offset : last.offset = progress.offset := served.offset
  have length : last.length = progress.length := served.length
  have short := shows.short
  have bound := shows.bound
  have within := shows.within
  have stop_eq : last.stop = progress.stop := by
    rw [Progress.stop, offset, length, Progress.stop]
  have ahead : last.offset ≤ last.position := by
    unfold position
    omega
  rw [finish_eq_zeroUpTo (by omega) (by omega)]
  refine ⟨shows.zeroUpTo (Int.le_refl _) fun position low _ high => ?_, offset, ?_⟩
  · refine served.done rfl position low ?_
    rw [← stop_eq]
    exact high
  · have moved := last.position_zeroUpTo fileSize
    simp only [position, remaining, offset_zeroUpTo] at moved bound
    omega

/-- All positions and lengths that a read reckons with fit 64 bits. -/
structure ChunkReader.Fits (reader : ChunkReader) (offset : Int) (length : Nat) : Prop where
  first : 0 ≤ offset
  last : offset + length ≤ maxPosition
  near : offset + length - 2 ^ (63 : Nat) ≤ reader.fileSize
  far : reader.fileSize ≤ maxPosition

theorem ChunkReader.Fits.start {reader : ChunkReader} {offset : Int} {length : Nat}
    (fits : reader.Fits offset length) (session : ReadSession) :
    Progress.Fits { session, lastFile := reader.lastFile, offset, length } := by
  have low : -(2 ^ 63) ≤ offset + length := by
    have := fits.first
    omega
  exact wrapped_of_fits low fits.last

/-- A reader whose views show the chunks that count fills buffers with the image of the file. -/
theorem ChunkReader.read_fills {content : String → Bytes} {chunks : List Chunk}
    {reader : ChunkReader} {source : ChunkSource} (honest : source.Honest content)
    (cancelled : Bool) {session : ReadSession} (holds : session.cache.Holds content)
    {buffer : Bytes} {offset : Int}
    (shown : ChunkView.Show reader.views chunks reader.fileSize offset (offset + buffer.length))
    (fits : reader.Fits offset buffer.length) :
    (reader.read source cancelled session buffer offset).1.Fills content chunks reader.fileSize
        offset buffer ∧
      (cancelled = false → source.Serves chunks offset (offset + buffer.length) →
        ∃ amount, (reader.read source cancelled session buffer offset).1.result = .ok amount) := by
  have ready : Progress.Ready
      { session, lastFile := reader.lastFile, offset, length := buffer.length } content chunks
      reader.fileSize reader.views := by
    refine ⟨?_, holds, .start session reader.lastFile offset buffer.length, fits.start session⟩
    simpa [Progress.position, Progress.stop] using shown
  have served := Progress.readViews_served honest cancelled
    (reader.pattern.observe offset buffer.length).isRandom ready
  unfold ChunkReader.read
  dsimp only
  revert served
  generalize Progress.readViews _ _ _ _ _ = outcome
  intro served
  obtain ⟨result, progress⟩ := outcome
  cases result with
  | error problem =>
      refine ⟨?_, fun waits serves => absurd (served.served waits serves) (by simp)⟩
      intro count newest read
      cases read
  | ok =>
      have reach : reader.fileSize - offset ≤ maxPosition := by
        have first := fits.first
        have far := fits.far
        omega
      obtain ⟨shows, start, count⟩ := served.finish fits.near reach
      refine ⟨?_, fun _ _ => ⟨_, rfl⟩⟩
      intro length newest read
      cases read
      refine ⟨count, ?_, ?_⟩
      · have newest := shows.newest
        rw [start] at newest
        exact newest
      · have image := shows.image
        rw [start] at image
        exact congrArg (· ++ _) image

theorem ChunkReader.holds_read {content : String → Bytes} (reader : ChunkReader)
    {source : ChunkSource} (honest : source.Honest content) (cancelled : Bool)
    {session : ReadSession} (holds : session.cache.Holds content) (buffer : Bytes) (offset : Int) :
    (reader.read source cancelled session buffer offset).2.2.cache.Holds content := by
  have kept := Progress.holds_readViews honest cancelled
    (reader.pattern.observe offset buffer.length).isRandom (reader.views.map (·.value))
    { session, lastFile := reader.lastFile, offset, length := buffer.length } holds
  unfold ChunkReader.read
  dsimp only
  split
  · exact kept
  · exact kept

theorem ChunkReader.views_read (reader : ChunkReader) (source : ChunkSource) (cancelled : Bool)
    (session : ReadSession) (buffer : Bytes) (offset : Int) :
    (reader.read source cancelled session buffer offset).2.1.views = reader.views := rfl

end Haystack
