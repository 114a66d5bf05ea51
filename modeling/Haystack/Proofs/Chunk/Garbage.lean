import Haystack.Proofs.Chunk.Reordered
import Haystack.Proofs.Section.Windows

/-!
# Garbage

A chunk of which nothing is visible is never the one that counts, so the same chunks count without
it, now and after more chunks. That alone does not say that the same segments are visible, as the
dropped chunk had a part in how the others were cut. But segments that touch always show different
chunks, also where a chunk is listed twice: of two equal calls only the later one is seen. So the
chunks that count tell the segments, and garbage leaves no trace.
-/

namespace Haystack

namespace Overlay

open Segment

variable {α : Type} [Clippable α] {calls : List (Call α)}

/-- The call that the reference names covers the position and has the time that it says. -/
theorem exists_call_of_reference {position time : Int} {number : Nat}
    (marked : reference calls position = some (time, number)) :
    ∃ call, calls[number]? = some call ∧ call.time = time ∧
      call.start ≤ position ∧ position < call.stop := by
  have shows := shows_run calls position
  rw [marked] at shows
  cases seen : at? (run calls) position with
  | none => simp [seen] at shows
  | some segment =>
      have shown : Shows calls (time, number) segment := by simpa [seen] using shows
      obtain ⟨same, call, found, piece⟩ := shown
      have covered := covers_of_at? seen
      have within : call.start ≤ segment.start ∧ segment.stop ≤ call.stop := piece.within
      have counted : segment.time = call.time := piece.time_eq
      exact ⟨call, found, counted.symm.trans same, by omega, by omega⟩

/-- A call is named wherever it reaches, unless something later than its time is seen there. -/
theorem Call.mark_cases {α : Type} (call : Call α) (number : Nat) (earlier : Reference)
    (position : Int) :
    call.mark number earlier position = some (call.time, number) ∨
      call.mark number earlier position = earlier position ∧
        (call.start ≤ position → position < call.stop →
          ∃ mark, earlier position = some mark ∧ call.time < mark.1) := by
  unfold Call.mark
  split
  · split
    · rename_i time other _ seen
      split
      · exact .inl rfl
      · exact .inr ⟨seen.symm, fun _ _ => ⟨_, seen, by omega⟩⟩
    · exact .inl rfl
  · exact .inr ⟨rfl, fun low high => by omega⟩

/-- Of equal calls only the last is seen. -/
theorem le_of_wonBy {number other : Nat} {call : Call α} (found : calls[number]? = some call)
    (again : calls[other]? = some call) {position : Int}
    (won : wonBy calls position = some number) : other ≤ number := by
  induction calls using List.reverseRecOn with
  | nil => contradiction
  | append_singleton calls last ih =>
      obtain ⟨⟨time, _⟩, marked, rfl⟩ := Option.map_eq_some_iff.mp won
      have bound := (List.getElem?_eq_some_iff.mp again).1
      rw [List.length_append, List.length_singleton] at bound
      rw [reference_concat] at marked
      obtain seen | ⟨kept, older⟩ := last.mark_cases calls.length (reference calls) position
      · rw [seen] at marked
        obtain ⟨rfl, rfl⟩ := Prod.mk.inj (Option.some.inj marked)
        omega
      · rw [kept] at marked
        obtain ⟨same, place, counted, low, high⟩ := exists_call_of_reference marked
        have inside := (List.getElem?_eq_some_iff.mp place).1
        rw [List.getElem?_append_left inside] at found
        obtain rfl := Option.some.inj (place.symm.trans found)
        obtain within | rfl := Nat.lt_or_eq_of_le (Nat.le_of_lt_succ bound)
        · rw [List.getElem?_append_left within] at again
          exact ih found again (by rw [wonBy, marked]; rfl)
        · -- The call is the last one once more, and would be seen.
          rw [List.getElem?_concat_length] at again
          obtain rfl := Option.some.inj again
          obtain ⟨mark, told, later⟩ := older low high
          rw [marked] at told
          obtain rfl := Option.some.inj told
          omega

/-- Where a label tells the call that a segment belongs to, segments that touch differ in their
labels, even if a call is made twice. -/
theorem parted_of_tells {β : Type} {label : Segment α → β}
    (tells : ∀ call ∈ calls, ∀ other ∈ calls, ∀ segment next, call.segment.Piece segment →
      other.segment.Piece next → label segment = label next → call = other) :
    Parted label (run calls) := by
  refine (ordered_run calls).apart.imp_of_mem ?_
  intro segment next member present _ touches same
  obtain ⟨number, longest, call, found, piece⟩ := longestRun_of_mem member
  obtain ⟨other, follows, again, known, part⟩ := longestRun_of_mem present
  obtain rfl := tells call (List.mem_of_getElem? found) again (List.mem_of_getElem? known)
    segment next piece part same
  have first := longest.inside segment.start (Int.le_refl _) longest.proper
  have second := follows.inside next.start (Int.le_refl _) follows.proper
  have equal := Nat.le_antisymm (le_of_wonBy known found second) (le_of_wonBy found known first)
  exact longest.behind (by rw [touches, second, equal])

end Overlay

namespace Chunk

open Overlay Segment

variable {chunks others : List Chunk} {start stop : Int}

/-- Segments that touch show different chunks, whatever the chunks are. -/
theorem parted_shownBy (chunks : List Chunk) (start stop : Int) :
    Parted shownBy (resolve chunks start stop) := by
  have calls : resolve chunks start stop =
      run (chunks.map fun chunk => chunk.call.within start stop) := by
    rw [resolve_eq_run, List.map_map]
    rfl
  have shows (chunk : Chunk) {segment : Segment VisibleChunk}
      (piece : (chunk.call.within start stop).segment.Piece segment) : shownBy segment = chunk :=
    ((visible_make chunk _ _).piece piece).shownBy_eq
  rw [calls]
  refine parted_of_tells fun call member other present segment next piece part same => ?_
  obtain ⟨chunk, _, rfl⟩ := List.mem_map.mp member
  obtain ⟨rival, _, rfl⟩ := List.mem_map.mp present
  rw [shows chunk piece, shows rival part] at same
  rw [same]

/-- The chunks that count in a window tell the segments that are visible there. -/
theorem resolve_congr
    (same : ∀ position, start ≤ position → position < stop →
      winner? chunks position = winner? others position) :
    resolve chunks start stop = resolve others start stop := by
  refine eq_of_labelAt?_eq (ordered_resolve chunks start stop) (parted_shownBy chunks start stop)
    (ordered_resolve others start stop) (parted_shownBy others start stop) ?_ ?_
  · intro segment member next present alike from_start to_stop
    obtain ⟨chunk, _, visible, _⟩ := visible_of_mem_resolve member
    obtain ⟨other, _, again, _⟩ := visible_of_mem_resolve present
    rw [visible.shownBy_eq, again.shownBy_eq] at alike
    rw [alike] at again
    exact visible.unique again from_start to_stop
  · intro position
    rw [labelAt?_resolve, labelAt?_resolve]
    split
    · rename_i inside
      exact same position inside.1 inside.2
    · rfl

theorem winner?_append (front back : List Chunk) (position : Int) :
    winner? (front ++ back) position = back.foldl (contend position) (winner? front position) :=
  List.foldl_append

/-- A chunk that counts stays the one that counts, as long as no chunk that covers the position was
modified at its time or later. -/
theorem foldl_contend_of_later {position : Int} {chunk : Chunk} {back : List Chunk}
    (high : ∀ other ∈ back, other.covers position = true → other.modified < chunk.modified) :
    back.foldl (contend position) (some chunk) = some chunk := by
  induction back with
  | nil => rfl
  | cons other back ih =>
      have loses : ¬(other.covers position && decide (chunk.modified ≤ other.modified)) = true := by
        rw [Bool.and_eq_true, decide_eq_true_iff]
        rintro ⟨covered, newer⟩
        have := high other (by simp) covered
        omega
      rw [List.foldl_cons, contend, Option.all_some, if_neg loses]
      exact ih fun next member => high next (by simp [member])

/-- A chunk counts where it covers the position, no chunk before it that does was modified after it,
and all chunks behind it that do were modified before it. -/
theorem winner?_of_split {position : Int} {chunk : Chunk} {front back : List Chunk}
    (covers : chunk.covers position = true)
    (low : ∀ other ∈ front, other.covers position = true → other.modified ≤ chunk.modified)
    (high : ∀ other ∈ back, other.covers position = true → other.modified < chunk.modified) :
    winner? (front ++ chunk :: back) position = some chunk := by
  have wins : contend position (winner? front position) chunk = some chunk := by
    cases found : winner? front position with
    | none => rw [contend, covers, Option.all_none, Bool.and_self, if_pos rfl]
    | some best =>
        have older := low best (mem_of_winner? found)
          ((covers_iff best position).mpr (covers_of_winner? found))
        rw [contend, covers, Option.all_some, decide_eq_true older, Bool.and_self, if_pos rfl]
  rw [winner?_append, List.foldl_cons, wins]
  exact foldl_contend_of_later high

/-- Chunks that do not count at a position can be left out there. -/
theorem winner?_filter {keep : Chunk → Bool} {position : Int}
    (kept : ∀ chunk, winner? chunks position = some chunk → keep chunk = true) :
    winner? (chunks.filter keep) position = winner? chunks position := by
  cases found : winner? chunks position with
  | none =>
      have uncovered := winner?_eq_none_iff.mp found
      exact winner?_eq_none_iff.mpr fun other member =>
        uncovered other (List.mem_of_mem_filter member)
  | some chunk =>
      obtain ⟨front, back, rfl, covers, low, high⟩ := winner?_eq_some found
      rw [List.filter_append, List.filter_cons_of_pos (kept chunk found)]
      exact winner?_of_split covers
        (fun other member => low other (List.mem_of_mem_filter member))
        (fun other member => high other (List.mem_of_mem_filter member))

theorem isLive_of_winner? {position : Int} {chunk : Chunk} (low : start ≤ position)
    (high : position < stop) (found : winner? chunks position = some chunk) :
    isLive (resolve chunks start stop) chunk = true := by
  have visible := visible_at low high chunks
  rw [found] at visible
  cases seen : (resolve chunks start stop).at? position with
  | none => simp [seen] at visible
  | some segment =>
      have shows : chunk.Visible segment := by simpa [seen] using visible
      refine List.any_eq_true.mpr ⟨segment, mem_of_at? seen, beq_iff_eq.mpr ?_⟩
      rw [shows.value_eq]
      rfl

theorem isLive_iff {visible : Overlay VisibleChunk} {chunk : Chunk} :
    isLive visible chunk = true ↔ ∃ segment ∈ visible, segment.value.fileId = chunk.fileId := by
  simp [isLive]

/-- Separating the garbage of some chunks loses and doubles none of them and keeps their order. A
chunk is live if its file shows somewhere, and garbage if not. Without the garbage the same segments
are visible, down to where they are cut, and they will be after any more chunks. -/
theorem garbage_leaves_no_trace (chunks later : List Chunk) (start stop : Int) :
    let visible := resolve chunks start stop
    let live := (separateGarbage visible chunks).1
    let garbage := (separateGarbage visible chunks).2
    (live ++ garbage).Perm chunks ∧ live.Sublist chunks ∧ garbage.Sublist chunks ∧
      (∀ chunk ∈ live, ∃ segment ∈ visible, segment.value.fileId = chunk.fileId) ∧
      (∀ chunk ∈ garbage, ∀ segment ∈ visible, segment.value.fileId ≠ chunk.fileId) ∧
      resolve (live ++ later) start stop = resolve (chunks ++ later) start stop := by
  intro visible live garbage
  have parts : separateGarbage visible chunks =
      (chunks.filter (isLive visible), chunks.filter (not ∘ isLive visible)) :=
    List.partition_eq_filter_filter
  have kept : live = chunks.filter (isLive visible) := congrArg Prod.fst parts
  have dropped : garbage = chunks.filter (not ∘ isLive visible) := congrArg Prod.snd parts
  rw [kept, dropped]
  refine ⟨List.filter_append_perm _ chunks, List.filter_sublist, List.filter_sublist, ?_, ?_, ?_⟩
  · intro chunk member
    exact isLive_iff.mp (List.mem_filter.mp member).2
  · intro chunk member segment present same
    have dead := (List.mem_filter.mp member).2
    rw [Function.comp_apply, isLive_iff.mpr ⟨segment, present, same⟩] at dead
    contradiction
  · refine resolve_congr fun position low high => ?_
    rw [winner?_append, winner?_append]
    rw [winner?_filter fun chunk found => isLive_of_winner? low high found]

end Chunk

end Haystack
