import Haystack.Index.Sorted
import Mathlib.Data.List.Basic

/-!
# Searches in sorted indexes

A bisection ends at an answer, or at a gap to which the positions on both sides lead. So in an index
with rising keys a search finds the entry of a key wherever it stands, and finds nothing if there is
none. Writing the tombstone into an entry leaves the keys and all other bytes as they are, and
therefore also what later searches find.
-/

namespace Haystack

namespace Bisection

variable {ε α : Type} {probe : Nat → Except ε (Turn α)} {low high position : Nat}

/-- How a search over the positions from `low` up to, not including, `high` may end. -/
inductive Lands (probe : Nat → Except ε (Turn α)) (low high : Nat) : Landing α → Prop
  | found {position : Nat} {answer : α} : low ≤ position → position < high →
      probe position = .ok (.found answer) → Lands probe low high (.found answer)
  | gap {position : Nat} : low ≤ position → position ≤ high →
      (low < position → probe (position - 1) = .ok .behind) →
      (position < high → probe position = .ok .before) → Lands probe low high (.gap position)

theorem low_le_middle (low high : Nat) : low ≤ middle low high :=
  Nat.le_add_right ..

theorem middle_lt (h : low < high) : middle low high < high := by
  unfold middle
  omega

theorem Lands.of_before {landing : Landing α} (inside : low < high)
    (before : probe (middle low high) = .ok .before)
    (lands : Lands probe low (middle low high) landing) : Lands probe low high landing := by
  have below := middle_lt inside
  cases lands with
  | found least most answer => exact .found least (by omega) answer
  | gap least most left right =>
      refine .gap least (by omega) left ?_
      intro _
      obtain rfl | less := Nat.eq_or_lt_of_le most
      · exact before
      · exact right less

theorem Lands.of_behind {landing : Landing α}
    (behind : probe (middle low high) = .ok .behind)
    (lands : Lands probe (middle low high + 1) high landing) : Lands probe low high landing := by
  have above := low_le_middle low high
  cases lands with
  | found least most answer => exact .found (by omega) most answer
  | @gap position least most left right =>
      refine .gap (by omega) most ?_ right
      intro _
      obtain same | less := Nat.eq_or_lt_of_le least
      · rw [← same, Nat.add_sub_cancel]
        exact behind
      · exact left less

/-- A search that does not fail lands. -/
theorem lands_of_result (ordered : low ≤ high) {landing : Landing α}
    (ended : (run probe low high).result = .ok landing) : Lands probe low high landing := by
  fun_induction run probe low high with
  | case1 => cases ended
  | case2 low high inside position answer found =>
      cases ended
      exact .found (low_le_middle low high) (middle_lt inside) found
  | case3 low high inside position before further ih =>
      exact (ih (low_le_middle low high) ended).of_before inside before
  | case4 low high inside position behind further ih =>
      exact (ih (middle_lt inside) ended).of_behind behind
  | case5 low high empty =>
      cases ended
      exact .gap (Nat.le_refl _) ordered (by omega) (by omega)

/-- Only positions of the range are probed. -/
theorem mem_probed (probed : position ∈ (run probe low high).probed) :
    low ≤ position ∧ position < high := by
  fun_induction run probe low high with
  | case1 low high inside middle problem failed =>
      obtain rfl := List.mem_singleton.mp probed
      exact ⟨low_le_middle low high, middle_lt inside⟩
  | case2 low high inside middle answer found =>
      obtain rfl := List.mem_singleton.mp probed
      exact ⟨low_le_middle low high, middle_lt inside⟩
  | case3 low high inside middle before further ih =>
      have below := middle_lt inside
      obtain rfl | later := List.mem_cons.mp probed
      · exact ⟨low_le_middle low high, below⟩
      · have part := ih later
        exact ⟨part.1, Nat.lt_trans part.2 below⟩
  | case4 low high inside middle behind further ih =>
      have above := low_le_middle low high
      obtain rfl | later := List.mem_cons.mp probed
      · exact ⟨above, middle_lt inside⟩
      · have part := ih later
        exact ⟨Nat.le_trans above (Nat.le_of_succ_le part.1), part.2⟩
  | case5 => cases probed

/-- A search fails by one of its probes only. -/
theorem exists_failed {problem : ε} (ended : (run probe low high).result = .error problem) :
    ∃ position ∈ (run probe low high).probed, probe position = .error problem := by
  fun_induction run probe low high with
  | case1 low high inside middle other stopped =>
      cases ended
      exact ⟨middle, List.mem_singleton_self middle, stopped⟩
  | case2 => cases ended
  | case3 low high inside middle before further ih =>
      obtain ⟨position, probed, failed⟩ := ih ended
      exact ⟨position, List.mem_cons_of_mem middle probed, failed⟩
  | case4 low high inside middle behind further ih =>
      obtain ⟨position, probed, failed⟩ := ih ended
      exact ⟨position, List.mem_cons_of_mem middle probed, failed⟩
  | case5 => cases ended

theorem exists_result
    (answers : ∀ position, low ≤ position → position < high → ∃ turn, probe position = .ok turn) :
    ∃ landing, (run probe low high).result = .ok landing := by
  cases ended : (run probe low high).result with
  | error problem =>
      obtain ⟨position, probed, failed⟩ := exists_failed ended
      obtain ⟨least, most⟩ := mem_probed probed
      obtain ⟨turn, answered⟩ := answers position least most
      cases answered.symm.trans failed
  | ok landing => exact ⟨landing, rfl⟩

end Bisection

namespace Entry

/-- The bytes of some entries, one after the other. -/
def listToBytes (entries : List Entry) : Bytes :=
  entries.flatMap toBytes

/-- The keys rise from entry to entry. -/
def Rising (entries : List Entry) : Prop :=
  entries.Pairwise fun entry next => entry.key < next.key

instance (entries : List Entry) : Decidable (Rising entries) := by
  unfold Rising; infer_instance

variable {entries : List Entry} {entry : Entry} {place : Nat}

@[simp] theorem length_listToBytes (entries : List Entry) :
    (listToBytes entries).length = entries.length * width := by
  induction entries with
  | nil => simp [listToBytes]
  | cons entry rest ih =>
      rw [listToBytes, List.flatMap_cons, List.length_append, length_toBytes, List.length_cons,
        Nat.succ_mul, Nat.add_comm]
      exact congrArg (· + width) ih

theorem listToBytes_append (front back : List Entry) :
    listToBytes (front ++ back) = listToBytes front ++ listToBytes back :=
  List.flatMap_append

theorem listToBytes_cons (entry : Entry) (rest : List Entry) :
    listToBytes (entry :: rest) = entry.toBytes ++ listToBytes rest :=
  List.flatMap_cons

theorem exists_split (found : entries[place]? = some entry) :
    ∃ front back, entries = front ++ entry :: back ∧ front.length = place := by
  obtain ⟨inside, rfl⟩ := List.getElem?_eq_some_iff.mp found
  refine ⟨entries.take place, entries.drop (place + 1), ?_, List.length_take_of_le (Nat.le_of_lt inside)⟩
  rw [← List.drop_eq_getElem_cons inside, List.take_append_drop]

theorem slice_listToBytes (found : entries[place]? = some entry) (tail : Bytes) :
    (listToBytes entries ++ tail).slice (place * width) width = entry.toBytes := by
  obtain ⟨front, back, rfl, rfl⟩ := exists_split found
  rw [listToBytes_append, listToBytes_cons, List.append_assoc, List.append_assoc,
    ← length_listToBytes front, ← Nat.add_zero (listToBytes front).length,
    Bytes.slice_append_add, ← length_toBytes entry, Bytes.slice_append]

/-- The entry with the tombstone for its size. -/
def buried (entry : Entry) : Entry :=
  { entry with size := .tombstone }

theorem splice_listToBytes (found : entries[place]? = some entry) (tail : Bytes) :
    (listToBytes entries ++ tail).splice (place * width + 12) Size.tombstone.toBytes =
      listToBytes (entries.set place entry.buried) ++ tail := by
  obtain ⟨front, back, rfl, rfl⟩ := exists_split found
  have start : front.length * width + 12 = (listToBytes front ++
      (Bytes.ofNat 8 entry.key.toNat ++ entry.offset.toBytes)).length := by
    simp [width]
  rw [List.set_append_right _ _ (Nat.le_refl _), Nat.sub_self, List.set_cons_zero,
    listToBytes_append, listToBytes_append, listToBytes_cons, listToBytes_cons, toBytes, toBytes,
    start]
  simp only [List.append_assoc, buried]
  simp only [← List.append_assoc (listToBytes front), ← List.append_assoc (Bytes.ofNat 8 _)]
  exact Bytes.splice_middle (by simp)

theorem Rising.lt (rising : Rising entries) {later : Nat} {next : Entry}
    (found : entries[place]? = some entry) (other : entries[later]? = some next)
    (before : place < later) : entry.key < next.key := by
  obtain ⟨_, rfl⟩ := List.getElem?_eq_some_iff.mp found
  obtain ⟨_, rfl⟩ := List.getElem?_eq_some_iff.mp other
  exact List.pairwise_iff_getElem.mp rising _ _ _ _ before

theorem Rising.le (rising : Rising entries) {later : Nat} {next : Entry}
    (found : entries[place]? = some entry) (other : entries[later]? = some next)
    (before : place ≤ later) : entry.key ≤ next.key := by
  obtain rfl | before := Nat.eq_or_lt_of_le before
  · obtain rfl := Option.some.inj (found.symm.trans other)
    exact UInt64.le_refl _
  · exact UInt64.le_of_lt (rising.lt found other before)

theorem Rising.place_eq (rising : Rising entries) {other : Nat} {next : Entry}
    (found : entries[place]? = some entry) (again : entries[other]? = some next)
    (same : entry.key = next.key) : place = other := by
  obtain before | rfl | behind := Nat.lt_trichotomy place other
  · exact absurd same (UInt64.ne_of_lt (rising.lt found again before))
  · rfl
  · exact absurd same.symm (UInt64.ne_of_lt (rising.lt again found behind))

end Entry

namespace File

variable {file : File} {entries : List Entry} {tail : Bytes} {entry : Entry} {place length : Nat}

/-- The first `length` bytes of the file are some entries, and perhaps a piece of one more. -/
structure Lists (file : File) (entries : List Entry) (length : Nat) : Prop where
  contents : ∃ tail, file.contents = Entry.listToBytes entries ++ tail
  count : length / Entry.width = entries.length

theorem Lists.probeEntry (lists : file.Lists entries length) (found : entries[place]? = some entry)
    (key : NeedleId) : file.probeEntry key place =
      .ok (if entry.key = key then .found { offset := place * Entry.width, entry }
        else if entry.key < key then .behind else .before) := by
  obtain ⟨tail, holds⟩ := lists.contents
  have bytes : file.readExact Entry.width (place * Entry.width) = .ok entry.toBytes := by
    unfold readExact read
    rw [holds, Entry.slice_listToBytes found tail]
    dsimp only
    rw [Entry.length_toBytes]
    exact if_neg (Nat.lt_irrefl _)
  unfold File.probeEntry
  rw [bytes]
  change (if (Entry.ofBytes entry.toBytes).key = key then _ else if _ then _ else _) = _
  rw [Entry.ofBytes_toBytes]
  split
  · rfl
  · split <;> rfl

theorem Lists.exists_landing (lists : file.Lists entries length) (key : NeedleId) :
    ∃ landing, (file.searchEntry length key).result = .ok landing ∧
      Bisection.Lands (file.probeEntry key) 0 entries.length landing := by
  unfold searchEntry
  rw [lists.count]
  obtain ⟨landing, ended⟩ : ∃ landing,
      (Bisection.run (file.probeEntry key) 0 entries.length).result = .ok landing := by
    apply Bisection.exists_result
    intro position _ inside
    exact ⟨_, lists.probeEntry (List.getElem?_eq_getElem inside) key⟩
  exact ⟨landing, ended, Bisection.lands_of_result (Nat.zero_le _) ended⟩

theorem Lists.lt_of_before (lists : file.Lists entries length) {key : NeedleId}
    (found : entries[place]? = some entry) (before : file.probeEntry key place = .ok .before) :
    key < entry.key := by
  rw [lists.probeEntry found] at before
  split at before
  · cases before
  · rename_i other
    split at before
    · cases before
    · rename_i least
      exact UInt64.lt_of_le_of_ne (UInt64.not_lt.mp least) fun same => other same.symm

theorem Lists.lt_of_behind (lists : file.Lists entries length) {key : NeedleId}
    (found : entries[place]? = some entry) (behind : file.probeEntry key place = .ok .behind) :
    entry.key < key := by
  rw [lists.probeEntry found] at behind
  split at behind
  · cases behind
  · split at behind
    · assumption
    · cases behind

/-- A key is found where it stands. -/
theorem Lists.findEntry (lists : file.Lists entries length) (rising : Entry.Rising entries)
    (found : entries[place]? = some entry) :
    file.findEntry length entry.key = .ok { offset := place * Entry.width, entry } := by
  obtain ⟨landing, ended, lands⟩ := lists.exists_landing entry.key
  obtain ⟨inside, _⟩ := List.getElem?_eq_some_iff.mp found
  unfold File.findEntry
  rw [ended]
  cases lands with
  | @found position answer _ within answered =>
      have here := List.getElem?_eq_getElem within
      rw [lists.probeEntry here] at answered
      split at answered
      · rename_i same
        cases answered
        obtain rfl := rising.place_eq here found same
        obtain rfl := Option.some.inj (here.symm.trans found)
        rfl
      · split at answered <;> cases answered
  | @gap position _ most left right =>
      obtain before | behind := Nat.lt_or_ge place position
      · have near := List.getElem?_eq_getElem (show position - 1 < entries.length by omega)
        have low := lists.lt_of_behind near (left (by omega))
        exact absurd (rising.le found near (by omega)) (UInt64.not_le.mpr low)
      · have near := List.getElem?_eq_getElem (show position < entries.length by omega)
        have high := lists.lt_of_before near (right (by omega))
        exact absurd (rising.le near found behind) (UInt64.not_le.mpr high)

theorem Lists.findEntry_of_absent (lists : file.Lists entries length) {key : NeedleId}
    (absent : ∀ entry ∈ entries, entry.key ≠ key) :
    file.findEntry length key = .error (.notFound (.inSortedIndex key)) := by
  obtain ⟨landing, ended, lands⟩ := lists.exists_landing key
  unfold File.findEntry
  rw [ended]
  cases lands with
  | @found position answer _ within answered =>
      have here := List.getElem?_eq_getElem within
      rw [lists.probeEntry here, if_neg (absent _ (List.getElem_mem within))] at answered
      split at answered <;> cases answered
  | gap => rfl

/-- In a file that does nothing wrong the tombstone is written over the size of an entry. -/
theorem markDeleted_eq (reliable : file.faults.write = none)
    (holds : file.contents = Entry.listToBytes entries ++ tail)
    (found : entries[place]? = some entry) :
    file.markDeleted (place * Entry.width) = (.ok (), { file with
      contents := Entry.listToBytes (entries.set place entry.buried) ++ tail }) := by
  obtain ⟨inside, _⟩ := List.getElem?_eq_some_iff.mp found
  have enough : place * Entry.width + 12 - file.contents.length = 0 := by
    have := Nat.mul_le_mul_right Entry.width (Nat.succ_le_of_lt inside)
    rw [holds, List.length_append, Entry.length_listToBytes]
    rw [Nat.succ_mul] at this
    simp only [Entry.width] at this ⊢
    omega
  have marked : file.overwritten Size.tombstone.toBytes (place * Entry.width + 12) =
      Entry.listToBytes (entries.set place entry.buried) ++ tail := by
    unfold overwritten
    rw [if_neg (by simp [Size.tombstone, Size.toBytes, Bytes.ofNat]), enough, Bytes.zeros,
      List.replicate_zero, List.append_nil, holds, Entry.splice_listToBytes found]
  unfold markDeleted write store
  dsimp only
  rw [reliable]
  dsimp only
  rw [marked, if_pos rfl]

end File

end Haystack
