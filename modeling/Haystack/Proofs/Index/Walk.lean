import Haystack.Index.Log
import Haystack.Proofs.Position
import Haystack.Volume.LiveMap

/-!
# Walks and replays

That a walk reads an index in batches does not show: it passes on the entries of all that follows
its start. An entry that is appended to whole entries is one more of them, and replaying it changes
the map of live needles as the entry says. If a piece of an entry stood at the end, the bytes that
come behind it would be cut into other entries than those that were written.
-/

namespace Haystack

namespace Entry

theorem takeEntries_append {count : Nat} {front : Bytes} (enough : count * width ≤ front.length)
    (back : Bytes) : takeEntries count (front ++ back) = takeEntries count front := by
  induction count generalizing front with
  | zero => rfl
  | succ count ih =>
      have here : width ≤ front.length := by
        rw [Nat.succ_mul] at enough
        omega
      have behind : count * width ≤ (front.drop width).length := by
        rw [Nat.succ_mul] at enough
        rw [List.length_drop]
        omega
      rw [takeEntries, takeEntries, List.take_append_of_le_length here,
        List.drop_append_of_le_length here, ih behind]

theorem takeEntries_add (count further : Nat) (bytes : Bytes) :
    takeEntries (count + further) bytes =
      takeEntries count bytes ++ takeEntries further (bytes.drop (count * width)) := by
  induction count generalizing bytes with
  | zero => simp [takeEntries]
  | succ count ih =>
      rw [Nat.succ_add, takeEntries, takeEntries, ih, List.drop_drop, List.cons_append,
        Nat.succ_mul, Nat.add_comm width]

theorem listOfBytes_append {front : Bytes} (whole : front.length % width = 0) (back : Bytes) :
    listOfBytes (front ++ back) = listOfBytes front ++ listOfBytes back := by
  have full : front.length / width * width = front.length :=
    Nat.div_mul_cancel (Nat.dvd_of_mod_eq_zero whole)
  have count : (front ++ back).length / width = front.length / width + back.length / width := by
    rw [List.length_append]
    simp only [width] at whole ⊢
    omega
  rw [listOfBytes, count, takeEntries_add, takeEntries_append (Nat.le_of_eq full), full,
    List.drop_left]
  rfl

theorem inPlace_drop (bytes : Bytes) (start place : Nat) :
    inPlace (bytes.drop (start * width)) place = inPlace bytes (start + place) := by
  rw [inPlace, inPlace, Bytes.slice, Bytes.slice, List.drop_drop, Nat.add_mul]

/-- Each entry is found in its place, and nothing behind the last whole one. -/
theorem getElem?_takeEntries (count : Nat) (bytes : Bytes) (place : Nat) :
    (takeEntries count bytes)[place]? =
      if place < count then some (inPlace bytes place) else none := by
  induction count generalizing bytes place with
  | zero => rfl
  | succ count ih =>
      cases place with
      | zero =>
          rw [takeEntries, List.getElem?_cons_zero, if_pos (Nat.zero_lt_succ count), inPlace,
            Nat.zero_mul]
          rfl
      | succ place =>
          have shifted := inPlace_drop bytes 1 place
          rw [Nat.one_mul, Nat.add_comm] at shifted
          rw [takeEntries, List.getElem?_cons_succ, ih, shifted]
          simp only [Nat.add_lt_add_iff_right]

theorem getElem?_listOfBytes (bytes : Bytes) (place : Nat) :
    (listOfBytes bytes)[place]? =
      if place < bytes.length / width then some (inPlace bytes place) else none :=
  getElem?_takeEntries _ _ _

@[simp] theorem length_takeEntries (count : Nat) (bytes : Bytes) :
    (takeEntries count bytes).length = count := by
  induction count generalizing bytes with
  | zero => rfl
  | succ count ih => rw [takeEntries, List.length_cons, ih]

theorem length_listOfBytes (bytes : Bytes) : (listOfBytes bytes).length = bytes.length / width :=
  length_takeEntries _ _

theorem listOfBytes_drop (bytes : Bytes) (start : Nat) :
    listOfBytes (bytes.drop (start * width)) = (listOfBytes bytes).drop start := by
  apply List.ext_getElem?
  intro place
  have inside : place < (bytes.length - start * width) / width ↔
      start + place < bytes.length / width := by
    simp only [width]
    omega
  rw [List.getElem?_drop, getElem?_listOfBytes, getElem?_listOfBytes, List.length_drop,
    inPlace_drop]
  simp only [inside]

theorem listOfBytes_toBytes (entry : Entry) : listOfBytes entry.toBytes = [entry] := by
  have one : entry.toBytes.length / width = 1 := by
    rw [length_toBytes]
    rfl
  have all : entry.toBytes.take width = entry.toBytes := by
    rw [← length_toBytes entry, List.take_length]
  rw [listOfBytes, one, takeEntries, all, ofBytes_toBytes, takeEntries]

theorem listOfBytes_concat {front : Bytes} (whole : front.length % width = 0) (entry : Entry) :
    listOfBytes (front ++ entry.toBytes) = listOfBytes front ++ [entry] := by
  rw [listOfBytes_append whole, listOfBytes_toBytes]

end Entry

namespace Walk

theorem visit_append (check : Entry → Except Error Unit) (entries further : List Entry) :
    visit check (entries ++ further) = (visit check entries).followedBy (visit check further) := by
  induction entries with
  | nil => rfl
  | cons entry rest ih =>
      rw [List.cons_append, visit, visit]
      cases check entry with
      | error problem => rfl
      | ok =>
          simp only [ih, followedBy]
          cases ended : (visit check rest).result with
          | error problem => simp only [ended]
          | ok => rfl

theorem visited_of_unchecked (entries : List Entry) :
    (visit (fun _ => .ok ()) entries).visited = entries := by
  induction entries with
  | nil => rfl
  | cons entry rest ih =>
      change entry :: (visit (fun _ => .ok ()) rest).visited = _
      rw [ih]

theorem drop_eq_read {file : File} {offset : Nat}
    (short : (file.read (batch * Entry.width) offset).length < batch * Entry.width) :
    file.contents.drop offset = file.read (batch * Entry.width) offset := by
  have length := Bytes.length_slice file.contents offset (batch * Entry.width)
  have inside : (file.contents.drop offset).length ≤ batch * Entry.width := by
    rw [List.length_drop]
    change (file.read _ _).length = _ at length
    omega
  exact (List.take_of_length_le inside).symm

theorem length_read_of_full {file : File} {offset : Nat}
    (full : ¬ (file.read (batch * Entry.width) offset).length < batch * Entry.width) :
    (file.read (batch * Entry.width) offset).length = batch * Entry.width := by
  have length := Bytes.length_slice file.contents offset (batch * Entry.width)
  change (file.read _ _).length = _ at length
  omega

theorem listOfBytes_drop_of_full {file : File} {offset : Nat}
    (full : ¬ (file.read (batch * Entry.width) offset).length < batch * Entry.width) :
    Entry.listOfBytes (file.contents.drop offset) =
      Entry.listOfBytes (file.read (batch * Entry.width) offset) ++ Entry.listOfBytes
        (file.contents.drop (offset + (file.read (batch * Entry.width) offset).length)) := by
  have length := length_read_of_full full
  have whole : (file.read (batch * Entry.width) offset).length % Entry.width = 0 := by
    rw [length, Nat.mul_mod_left]
  rw [← Entry.listOfBytes_append whole, length, ← List.drop_drop]
  exact congrArg Entry.listOfBytes (List.take_append_drop _ _).symm

/-- A walk visits the entries of all that follows its start, in however many batches. -/
theorem onward_eq_visit (check : Entry → Except Error Unit) (file : File) (offset : Nat) :
    onward check file offset = visit check (Entry.listOfBytes (file.contents.drop offset)) := by
  fun_induction onward check file offset with
  | case1 offset bytes here short => rw [drop_eq_read short]
  | case2 offset bytes here full ih => rw [ih, listOfBytes_drop_of_full full, visit_append]

theorem origin_of_fits {start : Nat} (fits : start * Entry.width < 2 ^ (64 : Nat)) :
    origin start = start * Entry.width := by
  rw [origin, ← Int.natCast_mul, unsigned64_of_fits (Int.natCast_nonneg _) (by exact_mod_cast fits),
    Int.toNat_natCast]

theorem not_refuses_start (file : File) :
    file.refuses (batch * Entry.width) (origin 0) = false := by
  rw [File.refuses, Bool.and_eq_false_imp]
  intro _
  decide

theorem run_zero (check : Entry → Except Error Unit) (file : File) :
    run check file 0 = visit check (Entry.listOfBytes file.contents) := by
  rw [run, not_refuses_start, if_neg Bool.false_ne_true, onward_eq_visit,
    origin_of_fits (by decide), Nat.zero_mul, List.drop_zero]

end Walk

namespace LiveMap

theorem ofEntries_concat (entries : List Entry) (entry : Entry) :
    ofEntries (entries ++ [entry]) = replay (ofEntries entries) entry := by
  rw [ofEntries, List.foldl_append]
  rfl

theorem find?_replay_live (map : LiveMap) {entry : Entry} (placed : entry.offset.isZero = false)
    (live : entry.size.isLive = true) :
    (replay map entry).find? entry.key = some { offset := entry.offset, size := entry.size } := by
  unfold replay
  rw [placed, live]
  exact Table.find?_insert_self _ _ _

theorem find?_replay_dead (map : LiveMap) {entry : Entry} (dead : entry.size.isLive = false) :
    (replay map entry).find? entry.key = none := by
  unfold replay
  rw [dead, Bool.and_false]
  exact Table.find?_erase_self _ _

end LiveMap

end Haystack
