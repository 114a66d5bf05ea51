import Mathlib.Data.List.Induction
import Haystack.File.Transfers

/-!
# Files in memory and on disk

The loops that read and write a file on disk do what one system call for everything would do,
however the system calls turn out. So a file on disk answers as one in memory and has the same
contents, but for one thing: writing no bytes behind the end lengthens a file in memory. The two
stay the same in contents if and only if this never happens, and until then they answer alike.
-/

namespace Haystack

namespace Bytes

theorem slice_eq_nil_iff {bytes : Bytes} {start length : Nat} (pos : 0 < length) :
    bytes.slice start length = [] ↔ bytes.length ≤ start := by
  rw [← List.length_eq_zero_iff, length_slice]
  omega

theorem slice_append_slice (bytes : Bytes) (start : Nat) {part length : Nat}
    (short : part ≤ length) :
    bytes.slice start part ++ bytes.slice (start + (bytes.slice start part).length)
      (length - (bytes.slice start part).length) = bytes.slice start length := by
  have least := length_slice bytes start part
  generalize (bytes.slice start part).length = count at least
  have front : bytes.slice start part = (bytes.slice start length).take count := by
    rw [slice, slice, List.take_take, List.take_eq_take_iff, List.length_drop]
    omega
  have back : bytes.slice (start + count) (length - count) =
      (bytes.slice start length).drop count := by
    rw [slice, slice, List.drop_take, List.drop_drop]
  rw [front, back, List.take_append_drop]

theorem splice_splice {bytes : Bytes} {start : Nat} (reach : start ≤ bytes.length)
    (front back : Bytes) :
    (bytes.splice start front).splice (start + front.length) back =
      bytes.splice start (front ++ back) := by
  have laid : (bytes.take start ++ front).length = start + front.length := by
    rw [List.length_append, List.length_take, Nat.min_eq_left reach]
  have behind : (bytes.take start ++ front ++ bytes.drop (start + front.length)).drop
      (start + front.length + back.length) = bytes.drop (start + (front ++ back).length) := by
    rw [← List.drop_drop, List.drop_left' laid, List.drop_drop, List.length_append, Nat.add_assoc]
  unfold splice
  rw [behind, List.take_left' laid]
  simp only [List.append_assoc]

end Bytes

namespace DiskFile

variable {contents : Bytes} {length offset : Nat}

theorem stored_append (contents : Bytes) {front : Bytes} (some : 0 < front.length) (back : Bytes)
    (offset : Nat) :
    stored (stored contents front offset) back (offset + front.length) =
      stored contents (front ++ back) offset := by
  have whole (data : Bytes) (some : 0 < data.length) : stored contents data offset =
      (contents ++ Bytes.zeros (offset - contents.length)).splice offset data := by
    rw [stored, if_neg (by simpa [List.isEmpty_iff, List.length_pos_iff] using some)]
  have reach : offset ≤ (contents ++ Bytes.zeros (offset - contents.length)).length := by
    rw [List.length_append, Bytes.length_zeros]
    omega
  cases back with
  | nil =>
      rw [List.append_nil]
      rfl
  | cons byte rest =>
      have length : offset + front.length ≤ (stored contents front offset).length := by
        rw [whole front some, Bytes.splice, List.length_append, List.length_append,
          List.length_take, Nat.min_eq_left reach]
        omega
      have longer : 0 < (front ++ byte :: rest).length := by
        rw [List.length_append]
        omega
      rw [whole (front ++ byte :: rest) longer, ← Bytes.splice_splice reach,
        ← whole front some, stored, if_neg (by simp), Nat.sub_eq_zero_of_le length]
      simp [Bytes.zeros]

/-- However many system calls it takes, all of the data is written as by one. -/
theorem writeAll_eq_stored (contents data : Bytes) (offset : Nat) (transfers : List Transfer) :
    writeAll contents data offset transfers = stored contents data offset := by
  fun_induction writeAll contents data offset transfers with
  | case1 contents data offset transfers left stopped ih => exact ih
  | case2 contents data offset transfers left count granted ih =>
      have some : 0 < (data.take count).length := by
        have pos := Transfer.grant_pos left granted
        rw [List.length_take]
        omega
      have length : (data.take count).length = count := by
        have most := Transfer.grant_le granted
        rw [List.length_take]
        omega
      have whole := stored_append contents some (data.drop count) offset
      rw [length, List.take_append_drop] at whole
      rw [ih, whole]
  | case3 contents data offset transfers done =>
      have none : data = [] := by simpa using done
      rw [none]
      rfl

theorem readOnto_eq (transfers : List Transfer) {read : Bytes} (most : read.length ≤ length) :
    readOnto contents length offset transfers read =
      read ++ contents.slice (offset + read.length) (length - read.length) := by
  fun_induction readOnto contents length offset transfers read with
  | case1 transfers read short stopped ih => exact ih most
  | case2 transfers read short count granted bytes none =>
      have ended : contents.length ≤ offset + read.length :=
        (Bytes.slice_eq_nil_iff (Transfer.grant_pos (by omega) granted)).mp
          (List.isEmpty_iff.mp none)
      rw [(Bytes.slice_eq_nil_iff (by omega)).mpr ended, List.append_nil]
  | case3 transfers read short count granted bytes more ih =>
      have part := Transfer.grant_le granted
      have fits : (read ++ bytes).length ≤ length := by
        have least : bytes.length ≤ count := by
          rw [Bytes.length_slice]
          exact Nat.min_le_left _ _
        rw [List.length_append]
        omega
      rw [ih fits, List.append_assoc, List.length_append, ← Nat.add_assoc, ← Nat.sub_sub,
        Bytes.slice_append_slice contents _ part]
  | case4 transfers read full =>
      have done : length - read.length = 0 := by omega
      rw [done, Bytes.slice, List.take_zero, List.append_nil]

/-- The same file, as far as the system calls do not matter. -/
def toFile (file : DiskFile) : File :=
  { name := file.name, medium := .disk, contents := file.contents }

/-- A file on disk does what a system that moves everything at once would do. -/
theorem call_toFile (file : DiskFile) (transfers : List Transfer) (call : File.Call) :
    file.toFile.call call =
      ((file.call transfers call).1, (file.call transfers call).2.toFile) := by
  have moved (buffer : Bytes) (offset : Nat) :
      readOnto file.contents buffer.length offset transfers [] =
        file.toFile.read buffer.length offset := by
    rw [readOnto_eq transfers (Nat.zero_le _)]
    rfl
  cases call with
  | write data offset =>
      have whole : file.toFile.overwritten data offset =
          writeAll file.contents data offset transfers := by
        rw [writeAll_eq_stored, File.overwritten, stored]
        simp [toFile]
      simp only [File.call, File.write, File.store, whole, DiskFile.call]
      rfl
  | read buffer offset =>
      simp only [File.call, DiskFile.call, moved]
  | readExact buffer offset =>
      simp only [File.call, DiskFile.call, moved, File.readExact]
      split <;> rfl
  | truncate length => rfl
  | stat => rfl

end DiskFile

namespace File

/-- The call writes no bytes behind the end of a file. -/
def Call.WritesNothingBehind (length : Nat) : Call → Prop
  | .write data offset => data = [] ∧ length < offset
  | _ => False

/-- The reply of a file of another name. -/
def Reply.renamed (name : String) : Reply → Reply
  | .filled (.error (.file (.shortRead _ got offset wanted))) buffer =>
    .filled (.error (.file (.shortRead name got offset wanted))) buffer
  | reply => reply

/-- A file in memory that does nothing wrong and a file on disk have the same contents. -/
structure Alike (memory : File) (disk : DiskFile) : Prop where
  medium : memory.medium = .memory
  reliable : memory.faults = {}
  contents : memory.contents = disk.contents

variable {memory : File} {disk : DiskFile}

/-- The contents part only if no bytes are written behind the end. -/
theorem Alike.overwritten_iff (alike : memory.Alike disk) (data : Bytes) (offset : Nat) :
    memory.overwritten data offset = disk.toFile.overwritten data offset ↔
      ¬ (data = [] ∧ disk.contents.length < offset) := by
  have whole : memory.overwritten data offset =
      (disk.contents ++ Bytes.zeros (offset - disk.contents.length)).splice offset data := by
    rw [overwritten, alike.medium, alike.contents, if_neg (by simp)]
  rw [whole]
  cases data with
  | nil =>
      have kept : disk.toFile.overwritten [] offset = disk.contents := rfl
      rw [kept]
      constructor
      · rintro same ⟨-, behind⟩
        have longer := congrArg List.length same
        simp only [Bytes.splice, List.length_append, List.length_take, List.length_drop,
          Bytes.length_zeros, List.length_nil] at longer
        omega
      · intro within
        have inside : offset ≤ disk.contents.length := by
          simpa using within
        simp [Bytes.zeros, Bytes.splice, Nat.sub_eq_zero_of_le inside]
  | cons byte rest =>
      have same : disk.toFile.overwritten (byte :: rest) offset =
          (disk.contents ++ Bytes.zeros (offset - disk.contents.length)).splice offset
            (byte :: rest) := rfl
      simp [same]

/-- A call gives the same on both, and leaves them the same unless it writes no bytes behind the
end. -/
theorem Alike.call (alike : memory.Alike disk) (call : Call) (transfers : List Transfer) :
    (memory.call call).1.renamed disk.name = (disk.call transfers call).1 ∧
      ((memory.call call).2.contents = (disk.call transfers call).2.contents ↔
        ¬ call.WritesNothingBehind disk.contents.length) := by
  have together := disk.call_toFile transfers call
  have replied := congrArg Prod.fst together
  have left := congrArg (fun result => result.2.contents) together
  dsimp only at replied left
  rw [← replied, ← show _ = (disk.call transfers call).2.contents from left]
  have same := alike.contents
  have moved (length offset : Nat) :
      memory.read length offset = disk.toFile.read length offset := by
    rw [File.read, same]
    rfl
  cases call with
  | write data offset =>
      have written : memory.write data offset =
          (.ok data.length, memory.store data offset) := by
        rw [File.write, alike.reliable]
      simp only [File.call, written]
      exact ⟨rfl, alike.overwritten_iff data offset⟩
  | read buffer offset =>
      simp only [File.call, moved]
      exact ⟨rfl, iff_of_true same id⟩
  | readExact buffer offset =>
      simp only [File.call, File.readExact, moved]
      refine ⟨?_, iff_of_true same id⟩
      split <;> rfl
  | truncate length =>
      have cut : memory.truncate length =
          (.ok (), { memory with contents := disk.contents.resize length }) := by
        rw [File.truncate, alike.reliable, if_neg (by simp), same]
      simp only [File.call, cut]
      exact ⟨rfl, iff_of_true rfl id⟩
  | stat =>
      have told : memory.stat = .ok disk.contents.length := by
        rw [File.stat, alike.reliable, if_neg (by simp), same]
        rfl
      simp only [File.call, told]
      exact ⟨rfl, iff_of_true same id⟩

theorem run_concat (file : File) (calls : List Call) (call : Call) :
    file.run (calls ++ [call]) =
      ((file.run calls).1 ++ [((file.run calls).2.call call).1],
        ((file.run calls).2.call call).2) := by
  induction calls generalizing file with
  | nil => rfl
  | cons first rest ih => simp only [List.cons_append, run, ih]

theorem kept_call (file : File) (call : Call) :
    (file.call call).2.medium = file.medium ∧ (file.call call).2.faults = file.faults := by
  cases call with
  | write data offset =>
      simp only [File.call, write]
      split <;> exact ⟨rfl, rfl⟩
  | truncate length =>
      simp only [File.call, truncate]
      split <;> exact ⟨rfl, rfl⟩
  | read buffer offset => exact ⟨rfl, rfl⟩
  | readExact buffer offset => exact ⟨rfl, rfl⟩
  | stat => exact ⟨rfl, rfl⟩

theorem kept_run (file : File) (calls : List Call) :
    (file.run calls).2.medium = file.medium ∧ (file.run calls).2.faults = file.faults := by
  induction calls generalizing file with
  | nil => exact ⟨rfl, rfl⟩
  | cons call rest ih =>
      have kept := kept_call file call
      rw [← kept.1, ← kept.2]
      exact ih _

end File

theorem DiskFile.run_concat (file : DiskFile) (calls : List (File.Call × List Transfer))
    (call : File.Call) (transfers : List Transfer) :
    file.run (calls ++ [(call, transfers)]) =
      ((file.run calls).1 ++ [((file.run calls).2.call transfers call).1],
        ((file.run calls).2.call transfers call).2) := by
  induction calls generalizing file with
  | nil => rfl
  | cons first rest ih => simp only [List.cons_append, run, ih]

theorem DiskFile.name_call (file : DiskFile) (call : File.Call) (transfers : List Transfer) :
    (file.call transfers call).2.name = file.name := by
  cases call <;> rfl

namespace File

/-- No call is one to write no bytes behind the end that the file on disk has by then. -/
def Spared (disk : DiskFile) (calls : List (Call × List Transfer)) : Prop :=
  ∀ front call transfers, front ++ [(call, transfers)] <+: calls →
    ¬ call.WritesNothingBehind (disk.run front).2.contents.length

variable {memory : File} {disk : DiskFile}

theorem Alike.run (alike : memory.Alike disk) {calls : List (Call × List Transfer)}
    (spared : Spared disk calls) :
    (memory.run (calls.map Prod.fst)).2.Alike (disk.run calls).2 ∧
      (disk.run calls).2.name = disk.name ∧
      (memory.run (calls.map Prod.fst)).1.map (Reply.renamed disk.name) = (disk.run calls).1 := by
  induction calls using List.reverseRecOn with
  | nil => exact ⟨alike, rfl, rfl⟩
  | append_singleton front last ih =>
      obtain ⟨call, transfers⟩ := last
      obtain ⟨same, named, replied⟩ := ih fun part call transfers begins =>
        spared part call transfers (begins.trans (List.prefix_append front _))
      obtain ⟨reply, left⟩ := same.call call transfers
      have within := spared front call transfers List.prefix_rfl
      have kept := kept_call (memory.run (front.map Prod.fst)).2 call
      rw [List.map_append, List.map_singleton, run_concat, DiskFile.run_concat]
      refine ⟨⟨?_, ?_, left.mpr within⟩, ?_, ?_⟩
      · rw [kept.1, same.medium]
      · rw [kept.2, same.reliable]
      · rw [DiskFile.name_call, named]
      · rw [List.map_append, replied, List.map_singleton, ← named, reply]

/-- A file in memory and a file on disk start with the same contents. They have the same contents
after each of the calls that are made on both if and only if none of the calls writes no bytes
behind the end, and then all replies are the same, but for the name of the file. This holds for all
ways in which the system calls may turn out. -/
theorem memory_agrees_with_disk_iff (name other : String) (start : Bytes)
    (calls : List (Call × List Transfer)) :
    let memory : File := { name, medium := .memory, contents := start }
    let disk : DiskFile := { name := other, contents := start }
    ((∀ front, front <+: calls →
        (memory.run (front.map Prod.fst)).2.contents = (disk.run front).2.contents) ↔
      Spared disk calls) ∧
      (Spared disk calls →
        (memory.run (calls.map Prod.fst)).1.map (Reply.renamed other) = (disk.run calls).1) := by
  intro memory disk
  have alike : memory.Alike disk := ⟨rfl, rfl, rfl⟩
  refine ⟨⟨?_, ?_⟩, fun spared => (alike.run spared).2.2⟩
  · intro same front call transfers begins
    have kept := kept_run memory (front.map Prod.fst)
    have before : (memory.run (front.map Prod.fst)).2.Alike (disk.run front).2 :=
      ⟨kept.1, kept.2, same front ((List.prefix_append front _).trans begins)⟩
    have after := same _ begins
    rw [List.map_append, List.map_singleton, run_concat, DiskFile.run_concat] at after
    exact (before.call call transfers).2.mp after
  · intro spared front begins
    refine (alike.run ?_).1.contents
    intro part call transfers starts
    exact spared part call transfers (starts.trans begins)

/-- No bytes are written at position five of two empty files. -/
theorem empty_write_lengthens_memory :
    (({ name := "a", medium := .memory } : File).run [.write [] 5, .stat]).1 =
        [.wrote (.ok 0), .length (.ok 5)] ∧
      (({ name := "a" } : DiskFile).run [(.write [] 5, []), (.stat, [])]).1 =
        [.wrote (.ok 0), .length (.ok 0)] := by
  refine ⟨rfl, ?_⟩
  simp [DiskFile.run, DiskFile.call, DiskFile.writeAll]

end File

end Haystack
