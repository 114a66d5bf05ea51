import Haystack.File.Calls

/-!
# Files on disk

The system moves the bytes of a file by calls that may be interrupted or move only some of the bytes
asked for, though at least one if there is any. So a file on disk is read in a loop, until the
buffer is full or nothing more comes, and written in a loop until nothing is left. A system call
that writes nothing changes nothing, and any other fills the gap before what it writes with zeros.
-/

namespace Haystack

/-- How a system call that moves bytes turns out. -/
inductive Transfer where
  | interrupted
  /-- It moves at most so many bytes, or one if that is none. -/
  | upTo (limit : Nat)

/-- How many of the bytes wanted the next system call may move, unless it is interrupted. When no
more is said it may move all. -/
def Transfer.grant (wanted : Nat) : List Transfer → Option Nat
  | [] => some wanted
  | .interrupted :: _ => none
  | .upTo limit :: _ => some (min wanted (max limit 1))

theorem Transfer.ne_nil_of_grant {wanted : Nat} {transfers : List Transfer}
    (stopped : grant wanted transfers = none) : transfers ≠ [] := by
  rintro rfl
  contradiction

theorem Transfer.grant_pos {wanted count : Nat} {transfers : List Transfer} (pos : 0 < wanted)
    (granted : grant wanted transfers = some count) : 0 < count := by
  cases transfers with
  | nil => exact Option.some.inj granted ▸ pos
  | cons first rest =>
      cases first with
      | interrupted => contradiction
      | upTo limit =>
          have least := Option.some.inj granted
          omega

theorem Transfer.grant_le {wanted count : Nat} {transfers : List Transfer}
    (granted : grant wanted transfers = some count) : count ≤ wanted := by
  cases transfers with
  | nil => exact Nat.le_of_eq (Option.some.inj granted).symm
  | cons first rest =>
      cases first with
      | interrupted => contradiction
      | upTo limit =>
          have least := Option.some.inj granted
          omega

/-- A file on disk, as the system keeps it. -/
structure DiskFile where
  name : String := ""
  contents : Bytes := []

namespace DiskFile

/-- One system call that writes. -/
def stored (contents data : Bytes) (offset : Nat) : Bytes :=
  if data.isEmpty then contents
  else (contents ++ Bytes.zeros (offset - contents.length)).splice offset data

/-- Writes all of the data. -/
def writeAll (contents data : Bytes) (offset : Nat) (transfers : List Transfer) : Bytes :=
  if _left : 0 < data.length then
    match _granted : Transfer.grant data.length transfers with
    | none => writeAll contents data offset transfers.tail
    | some count =>
      writeAll (stored contents (data.take count) offset) (data.drop count) (offset + count)
        transfers.tail
  else contents
  termination_by transfers.length + data.length
  decreasing_by
    · have some := List.length_pos_iff.mpr (Transfer.ne_nil_of_grant _granted)
      rw [List.length_tail]
      omega
    · have pos := Transfer.grant_pos _left _granted
      rw [List.length_tail, List.length_drop]
      omega

/-- Reads behind what was read already until there are `length` bytes or no more come. -/
def readOnto (contents : Bytes) (length offset : Nat) (transfers : List Transfer)
    (read : Bytes) : Bytes :=
  if _short : read.length < length then
    match _granted : Transfer.grant (length - read.length) transfers with
    | none => readOnto contents length offset transfers.tail read
    | some count =>
      let bytes := contents.slice (offset + read.length) count
      if bytes.isEmpty then read
      else readOnto contents length offset transfers.tail (read ++ bytes)
  else read
  termination_by transfers.length + (length - read.length)
  decreasing_by
    · have some := List.length_pos_iff.mpr (Transfer.ne_nil_of_grant _granted)
      rw [List.length_tail]
      omega
    · rename_i more
      have pos : 0 < (contents.slice (offset + read.length) count).length := by
        rw [List.length_pos_iff]
        rintro none
        exact more (List.isEmpty_iff.mpr none)
      rw [List.length_tail, List.length_append]
      omega

/-- A call, for which the system calls turn out in a certain way. -/
def call (file : DiskFile) (transfers : List Transfer) : File.Call → File.Reply × DiskFile
  | .write data offset =>
    (.wrote (.ok data.length),
      { file with contents := writeAll file.contents data offset transfers })
  | .read buffer offset =>
    let bytes := readOnto file.contents buffer.length offset transfers []
    (.read bytes.length (File.filled buffer bytes), file)
  | .readExact buffer offset =>
    let bytes := readOnto file.contents buffer.length offset transfers []
    let result : Except Error Unit :=
      if bytes.length < buffer.length then
        .error (.file (.shortRead file.name bytes.length offset buffer.length))
      else .ok ()
    (.filled result (File.filled buffer bytes), file)
  | .truncate length => (.truncated (.ok ()), { file with contents := file.contents.resize length })
  | .stat => (.length (.ok file.contents.length), file)

/-- Makes calls one after the other. -/
def run (file : DiskFile) : List (File.Call × List Transfer) → List File.Reply × DiskFile
  | [] => ([], file)
  | (call, transfers) :: rest =>
    let (reply, file) := file.call transfers call
    let (replies, file) := file.run rest
    (reply :: replies, file)

end DiskFile

end Haystack
