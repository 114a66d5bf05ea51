import Haystack.Cache.Directory
import Haystack.Sha256
import Haystack.Text.Utf8

/-!
# Chunks kept on disk

A disk tier is a directory with one file for each chunk, named by the digest of the file id, and
an index of which chunks there are and how long they are. The lengths in the index never add up to
more than the capacity. What the index knows and what the directory holds can differ, since others
may change the directory: a chunk whose file is gone leaves the index when it is looked for.
-/

namespace Haystack

/-- What an index makes of a chunk that is new and does not fit. -/
inductive Admission where
  /-- The chunk is dropped again. -/
  | drop
  /-- The chunk is let in, and of the others at most so many stay, those used last. -/
  | letIn (others : Nat)
  deriving DecidableEq, Repr, Inhabited

/-- Chunks kept in a directory. -/
structure DiskTier where
  directory : Directory
  /-- The lengths of the chunks by file id, those used last in front. -/
  index : Table String Nat := []
  /-- How many bytes the chunks may have together. -/
  capacity : Nat
  /-- The largest chunk to keep. -/
  partLimit : Nat
  /-- What the index is going to make of new chunks that do not fit, one after the other; any
  further ones it drops. It goes by how often chunks are asked for, which is not counted here. -/
  admissions : List Admission := []
  deriving DecidableEq, Repr, Inhabited

namespace DiskTier

def fileName (file : String) : String :=
  (Sha256.digest (Utf8.encode file.toList)).toHex

/-- Opens a tier over a directory. Files that are there cannot be told which chunks they were and
are removed. -/
def openOver (directory : Directory) (capacity : Nat) : DiskTier :=
  { directory := directory.swept, capacity, partLimit := capacity }

/-- The tier with another limit for a single chunk, which never exceeds the capacity. -/
def withPartLimit (tier : DiskTier) (limit : Nat) : DiskTier :=
  { tier with partLimit := min limit tier.capacity }

def onDirectory (tier : DiskTier) (change : Directory → Directory) : DiskTier :=
  { tier with directory := change tier.directory }

/-- Whether there is a chunk of a file id, as far as the index knows. -/
def has (tier : DiskTier) (file : String) : Bool :=
  tier.index.has file

/-- How many bytes the chunks have together, as far as the index knows. -/
def used (tier : DiskTier) : Nat :=
  (tier.index.map (·.2)).sum

/-- The tier without a chunk; nothing happens to files of chunks that the index does not know. -/
def remove (tier : DiskTier) (file : String) : DiskTier :=
  if tier.has file then
    { tier with
      directory := tier.directory.delete (fileName file)
      index := tier.index.erase file }
  else tier

/-- As many chunks from the front of a list as have so many bytes together at most. -/
def fitting : (capacity : Nat) → Table String Nat → Table String Nat
  | _, [] => []
  | capacity, (file, length) :: rest =>
    if length ≤ capacity then (file, length) :: fitting (capacity - length) rest else []

/-- The tier with at most so many of its chunks, and as many as fit, those used last, and without
the files of the others. -/
def shrunk (tier : DiskTier) (count : Nat) : DiskTier :=
  let kept := fitting tier.capacity (tier.index.take count)
  { tier with
    directory := (tier.index.drop kept.length).foldl
      (fun directory chunk => directory.delete (fileName chunk.1)) tier.directory
    index := kept }

/-- The tier after its index has settled whether a new chunk that does not fit is let in. It is in
the index already. -/
def settle (tier : DiskTier) (file : String) (length : Nat) : DiskTier :=
  let settled :=
    match tier.admissions with
    | .letIn others :: _ =>
      if length ≤ tier.capacity then tier.shrunk (others + 1) else tier.remove file
    | _ => tier.remove file
  { settled with admissions := tier.admissions.tail }

/-- The tier after the index has been told the length of a chunk. A tier without any capacity has
no index. A chunk that is known already makes room for itself among the others, if it can; what
becomes of a new one that does not fit is for the index to settle. -/
def enter (tier : DiskTier) (file : String) (length : Nat) : DiskTier :=
  let entered := { tier with index := tier.index.insert file length }
  if tier.capacity = 0 then tier
  else if tier.has file then entered.shrunk entered.index.length
  else if entered.used ≤ tier.capacity then entered
  else entered.settle file length

def store (tier : DiskTier) (file : String) (data : Bytes) : Except Error DiskTier :=
  match tier.directory.write (fileName file) data with
  | .error problem => .error problem
  | .ok directory => .ok ({ tier with directory }.enter file data.length)

/-- The tier after storing a chunk, or as it is if that is not possible. -/
def keep (tier : DiskTier) (file : String) (data : Bytes) : DiskTier :=
  match tier.store file data with
  | .error _ => tier
  | .ok tier => tier

/-- The tier after storing a chunk if it is small enough; if not, the tier as it is. -/
def offer (tier : DiskTier) (file : String) (data : Bytes) : DiskTier :=
  if data.length ≤ tier.partLimit then tier.keep file data else tier

/-- A chunk and the tier after looking for it. The chunk found is the one used last. -/
def load (tier : DiskTier) (file : String) : Option Bytes × DiskTier :=
  match tier.index.find? file with
  | none => (none, tier)
  | some length =>
    match tier.directory.read? (fileName file) with
    | some data => (some data, { tier with index := tier.index.insert file length })
    | none => (none, tier.remove file)

theorem sum_fitting_le (capacity : Nat) (index : Table String Nat) :
    ((fitting capacity index).map (·.2)).sum ≤ capacity := by
  induction index generalizing capacity with
  | nil => simp [fitting]
  | cons chunk rest ih =>
    obtain ⟨file, length⟩ := chunk
    simp only [fitting]
    split
    · have h := ih (capacity - length)
      simp only [List.map_cons, List.sum_cons]
      omega
    · simp

theorem sum_erase_le (index : Table String Nat) (file : String) :
    ((index.erase file).map (·.2)).sum ≤ (index.map (·.2)).sum := by
  induction index with
  | nil => simp [Table.erase]
  | cons chunk rest ih =>
    simp only [Table.erase, List.filter_cons] at ih ⊢
    split
    · simp only [List.map_cons, List.sum_cons]
      omega
    · exact Nat.le_trans ih (by simp)

@[simp] theorem capacity_enter (tier : DiskTier) (file : String) (length : Nat) :
    (tier.enter file length).capacity = tier.capacity := by
  simp only [enter, settle, shrunk, remove]
  repeat' split
  all_goals rfl

theorem used_remove_insert_le (tier : DiskTier) (file : String) (length : Nat) :
    (remove { tier with index := tier.index.insert file length } file).used ≤ tier.used := by
  have known : has { tier with index := tier.index.insert file length } file = true := by
    simp [has, Table.has]
  simp only [remove, known, if_true, used]
  refine Nat.le_trans ?_ (sum_erase_le tier.index file)
  simp [Table.insert, Table.erase]

theorem used_settle_le {tier : DiskTier} {file : String}
    (h : (tier.remove file).used ≤ tier.capacity) (length : Nat) :
    (tier.settle file length).used ≤ tier.capacity := by
  unfold settle
  split
  · split
    · exact sum_fitting_le tier.capacity _
    · exact h
  · exact h

/-- The chunks that a tier knows never have more bytes together than its capacity. -/
theorem used_enter_le (tier : DiskTier) (file : String) (length : Nat)
    (h : tier.used ≤ tier.capacity) : (tier.enter file length).used ≤ tier.capacity := by
  have dropped := Nat.le_trans (used_remove_insert_le tier file length) h
  unfold enter
  split
  · exact h
  · split
    · exact sum_fitting_le tier.capacity _
    · dsimp only
      split
      · assumption
      · exact used_settle_le dropped length

end DiskTier

end Haystack
