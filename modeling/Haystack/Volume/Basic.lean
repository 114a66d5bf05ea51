import Haystack.File.Records
import Haystack.Index.Log
import Haystack.SuperBlock
import Haystack.Volume.LiveMap

/-!
# Volumes

A volume is a data file, which starts with a super block and then holds one record after the
other, an index file with an entry for every record, and the map of live needles. Writing and
deleting append a record first and its entry second; if the entry cannot be written the data file
is cut back to where the record began. Nothing else of the volume changes before both are done.
-/

namespace Haystack

/-- An open volume. -/
structure Volume where
  id : VolumeId
  superBlock : SuperBlock
  data : File
  index : File
  live : LiveMap := []
  /-- The time stamp of the last record appended since opening. -/
  lastStamp : UInt64 := 0
  deriving Inhabited

namespace Volume

/-- The least multiple of a record's alignment that is not below a length. -/
def alignedLength (length : Nat) : Nat :=
  (length + StoredOffset.unit - 1) / StoredOffset.unit * StoredOffset.unit

def version (volume : Volume) : Version :=
  volume.superBlock.version

def count (volume : Volume) : Nat :=
  volume.live.length

def dataLength (volume : Volume) : Except Error Nat :=
  volume.data.stat

def find? (volume : Volume) (id : NeedleId) : Option Location :=
  volume.live.find? id

def readSuperBlock (data : File) : Except Error SuperBlock := do
  let fixed ← data.readExact SuperBlock.fixedLength 0
  let version ← Version.ofByte (UInt8.ofNat (fixed.wordAt 0 1))
  let extension := fixed.wordAt 6 2
  if !version.hasFields || extension == 0 then SuperBlock.parse fixed
  else SuperBlock.parse (← data.readExact (SuperBlock.fixedLength + extension) 0)

/-- The super block of a data file; an empty file is given one, filled up to where the first
record may start. -/
def loadSuperBlock (data : File) (block : SuperBlock) : Except Error SuperBlock × File :=
  match data.stat with
  | .error problem => (.error problem, data)
  | .ok 0 =>
    match block.toBytes with
    | .error problem => (.error problem, data)
    | .ok bytes =>
      match data.write (bytes.resize (alignedLength bytes.length)) 0 with
      | (.error problem, data) => (.error problem, data)
      | (.ok _, data) => (.ok block, data)
  | .ok _ => (readSuperBlock data, data)

/-- The entries of an index file that a volume replays on opening. -/
def replayed (index : File) : List Entry :=
  (Walk.run (fun _ => .ok ()) index 0).visited

/-- Opens a volume over two files, and gives the data file as it is afterwards. The super block
given counts only for a volume that has none yet. -/
def load (id : VolumeId) (data index : File) (block : SuperBlock) :
    Except Error Volume × File :=
  match loadSuperBlock data block with
  | (.error problem, data) => (.error problem, data)
  | (.ok superBlock, data) =>
    (.ok { id, superBlock, data, index, live := .ofEntries (replayed index) }, data)

/-- Appends the entry of the record that was appended at `position`, and then lets the record's
time stamp and the given map of live needles count. -/
def commit (volume : Volume) (entry : Entry) (position : Nat) (stamp : UInt64) (live : LiveMap) :
    Except Error Unit × Volume :=
  match volume.index.appendEntry entry with
  | (.error problem, index) =>
    (.error problem, { volume with index, data := volume.data.cutBack position })
  | (.ok (), index) => (.ok (), { volume with index, live, lastStamp := stamp })

/-- Writes a needle. A needle without data makes its number unknown. -/
def write (volume : Volume) (now : UInt64) (needle : Needle) :
    Except Error File.AppendedNeedle × Volume :=
  match volume.data.appendNeedle (needle.stamped now volume.lastStamp) volume.version with
  | (.error problem, data) => (.error problem, { volume with data })
  | (.ok record, data) =>
    let volume := { volume with data }
    let entry : Entry :=
      { key := needle.id, offset := .ofPosition record.place.offset, size := record.place.size }
    let live :=
      if entry.size.isLive then
        volume.live.insert entry.key { offset := entry.offset, size := entry.size }
      else volume.live.erase entry.key
    match volume.commit entry record.place.offset record.needle.appendedAt live with
    | (.error problem, volume) => (.error problem, volume)
    | (.ok (), volume) => (.ok record, volume)

/-- Reads a live needle whose cookie is known. -/
def read (volume : Volume) (id : NeedleId) (cookie : Cookie) : Except Error Needle :=
  match volume.find? id with
  | none => .error (.notFound (.inVolume id volume.id))
  | some location =>
    if location.size.isDeleted then .error (.deleted id)
    else
      match volume.data.readNeedle location.offset.position location.size volume.version with
      | .error problem => .error problem
      | .ok needle =>
        if needle.cookie = cookie then .ok needle
        else .error (.notFound (.inVolume id volume.id))

/-- The first half of a deletion: the size of the needle to delete, if it is live and its cookie
is known. -/
def checkDelete (volume : Volume) (id : NeedleId) (cookie : Cookie) : Except Error (Option Size) :=
  match volume.read id cookie with
  | .ok needle => .ok (some needle.size)
  | .error problem => if problem.isNotFound then .ok none else .error problem

/-- The second half of a deletion: appends an empty record and a tombstone. -/
def bury (volume : Volume) (now : UInt64) (id : NeedleId) (cookie : Cookie) :
    Except Error Unit × Volume :=
  let marker := (Needle.ofData id cookie []).stamped now volume.lastStamp
  match volume.data.appendNeedle marker volume.version with
  | (.error problem, data) => (.error problem, { volume with data })
  | (.ok record, data) =>
    let entry : Entry :=
      { key := id, offset := .ofPosition record.place.offset, size := .tombstone }
    { volume with data }.commit entry record.place.offset record.needle.appendedAt
      (volume.live.erase id)

/-- Deletes a needle and gives the size freed, zero if there was no such needle. -/
def delete (volume : Volume) (now : UInt64) (id : NeedleId) (cookie : Cookie) :
    Except Error Size × Volume :=
  match volume.checkDelete id cookie with
  | .error problem => (.error problem, volume)
  | .ok none => (.ok {}, volume)
  | .ok (some size) =>
    match volume.bury now id cookie with
    | (.error problem, volume) => (.error problem, volume)
    | (.ok (), volume) => (.ok size, volume)

end Volume

end Haystack
