import Haystack.FileId
import Haystack.Volume.Basic

/-!
# Where chunks come from

A source gives the contents of a chunk by its file id, or says why it cannot. The contents may be
a fixed table, or be read from open volumes: there a file id names the volume, the needle in it
and the cookie that has to be known.
-/

namespace Haystack

/-- Why a source has no contents for a file id. -/
inductive FetchError where
  /-- The table has no such chunk. -/
  | unknownChunk (file : String)
  /-- The file id cannot be read. -/
  | malformedId (problem : Error)
  /-- The volume is not open. -/
  | unknownVolume (volume : VolumeId) (file : String)
  /-- The volume does not give the needle. -/
  | unreadable (file : String) (problem : Error)
  deriving DecidableEq, Repr

def FetchError.message : FetchError → String
  | .unknownChunk file => "chunk " ++ file ++ " not found"
  | .malformedId problem => problem.message
  | .unknownVolume volume file => "volume " ++ toString volume ++ " not found for " ++ file
  | .unreadable file problem => "read chunk " ++ file ++ ": " ++ problem.message

/-- Why a chunk was not read. -/
inductive ReadError where
  | fetch (problem : FetchError)
  | cancelled
  deriving DecidableEq, Repr

def ReadError.message : ReadError → String
  | .fetch problem => "chunk fetch failed: " ++ problem.message
  | .cancelled => "operation cancelled"

/-- Gives the contents of chunks by their file ids. -/
abbrev ChunkSource := String → Except FetchError Bytes

namespace ChunkSource

def ofContents (contents : Table String Bytes) : ChunkSource := fun file =>
  match contents.find? file with
  | some data => .ok data
  | none => .error (.unknownChunk file)

def ofVolumes (volumes : Table VolumeId Volume) : ChunkSource := fun file =>
  match FileId.parse file with
  | .error problem => .error (.malformedId problem)
  | .ok id =>
    match volumes.find? id.volume with
    | none => .error (.unknownVolume id.volume file)
    | some volume =>
      match volume.read id.key id.cookie with
      | .error problem => .error (.unreadable file problem)
      | .ok needle => .ok needle.data

end ChunkSource

end Haystack
