import Haystack.Reader.Basic

/-!
# Sections

A file is read in sections of fixed length, each of which looks only at the chunks that touch it.
What is visible within a section, and the reader over it, are made when they are first needed.
A chunk added later is laid over what is visible, and the reader is made anew.
-/

namespace Haystack

/-- A section of a file. -/
structure Section where
  index : Int
  chunks : List Chunk := []
  /-- What is visible within the section, once it has been needed. -/
  visible : Option (Overlay VisibleChunk) := none
  /-- The reader over the section, once it has been needed. -/
  reader : Option ChunkReader := none
  deriving DecidableEq, Repr, Inhabited

namespace Section

def length : Int := 64 * 1024 * 1024

def indexOf (position : Int) : Int :=
  position.tdiv length

/-- Where the last section starts. -/
def lastStart : Int :=
  2 ^ (63 : Nat) - length

def start (it : Section) : Int :=
  it.index * length

/-- Where the section stops. The last one stops before it starts. -/
def stop (it : Section) : Int :=
  wrapped (it.start + length)

def add (it : Section) (chunk : Chunk) : Section :=
  { it with
    chunks := it.chunks ++ [chunk]
    visible := it.visible.map fun visible => chunk.addVisible it.start it.stop visible
    reader := none }

def resolved (it : Section) : Overlay VisibleChunk :=
  it.visible.getD (Chunk.resolve it.chunks it.start it.stop)

/-- The section after working out what is visible; chunks that are not are dropped on the way. -/
def cleaned (it : Section) : Section :=
  match it.visible with
  | some _ => it
  | none =>
    let visible := it.resolved
    { it with visible := some visible, chunks := (Chunk.separateGarbage visible it.chunks).1 }

def freshReader (it : Section) (fileSize : Int) : ChunkReader :=
  { views := ChunkView.ofVisibles it.resolved it.start length, fileSize }

/-- The reader over the section, told the length of the file, and the section it belongs to. -/
def prepare (it : Section) (fileSize : Int) : ChunkReader × Section :=
  match it.reader with
  | some reader => ({ reader with fileSize }, it)
  | none =>
    let it := it.cleaned
    (it.freshReader fileSize, it)

def read (it : Section) (source : ChunkSource) (cancelled : Bool) (session : ReadSession)
    (fileSize : Int) (buffer : Bytes) (offset : Int) : ReadOutcome × Section × ReadSession :=
  let (reader, it) := it.prepare fileSize
  let (outcome, reader, session) := reader.read source cancelled session buffer offset
  (outcome, { it with reader := some reader }, session)

/-- The first position from `offset` on where the section has data, within the file's length. -/
def dataStart (it : Section) (offset fileSize : Int) : Option Int :=
  ((it.resolved.filter fun segment => offset < segment.stop).map fun segment =>
    max segment.start offset).find? fun start => start < fileSize

def remembered (it : Section) : Section :=
  { it with visible := some it.resolved }

end Section

end Haystack
