import Haystack.Section.Basic

/-!
# Files in sections

A chunk belongs to every section that it touches. A read is cut at the borders of the sections,
and every section fills its part of the buffer; where there is no section the part becomes zeros
up to the length of the file.
-/

namespace Haystack

/-- A file in sections, by rising number. -/
structure SectionedFile where
  sections : List Section := []
  deriving DecidableEq, Repr, Inhabited

namespace SectionedFile

def find? (file : SectionedFile) (index : Int) : Option Section :=
  file.sections.find? fun it => it.index == index

/-- Puts a section in its place among others, instead of the one of its number. -/
def place (new : Section) : List Section → List Section
  | [] => [new]
  | it :: rest =>
    if it.index < new.index then it :: place new rest
    else if it.index = new.index then new :: rest
    else new :: it :: rest

def put (file : SectionedFile) (new : Section) : SectionedFile :=
  { sections := place new file.sections }

def count (file : SectionedFile) : Nat :=
  file.sections.length

def indexes (chunk : Chunk) : List Int :=
  let first := Section.indexOf chunk.offset
  let last := Section.indexOf (wrapped (chunk.stop - 1))
  (List.range (last + 1 - first).toNat).map fun (step : Nat) => first + step

def addTo (chunk : Chunk) (file : SectionedFile) (index : Int) : SectionedFile :=
  file.put (((file.find? index).getD { index }).add chunk)

/-- The file with another chunk; a chunk without bytes is none. -/
def add (file : SectionedFile) (chunk : Chunk) : SectionedFile :=
  if chunk.size = 0 then file else (indexes chunk).foldl (addTo chunk) file

def ofChunks (chunks : List Chunk) : SectionedFile :=
  chunks.foldl add {}

/-- A read over sections under way. -/
structure Reading where
  file : SectionedFile
  session : ReadSession
  buffer : Bytes
  /-- How many bytes have been read. -/
  count : Nat := 0
  /-- The newest modification among the chunks read. -/
  newest : Int := 0

/-- What a read does: from where on, for a file of which length, and with which source. -/
structure Demand where
  source : ChunkSource
  cancelled : Bool := false
  fileSize : Int
  offset : Int

def Reading.fill (reading : Reading) (start : Nat) (part : Bytes) (count : Nat) (newest : Int) :
    Reading :=
  { reading with
    buffer := reading.buffer.splice start part
    count := reading.count + count
    newest := max reading.newest newest }

/-- Reads the parts of a buffer that lie in the sections of some numbers. -/
def readParts (demand : Demand) : List Int → Reading → Except ReadError Unit × Reading
  | [], reading => (.ok (), reading)
  | index :: rest, reading =>
    let low := max demand.offset (index * Section.length)
    let high := min (wrapped (demand.offset + reading.buffer.length))
      (wrapped ((index + 1) * Section.length))
    let start := (low - demand.offset).toNat
    if high ≤ low then readParts demand rest reading
    else
      match reading.file.find? index with
      | none =>
        let zeros := Bytes.zeros (min high demand.fileSize - low).toNat
        readParts demand rest (reading.fill start zeros zeros.length 0)
      | some it =>
        let part := reading.buffer.slice start (high - low).toNat
        let (outcome, it, session) :=
          it.read demand.source demand.cancelled reading.session demand.fileSize part low
        let reading := { reading with file := reading.file.put it, session }
        match outcome.result with
        | .error problem => (.error problem, reading.fill start outcome.buffer 0 0)
        | .ok (count, newest) =>
          readParts demand rest (reading.fill start outcome.buffer count newest)

/-- The numbers of the sections that a range touches, from the one that it starts in. -/
def touched (start stop : Int) : List Int :=
  let first := Section.indexOf start
  let beyond := (stop - first * Section.length + Section.length - 1) / Section.length
  (List.range beyond.toNat).map fun (step : Nat) => first + step

/-- Fills a buffer from a position on. Nothing is read from the length of the file on. A read beyond
the start of the last section finds no end, as no section starts behind it. The fetches asked for
are not run yet. -/
def read (file : SectionedFile) (demand : Demand) (session : ReadSession) (buffer : Bytes) :
    ReadOutcome × SectionedFile × ReadSession :=
  if demand.fileSize ≤ demand.offset then ({ result := .ok (0, 0), buffer }, file, session)
  else
    let stop := wrapped (demand.offset + buffer.length)
    let (result, reading) :=
      readParts demand (touched demand.offset stop) { file, session, buffer }
    ({ result := result.map fun () => (reading.count, reading.newest)
       buffer := reading.buffer
       ends := !result.isOk || decide (stop ≤ Section.lastStart) },
      reading.file, reading.session)

/-- Fills a buffer from a position on, and fetches ahead what was asked for. -/
def readAt (file : SectionedFile) (demand : Demand) (cache : TieredCache) (buffer : Bytes) :
    ReadOutcome × SectionedFile × TieredCache :=
  let (outcome, file, session) := file.read demand { cache } buffer
  (outcome, file, session.fetchAhead demand.source demand.cancelled)

/-- Looks for data in sections, one after the other; the sections that were asked remember what is
visible in them. -/
def searchData (fileSize : Int) : (offset : Int) → List Section → Option Int × List Section
  | _, [] => (none, [])
  | offset, it :: rest =>
    let offset := max offset it.start
    match it.dataStart offset fileSize with
    | some start => (some start, it.remembered :: rest)
    | none =>
      let (found, rest) := searchData fileSize offset rest
      (found, it.remembered :: rest)

/-- The first position from `offset` on where the file has data, within its length. -/
def dataStart (file : SectionedFile) (offset fileSize : Int) : Option Int × SectionedFile :=
  let earlier := file.sections.takeWhile fun it => it.index < Section.indexOf offset
  let rest := file.sections.dropWhile fun it => it.index < Section.indexOf offset
  let (found, rest) := searchData fileSize offset rest
  (found, { sections := earlier ++ rest })

end SectionedFile

end Haystack
