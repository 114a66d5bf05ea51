import Haystack.Text.Numeral

/-!
# What can go wrong with stored data

An error names its cause. The wording of every cause is in `Error.message`, so nothing else in
the library deals in error texts, and the counters of bad records are read off the errors
(`Error.tally`).
-/

namespace Haystack

/-- The parts of a record's body that can reach past its end. -/
inductive BodyField where
  | data
  | name
  | mime
  | lastModified
  | ttl
  | pairsSize
  | pairs
  deriving DecidableEq, Repr

namespace BodyField

/-- All fields in the order in which they are stored. -/
def all : List BodyField :=
  [.data, .name, .mime, .lastModified, .ttl, .pairsSize, .pairs]

/-- The field's number, counted from one. -/
def number : BodyField → Nat
  | .data => 1
  | .name => 2
  | .mime => 3
  | .lastModified => 4
  | .ttl => 5
  | .pairsSize => 6
  | .pairs => 7

def label : BodyField → String
  | .data => "data"
  | .name => "name"
  | .mime => "mime"
  | .lastModified => "last_modified"
  | .ttl => "ttl"
  | .pairsSize => "pairs_size"
  | .pairs => "pairs"

/-- Name and number, as errors show a field. -/
def display (field : BodyField) : String :=
  field.label ++ " (#" ++ toString field.number ++ ")"

end BodyField

/-- The parts of a needle with an upper limit on their length. -/
inductive LimitedField where
  | mime
  | pairs
  | data
  | body
  deriving DecidableEq, Repr

def LimitedField.label : LimitedField → String
  | .mime => "mime"
  | .pairs => "pairs"
  | .data => "data"
  | .body => "needle body"

/-- Which length did not hold what was expected of it. -/
inductive LengthCheck where
  /-- Too few bytes for a record's header. -/
  | header
  /-- The header's size is not the size in the index. -/
  | index
  /-- Too few bytes for the record that the header announces. -/
  | record
  /-- Too few bytes for the body alone. -/
  | body
  /-- Too few bytes for checksum and time stamp. -/
  | tail
  /-- Too few bytes to put a time stamp into. -/
  | stamp
  /-- Too few bytes for a super block. -/
  | superBlock
  deriving DecidableEq, Repr

/-- What is wrong with a replica placement. -/
inductive PlacementProblem where
  /-- The text is not of at most three digits. -/
  | notThreeDigits (text : String)
  /-- Some count is no digit. -/
  | digits (dataCenters racks sameRack : UInt8)
  /-- The three digits are a number above 255. -/
  | tooLarge (value : Nat)
  deriving DecidableEq, Repr

def PlacementProblem.message : PlacementProblem → String
  | .notThreeDigits text => text
  | .digits dataCenters racks sameRack =>
    "[" ++ toString dataCenters ++ ", " ++ toString racks ++ ", " ++ toString sameRack ++ "]"
  | .tooLarge value => toString value ++ " does not fit in a byte"

/-- What is wrong with a file id or one of its parts. -/
inductive FileIdProblem where
  | needleId (text : String) (problem : Numeral.Problem)
  | cookie (text : String) (problem : Numeral.Problem)
  | cookieTooLong (text : String)
  | volumeId (text : String) (problem : Numeral.Problem)
  | missingComma (text : String)
  | missingVolume (text : String)
  | keyTooShort (text : String)
  | keyTooLong (text : String)
  | keyNotHex (text : String)
  | delta (text : String) (problem : Numeral.Problem)
  deriving DecidableEq, Repr

def FileIdProblem.message : FileIdProblem → String
  | .needleId text problem => "needle id " ++ text ++ ": " ++ problem.message
  | .cookie text problem => "cookie " ++ text ++ ": " ++ problem.message
  | .cookieTooLong text => "cookie " ++ text ++ " too long"
  | .volumeId text problem => "volume id " ++ text ++ ": " ++ problem.message
  | .missingComma text => text ++ ": missing comma"
  | .missingVolume text => text ++ ": missing volume"
  | .keyTooShort text => text ++ ": key hash too short"
  | .keyTooLong text => text ++ ": key hash too long"
  | .keyNotHex text => text ++ ": key hash is not hex"
  | .delta text problem => text ++ ": delta: " ++ problem.message

/-- What was looked for and is not there. -/
inductive Missing where
  /-- No live needle of that id, and of the cookie asked for, in the volume. -/
  | inVolume (needle : UInt64) (volume : UInt32)
  /-- No entry of that id in a sorted index. -/
  | inSortedIndex (needle : UInt64)
  /-- Something a caller looked for on its own. -/
  | named (what : String)
  deriving DecidableEq, Repr

def Missing.message : Missing → String
  | .inVolume needle volume =>
    "needle " ++ Numeral.toHex needle.toNat ++ " in volume " ++ toString volume
  | .inSortedIndex needle => "needle " ++ Numeral.toHex needle.toNat ++ " in ecx"
  | .named what => what

/-- What a backing file refuses to do. -/
inductive FileProblem where
  | diskFull
  | tornWrite
  | truncateFailed
  | statFailed
  | shortRead (file : String) (got offset wanted : Nat)
  | shortMark (wrote wanted : Nat)
  | noDirectory
  | isDirectory
  | invalidArgument
  deriving DecidableEq, Repr

def FileProblem.message : FileProblem → String
  | .diskFull => "disk full"
  | .tornWrite => "torn write"
  | .truncateFailed => "truncate failed"
  | .statFailed => "stat failed"
  | .shortRead file got offset wanted =>
    file ++ ": short read of " ++ toString got ++ " bytes at offset " ++ toString offset ++
      ", wanted " ++ toString wanted
  | .shortMark wrote wanted =>
    "sorted needle wrote " ++ toString wrote ++ " bytes, expected " ++ toString wanted
  | .noDirectory => "No such file or directory (os error 2)"
  | .isDirectory => "Is a directory (os error 21)"
  | .invalidArgument => "Invalid argument (os error 22)"

/-- Why an operation on stored data failed. -/
inductive Error where
  | sizeMismatch (check : LengthCheck) (found expected : Int)
  | outOfRange (field : BodyField)
  | unsupportedVersion (version : UInt8)
  | checksumMismatch (stored computed : UInt32)
  | fieldTooLarge (field : LimitedField) (length limit : Nat)
  | extensionTooLarge (length : Nat)
  | outOfBounds (offset length : Nat)
  | volumeFull (size limit : Nat)
  | notFound (what : Missing)
  | deleted (needle : UInt64)
  | invalidPlacement (problem : PlacementProblem)
  | invalidTtl (text : String)
  | invalidFileId (problem : FileIdProblem)
  | malformedJson
  | file (problem : FileProblem)
  deriving DecidableEq, Repr

/-- The kinds of errors. -/
inductive ErrorKind where
  | sizeMismatch
  | outOfRange
  | unsupportedVersion
  | checksumMismatch
  | fieldTooLarge
  | extensionTooLarge
  | outOfBounds
  | volumeFull
  | notFound
  | deleted
  | invalidPlacement
  | invalidTtl
  | invalidFileId
  | malformedJson
  | file
  deriving DecidableEq, Repr

namespace Error

def message : Error → String
  | .sizeMismatch _ found expected =>
    "needle size mismatch: found " ++ toString found ++ ", expected " ++ toString expected
  | .outOfRange field => "needle field " ++ field.display ++ " out of range"
  | .unsupportedVersion version => "unsupported version " ++ toString version
  | .checksumMismatch stored computed =>
    "checksum mismatch: stored 0x" ++ Numeral.paddedHex 8 stored.toNat ++
      ", computed 0x" ++ Numeral.paddedHex 8 computed.toNat
  | .fieldTooLarge field length limit =>
    field.label ++ " too large: " ++ toString length ++ " bytes (max " ++ toString limit ++ ")"
  | .extensionTooLarge length => "superblock extra too large: " ++ toString length ++ " bytes"
  | .outOfBounds offset length =>
    "offset " ++ toString offset ++ " out of bounds for chunk of " ++ toString length ++ " bytes"
  | .volumeFull size limit =>
    "volume size " ++ toString size ++ " exceeds limit " ++ toString limit
  | .notFound what => "not found: " ++ what.message
  | .deleted needle => "needle " ++ Numeral.toHex needle.toNat ++ " is deleted"
  | .invalidPlacement problem => "invalid replica placement: " ++ problem.message
  | .invalidTtl text => "invalid ttl: " ++ text
  | .invalidFileId problem => "invalid file id: " ++ problem.message
  | .malformedJson => "serialization error"
  | .file problem => "io error: " ++ problem.message

/-- The kind of an error: its cause without the particulars. -/
def kind : Error → ErrorKind
  | .sizeMismatch .. => .sizeMismatch
  | .outOfRange _ => .outOfRange
  | .unsupportedVersion _ => .unsupportedVersion
  | .checksumMismatch .. => .checksumMismatch
  | .fieldTooLarge .. => .fieldTooLarge
  | .extensionTooLarge _ => .extensionTooLarge
  | .outOfBounds .. => .outOfBounds
  | .volumeFull .. => .volumeFull
  | .notFound _ => .notFound
  | .deleted _ => .deleted
  | .invalidPlacement _ => .invalidPlacement
  | .invalidTtl _ => .invalidTtl
  | .invalidFileId _ => .invalidFileId
  | .malformedJson => .malformedJson
  | .file _ => .file

def isNotFound : Error → Bool
  | .notFound _ => true
  | _ => false

end Error

/-- How many records were found damaged, by the kind of damage. -/
structure Tally where
  sizeMismatch : Nat := 0
  outOfRange : Nat := 0
  checksumMismatch : Nat := 0
  deriving DecidableEq, Repr

/-- What an error adds to the tally. A record counts as damaged in length if it contradicts the
index or is cut off, not if its header alone is missing or a super block is too short. -/
def Error.tally : Error → Tally
  | .sizeMismatch .index _ _ => { sizeMismatch := 1 }
  | .sizeMismatch .record _ _ => { sizeMismatch := 1 }
  | .outOfRange _ => { outOfRange := 1 }
  | .checksumMismatch _ _ => { checksumMismatch := 1 }
  | _ => {}

end Haystack
