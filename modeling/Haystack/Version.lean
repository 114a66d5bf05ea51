import Haystack.Error

/-!
# Format versions

Volumes exist in three versions of the record format: the first stores data alone, the second
adds optional fields, the third a time stamp.
-/

namespace Haystack

/-- A version of the record format. -/
inductive Version where
  | v1
  | v2
  | v3
  deriving DecidableEq, Repr, Inhabited

namespace Version

def current : Version := .v3

def toByte : Version → UInt8
  | .v1 => 1
  | .v2 => 2
  | .v3 => 3

def ofByte (byte : UInt8) : Except Error Version :=
  match byte.toNat with
  | 1 => .ok .v1
  | 2 => .ok .v2
  | 3 => .ok .v3
  | _ => .error (.unsupportedVersion byte)

/-- Whether records and super blocks of the version have optional fields. -/
def hasFields : Version → Bool
  | .v1 => false
  | .v2 => true
  | .v3 => true

def display (version : Version) : String :=
  "v" ++ toString version.toByte

@[simp] theorem ofByte_toByte (version : Version) : ofByte version.toByte = .ok version := by
  cases version <;> rfl

end Version

end Haystack
