import Haystack.Needle.Basic
import Haystack.Record

/-!
# Writing records

A needle without data has an empty body. Otherwise the first version's body is the data, and later
versions write the length of the data, the data, the flags and the flagged fields in fixed order.
-/

namespace Haystack.Needle

def flagged (needle : Needle) (flag : Flag) (bytes : Bytes) : Bytes :=
  if needle.has flag then bytes else []

def counted (width : Nat) (bytes : Bytes) : Bytes :=
  Bytes.ofNat width bytes.length ++ bytes

/-- The flagged fields in the order in which they are stored. -/
def fieldBytes (needle : Needle) : Bytes :=
  needle.flagged .name (counted 1 needle.name) ++
    needle.flagged .mime (counted 1 needle.mime) ++
    needle.flagged .lastModified (Bytes.ofNat 5 needle.lastModified.toNat) ++
    needle.flagged .ttl (needle.ttl.getD .forever).toBytes ++
    needle.flagged .pairs (counted 2 needle.pairs)

def body (needle : Needle) (version : Version) : Bytes :=
  if !version.hasFields then needle.data
  else if needle.data.isEmpty then []
  else counted 4 needle.data ++ needle.flags.bits :: needle.fieldBytes

/-- The checksum and, since the third version, the time stamp. -/
def tailBytes (needle : Needle) (version : Version) : Bytes :=
  needle.checksum.toBytes ++
    match version with
    | .v3 => Bytes.ofNat 8 needle.appendedAt.toNat
    | .v2 => []
    | .v1 => []

def headerBytes (needle : Needle) : Bytes :=
  Bytes.ofNat 4 needle.cookie.toNat ++ Bytes.ofNat 8 needle.id.toNat ++ needle.size.toBytes

/-- The first field that is too long to be stored. -/
def tooLarge? (needle : Needle) : Option Error :=
  if maxMimeLength < needle.mime.length then
    some (.fieldTooLarge .mime needle.mime.length maxMimeLength)
  else if maxPairsLength < needle.pairs.length then
    some (.fieldTooLarge .pairs needle.pairs.length maxPairsLength)
  else if maxBodyLength < needle.data.length then
    some (.fieldTooLarge .data needle.data.length maxBodyLength)
  else none

/-- The needle with its name cut to what can be stored, and the checksum of its data. -/
def trimmed (needle : Needle) : Needle :=
  { needle with name := needle.name.take maxNameLength, checksum := .ofBytes needle.data }

/-- A needle as it is stored and the bytes of its record. -/
structure Sealed where
  needle : Needle
  bytes : Bytes
  deriving DecidableEq, Repr

def sealWith (needle : Needle) (version : Version) : Except Error Sealed :=
  let body := needle.body version
  if maxBodyLength < body.length then
    .error (.fieldTooLarge .body body.length maxBodyLength)
  else
    let stored := { needle with size := .ofLength body.length }
    .ok { needle := stored
          bytes := stored.headerBytes ++ body ++ stored.tailBytes version ++
            Bytes.zeros (Record.paddingLength version body.length) }

def encode (needle : Needle) (version : Version) : Except Error Sealed :=
  match needle.tooLarge? with
  | some problem => .error problem
  | none => needle.trimmed.sealWith version

def recordLength (needle : Needle) (version : Version) : Nat :=
  Record.length version needle.size.length

end Haystack.Needle
