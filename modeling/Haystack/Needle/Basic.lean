import Haystack.Checksum
import Haystack.FileId
import Haystack.Needle.Pairs
import Haystack.Ttl

/-!
# Needles

A needle is one stored blob with its number, its cookie and optional metadata. Which metadata a
needle has is said by flags, not by the fields: a record stores the flagged fields alone.
-/

namespace Haystack

/-- What a needle may be marked with. -/
inductive Flag where
  | compressed
  | name
  | mime
  | lastModified
  | ttl
  | pairs
  | chunkManifest
  deriving DecidableEq, Repr

def Flag.mask : Flag → UInt8
  | .compressed => 0x01
  | .name => 0x02
  | .mime => 0x04
  | .lastModified => 0x08
  | .ttl => 0x10
  | .pairs => 0x20
  | .chunkManifest => 0x80

/-- The flags of a needle; a bit without a meaning is kept. -/
structure Flags where
  bits : UInt8 := 0
  deriving DecidableEq, Repr, Inhabited

namespace Flags

def has (flags : Flags) (flag : Flag) : Bool :=
  flags.bits &&& flag.mask != 0

def set (flags : Flags) (flag : Flag) : Flags :=
  ⟨flags.bits ||| flag.mask⟩

def clear (flags : Flags) (flag : Flag) : Flags :=
  ⟨flags.bits &&& ~~~flag.mask⟩

end Flags

/-- One stored blob. -/
structure Needle where
  cookie : Cookie := 0
  id : NeedleId := 0
  /-- The length of the body, known once the needle is encoded or decoded. -/
  size : Size := {}
  data : Bytes := []
  flags : Flags := {}
  name : Bytes := []
  mime : Bytes := []
  /-- Metadata as a JSON object. -/
  pairs : Bytes := []
  /-- Seconds since the epoch, of which forty bits are stored. -/
  lastModified : UInt64 := 0
  ttl : Option Ttl := none
  checksum : Checksum := {}
  /-- When the record was appended, in nanoseconds since the epoch; third version only. -/
  appendedAt : UInt64 := 0
  deriving DecidableEq, Repr, Inhabited

namespace Needle

def maxNameLength : Nat := 255

def maxMimeLength : Nat := 255

def maxPairsLength : Nat := 65535

/-- The longest data, and the longest body. -/
def maxBodyLength : Nat := 2 ^ (31 : Nat) - 1

def ofData (id : NeedleId) (cookie : Cookie) (data : Bytes) : Needle :=
  { id, cookie, data, checksum := .ofBytes data }

def has (needle : Needle) (flag : Flag) : Bool :=
  needle.flags.has flag

def mark (needle : Needle) (flag : Flag) : Needle :=
  { needle with flags := needle.flags.set flag }

def withName (needle : Needle) (name : Bytes) : Needle :=
  { needle with name }.mark .name

def withMime (needle : Needle) (mime : Bytes) : Except Error Needle :=
  if maxMimeLength < mime.length then .error (.fieldTooLarge .mime mime.length maxMimeLength)
  else .ok ({ needle with mime }.mark .mime)

def withLastModified (needle : Needle) (seconds : UInt64) : Needle :=
  { needle with lastModified := seconds }.mark .lastModified

/-- Gives the needle a lifetime; one that never ends takes the lifetime away. -/
def withTtl (needle : Needle) (ttl : Ttl) : Needle :=
  if ttl.isForever then { needle with ttl := none, flags := needle.flags.clear .ttl }
  else { needle with ttl := some ttl }.mark .ttl

/-- Gives the needle metadata under the stored names; no pairs change nothing. -/
def withPairs (needle : Needle) (pairs : Pairs) : Except Error Needle :=
  if pairs.isEmpty then .ok needle
  else
    let text := pairs.stored.toJson
    if maxPairsLength < text.length then
      .error (.fieldTooLarge .pairs text.length maxPairsLength)
    else .ok ({ needle with pairs := text }.mark .pairs)

def pairsMap (needle : Needle) : Except Error Pairs :=
  if needle.pairs.isEmpty then .ok [] else Pairs.decode needle.pairs

/-- The time stamp of the next record: the time now, but after the last one. -/
def nextStamp (now last : UInt64) : UInt64 :=
  max now (if last = UInt64.ofNat (2 ^ (64 : Nat) - 1) then last else last + 1)

/-- The needle about to be appended after a record of time `last`. -/
def stamped (needle : Needle) (now last : UInt64) : Needle :=
  { needle with appendedAt := nextStamp now last }

def display (needle : Needle) : String :=
  needle.id.display ++ needle.cookie.display ++ " size:" ++ toString needle.size.value.toInt ++
    " data:" ++ toString needle.data.length ++ " name:" ++ Utf8.display needle.name ++
    " mime:" ++ Utf8.display needle.mime ++ " compressed:" ++ toString (needle.has .compressed)

end Needle

end Haystack
