import Haystack.Json.Printer
import Haystack.Json.Reader
import Haystack.ReplicaPlacement
import Haystack.Ttl
import Haystack.Version

/-!
# Super blocks

A volume starts with a block of eight bytes: version, replica placement, lifetime, compaction
revision and the length of an extension. The extension follows as JSON text; the first version
has none.
-/

namespace Haystack

/-- How a volume was dealt out over shards. -/
structure ErasureCoding where
  dataShards : UInt32
  parityShards : UInt32
  volumeIds : List UInt32 := []
  deriving DecidableEq, Repr

namespace ErasureCoding

/-- The JSON text; an empty list of volumes is left out. -/
def toJson (coding : ErasureCoding) : Bytes :=
  Json.writeObject <|
    [("data_shards", Json.writeInteger coding.dataShards.toNat),
      ("parity_shards", Json.writeInteger coding.parityShards.toNat)] ++
    if coding.volumeIds.isEmpty then []
    else [("volume_ids",
      Json.writeArray (coding.volumeIds.map fun id => Json.writeInteger id.toNat))]

def word? (json : Json) : Option UInt32 :=
  (json.natural? (2 ^ (32 : Nat))).map UInt32.ofNat

/-- Reads the parameters; the list of volumes may be missing. -/
def ofJson? (json : Json) : Option ErasureCoding :=
  match json.fields? ["data_shards", "parity_shards", "volume_ids"] with
  | some [some data, some parity, ids] => do
    let volumeIds ← match ids with
      | none => some []
      | some ids => do (← ids.items?).mapM word?
    return { dataShards := ← word? data, parityShards := ← word? parity, volumeIds }
  | _ => none

end ErasureCoding

/-- What a super block says beyond its fixed fields. -/
structure Extension where
  erasureCoding : Option ErasureCoding := none
  deriving DecidableEq, Repr

namespace Extension

def maxLength : Nat := 256 * 256 - 2

def toJson (extension : Extension) : Bytes :=
  Json.writeObject <|
    match extension.erasureCoding with
    | none => []
    | some coding => [("erasure_coding", coding.toJson)]

/-- The JSON text, if it is not too long. -/
def encode (extension : Extension) : Except Error Bytes :=
  let text := extension.toJson
  if maxLength < text.length then .error (.extensionTooLarge text.length) else .ok text

/-- Reads an extension; nothing in it has to be there. -/
def ofJson? (json : Json) : Option Extension :=
  match json.fields? ["erasure_coding"] with
  | some [none] => some {}
  | some [some .null] => some {}
  | some [some coding] =>
    (ErasureCoding.ofJson? coding).map fun coding => { erasureCoding := some coding }
  | _ => none

def decode (text : Bytes) : Except Error Extension :=
  match (Json.ofBytes? text).bind ofJson? with
  | some extension => .ok extension
  | none => .error .malformedJson

end Extension

/-- The first block of a volume. -/
structure SuperBlock where
  version : Version := .current
  placement : Option ReplicaPlacement := none
  ttl : Option Ttl := none
  revision : UInt16 := 0
  extension : Option Extension := none
  /-- The length of the extension's text as the block states it. -/
  extensionLength : UInt16 := 0
  deriving DecidableEq, Repr, Inhabited

namespace SuperBlock

def fixedLength : Nat := 8

def withExtension (block : SuperBlock) (extension : Extension) : Except Error SuperBlock :=
  match extension.encode with
  | .error problem => .error problem
  | .ok text =>
    .ok { block with extension := some extension, extensionLength := UInt16.ofNat text.length }

/-- Whether both placement and lifetime are known. -/
def isInitialized (block : SuperBlock) : Bool :=
  block.placement.isSome && block.ttl.isSome

def length (block : SuperBlock) : Nat :=
  if block.version.hasFields then fixedLength + block.extensionLength.toNat else fixedLength

/-- The fixed fields of a block with an extension of the given length. -/
def fixedBytes (block : SuperBlock) (extensionLength : Nat) : Bytes :=
  [block.version.toByte, (block.placement.map ReplicaPlacement.toByte).getD 0] ++
    (block.ttl.getD .forever).toBytes ++ Bytes.ofNat 2 block.revision.toNat ++
    Bytes.ofNat 2 extensionLength

def writtenExtension (block : SuperBlock) : Option Extension :=
  if block.version.hasFields then block.extension else none

def toBytes (block : SuperBlock) : Except Error Bytes :=
  match block.writtenExtension with
  | none => .ok (block.fixedBytes 0)
  | some extension =>
    match extension.encode with
    | .error problem => .error problem
    | .ok text => .ok (block.fixedBytes text.length ++ text)

/-- Reads the extension of a block of which the fixed fields are read. -/
def readExtension (block : SuperBlock) (bytes : Bytes) : Except Error SuperBlock :=
  let length := bytes.wordAt 6 2
  if !block.version.hasFields || length == 0 then .ok block
  else if bytes.length < fixedLength + length then
    .error (.sizeMismatch .superBlock bytes.length (fixedLength + length))
  else
    match Extension.decode (bytes.slice fixedLength length) with
    | .error problem => .error problem
    | .ok extension =>
      .ok { block with extension := some extension, extensionLength := UInt16.ofNat length }

def parse (bytes : Bytes) : Except Error SuperBlock :=
  match bytes with
  | version :: placement :: rest =>
    if bytes.length < fixedLength then
      .error (.sizeMismatch .superBlock bytes.length fixedLength)
    else do
      let version ← Version.ofByte version
      let placement ← ReplicaPlacement.ofByte placement
      let block : SuperBlock :=
        { version
          placement := some placement
          ttl := some (.ofBytes rest)
          revision := UInt16.ofNat (bytes.wordAt 4 2) }
      block.readExtension bytes
  | _ => .error (.sizeMismatch .superBlock bytes.length fixedLength)

end SuperBlock

end Haystack
