import Haystack.Chunk.Basic
import Haystack.Json.Printer
import Haystack.Json.Reader

/-!
# Chunks as JSON

A chunk is an object of its fields in fixed order; the cipher key is left out if it is empty. A
reader may find the fields in any order, or an array of them.
-/

namespace Haystack.Chunk

def fieldNames : List String :=
  ["file_id", "offset", "size", "modified_ts_ns", "cipher_key", "is_compressed"]

def toJson (chunk : Chunk) : Bytes :=
  Json.writeObject <|
    [("file_id", Json.writeText chunk.fileId), ("offset", Json.writeInteger chunk.offset),
      ("size", Json.writeInteger chunk.size),
      ("modified_ts_ns", Json.writeInteger chunk.modified)] ++
    (if chunk.cipherKey.isEmpty then []
      else [("cipher_key",
        Json.writeArray (chunk.cipherKey.map fun byte => Json.writeInteger byte.toNat))]) ++
    [("is_compressed", Json.ascii (if chunk.isCompressed then "true" else "false"))]

def signed? (json : Json) : Option Int :=
  json.integer? (-(2 ^ (63 : Nat))) (2 ^ (63 : Nat) - 1)

def bytes? (json : Json) : Option Bytes := do
  (← json.items?).mapM fun item => (item.natural? 256).map UInt8.ofNat

/-- An optional field with the value it has if it is missing. -/
def optional {α : Type} (read : Json → Option α) (missing : α) : Option Json → Option α
  | none => some missing
  | some json => read json

/-- Reads a chunk; cipher key and compression may be missing. -/
def ofJson? (json : Json) : Option Chunk :=
  match json.fields? fieldNames with
  | some [some fileId, some offset, some size, some modified, cipherKey, isCompressed] => do
    return { fileId := ← fileId.string?
             offset := ← signed? offset
             size := ← size.natural? (2 ^ (64 : Nat))
             modified := ← signed? modified
             cipherKey := ← optional bytes? [] cipherKey
             isCompressed := ← optional Json.boolean? false isCompressed }
  | _ => none

def parse? (text : String) : Option Chunk :=
  (Json.ofBytes? (Utf8.encode text.toList)).bind ofJson?

end Haystack.Chunk
