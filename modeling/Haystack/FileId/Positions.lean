import Haystack.FileId
import Haystack.Needle.Cursor
import Haystack.Text.Utf8

/-!
# Reading file ids at positions

Here a file id is read as the bytes of its text: a separator is found at a position, and the text
is cut there. A cut behind the end of the text or inside a character has no result (`none`), which
is neither a file id nor an error: a reader that always has a result never makes one. Reading
character by character, as `parse` does, cannot show this, since every cut it makes is one between
characters.
-/

namespace Haystack.FileId

open Needle (Access)

/-- Where the first separator is, counted in bytes. -/
def positionOf? (separator : Char) : List Char → Option Nat
  | [] => none
  | c :: rest =>
    if c = separator then some 0 else (positionOf? separator rest).map (c.utf8Size + ·)

/-- Where the last separator is, counted in bytes. -/
def lastPositionOf? (separator : Char) : List Char → Option Nat
  | [] => none
  | c :: rest =>
    match lastPositionOf? separator rest with
    | some position => some (c.utf8Size + position)
    | none => if c = separator then some 0 else none

/-- What a text has before and behind a position. There is nothing beyond the end of the text,
and nothing inside a character. -/
def cutAt? : List Char → (position : Nat) → Option (List Char × List Char)
  | text, 0 => some ([], text)
  | [], _ + 1 => none
  | c :: rest, position + 1 =>
    if position + 1 < c.utf8Size then none
    else (cutAt? rest (position + 1 - c.utf8Size)).map fun (front, back) => (c :: front, back)

def before? (text : List Char) (position : Nat) : Option (List Char) :=
  (cutAt? text position).map Prod.fst

def from? (text : List Char) (position : Nat) : Option (List Char) :=
  (cutAt? text position).map Prod.snd

/-- The position some bytes before another, nothing if the text begins behind it. -/
def stepBack? (position bytes : Nat) : Option Nat :=
  if bytes ≤ position then some (position - bytes) else none

/-- Cuts a text as `splitFirst` does, at positions. -/
def splitFirstAt (separator : Char) (text : List Char) :
    Option (List Char × Option (List Char)) :=
  match positionOf? separator text with
  | none => some (text, none)
  | some position => do
    let front ← before? text position
    let back ← from? text (position + separator.utf8Size)
    return (front, some back)

/-- Cuts off a delta as `splitDelta` does, at positions. -/
def splitDeltaAt (text : List Char) : Option (List Char × Option (List Char)) :=
  match lastPositionOf? '_' text with
  | none => some (text, none)
  | some position =>
    if 0 < position then do
      let front ← before? text position
      let back ← from? text (position + 1)
      return (front, some back)
    else some (text, none)

def isHexByte (byte : UInt8) : Bool :=
  (0x30 ≤ byte && byte ≤ 0x39) || (0x41 ≤ byte && byte ≤ 0x46) || (0x61 ≤ byte && byte ≤ 0x66)

def parseKeyCookieAt (chars : List Char) : Access (NeedleId × Cookie) := do
  let text := String.ofList chars
  let (digits, delta) ← splitDeltaAt chars
  if byteLength digits ≤ 8 then throw (.invalidFileId (.keyTooShort text))
  if 24 < byteLength digits then throw (.invalidFileId (.keyTooLong text))
  if !(Utf8.encode digits).all isHexByte then throw (.invalidFileId (.keyNotHex text))
  let border ← stepBack? (byteLength digits) 8
  let key ← NeedleId.parse (String.ofList (← before? digits border))
  let cookie ← Cookie.parse (String.ofList (← from? digits border))
  return (← addDelta text key delta, cookie)

/-- Reads a file id as `parse` does, at positions. -/
def parseAt (text : String) : Access FileId := do
  match ← splitFirstAt ',' text.toList with
  | (_, none) => throw (.invalidFileId (.missingComma text))
  | (volume, some rest) =>
    if volume.isEmpty then throw (.invalidFileId (.missingVolume text))
    let (part, _) ← splitFirstAt '.' rest
    let volume ← VolumeId.parse (String.ofList volume)
    let (key, cookie) ← parseKeyCookieAt part
    return { volume, key, cookie }

end Haystack.FileId
