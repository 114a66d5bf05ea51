import Haystack.Location
import Haystack.Error

/-!
# File ids

The public handle of a needle is `volume,keycookie`: the volume's number in decimal, then the
needle's number without leading zero bytes and the eight digits of its cookie, both in
hexadecimal. A reader also accepts a decimal delta behind an underscore, which is added to the
key, and ignores an extension behind a dot.
-/

namespace Haystack

def NeedleId.parse (text : String) : Except Error NeedleId :=
  match Numeral.hex64 text.toList with
  | .ok value => .ok (UInt64.ofNat value)
  | .error problem => .error (.invalidFileId (.needleId text problem))

def NeedleId.display (id : NeedleId) : String :=
  Numeral.toHex id.toNat

/-- Reads a cookie of at most eight digits. -/
def Cookie.parse (text : String) : Except Error Cookie :=
  if 8 < text.utf8ByteSize then .error (.invalidFileId (.cookieTooLong text))
  else
    match Numeral.hex32 text.toList with
    | .ok value => .ok (UInt32.ofNat value)
    | .error problem => .error (.invalidFileId (.cookie text problem))

/-- A cookie as it is shown, always in eight digits. -/
def Cookie.display (cookie : Cookie) : String :=
  Numeral.paddedHex 8 cookie.toNat

/-- The number of a volume. -/
abbrev VolumeId := UInt32

def VolumeId.parse (text : String) : Except Error VolumeId :=
  match Numeral.decimal32 text.toList with
  | .ok value => .ok (UInt32.ofNat value)
  | .error problem => .error (.invalidFileId (.volumeId text problem))

/-- The public handle of a needle. -/
structure FileId where
  volume : VolumeId
  key : NeedleId
  cookie : Cookie
  deriving DecidableEq, Repr

namespace FileId

/-- What precedes the first separator and, if there is one, what follows it. -/
def splitFirst (separator : Char) : List Char → List Char × Option (List Char)
  | [] => ([], none)
  | c :: rest =>
    if c = separator then ([], some rest)
    else
      let (front, back) := splitFirst separator rest
      (c :: front, back)

/-- What precedes the last separator and what follows it, if there is one. -/
def splitLast? (separator : Char) (text : List Char) : Option (List Char × List Char) :=
  match splitFirst separator text.reverse with
  | (_, none) => none
  | (back, some front) => some (front.reverse, back.reverse)

def byteLength (text : List Char) : Nat :=
  (text.map Char.utf8Size).sum

/-- The key part without a delta, and the delta if one follows. An underscore at the very start
does not introduce a delta. -/
def splitDelta (text : List Char) : List Char × Option (List Char) :=
  match splitLast? '_' text with
  | some (front, back) => if front.isEmpty then (text, none) else (front, some back)
  | none => (text, none)

/-- Adds a delta to a key, within 64 bits. -/
def addDelta (text : String) (key : NeedleId) :
    Option (List Char) → Except Error NeedleId
  | none => .ok key
  | some digits =>
    match Numeral.decimal64 digits with
    | .ok delta => .ok (key + UInt64.ofNat delta)
    | .error problem => .error (.invalidFileId (.delta text problem))

/-- Reads the part behind the comma: key, cookie and delta. -/
def parseKeyCookie (chars : List Char) : Except Error (NeedleId × Cookie) := do
  let text := String.ofList chars
  let (digits, delta) := splitDelta chars
  if byteLength digits ≤ 8 then throw (.invalidFileId (.keyTooShort text))
  if 24 < byteLength digits then throw (.invalidFileId (.keyTooLong text))
  if !digits.all (Numeral.digitOf? 16 · |>.isSome) then
    throw (.invalidFileId (.keyNotHex text))
  let key ← NeedleId.parse (String.ofList (digits.take (digits.length - 8)))
  let cookie ← Cookie.parse (String.ofList (digits.drop (digits.length - 8)))
  return (← addDelta text key delta, cookie)

def parse (text : String) : Except Error FileId := do
  match splitFirst ',' text.toList with
  | (_, none) => throw (.invalidFileId (.missingComma text))
  | (volume, some rest) =>
    if volume.isEmpty then throw (.invalidFileId (.missingVolume text))
    let volume ← VolumeId.parse (String.ofList volume)
    let (key, cookie) ← parseKeyCookie (splitFirst '.' rest).1
    return { volume, key, cookie }

/-- The part behind the comma: the key's bytes from the first that is not zero, then the cookie. -/
def keyCookie (id : FileId) : String :=
  Bytes.toHex ((Bytes.ofNat 8 id.key.toNat).dropWhile (· == 0) ++ Bytes.ofNat 4 id.cookie.toNat)

def display (id : FileId) : String :=
  toString id.volume ++ "," ++ id.keyCookie

end FileId

end Haystack
