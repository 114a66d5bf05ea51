import Haystack.Json.Value
import Haystack.Text.Numeral

/-!
# Writing JSON

Values are written without blanks. Quotes, backslashes and control characters are escaped, the
common control characters by a letter and the others by four hexadecimal digits.
-/

namespace Haystack.Json

/-- The letter that stands for a byte in an escape, if there is one. -/
def escapeLetter? (byte : UInt8) : Option UInt8 :=
  if byte = quote then some quote
  else if byte = backslash then some backslash
  else if byte = 0x08 then some 0x62
  else if byte = 0x0C then some 0x66
  else if byte = 0x0A then some 0x6E
  else if byte = 0x0D then some 0x72
  else if byte = 0x09 then some 0x74
  else none

def writeByte (byte : UInt8) : Bytes :=
  match escapeLetter? byte with
  | some letter => [backslash, letter]
  | none =>
    if byte < 0x20 then ascii ("\\u" ++ Numeral.paddedHex 4 byte.toNat) else [byte]

def writeText (text : String) : Bytes :=
  quote :: (Utf8.encode text.toList).flatMap writeByte ++ [quote]

def writeInteger (value : Int) : Bytes :=
  ascii (toString value)

def joinCommas : List Bytes → Bytes
  | [] => []
  | [piece] => piece
  | piece :: rest => piece ++ 0x2C :: joinCommas rest

def writeArray (items : List Bytes) : Bytes :=
  0x5B :: joinCommas items ++ [0x5D]

def writeObject (members : List (String × Bytes)) : Bytes :=
  0x7B :: joinCommas (members.map fun member => writeText member.1 ++ 0x3A :: member.2) ++ [0x7D]

end Haystack.Json
