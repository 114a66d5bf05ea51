import Haystack.Bytes

/-!
# CRC-32C

The checksum of a needle's data is the Castagnoli cyclic redundancy check in its reflected form:
the register starts as all ones, takes in one byte at a time, lowest bit first, and is inverted at
the end. A checksum is a value that can be carried on: feeding two parts one after the other is
feeding their concatenation (`update_append`).
-/

namespace Haystack

/-- A running CRC-32C; `0` is the checksum of no data. -/
structure Checksum where
  value : UInt32 := 0
  deriving DecidableEq, Repr, Inhabited

namespace Checksum

/-- The Castagnoli polynomial, bits reflected. -/
def polynomial : UInt32 := 0x82F63B78

/-- One division step: the lowest bit leaves the register. -/
def shiftOut (register : UInt32) : UInt32 :=
  if register &&& 1 = 1 then (register >>> 1) ^^^ polynomial else register >>> 1

def absorb (register : UInt32) (byte : UInt8) : UInt32 :=
  let mixed := register ^^^ byte.toUInt32
  shiftOut (shiftOut (shiftOut (shiftOut (shiftOut (shiftOut (shiftOut (shiftOut mixed)))))))

def update (sum : Checksum) (data : Bytes) : Checksum :=
  ⟨data.foldl absorb (sum.value ^^^ 0xFFFFFFFF) ^^^ 0xFFFFFFFF⟩

def ofBytes (data : Bytes) : Checksum :=
  update ⟨0⟩ data

/-- The masked form of the oldest volumes: rotated right by fifteen bits and shifted by a constant. -/
def masked (sum : Checksum) : UInt32 :=
  ((sum.value >>> 15) ||| (sum.value <<< 17)) + 0xA282EAD8

/-- The four bytes of the checksum, highest first. -/
def toBytes (sum : Checksum) : Bytes :=
  Bytes.ofNat 4 sum.value.toNat

/-- The entity tag: the checksum in eight hexadecimal digits. -/
def etag (sum : Checksum) : String :=
  sum.toBytes.toHex

theorem update_append (sum : Checksum) (front back : Bytes) :
    sum.update (front ++ back) = (sum.update front).update back := by
  simp only [update, List.foldl_append, UInt32.xor_assoc, UInt32.xor_self, UInt32.xor_zero]

end Checksum

end Haystack
