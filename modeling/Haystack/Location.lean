import Haystack.Bytes

/-!
# Where a record is

Index entries store a record's place in units of eight bytes and the length of its body as a
signed word. A negative length marks a deleted record, and minus one is the length written for it.
-/

namespace Haystack

/-- The number of a needle within its volume. -/
abbrev NeedleId := UInt64

/-- The secret that a reader of a needle has to know. -/
abbrev Cookie := UInt32

/-- The length of a record's body as it is stored. -/
structure Size where
  value : Int32 := 0
  deriving DecidableEq, Repr, Inhabited

namespace Size

def tombstone : Size := ⟨-1⟩

def isDeleted (size : Size) : Bool :=
  size.value.toInt < 0

def isLive (size : Size) : Bool :=
  0 < size.value.toInt

def ofLength (length : Nat) : Size :=
  ⟨Int32.ofNat length⟩

/-- The length of the body, none for a deleted record. -/
def length (size : Size) : Nat :=
  size.value.toInt.toNat

/-- The stored number without its sign. -/
def magnitude (size : Size) : Nat :=
  size.value.toInt.natAbs

def toBytes (size : Size) : Bytes :=
  Bytes.ofNat 4 size.value.toUInt32.toNat

def ofBytes (bytes : Bytes) : Size :=
  ⟨(UInt32.ofNat bytes.toNat).toInt32⟩

@[simp] theorem length_toBytes (size : Size) : size.toBytes.length = 4 := by
  simp [toBytes]

@[simp] theorem ofBytes_toBytes (size : Size) : ofBytes size.toBytes = size := by
  obtain ⟨value⟩ := size
  have h := value.toUInt32.toNat_lt
  simp [ofBytes, toBytes, Bytes.toNat_ofNat, Nat.mod_eq_of_lt h]

theorem toInt_ofLength {length : Nat} (h : length < 2 ^ (31 : Nat)) :
    (ofLength length).value.toInt = length :=
  Int32.toInt_ofNat_of_lt h

theorem length_ofLength {length : Nat} (h : length < 2 ^ (31 : Nat)) :
    (ofLength length).length = length := by
  rw [Size.length, toInt_ofLength h, Int.toNat_natCast]

theorem isDeleted_ofLength {length : Nat} (h : length < 2 ^ (31 : Nat)) :
    (ofLength length).isDeleted = false := by
  rw [isDeleted, toInt_ofLength h]
  simp

end Size

/-- A position in a volume, in units of eight bytes. -/
structure StoredOffset where
  units : UInt32 := 0
  deriving DecidableEq, Repr, Inhabited

namespace StoredOffset

/-- The unit of stored offsets, and the alignment of records. -/
def unit : Nat := 8

def ofPosition (position : Nat) : StoredOffset :=
  ⟨UInt32.ofNat (position / unit)⟩

def position (offset : StoredOffset) : Nat :=
  offset.units.toNat * unit

/-- Whether the offset is that of the volume's start, where no record is. -/
def isZero (offset : StoredOffset) : Bool :=
  offset.units == 0

def toBytes (offset : StoredOffset) : Bytes :=
  Bytes.ofNat 4 offset.units.toNat

def ofBytes (bytes : Bytes) : StoredOffset :=
  ⟨UInt32.ofNat bytes.toNat⟩

@[simp] theorem length_toBytes (offset : StoredOffset) : offset.toBytes.length = 4 := by
  simp [toBytes]

@[simp] theorem ofBytes_toBytes (offset : StoredOffset) : ofBytes offset.toBytes = offset := by
  obtain ⟨units⟩ := offset
  have h := units.toNat_lt
  simp [ofBytes, toBytes, Bytes.toNat_ofNat, Nat.mod_eq_of_lt h]

theorem position_ofPosition {position : Nat} (aligned : position % unit = 0)
    (reach : position < 2 ^ (32 : Nat) * unit) : (ofPosition position).position = position := by
  simp only [unit] at aligned reach
  simp only [ofPosition, StoredOffset.position, unit, UInt32.toNat_ofNat']
  omega

end StoredOffset

/-- The place of a record and the length of its body. -/
structure Location where
  offset : StoredOffset
  size : Size
  deriving DecidableEq, Repr, Inhabited

end Haystack
