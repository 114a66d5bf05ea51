import Haystack.Error
import Haystack.Text.Numeral

/-!
# Replica placement

How many further copies of a volume are kept in other data centers, on other racks and on the
same rack: three digits that together, as one decimal number, fit in a byte.
-/

namespace Haystack

/-- The numbers of further copies. -/
structure ReplicaPlacement where
  otherDataCenters : UInt8 := 0
  otherRacks : UInt8 := 0
  sameRack : UInt8 := 0
  deriving DecidableEq, Repr, Inhabited

namespace ReplicaPlacement

def value (placement : ReplicaPlacement) : Nat :=
  placement.otherDataCenters.toNat * 100 + placement.otherRacks.toNat * 10 +
    placement.sameRack.toNat

/-- Whether every count is a digit and the three fit in a byte. -/
def IsValid (placement : ReplicaPlacement) : Prop :=
  placement.otherDataCenters ≤ 9 ∧ placement.otherRacks ≤ 9 ∧ placement.sameRack ≤ 9 ∧
    placement.value ≤ 255

instance (placement : ReplicaPlacement) : Decidable placement.IsValid := by
  unfold IsValid; infer_instance

/-- A placement of three counts, if they are digits and fit in a byte. -/
def make (otherDataCenters otherRacks sameRack : UInt8) : Except Error ReplicaPlacement :=
  let placement : ReplicaPlacement := { otherDataCenters, otherRacks, sameRack }
  if 9 < otherDataCenters ∨ 9 < otherRacks ∨ 9 < sameRack then
    .error (.invalidPlacement (.digits otherDataCenters otherRacks sameRack))
  else if 255 < placement.value then .error (.invalidPlacement (.tooLarge placement.value))
  else .ok placement

/-- Reads up to three digits; missing ones on the left are zeros. -/
def parse (text : String) : Except Error ReplicaPlacement :=
  if 3 < text.utf8ByteSize then .error (.invalidPlacement (.notThreeDigits text))
  else
    match (Numeral.padLeft 3 text.toList).mapM (Numeral.digitOf? 10) with
    | some [dataCenters, racks, same] =>
      make (UInt8.ofNat dataCenters) (UInt8.ofNat racks) (UInt8.ofNat same)
    | _ => .error (.invalidPlacement (.notThreeDigits text))

def ofByte (byte : UInt8) : Except Error ReplicaPlacement :=
  make (byte / 100) (byte / 10 % 10) (byte % 10)

/-- The byte that stores a placement; only the low eight bits of a larger value remain. -/
def toByte (placement : ReplicaPlacement) : UInt8 :=
  UInt8.ofNat placement.value

def hasReplication (placement : ReplicaPlacement) : Bool :=
  placement.otherDataCenters != 0 || placement.otherRacks != 0 || placement.sameRack != 0

def copyCount (placement : ReplicaPlacement) : Nat :=
  placement.otherDataCenters.toNat + placement.otherRacks.toNat + placement.sameRack.toNat + 1

def display (placement : ReplicaPlacement) : String :=
  toString placement.otherDataCenters ++ toString placement.otherRacks ++
    toString placement.sameRack

end ReplicaPlacement

end Haystack
