import Haystack.Text.Numeral

/-!
# Byte strings

Files, records and chunk contents are lists of bytes. A word is written with its highest byte
first, so a word of `width` bytes is a number below `256 ^ width`, and reading and writing words
are inverse to each other (`toNat_ofNat`, `length_ofNat`).
-/

namespace Haystack

/-- A byte string. -/
abbrev Bytes := List UInt8

namespace Bytes

/-- The number that the bytes spell, highest byte first. -/
def toNat (bytes : Bytes) : Nat :=
  bytes.foldl (fun value byte => value * 256 + byte.toNat) 0

/-- The `width` low bytes of a number, highest first. -/
def ofNat : (width : Nat) → Nat → Bytes
  | 0, _ => []
  | width + 1, value => UInt8.ofNat (value / 256 ^ width) :: ofNat width value

/-- The `length` bytes from position `start` on, fewer where the string ends. -/
def slice (bytes : Bytes) (start length : Nat) : Bytes :=
  (bytes.drop start).take length

/-- `data` laid over `bytes` at position `start`; what lies before and behind it stays. -/
def splice (bytes : Bytes) (start : Nat) (data : Bytes) : Bytes :=
  bytes.take start ++ data ++ bytes.drop (start + data.length)

def zeros (length : Nat) : Bytes :=
  List.replicate length 0

/-- Exactly `length` bytes: cut, or filled up with zeros. -/
def resize (bytes : Bytes) (length : Nat) : Bytes :=
  bytes.take length ++ zeros (length - bytes.length)

/-- The number spelled by the `width` bytes at position `start`. -/
def wordAt (bytes : Bytes) (start width : Nat) : Nat :=
  toNat (slice bytes start width)

/-- Two lower case hexadecimal digits for each byte. -/
def toHex (bytes : Bytes) : String :=
  String.ofList (bytes.flatMap fun byte =>
    [Nat.digitChar (byte.toNat / 16), Nat.digitChar (byte.toNat % 16)])

/-- Reads pairs of hexadecimal digits onto reversed bytes. -/
def ofHexOnto (done : Bytes) : List Char → Bytes
  | high :: low :: rest =>
    let digit (c : Char) := (Numeral.digitOf? 16 c).getD 0
    ofHexOnto (UInt8.ofNat (digit high * 16 + digit low) :: done) rest
  | _ => done.reverse

/-- The bytes spelled by pairs of hexadecimal digits. Other characters count as zero, and a digit
without a partner is passed over. -/
def ofHex (text : String) : Bytes :=
  ofHexOnto [] text.toList

@[simp] theorem length_ofNat (width value : Nat) : (ofNat width value).length = width := by
  induction width with
  | zero => rfl
  | succ width ih => simp [ofNat, ih]

@[simp] theorem length_zeros (length : Nat) : (zeros length).length = length := by
  simp [zeros]

@[simp] theorem length_resize (bytes : Bytes) (length : Nat) :
    (resize bytes length).length = length := by
  simp only [resize, List.length_append, List.length_take, length_zeros]
  omega

theorem length_slice (bytes : Bytes) (start length : Nat) :
    (slice bytes start length).length = min length (bytes.length - start) := by
  simp [slice]

theorem drop_slice (bytes : Bytes) (start length : Nat) :
    (slice bytes start length).drop length = [] := by
  rw [List.drop_eq_nil_iff, length_slice]
  exact Nat.min_le_left _ _

theorem slice_append (front rest : Bytes) : slice (front ++ rest) 0 front.length = front := by
  simp [slice]

theorem slice_append_add (front rest : Bytes) (start length : Nat) :
    slice (front ++ rest) (front.length + start) length = slice rest start length := by
  simp only [slice, List.drop_append, List.drop_eq_nil_of_le (Nat.le_add_right _ start),
    List.nil_append, Nat.add_sub_cancel_left]

theorem slice_add (bytes : Bytes) (start first second : Nat) :
    slice bytes start (first + second) =
      slice bytes start first ++ slice bytes (start + first) second := by
  rw [slice, slice, slice, List.take_add, List.drop_drop]

theorem getElem_resize (bytes : Bytes) (length : Nat) {index : Nat}
    (h : index < (resize bytes length).length) : (resize bytes length)[index] = bytes.getD index 0 := by
  rw [length_resize] at h
  simp only [resize, zeros, List.getElem_append, List.length_take, List.getElem_take,
    List.getElem_replicate, List.getD_eq_getElem?_getD]
  split
  · rename_i low
    rw [List.getElem?_eq_getElem (by omega), Option.getD_some]
  · rename_i high
    rw [List.getElem?_eq_none (by omega), Option.getD_none]

theorem getD_slice {index length : Nat} (h : index < length) (bytes : Bytes) (start : Nat) :
    (slice bytes start length).getD index 0 = bytes.getD (start + index) 0 := by
  simp [slice, List.getD_eq_getElem?_getD, List.getElem?_take_of_lt h]

theorem splice_middle {front old back new : Bytes} (same : old.length = new.length) :
    splice (front ++ (old ++ back)) front.length new = front ++ (new ++ back) := by
  have behind : (front ++ (old ++ back)).drop (front.length + new.length) = back := by
    rw [← List.append_assoc, ← same, ← List.length_append, List.drop_left]
  rw [splice, List.take_left, behind, List.append_assoc]

theorem splice_append_slice {bytes front : Bytes} {start length : Nat}
    (short : front.length ≤ length) (fits : start + length ≤ bytes.length) :
    splice bytes start (front ++ (slice bytes start length).drop front.length) =
      bytes.take start ++ front ++ bytes.drop (start + front.length) := by
  have count : (front ++ (slice bytes start length).drop front.length).length = length := by
    simp only [List.length_append, List.length_drop, length_slice]
    omega
  have behind : (slice bytes start length).drop front.length ++ bytes.drop (start + length) =
      bytes.drop (start + front.length) := by
    have rest : start + length = start + front.length + (length - front.length) := by omega
    rw [slice, List.drop_take, List.drop_drop, rest, ← List.drop_drop (i := length - front.length),
      List.take_append_drop]
  rw [splice, count, List.append_assoc, List.append_assoc, behind, ← List.append_assoc]

theorem foldl_ofNat (width value seed : Nat) :
    (ofNat width value).foldl (fun acc byte => acc * 256 + byte.toNat) seed =
      seed * 256 ^ width + value % 256 ^ width := by
  induction width generalizing seed with
  | zero => simp [ofNat, Nat.mod_one]
  | succ width ih =>
    simp only [ofNat, List.foldl_cons, ih, UInt8.toNat_ofNat', Nat.reducePow]
    have h : value % 256 ^ (width + 1) =
        256 ^ width * (value / 256 ^ width % 256) + value % 256 ^ width := by
      rw [Nat.pow_succ, Nat.mod_mul, Nat.add_comm]
    rw [h]
    generalize value / 256 ^ width % 256 = digit
    generalize value % 256 ^ width = rest
    rw [Nat.pow_succ, Nat.add_mul, Nat.mul_assoc, Nat.mul_comm 256 (256 ^ width),
      Nat.mul_comm digit, Nat.add_assoc]

theorem toNat_ofNat (width value : Nat) : toNat (ofNat width value) = value % 256 ^ width := by
  simp [toNat, foldl_ofNat]

theorem ofNat_mod (width value : Nat) : ofNat width (value % 256 ^ width) = ofNat width value := by
  induction width generalizing value with
  | zero => rfl
  | succ width ih =>
    have digit : value % 256 ^ (width + 1) / 256 ^ width = value / 256 ^ width % 256 := by
      rw [Nat.pow_succ, Nat.mod_mul_right_div_self]
    have rest : value % 256 ^ (width + 1) % 256 ^ width = value % 256 ^ width :=
      Nat.mod_mod_of_dvd _ (Nat.pow_dvd_pow 256 (Nat.le_succ width))
    rw [ofNat, ofNat, digit, ← ih (value % 256 ^ (width + 1)), rest, ih]
    congr 1
    apply UInt8.toNat_inj.mp
    simp

theorem wordAt_ofNat_append (width value : Nat) (rest : Bytes) :
    wordAt (ofNat width value ++ rest) 0 width = value % 256 ^ width := by
  have front := slice_append (ofNat width value) rest
  rw [length_ofNat] at front
  rw [wordAt, front, toNat_ofNat]

end Bytes

end Haystack
