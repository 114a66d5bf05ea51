import Haystack.FileId
import Haystack.Proofs.Text.Numeral

/-!
# Reading back file ids

The string form of a file id is read back as the file id, unless its key is zero: then the part
behind the comma is the cookie alone, which is too short to be read.
-/

namespace Haystack

namespace Bytes

/-- The characters of a byte string in hexadecimal. -/
def hexChars (bytes : Bytes) : List Char :=
  bytes.flatMap fun byte => [Nat.digitChar (byte.toNat / 16), Nat.digitChar (byte.toNat % 16)]

theorem toList_toHex (bytes : Bytes) : bytes.toHex.toList = bytes.hexChars :=
  String.toList_ofList

theorem hexChars_append (front back : Bytes) :
    hexChars (front ++ back) = front.hexChars ++ back.hexChars :=
  List.flatMap_append

theorem length_hexChars (bytes : Bytes) : bytes.hexChars.length = 2 * bytes.length := by
  induction bytes with
  | nil => rfl
  | cons byte rest ih =>
      rw [hexChars, List.flatMap_cons, List.length_append]
      change 2 + (hexChars rest).length = _
      rw [ih, List.length_cons]
      omega

theorem mem_hexChars {bytes : Bytes} {c : Char} (member : c ∈ bytes.hexChars) :
    ∃ digit < 16, c = digit.digitChar := by
  obtain ⟨byte, -, digits⟩ := List.mem_flatMap.mp member
  have bound := byte.toNat_lt
  simp only [List.mem_cons, List.not_mem_nil, or_false] at digits
  rcases digits with rfl | rfl
  · exact ⟨byte.toNat / 16, by omega, rfl⟩
  · exact ⟨byte.toNat % 16, by omega, rfl⟩

theorem le_foldl (bytes : Bytes) (value : Nat) :
    value ≤ bytes.foldl (fun value byte => value * 256 + byte.toNat) value := by
  induction bytes generalizing value with
  | nil => exact Nat.le_refl _
  | cons byte rest ih =>
      have first := ih (value * 256 + byte.toNat)
      rw [List.foldl_cons]
      omega

/-- Reading hexadecimal digits adds the bytes that they spell. -/
theorem readDigits_hexChars {limit : Nat} (bytes : Bytes) (value : Nat)
    (fits : bytes.foldl (fun value byte => value * 256 + byte.toNat) value ≤ limit) :
    Numeral.readDigits 16 limit value bytes.hexChars =
      .ok (bytes.foldl (fun value byte => value * 256 + byte.toNat) value) := by
  induction bytes generalizing value with
  | nil => rfl
  | cons byte rest ih =>
      have bound := byte.toNat_lt
      have first := le_foldl rest (value * 256 + byte.toNat)
      rw [List.foldl_cons] at fits ⊢
      change Numeral.readDigits 16 limit value
        ((byte.toNat / 16).digitChar :: (byte.toNat % 16).digitChar :: hexChars rest) = _
      rw [Numeral.readDigits_digitChar (Nat.le_refl _) (by omega) (by omega),
        Numeral.readDigits_digitChar (Nat.le_refl _) (by omega) (by omega)]
      have sum : (value * 16 + byte.toNat / 16) * 16 + byte.toNat % 16 =
          value * 256 + byte.toNat := by omega
      rw [sum]
      exact ih _ fits

theorem read_hexChars {limit : Nat} {bytes : Bytes} (nonempty : bytes ≠ [])
    (fits : bytes.toNat ≤ limit) : Numeral.read 16 limit bytes.hexChars = .ok bytes.toNat := by
  have unsigned : '+' ∉ bytes.hexChars := by
    intro member
    obtain ⟨digit, below, same⟩ := mem_hexChars member
    have table : ∀ digit < 16, '+' ≠ Nat.digitChar digit := by decide
    exact table digit below same
  have some : bytes.hexChars ≠ [] := by
    intro empty
    have length := length_hexChars bytes
    rw [empty, List.length_nil] at length
    exact nonempty (List.eq_nil_of_length_eq_zero (by omega))
  rw [Numeral.read_of_no_plus some unsigned]
  exact readDigits_hexChars bytes 0 fits

theorem toNat_dropWhile (bytes : Bytes) : toNat (bytes.dropWhile (· == 0)) = bytes.toNat := by
  induction bytes with
  | nil => rfl
  | cons byte rest ih =>
      rw [List.dropWhile_cons]
      by_cases zero : byte = 0
      · subst zero
        exact ih
      · rw [if_neg (by simpa using zero)]

end Bytes

namespace FileId

open Numeral

section Splitting

variable {separator : Char} {front back : List Char}

theorem splitFirst_of_not_mem (absent : separator ∉ front) :
    splitFirst separator front = (front, none) := by
  induction front with
  | nil => rfl
  | cons c front ih =>
      rw [List.mem_cons, not_or] at absent
      rw [splitFirst, if_neg (Ne.symm absent.1), ih absent.2]

theorem splitFirst_append (absent : separator ∉ front) (back : List Char) :
    splitFirst separator (front ++ separator :: back) = (front, some back) := by
  induction front with
  | nil => exact if_pos rfl
  | cons c front ih =>
      rw [List.mem_cons, not_or] at absent
      rw [List.cons_append, splitFirst, if_neg (Ne.symm absent.1), ih absent.2]

theorem splitDelta_of_not_mem (absent : '_' ∉ front) : splitDelta front = (front, none) := by
  have reversed : '_' ∉ front.reverse := by rwa [List.mem_reverse]
  rw [splitDelta, splitLast?, splitFirst_of_not_mem reversed]

end Splitting

/-- The bytes of a key from the first that is not zero. -/
def keyBytes (id : FileId) : Bytes :=
  (Bytes.ofNat 8 id.key.toNat).dropWhile (· == 0)

variable (id : FileId)

theorem toList_keyCookie :
    id.keyCookie.toList = id.keyBytes.hexChars ++ (Bytes.ofNat 4 id.cookie.toNat).hexChars := by
  rw [keyCookie, Bytes.toList_toHex, Bytes.hexChars_append, keyBytes]

theorem toNat_keyBytes : id.keyBytes.toNat = id.key.toNat := by
  rw [keyBytes, Bytes.toNat_dropWhile, Bytes.toNat_ofNat, Nat.mod_eq_of_lt id.key.toNat_lt]

theorem length_keyBytes_le : id.keyBytes.length ≤ 8 := by
  have dropped := (List.dropWhile_suffix (fun byte : UInt8 => byte == 0)
    (l := Bytes.ofNat 8 id.key.toNat)).length_le
  rwa [Bytes.length_ofNat] at dropped

theorem keyBytes_eq_nil_iff : id.keyBytes = [] ↔ id.key = 0 := by
  constructor
  · intro empty
    have zero := id.toNat_keyBytes
    rw [empty] at zero
    exact UInt64.toNat_inj.mp zero.symm
  · intro zero
    rw [keyBytes, zero]
    rfl

theorem utf8ByteSize_ofList (text : List Char) :
    (String.ofList text).utf8ByteSize = byteLength text := by
  induction text with
  | nil => rfl
  | cons c text ih =>
      rw [String.ofList_cons, String.utf8ByteSize_append, String.utf8ByteSize_singleton, ih,
        byteLength, byteLength, List.map_cons, List.sum_cons]

theorem not_mem_keyCookie {separator : Char}
    (other : ∀ digit < 16, separator ≠ Nat.digitChar digit) : separator ∉ id.keyCookie.toList := by
  rw [toList_keyCookie, ← Bytes.hexChars_append]
  intro member
  obtain ⟨digit, below, same⟩ := Bytes.mem_hexChars member
  exact other digit below same

theorem byteLength_of_single {text : List Char} (single : ∀ c ∈ text, c.utf8Size = 1) :
    byteLength text = text.length := by
  rw [byteLength, List.map_congr_left single, List.map_const']
  simp

theorem byteLength_hexChars (bytes : Bytes) : byteLength bytes.hexChars = 2 * bytes.length := by
  rw [byteLength_of_single, Bytes.length_hexChars]
  intro c member
  obtain ⟨digit, below, rfl⟩ := Bytes.mem_hexChars member
  exact (isDigit_digitChar below).utf8Size (Nat.le_refl 16)

theorem splitDelta_keyCookie : splitDelta id.keyCookie.toList = (id.keyCookie.toList, none) :=
  splitDelta_of_not_mem (id.not_mem_keyCookie (by decide))

theorem parseKeyCookie_of_zero (zero : id.key = 0) :
    parseKeyCookie id.keyCookie.toList =
      .error (.invalidFileId (.keyTooShort id.keyCookie)) := by
  have length : byteLength id.keyCookie.toList = 2 * 4 := by
    rw [toList_keyCookie, id.keyBytes_eq_nil_iff.mpr zero, ← Bytes.hexChars_append,
      byteLength_hexChars, List.nil_append, Bytes.length_ofNat]
  rw [parseKeyCookie, splitDelta_keyCookie]
  dsimp only
  rw [if_pos (Nat.le_of_eq length), String.ofList_toList]
  rfl

theorem isHex_keyCookie :
    (id.keyCookie.toList.all fun c => (digitOf? 16 c).isSome) = true := by
  rw [toList_keyCookie, ← Bytes.hexChars_append, List.all_eq_true]
  intro c member
  obtain ⟨digit, below, rfl⟩ := Bytes.mem_hexChars member
  rw [digitOf?_digitChar (Nat.le_refl _) below]
  rfl

theorem parse_keyBytes (nonzero : id.key ≠ 0) :
    NeedleId.parse (String.ofList id.keyBytes.hexChars) = .ok id.key := by
  have filled : id.keyBytes ≠ [] := fun empty => nonzero (id.keyBytes_eq_nil_iff.mp empty)
  have bound := id.key.toNat_lt
  have fits : id.keyBytes.toNat ≤ 2 ^ 64 - 1 := by
    rw [toNat_keyBytes]
    omega
  rw [NeedleId.parse, String.toList_ofList, hex64, Bytes.read_hexChars filled fits,
    toNat_keyBytes]
  exact congrArg _ UInt64.ofNat_toNat

theorem parse_cookieBytes (cookie : Cookie) :
    Cookie.parse (String.ofList (Bytes.ofNat 4 cookie.toNat).hexChars) = .ok cookie := by
  have bound := cookie.toNat_lt
  have value : (Bytes.ofNat 4 cookie.toNat).toNat = cookie.toNat := by
    rw [Bytes.toNat_ofNat, Nat.mod_eq_of_lt bound]
  have filled : Bytes.ofNat 4 cookie.toNat ≠ [] := by simp [Bytes.ofNat]
  have fits : (Bytes.ofNat 4 cookie.toNat).toNat ≤ 2 ^ 32 - 1 := by
    rw [value]
    omega
  have eight : ¬ 8 < (String.ofList (Bytes.ofNat 4 cookie.toNat).hexChars).utf8ByteSize := by
    rw [utf8ByteSize_ofList, byteLength_hexChars, Bytes.length_ofNat]
    decide
  rw [Cookie.parse, if_neg eight, String.toList_ofList, hex32, Bytes.read_hexChars filled fits,
    value]
  exact congrArg _ UInt32.ofNat_toNat

theorem parseKeyCookie_of_nonzero (nonzero : id.key ≠ 0) :
    parseKeyCookie id.keyCookie.toList = .ok (id.key, id.cookie) := by
  have filled : id.keyBytes ≠ [] := fun empty => nonzero (id.keyBytes_eq_nil_iff.mp empty)
  have some := List.length_pos_iff.mpr filled
  have most := id.length_keyBytes_le
  have bytes : byteLength id.keyCookie.toList = 2 * id.keyBytes.length + 8 := by
    rw [toList_keyCookie, ← Bytes.hexChars_append, byteLength_hexChars, List.length_append,
      Bytes.length_ofNat]
    omega
  have split : id.keyCookie.toList.length - 8 = id.keyBytes.hexChars.length := by
    rw [toList_keyCookie, List.length_append, Bytes.length_hexChars, Bytes.length_hexChars,
      Bytes.length_ofNat]
    omega
  rw [parseKeyCookie, splitDelta_keyCookie]
  dsimp only
  rw [if_neg (by omega), if_neg (by omega), isHex_keyCookie, split, toList_keyCookie,
    List.take_left, List.drop_left, parse_keyBytes id nonzero, parse_cookieBytes]
  rfl

theorem parse_volume (volume : VolumeId) :
    VolumeId.parse (String.ofList (Nat.toDigits 10 volume.toNat)) = .ok volume := by
  have bound := volume.toNat_lt
  have unsigned : '+' ∉ Nat.toDigits 10 volume.toNat := by
    intro member
    have digit := Nat.isDigit_of_mem_toDigits (by decide) (by decide) member
    contradiction
  have read := @readDigits_toDigits 10 (2 ^ 32 - 1) (by decide) (by decide) volume.toNat (by omega)
  rw [VolumeId.parse, String.toList_ofList, decimal32, read_of_no_plus Nat.toDigits_ne_nil unsigned,
    read]
  exact congrArg _ UInt32.ofNat_toNat

theorem toList_display :
    id.display.toList = Nat.toDigits 10 id.volume.toNat ++ ',' :: id.keyCookie.toList := by
  have number : (toString id.volume).toList = Nat.toDigits 10 id.volume.toNat :=
    Nat.toList_repr
  rw [display, String.toList_append, String.toList_append, number, List.append_assoc]
  rfl

/-- The string form of a file id is read as far as the part behind the comma can be read. -/
theorem parse_display :
    parse id.display =
      (parseKeyCookie id.keyCookie.toList).map fun (key, cookie) =>
        { volume := id.volume, key, cookie } := by
  have comma : ',' ∉ Nat.toDigits 10 id.volume.toNat := by
    intro member
    have digit := Nat.isDigit_of_mem_toDigits (by decide) (by decide) member
    contradiction
  have dot := splitFirst_of_not_mem (@not_mem_keyCookie id '.' (by decide))
  have started : (Nat.toDigits 10 id.volume.toNat).isEmpty = false :=
    List.isEmpty_eq_false_iff.mpr Nat.toDigits_ne_nil
  rw [parse, toList_display, splitFirst_append comma]
  dsimp only
  rw [started, parse_volume, dot]
  cases parseKeyCookie id.keyCookie.toList <;> rfl

theorem parse_display_of_nonzero (nonzero : id.key ≠ 0) : parse id.display = .ok id := by
  rw [parse_display, parseKeyCookie_of_nonzero id nonzero]
  rfl

theorem parse_display_of_zero (zero : id.key = 0) :
    parse id.display = .error (.invalidFileId (.keyTooShort id.keyCookie)) := by
  rw [parse_display, parseKeyCookie_of_zero id zero]
  rfl

end FileId

end Haystack
