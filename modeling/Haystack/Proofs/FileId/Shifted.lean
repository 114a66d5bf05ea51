import Haystack.Proofs.FileId.Form

/-!
# File ids with a delta and an extension

The string form of a file id has the form of one, also with a number and an extension behind it.
The number of digits varies with the key, but the cookie has eight of them, so that the last eight
before the underscore are its own whatever the key is. Hence the text gives the file id back.
-/

namespace Haystack

theorem Bytes.spells_hexChars (bytes : Bytes) : Numeral.Spells 16 bytes.hexChars bytes.toNat := by
  have read := readDigits_hexChars bytes 0 (Nat.le_refl bytes.toNat)
  exact ((Numeral.readDigits_eq_ok_iff (Nat.le_refl 16)).mp read).1

namespace FileId

open Numeral

variable (id : FileId)

/-- Bytes of a key and a cookie are a hash, unless the key is zero. -/
theorem hash_keyCookie (nonzero : id.key ≠ 0) :
    Hash id.keyCookie.toList id.key.toNat id.cookie.toNat := by
  have filled : id.keyBytes ≠ [] := fun empty => nonzero (id.keyBytes_eq_nil_iff.mp empty)
  have some := List.length_pos_iff.mpr filled
  have most := id.length_keyBytes_le
  have key := id.keyBytes.spells_hexChars
  have cookie := (Bytes.ofNat 4 id.cookie.toNat).spells_hexChars
  rw [toNat_keyBytes] at key
  rw [Bytes.toNat_ofNat, Nat.mod_eq_of_lt id.cookie.toNat_lt] at cookie
  rw [toList_keyCookie]
  apply Hash.intro _ _ _ key cookie
  · rw [Bytes.length_hexChars]
    omega
  · rw [Bytes.length_hexChars]
    omega
  · rw [Bytes.length_hexChars, Bytes.length_ofNat]

/-- The file id whose key lies some way further on, within 64 bits. -/
def shift (delta : Nat) : FileId :=
  { id with key := UInt64.ofNat ((id.key.toNat + delta) % 2 ^ (64 : Nat)) }

theorem keyPart_shift (nonzero : id.key ≠ 0) {delta : Nat} (below : delta < 2 ^ (64 : Nat)) :
    KeyPart (id.keyCookie.toList ++ '_' :: Nat.toDigits 10 delta) (id.shift delta).key
      id.cookie := by
  have writes := @writes_toDigits 10 (by decide) (by decide) delta
  have part := KeyPart.shifted (id.hash_keyCookie nonzero)
    (writes.not_mem (by decide) (by decide) (by decide)) writes below
  rwa [UInt32.ofNat_toNat] at part

section Suffixes

variable {id} {suffix : List Char} {key : NeedleId} {cookie : Cookie}

theorem writes_volume (volume : VolumeId) :
    Writes 10 (Nat.toDigits 10 volume.toNat) volume.toNat :=
  writes_toDigits (by decide) (by decide) volume.toNat

theorem form_display_append (whole : '.' ∉ id.keyCookie.toList ++ suffix)
    (part : KeyPart (id.keyCookie.toList ++ suffix) key cookie) :
    Form (id.display.toList ++ suffix) { volume := id.volume, key, cookie } := by
  have writes := writes_volume id.volume
  have form := Form.bare (writes.not_mem (by decide) (by decide) (by decide)) writes
    id.volume.toNat_lt whole part
  rw [UInt32.ofNat_toNat] at form
  rwa [toList_display, List.append_assoc, List.cons_append]

theorem form_display_extended (whole : '.' ∉ id.keyCookie.toList ++ suffix)
    (part : KeyPart (id.keyCookie.toList ++ suffix) key cookie) (extension : List Char) :
    Form (id.display.toList ++ (suffix ++ '.' :: extension))
      { volume := id.volume, key, cookie } := by
  have writes := writes_volume id.volume
  have form := @Form.extended _ _ extension _ _ _
    (writes.not_mem (by decide) (by decide) (by decide)) writes id.volume.toNat_lt whole part
  rw [UInt32.ofNat_toNat, List.append_assoc] at form
  rwa [toList_display, List.append_assoc, List.cons_append]

end Suffixes

/-- A file id whose key is not zero is read back from its string form, and with a number behind an
underscore as the file id that lies so much further on, whatever extension follows. So its string
form is that of no other file id with such a key. -/
theorem shifted_display_reads_back (nonzero : id.key ≠ 0) {delta : Nat} (below : delta < 2 ^ (64 : Nat))
    (extension : String) :
    parse id.display = .ok id ∧
      parse (id.display ++ "_" ++ toString delta) = .ok (id.shift delta) ∧
      parse (id.display ++ "_" ++ toString delta ++ "." ++ extension) = .ok (id.shift delta) ∧
      ∀ other : FileId, other.key ≠ 0 → other.display = id.display → other = id := by
  have digits : (toString delta).toList = Nat.toDigits 10 delta :=
    Nat.toList_repr
  have writes := @writes_toDigits 10 (by decide) (by decide) delta
  have part := id.keyPart_shift nonzero below
  have whole : '.' ∉ id.keyCookie.toList ++ '_' :: Nat.toDigits 10 delta := by
    rw [List.mem_append, List.mem_cons, not_or, not_or]
    refine ⟨id.not_mem_keyCookie (by decide), by decide, ?_⟩
    exact writes.not_mem (by decide) (by decide) (by decide)
  refine ⟨parse_display_of_nonzero id nonzero, ?_, ?_, ?_⟩
  · apply parse_of_form
    rw [String.toList_append, String.toList_append, digits, List.append_assoc]
    exact form_display_append whole part
  · apply parse_of_form
    rw [String.toList_append, String.toList_append, String.toList_append, String.toList_append,
      digits, List.append_assoc, List.append_assoc, List.append_assoc]
    exact form_display_extended whole part extension.toList
  · intro other filled same
    have read := parse_display_of_nonzero other filled
    rw [same, parse_display_of_nonzero id nonzero] at read
    exact (Except.ok.inj read).symm

/-- The largest delta takes a key back by one, and separators in the extension do not matter. -/
theorem last_delta_reads_back :
    let id : FileId := { volume := 3, key := 0x01637037, cookie := 0xd6a1b2c3 }
    id.key ≠ 0 ∧ 2 ^ (64 : Nat) - 1 < 2 ^ (64 : Nat) ∧ parse "3,01637037d6a1b2c3" = .ok id ∧
      parse "3,01637037d6a1b2c3_18446744073709551615" = .ok { id with key := 0x01637036 } ∧
      parse "3,01637037d6a1b2c3_18446744073709551615.a_2,b.jpg" =
        .ok { id with key := 0x01637036 } := by
  intro id
  have nonzero : id.key ≠ 0 := by decide
  have below : 2 ^ (64 : Nat) - 1 < 2 ^ (64 : Nat) := by decide
  have text : id.display = "3,01637037d6a1b2c3" := by decide +kernel
  have number : toString (2 ^ (64 : Nat) - 1) = "18446744073709551615" := by decide +kernel
  have back : id.shift (2 ^ (64 : Nat) - 1) = { id with key := 0x01637036 } := by decide
  rcases shifted_display_reads_back id nonzero below "a_2,b.jpg" with ⟨bare, shifted, extended, -⟩
  rw [text, number, back] at shifted extended
  rw [text] at bare
  exact ⟨nonzero, below, bare, shifted, extended⟩

end FileId

end Haystack
