import Haystack.Needle.Update
import Haystack.Proofs.Needle.Pairs
import Haystack.Proofs.Needle.RoundTrip

/-!
# Metadata of a needle

Metadata is given to a needle in place. Either its text is too long and the needle stays what it
was, or the needle carries the map from there on: as it stands, and after it was stored together
with data by a version that has fields.
-/

namespace Haystack

theorem Flags.has_set (flags : Flags) (flag : Flag) : (flags.set flag).has flag = true := by
  have kept : (flags.bits ||| flag.mask) &&& flag.mask = flag.mask := by
    apply UInt8.eq_of_toBitVec_eq
    ext position inside
    rw [UInt8.toBitVec_and, UInt8.toBitVec_or, BitVec.getElem_and, BitVec.getElem_or,
      Bool.and_eq_right_iff_imp]
    intro marked
    rw [marked, Bool.or_true]
  rw [has, set, kept]
  cases flag <;> rfl

namespace Needle

variable {needle : Needle} {map : Pairs}

/-- A needle can be encoded exactly if its type, its metadata, its data and its body are short
enough. Its name is cut. -/
theorem encode_isOk_iff (needle : Needle) (version : Version) :
    (∃ done, needle.encode version = .ok done) ↔
      needle.mime.length ≤ maxMimeLength ∧ needle.pairs.length ≤ maxPairsLength ∧
        needle.data.length ≤ maxBodyLength ∧
        (needle.trimmed.body version).length ≤ maxBodyLength := by
  constructor
  · rintro ⟨done, encoded⟩
    obtain ⟨fits, short, -⟩ := encode_eq_ok_iff.mp encoded
    exact ⟨fits.mime, fits.pairs, fits.data, short⟩
  · rintro ⟨mime, pairs, data, short⟩
    have name : needle.trimmed.name.length ≤ maxNameLength := by
      simp only [trimmed, List.length_take]
      exact Nat.min_le_left _ _
    exact ⟨_, encode_eq_ok_iff.mpr ⟨⟨name, mime, pairs, data⟩, short, rfl⟩⟩

/-- A needle carries a map: it is marked, its text is short enough to be counted and keeps it from
being encoded by no length of its own, and the map is read from the needle as it stands and from
every record that holds the needle with its data. -/
structure Carries (needle : Needle) (map : Pairs) : Prop where
  marked : needle.has .pairs = true
  short : needle.pairs.length ≤ 65535
  read : needle.pairsMap = .ok map
  encodes : ∀ version, (∃ done, needle.encode version = .ok done) ↔
    needle.mime.length ≤ maxMimeLength ∧ needle.data.length ≤ maxBodyLength ∧
      (needle.trimmed.body version).length ≤ maxBodyLength
  stored : ∀ version, version = .v2 ∨ version = .v3 → needle.data ≠ [] →
    ∀ done, needle.encode version = .ok done → ∀ rest,
      ∃ back, decode (done.bytes ++ rest) version = .ok back ∧ back.pairsMap = .ok map

theorem pairsMap_of_text (text : needle.pairs = map.toJson) (rising : map.Rising) :
    needle.pairsMap = .ok map := by
  have full : map.toJson.isEmpty = false := rfl
  rw [pairsMap, text, full]
  exact rising.decode_toJson

theorem pairs_stored {version : Version} (marked : needle.has .pairs = true)
    (fields : version.hasFields = true) (full : needle.data ≠ []) :
    (needle.stored version).pairs = needle.pairs := by
  have flags : needle.storedFlags version = needle.flags := by
    rw [storedFlags, fields, List.isEmpty_eq_false_iff.mpr full]
    rfl
  simp only [Needle.stored, flags]
  exact if_pos marked

/-- A marked needle with the short text of a map carries the map. -/
theorem carries_of_pairs (marked : needle.has .pairs = true) (text : needle.pairs = map.toJson)
    (rising : map.Rising) (short : map.toJson.length ≤ 65535) : needle.Carries map := by
  have short : needle.pairs.length ≤ 65535 := text ▸ short
  refine ⟨marked, short, pairsMap_of_text text rising, ?_, ?_⟩
  · intro version
    have counted : needle.pairs.length ≤ maxPairsLength := short
    rw [encode_isOk_iff, and_iff_right counted]
  · intro version later full done encoded rest
    have fields : version.hasFields = true := by
      rcases later with rfl | rfl <;> rfl
    obtain ⟨fits, small, rfl⟩ := encode_eq_ok_iff.mp encoded
    have back := decode_sized fits small
      (Bytes.zeros (Record.paddingLength version (needle.trimmed.body version).length) ++ rest)
    have kept := (pairs_stored marked fields full).trans text
    refine ⟨needle.stored version, ?_, pairsMap_of_text kept rising⟩
    simp only [record, List.append_assoc]
    exact back

/-- Giving a needle a map of pairs either fails, because its text is longer than can be counted, and
leaves the needle as it was, or changes the metadata and its mark alone, and the needle carries the
map that the pairs are kept as. -/
theorem setPairs_keeps_map {pairs : Pairs} (full : pairs ≠ []) (rising : pairs.Rising)
    (needle : Needle) :
    ∃ kept, pairs.KeptAs kept ∧
      ((setPairs pairs).run.run needle =
          (.error (.fieldTooLarge .pairs kept.toJson.length 65535), needle) ∧
          65535 < kept.toJson.length ∨
        ∃ marked, (setPairs pairs).run.run needle = (.ok (), marked) ∧
          marked = { needle with pairs := marked.pairs, flags := needle.flags.set .pairs } ∧
          marked.Carries kept) := by
  have kept := rising.keptAs_stored
  refine ⟨pairs.stored, kept, ?_⟩
  rw [setPairs_eq_withPairs, withPairs, List.isEmpty_eq_false_iff.mpr full]
  by_cases long : maxPairsLength < pairs.stored.toJson.length
  · left
    simp only [long, if_true, Bool.false_eq_true, if_false]
    exact ⟨rfl, long⟩
  · right
    simp only [long, Bool.false_eq_true, if_false]
    refine ⟨_, rfl, rfl, ?_⟩
    exact carries_of_pairs (Flags.has_set _ _) rfl kept.rising (Nat.le_of_not_lt long)

/-- Of two names that become one the value of the greater is kept; quotes, backslashes and control
characters come back. -/
theorem colliding_names_keep_greater :
    let pairs : Pairs := [("\x01", "a\\b"), ("\"", "old"), ("Seaweed-\"", "new")]
    let needle : Needle := { data := [1] }
    pairs ≠ [] ∧ pairs.Rising ∧
      ∃ marked, (setPairs pairs).run.run needle = (.ok (), marked) ∧
        marked.Carries [("\x01", "a\\b"), ("\"", "new")] := by
  intro pairs needle
  have full : pairs ≠ [] := by decide
  have rising : pairs.Rising := by decide +kernel
  have short : ((setPairs pairs).run.run needle).1.isOk = true := by decide +kernel
  have read : ((setPairs pairs).run.run needle).2.pairsMap =
      .ok [("\x01", "a\\b"), ("\"", "new")] := by
    decide +kernel
  obtain ⟨kept, -, outcome⟩ := setPairs_keeps_map full rising needle
  rcases outcome with ⟨failed, -⟩ | ⟨marked, done, -, carries⟩
  · rw [failed] at short
    contradiction
  · rw [done, carries.read, Except.ok.injEq] at read
    exact ⟨full, rising, marked, done, read ▸ carries⟩

end Needle

end Haystack
