import Haystack.Proofs.Volume.InUse

/-!
# The super block of a volume

What is written of a super block is read back from a byte string that begins with it and from
nothing shorter, and also from a volume that was started with it, whatever became of the volume.
-/

namespace Haystack

open SuperBlock (fixedLength)

variable {block : SuperBlock} {bytes : Bytes}

namespace SuperBlock

/-- The super block as it is read: with a placement and a lifetime in any case, and with the
extension in the versions that have one. -/
def readBack (block : SuperBlock) : SuperBlock :=
  { version := block.version
    placement := some (block.placement.getD {})
    ttl := some (block.ttl.getD .forever)
    revision := block.revision
    extension := if block.version.hasFields then block.extension else none
    extensionLength := UInt16.ofNat block.writtenLength }

theorem normal_eq_readBack (valid : ∀ placement, block.placement = some placement → placement.IsValid) :
    block.normal = block.readBack := by
  have placement : ReplicaPlacement.spelled block.placementByte = block.placement.getD {} := by
    unfold placementByte
    cases known : block.placement with
    | none => decide
    | some placement => exact ReplicaPlacement.spelled_toByte (valid placement known)
  rw [normal, readBack, placement, writtenExtension]

theorem toNat_extensionLength_readBack (written : block.toBytes = .ok bytes) :
    block.readBack.extensionLength.toNat = block.writtenLength := by
  obtain ⟨text, -, length, short, -⟩ := toBytes_eq_ok written
  have range : block.writtenLength < 2 ^ 16 := by
    rw [← length]
    unfold Extension.maxLength at short
    omega
  rw [readBack, UInt16.toNat_ofNat', Nat.mod_eq_of_lt range]

end SuperBlock

namespace Volume

variable {id : VolumeId} {data index : File}

theorem entitled_of_new (reliable : data.Reliable) (indexed : index.Reliable)
    (empty : data.contents = []) (written : block.toBytes = .ok bytes) (id : VolumeId) :
    (opened id block (data.extended (bytes.resize (alignedLength bytes.length))) index).Entitled
      block.normal :=
  ⟨(ready_of_new reliable indexed empty written).sturdy, readSuperBlock_of_new empty written, rfl⟩

theorem Entitled.load_mended {volume : Volume} {stored : SuperBlock}
    (entitled : volume.Entitled stored) (other : SuperBlock) :
    load volume.id volume.data.mended volume.index.mended other =
      (.ok (opened volume.id stored volume.data.mended volume.index.mended),
        volume.data.mended) :=
  load_of_nonempty volume.data.reliable_mended entitled.sturdy.ready.nonempty entitled.read _ _ _

end Volume

/-- A super block that can be written is read back from what is written, whatever follows, and not
from a part of it, and a volume started with it is opened again with what is read back. -/
theorem SuperBlock.written_block_is_read
    (valid : ∀ placement, block.placement = some placement → placement.IsValid)
    (written : block.toBytes = .ok bytes) :
    (∀ rest, parse (bytes ++ rest) = .ok block.readBack) ∧
      block.readBack.extensionLength.toNat =
        ((if block.version.hasFields then block.extension else none).map
          fun extension => extension.toJson.length).getD 0 ∧
      block.readBack.length = bytes.length ∧
      (∀ count < bytes.length, parse (bytes.take count) =
        .error (.sizeMismatch .superBlock count
          (if count < fixedLength then fixedLength else bytes.length : Nat))) ∧
      (∀ (id : VolumeId) (data index : File), data.Reliable → index.Reliable →
        data.contents = [] → ∃ volume after,
          Volume.load id data index block = (.ok volume, after) ∧ volume.superBlock = block ∧
          ∀ later, volume.Later later → ∀ other, ∃ again,
            Volume.load later.id later.data.mended later.index.mended other =
              (.ok again, later.data.mended) ∧ again.superBlock = block.readBack) ∧
      ∀ extension : Extension, Extension.decode extension.toJson = .ok extension := by
  have same := normal_eq_readBack valid
  refine ⟨?_, ?_, ?_, ?_, ?_, Extension.decode_toJson⟩
  · intro rest
    rw [parse_toBytes written, same]
  · rw [toNat_extensionLength_readBack written, writtenLength, writtenExtension]
  · rw [← same, length_normal written]
  · intro count cut
    exact parse_take written cut
  · intro id data index reliable indexed empty
    refine ⟨_, _, Volume.load_of_empty reliable empty written id index, rfl, ?_⟩
    intro later becomes other
    have entitled := becomes.entitled (Volume.entitled_of_new reliable indexed empty written id)
    exact ⟨_, entitled.load_mended other, same⟩

/-- A block without a lifetime, with an extension for two volumes dealt out over shards, and a
volume started with it. -/
theorem SuperBlock.block_of_shards_is_read :
    let coding : ErasureCoding := { dataShards := 10, parityShards := 4, volumeIds := [1, 2] }
    let extension : Extension := { erasureCoding := some coding }
    let block : SuperBlock :=
      { version := .v2, placement := some { sameRack := 1 }, extension := some extension }
    let bytes := block.fixedBytes extension.toJson.length ++ extension.toJson
    block.toBytes = .ok bytes ∧ parse (bytes ++ [0, 0]) = .ok block.readBack ∧
      block.readBack.length = bytes.length ∧
      parse (bytes.take 9) = .error (.sizeMismatch .superBlock 9 (bytes.length : Nat)) ∧
      ∃ volume after, Volume.load 3 {} {} block = (.ok volume, after) ∧
        ∃ again, Volume.load volume.id volume.data.mended volume.index.mended {} =
          (.ok again, volume.data.mended) ∧ again.superBlock = block.readBack := by
  intro coding extension block bytes
  have length : extension.toJson.length = 74 := by decide +kernel
  have written : block.toBytes = .ok bytes := by
    have fits : ¬ Extension.maxLength < extension.toJson.length := by
      rw [length]
      decide
    unfold SuperBlock.toBytes SuperBlock.writtenExtension Extension.encode
    simp only [block, Version.hasFields, if_true, if_neg fits]
    rfl
  have valid : ∀ placement, block.placement = some placement → placement.IsValid := by
    rintro _ ⟨⟩
    decide
  have long : 9 < bytes.length := by
    rw [List.length_append, length_fixedBytes, length]
    decide
  obtain ⟨whole, -, same, cut, opens, -⟩ := written_block_is_read valid written
  obtain ⟨volume, after, loaded, -, again⟩ := opens 3 {} {} rfl rfl rfl
  exact ⟨written, whole [0, 0], same, cut 9 long, volume, after, loaded, again volume .same {}⟩

end Haystack
