import Haystack.Proofs.SuperBlock.ReadBack
import Haystack.Proofs.Volume.Requests

/-!
# Opening volumes

A volume is opened with the map that its whole index gives. If the data file is empty it is started
with the super block given; otherwise the super block is read from its start, where it stays
whatever is appended.
-/

namespace Haystack

theorem Walk.visited_replayed (index : File) :
    Volume.replayed index = Entry.listOfBytes index.contents := by
  rw [Volume.replayed, run_zero, visited_of_unchecked]

theorem SuperBlock.fixedLength_le_of_toBytes {block : SuperBlock} {bytes : Bytes}
    (written : block.toBytes = .ok bytes) : fixedLength ≤ bytes.length := by
  obtain ⟨text, rfl, -, -, -⟩ := toBytes_eq_ok written
  simp

namespace Volume

/-- The volume over two files as they are, with a super block. -/
def opened (id : VolumeId) (block : SuperBlock) (data index : File) : Volume :=
  { id, superBlock := block, data, index, live := .ofEntries (Entry.listOfBytes index.contents) }

variable {volume again : Volume} {id : VolumeId} {data index after : File} {block stored : SuperBlock}
  {bytes : Bytes}

/-- The index holds whole entries, and the map of live needles is what they give. -/
structure Indexed (volume : Volume) : Prop where
  whole : volume.index.contents.length % Entry.width = 0
  live : volume.live = .ofEntries (Entry.listOfBytes volume.index.contents)

theorem Indexed.logged (indexed : volume.Indexed) (bytes : Bytes) (entry : Entry)
    (stamp : UInt64) : (volume.logged bytes entry stamp).Indexed := by
  constructor
  · simp only [Volume.logged, File.contents_extended, List.length_append, Entry.length_toBytes]
    rw [Nat.add_mod_right]
    exact indexed.whole
  · simp only [Volume.logged, File.contents_extended]
    rw [Entry.listOfBytes_concat indexed.whole, LiveMap.ofEntries_concat, ← indexed.live]

theorem read_congr (id : again.id = volume.id) (version : again.version = volume.version)
    (data : again.data = volume.data) (live : again.live = volume.live) (needle : NeedleId)
    (cookie : Cookie) : again.read needle cookie = volume.read needle cookie := by
  unfold read find?
  rw [id, version, data, live]

theorem resize_alignedLength (bytes : Bytes) :
    bytes.resize (alignedLength bytes.length) =
      bytes ++ Bytes.zeros (alignedLength bytes.length - bytes.length) := by
  have enough : bytes.length ≤ alignedLength bytes.length := by
    simp only [alignedLength, StoredOffset.unit]
    omega
  rw [Bytes.resize, List.take_of_length_le enough]

theorem alignedLength_mod_unit (length : Nat) : alignedLength length % StoredOffset.unit = 0 :=
  Nat.mul_mod_left _ _

/-- Reading a super block: the fixed fields first, and then all of it if they announce an extension. -/
theorem readSuperBlock_eq {version : Version} (start : data.readExact SuperBlock.fixedLength 0 = .ok bytes)
    (known : Version.ofByte (UInt8.ofNat (bytes.wordAt 0 1)) = .ok version) :
    readSuperBlock data =
      if !version.hasFields || bytes.wordAt 6 2 == 0 then SuperBlock.parse bytes
      else data.readExact (SuperBlock.fixedLength + bytes.wordAt 6 2) 0 >>= SuperBlock.parse := by
  unfold readSuperBlock
  simp only [bind, Except.bind, start, known]

theorem readSuperBlock_cases (read : readSuperBlock data = .ok stored) :
    ∃ bytes version, data.readExact SuperBlock.fixedLength 0 = .ok bytes ∧
      Version.ofByte (UInt8.ofNat (bytes.wordAt 0 1)) = .ok version := by
  unfold readSuperBlock at read
  cases start : data.readExact SuperBlock.fixedLength 0 with
  | error problem => simp [start, bind, Except.bind] at read
  | ok bytes =>
      cases known : Version.ofByte (UInt8.ofNat (bytes.wordAt 0 1)) with
      | error problem => simp [start, known, bind, Except.bind] at read
      | ok version => exact ⟨bytes, version, rfl, known⟩

theorem fixedLength_le_of_readSuperBlock (read : readSuperBlock data = .ok stored) :
    SuperBlock.fixedLength ≤ data.contents.length := by
  obtain ⟨bytes, version, start, -⟩ := readSuperBlock_cases read
  unfold File.readExact File.read at start
  dsimp only at start
  split at start
  · contradiction
  · rename_i enough
    rw [Bytes.length_slice] at enough
    omega

/-- What was read of a super block is read again once the file is longer. -/
theorem readSuperBlock_extended (read : readSuperBlock data = .ok stored) (more : Bytes) :
    readSuperBlock (data.extended more) = .ok stored := by
  obtain ⟨bytes, version, start, known⟩ := readSuperBlock_cases read
  rw [readSuperBlock_eq start known] at read
  rw [readSuperBlock_eq (File.readExact_extended start more) known]
  by_cases short : (!version.hasFields || bytes.wordAt 6 2 == 0) = true
  · rw [if_pos short] at read ⊢
    exact read
  · rw [if_neg short] at read ⊢
    cases whole : data.readExact (SuperBlock.fixedLength + bytes.wordAt 6 2) 0 with
    | error problem =>
        rw [whole] at read
        contradiction
    | ok all =>
        rw [whole] at read
        rw [File.readExact_extended whole more]
        exact read

/-- A super block at the start of a file is read in its normal form. -/
theorem readSuperBlock_stored (written : block.toBytes = .ok bytes) {rest : Bytes}
    (stands : data.contents = bytes ++ rest) : readSuperBlock data = .ok block.normal := by
  have parsed := SuperBlock.parse_toBytes written []
  rw [List.append_nil] at parsed
  have whole := @File.readExact_of_stands data [] bytes rest stands
  obtain ⟨text, rfl, length, short, -⟩ := SuperBlock.toBytes_eq_ok written
  have start := @File.readExact_of_stands data [] (block.fixedBytes text.length) (text ++ rest)
    (by rw [stands, List.nil_append, List.append_assoc])
  have extension := SuperBlock.wordAt_fixedBytes_extension block short []
  rw [List.append_nil] at extension
  rw [SuperBlock.length_fixedBytes] at start
  rw [List.length_append, SuperBlock.length_fixedBytes] at whole
  rw [readSuperBlock_eq start (block.version_fixedBytes _), extension]
  split
  · rename_i none
    have empty : text = [] := by
      rw [Bool.or_eq_true, Bool.not_eq_true', beq_iff_eq] at none
      obtain fields | zero := none
      · rw [SuperBlock.writtenLength_of_noFields fields] at length
        exact List.eq_nil_of_length_eq_zero length
      · exact List.eq_nil_of_length_eq_zero zero
    rw [empty, List.append_nil] at parsed
    rw [empty]
    exact parsed
  · rw [List.length_nil] at whole
    rw [whole]
    exact parsed

theorem loadSuperBlock_of_empty (reliable : data.Reliable) (empty : data.contents = [])
    (block : SuperBlock) :
    loadSuperBlock data block =
      match block.toBytes with
      | .error problem => (.error problem, data)
      | .ok bytes => (.ok block, data.extended (bytes.resize (alignedLength bytes.length))) := by
  have written (bytes : Bytes) : data.write bytes 0 = (.ok bytes.length, data.extended bytes) := by
    have atEnd := File.write_at_end reliable bytes
    rwa [empty] at atEnd
  unfold loadSuperBlock
  rw [File.stat_of_reliable reliable, empty]
  dsimp only [List.length_nil]
  cases block.toBytes with
  | error problem => rfl
  | ok bytes =>
      dsimp only
      rw [written]
      rfl

theorem loadSuperBlock_of_nonempty (reliable : data.Reliable) (nonempty : data.contents ≠ [])
    (block : SuperBlock) : loadSuperBlock data block = (readSuperBlock data, data) := by
  obtain ⟨byte, rest, contents⟩ := List.exists_cons_of_ne_nil nonempty
  unfold loadSuperBlock
  rw [File.stat_of_reliable reliable, contents]
  rfl

theorem load_of_nonempty (reliable : data.Reliable) (nonempty : data.contents ≠ [])
    (read : readSuperBlock data = .ok stored) (id : VolumeId) (index : File) (block : SuperBlock) :
    load id data index block = (.ok (opened id stored data index), data) := by
  unfold load
  rw [loadSuperBlock_of_nonempty reliable nonempty, read, Walk.visited_replayed]
  rfl

section

variable (reliable : data.Reliable) (indexed : index.Reliable) (empty : data.contents = [])
  (written : block.toBytes = .ok bytes)

include empty written

theorem readSuperBlock_of_new :
    readSuperBlock (data.extended (bytes.resize (alignedLength bytes.length))) =
      .ok block.normal := by
  apply readSuperBlock_stored written
  rw [File.contents_extended, empty, List.nil_append, resize_alignedLength]

include reliable

theorem load_of_empty (id : VolumeId) (index : File) :
    load id data index block =
      (.ok (opened id block (data.extended (bytes.resize (alignedLength bytes.length))) index),
        data.extended (bytes.resize (alignedLength bytes.length))) := by
  unfold load
  rw [loadSuperBlock_of_empty reliable empty, written, Walk.visited_replayed]
  rfl

include indexed

/-- A volume that was empty can take records. -/
theorem ready_of_new :
    (opened id block (data.extended (bytes.resize (alignedLength bytes.length))) index).Ready := by
  have enough := SuperBlock.fixedLength_le_of_toBytes written
  have length : (data.extended (bytes.resize (alignedLength bytes.length))).contents.length =
      alignedLength bytes.length := by
    rw [File.contents_extended, empty, List.nil_append, Bytes.length_resize]
  constructor
  · exact reliable.extended _
  · exact indexed
  · rw [opened, length]
    exact alignedLength_mod_unit _
  · rw [opened, length]
    simp only [alignedLength, StoredOffset.unit, SuperBlock.fixedLength] at enough ⊢
    omega

end

/-- There are two ways to open a volume: with the super block given, if the data file was empty, and
with the one that is read. -/
theorem load_cases (reliable : data.Reliable)
    (loaded : load id data index block = (.ok volume, after)) :
    (data.contents = [] ∧ ∃ bytes, block.toBytes = .ok bytes ∧
        after = data.extended (bytes.resize (alignedLength bytes.length)) ∧
        volume = opened id block after index) ∨
      after = data ∧ ∃ stored, readSuperBlock data = .ok stored ∧
        volume = opened id stored data index := by
  by_cases empty : data.contents = []
  · cases written : block.toBytes with
    | error problem =>
        unfold load at loaded
        simp [loadSuperBlock_of_empty reliable empty, written] at loaded
    | ok bytes =>
        rw [load_of_empty reliable empty written] at loaded
        simp only [Prod.mk.injEq, Except.ok.injEq] at loaded
        obtain ⟨rfl, rfl⟩ := loaded
        exact .inl ⟨empty, bytes, rfl, rfl, rfl⟩
  · cases read : readSuperBlock data with
    | error problem =>
        unfold load at loaded
        simp [loadSuperBlock_of_nonempty reliable empty, read] at loaded
    | ok stored =>
        rw [load_of_nonempty reliable empty read] at loaded
        simp only [Prod.mk.injEq, Except.ok.injEq] at loaded
        obtain ⟨rfl, rfl⟩ := loaded
        exact .inr ⟨rfl, stored, rfl, rfl⟩

end Volume

end Haystack
