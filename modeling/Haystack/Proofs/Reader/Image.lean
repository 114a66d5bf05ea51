import Haystack.Proofs.Chunk.Winner

/-!
# The image of a file

What a file has at a position is told by the chunk that counts there: the byte that the chunk's
contents have at the place of the position in the chunk. Where no chunk counts, and where the
contents are too short, the byte is zero.
-/

namespace Haystack.Chunk

/-- The byte at a position. -/
def byteAt (content : String → Bytes) (chunks : List Chunk) (position : Int) : UInt8 :=
  match winner? chunks position with
  | none => 0
  | some chunk => (content chunk.fileId).getD (position - chunk.offset).toNat 0

/-- When the byte at a position was modified, zero where no chunk counts. -/
def modifiedAt (chunks : List Chunk) (position : Int) : Int :=
  match winner? chunks position with
  | none => 0
  | some chunk => chunk.modified

/-- The bytes of a range. -/
def image (content : String → Bytes) (chunks : List Chunk) (start : Int) (length : Nat) : Bytes :=
  (List.range length).map fun (step : Nat) => byteAt content chunks (start + step)

/-- The newest modification in a range, zero if there is none after that. -/
def newestIn (chunks : List Chunk) (start : Int) (length : Nat) : Int :=
  ((List.range length).map fun (step : Nat) => modifiedAt chunks (start + step)).foldl max 0

variable {content : String → Bytes} {chunks : List Chunk}

@[simp] theorem length_image (content : String → Bytes) (chunks : List Chunk) (start : Int)
    (length : Nat) : (image content chunks start length).length = length := by
  simp [image]

@[simp] theorem image_zero (content : String → Bytes) (chunks : List Chunk) (start : Int) :
    image content chunks start 0 = [] := rfl

@[simp] theorem newestIn_zero (chunks : List Chunk) (start : Int) : newestIn chunks start 0 = 0 :=
  rfl

theorem image_add (content : String → Bytes) (chunks : List Chunk) (start : Int)
    (front back : Nat) :
    image content chunks start (front + back) =
      image content chunks start front ++ image content chunks (start + front) back := by
  simp only [image, List.range_add, List.map_append, List.map_map, List.append_cancel_left_eq,
    List.map_inj_left]
  intro step _
  rw [Function.comp_apply, Int.natCast_add, Int.add_assoc]

theorem foldl_max_le_iff {times : List Int} {seed limit : Int} :
    times.foldl max seed ≤ limit ↔ seed ≤ limit ∧ ∀ time ∈ times, time ≤ limit := by
  induction times generalizing seed with
  | nil => simp
  | cons time rest ih =>
      rw [List.foldl_cons, ih, List.forall_mem_cons, Int.max_le, and_assoc]

/-- The newest modification is the least bound of all modifications in the range. -/
theorem newestIn_le_iff {start limit : Int} {length : Nat} :
    newestIn chunks start length ≤ limit ↔ 0 ≤ limit ∧
      ∀ position, start ≤ position → position < start + length →
        modifiedAt chunks position ≤ limit := by
  rw [newestIn, foldl_max_le_iff]
  refine and_congr_right fun _ => ?_
  constructor
  · intro bounded position low high
    refine bounded _ (List.mem_map.mpr ⟨(position - start).toNat, ?_, ?_⟩)
    · rw [List.mem_range]
      omega
    · have same : start + (position - start) = position := by omega
      rw [Int.toNat_of_nonneg (by omega), same]
  · intro bounded time member
    obtain ⟨step, below, rfl⟩ := List.mem_map.mp member
    have := List.mem_range.mp below
    exact bounded _ (by omega) (by omega)

theorem newestIn_nonneg (chunks : List Chunk) (start : Int) (length : Nat) :
    0 ≤ newestIn chunks start length :=
  (newestIn_le_iff.mp (Int.le_refl _)).1

theorem newestIn_add (chunks : List Chunk) (start : Int) (front back : Nat) :
    newestIn chunks start (front + back) =
      max (newestIn chunks start front) (newestIn chunks (start + front) back) := by
  have whole := newestIn_le_iff.mp (Int.le_refl (newestIn chunks start (front + back)))
  apply Int.le_antisymm
  · have first := newestIn_le_iff.mp (Int.le_refl (newestIn chunks start front))
    have second := newestIn_le_iff.mp (Int.le_refl (newestIn chunks (start + front) back))
    refine newestIn_le_iff.mpr ⟨by omega, ?_⟩
    intro position low high
    by_cases early : position < start + front
    · have := first.2 position low early
      omega
    · have := second.2 position (by omega) (by omega)
      omega
  · refine Int.max_le.mpr ⟨newestIn_le_iff.mpr ⟨whole.1, ?_⟩, newestIn_le_iff.mpr ⟨whole.1, ?_⟩⟩
    · intro position low high
      exact whole.2 position low (by omega)
    · intro position low high
      exact whole.2 position (by omega) (by omega)

theorem image_of_no_winner {start : Int} {length : Nat}
    (empty : ∀ position, start ≤ position → position < start + length →
      winner? chunks position = none) :
    image content chunks start length = .zeros length := by
  rw [image, Bytes.zeros, List.eq_replicate_iff]
  refine ⟨by simp, ?_⟩
  intro byte member
  obtain ⟨step, below, rfl⟩ := List.mem_map.mp member
  have := List.mem_range.mp below
  rw [byteAt, empty _ (by omega) (by omega)]

theorem newestIn_of_no_winner {start : Int} {length : Nat}
    (empty : ∀ position, start ≤ position → position < start + length →
      winner? chunks position = none) :
    newestIn chunks start length = 0 := by
  have nonneg := newestIn_nonneg chunks start length
  have low : newestIn chunks start length ≤ 0 := by
    refine newestIn_le_iff.mpr ⟨Int.le_refl 0, ?_⟩
    intro position low high
    have zero : modifiedAt chunks position = 0 := by rw [modifiedAt, empty position low high]
    exact Int.le_of_eq zero
  omega

theorem image_of_winner {start place : Int} {length : Nat} {file : String} (inside : 0 ≤ place)
    (wins : ∀ position, start ≤ position → position < start + length →
      ∃ chunk, winner? chunks position = some chunk ∧ chunk.fileId = file ∧
        position - chunk.offset = position - start + place) :
    image content chunks start length =
      ((content file).slice place.toNat length).resize length := by
  refine List.ext_getElem (by simp) ?_
  intro step low _
  rw [length_image] at low
  obtain ⟨chunk, found, rfl, same⟩ := wins (start + step) (by omega) (by omega)
  have index : (start + step - chunk.offset).toNat = place.toNat + step := by omega
  simp only [image, byteAt, List.getElem_map, List.getElem_range, found, index]
  rw [Bytes.getElem_resize, Bytes.getD_slice low]

/-- Where chunks of one time count this is the newest modification. -/
theorem newestIn_of_winner {start modified : Int} {length : Nat} (proper : 0 < length)
    (wins : ∀ position, start ≤ position → position < start + length →
      ∃ chunk, winner? chunks position = some chunk ∧ chunk.modified = modified) :
    newestIn chunks start length = max 0 modified := by
  have at_all (position : Int) (low : start ≤ position) (high : position < start + length) :
      modifiedAt chunks position = modified := by
    obtain ⟨chunk, found, same⟩ := wins position low high
    rw [modifiedAt, found]
    exact same
  have bounds := newestIn_le_iff.mp (Int.le_refl (newestIn chunks start length))
  have first := bounds.2 start (by omega) (by omega)
  rw [at_all start (by omega) (by omega)] at first
  have low : newestIn chunks start length ≤ max 0 modified := by
    refine newestIn_le_iff.mpr ⟨by omega, ?_⟩
    intro position low high
    rw [at_all position low high]
    omega
  omega

end Haystack.Chunk
