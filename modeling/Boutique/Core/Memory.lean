import Boutique.Core.Fault

namespace Boutique

/-! ## Slices of a byte array -/

def slice (memory : Bytes) (offset len : Nat) : Bytes := (memory.drop offset).take len

def overwrite (memory : Bytes) (offset : Nat) (data : Bytes) : Bytes :=
  memory.take offset ++ data ++ memory.drop (offset + data.length)

variable {memory data : Bytes} {offset other len : Nat}

@[simp] theorem slice_length (inside : offset + len ≤ memory.length) :
    (slice memory offset len).length = len := by
  rw [slice, List.length_take, List.length_drop]
  omega

@[simp] theorem overwrite_length (inside : offset + data.length ≤ memory.length) :
    (overwrite memory offset data).length = memory.length := by
  rw [overwrite, List.length_append, List.length_append, List.length_take, List.length_drop]
  omega

theorem slice_overwrite_self (inside : offset + data.length ≤ memory.length) :
    slice (overwrite memory offset data) offset data.length = data := by
  have front : (memory.take offset).length = offset := List.length_take_of_le (by omega)
  rw [slice, overwrite, List.append_assoc, List.drop_append_of_le_length (by omega),
    List.drop_of_length_le (by omega), List.nil_append, List.take_left]

theorem overwrite_nil : overwrite memory offset [] = memory := by
  rw [overwrite, List.append_nil, List.length_nil, Nat.add_zero, List.take_append_drop]

/-- Writing one piece and the next behind it is writing them at once. -/
theorem overwrite_append {more : Bytes} (inside : offset + data.length ≤ memory.length) :
    overwrite (overwrite memory offset data) (offset + data.length) more =
      overwrite memory offset (data ++ more) := by
  have front : (memory.take offset ++ data).length = offset + data.length := by
    rw [List.length_append, List.length_take_of_le (by omega)]
  have gone : (memory.take offset ++ data).drop (offset + data.length + more.length) = [] :=
    List.drop_of_length_le (by omega)
  rw [overwrite, overwrite, List.take_left' front, List.drop_append, gone, front, List.drop_drop,
    Nat.add_sub_cancel_left, overwrite, List.length_append]
  simp only [List.nil_append, List.append_assoc, Nat.add_assoc]

/-- Writing leaves what lies elsewhere as it was. -/
theorem slice_overwrite_apart (inside : offset + data.length ≤ memory.length)
    (apart : other + len ≤ offset ∨ offset + data.length ≤ other) :
    slice (overwrite memory offset data) other len = slice memory other len := by
  have front : (memory.take offset).length = offset := List.length_take_of_le (by omega)
  rcases apart with before | after
  · rw [slice, slice, overwrite, List.append_assoc, List.drop_append_of_le_length (by omega),
      List.take_append_of_le_length (by rw [List.length_drop]; omega), List.drop_take,
      List.take_take, Nat.min_eq_left (by omega)]
  · obtain ⟨gap, rfl⟩ := Nat.exists_eq_add_of_le after
    have skipped : (memory.take offset ++ data).length = offset + data.length := by
      rw [List.length_append, front]
    rw [slice, slice, overwrite, List.drop_append, List.drop_of_length_le (by omega), skipped,
      Nat.add_sub_cancel_left, List.nil_append, List.drop_drop]

theorem slice_append (inside : offset + len ≤ memory.length) :
    slice (memory ++ data) offset len = slice memory offset len := by
  rw [slice, slice, List.drop_append_of_le_length (by omega),
    List.take_append_of_le_length (by rw [List.length_drop]; omega)]

theorem slice_slice {size : Nat} (inside : other + len ≤ size) :
    slice (slice memory offset size) other len = slice memory (offset + other) len := by
  rw [slice, slice, slice, List.drop_take, List.take_take, List.drop_drop,
    Nat.min_eq_left (by omega)]

theorem slice_all : slice memory 0 memory.length = memory := by
  rw [slice, List.drop_zero, List.take_length]

/-! ## Arrays of blocks -/

/-- The memory starts with `blocks`, each of `size` bytes, one behind the other. -/
structure Blocks (memory : Bytes) (size : Nat) (blocks : List Bytes) : Prop where
  room : size * blocks.length ≤ memory.length
  length_eq : ∀ block ∈ blocks, block.length = size
  content : ∀ {index : Nat} {block : Bytes}, blocks[index]? = some block →
    slice memory (size * index) size = block

namespace Blocks

variable {size index count : Nat} {blocks : List Bytes} {block : Bytes}

theorem end_le (size : Nat) (bound : index < count) : size * index + size ≤ size * count := by
  rw [← Nat.mul_succ]
  exact Nat.mul_le_mul_left size bound

theorem nil (memory : Bytes) (size : Nat) : Blocks memory size [] :=
  ⟨Nat.zero_le _, nofun, nofun⟩

theorem inside (array : Blocks memory size blocks) (bound : index < blocks.length) :
    size * index + size ≤ memory.length :=
  Nat.le_trans (end_le size bound) array.room

theorem extend (array : Blocks memory size blocks) (more : Bytes) :
    Blocks (memory ++ more) size blocks where
  room := by
    rw [List.length_append]
    exact Nat.le_trans array.room (Nat.le_add_right _ _)
  length_eq := array.length_eq
  content found := by
    rw [slice_append (array.inside (List.getElem?_eq_some_iff.mp found).1)]
    exact array.content found

/-- Writing the block behind the last one. -/
theorem append (array : Blocks memory size blocks) (length : block.length = size)
    (room : size * (blocks.length + 1) ≤ memory.length) :
    Blocks (overwrite memory (size * blocks.length) block) size (blocks ++ [block]) := by
  subst length
  have fits : block.length * blocks.length + block.length ≤ memory.length := room
  refine ⟨?_, ?_, ?_⟩
  · rw [overwrite_length fits, List.length_append]
    exact room
  · rw [List.forall_mem_append]
    exact ⟨array.length_eq, by simp⟩
  · intro index found stored
    by_cases old : index < blocks.length
    · rw [List.getElem?_append_left old] at stored
      rw [slice_overwrite_apart fits (.inl (end_le _ old))]
      exact array.content stored
    · have bound := (List.getElem?_eq_some_iff.mp stored).1
      obtain rfl : index = blocks.length := by
        rw [List.length_append, List.length_singleton] at bound
        omega
      obtain rfl : block = found := by simpa using stored
      exact slice_overwrite_self fits

/-- Writing over a block. -/
theorem set (array : Blocks memory size blocks) (bound : index < blocks.length)
    (length : block.length = size) :
    Blocks (overwrite memory (size * index) block) size (blocks.set index block) := by
  subst length
  have fits := array.inside bound
  refine ⟨?_, ?_, ?_⟩
  · rw [overwrite_length fits, List.length_set]
    exact array.room
  · intro other member
    rcases List.mem_or_eq_of_mem_set member with old | rfl
    · exact array.length_eq other old
    · rfl
  · intro position found stored
    rw [List.getElem?_set] at stored
    split at stored
    · rename_i here
      cases stored
      subst here
      exact slice_overwrite_self fits
    · rename_i elsewhere
      rw [slice_overwrite_apart fits]
      · exact array.content stored
      · rcases Nat.lt_or_gt_of_ne elsewhere with after | before
        · exact .inr (end_le _ after)
        · exact .inl (end_le _ before)

end Blocks

/-! ## Accesses through pointers -/

/-- Reads `len` bytes, as `memcpy` and `memcmp` do. -/
def readBytes (region : Region) (memory : Bytes) (offset len : Nat) : Except Fault Bytes :=
  if offset + len ≤ memory.length then .ok (slice memory offset len)
  else .error (.outOfBounds region)

def writeBytes (region : Region) (memory : Bytes) (offset : Nat) (data : Bytes) :
    Except Fault Bytes :=
  if offset + data.length ≤ memory.length then .ok (overwrite memory offset data)
  else .error (.outOfBounds region)

theorem readBytes_eq {region : Region} (inside : offset + len ≤ memory.length) :
    readBytes region memory offset len = .ok (slice memory offset len) := if_pos inside

theorem writeBytes_eq {region : Region} (inside : offset + data.length ≤ memory.length) :
    writeBytes region memory offset data = .ok (overwrite memory offset data) := if_pos inside

end Boutique
