import Mathlib.Data.Nat.Bitwise

namespace Boutique.Data

/-! Records laid out field after field.

A `Padding` says where a field of some alignment starts when the fields before
it end at some offset. `roundUp` is the usual one; the results here are about
any padding, and compare it with `roundUp`. -/

structure Shape where
  align : Nat
  size : Nat

abbrev Padding := Nat → Nat → Nat

/-- The next multiple of `align`. -/
def roundUp (offset align : Nat) : Nat := (offset + (align - 1)) / align * align

def fieldStart (padding : Padding) : List Shape → Nat → Nat → Nat
  | [], _, offset => offset
  | shape :: _, 0, offset => padding offset shape.align
  | shape :: rest, index + 1, offset =>
      fieldStart padding rest index (padding offset shape.align + shape.size)

def recordEnd (padding : Padding) : List Shape → Nat → Nat
  | [], offset => offset
  | shape :: rest, offset => recordEnd padding rest (padding offset shape.align + shape.size)

/-- Every field starts at or after the end of the fields before it. -/
def Forward (padding : Padding) : List Shape → Nat → Prop
  | [], _ => True
  | shape :: rest, offset =>
      offset ≤ padding offset shape.align ∧
        Forward padding rest (padding offset shape.align + shape.size)

/-- Rounding up leaves no gap wider than half the alignment after it. -/
def GapsAtMostHalf : List Shape → Nat → Prop
  | [], _ => True
  | shape :: rest, offset =>
      2 * (roundUp offset shape.align - offset) ≤ shape.align ∧
        GapsAtMostHalf rest (roundUp offset shape.align + shape.size)

/-- Fields may be moved back, but never so far that a field ends before the
previous one does. -/
def EndsAdvance (padding : Padding) (shapes : List Shape) : Prop :=
  ∀ shape ∈ shapes, ∀ offset, offset ≤ padding offset shape.align + shape.size

variable {padding : Padding} {shapes : List Shape} {shape next : Shape} {index offset : Nat}

theorem recordEnd_eq_fieldStart_add (last : shapes[index]? = some shape)
    (atEnd : index + 1 = shapes.length) :
    recordEnd padding shapes offset = fieldStart padding shapes index offset + shape.size := by
  induction shapes generalizing index offset with
  | nil => simp at atEnd
  | cons first rest ih =>
      cases index with
      | zero =>
          have alone : rest = [] := List.length_eq_zero_iff.mp (by simpa using atEnd.symm)
          subst alone
          cases Option.some.inj last
          rfl
      | succ index =>
          exact ih (by simpa using last) (by simpa using atEnd)

theorem le_recordEnd (advance : EndsAdvance padding shapes) :
    offset ≤ recordEnd padding shapes offset := by
  induction shapes generalizing offset with
  | nil => exact Nat.le_refl _
  | cons first rest ih =>
      exact Nat.le_trans (advance first (by simp) offset)
        (ih fun shape member => advance shape (by simp [member]))

theorem fieldStart_add_size_le_recordEnd (advance : EndsAdvance padding shapes)
    (found : shapes[index]? = some shape) :
    fieldStart padding shapes index offset + shape.size ≤ recordEnd padding shapes offset := by
  induction shapes generalizing index offset with
  | nil => simp at found
  | cons first rest ih =>
      have advanceRest : EndsAdvance padding rest :=
        fun shape member => advance shape (by simp [member])
      cases index with
      | zero =>
          cases Option.some.inj found
          exact le_recordEnd advanceRest
      | succ index => exact ih advanceRest (by simpa using found)

/-- Where a padding leads to multiples of the alignment, it does so for every
field. -/
theorem align_dvd_fieldStart
    (aligns : ∀ shape ∈ shapes, ∀ offset, shape.align ∣ padding offset shape.align)
    (found : shapes[index]? = some shape) :
    shape.align ∣ fieldStart padding shapes index offset := by
  induction shapes generalizing index offset with
  | nil => simp at found
  | cons first rest ih =>
      cases index with
      | zero =>
          cases Option.some.inj found
          exact aligns _ (by simp) offset
      | succ index =>
          exact ih (fun shape member => aligns shape (by simp [member])) (by simpa using found)

theorem Forward.le_fieldStart (forward : Forward padding shapes offset)
    (inside : index < shapes.length) : offset ≤ fieldStart padding shapes index offset := by
  induction shapes generalizing index offset with
  | nil => simp at inside
  | cons first rest ih =>
      obtain ⟨here, later⟩ := forward
      cases index with
      | zero => exact here
      | succ index =>
          have rest := ih later (by simpa using inside)
          exact Nat.le_trans here (Nat.le_trans (Nat.le_add_right _ _) rest)

/-- In a forward layout an earlier field ends before a later one starts. -/
theorem Forward.ordered {later : Nat} (forward : Forward padding shapes offset)
    (found : shapes[index]? = some shape) (before : index < later)
    (inside : later < shapes.length) :
    fieldStart padding shapes index offset + shape.size ≤
      fieldStart padding shapes later offset := by
  induction shapes generalizing index later offset with
  | nil => simp at found
  | cons first rest ih =>
      obtain ⟨_, forwardRest⟩ := forward
      cases later with
      | zero => omega
      | succ later =>
          cases index with
          | zero =>
              cases Option.some.inj found
              exact forwardRest.le_fieldStart (by simpa using inside)
          | succ index =>
              exact ih forwardRest (by simpa using found) (by omega) (by simpa using inside)

/-- Neighbours in order are enough: whatever starts after its neighbour's end
makes the whole layout forward. -/
theorem Forward.of_neighbours
    (start : ∀ first rest, shapes = first :: rest → offset ≤ padding offset first.align)
    (neighbours : ∀ index shape, shapes[index]? = some shape → index + 1 < shapes.length →
      fieldStart padding shapes index offset + shape.size ≤
        fieldStart padding shapes (index + 1) offset) :
    Forward padding shapes offset := by
  induction shapes generalizing offset with
  | nil => trivial
  | cons first rest ih =>
      refine ⟨start first rest rfl, ih ?_ ?_⟩
      · intro second others same
        subst same
        exact neighbours 0 first rfl (by simp)
      · intro index shape found inside
        exact neighbours (index + 1) shape (by simpa using found) (by simpa using inside)

/-- A padding that rounds up exactly when it does not move back lays a record
out forward exactly when every gap is at most half an alignment, and then as
rounding up does. -/
theorem forward_iff_gapsAtMostHalf
    (halves : ∀ shape ∈ shapes, ∀ offset, offset ≤ padding offset shape.align ↔
      2 * (roundUp offset shape.align - offset) ≤ shape.align)
    (rounds : ∀ shape ∈ shapes, ∀ offset, offset ≤ padding offset shape.align →
      padding offset shape.align = roundUp offset shape.align) :
    Forward padding shapes offset ↔ GapsAtMostHalf shapes offset := by
  induction shapes generalizing offset with
  | nil => exact Iff.rfl
  | cons first rest ih =>
      have tail : Forward padding rest (padding offset first.align + first.size) ↔ _ :=
        ih (fun shape member => halves shape (by simp [member]))
          (fun shape member => rounds shape (by simp [member]))
      have here := halves first (by simp) offset
      have same := rounds first (by simp) offset
      refine ⟨fun ⟨forward, later⟩ => ⟨here.mp forward, ?_⟩,
        fun ⟨gap, later⟩ => ⟨here.mpr gap, ?_⟩⟩
      · rw [← same forward]
        exact tail.mp later
      · rw [← same (here.mpr gap)] at later
        exact tail.mpr later

theorem Forward.recordEnd_eq_roundUp (forward : Forward padding shapes offset)
    (rounds : ∀ shape ∈ shapes, ∀ offset, offset ≤ padding offset shape.align →
      padding offset shape.align = roundUp offset shape.align) :
    recordEnd padding shapes offset = recordEnd roundUp shapes offset := by
  induction shapes generalizing offset with
  | nil => rfl
  | cons first rest ih =>
      obtain ⟨here, later⟩ := forward
      have same := rounds first (by simp) offset here
      simp only [recordEnd]
      rw [ih later fun shape member => rounds shape (by simp [member]), same]

/-- Clearing the low bits rounds down to a power of two. -/
theorem ldiff_two_pow_sub_one (value exponent : Nat) :
    Nat.ldiff value (2 ^ exponent - 1) = value / 2 ^ exponent * 2 ^ exponent := by
  apply Nat.eq_of_testBit_eq
  intro bit
  rw [Nat.testBit_ldiff, Nat.testBit_two_pow_sub_one, Nat.testBit_mul_two_pow,
    Nat.testBit_div_two_pow]
  by_cases low : bit < exponent
  · simp [low, Nat.not_le.mpr low]
  · simp [low, Nat.not_lt.mp low]

/-- Doubling the residue before rounding down reaches the next multiple when
the residue is at least half of it, and falls back otherwise. -/
theorem doubled_residue_div (offset align : Nat) (positive : 0 < align) :
    (offset + offset % align) / align * align =
      if align ≤ 2 * (offset % align) then offset - offset % align + align
      else offset - offset % align := by
  have split := Nat.div_add_mod offset align
  have low := Nat.mod_lt offset positive
  have whole : offset - offset % align = offset / align * align := by
    rw [Nat.mul_comm]; omega
  have sum : offset + offset % align = 2 * (offset % align) + align * (offset / align) := by omega
  rw [whole, sum, Nat.add_mul_div_left _ _ positive, Nat.add_mul]
  split
  · have once : 2 * (offset % align) / align = 1 := by
      rw [Nat.div_eq_iff positive]
      omega
    rw [once, Nat.one_mul, Nat.add_comm]
  · have none : 2 * (offset % align) / align = 0 := Nat.div_eq_of_lt (by omega)
    rw [none, Nat.zero_mul, Nat.zero_add]

theorem roundUp_eq (offset align : Nat) (positive : 0 < align) :
    roundUp offset align =
      if offset % align = 0 then offset else offset - offset % align + align := by
  have split := Nat.div_add_mod offset align
  have low := Nat.mod_lt offset positive
  have whole : offset - offset % align = offset / align * align := by
    rw [Nat.mul_comm]; omega
  have sum : offset + (align - 1) = offset % align + (align - 1) + align * (offset / align) := by
    omega
  rw [roundUp, sum, Nat.add_mul_div_left _ _ positive, Nat.add_mul]
  split
  · rename_i aligned
    have none : (offset % align + (align - 1)) / align = 0 := Nat.div_eq_of_lt (by omega)
    rw [none, Nat.zero_mul, Nat.zero_add]
    omega
  · have once : (offset % align + (align - 1)) / align = 1 := by
      rw [Nat.div_eq_iff positive]
      omega
    rw [once, Nat.one_mul, whole, Nat.add_comm]

end Boutique.Data
