import Boutique.Data.RecordLayout
import Boutique.Db.Schema

namespace Boutique.Db

open Boutique.Data

/-! # Document layout

The layout functions of the source as plain functions of the type, and what
they say about where the fields of a document lie. -/

mutual
/-- No aggregate at any depth is empty, as `alignment` and `offset` assert. -/
def FieldType.NoEmptyAggregate : FieldType → Prop
  | .primitive _ | .string _ => True
  | .aggregate fields => fields ≠ [] ∧ NoEmptyAggregates fields

def NoEmptyAggregates : AggregateType → Prop
  | [] => True
  | field :: rest => field.type.NoEmptyAggregate ∧ NoEmptyAggregates rest
end

theorem noEmptyAggregates_iff {fields : AggregateType} :
    NoEmptyAggregates fields ↔ ∀ field ∈ fields, field.type.NoEmptyAggregate := by
  induction fields with
  | nil => simp [NoEmptyAggregates]
  | cons field rest ih => simp [NoEmptyAggregates, ih]

mutual
def alignOf : FieldType → Nat
  | .primitive type => type.implSize
  | .string _ => stringHeaderSize
  | .aggregate fields => maxAlign fields 0

def maxAlign : AggregateType → Nat → Nat
  | [], acc => acc
  | field :: rest, acc => maxAlign rest (max acc (alignOf field.type))
end

mutual
/-- The bytes a value of the type spans when fields are placed by `padding`. -/
def extent (padding : Padding) : FieldType → Nat
  | .primitive type => type.implSize
  | .string capacity => stringHeaderSize + capacity
  | .aggregate fields => recordEnd padding (shapes padding fields) 0

def shapes (padding : Padding) : AggregateType → List Shape
  | [] => []
  | field :: rest => ⟨alignOf field.type, extent padding field.type⟩ :: shapes padding rest
end

theorem shapes_eq_map (padding : Padding) (fields : AggregateType) :
    shapes padding fields =
      fields.map fun field => ⟨alignOf field.type, extent padding field.type⟩ := by
  induction fields with
  | nil => rfl
  | cons field rest ih => simp only [shapes, List.map_cons, ih]

/-! ## The source's functions return these values -/

theorem maxAlignment_eq {fields : AggregateType}
    (each : ∀ field ∈ fields, alignment field.type = .ok (alignOf field.type)) (acc : Nat) :
    maxAlignment fields acc = .ok (maxAlign fields acc) := by
  induction fields generalizing acc with
  | nil => rfl
  | cons field rest ih =>
      rw [maxAlignment, each field (by simp), maxAlign]
      exact ih (fun other member => each other (by simp [member])) _

theorem alignment_eq {type : FieldType} (solid : type.NoEmptyAggregate) :
    alignment type = .ok (alignOf type) := by
  induction type using FieldType.induct with
  | primitive | string => simp only [alignment, alignOf]
  | aggregate fields ih =>
      obtain ⟨nonempty, nested⟩ := solid
      have each := noEmptyAggregates_iff.mp nested
      have asserted : (!fields.isEmpty) = true := by simpa using nonempty
      rw [alignment, asserted, alignOf]
      exact maxAlignment_eq (fun field member => ih field member (each field member)) 0

theorem offsetFrom_eq {fields : AggregateType} (solid : NoEmptyAggregates fields)
    (sizes : ∀ field ∈ fields, size field.type = .ok (extent pad field.type)) (index offset : Nat)
    (inside : index < fields.length) :
    offsetFrom fields index offset = .ok (fieldStart pad (shapes pad fields) index offset) := by
  induction fields generalizing index offset with
  | nil => simp at inside
  | cons field rest ih =>
      obtain ⟨here, later⟩ := solid
      cases index with
      | zero =>
          rw [offsetFrom, alignment_eq here]
          rfl
      | succ index =>
          rw [offsetFrom, alignment_eq here, sizes field (by simp)]
          exact ih later (fun other member => sizes other (by simp [member])) index _
            (by simpa using inside)

theorem backSize_eq {fields : AggregateType} {field : Field}
    (back : fields[fields.length - 1]? = some field) : backSize fields = size field.type := by
  induction fields with
  | nil => simp at back
  | cons first rest ih =>
      cases rest with
      | nil =>
          cases Option.some.inj back
          rw [backSize]
      | cons second rest =>
          rw [backSize]
          · exact ih (by simpa using back)
          · simp

theorem size_eq {type : FieldType} (solid : type.NoEmptyAggregate) :
    size type = .ok (extent pad type) := by
  induction type using FieldType.induct with
  | primitive | string => simp only [size, extent]
  | aggregate fields ih =>
      obtain ⟨nonempty, nested⟩ := solid
      have each := noEmptyAggregates_iff.mp nested
      have asserted : (!fields.isEmpty) = true := by simpa using nonempty
      have positive := List.length_pos_iff.mpr nonempty
      have last : fields.length - 1 < fields.length := by omega
      have back := List.getElem?_eq_getElem last
      have sizes : ∀ field ∈ fields, size field.type = .ok (extent pad field.type) :=
        fun field member => ih field member (each field member)
      have backShape : (shapes pad fields)[fields.length - 1]? =
          some ⟨alignOf fields[fields.length - 1].type,
            extent pad fields[fields.length - 1].type⟩ := by
        rw [shapes_eq_map, List.getElem?_map, back, Option.map_some]
      have ending : recordEnd pad (shapes pad fields) 0 = _ :=
        recordEnd_eq_fieldStart_add backShape (by rw [shapes_eq_map, List.length_map]; omega)
      rw [size, asserted, offsetFrom_eq nested sizes _ 0 last, backSize_eq back,
        sizes _ (List.getElem_mem last), extent, ending]
      rfl

theorem offset_eq {fields : AggregateType} (solid : NoEmptyAggregates fields) {index : Nat}
    (inside : index < fields.length) :
    offset fields index = .ok (fieldStart pad (shapes pad fields) index 0) := by
  have nonempty : (!fields.isEmpty) = true := by
    cases fields with
    | nil => simp at inside
    | cons => rfl
  have bounded : decide (index < fields.length) = true := by simpa using inside
  rw [offset, nonempty, bounded]
  exact offsetFrom_eq solid
    (fun field member => size_eq (noEmptyAggregates_iff.mp solid field member)) index 0 inside

/-! ## They return only for types without empty aggregates -/

theorem alignments_of_maxAlignment {fields : AggregateType} {acc a : Nat}
    (returned : maxAlignment fields acc = .ok a) :
    ∀ field ∈ fields, ∃ a, alignment field.type = .ok a := by
  induction fields generalizing acc with
  | nil => exact nofun
  | cons field rest ih =>
      rw [maxAlignment] at returned
      obtain ⟨a, here, later⟩ := bind_ok_iff.mp returned
      exact List.forall_mem_cons.mpr ⟨⟨a, here⟩, ih later⟩

theorem noEmptyAggregate_of_alignment {type : FieldType} {a : Nat}
    (returned : alignment type = .ok a) : type.NoEmptyAggregate := by
  induction type using FieldType.induct generalizing a with
  | primitive | string => trivial
  | aggregate fields ih =>
      rw [alignment] at returned
      obtain ⟨_, asserted, returned⟩ := bind_ok_iff.mp returned
      refine ⟨by simpa using check_ok_iff.mp asserted, noEmptyAggregates_iff.mpr ?_⟩
      intro field member
      obtain ⟨a, here⟩ := alignments_of_maxAlignment returned field member
      exact ih field member here

theorem alignment_of_offsetFrom {fields : AggregateType} {index offset result position : Nat}
    {field : Field} (returned : offsetFrom fields index offset = .ok result)
    (found : fields[position]? = some field) (before : position ≤ index) :
    ∃ a, alignment field.type = .ok a := by
  induction fields generalizing index offset position with
  | nil => cases found
  | cons first rest ih =>
      cases index with
      | zero =>
          obtain rfl : position = 0 := by omega
          cases found
          rw [offsetFrom] at returned
          obtain ⟨a, here, _⟩ := bind_ok_iff.mp returned
          exact ⟨a, here⟩
      | succ index =>
          rw [offsetFrom] at returned
          obtain ⟨a, here, returned⟩ := bind_ok_iff.mp returned
          obtain ⟨s, _, later⟩ := bind_ok_iff.mp returned
          cases position with
          | zero =>
              cases found
              exact ⟨a, here⟩
          | succ position => exact ih later (by simpa using found) (by omega)

theorem noEmptyAggregate_of_size {type : FieldType} {s : Nat} (returned : size type = .ok s) :
    type.NoEmptyAggregate := by
  cases type with
  | primitive | string => trivial
  | aggregate fields =>
      rw [size] at returned
      obtain ⟨_, asserted, returned⟩ := bind_ok_iff.mp returned
      obtain ⟨last, offsets, _⟩ := bind_ok_iff.mp returned
      refine ⟨by simpa using check_ok_iff.mp asserted, noEmptyAggregates_iff.mpr ?_⟩
      intro field member
      obtain ⟨position, inside, rfl⟩ := List.mem_iff_getElem.mp member
      obtain ⟨a, here⟩ :=
        alignment_of_offsetFrom offsets (List.getElem?_eq_getElem inside) (by omega)
      exact noEmptyAggregate_of_alignment here

/-! ## Alignments and the padding of the source -/

/-- The alignments that occur. -/
def IsAlignment (a : Nat) : Prop := ∃ exponent ≤ 3, a = 2 ^ exponent

theorem maxAlign_isAlignment {fields : AggregateType} {acc : Nat}
    (each : ∀ field ∈ fields, IsAlignment (alignOf field.type))
    (start : IsAlignment acc ∨ acc = 0 ∧ fields ≠ []) : IsAlignment (maxAlign fields acc) := by
  induction fields generalizing acc with
  | nil =>
      rcases start with start | ⟨_, nonempty⟩
      · exact start
      · exact absurd rfl nonempty
  | cons field rest ih =>
      have here := each field (by simp)
      refine ih (fun other member => each other (by simp [member])) (Or.inl ?_)
      rcases start with start | ⟨rfl, _⟩
      · rcases Nat.le_total acc (alignOf field.type) with order | order
        · rwa [Nat.max_eq_right order]
        · rwa [Nat.max_eq_left order]
      · rwa [Nat.max_eq_right (Nat.zero_le _)]

theorem alignOf_isAlignment {type : FieldType} (solid : type.NoEmptyAggregate) :
    IsAlignment (alignOf type) := by
  induction type using FieldType.induct with
  | primitive type =>
      rw [alignOf]
      cases type <;> first
        | exact ⟨0, by decide, rfl⟩
        | exact ⟨1, by decide, rfl⟩
        | exact ⟨2, by decide, rfl⟩
        | exact ⟨3, by decide, rfl⟩
  | string capacity => exact ⟨2, by decide, by rw [alignOf]; rfl⟩
  | aggregate fields ih =>
      obtain ⟨nonempty, nested⟩ := solid
      rw [alignOf]
      exact maxAlign_isAlignment
        (fun field member => ih field member (noEmptyAggregates_iff.mp nested field member))
        (Or.inr ⟨rfl, nonempty⟩)

theorem IsAlignment.pos {a : Nat} (alignment : IsAlignment a) : 0 < a := by
  obtain ⟨exponent, _, rfl⟩ := alignment
  exact Nat.two_pow_pos exponent

/-- The padding of the source falls back when the residue is less than half
the alignment. -/
theorem pad_eq {a : Nat} (alignment : IsAlignment a) (offset : Nat) :
    pad offset a =
      if a ≤ 2 * (offset % a) then offset - offset % a + a else offset - offset % a := by
  have positive := alignment.pos
  obtain ⟨exponent, _, rfl⟩ := alignment
  rw [pad, ldiff_two_pow_sub_one, doubled_residue_div _ _ positive]

theorem pad_forward_iff {a : Nat} (alignment : IsAlignment a) (offset : Nat) :
    offset ≤ pad offset a ↔ 2 * (roundUp offset a - offset) ≤ a := by
  have low := Nat.mod_lt offset alignment.pos
  have below := Nat.mod_le offset a
  rw [pad_eq alignment, roundUp_eq offset a alignment.pos]
  split <;> split <;> omega

theorem pad_eq_roundUp {a : Nat} (alignment : IsAlignment a) (offset : Nat)
    (forward : offset ≤ pad offset a) : pad offset a = roundUp offset a := by
  have below := Nat.mod_le offset a
  rw [pad_eq alignment] at forward ⊢
  rw [roundUp_eq offset a alignment.pos]
  by_cases half : a ≤ 2 * (offset % a)
  · have positive := alignment.pos
    rw [if_pos half, if_neg (by omega)]
  · rw [if_neg half] at forward ⊢
    rw [if_pos (by omega)]
    omega

/-! ## Field ends advance -/

theorem maxAlign_le {fields : AggregateType} {acc bound : Nat}
    (each : ∀ field ∈ fields, alignOf field.type ≤ bound) (start : acc ≤ bound) :
    maxAlign fields acc ≤ bound := by
  induction fields generalizing acc with
  | nil => exact start
  | cons field rest ih =>
      exact ih (fun other member => each other (by simp [member]))
        (Nat.max_le.mpr ⟨start, each field (by simp)⟩)

/-- A field that is at least as large as its alignment ends after the fields
before it even where the padding moved it back. -/
theorem endsAdvance_of_align_le {fields : AggregateType} (solid : NoEmptyAggregates fields)
    (large : ∀ field ∈ fields, alignOf field.type ≤ extent pad field.type) :
    EndsAdvance pad (shapes pad fields) := by
  intro shape member offset
  rw [shapes_eq_map] at member
  obtain ⟨field, inside, rfl⟩ := List.mem_map.mp member
  have aligned := alignOf_isAlignment (noEmptyAggregates_iff.mp solid field inside)
  have low := Nat.mod_lt offset aligned.pos
  have below := Nat.mod_le offset (alignOf field.type)
  have enough := large field inside
  dsimp only
  rw [pad_eq aligned]
  split <;> omega

theorem alignOf_le_extent {type : FieldType} (solid : type.NoEmptyAggregate) :
    alignOf type ≤ extent pad type := by
  induction type using FieldType.induct with
  | primitive type => rw [alignOf, extent]
  | string capacity => rw [alignOf, extent]; exact Nat.le_add_right _ _
  | aggregate fields ih =>
      obtain ⟨_, nested⟩ := solid
      have large : ∀ field ∈ fields, alignOf field.type ≤ extent pad field.type :=
        fun field member => ih field member (noEmptyAggregates_iff.mp nested field member)
      rw [alignOf, extent]
      refine maxAlign_le (fun field member => ?_) (Nat.zero_le _)
      obtain ⟨index, inside, rfl⟩ := List.mem_iff_getElem.mp member
      have found : (shapes pad fields)[index]? =
          some ⟨alignOf fields[index].type, extent pad fields[index].type⟩ := by
        rw [shapes_eq_map, List.getElem?_map, List.getElem?_eq_getElem inside, Option.map_some]
      have ending : fieldStart pad (shapes pad fields) index 0 + _ ≤ _ :=
        fieldStart_add_size_le_recordEnd (endsAdvance_of_align_le nested large) found
      exact Nat.le_trans (large _ member) (Nat.le_trans (Nat.le_add_left _ _) ending)

theorem endsAdvance {fields : AggregateType} (solid : NoEmptyAggregates fields) :
    EndsAdvance pad (shapes pad fields) :=
  endsAdvance_of_align_le solid fun field member =>
    alignOf_le_extent (noEmptyAggregates_iff.mp solid field member)

end Boutique.Db
