import Boutique.Db.Layout

namespace Boutique.Db

open Boutique.Data

/-! # Leaf fields reached through nested aggregates

A path of field indices leads from an aggregate through its nested aggregates.
Where it ends, the offsets along it add up to the absolute offset. -/

/-- The type a path leads to. -/
def FieldType.at : FieldType → List Nat → Option FieldType
  | type, [] => some type
  | .aggregate fields, index :: path =>
      match fields[index]? with
      | some field => field.type.at path
      | none => none
  | _, _ :: _ => none

def FieldType.isLeaf : FieldType → Bool
  | .aggregate _ => false
  | _ => true

/-- The sum of `offset(agg, i)` along a path. -/
def absoluteOffset : FieldType → List Nat → Except Fault Nat
  | .aggregate fields, index :: path => do
      let o ← offset fields index
      match fields[index]? with
      | some field =>
          let rest ← absoluteOffset field.type path
          return o + rest
      | none => .error (.assertion .fieldIndex)
  | _, _ => .ok 0

/-- The value of `absoluteOffset` as a plain function. -/
def place : FieldType → List Nat → Nat
  | .aggregate fields, index :: path =>
      match fields[index]? with
      | some field => fieldStart pad (shapes pad fields) index 0 + place field.type path
      | none => 0
  | _, _ => 0

theorem FieldType.at_cons {type inner : FieldType} {index : Nat} {path : List Nat}
    (found : type.at (index :: path) = some inner) :
    ∃ fields field, type = .aggregate fields ∧ fields[index]? = some field ∧
      field.type.at path = some inner := by
  cases type with
  | primitive | string => simp [FieldType.at] at found
  | aggregate fields =>
      rw [FieldType.at] at found
      split at found
      · rename_i field selected
        exact ⟨fields, field, rfl, selected, found⟩
      · cases found

/-- What an aggregate passes on to its fields, a type passes on along paths. -/
theorem FieldType.at_inherits {motive : FieldType → Prop}
    (inherit : ∀ fields, motive (.aggregate fields) → ∀ field ∈ fields, motive field.type)
    {type inner : FieldType} {path : List Nat} (holds : motive type)
    (found : type.at path = some inner) : motive inner := by
  induction path generalizing type with
  | nil =>
      rw [FieldType.at, Option.some.injEq] at found
      exact found ▸ holds
  | cons index path ih =>
      obtain ⟨fields, field, rfl, selected, nested⟩ := FieldType.at_cons found
      exact ih (inherit fields holds field (List.mem_of_getElem? selected)) nested

theorem FieldType.at_noEmptyAggregate {type inner : FieldType} {path : List Nat}
    (solid : type.NoEmptyAggregate) (found : type.at path = some inner) :
    inner.NoEmptyAggregate :=
  FieldType.at_inherits (fun _ outer => noEmptyAggregates_iff.mp outer.2) solid found

theorem absoluteOffset_eq {type inner : FieldType} {path : List Nat}
    (solid : type.NoEmptyAggregate) (found : type.at path = some inner) :
    absoluteOffset type path = .ok (place type path) := by
  induction path generalizing type with
  | nil => cases type <;> rfl
  | cons index path ih =>
      obtain ⟨fields, field, rfl, selected, nested⟩ := FieldType.at_cons found
      have inside := (List.getElem?_eq_some_iff.mp selected).1
      have fieldSolid := noEmptyAggregates_iff.mp solid.2 field (List.mem_of_getElem? selected)
      rw [absoluteOffset, offset_eq solid.2 inside]
      simp only [selected, ih fieldSolid nested, place]
      rfl

theorem shapes_getElem? (padding : Padding) {fields : AggregateType} {index : Nat} {field : Field}
    (selected : fields[index]? = some field) :
    (shapes padding fields)[index]? = some ⟨alignOf field.type, extent padding field.type⟩ := by
  rw [shapes_eq_map, List.getElem?_map, selected, Option.map_some]

/-- Wherever a path leads, it stays inside the value it starts from. -/
theorem place_add_extent_le {type inner : FieldType} {path : List Nat}
    (solid : type.NoEmptyAggregate) (found : type.at path = some inner) :
    place type path + extent pad inner ≤ extent pad type := by
  induction path generalizing type with
  | nil =>
      rw [FieldType.at, Option.some.injEq] at found
      subst found
      have start : place type [] = 0 := by cases type <;> rfl
      omega
  | cons index path ih =>
      obtain ⟨fields, field, rfl, selected, nested⟩ := FieldType.at_cons found
      have fieldSolid := noEmptyAggregates_iff.mp solid.2 field (List.mem_of_getElem? selected)
      have inner := ih fieldSolid nested
      have outer : fieldStart pad (shapes pad fields) index 0 + extent pad field.type ≤ _ :=
        fieldStart_add_size_le_recordEnd (endsAdvance solid.2) (shapes_getElem? pad selected)
      simp only [place, selected, extent]
      omega

/-! ## When fields keep their order and do not overlap -/

mutual
/-- Laying the fields out at the next multiple of their alignment, in this
type and in every aggregate inside it, leaves no gap wider than half the
alignment of the field after it. -/
def FieldType.SmallGaps : FieldType → Prop
  | .primitive _ | .string _ => True
  | .aggregate fields => GapsAtMostHalf (shapes roundUp fields) 0 ∧ SmallGapsInside fields

def SmallGapsInside : AggregateType → Prop
  | [] => True
  | field :: rest => field.type.SmallGaps ∧ SmallGapsInside rest
end

/-- Fields keep their declared order in every aggregate a path leads to, and
no two leaf fields overlap. -/
structure LaidOutInOrder (type : FieldType) : Prop where
  ordered : ∀ path fields, type.at path = some (.aggregate fields) →
    ∀ index field, fields[index]? = some field → index + 1 < fields.length →
      ∃ start width next, offset fields index = .ok start ∧ size field.type = .ok width ∧
        offset fields (index + 1) = .ok next ∧ start + width ≤ next
  disjoint : ∀ left right leftLeaf rightLeaf,
    type.at left = some leftLeaf → leftLeaf.isLeaf → type.at right = some rightLeaf →
      rightLeaf.isLeaf → left ≠ right →
      ∃ leftStart leftWidth rightStart rightWidth,
        absoluteOffset type left = .ok leftStart ∧ size leftLeaf = .ok leftWidth ∧
        absoluteOffset type right = .ok rightStart ∧ size rightLeaf = .ok rightWidth ∧
        (leftStart + leftWidth ≤ rightStart ∨ rightStart + rightWidth ≤ leftStart)

theorem smallGapsInside_iff {fields : AggregateType} :
    SmallGapsInside fields ↔ ∀ field ∈ fields, field.type.SmallGaps := by
  induction fields with
  | nil => simp [SmallGapsInside]
  | cons field rest ih => simp [SmallGapsInside, ih]

/-- On the fields of one aggregate, the padding of the source moves forward
exactly when the gaps are small. -/
theorem forward_pad_iff {fields : AggregateType} (solid : NoEmptyAggregates fields) :
    Forward pad (shapes pad fields) 0 ↔ GapsAtMostHalf (shapes pad fields) 0 := by
  have aligned : ∀ shape ∈ shapes pad fields, IsAlignment shape.align := by
    intro shape member
    rw [shapes_eq_map] at member
    obtain ⟨field, inside, rfl⟩ := List.mem_map.mp member
    exact alignOf_isAlignment (noEmptyAggregates_iff.mp solid field inside)
  exact forward_iff_gapsAtMostHalf
    (fun shape member offset => pad_forward_iff (aligned shape member) offset)
    (fun shape member offset => pad_eq_roundUp (aligned shape member) offset)

theorem shapes_pad_eq_roundUp {fields : AggregateType}
    (each : ∀ field ∈ fields, extent pad field.type = extent roundUp field.type) :
    shapes pad fields = shapes roundUp fields := by
  rw [shapes_eq_map, shapes_eq_map]
  exact List.map_congr_left fun field member => by rw [each field member]

theorem extent_pad_eq_roundUp {type : FieldType} (solid : type.NoEmptyAggregate)
    (small : type.SmallGaps) : extent pad type = extent roundUp type := by
  induction type using FieldType.induct with
  | primitive | string => rw [extent, extent]
  | aggregate fields ih =>
      have each : ∀ field ∈ fields, extent pad field.type = extent roundUp field.type :=
        fun field member => ih field member (noEmptyAggregates_iff.mp solid.2 field member)
          (smallGapsInside_iff.mp small.2 field member)
      have same := shapes_pad_eq_roundUp each
      have forward := (forward_pad_iff solid.2).mpr (same ▸ small.1)
      rw [extent, extent, forward.recordEnd_eq_roundUp, same]
      intro shape member
      rw [shapes_eq_map] at member
      obtain ⟨field, inside, rfl⟩ := List.mem_map.mp member
      exact pad_eq_roundUp (alignOf_isAlignment (noEmptyAggregates_iff.mp solid.2 field inside))

theorem FieldType.SmallGaps.forward {fields : AggregateType}
    (solid : (FieldType.aggregate fields).NoEmptyAggregate)
    (small : (FieldType.aggregate fields).SmallGaps) : Forward pad (shapes pad fields) 0 := by
  have each : ∀ field ∈ fields, extent pad field.type = extent roundUp field.type :=
    fun field member => extent_pad_eq_roundUp (noEmptyAggregates_iff.mp solid.2 field member)
      (smallGapsInside_iff.mp small.2 field member)
  exact (forward_pad_iff solid.2).mpr (shapes_pad_eq_roundUp each ▸ small.1)

/-- The ordering half alone forces the gaps to be small, innermost aggregates
first: until a field is reached that the padding moves back, the source lays
fields out as rounding up does. -/
theorem smallGaps_of_ordered {type : FieldType} (solid : type.NoEmptyAggregate)
    (ordered : ∀ path fields, type.at path = some (.aggregate fields) →
      ∀ index field, fields[index]? = some field → index + 1 < fields.length →
        ∃ start width next, offset fields index = .ok start ∧ size field.type = .ok width ∧
          offset fields (index + 1) = .ok next ∧ start + width ≤ next) : type.SmallGaps := by
  induction type using FieldType.induct with
  | primitive | string => simp only [FieldType.SmallGaps]
  | aggregate fields ih =>
      have nested := noEmptyAggregates_iff.mp solid.2
      have each : ∀ field ∈ fields, field.type.SmallGaps := by
        intro field member
        obtain ⟨index, inside, rfl⟩ := List.mem_iff_getElem.mp member
        refine ih _ member (nested _ member) fun path inner found =>
          ordered (index :: path) inner ?_
        rw [FieldType.at, List.getElem?_eq_getElem inside]
        exact found
      have same := shapes_pad_eq_roundUp fun field member =>
        extent_pad_eq_roundUp (nested field member) (each field member)
      have forward : Forward pad (shapes pad fields) 0 := by
        refine Forward.of_neighbours (fun _ _ _ => Nat.zero_le _) ?_
        intro index shape found inside
        rw [shapes_eq_map, List.length_map] at inside
        have current : index < fields.length := by omega
        have selected := List.getElem?_eq_getElem current
        obtain ⟨start, width, next, startAt, widthIs, nextAt, order⟩ :=
          ordered [] fields rfl index _ selected inside
        rw [offset_eq solid.2 current, Except.ok.injEq] at startAt
        rw [offset_eq solid.2 inside, Except.ok.injEq] at nextAt
        rw [size_eq (nested _ (List.mem_of_getElem? selected)), Except.ok.injEq] at widthIs
        rw [shapes_getElem? pad selected, Option.some.injEq] at found
        subst startAt widthIs nextAt found
        exact order
      exact ⟨same ▸ (forward_pad_iff solid.2).mp forward, smallGapsInside_iff.mpr each⟩

theorem FieldType.SmallGaps.ordered {fields : AggregateType} {index : Nat} {field : Field}
    (solid : (FieldType.aggregate fields).NoEmptyAggregate)
    (small : (FieldType.aggregate fields).SmallGaps) (selected : fields[index]? = some field)
    (inside : index + 1 < fields.length) :
    ∃ start width next, offset fields index = .ok start ∧ size field.type = .ok width ∧
      offset fields (index + 1) = .ok next ∧ start + width ≤ next := by
  have order := (small.forward solid).ordered (shapes_getElem? pad selected)
    (Nat.lt_succ_self index) (by rwa [shapes_eq_map, List.length_map])
  exact ⟨_, _, _, offset_eq solid.2 (by omega),
    size_eq (noEmptyAggregates_iff.mp solid.2 field (List.mem_of_getElem? selected)),
    offset_eq solid.2 inside, order⟩

/-- Two paths part at some aggregate, where their fields lie apart; what each
leads to stays inside its own field. -/
theorem FieldType.SmallGaps.apart {type leftLeaf rightLeaf : FieldType} {left right : List Nat}
    (solid : type.NoEmptyAggregate) (small : type.SmallGaps)
    (leftFound : type.at left = some leftLeaf) (leftIsLeaf : leftLeaf.isLeaf)
    (rightFound : type.at right = some rightLeaf) (rightIsLeaf : rightLeaf.isLeaf)
    (different : left ≠ right) :
    place type left + extent pad leftLeaf ≤ place type right ∨
      place type right + extent pad rightLeaf ≤ place type left := by
  induction left generalizing type right with
  | nil =>
      cases right with
      | nil => exact absurd rfl different
      | cons index path =>
          obtain ⟨fields, field, rfl, _, _⟩ := FieldType.at_cons rightFound
          rw [FieldType.at, Option.some.injEq] at leftFound
          subst leftFound
          cases leftIsLeaf
  | cons i leftPath ih =>
      obtain ⟨fields, leftField, rfl, leftSelected, leftNested⟩ := FieldType.at_cons leftFound
      cases right with
      | nil =>
          rw [FieldType.at, Option.some.injEq] at rightFound
          subst rightFound
          cases rightIsLeaf
      | cons j rightPath =>
          obtain ⟨_, rightField, same, rightSelected, rightNested⟩ := FieldType.at_cons rightFound
          cases same
          have solidInside := noEmptyAggregates_iff.mp solid.2
          have leftSolid := solidInside leftField (List.mem_of_getElem? leftSelected)
          have rightSolid := solidInside rightField (List.mem_of_getElem? rightSelected)
          have leftInside := place_add_extent_le leftSolid leftNested
          have rightInside := place_add_extent_le rightSolid rightNested
          have forward := small.forward solid
          simp only [place, leftSelected, rightSelected]
          rcases Nat.lt_trichotomy i j with before | same | after
          · have order := forward.ordered (shapes_getElem? pad leftSelected) before
              (List.getElem?_eq_some_iff.mp (shapes_getElem? pad rightSelected)).1
            left; dsimp only at order; omega
          · subst same
            cases Option.some.inj (leftSelected.symm.trans rightSelected)
            have parted := ih leftSolid
              (smallGapsInside_iff.mp small.2 _ (List.mem_of_getElem? leftSelected))
              leftNested rightNested (fun same => different (by rw [same]))
            omega
          · have order := forward.ordered (shapes_getElem? pad rightSelected) after
              (List.getElem?_eq_some_iff.mp (shapes_getElem? pad leftSelected)).1
            right; dsimp only at order; omega

/-- Fields keep their order and leaves stay apart exactly when no gap is wider
than half the alignment after it. -/
theorem laidOutInOrder_iff_smallGaps {type : FieldType} (solid : type.NoEmptyAggregate) :
    LaidOutInOrder type ↔ type.SmallGaps := by
  refine ⟨fun laidOut => smallGaps_of_ordered solid laidOut.ordered, fun small => ⟨?_, ?_⟩⟩
  · intro path fields found index field selected inside
    have innerSmall := FieldType.at_inherits
      (fun _ outer => smallGapsInside_iff.mp outer.2) small found
    exact innerSmall.ordered (FieldType.at_noEmptyAggregate solid found) selected inside
  · intro left right leftLeaf rightLeaf leftFound leftIsLeaf rightFound rightIsLeaf different
    exact ⟨_, _, _, _, absoluteOffset_eq solid leftFound,
      size_eq (FieldType.at_noEmptyAggregate solid leftFound), absoluteOffset_eq solid rightFound,
      size_eq (FieldType.at_noEmptyAggregate solid rightFound),
      small.apart solid leftFound leftIsLeaf rightFound rightIsLeaf different⟩

/-- A `uint64`, a `string3` and an `int64`, as the tests of the source use. -/
theorem user_laidOutInOrder :
    LaidOutInOrder (.aggregate [⟨[105, 100], .primitive .uint64⟩,
      ⟨[110, 97, 109, 101], .string 3⟩, ⟨[98, 97, 108], .primitive .int64⟩]) :=
  (laidOutInOrder_iff_smallGaps (by simp [FieldType.NoEmptyAggregate, NoEmptyAggregates])).mpr (by
    simp [FieldType.SmallGaps, SmallGapsInside, GapsAtMostHalf, shapes, alignOf, extent, roundUp,
      PrimitiveType.implSize, stringHeaderSize])

/-- A `uint32` after a `uint8` is put at offset 0, on top of the `uint8`. -/
theorem byte_then_word_overlap :
    (FieldType.aggregate [⟨[97], .primitive .uint8⟩, ⟨[98], .primitive .uint32⟩]).NoEmptyAggregate ∧
    absoluteOffset (.aggregate [⟨[97], .primitive .uint8⟩, ⟨[98], .primitive .uint32⟩]) [0] =
      .ok 0 ∧
    absoluteOffset (.aggregate [⟨[97], .primitive .uint8⟩, ⟨[98], .primitive .uint32⟩]) [1] =
      .ok 0 ∧
    ¬ LaidOutInOrder (.aggregate [⟨[97], .primitive .uint8⟩, ⟨[98], .primitive .uint32⟩]) := by
  have second : offset [⟨[97], .primitive .uint8⟩, ⟨[98], .primitive .uint32⟩] 1 = .ok 0 := by
    decide +kernel
  refine ⟨by simp [FieldType.NoEmptyAggregate, NoEmptyAggregates], by decide +kernel,
    by decide +kernel, fun laidOut => ?_⟩
  obtain ⟨start, width, next, startAt, widthIs, nextAt, order⟩ :=
    laidOut.ordered [] _ rfl 0 _ rfl (by decide)
  rw [second, Except.ok.injEq] at nextAt
  have one : size (.primitive .uint8) = .ok 1 := by decide +kernel
  rw [one, Except.ok.injEq] at widthIs
  omega

end Boutique.Db
