import Boutique.Db.CollectionRuns
import Boutique.Db.Leaves

namespace Boutique.Db

open Boutique.Data

/-! # Alignment

Alignments are powers of two, so the larger of two is a multiple of the other:
what is aligned for a type is aligned for every field inside it. -/

variable {type inner : FieldType} {fields : AggregateType} {path : List Nat}

theorem IsAlignment.dvd_of_le {a b : Nat} (first : IsAlignment a) (second : IsAlignment b)
    (order : a ≤ b) : a ∣ b := by
  obtain ⟨i, _, rfl⟩ := first
  obtain ⟨j, _, rfl⟩ := second
  exact Nat.pow_dvd_pow 2 ((Nat.pow_le_pow_iff_right (by decide)).mp order)

theorem le_maxAlign {field : Field} {acc : Nat} (member : field ∈ fields) :
    acc ≤ maxAlign fields acc ∧ alignOf field.type ≤ maxAlign fields acc := by
  have start : ∀ (fields : AggregateType) (acc : Nat), acc ≤ maxAlign fields acc := by
    intro fields
    induction fields with
    | nil => exact fun acc => Nat.le_refl acc
    | cons first rest ih => exact fun acc => (Nat.le_max_left acc _).trans (ih _)
  refine ⟨start fields acc, ?_⟩
  induction fields generalizing acc with
  | nil => cases member
  | cons first rest ih =>
      rw [maxAlign]
      rcases List.mem_cons.mp member with rfl | member
      · exact (Nat.le_max_right acc _).trans (start rest _)
      · exact ih member

theorem maxAlign_attained (fields : AggregateType) (acc : Nat) :
    maxAlign fields acc = acc ∨ ∃ field ∈ fields, maxAlign fields acc = alignOf field.type := by
  induction fields generalizing acc with
  | nil => exact .inl rfl
  | cons first rest ih =>
      rw [maxAlign]
      rcases ih (max acc (alignOf first.type)) with same | ⟨field, member, same⟩
      · rw [same]
        rcases Nat.le_total acc (alignOf first.type) with order | order
        · exact .inr ⟨first, by simp, Nat.max_eq_right order⟩
        · exact .inl (Nat.max_eq_left order)
      · exact .inr ⟨field, by simp [member], same⟩

/-- The alignment along a path divides that of the type it starts from. -/
theorem alignOf_at_dvd (solid : type.NoEmptyAggregate) (found : type.at path = some inner) :
    alignOf inner ∣ alignOf type := by
  induction path generalizing type with
  | nil =>
      rw [FieldType.at, Option.some.injEq] at found
      rw [found]
  | cons index path ih =>
      obtain ⟨fields, field, rfl, selected, nested⟩ := FieldType.at_cons found
      have member := List.mem_of_getElem? selected
      have fieldSolid := noEmptyAggregates_iff.mp solid.2 field member
      refine (ih fieldSolid nested).trans ?_
      apply (alignOf_isAlignment fieldSolid).dvd_of_le (alignOf_isAlignment solid)
      rw [alignOf]
      exact (le_maxAlign member).2

/-- Some leaf has the alignment of the whole. -/
theorem exists_leaf_alignOf (solid : type.NoEmptyAggregate) :
    ∃ path leaf, type.at path = some leaf ∧ leaf.isLeaf = true ∧ alignOf leaf = alignOf type := by
  induction type using FieldType.induct with
  | primitive type => exact ⟨[], _, rfl, rfl, rfl⟩
  | string capacity => exact ⟨[], _, rfl, rfl, rfl⟩
  | aggregate fields ih =>
      have positive := (alignOf_isAlignment solid).pos
      obtain ⟨nonempty, nested⟩ := solid
      rw [alignOf] at positive ⊢
      rcases maxAlign_attained fields 0 with none | ⟨field, member, same⟩
      · omega
      · obtain ⟨path, leaf, found, isLeaf, align⟩ :=
          ih field member (noEmptyAggregates_iff.mp nested field member)
        obtain ⟨index, selected⟩ := List.mem_iff_getElem?.mp member
        refine ⟨index :: path, leaf, ?_, isLeaf, align.trans same.symm⟩
        rw [FieldType.at, selected]
        exact found

theorem dvd_pad {a : Nat} (alignment : IsAlignment a) (offset : Nat) : a ∣ pad offset a := by
  obtain ⟨exponent, _, rfl⟩ := alignment
  rw [pad, ldiff_two_pow_sub_one]
  exact Nat.dvd_mul_left _ _

theorem align_dvd_fieldStart_pad (solid : NoEmptyAggregates fields) {index : Nat} {field : Field}
    (selected : fields[index]? = some field) :
    alignOf field.type ∣ fieldStart pad (shapes pad fields) index 0 := by
  refine align_dvd_fieldStart (fun shape member offset => ?_) (shapes_getElem? pad selected)
  rw [shapes_eq_map] at member
  obtain ⟨other, inside, rfl⟩ := List.mem_map.mp member
  exact dvd_pad (alignOf_isAlignment (noEmptyAggregates_iff.mp solid other inside)) offset

/-- Each padding on the way leads to a multiple of the alignment of its field,
which the alignment of what lies deeper divides. -/
theorem alignOf_dvd_place (solid : type.NoEmptyAggregate) (found : type.at path = some inner) :
    alignOf inner ∣ place type path := by
  induction path generalizing type with
  | nil =>
      have start : place type [] = 0 := by cases type <;> rfl
      rw [start]
      exact Nat.dvd_zero _
  | cons index path ih =>
      obtain ⟨fields, field, rfl, selected, nested⟩ := FieldType.at_cons found
      have fieldSolid := noEmptyAggregates_iff.mp solid.2 field (List.mem_of_getElem? selected)
      simp only [place, selected]
      exact Nat.dvd_add ((alignOf_at_dvd fieldSolid nested).trans
        (align_dvd_fieldStart_pad solid.2 selected)) (ih fieldSolid nested)

/-- Alignments are powers of two and at most the size; and what a path leads to
is aligned relative to the start of the value and lies inside it. -/
theorem aligned_inside (type : FieldType) (solid : type.NoEmptyAggregate) :
    (∃ exponent whole, alignment type = .ok (2 ^ exponent) ∧ size type = .ok whole ∧
      2 ^ exponent ≤ whole) ∧
    ∀ path inner, type.at path = some inner →
      ∃ start a width whole, absoluteOffset type path = .ok start ∧ alignment inner = .ok a ∧
        size inner = .ok width ∧ size type = .ok whole ∧ a ∣ start ∧ start + width ≤ whole := by
  constructor
  · obtain ⟨exponent, _, same⟩ := alignOf_isAlignment solid
    have small := alignOf_le_extent solid
    have aligned := alignment_eq solid
    rw [same] at small aligned
    exact ⟨exponent, _, aligned, size_eq solid, small⟩
  · intro path inner found
    have innerSolid := FieldType.at_noEmptyAggregate solid found
    exact ⟨_, _, _, _, absoluteOffset_eq solid found, alignment_eq innerSolid, size_eq innerSolid,
      size_eq solid, alignOf_dvd_place solid found, place_add_extent_le solid found⟩

/-- A nested aggregate between two bytes, with a string in it. -/
def nestedRecord : FieldType :=
  .aggregate [⟨[97], .primitive .uint8⟩,
    ⟨[98], .aggregate [⟨[99], .string 3⟩, ⟨[100], .primitive .uint16⟩]⟩,
    ⟨[101], .primitive .bool⟩]

theorem aligned_inside_nestedRecord :
    (∃ exponent whole, alignment nestedRecord = .ok (2 ^ exponent) ∧
      size nestedRecord = .ok whole ∧ 2 ^ exponent ≤ whole) ∧
    ∀ path inner, nestedRecord.at path = some inner →
      ∃ start a width whole, absoluteOffset nestedRecord path = .ok start ∧
        alignment inner = .ok a ∧ size inner = .ok width ∧ size nestedRecord = .ok whole ∧
        a ∣ start ∧ start + width ≤ whole :=
  aligned_inside nestedRecord
    (by simp [nestedRecord, FieldType.NoEmptyAggregate, NoEmptyAggregates])

/-! ## Documents in the storage -/

namespace Collection

variable {c after : Collection} {std : StdHash} {schema : Schema}

/-- `alignof(std::max_align_t)`. -/
def maxAlignT : Nat := 16

/-- Every leaf field of every document lies at a multiple of its alignment when
the storage starts at the address `base`, and so does every key that is loaded. -/
structure DocumentsAligned (c : Collection) (base : Nat) : Prop where
  leaves : ∀ index < c.count, ∀ path leaf,
    (FieldType.aggregate c.schema.fields).at path = some leaf → leaf.isLeaf = true →
      ∃ start a, absoluteOffset (.aggregate c.schema.fields) path = .ok start ∧
        alignment leaf = .ok a ∧ a ∣ base + c.storage.elemAt index + start
  keys : ∀ index < c.count, ∀ field,
    c.schema.fields[c.schema.keyFieldIndex]? = some field →
      ∃ a, alignment field.type = .ok a ∧ a ∣ base + c.storage.elemAt index + c.key.offset

/-- The size of a document is a multiple of its alignment. -/
def WholeStride (schema : Schema) : Prop :=
  ∃ a stride, alignment (.aggregate schema.fields) = .ok a ∧
    size (.aggregate schema.fields) = .ok stride ∧ a ∣ stride

/-- What the constructor computes from the schema. -/
theorem new_layout (built : Collection.new schema = .ok c) :
    (FieldType.aggregate schema.fields).NoEmptyAggregate ∧ c.schema = schema ∧
      c.docSize = extent pad (.aggregate schema.fields) ∧
      absoluteOffset (.aggregate schema.fields) [schema.keyFieldIndex] = .ok c.key.offset := by
  obtain ⟨field, found, same, leaf, _⟩ := new_spec built
  rw [Collection.new] at built
  obtain ⟨keyOffset, placed, built⟩ := bind_ok_iff.mp built
  obtain ⟨docSize, sized, built⟩ := bind_ok_iff.mp built
  have solid := noEmptyAggregate_of_size sized
  rw [size_eq solid] at sized
  cases sized
  have absolute : absoluteOffset (.aggregate schema.fields) [schema.keyFieldIndex] =
      .ok keyOffset := by
    simp [absoluteOffset, placed, ok_bind, found]
  rw [found] at built
  dsimp only at built
  cases type : field.type with
  | primitive kind | string capacity =>
      rw [type] at built
      cases built
      exact ⟨solid, same, rfl, absolute⟩
  | aggregate fields =>
      rw [type] at leaf
      cases leaf

theorem wholeStride_iff (solid : (FieldType.aggregate schema.fields).NoEmptyAggregate) :
    WholeStride schema ↔
      alignOf (.aggregate schema.fields) ∣ extent pad (.aggregate schema.fields) := by
  rw [WholeStride, alignment_eq solid, size_eq solid]
  simp

/-- Documents lie one size after another, and the key in each where the layout of
the schema has it. -/
structure LaidOut (c : Collection) : Prop where
  solid : (FieldType.aggregate c.schema.fields).NoEmptyAggregate
  position : ∀ index, c.storage.elemAt index = index * extent pad (.aggregate c.schema.fields)
  key : absoluteOffset (.aggregate c.schema.fields) [c.schema.keyFieldIndex] = .ok c.key.offset

theorem laidOut_of_run {fresh : Collection} (built : Collection.new schema = .ok fresh)
    {ops : List Op} (ran : run std fresh ops = .ok after) :
    LaidOut after ∧ after.schema = schema := by
  obtain ⟨solid, same, docSize, keyPlaced⟩ := new_layout built
  have kind := run_sameKind ran
  obtain rfl : after.schema = schema := kind.schema.trans same
  have stride := kind.docSize.trans docSize
  refine ⟨⟨solid, fun index => ?_, ?_⟩, rfl⟩
  · rw [Storage.elemAt]
    exact congrArg (index * ·) stride
  · rw [kind.key]
    exact keyPlaced

theorem alignOf_dvd_base {type : FieldType} {base : Nat} (solid : type.NoEmptyAggregate)
    (maxAligned : maxAlignT ∣ base) : alignOf type ∣ base := by
  obtain ⟨exponent, small, same⟩ := alignOf_isAlignment solid
  refine Nat.dvd_trans ?_ maxAligned
  rw [same]
  exact Nat.pow_dvd_pow (n := 4) 2 (by omega)

variable {base : Nat} {path : List Nat} {inner : FieldType}

/-- The base and the offset inside the document are aligned, so the position of
the document decides. -/
theorem LaidOut.aligned_iff (laidOut : LaidOut c) (maxAligned : maxAlignT ∣ base)
    (found : (FieldType.aggregate c.schema.fields).at path = some inner) (index : Nat) :
    alignOf inner ∣
        base + c.storage.elemAt index + place (.aggregate c.schema.fields) path ↔
      alignOf inner ∣ index * extent pad (.aggregate c.schema.fields) := by
  have innerSolid := FieldType.at_noEmptyAggregate laidOut.solid found
  rw [laidOut.position, Nat.dvd_add_left (alignOf_dvd_place laidOut.solid found),
    Nat.dvd_add_right (alignOf_dvd_base innerSolid maxAligned)]

theorem LaidOut.documentsAligned (laidOut : LaidOut c) (maxAligned : maxAlignT ∣ base)
    (divides : ∀ index < c.count, alignOf (.aggregate c.schema.fields) ∣
      index * extent pad (.aggregate c.schema.fields)) : DocumentsAligned c base := by
  have each : ∀ index < c.count, ∀ path inner,
      (FieldType.aggregate c.schema.fields).at path = some inner → alignOf inner ∣
        base + c.storage.elemAt index + place (.aggregate c.schema.fields) path := by
    intro index inside path inner found
    rw [laidOut.aligned_iff maxAligned found]
    exact (alignOf_at_dvd laidOut.solid found).trans (divides index inside)
  have aligned : ∀ path inner, (FieldType.aggregate c.schema.fields).at path = some inner →
      alignment inner = .ok (alignOf inner) :=
    fun path inner found => alignment_eq (FieldType.at_noEmptyAggregate laidOut.solid found)
  constructor
  · intro index inside path leaf found _
    exact ⟨_, _, absoluteOffset_eq laidOut.solid found, aligned path leaf found,
      each index inside path leaf found⟩
  · intro index inside field found
    have reached : (FieldType.aggregate c.schema.fields).at [c.schema.keyFieldIndex] =
        some field.type := by
      simp [FieldType.at, found]
    have offset := laidOut.key
    rw [absoluteOffset_eq laidOut.solid reached] at offset
    refine ⟨_, aligned _ _ reached, ?_⟩
    rw [← Except.ok.inj offset]
    exact each index inside _ _ reached

/-- Some leaf has the alignment of the whole, and the second document is one size
behind the first. -/
theorem LaidOut.wholeStride (laidOut : LaidOut c) (maxAligned : maxAlignT ∣ base)
    (many : 1 < c.count) (aligned : DocumentsAligned c base) : WholeStride c.schema := by
  obtain ⟨path, leaf, found, isLeaf, same⟩ := exists_leaf_alignOf laidOut.solid
  obtain ⟨start, a, placed, leafAligned, divides⟩ := aligned.leaves 1 many path leaf found isLeaf
  rw [absoluteOffset_eq laidOut.solid found] at placed
  rw [alignment_eq (FieldType.at_noEmptyAggregate laidOut.solid found)] at leafAligned
  cases placed
  cases leafAligned
  rw [laidOut.aligned_iff maxAligned found, Nat.one_mul, same] at divides
  exact (wholeStride_iff laidOut.solid).mpr divides

/-- Documents are aligned if there is but one, or the size of each is a multiple
of its alignment. -/
theorem documentsAligned_iff (schema : Schema) (fresh after : Collection) (std : StdHash)
    (built : Collection.new schema = .ok fresh) (ops : List Op)
    (ran : run std fresh ops = .ok after) (base : Nat)
    (maxAligned : maxAlignT ∣ base) :
    DocumentsAligned after base ↔ after.count ≤ 1 ∨ WholeStride schema := by
  obtain ⟨laidOut, rfl⟩ := laidOut_of_run built ran
  constructor
  · intro aligned
    by_cases few : after.count ≤ 1
    · exact .inl few
    · exact .inr (laidOut.wholeStride maxAligned (by omega) aligned)
  · intro condition
    apply laidOut.documentsAligned maxAligned
    intro index inside
    rcases condition with few | whole
    · obtain rfl : index = 0 := by omega
      simp
    · exact ((wholeStride_iff laidOut.solid).mp whole).mul_left index

theorem documentsAligned_iff_ledger :
    ∃ after, run noHash emptyLedger [.put (ledgerEntry 1 5), .put (ledgerEntry 2 6)] = .ok after ∧
      (DocumentsAligned after 4096 ↔ after.count ≤ 1 ∨ WholeStride ledgerSchema) := by
  have counted : count <$> run noHash emptyLedger
      [.put (ledgerEntry 1 5), .put (ledgerEntry 2 6)] = .ok 2 := by decide +kernel
  obtain ⟨after, ran, _⟩ := exists_of_map_ok counted
  exact ⟨after, ran, documentsAligned_iff ledgerSchema emptyLedger after noHash new_ledger _ ran
    4096 (by decide)⟩

/-- A ledger entry takes twelve bytes, so the id of the second starts four bytes
after a multiple of eight. -/
theorem ledger_misaligned :
    ∃ after, Collection.new ledgerSchema = .ok emptyLedger ∧
      run noHash emptyLedger [.put (ledgerEntry 1 5), .put (ledgerEntry 2 6)] = .ok after ∧
      maxAlignT ∣ 4096 ∧ ¬ DocumentsAligned after 4096 := by
  have counted : count <$> run noHash emptyLedger
      [.put (ledgerEntry 1 5), .put (ledgerEntry 2 6)] = .ok 2 := by decide +kernel
  obtain ⟨after, ran, count⟩ := exists_of_map_ok counted
  refine ⟨after, new_ledger, ran, by decide, fun aligned => ?_⟩
  have kind := run_sameKind ran
  obtain ⟨a, aligned, divides⟩ := aligned.keys 1 (by omega) ⟨[105, 100], .primitive .uint64⟩
    (by rw [kind.schema]; rfl)
  cases aligned
  have stride : after.storage.docSize = 12 := kind.docSize
  rw [kind.key, Storage.elemAt, stride] at divides
  revert divides
  decide

end Collection

end Boutique.Db
