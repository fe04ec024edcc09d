import Boutique.Core.Fault
import Mathlib.Data.Nat.Bitwise

namespace Boutique.Db

/-- The field types whose `ImplType` is an arithmetic type. -/
inductive PrimitiveType where
  | bool
  | uint8 | uint16 | uint32 | uint64
  | int8 | int16 | int32 | int64
  | float32 | float64
deriving DecidableEq, Repr

/-- `sizeof(ImplType<T>::Type)`, which on the target is `alignof` as well. -/
def PrimitiveType.implSize : PrimitiveType → Nat
  | .bool | .uint8 | .int8 => 1
  | .uint16 | .int16 => 2
  | .uint32 | .int32 | .float32 => 4
  | .uint64 | .int64 | .float64 => 8

structure FieldOf (Type_ : Type) where
  name : Bytes
  type : Type_
deriving DecidableEq, Repr

/-- The `FieldType` variant; its eleven arithmetic alternatives are grouped. -/
inductive FieldType where
  | primitive (type : PrimitiveType)
  | string (capacity : Nat)
  | aggregate (fields : List (FieldOf FieldType))

abbrev Field := FieldOf FieldType
abbrev AggregateType := List Field

structure Schema where
  fields : AggregateType := []
  keyFieldIndex : Nat := 0

/-- `sizeof(StringHeader)` and `alignof(StringHeader)`. -/
def stringHeaderSize : Nat := 4

mutual
def alignment : FieldType → Except Fault Nat
  | .primitive type => .ok type.implSize
  | .string _ => .ok stringHeaderSize
  | .aggregate fields => do
      check .emptyAggregate (!fields.isEmpty)
      maxAlignment fields 0

/-- The loop of `alignment(const AggregateType&)`. -/
def maxAlignment : AggregateType → Nat → Except Fault Nat
  | [], maxAlign => .ok maxAlign
  | field :: rest, maxAlign => do
      let a ← alignment field.type
      maxAlignment rest (max maxAlign a)
end

/-- `offset += (offset % a); offset &= ~(a - 1);` -/
def pad (offset a : Nat) : Nat := Nat.ldiff (offset + offset % a) (a - 1)

mutual
def size : FieldType → Except Fault Nat
  | .primitive type => .ok type.implSize
  | .string capacity => .ok (stringHeaderSize + capacity)
  | .aggregate fields => do
      check .emptyAggregate (!fields.isEmpty)
      let last ← offsetFrom fields (fields.length - 1) 0
      let back ← backSize fields
      return last + back

/-- The loop of `offset`, at the field `index` places before the one asked
for and with the running `offset` reached so far. -/
def offsetFrom : AggregateType → Nat → Nat → Except Fault Nat
  | [], _, _ => .error (.assertion .fieldIndex)
  | field :: _, 0, offset => do
      let a ← alignment field.type
      return pad offset a
  | field :: rest, index + 1, offset => do
      let a ← alignment field.type
      let s ← size field.type
      offsetFrom rest index (pad offset a + s)

/-- `size(agg.back().type)`. -/
def backSize : AggregateType → Except Fault Nat
  | [] => .error (.assertion .emptyAggregate)
  | [field] => size field.type
  | _ :: rest => backSize rest
end

def offset (fields : AggregateType) (fieldIndex : Nat) : Except Fault Nat := do
  check .emptyAggregate (!fields.isEmpty)
  check .fieldIndex (fieldIndex < fields.length)
  offsetFrom fields fieldIndex 0

/-- Induction over nested types: an aggregate's fields come with the claim for
each of their types. -/
theorem FieldType.induct {motive : FieldType → Prop}
    (primitive : ∀ type, motive (.primitive type)) (string : ∀ capacity, motive (.string capacity))
    (aggregate : ∀ fields, (∀ field ∈ fields, motive field.type) → motive (.aggregate fields))
    (type : FieldType) : motive type :=
  @FieldType.rec motive (fun fields => ∀ field ∈ fields, motive field.type)
    (fun field => motive field.type) primitive string aggregate (by simp)
    (fun _ _ here later => List.forall_mem_cons.mpr ⟨here, later⟩) (fun _ _ here => here) type

end Boutique.Db
