import Boutique.Db.Schema

namespace Boutique.Protocol

open Boutique.Db

/-- The `Command` variant. A `string_view` or `ConstBuffer` is the bytes it
spans. -/
inductive Command where
  | monostate
  | registerSchema (name : Bytes) (schema : Schema)
  | createCollection (name schemaName : Bytes)
  | getSchema (name : Bytes)
  | getCollectionSchema (name : Bytes)
  | get (collName key : Bytes)
  | put (collName value : Bytes)
  | delete (collName key : Bytes)

inductive Response where
  | monostate
  | success
  | failed
  | invalidCommand
  | notFound
  | found (value : Bytes)
  | string (value : Bytes)
  | schema (schema : Schema)

/-- `std::variant::index` of a field type. -/
def primitiveIndex : PrimitiveType → Nat
  | .bool => 0
  | .uint8 => 1
  | .uint16 => 2
  | .uint32 => 3
  | .uint64 => 4
  | .int8 => 5
  | .int16 => 6
  | .int32 => 7
  | .int64 => 8
  | .float32 => 9
  | .float64 => 10

def typeIndex : FieldType → Nat
  | .primitive type => primitiveIndex type
  | .string _ => 11
  | .aggregate _ => 12

def Command.index : Command → Nat
  | .monostate => 0
  | .registerSchema _ _ => 1
  | .createCollection _ _ => 2
  | .getSchema _ => 3
  | .getCollectionSchema _ => 4
  | .get _ _ => 5
  | .put _ _ => 6
  | .delete _ _ => 7

def Response.index : Response → Nat
  | .monostate => 0
  | .success => 1
  | .failed => 2
  | .invalidCommand => 3
  | .notFound => 4
  | .found _ => 5
  | .string _ => 6
  | .schema _ => 7

end Boutique.Protocol
