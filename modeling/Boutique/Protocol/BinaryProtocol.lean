import Boutique.Core.Serialize
import Boutique.Protocol.Messages

namespace Boutique.Protocol

open Boutique.Core Boutique.Db

/-! The readers and writers of `protocol/binary_protocol`.

A reader takes its cursor and its output parameter and returns the result with
both as it leaves them. -/

inductive ReadResult where
  | success
  | incomplete
  | invalid
deriving DecidableEq, Repr

/-! ## Writers -/

mutual
/-- The loop over the fields of an aggregate. -/
def writeFields : AggregateType → Bytes
  | [] => []
  | field :: rest =>
      writeLengthPrefixedString field.name ++ write 1 (typeIndex field.type) ++
        writeTypeDetail field.type ++ writeFields rest

/-- What the visitor writes after a field's type index; for an aggregate this
is `writeAggregate` again. -/
def writeTypeDetail : FieldType → Bytes
  | .primitive _ => []
  | .string capacity => write 4 capacity
  | .aggregate fields => write 4 fields.length ++ writeFields fields
end

def writeAggregate (fields : AggregateType) : Bytes := write 4 fields.length ++ writeFields fields

def writeSchema (schema : Schema) : Bytes :=
  writeAggregate schema.fields ++ write 4 schema.keyFieldIndex

/-- `write` of a command other than `monostate`, which it asserts. -/
def writeCommand (cmd : Command) : Bytes :=
  write 1 cmd.index ++
    match cmd with
    | .monostate => []
    | .registerSchema name schema => writeLengthPrefixedString name ++ writeSchema schema
    | .createCollection name schemaName =>
        writeLengthPrefixedString name ++ writeLengthPrefixedString schemaName
    | .getSchema name => writeLengthPrefixedString name
    | .getCollectionSchema name => writeLengthPrefixedString name
    | .get collName key => writeLengthPrefixedString collName ++ writeLengthPrefixedString key
    | .put collName value => writeLengthPrefixedString collName ++ writeLengthPrefixedString value
    | .delete collName key => writeLengthPrefixedString collName ++ writeLengthPrefixedString key

def writeResponse (res : Response) : Bytes :=
  write 1 res.index ++
    match res with
    | .found value => writeLengthPrefixedString value
    | .string value => writeLengthPrefixedString value
    | .schema schema => writeSchema schema
    | _ => []

/-! ## Readers -/

/-- The `switch` on the type index of a field; `.error` is an early return. -/
def readFieldType (readNested : Bytes → AggregateType → ReadResult × Bytes × AggregateType)
    (typeIndex : Nat) (c : Bytes) : Except ReadResult (FieldType × Bytes) :=
  match typeIndex with
  | 0 => .ok (.primitive .bool, c)
  | 1 => .ok (.primitive .uint8, c)
  | 2 => .ok (.primitive .uint16, c)
  | 3 => .ok (.primitive .uint32, c)
  | 4 => .ok (.primitive .uint64, c)
  | 5 => .ok (.primitive .int8, c)
  | 6 => .ok (.primitive .int16, c)
  | 7 => .ok (.primitive .int32, c)
  | 8 => .ok (.primitive .int64, c)
  | 9 => .ok (.primitive .float32, c)
  | 10 => .ok (.primitive .float64, c)
  | 11 =>
      match read 4 c with
      | (none, _) => .error .incomplete
      | (some capacity, c) => .ok (.string capacity, c)
  | 12 =>
      match readNested c [] with
      | (.success, c, agg) => .ok (.aggregate agg, c)
      | (res, _, _) => .error res
  | _ => .error .invalid

/-- The loop over `count` more fields, with the cursor and the fields so far.
The name and the type index are both read before either is checked. -/
def readFields (readNested : Bytes → AggregateType → ReadResult × Bytes × AggregateType) :
    Nat → Bytes → AggregateType → Except ReadResult (Bytes × AggregateType)
  | 0, c, agg => .ok (c, agg)
  | count + 1, c, agg =>
      let (name, c) := readLengthPrefixedString c
      let (typeIndex, c) := read 1 c
      match name, typeIndex with
      | some name, some typeIndex =>
          match readFieldType readNested typeIndex c with
          | .ok (type, c) => readFields readNested count c (agg ++ [⟨name, type⟩])
          | .error res => .error res
      | _, _ => .error .incomplete

/-- `read(ConstBuffer&, AggregateType&)` with the nesting bounded by `depth`. Its
`reserve` and its calls find the memory they ask for; `Checked.readAggregateWithin`
is where they may not. -/
def readAggregateWithin : Nat → Bytes → AggregateType → ReadResult × Bytes × AggregateType
  | 0, cursor, outAgg => (.incomplete, cursor, outAgg)
  | depth + 1, cursor, outAgg =>
      match read 4 cursor with
      | (none, _) => (.incomplete, cursor, outAgg)
      | (some fieldCount, c) =>
          match readFields (readAggregateWithin depth) fieldCount c [] with
          | .ok (c, agg) => (.success, c, agg)
          | .error res => (res, cursor, outAgg)

/-- Each level of nesting takes bytes of its own, so the length of the cursor
bounds the nesting (`readAggregate_eq`). -/
def readAggregate (cursor : Bytes) (outAgg : AggregateType) : ReadResult × Bytes × AggregateType :=
  readAggregateWithin cursor.length cursor outAgg

def readSchema (cursor : Bytes) (outSchema : Schema) : ReadResult × Bytes × Schema :=
  match readAggregate cursor [] with
  | (.success, c, fields) =>
      match read 4 c with
      | (none, _) => (.incomplete, cursor, outSchema)
      | (some keyFieldIndex, c) =>
          if keyFieldIndex ≥ fields.length then
            (.invalid, cursor, outSchema)
          else
            (.success, c, { fields, keyFieldIndex })
  | (res, _, _) => (res, cursor, outSchema)

/-- A command of two strings, both read before either is checked. -/
def readTwoStrings (build : Bytes → Bytes → Command) (cursor c : Bytes) (cmd : Command) :
    ReadResult × Bytes × Command :=
  let (first, c) := readLengthPrefixedString c
  let (second, c) := readLengthPrefixedString c
  match first, second with
  | some first, some second => (.success, c, build first second)
  | _, _ => (.incomplete, cursor, cmd)

/-- A message of one string. -/
def readOneString {Message : Type} (build : Bytes → Message) (cursor c : Bytes) (msg : Message) :
    ReadResult × Bytes × Message :=
  match readLengthPrefixedString c with
  | (none, _) => (.incomplete, cursor, msg)
  | (some s, c) => (.success, c, build s)

/-- A message that ends in a schema. -/
def readSchemaInto {Message : Type} (build : Schema → Message) (cursor c : Bytes) (msg : Message) :
    ReadResult × Bytes × Message :=
  match readSchema c {} with
  | (.success, c, schema) => (.success, c, build schema)
  | (res, _, _) => (res, cursor, msg)

def readCommand (cursor : Bytes) (cmd : Command) : ReadResult × Bytes × Command :=
  match read 1 cursor with
  | (none, _) => (.incomplete, cursor, cmd)
  | (some cmdType, c) =>
      match cmdType with
      | 1 =>
          match readLengthPrefixedString c with
          | (none, _) => (.incomplete, cursor, cmd)
          | (some name, c) => readSchemaInto (.registerSchema name) cursor c cmd
      | 2 => readTwoStrings .createCollection cursor c cmd
      | 3 => readOneString .getSchema cursor c cmd
      | 4 => readOneString .getCollectionSchema cursor c cmd
      | 5 => readTwoStrings .get cursor c cmd
      | 6 => readTwoStrings .put cursor c cmd
      | 7 => readTwoStrings .delete cursor c cmd
      | _ => (.invalid, cursor, cmd)

def readResponse (cursor : Bytes) (res : Response) : ReadResult × Bytes × Response :=
  match read 1 cursor with
  | (none, _) => (.incomplete, cursor, res)
  | (some resType, c) =>
      match resType with
      | 1 => (.success, c, .success)
      | 2 => (.success, c, .failed)
      | 3 => (.success, c, .invalidCommand)
      | 4 => (.success, c, .notFound)
      | 5 => readOneString .found cursor c res
      | 6 => readOneString .string cursor c res
      | 7 => readSchemaInto .schema cursor c res
      | _ => (.invalid, cursor, res)

end Boutique.Protocol
