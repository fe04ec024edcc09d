import Boutique.Cli.Documents
import Boutique.Protocol.Messages

namespace Boutique.Cli

open Boutique.Core Boutique.Data Boutique.Db Boutique.Protocol

/-! # The rounds of the main loop

A round reads a command, sends it and shows the response. -/

/-- The variables of `main` that outlive a round. -/
structure Session where
  schemas : Bytes → Option Schema := fun _ => none
  colschemas : Bytes → Option Schema := fun _ => none
  str2 : Bytes := []

/-- The calls of `for_each_primitive_type_name`; `none` is the tag of `StringType`. -/
def primitiveTypeNames : List (Option PrimitiveType × Bytes) :=
  [(some .bool, text "bool"), (some .uint8, text "uint8"), (some .uint16, text "uint16"),
    (some .uint32, text "uint32"), (some .uint64, text "uint64"), (some .int8, text "int8"),
    (some .int16, text "int16"), (some .int32, text "int32"), (some .int64, text "int64"),
    (some .float32, text "float32"), (some .float64, text "float64"), (none, text "string")]

/-! ## Reading a command -/

/-- What a round has read: the end of the input or `quit`, a line that makes no
command, or a command. -/
inductive Entered where
  | quit
  | again
  | command (cmd : Command)

section

variable (floats : FloatText) (showPrompts : Bool)

def prompt (s : Bytes) (console : Console) : Console :=
  if showPrompts then console.print s else console

/-- A prompt and the line that `std::getline` then puts into `str`. -/
def ask (s : Bytes) (str : Bytes) (console : Console) : Bytes × Console :=
  (prompt showPrompts s console).getline str

/-- The type of a field by what has been typed for it, unless it is no type. -/
def readFieldType (session : Session) (str : Bytes) (console : Console) :
    Except Exit (Option FieldType × Bytes × Console) :=
  if str = text "aggregate" then
    let (str, console) := ask showPrompts (text "subschema name > ") str console
    match session.schemas str with
    | none => return (none, str,
        console.printErr (text "Could not find this schema. Run getschema first.\n"))
    | some found => return (some (.aggregate found.fields), str, console)
  else
    match primitiveTypeNames.find? fun entry => entry.2 = str with
    | none => return (none, str, console.printErr (text "Invalid type.\n"))
    | some (none, _) => do
        let (str, console) := ask showPrompts (text "string capacity > ") str console
        let capacity ← thrown (stoull str)
        return (some (.string capacity), str, console)
    | some (some type, _) => return (some (.primitive type), str, console)

/-- The loop that reads the fields of a schema, for so many rounds. -/
def readSchemaFields (session : Session) : (rounds : Nat) → (fields : AggregateType) →
    (str : Bytes) → Console → Except Exit (AggregateType × Bytes × Console)
  | 0, _, _, _ => .error (.fault .diverges)
  | rounds + 1, fields, str, console => do
      let (str, console) := ask showPrompts (text "field name or end > ") str console
      if str = text "end" then
        if fields.isEmpty then
          readSchemaFields session rounds fields str
            (console.printErr (text "Must provide at least one field.\n"))
        else
          return (fields, str, console)
      else
        let name := str
        let (str, console) := ask showPrompts (text "field type > ") [] console
        match ← readFieldType showPrompts session str console with
        | (none, str, console) => readSchemaFields session rounds fields str console
        | (some type, str, console) =>
            readSchemaFields session rounds (fields ++ [{ name, type }]) str console

/-- The loop that reads which field is the key. -/
def readKeyField (fields : AggregateType) : (rounds : Nat) → (str : Bytes) → Console →
    Except Exit (Nat × Console)
  | 0, _, _ => .error (.fault .diverges)
  | rounds + 1, str, console => do
      let (str, console) := ask showPrompts (text "key field name > ") str console
      let keyFieldIndex := fields.findIdx (fun field => field.name = str) % 2 ^ 32
      match fields[keyFieldIndex]? with
      | none =>
          readKeyField fields rounds str
            (console.printErr (text "Invalid key name " ++ str ++ text "\n"))
      | some field =>
          match field.type with
          | .aggregate _ =>
              readKeyField fields rounds str
                (console.printErr (text "Cannot have aggregate as key\n"))
          | .primitive _ | .string _ => return (keyFieldIndex, console)

/-- The buffer that a value is read into: it has the size of the type. -/
def buffer (type : FieldType) : Except Exit Bytes := do
  let bytes ← faulty (size type)
  return List.replicate bytes 0

def readDocument (schema : Schema) (console : Console) : Except Exit (Bytes × Console) := do
  let buf ← buffer (.aggregate schema.fields)
  readAggregate floats showPrompts schema.fields 0 buf console

/-- The key in the buffer of the key field: of a string, the bytes behind its length. -/
def keyIn (type : FieldType) (buf : Bytes) : Except Fault Bytes :=
  match type with
  | .string _ => do
      let len ← readBytes .argument buf 0 stringHeaderSize
      readBytes .argument buf stringHeaderSize (leValue len)
  | .primitive _ | .aggregate _ => return buf

/-- The key that `get` and `delete` read. -/
def readKey (schema : Schema) (console : Console) : Except Exit (Bytes × Console) :=
  match schema.fields[schema.keyFieldIndex]? with
  | none => .error (.fault (.outOfBounds .argument))
  | some field => do
      let buf ← buffer field.type
      let (buf, console) ← readField floats showPrompts field.name field.type 0 0 buf console
      let key ← faulty (keyIn field.type buf)
      return (key, console)

def runColschema : Bytes :=
  text "Run colschema to cache the schema for this collection first.\n"

/-- `PutCommand` gets a view of a string that is destroyed before the command is
written; `remains` says what the view then shows. -/
def readCommand (remains : Bytes → Bytes) (rounds : Nat) (session : Session) (console : Console) :
    Except Exit (Entered × Session × Console) := do
  let console := prompt showPrompts (text "> ") console
  if console.input.isEmpty then return (.quit, session, console)
  let (str, console) := console.getline []
  if str = [] then
    return (.again, session, console)
  else if str = text "quit" then
    return (.quit, session, console.print (text "Goodbye.\n"))
  else if str = text "schema" then
    let (name, console) := ask showPrompts (text "name > ") [] console
    let (fields, str, console) ← readSchemaFields showPrompts session rounds [] str console
    let (keyFieldIndex, console) ← readKeyField showPrompts fields rounds str console
    return (.command (.registerSchema name { fields, keyFieldIndex }), session, console)
  else if str = text "collection" then
    let (str, console) := ask showPrompts (text "name > ") str console
    let (str2, console) := ask showPrompts (text "schema name > ") session.str2 console
    return (.command (.createCollection str str2), { session with str2 }, console)
  else if str = text "getschema" then
    let (str, console) := ask showPrompts (text "name > ") str console
    return (.command (.getSchema str), session, console)
  else if str = text "colschema" then
    let (str, console) := ask showPrompts (text "name > ") str console
    return (.command (.getCollectionSchema str), session, console)
  else if str = text "get" ∨ str = text "delete" then
    let (str2, console) := ask showPrompts (text "collection name > ") session.str2 console
    let session := { session with str2 }
    match session.colschemas str2 with
    | none => return (.again, session, console.printErr runColschema)
    | some found =>
        let (key, console) ← readKey floats showPrompts found console
        if str = text "get" then return (.command (.get str2 key), session, console)
        else return (.command (.delete str2 key), session, console)
  else if str = text "put" then
    let (collName, console) := ask showPrompts (text "collection name > ") [] console
    match session.colschemas collName with
    | none => return (.again, session, console.printErr runColschema)
    | some found =>
        let (doc, console) ← readDocument floats showPrompts found console
        return (.command (.put (remains collName) doc), session, console)
  else
    return (.again, session, console.print (text "Unknown command.\n"))

end

/-! ## Showing a response -/

/-- The names that the visitor of `print_aggregate_type` prints for a type. -/
def typeName (type : PrimitiveType) : Bytes :=
  (primitiveTypeNames.filter fun entry => entry.1 = some type).flatMap Prod.snd

mutual
def printType : FieldType → (indent : Nat) → Bytes
  | .string capacity, _ => text "string" ++ decimal capacity ++ text "\n"
  | .aggregate agg, indent => text "\n" ++ printAggregateType agg none 0 (indent + 1)
  | .primitive type, _ => typeName type ++ text "\n"

/-- The loop of `print_aggregate_type`; there is no key in a nested aggregate. -/
def printAggregateType : AggregateType → (keyFieldIndex : Option Nat) → (fieldIndex indent : Nat) →
    Bytes
  | [], _, _, _ => []
  | field :: rest, keyFieldIndex, fieldIndex, indent =>
      tabs indent ++ (if keyFieldIndex = some fieldIndex then text "key " else []) ++ field.name ++
        text " " ++ printType field.type indent ++
        printAggregateType rest keyFieldIndex (fieldIndex + 1) indent
end

def printSchema (schema : Schema) : Bytes :=
  printAggregateType schema.fields (some schema.keyFieldIndex) 0 0

/-- The visitor of a response to `cmd`. -/
def handle (floats : FloatText) (session : Session) (cmd : Command) (res : Response)
    (console : Console) : Except Fault (Session × Console) :=
  match res with
  | .invalidCommand =>
      return (session, console.printErr (text "Apparently we sent an invalid command.\n"))
  | .success => return (session, console.print (text "Success.\n"))
  | .notFound => return (session, console.print (text "Not found.\n"))
  | .found value =>
      match cmd with
      | .get collName _ =>
          match session.colschemas collName with
          | none =>
              return (session, console.print (text ("No schema cached for this so data cannot " ++
                "be displayed well. Run colschema.\n")))
          | some found => do
              let shown ← printAggregate floats value found.fields 0
              return (session, console.print shown)
      | _ => return (session, console.print (value ++ text "\n"))
  | .schema schema =>
      let session := match cmd with
        | .getSchema name =>
            { session with schemas := Function.update session.schemas name (some schema) }
        | .getCollectionSchema name =>
            { session with colschemas := Function.update session.colschemas name (some schema) }
        | _ => session
      return (session, console.print (printSchema schema))
  | .failed | .string _ | .monostate => return (session, console)

end Boutique.Cli
