import Boutique.Db.Alignment
import Boutique.Protocol.MessageCodec
import Boutique.Server.ClientHandler

namespace Boutique.Server

open Boutique.Core Boutique.Db Boutique.Protocol

/-! # Schemas from the wire

The readers check that the key is one of the fields. The layout of documents
asserts more. -/

variable {schema : Schema} {name : Bytes}

/-- Creating a collection with the schema succeeds, in whatever database. -/
def BacksCollections (schema : Schema) : Prop :=
  ∀ (std : StdHash) (db : Database) (collName schemaName : Bytes),
    db.schema schemaName = some schema →
      ∃ after, execute (databaseOps std) db (.createCollection collName schemaName) =
        .ok (after, [.success])

/-- No nested aggregate is empty and the key is none. -/
def Layable (schema : Schema) : Prop :=
  (∀ field ∈ schema.fields, field.type.NoEmptyAggregate) ∧
    ∀ field ∈ schema.fields[schema.keyFieldIndex]?, field.type.isLeaf = true

theorem execute_createCollection {std : StdHash} {db : Database} {collName schemaName : Bytes}
    (registered : db.schema schemaName = some schema) :
    execute (databaseOps std) db (.createCollection collName schemaName) =
      db.createCollection collName schema >>= fun after => .ok (after, [.success]) := by
  have present : (databaseOps std).schema schemaName db = some schema := registered
  rw [execute, present]
  rfl

theorem backsCollections_iff_new :
    BacksCollections schema ↔ ∃ coll, Collection.new schema = .ok coll := by
  constructor
  · intro backs
    have registered : (({} : Database).registerSchema [] schema).schema [] = some schema := by
      simp [Database.schema, Database.registerSchema]
    obtain ⟨after, created⟩ := backs noHash _ [] [] registered
    rw [execute_createCollection registered] at created
    obtain ⟨_, created, _⟩ := bind_ok_iff.mp created
    obtain ⟨coll, built, _⟩ := bind_ok_iff.mp created
    exact ⟨coll, built⟩
  · intro ⟨coll, built⟩ std db collName schemaName registered
    rw [execute_createCollection registered, Database.createCollection, built]
    exact ⟨_, rfl⟩

theorem new_ok_iff (inRange : schema.keyFieldIndex < schema.fields.length) :
    (∃ coll, Collection.new schema = .ok coll) ↔ Layable schema := by
  have found := List.getElem?_eq_getElem inRange
  have nonempty : schema.fields ≠ [] := by
    intro empty
    rw [empty] at inRange
    cases inRange
  constructor
  · intro ⟨coll, built⟩
    obtain ⟨_, nested⟩ := (Collection.new_layout built).1
    obtain ⟨field, placed, _, type, _⟩ := Collection.new_spec built
    refine ⟨noEmptyAggregates_iff.mp nested, fun other here => ?_⟩
    obtain rfl := Option.some.inj (placed.symm.trans here)
    cases kind : field.type with
    | primitive _ | string _ => rfl
    | aggregate _ =>
        rw [kind] at type
        cases type
  · intro ⟨solid, leaf⟩
    have nested := noEmptyAggregates_iff.mpr solid
    have whole : (FieldType.aggregate schema.fields).NoEmptyAggregate := ⟨nonempty, nested⟩
    rw [Collection.new, offset_eq nested inRange, ok_bind, size_eq whole, ok_bind, found]
    dsimp only
    have isLeaf := leaf _ found
    cases type : schema.fields[schema.keyFieldIndex].type with
    | primitive kind | string capacity => exact ⟨_, rfl⟩
    | aggregate fields =>
        rw [type] at isLeaf
        cases isLeaf

/-- A schema that is read has a field and its key is one, but a collection can be
made with it only if the layout's other assertions hold of it too. -/
theorem accepted_backsCollections_iff (c rest : Bytes) (out : Command) (name : Bytes)
    (schema : Schema)
    (accepted : readCommand c out = (.success, rest, .registerSchema name schema)) :
    schema.fields ≠ [] ∧ schema.keyFieldIndex < schema.fields.length ∧
      (BacksCollections schema ↔ Layable schema) := by
  obtain ⟨⟨_, _, inRange⟩, _⟩ := readCommand_sound accepted
  refine ⟨?_, inRange, backsCollections_iff_new.trans (new_ok_iff inRange)⟩
  intro empty
  rw [empty] at inRange
  cases inRange

open Collection

theorem accepted_backsCollections_iff_ledger :
    ledgerSchema.fields ≠ [] ∧ ledgerSchema.keyFieldIndex < ledgerSchema.fields.length ∧
      (BacksCollections ledgerSchema ↔ Layable ledgerSchema) :=
  accepted_backsCollections_iff (writeCommand (.registerSchema [108] ledgerSchema) ++ []) []
    .monostate [108] ledgerSchema (readCommand_complete
      (by simp [Command.Encodable, Schema.Encodable, FieldType.Encodable, EncodableFields,
        ledgerSchema]) _ _)

/-- A number as the key, and a record without fields beside it. -/
def hollowSchema : Schema :=
  { fields := [⟨[105], .primitive .uint64⟩, ⟨[110], .aggregate []⟩], keyFieldIndex := 0 }

/-- A record as the key. -/
def recordKeySchema : Schema :=
  { fields := [⟨[107], .aggregate [⟨[105], .primitive .uint64⟩]⟩], keyFieldIndex := 0 }

/-- Both schemas are read and registered, and creating a collection with either
fails an assertion. -/
theorem accepted_schemas_fail :
    readCommand (writeCommand (.registerSchema [115] hollowSchema) ++ []) .monostate =
      (.success, [], .registerSchema [115] hollowSchema) ∧
    ¬ BacksCollections hollowSchema ∧
    Except.map (fun _ => ()) (executeAll (databaseOps noHash) {}
      [.registerSchema [115] hollowSchema, .createCollection [99] [115]]) =
        .error (.assertion .emptyAggregate) ∧
    readCommand (writeCommand (.registerSchema [115] recordKeySchema) ++ []) .monostate =
      (.success, [], .registerSchema [115] recordKeySchema) ∧
    ¬ BacksCollections recordKeySchema ∧
    Except.map (fun _ => ()) (executeAll (databaseOps noHash) {}
      [.registerSchema [115] recordKeySchema, .createCollection [99] [115]]) =
        .error (.assertion .aggregateKey) := by
  refine ⟨readCommand_complete ?_ _ _, ?_, by decide +kernel, readCommand_complete ?_ _ _, ?_,
    by decide +kernel⟩
  · simp [Command.Encodable, Schema.Encodable, FieldType.Encodable, EncodableFields, hollowSchema]
  · rw [backsCollections_iff_new, new_ok_iff (by decide)]
    simp [Layable, hollowSchema, FieldType.NoEmptyAggregate]
  · simp [Command.Encodable, Schema.Encodable, FieldType.Encodable, EncodableFields,
      recordKeySchema]
  · rw [backsCollections_iff_new, new_ok_iff (by decide)]
    simp [Layable, recordKeySchema, FieldType.isLeaf]

end Boutique.Server
