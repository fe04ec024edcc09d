import Boutique.Cli.Dialogue
import Boutique.Cli.Values
import Boutique.Server.AcceptedSchemas

namespace Boutique.Cli

open Boutique.Core Boutique.Data Boutique.Db Boutique.Protocol Boutique.Server

/-! # Documents and keys that are typed -/

/-- A schema that goes over the wire and lays out documents whose fields stay clear
of each other. -/
structure Usable (schema : Schema) : Prop where
  encodable : Schema.Encodable schema
  layable : Layable schema
  small : (FieldType.aggregate schema.fields).SmallGaps

/-- The document has the values. -/
structure Records (schema : Schema) (doc : Bytes) (values : List Value) : Prop where
  length : doc.length = extent pad (.aggregate schema.fields)
  stored : Stored doc (.aggregate schema.fields) (.record values) 0

/-- The bytes that a collection compares. -/
def Value.key : Value → Bytes
  | .primitive bytes => bytes
  | .string s => s
  | .record _ => []

variable {floats : FloatText} {showPrompts : Bool} {schema : Schema} {coll : Collection}
  {doc : Bytes} {values : List Value} {value : Value} {field : Field} {console : Console}
  {rest : List Bytes}

namespace Usable

variable (usable : Usable schema)

include usable

theorem solid : (FieldType.aggregate schema.fields).NoEmptyAggregate := by
  refine ⟨?_, noEmptyAggregates_iff.mpr usable.layable.1⟩
  intro empty
  have bound := usable.encodable.2
  rw [empty] at bound
  cases bound

theorem keyField : ∃ field, schema.fields[schema.keyFieldIndex]? = some field ∧
    field.type.isLeaf = true := by
  have found := List.getElem?_eq_getElem usable.encodable.2
  exact ⟨_, found, usable.layable.2 _ found⟩

theorem new : ∃ coll, Collection.new schema = .ok coll :=
  (new_ok_iff usable.encodable.2).mpr usable.layable

end Usable

/-! ## Documents -/

theorem buffer_eq {type : FieldType} (solid : type.NoEmptyAggregate) :
    buffer type = .ok (List.replicate (extent pad type) 0) := by
  rw [buffer, size_eq solid]
  rfl

theorem readDocument_spec (usable : Usable schema) :
    match enterAll floats schema.fields console.input with
    | .error exception =>
        readDocument floats showPrompts schema console = .error (.thrown exception)
    | .ok (values, rest) => ∃ doc console',
        readDocument floats showPrompts schema console = .ok (doc, console') ∧
          console'.input = rest ∧ Records schema doc values := by
  have outcome := @readAggregate_enters floats showPrompts
    (List.replicate (extent pad (.aggregate schema.fields)) 0) 0 console schema.fields
    usable.solid usable.encodable.1 (by simp)
  rw [Enters, enter] at outcome
  rw [readDocument, buffer_eq usable.solid, ok_bind]
  cases entered : enterAll floats schema.fields console.input with
  | error exception =>
      rw [entered] at outcome
      exact outcome
  | ok result =>
      obtain ⟨values, rest⟩ := result
      rw [entered] at outcome
      obtain ⟨doc, console', read, left, within, stored⟩ := outcome
      refine ⟨doc, console', read, left, ?_, stored usable.small⟩
      rw [within.length, List.length_replicate]

/-! ## Keys -/

/-- A collection finds the value of the key field. -/
theorem Stored.keyOf {access : KeyAccess} {type : FieldType}
    (kind : Collection.keyType type = some access.type)
    (stored : Stored doc type value access.offset) :
    access.keyOf doc = value.key ∧ access.IsKey value.key ∧
      ∀ capacity, type = .string capacity →
        leValue (slice doc access.offset stringHeaderSize) ≤ capacity := by
  obtain ⟨offset, keyType⟩ := access
  cases stored with
  | @primitive type bytes _ inside content =>
      cases kind
      refine ⟨content, ?_, ?_⟩
      · rw [← content]
        exact slice_length inside
      · intro capacity same
        cases same
  | @string capacity s _ fits short inside content =>
      cases kind
      obtain ⟨header, payload⟩ := prefixed_content content
      have length : leValue (slice doc offset stringHeaderSize) = s.length := by
        rw [header]
        exact leValue_leBytes (Nat.lt_of_le_of_lt fits short)
      refine ⟨?_, trivial, ?_⟩
      · rw [KeyAccess.keyOf]
        dsimp only
        rw [length, payload]
        rfl
      · intro other same
        cases same
        rw [length]
        exact fits
  | record length each => cases kind

/-- Where the constructor takes the key from. -/
theorem new_key (made : Collection.new schema = .ok coll) :
    ∃ field, schema.fields[schema.keyFieldIndex]? = some field ∧
      Collection.keyType field.type = some coll.key.type ∧
      coll.key.offset = fieldStart pad (shapes pad schema.fields) schema.keyFieldIndex 0 := by
  obtain ⟨field, selected, _, type, _⟩ := Collection.new_spec made
  obtain ⟨solid, _, _, placed⟩ := Collection.new_layout made
  refine ⟨field, selected, type, ?_⟩
  rw [absoluteOffset, offset_eq solid.2 (List.getElem?_eq_some_iff.mp selected).1, ok_bind,
    selected] at placed
  simpa [absoluteOffset] using placed.symm

theorem Records.keyOf (records : Records schema doc values)
    (made : Collection.new schema = .ok coll) :
    ∃ value, values[schema.keyFieldIndex]? = some value ∧ coll.key.keyOf doc = value.key ∧
      ∀ field ∈ schema.fields[schema.keyFieldIndex]?, ∀ capacity, field.type = .string capacity →
        leValue (slice doc coll.key.offset stringHeaderSize) ≤ capacity := by
  obtain ⟨field, selected, type, position⟩ := new_key made
  cases records.stored with
  | record length each =>
      have bound := (List.getElem?_eq_some_iff.mp selected).1
      rw [← length] at bound
      have found := List.getElem?_eq_getElem bound
      have stored := each _ _ _ selected found
      rw [Nat.zero_add, ← position] at stored
      obtain ⟨key, _, short⟩ := stored.keyOf type
      refine ⟨_, found, key, ?_⟩
      intro other same
      cases selected.symm.trans same
      exact short

theorem keyIn_eq {type : FieldType} {buf : Bytes} (leaf : type.isLeaf = true)
    (length : buf.length = extent pad type) (stored : Stored buf type value 0) :
    keyIn type buf = .ok value.key := by
  cases stored with
  | @primitive type bytes _ inside content =>
      rw [extent] at length
      rw [← length, slice_all] at content
      rw [content]
      rfl
  | @string capacity s _ fits short inside content =>
      obtain ⟨header, payload⟩ := prefixed_content content
      rw [Nat.zero_add] at payload
      have size : leValue (write 4 s.length) = s.length :=
        leValue_leBytes (Nat.lt_of_le_of_lt fits short)
      rw [keyIn, readBytes_eq (by omega), ok_bind, header, size, readBytes_eq (by omega), payload]
      rfl
  | record => cases leaf

theorem readKey_spec (usable : Usable schema) (made : Collection.new schema = .ok coll)
    (selected : schema.fields[schema.keyFieldIndex]? = some field) :
    match enter floats field.type console.input with
    | .error exception => readKey floats showPrompts schema console = .error (.thrown exception)
    | .ok (value, rest) => ∃ console',
        readKey floats showPrompts schema console = .ok (value.key, console') ∧
          console'.input = rest ∧ coll.key.IsKey value.key := by
  have member := List.mem_of_getElem? selected
  have solid := usable.layable.1 field member
  have encodable := (encodableFields_iff.mp usable.encodable.1.2 field member).2
  have leaf := usable.layable.2 field selected
  obtain ⟨other, same, type, _⟩ := new_key made
  obtain rfl := Option.some.inj (selected.symm.trans same)
  have outcome := @readField_enters floats showPrompts
    (List.replicate (extent pad field.type) 0) field.type 0 0 console field.name solid encodable
    (by simp)
  rw [Enters] at outcome
  rw [readKey, selected]
  dsimp only
  rw [buffer_eq solid, ok_bind]
  cases entered : enter floats field.type console.input with
  | error exception =>
      rw [entered] at outcome
      dsimp only at outcome
      rw [outcome]
      rfl
  | ok result =>
      obtain ⟨value, rest⟩ := result
      rw [entered] at outcome
      obtain ⟨buf, console', read, left, within, stored⟩ := outcome
      have stored := stored (smallGapsInside_iff.mp usable.small.2 field member)
      have length := within.length
      rw [List.length_replicate] at length
      have isKey := (@Stored.keyOf buf value ⟨0, coll.key.type⟩ _ type stored).2.1
      refine ⟨console', ?_, left, isKey⟩
      rw [read, ok_bind]
      dsimp only
      rw [keyIn_eq leaf length stored]
      rfl

end Boutique.Cli
