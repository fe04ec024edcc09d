import Mathlib.Data.List.Forall2
import Boutique.Cli.Dialogue
import Boutique.Cli.Echo

namespace Boutique.Cli

open Boutique.Core Boutique.Data Boutique.Db Boutique.Protocol

/-! # Schemas that are typed

Every schema has lines from which the dialogue makes it, as long as its aggregates
are the fields of schemas that the client has been told. -/

/-- A type as it is typed. -/
inductive Described where
  | primitive (type : PrimitiveType)
  | string (capacity : Nat)
  | aggregate (schemaName : Bytes)
deriving DecidableEq

namespace Described

def lines : Described → List Bytes
  | .primitive type => [typeName type]
  | .string capacity => [text "string", decimal capacity]
  | .aggregate schemaName => [text "aggregate", schemaName]

/-- The described type; a capacity is a 64-bit number. -/
def type (session : Session) : Described → Option FieldType
  | .primitive type => some (.primitive type)
  | .string capacity => if capacity < 2 ^ 64 then some (.string capacity) else none
  | .aggregate schemaName => (session.schemas schemaName).map fun found => .aggregate found.fields

end Described

/-- The lines for the fields of a schema. -/
def fieldLines (described : List (Bytes × Described)) : List Bytes :=
  described.flatMap fun field => field.1 :: field.2.lines

/-- The description of a field. No field can be called `end`. -/
def Describes (session : Session) (described : Bytes × Described) (field : Field) : Prop :=
  described.1 = field.name ∧ described.2.type session = some field.type ∧ field.name ≠ text "end"

variable {floats : FloatText} {showPrompts : Bool} {remains : Bytes → Bytes} {rounds : Nat}
  {session : Session} {console : Console} {line str : Bytes} {rest : List Bytes}
  {fields acc : AggregateType} {described : List (Bytes × Described)}

theorem ask_line (s str : Bytes) (input : console.input = line :: rest) :
    ∃ after, ask showPrompts s str console = (line, after) ∧ after.input = rest := by
  rw [ask, Console.getline]
  have same : (prompt showPrompts s console).input = line :: rest := by
    rw [← input]
    cases showPrompts <;> rfl
  rw [same]
  exact ⟨_, rfl, rfl⟩

theorem readFieldType_lines {spec : Described} {type : FieldType} {others : List Bytes}
    (describes : spec.type session = some type) (lines : spec.lines = line :: others)
    (input : console.input = others ++ rest) :
    ∃ str after, readFieldType showPrompts session line console = .ok (some type, str, after) ∧
      after.input = rest := by
  cases spec with
  | primitive kind =>
      cases describes
      cases lines
      refine ⟨typeName kind, console, ?_, input⟩
      cases kind <;> rfl
  | string capacity =>
      rw [Described.type] at describes
      split at describes
      · rename_i fits
        cases describes
        cases lines
        obtain ⟨after, asked, left⟩ :=
          @ask_line showPrompts console _ _ (text "string capacity > ") (text "string") input
        refine ⟨decimal capacity, after, ?_, left⟩
        have found : (primitiveTypeNames.find? fun entry => entry.2 = text "string") =
            some (none, text "string") := rfl
        rw [readFieldType, if_neg (by decide), found]
        dsimp only
        rw [asked]
        dsimp only
        rw [stoull_decimal fits]
        rfl
      · cases describes
  | aggregate schemaName =>
      cases lines
      obtain ⟨found, cached, rfl⟩ := Option.map_eq_some_iff.mp describes
      obtain ⟨after, asked, left⟩ :=
        @ask_line showPrompts console _ _ (text "subschema name > ") (text "aggregate") input
      refine ⟨schemaName, after, ?_, left⟩
      rw [readFieldType, if_pos rfl, asked]
      dsimp only
      rw [cached]
      rfl

theorem readSchemaFields_lines (describes : List.Forall₂ (Describes session) described fields)
    (nonempty : acc ++ fields ≠ []) (enough : described.length < rounds)
    (input : console.input = fieldLines described ++ text "end" :: rest) (str : Bytes) :
    ∃ last after, readSchemaFields showPrompts session rounds acc str console =
      .ok (acc ++ fields, last, after) ∧ after.input = rest := by
  induction describes generalizing rounds acc str console with
  | nil =>
      obtain ⟨rounds, rfl⟩ := Nat.exists_eq_add_of_lt enough
      obtain ⟨after, asked, left⟩ :=
        @ask_line showPrompts console _ _ (text "field name or end > ") str input
      rw [List.append_nil] at nonempty ⊢
      have some : ¬ acc.isEmpty = true := by rwa [List.isEmpty_iff]
      refine ⟨text "end", after, ?_, left⟩
      rw [readSchemaFields, asked]
      dsimp only
      rw [if_pos rfl, if_neg some]
      rfl
  | @cons spec field described fields here describes ih =>
      obtain ⟨name, described'⟩ := spec
      obtain ⟨same, type, noEnd⟩ := here
      cases rounds with
      | zero => cases enough
      | succ rounds =>
          obtain ⟨first, others, lines⟩ : ∃ first others, described'.lines = first :: others := by
            cases described' <;> exact ⟨_, _, rfl⟩
          rw [fieldLines, List.flatMap_cons, List.cons_append, List.cons_append, lines,
            List.append_assoc, List.cons_append] at input
          obtain ⟨console₁, named, input₁⟩ :=
            @ask_line showPrompts console _ _ (text "field name or end > ") str input
          obtain ⟨console₂, typed, input₂⟩ :=
            @ask_line showPrompts console₁ _ _ (text "field type > ") [] input₁
          obtain ⟨str, console₃, read, input₃⟩ :=
            @readFieldType_lines showPrompts session console₂ _ _ described' field.type others type
              lines input₂
          have grown : (acc ++ [field]) ++ fields ≠ [] := by simp
          obtain ⟨last, after, ran, left⟩ :=
            ih grown (Nat.lt_of_succ_lt_succ enough) input₃ str
          refine ⟨last, after, ?_, left⟩
          rw [List.append_assoc] at ran
          rw [readSchemaFields, named]
          dsimp only at same ⊢
          rw [same, if_neg noEnd, typed]
          dsimp only
          rw [read]
          exact ran

theorem readKeyField_line {field : Field} {keyName : Bytes} (short : fields.length ≤ 2 ^ 32)
    (selected : fields[fields.findIdx fun field => field.name = keyName]? = some field)
    (leaf : field.type.isLeaf = true) (input : console.input = keyName :: rest) (str : Bytes)
    (positive : 0 < rounds) :
    ∃ after, readKeyField showPrompts fields rounds str console =
      .ok (fields.findIdx fun field => field.name = keyName, after) ∧ after.input = rest := by
  obtain ⟨rounds, rfl⟩ := Nat.exists_eq_add_of_lt positive
  obtain ⟨after, asked, left⟩ :=
    @ask_line showPrompts console _ _ (text "key field name > ") str input
  have bound := (List.getElem?_eq_some_iff.mp selected).1
  have small := Nat.mod_eq_of_lt (Nat.lt_of_lt_of_le bound short)
  refine ⟨after, ?_, left⟩
  rw [readKeyField, asked]
  dsimp only
  rw [small, selected]
  dsimp only
  cases type : field.type with
  | primitive | string => rfl
  | aggregate =>
      rw [type] at leaf
      cases leaf

/-- A described schema is registered as it has been described. -/
theorem readCommand_schema (floats : FloatText) (showPrompts : Bool) (remains : Bytes → Bytes)
    (session : Session) (described : List (Bytes × Described)) (fields : AggregateType)
    (describes : List.Forall₂ (Describes session) described fields)
    (short : fields.length ≤ 2 ^ 32) (name keyName : Bytes) (field : Field)
    (selected : fields[fields.findIdx fun field => field.name = keyName]? = some field)
    (leaf : field.type.isLeaf = true) (rounds : Nat) (enough : described.length < rounds)
    (console : Console) (rest : List Bytes)
    (input : console.input =
      text "schema" :: name :: (fieldLines described ++ text "end" :: keyName :: rest)) :
    ∃ after, readCommand floats showPrompts remains rounds session console =
        .ok (.command (.registerSchema name
          { fields, keyFieldIndex := fields.findIdx fun field => field.name = keyName }),
          session, after) ∧
      after.input = rest := by
  have prompted : (prompt showPrompts (text "> ") console).input = console.input := by
    cases showPrompts <;> rfl
  rw [input] at prompted
  rw [readCommand]
  generalize prompt showPrompts (text "> ") console = console₁ at prompted
  have more : ¬ console₁.input.isEmpty = true := by simp [prompted]
  obtain ⟨console₂, got, input₂⟩ : ∃ after, console₁.getline [] = (text "schema", after) ∧
      after.input = name :: (fieldLines described ++ text "end" :: keyName :: rest) := by
    rw [Console.getline, prompted]
    exact ⟨_, rfl, rfl⟩
  obtain ⟨console₃, named, input₃⟩ :=
    @ask_line showPrompts console₂ _ _ (text "name > ") [] input₂
  have nonempty : ([] : AggregateType) ++ fields ≠ [] := by
    intro none
    rw [List.nil_append] at none
    rw [none] at selected
    cases selected
  obtain ⟨last, console₄, read, input₄⟩ :=
    @readSchemaFields_lines showPrompts rounds session console₃ _ _ _ _ describes nonempty enough
      input₃ (text "schema")
  obtain ⟨after, keyed, left⟩ :=
    @readKeyField_line showPrompts rounds console₄ _ _ field keyName short selected leaf input₄ last
      (Nat.zero_lt_of_lt enough)
  refine ⟨after, ?_, left⟩
  rw [if_neg more, got]
  dsimp only
  rw [if_neg (by decide), if_neg (by decide), if_pos rfl, named]
  dsimp only
  rw [read, ok_bind]
  dsimp only
  rw [List.nil_append, keyed]
  rfl

/-- The client has been told the schema of the state of an account. -/
def stateTold : Session where
  schemas := fun name =>
    if name = text "state" then some { fields := [⟨text "balance", .primitive .int64⟩] } else none

def accountDescribed : List (Bytes × Described) :=
  [(text "id", .primitive .uint64), (text "name", .string 3),
    (text "state", .aggregate (text "state"))]

theorem account_describes : List.Forall₂ (Describes stateTold) accountDescribed account :=
  .cons ⟨rfl, rfl, by decide⟩ (.cons ⟨rfl, rfl, by decide⟩ (.cons ⟨rfl, rfl, by decide⟩ .nil))

theorem readCommand_schema_account :
    ∃ after, readCommand noFloats false id 4 stateTold
        { input := text "schema" :: text "account" ::
            (fieldLines accountDescribed ++ text "end" :: text "name" :: [text "quit"]) } =
        .ok (.command (.registerSchema (text "account") { fields := account, keyFieldIndex := 1 }),
          stateTold, after) ∧
      after.input = [text "quit"] :=
  readCommand_schema noFloats false id stateTold accountDescribed account account_describes
    (by decide) (text "account") (text "name") ⟨text "name", .string 3⟩ (by rfl) rfl 4 (by decide)
    _ [text "quit"] rfl

end Boutique.Cli
