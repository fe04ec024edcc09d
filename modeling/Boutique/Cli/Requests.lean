import Boutique.Cli.Records
import Boutique.Data.Executions

namespace Boutique.Cli

open Boutique.Core Boutique.Data Boutique.Db Boutique.Protocol Boutique.Server

/-! # What the client asks for -/

/-- A number that cannot be read, or input that makes a loop of the dialogue go on
for ever. -/
def Exit.Benign : Exit → Prop
  | .thrown _ => True
  | .fault failure => failure = .diverges
  | .unread => False

/-- The client has been told usable schemas only. -/
structure Session.Sound (session : Session) : Prop where
  schemas : ∀ {name schema}, session.schemas name = some schema → Usable schema
  colschemas : ∀ {name schema}, session.colschemas name = some schema → Usable schema

/-- The commands that a round of the session can send, with documents out of the
input. -/
inductive Issued (floats : FloatText) (remains : Bytes → Bytes) (session : Session)
    (input : List Bytes) : Command → Prop
  | registerSchema (name : Bytes) {schema : Schema}
      (inRange : schema.keyFieldIndex < schema.fields.length) (layable : Layable schema) :
      Issued floats remains session input (.registerSchema name schema)
  | createCollection (name schemaName : Bytes) :
      Issued floats remains session input (.createCollection name schemaName)
  | getSchema (name : Bytes) : Issued floats remains session input (.getSchema name)
  | getCollectionSchema (name : Bytes) :
      Issued floats remains session input (.getCollectionSchema name)
  | get {name key schema coll} (cached : session.colschemas name = some schema)
      (made : Collection.new schema = .ok coll) (isKey : coll.key.IsKey key) :
      Issued floats remains session input (.get name key)
  | delete {name key schema coll} (cached : session.colschemas name = some schema)
      (made : Collection.new schema = .ok coll) (isKey : coll.key.IsKey key) :
      Issued floats remains session input (.delete name key)
  | put {name doc schema values lines rest} (cached : session.colschemas name = some schema)
      (typed : lines <:+ input) (entered : enterAll floats schema.fields lines = .ok (values, rest))
      (records : Records schema doc values) :
      Issued floats remains session input (.put (remains name) doc)

variable {floats : FloatText} {showPrompts : Bool} {remains : Bytes → Bytes} {session : Session}
  {console : Console} {str : Bytes} {fields : AggregateType} {schema : Schema}

theorem Issued.cached {input : List Bytes} {name key : Bytes}
    (issued : Issued floats remains session input (.get name key)) :
    ∃ schema, session.colschemas name = some schema := by
  cases issued with
  | get cached => exact ⟨_, cached⟩

/-! The input is read from its front. -/

theorem getline_suffix (console : Console) (str : Bytes) :
    (console.getline str).2.input <:+ console.input := by
  rw [Console.getline]
  split
  · rename_i none
    rw [none]
  · rename_i line rest more
    rw [more]
    exact List.suffix_cons line rest

@[simp] theorem prompt_input (showPrompts : Bool) (s : Bytes) (console : Console) :
    (prompt showPrompts s console).input = console.input := by
  cases showPrompts <;> rfl

theorem ask_suffix (showPrompts : Bool) (s str : Bytes) (console : Console) :
    (ask showPrompts s str console).2.input <:+ console.input := by
  have suffix := getline_suffix (prompt showPrompts s console) str
  rwa [prompt_input] at suffix

theorem readFieldType_meets (sound : session.Sound) :
    Meets Exit.Benign (fun result => (∀ type ∈ result.1, type.NoEmptyAggregate) ∧
        result.2.2.input <:+ console.input)
      (readFieldType showPrompts session str console) := by
  rw [readFieldType]
  split
  · have asked := ask_suffix showPrompts (text "subschema name > ") str console
    generalize ask showPrompts (text "subschema name > ") str console = line at asked
    obtain ⟨str, console⟩ := line
    dsimp only
    cases found : session.schemas str with
    | none => exact ⟨nofun, asked⟩
    | some schema =>
        refine ⟨?_, asked⟩
        intro type same
        cases same
        exact (sound.schemas found).solid
  · cases primitiveTypeNames.find? fun entry => entry.2 = str with
    | none => exact ⟨nofun, List.suffix_refl _⟩
    | some entry =>
        obtain ⟨tag, name⟩ := entry
        cases tag with
        | none =>
            have asked := ask_suffix showPrompts (text "string capacity > ") str console
            generalize ask showPrompts (text "string capacity > ") str console = line at asked
            obtain ⟨str, console⟩ := line
            dsimp only
            cases stoull str with
            | error exception => trivial
            | ok capacity =>
                refine ⟨?_, asked⟩
                intro type same
                cases same
                trivial
        | some type =>
            refine ⟨?_, List.suffix_refl _⟩
            intro type same
            cases same
            trivial

theorem readSchemaFields_meets (sound : session.Sound) (rounds : Nat)
    (solid : ∀ field ∈ fields, field.type.NoEmptyAggregate) :
    Meets Exit.Benign (fun result => (∀ field ∈ result.1, field.type.NoEmptyAggregate) ∧
        result.2.2.input <:+ console.input)
      (readSchemaFields showPrompts session rounds fields str console) := by
  induction rounds generalizing fields str console with
  | zero => exact rfl
  | succ rounds ih =>
      rw [readSchemaFields]
      have asked := ask_suffix showPrompts (text "field name or end > ") str console
      generalize ask showPrompts (text "field name or end > ") str console = line at asked
      obtain ⟨name, console'⟩ := line
      dsimp only
      split
      · split
        · exact (ih solid).imp fun result read => ⟨read.1, read.2.trans asked⟩
        · exact ⟨solid, asked⟩
      · have askedType := ask_suffix showPrompts (text "field type > ") [] console'
        generalize ask showPrompts (text "field type > ") [] console' = line at askedType
        obtain ⟨typeStr, console'⟩ := line
        dsimp only
        refine (readFieldType_meets sound).bind fun result read => ?_
        obtain ⟨type, typeStr, console'⟩ := result
        obtain ⟨typed, suffix⟩ := read
        replace suffix := (suffix.trans askedType).trans asked
        cases type with
        | none => exact (ih solid).imp fun result read => ⟨read.1, read.2.trans suffix⟩
        | some type =>
            have more : ∀ field ∈ fields ++ [⟨name, type⟩], field.type.NoEmptyAggregate := by
              refine List.forall_mem_append.mpr ⟨solid, ?_⟩
              intro field member
              cases List.mem_singleton.mp member
              exact typed type rfl
            exact (ih more).imp fun result read => ⟨read.1, read.2.trans suffix⟩

theorem readKeyField_meets (rounds : Nat) :
    Meets Exit.Benign
      (fun result => (∃ field, fields[result.1]? = some field ∧ field.type.isLeaf = true) ∧
        result.2.input <:+ console.input)
      (readKeyField showPrompts fields rounds str console) := by
  induction rounds generalizing str console with
  | zero => exact rfl
  | succ rounds ih =>
      rw [readKeyField]
      have asked := ask_suffix showPrompts (text "key field name > ") str console
      generalize ask showPrompts (text "key field name > ") str console = line at asked
      obtain ⟨str, console'⟩ := line
      dsimp only
      cases found : fields[fields.findIdx (fun field => field.name = str) % 2 ^ 32]? with
      | none => exact ih.imp fun result read => ⟨read.1, read.2.trans asked⟩
      | some field =>
          dsimp only
          cases type : field.type with
          | aggregate => exact ih.imp fun result read => ⟨read.1, read.2.trans asked⟩
          | primitive | string =>
              refine ⟨⟨field, found, ?_⟩, asked⟩
              rw [type]
              rfl

/-- A round keeps what the client has been told. -/
structure Requested (floats : FloatText) (remains : Bytes → Bytes) (session : Session)
    (input : List Bytes) (result : Entered × Session × Console) : Prop where
  schemas : result.2.1.schemas = session.schemas
  colschemas : result.2.1.colschemas = session.colschemas
  suffix : result.2.2.input <:+ input
  issued : match result.1 with
    | .quit | .again => True
    | .command cmd => Issued floats remains session input cmd

theorem readKey_meets (usable : Usable schema) {coll : Collection}
    (made : Collection.new schema = .ok coll) :
    Meets Exit.Benign
      (fun result => coll.key.IsKey result.1 ∧ result.2.input <:+ console.input)
      (readKey floats showPrompts schema console) := by
  obtain ⟨field, selected, _⟩ := usable.keyField
  have spec := @readKey_spec floats showPrompts schema coll field console usable made selected
  cases entered : enter floats field.type console.input with
  | error exception =>
      rw [entered] at spec
      rw [spec]
      trivial
  | ok result =>
      rw [entered] at spec
      obtain ⟨console', read, left, isKey⟩ := spec
      rw [read]
      refine ⟨isKey, ?_⟩
      rw [left, enter_rest entered]
      exact List.drop_suffix _ _

theorem readDocument_meets (usable : Usable schema) :
    Meets Exit.Benign (fun result => (∃ values rest,
        enterAll floats schema.fields console.input = .ok (values, rest) ∧
          Records schema result.1 values) ∧ result.2.input <:+ console.input)
      (readDocument floats showPrompts schema console) := by
  have spec := @readDocument_spec floats showPrompts schema console usable
  cases entered : enterAll floats schema.fields console.input with
  | error exception =>
      rw [entered] at spec
      rw [spec]
      trivial
  | ok result =>
      rw [entered] at spec
      obtain ⟨doc, console', read, left, records⟩ := spec
      rw [read]
      refine ⟨⟨_, _, rfl, records⟩, ?_⟩
      rw [left, enterAll_rest (fun _ _ _ _ _ => enter_rest) entered]
      exact List.drop_suffix _ _

theorem readCommand_meets (sound : session.Sound) (rounds : Nat) :
    Meets Exit.Benign (Requested floats remains session console.input)
      (readCommand floats showPrompts remains rounds session console) := by
  rw [readCommand]
  have start := (prompt_input showPrompts (text "> ") console).symm
  generalize prompt showPrompts (text "> ") console = prompted at start
  rw [start]
  split
  · exact ⟨rfl, rfl, List.suffix_refl _, trivial⟩
  have got := getline_suffix prompted []
  generalize prompted.getline [] = line at got
  obtain ⟨str, console⟩ := line
  dsimp only
  split
  · exact ⟨rfl, rfl, got, trivial⟩
  split
  · exact ⟨rfl, rfl, got, trivial⟩
  split
  · have asked := (ask_suffix showPrompts (text "name > ") [] console).trans got
    generalize ask showPrompts (text "name > ") [] console = line at asked
    obtain ⟨name, console⟩ := line
    dsimp only
    refine (readSchemaFields_meets sound rounds (List.forall_mem_nil _)).bind fun result read => ?_
    obtain ⟨fields, str, console⟩ := result
    obtain ⟨solid, first⟩ := read
    refine (readKeyField_meets rounds).bind fun result read => ?_
    obtain ⟨keyFieldIndex, console⟩ := result
    obtain ⟨key, second⟩ := read
    obtain ⟨field, selected, leaf⟩ := key
    refine ⟨rfl, rfl, (second.trans first).trans asked,
      .registerSchema name (List.getElem?_eq_some_iff.mp selected).1 ⟨solid, ?_⟩⟩
    intro other same
    cases selected.symm.trans same
    exact leaf
  split
  · have asked := (ask_suffix showPrompts (text "name > ") str console).trans got
    generalize ask showPrompts (text "name > ") str console = line at asked
    obtain ⟨name, console⟩ := line
    dsimp only
    have again := (ask_suffix showPrompts (text "schema name > ") session.str2 console).trans asked
    generalize ask showPrompts (text "schema name > ") session.str2 console = line at again
    obtain ⟨schemaName, console⟩ := line
    exact ⟨rfl, rfl, again, .createCollection name schemaName⟩
  split
  · have asked := (ask_suffix showPrompts (text "name > ") str console).trans got
    generalize ask showPrompts (text "name > ") str console = line at asked
    obtain ⟨name, console⟩ := line
    exact ⟨rfl, rfl, asked, .getSchema name⟩
  split
  · have asked := (ask_suffix showPrompts (text "name > ") str console).trans got
    generalize ask showPrompts (text "name > ") str console = line at asked
    obtain ⟨name, console⟩ := line
    exact ⟨rfl, rfl, asked, .getCollectionSchema name⟩
  split
  · have asked :=
      (ask_suffix showPrompts (text "collection name > ") session.str2 console).trans got
    generalize ask showPrompts (text "collection name > ") session.str2 console = line at asked
    obtain ⟨name, console⟩ := line
    dsimp only
    cases cached : session.colschemas name with
    | none => exact ⟨rfl, rfl, asked, trivial⟩
    | some schema =>
        have usable := sound.colschemas cached
        obtain ⟨coll, made⟩ := usable.new
        refine (readKey_meets usable made).bind fun result read => ?_
        obtain ⟨key, console⟩ := result
        obtain ⟨isKey, suffix⟩ := read
        dsimp only
        split
        · exact ⟨rfl, rfl, suffix.trans asked, .get cached made isKey⟩
        · exact ⟨rfl, rfl, suffix.trans asked, .delete cached made isKey⟩
  split
  · have asked := (ask_suffix showPrompts (text "collection name > ") [] console).trans got
    generalize ask showPrompts (text "collection name > ") [] console = line at asked
    obtain ⟨name, console⟩ := line
    dsimp only
    cases cached : session.colschemas name with
    | none => exact ⟨rfl, rfl, asked, trivial⟩
    | some schema =>
        refine (readDocument_meets (sound.colschemas cached)).bind fun result read => ?_
        obtain ⟨doc, console⟩ := result
        obtain ⟨document, suffix⟩ := read
        obtain ⟨values, rest, entered, records⟩ := document
        exact ⟨rfl, rfl, suffix.trans asked, .put cached asked entered records⟩
  · exact ⟨rfl, rfl, got, trivial⟩

end Boutique.Cli
