import Boutique.Cli.Requests
import Boutique.Server.Catalogue

namespace Boutique.Cli

open Boutique.Core Boutique.Data Boutique.Db Boutique.Protocol Boutique.Server

/-! # Clients of one server

Each client is in a round of its own. The server answers the commands in the order
in which it comes to them. -/

/-- Where a client is: at the prompt, waiting for the server, in front of the
responses, or at its end. -/
inductive Phase where
  | idle
  | sent (cmd : Command)
  | answered (cmd : Command) (responses : List Response)
  | ended (exit : Option Exit)

/-- The command that the client waits for or has been answered. -/
def Phase.command : Phase → Option Command
  | .sent cmd | .answered cmd _ => some cmd
  | .idle | .ended _ => none

structure Client where
  showPrompts : Bool := true
  session : Session := {}
  console : Console
  phase : Phase := .idle

structure World (ι : Type) where
  cat : Catalogue := {}
  clients : ι → Client

section

variable (floats : FloatText) (remains : Bytes → Bytes) (rounds : Nat)

def Client.request (client : Client) : Client :=
  match readCommand floats client.showPrompts remains rounds client.session client.console with
  | .error exit => { client with phase := .ended (some exit) }
  | .ok (.quit, session, console) => { client with session, console, phase := .ended none }
  | .ok (.again, session, console) => { client with session, console }
  | .ok (.command cmd, session, console) => { client with session, console, phase := .sent cmd }

def handleAll (cmd : Command) : List Response → Session → Console → Except Fault (Session × Console)
  | [], session, console => return (session, console)
  | res :: responses, session, console => do
      let (session, console) ← handle floats session cmd res console
      handleAll cmd responses session console

def Client.receive (cmd : Command) (responses : List Response) (client : Client) : Client :=
  match handleAll floats cmd responses client.session client.console with
  | .error fault => { client with phase := .ended (some (.fault fault)) }
  | .ok (session, console) => { client with session, console, phase := .idle }

namespace World

variable {ι : Type} [DecidableEq ι]

def setClient (world : World ι) (i : ι) (client : Client) : World ι :=
  { world with clients := Function.update world.clients i client }

/-- What is next for a client, and the command that is served if that is it. -/
def step (world : World ι) (i : ι) : World ι × List Command :=
  let client := world.clients i
  match client.phase with
  | .idle => (world.setClient i (client.request floats remains rounds), [])
  | .sent cmd =>
      let (cat, responses) := world.cat.answer cmd
      ({ world with cat }.setClient i { client with phase := .answered cmd responses }, [cmd])
  | .answered cmd responses => (world.setClient i (client.receive floats cmd responses), [])
  | .ended _ => (world, [])

end World

end

/-- What is left to those who type: names and strings below four gigabytes, and schemas
whose fields stay clear of each other. -/
def Proper (cmd : Command) : Prop :=
  cmd.Encodable ∧
    match cmd with
    | .registerSchema _ schema => (FieldType.aggregate schema.fields).SmallGaps
    | _ => True

def Phase.Proper : Phase → Prop
  | .sent cmd => Cli.Proper cmd
  | .idle | .answered _ _ | .ended _ => True

/-- No collection is created over another one. -/
def Unclaimed (cat : Catalogue) : Command → Prop
  | .createCollection name _ => cat.shelves name = none
  | _ => True

/-- What is typed next is proper, and what is served next claims a name of its own. -/
def World.Allowed {ι : Type} (floats : FloatText) (remains : Bytes → Bytes) (rounds : Nat)
    (world : World ι) (i : ι) : Prop :=
  match (world.clients i).phase with
  | .idle => ((world.clients i).request floats remains rounds).phase.Proper
  | .sent cmd => Unclaimed world.cat cmd
  | .answered _ _ | .ended _ => True

/-! Whether a schedule is allowed can be computed. -/

mutual
def decidableEncodable : (type : FieldType) → Decidable (FieldType.Encodable type)
  | .primitive _ => .isTrue trivial
  | .string capacity => inferInstanceAs (Decidable (capacity < 256 ^ 4))
  | .aggregate fields =>
      haveI := decidableEncodableFields fields
      inferInstanceAs (Decidable (fields.length < 256 ^ 4 ∧ EncodableFields fields))

def decidableEncodableFields : (fields : AggregateType) → Decidable (EncodableFields fields)
  | [] => .isTrue trivial
  | field :: rest =>
      haveI := decidableEncodable field.type
      haveI := decidableEncodableFields rest
      inferInstanceAs (Decidable
        ((field.name.length < 256 ^ 4 ∧ FieldType.Encodable field.type) ∧ EncodableFields rest))
end

instance decidableGapsAtMostHalf :
    (shapes : List Shape) → (offset : Nat) → Decidable (GapsAtMostHalf shapes offset)
  | [], _ => .isTrue trivial
  | shape :: rest, offset =>
      haveI := decidableGapsAtMostHalf rest (roundUp offset shape.align + shape.size)
      inferInstanceAs (Decidable (2 * (roundUp offset shape.align - offset) ≤ shape.align ∧
        GapsAtMostHalf rest (roundUp offset shape.align + shape.size)))

mutual
def decidableSmallGaps : (type : FieldType) → Decidable type.SmallGaps
  | .primitive _ | .string _ => .isTrue trivial
  | .aggregate fields =>
      haveI := decidableSmallGapsInside fields
      inferInstanceAs
        (Decidable (GapsAtMostHalf (shapes roundUp fields) 0 ∧ SmallGapsInside fields))

def decidableSmallGapsInside : (fields : AggregateType) → Decidable (SmallGapsInside fields)
  | [] => .isTrue trivial
  | field :: rest =>
      haveI := decidableSmallGaps field.type
      haveI := decidableSmallGapsInside rest
      inferInstanceAs (Decidable (field.type.SmallGaps ∧ SmallGapsInside rest))
end

instance (type : FieldType) : Decidable (FieldType.Encodable type) := decidableEncodable type

instance (type : FieldType) : Decidable type.SmallGaps := decidableSmallGaps type

instance : (cmd : Command) → Decidable cmd.Encodable
  | .monostate => .isFalse id
  | .registerSchema name schema => inferInstanceAs (Decidable (name.length < 256 ^ 4 ∧
      FieldType.Encodable (.aggregate schema.fields) ∧
        schema.keyFieldIndex < schema.fields.length))
  | .createCollection first second | .get first second | .put first second | .delete first second =>
      inferInstanceAs (Decidable (first.length < 256 ^ 4 ∧ second.length < 256 ^ 4))
  | .getSchema name | .getCollectionSchema name =>
      inferInstanceAs (Decidable (name.length < 256 ^ 4))

instance (cmd : Command) : Decidable (Proper cmd) :=
  haveI : Decidable (match cmd with
    | .registerSchema _ schema => (FieldType.aggregate schema.fields).SmallGaps
    | _ => True) :=
    match cmd with
    | .registerSchema _ schema =>
        inferInstanceAs (Decidable (FieldType.aggregate schema.fields).SmallGaps)
    | .monostate | .createCollection _ _ | .getSchema _ | .getCollectionSchema _ | .get _ _
    | .put _ _ | .delete _ _ => .isTrue trivial
  inferInstanceAs (Decidable (_ ∧ _))

instance : (phase : Phase) → Decidable phase.Proper
  | .sent cmd => inferInstanceAs (Decidable (Proper cmd))
  | .idle | .answered _ _ | .ended _ => .isTrue trivial

instance (cat : Catalogue) : (cmd : Command) → Decidable (Unclaimed cat cmd)
  | .createCollection name _ =>
      decidable_of_iff ((cat.shelves name).isNone = true) Option.isNone_iff_eq_none
  | .monostate | .registerSchema _ _ | .getSchema _ | .getCollectionSchema _ | .get _ _
  | .put _ _ | .delete _ _ => .isTrue trivial

instance {ι : Type} (floats : FloatText) (remains : Bytes → Bytes) (rounds : Nat)
    (world : World ι) (i : ι) : Decidable (world.Allowed floats remains rounds i) :=
  match phase : (world.clients i).phase with
  | .idle => decidable_of_iff ((world.clients i).request floats remains rounds).phase.Proper
      (by rw [World.Allowed, phase])
  | .sent cmd => decidable_of_iff (Unclaimed world.cat cmd) (by rw [World.Allowed, phase])
  | .answered _ _ | .ended _ => .isTrue (by rw [World.Allowed, phase]; trivial)

/-! ## What stays true -/

section

variable (floats : FloatText) (said : List Bytes → Prop) (cat : Catalogue)

/-- A document with values for which somebody has typed the lines. -/
def Typed (schema : Schema) (doc : Bytes) : Prop :=
  ∃ values lines rest, said lines ∧ enterAll floats schema.fields lines = .ok (values, rest) ∧
    Records schema doc values

/-- The documents on the shelf have been typed for its schema. -/
structure Stocked (shelf : Shelf) : Prop where
  usable : Usable shelf.schema
  made : ∃ coll, Collection.new shelf.schema = .ok coll ∧ shelf.key = coll.key ∧
    shelf.docSize = coll.docSize
  contents : ∀ {key doc}, shelf.contents key = some doc →
    shelf.key.keyOf doc = key ∧ Typed floats said shelf.schema doc
  short : ∀ {key doc}, shelf.contents key = some doc → doc.length < 256 ^ 4

structure Sound : Prop where
  schemas : ∀ {name schema}, cat.schemas name = some schema → Usable schema
  shelves : ∀ {name shelf}, cat.shelves name = some shelf → Stocked floats said shelf

/-- A command that fits the catalogue. -/
def Ready : Command → Prop
  | .monostate => False
  | .registerSchema _ schema => schema.keyFieldIndex < schema.fields.length ∧ Layable schema
  | .createCollection _ _ | .getSchema _ | .getCollectionSchema _ => True
  | .get name key | .delete name key => ∃ shelf, cat.shelves name = some shelf ∧ shelf.key.IsKey key
  | .put name doc => ∃ shelf, cat.shelves name = some shelf ∧ Typed floats said shelf.schema doc

/-- A response that the client can show. -/
def Showable (cmd : Command) : Response → Prop
  | .found doc =>
      match cmd with
      | .get name key => ∃ shelf, cat.shelves name = some shelf ∧
          shelf.key.keyOf doc = key ∧ Typed floats said shelf.schema doc
      | _ => True
  | .schema schema => Usable schema ∧
      match cmd with
      | .getCollectionSchema name => ∃ shelf, cat.shelves name = some shelf ∧ shelf.schema = schema
      | _ => True
  | _ => True

/-- What the client has been told of the collections still holds. -/
structure Informed (session : Session) : Prop extends session.Sound where
  told : ∀ {name schema}, session.colschemas name = some schema →
    ∃ shelf, cat.shelves name = some shelf ∧ shelf.schema = schema

structure Client.Sound (client : Client) : Prop where
  informed : Informed cat client.session
  input : said client.console.input
  phase : match client.phase with
    | .idle => True
    | .sent cmd => Ready floats said cat cmd ∧ Proper cmd
    | .answered cmd responses => ∀ res ∈ responses, Showable floats said cat cmd res
    | .ended exit => ∀ e ∈ exit, e.Benign
  cached : ∀ {name key}, client.phase.command = some (.get name key) →
    ∃ schema, client.session.colschemas name = some schema

end

variable {floats : FloatText} {said : List Bytes → Prop} {remains : Bytes → Bytes}
  {cat cat' : Catalogue} {cmd : Command} {res : Response} {client : Client} {session : Session}
  {shelf : Shelf} {name key doc : Bytes} {schema : Schema}

/-! ## Shelves -/

theorem Usable.newShelf (usable : Usable schema) :
    ∃ shelf, Shelf.new schema = some shelf ∧ Stocked floats said shelf := by
  obtain ⟨coll, made⟩ := usable.new
  refine ⟨{ schema, key := coll.key, docSize := coll.docSize }, ?_, usable,
    ⟨coll, made, rfl, rfl⟩, nofun, nofun⟩
  rw [Shelf.new, made]

namespace Stocked

variable (stocked : Stocked floats said shelf)

include stocked

theorem isDocument (typed : Typed floats said shelf.schema doc) : shelf.IsDocument doc := by
  obtain ⟨values, lines, rest, _, entered, records⟩ := typed
  obtain ⟨coll, made, key, docSize⟩ := stocked.made
  obtain ⟨value, _, _, short⟩ := records.keyOf made
  obtain ⟨_, _, size, _⟩ := Collection.new_layout made
  rw [Shelf.IsDocument, docSize, size, key]
  exact ⟨records.length, short⟩

theorem put (typed : Typed floats said shelf.schema doc) (short : doc.length < 256 ^ 4) :
    Stocked floats said (shelf.put doc) := by
  have after : ∀ {key other}, (shelf.put doc).contents key = some other →
      key = shelf.key.keyOf doc ∧ other = doc ∨ shelf.contents key = some other := by
    intro key other found
    replace found :
      Function.update shelf.contents (shelf.key.keyOf doc) (some doc) key = some other := found
    by_cases same : key = shelf.key.keyOf doc
    · rw [same, Function.update_self] at found
      cases found
      exact .inl ⟨same, rfl⟩
    · rw [Function.update_of_ne same] at found
      exact .inr found
  refine ⟨stocked.usable, stocked.made, ?_, ?_⟩
  · intro key other found
    rcases after found with ⟨rfl, rfl⟩ | before
    · exact ⟨rfl, typed⟩
    · exact stocked.contents before
  · intro key other found
    rcases after found with ⟨_, rfl⟩ | before
    · exact short
    · exact stocked.short before

theorem remove (key : Bytes) : Stocked floats said (shelf.remove key) := by
  have before : ∀ {other doc}, (shelf.remove key).contents other = some doc →
      shelf.contents other = some doc := by
    intro other doc found
    replace found : Function.update shelf.contents key none other = some doc := found
    by_cases same : other = key
    · rw [same, Function.update_self] at found
      cases found
    · rwa [Function.update_of_ne same] at found
  exact ⟨stocked.usable, stocked.made, fun found => stocked.contents (before found),
    fun found => stocked.short (before found)⟩

end Stocked

/-! ## Catalogues -/

/-- Collections stay, with the schema and the key that they have. -/
def Extends (cat cat' : Catalogue) : Prop :=
  ∀ name shelf, cat.shelves name = some shelf → ∃ shelf', cat'.shelves name = some shelf' ∧
    shelf'.schema = shelf.schema ∧ shelf'.key = shelf.key

theorem Extends.refl (cat : Catalogue) : Extends cat cat := fun _ shelf found =>
  ⟨shelf, found, rfl, rfl⟩

theorem extends_setShelf (same : ∀ old, cat.shelves name = some old →
    shelf.schema = old.schema ∧ shelf.key = old.key) :
    Extends cat (cat.setShelf name (some shelf)) := by
  intro other old found
  rw [Catalogue.setShelf]
  dsimp only
  by_cases here : other = name
  · rw [here, Function.update_self]
    rw [here] at found
    exact ⟨shelf, rfl, same old found⟩
  · rw [Function.update_of_ne here]
    exact ⟨old, found, rfl, rfl⟩

theorem Ready.mono (ready : Ready floats said cat cmd) (grown : Extends cat cat') :
    Ready floats said cat' cmd := by
  cases cmd with
  | monostate | registerSchema | createCollection | getSchema | getCollectionSchema => exact ready
  | get name key | delete name key =>
      obtain ⟨shelf, found, isKey⟩ := ready
      obtain ⟨shelf', found', _, sameKey⟩ := grown name shelf found
      exact ⟨shelf', found', sameKey ▸ isKey⟩
  | put name doc =>
      obtain ⟨shelf, found, typed⟩ := ready
      obtain ⟨shelf', found', sameSchema, _⟩ := grown name shelf found
      exact ⟨shelf', found', sameSchema ▸ typed⟩

theorem Showable.mono (showable : Showable floats said cat cmd res) (grown : Extends cat cat') :
    Showable floats said cat' cmd res := by
  cases res with
  | monostate | success | failed | invalidCommand | notFound | string => trivial
  | found doc =>
      cases cmd with
      | get name key =>
          obtain ⟨shelf, found, here, typed⟩ := showable
          obtain ⟨shelf', found', sameSchema, sameKey⟩ := grown name shelf found
          exact ⟨shelf', found', sameKey ▸ here, sameSchema ▸ typed⟩
      | monostate | registerSchema | createCollection | getSchema | getCollectionSchema | put
      | delete => trivial
  | schema schema =>
      refine ⟨showable.1, ?_⟩
      cases cmd with
      | getCollectionSchema name =>
          obtain ⟨shelf, found, same⟩ := showable.2
          obtain ⟨shelf', found', sameSchema, _⟩ := grown name shelf found
          exact ⟨shelf', found', sameSchema.trans same⟩
      | monostate | registerSchema | createCollection | getSchema | get | put | delete => trivial

theorem Informed.mono (informed : Informed cat session) (grown : Extends cat cat') :
    Informed cat' session where
  toSound := informed.toSound
  told := by
    intro name schema cached
    obtain ⟨shelf, found, same⟩ := informed.told cached
    obtain ⟨shelf', found', sameSchema, _⟩ := grown name shelf found
    exact ⟨shelf', found', sameSchema.trans same⟩

theorem Client.Sound.mono (sound : client.Sound floats said cat) (grown : Extends cat cat') :
    client.Sound floats said cat' where
  informed := sound.informed.mono grown
  input := sound.input
  phase := by
    have kept := sound.phase
    split
    · trivial
    · rename_i phase
      rw [phase] at kept
      exact ⟨Ready.mono kept.1 grown, kept.2⟩
    · rename_i phase
      rw [phase] at kept
      exact fun res member => (kept res member).mono grown
    · rename_i phase
      rw [phase] at kept
      exact kept
  cached := sound.cached

/-! ## Answers -/

/-- What an answer leads to. -/
structure Answered (floats : FloatText) (said : List Bytes → Prop) (cat : Catalogue) (cmd : Command)
    (answer : Catalogue × List Response) : Prop where
  takes : cat.Takes cmd
  grown : Extends cat answer.1
  sound : Sound floats said answer.1
  one : ∃ res, answer.2 = [res] ∧ res.Encodable ∧ Showable floats said answer.1 cmd res

theorem Sound.setShelf (sound : Sound floats said cat) (stocked : Stocked floats said shelf) :
    Sound floats said (cat.setShelf name (some shelf)) where
  schemas := sound.schemas
  shelves := by
    intro other old found
    replace found : Function.update cat.shelves name (some shelf) other = some old := found
    by_cases same : other = name
    · rw [same, Function.update_self] at found
      cases found
      exact stocked
    · rw [Function.update_of_ne same] at found
      exact sound.shelves found

theorem Sound.answered (sound : Sound floats said cat) (ready : Ready floats said cat cmd)
    (proper : Proper cmd) (unclaimed : Unclaimed cat cmd) :
    Answered floats said cat cmd (cat.answer cmd) := by
  obtain ⟨encodable, proper⟩ := proper
  cases cmd with
  | monostate => cases ready
  | registerSchema name schema =>
      refine ⟨trivial, fun _ shelf found => ⟨shelf, found, rfl, rfl⟩, ⟨?_, sound.shelves⟩,
        _, rfl, trivial, trivial⟩
      intro other schema' found
      replace found : Function.update cat.schemas name (some schema) other = some schema' := found
      by_cases same : other = name
      · rw [same, Function.update_self] at found
        cases found
        exact ⟨encodable.2, ready.2, proper⟩
      · rw [Function.update_of_ne same] at found
        exact sound.schemas found
  | createCollection name schemaName =>
      rw [Catalogue.answer]
      cases registered : cat.schemas schemaName with
      | none =>
          refine ⟨?_, .refl cat, sound, _, rfl, trivial, trivial⟩
          intro schema found
          cases registered.symm.trans found
      | some schema =>
          obtain ⟨shelf, new, stocked⟩ := (sound.schemas registered).newShelf
          dsimp only
          rw [new]
          refine ⟨?_, extends_setShelf ?_, sound.setShelf stocked, _, rfl, trivial, trivial⟩
          · intro other found
            cases registered.symm.trans found
            rw [new]
            exact Option.some_ne_none shelf
          · intro old found
            cases unclaimed.symm.trans found
  | getSchema name =>
      refine ⟨trivial, .refl cat, sound, _, rfl, ?_⟩
      cases registered : cat.schemas name with
      | none => exact ⟨trivial, trivial⟩
      | some schema =>
          have usable := sound.schemas registered
          exact ⟨usable.encodable, usable, trivial⟩
  | getCollectionSchema name =>
      refine ⟨trivial, .refl cat, sound, _, rfl, ?_⟩
      cases found : cat.shelves name with
      | none => exact ⟨trivial, trivial⟩
      | some shelf =>
          have usable := (sound.shelves found).usable
          exact ⟨usable.encodable, usable, shelf, found, rfl⟩
  | get name key =>
      obtain ⟨shelf, found, isKey⟩ := ready
      refine ⟨?_, .refl cat, sound, _, rfl, ?_⟩
      · intro other same
        cases found.symm.trans same
        exact isKey
      · rw [found]
        cases stored : shelf.contents key with
        | none =>
            rw [Option.bind_some, stored]
            exact ⟨trivial, trivial⟩
        | some doc =>
            rw [Option.bind_some, stored]
            have stocked := sound.shelves found
            exact ⟨stocked.short stored, shelf, found, stocked.contents stored⟩
  | put name doc =>
      obtain ⟨shelf, found, typed⟩ := ready
      have stocked := sound.shelves found
      rw [Catalogue.answer, found]
      refine ⟨?_, extends_setShelf ?_, sound.setShelf (stocked.put typed encodable.2),
        _, rfl, trivial, trivial⟩
      · intro other same
        cases found.symm.trans same
        exact stocked.isDocument typed
      · intro old same
        cases found.symm.trans same
        exact ⟨rfl, rfl⟩
  | delete name key =>
      obtain ⟨shelf, found, isKey⟩ := ready
      rw [Catalogue.answer, found]
      refine ⟨?_, extends_setShelf ?_, sound.setShelf ((sound.shelves found).remove key),
        _, rfl, trivial, trivial⟩
      · intro other same
        cases found.symm.trans same
        exact isKey
      · intro old same
        cases found.symm.trans same
        exact ⟨rfl, rfl⟩

end Boutique.Cli
