import Boutique.Db.Shelf
import Boutique.Server.DocumentCommands

namespace Boutique.Server

open Boutique.Data Boutique.Db Boutique.Protocol

/-! # What the server is for

A catalogue of schemas and shelves that answers each command at once. -/

structure Catalogue where
  schemas : Bytes → Option Schema := fun _ => none
  shelves : Bytes → Option Shelf := fun _ => none

namespace Catalogue

def setShelf (cat : Catalogue) (name : Bytes) (shelf : Option Shelf) : Catalogue :=
  { cat with shelves := Function.update cat.shelves name shelf }

/-- What a command does to the catalogue, and the responses it gets. -/
def answer (cat : Catalogue) : Command → Catalogue × List Response
  | .monostate => (cat, [])
  | .registerSchema name schema =>
      ({ cat with schemas := Function.update cat.schemas name (some schema) }, [.success])
  | .createCollection name schemaName =>
      match cat.schemas schemaName with
      | none => (cat, [.notFound])
      | some schema => (cat.setShelf name (Shelf.new schema), [.success])
  | .getSchema name => (cat, [(cat.schemas name).elim .notFound .schema])
  | .getCollectionSchema name =>
      (cat, [(cat.shelves name).elim .notFound fun shelf => .schema shelf.schema])
  | .get name key =>
      (cat, [((cat.shelves name).bind fun shelf => shelf.contents key).elim .notFound .found])
  | .put name value =>
      match cat.shelves name with
      | none => (cat, [.notFound])
      | some shelf => (cat.setShelf name (shelf.put value), [.success])
  | .delete name key =>
      match cat.shelves name with
      | none => (cat, [.notFound])
      | some shelf => (cat.setShelf name (shelf.remove key), [.success])

/-- A collection is made with a schema that lays out documents, and documents and
keys have the lengths that it asks for. -/
def Takes (cat : Catalogue) : Command → Prop
  | .createCollection _ schemaName => ∀ schema ∈ cat.schemas schemaName, Shelf.new schema ≠ none
  | .get name key | .delete name key => ∀ shelf ∈ cat.shelves name, shelf.key.IsKey key
  | .put name value => ∀ shelf ∈ cat.shelves name, shelf.IsDocument value
  | _ => True

/-- A document's key hashes to no mark, and is not stored unless nothing has
been removed from the shelf. -/
def Tidy (std : StdHash) (cat : Catalogue) : Command → Prop
  | .put name value => ∀ shelf ∈ cat.shelves name,
      Hashable (shelf.key.hash std (shelf.key.keyOf value)) ∧
        (shelf.contents (shelf.key.keyOf value) = none ∨ shelf.pruned = false)
  | _ => True

end Catalogue

/-- The key of a document hashes to no mark, and `put` takes no removed bucket in
front of the one of a stored key. -/
def CleanCommand (std : StdHash) (db : Database) : Command → Prop
  | .put name value => ∀ coll ∈ db.collection name, coll.Clean std (.put value)
  | _ => True

def Careful (std : StdHash) (db : Database) (cat : Catalogue) (cmd : Command) : Prop :=
  cat.Takes cmd ∧ CleanCommand std db cmd

/-- What clients can see to by themselves. -/
def Catalogue.Disciplined (std : StdHash) (cat : Catalogue) (cmd : Command) : Prop :=
  cat.Takes cmd ∧ cat.Tidy std cmd

section

variable (std : StdHash) (db : Database) (cat : Catalogue)

instance : (cmd : Command) → Decidable (cat.Takes cmd)
  | .createCollection _ schemaName => inferInstanceAs
      (Decidable (∀ schema ∈ cat.schemas schemaName, Shelf.new schema ≠ none))
  | .get name key | .delete name key => inferInstanceAs
      (Decidable (∀ shelf ∈ cat.shelves name, shelf.key.IsKey key))
  | .put name value => inferInstanceAs
      (Decidable (∀ shelf ∈ cat.shelves name, shelf.IsDocument value))
  | .monostate | .registerSchema _ _ | .getSchema _ | .getCollectionSchema _ => .isTrue trivial

instance : (cmd : Command) → Decidable (cat.Tidy std cmd)
  | .put name value => inferInstanceAs (Decidable (∀ shelf ∈ cat.shelves name,
      Hashable (shelf.key.hash std (shelf.key.keyOf value)) ∧
        (shelf.contents (shelf.key.keyOf value) = none ∨ shelf.pruned = false)))
  | .monostate | .registerSchema _ _ | .createCollection _ _ | .getSchema _
  | .getCollectionSchema _ | .get _ _ | .delete _ _ => .isTrue trivial

instance : (cmd : Command) → Decidable (CleanCommand std db cmd)
  | .put name value => inferInstanceAs
      (Decidable (∀ coll ∈ db.collection name, coll.Clean std (.put value)))
  | .monostate | .registerSchema _ _ | .createCollection _ _ | .getSchema _
  | .getCollectionSchema _ | .get _ _ | .delete _ _ => .isTrue trivial

instance (cmd : Command) : Decidable (Careful std db cat cmd) :=
  inferInstanceAs (Decidable (_ ∧ _))

instance (cmd : Command) : Decidable (cat.Disciplined std cmd) :=
  inferInstanceAs (Decidable (_ ∧ _))

end

/-- The database stores what is in the catalogue. -/
structure Represents (std : StdHash) (db : Database) (cat : Catalogue) : Prop where
  schemas : db.schemas = cat.schemas
  shelves : ∀ name, Option.Rel (Shelf.Holds std) (db.colls name) (cat.shelves name)

variable {std : StdHash} {db : Database} {cat : Catalogue} {cmd : Command} {name key value : Bytes}
  {coll : Collection} {shelf : Shelf}

theorem represents_empty (std : StdHash) : Represents std {} {} := ⟨rfl, fun _ => .none⟩

namespace Represents

variable (represents : Represents std db cat)

include represents

theorem none_iff : db.collection name = none ↔ cat.shelves name = none := by
  have same := represents.shelves name
  rw [Database.collection]
  cases stored : db.colls name with
  | none =>
      rw [stored] at same
      cases shown : cat.shelves name with
      | none => simp
      | some shelf =>
          rw [shown] at same
          cases same
  | some coll =>
      rw [stored] at same
      cases shown : cat.shelves name with
      | none =>
          rw [shown] at same
          cases same
      | some shelf => simp

theorem some_of (shown : cat.shelves name = some shelf) :
    ∃ coll, db.collection name = some coll ∧ Shelf.Holds std coll shelf := by
  have same := represents.shelves name
  rw [shown] at same
  rw [Database.collection]
  cases stored : db.colls name with
  | none =>
      rw [stored] at same
      cases same
  | some coll =>
      rw [stored] at same
      cases same
      exact ⟨coll, rfl, by assumption⟩

theorem setCollection (holds : Shelf.Holds std coll shelf) :
    Represents std (db.setCollection name coll) (cat.setShelf name (some shelf)) where
  schemas := represents.schemas
  shelves := by
    intro other
    rw [Database.setCollection, Catalogue.setShelf]
    dsimp only
    by_cases same : other = name
    · rw [same, Function.update_self, Function.update_self]
      exact .some holds
    · rw [Function.update_of_ne same, Function.update_of_ne same]
      exact represents.shelves other

/-! ## One command -/

theorem createCollection {schemaName : Bytes}
    (takes : cat.Takes (.createCollection name schemaName)) :
    ∃ after, execute (databaseOps std) db (.createCollection name schemaName) =
        .ok (after, (cat.answer (.createCollection name schemaName)).2) ∧
      Represents std after (cat.answer (.createCollection name schemaName)).1 := by
  have found : (databaseOps std).schema schemaName db = cat.schemas schemaName :=
    congrFun represents.schemas schemaName
  rw [execute, found, Catalogue.answer]
  cases registered : cat.schemas schemaName with
  | none => exact ⟨db, rfl, represents⟩
  | some schema =>
      have laid := takes schema registered
      dsimp only
      cases made : Collection.new schema with
      | error fault =>
          rw [Shelf.new, made] at laid
          exact absurd rfl laid
      | ok coll =>
          obtain ⟨shelf, new, holds⟩ := @Shelf.Holds.of_new std coll schema made
          have created : (databaseOps std).createCollection name schema db =
              .ok (db.setCollection name coll) := by
            change db.createCollection name schema = _
            rw [Database.createCollection, made]
            rfl
          rw [created, new]
          exact ⟨_, rfl, represents.setCollection holds⟩

theorem get (takes : cat.Takes (.get name key)) :
    ∃ after, execute (databaseOps std) db (.get name key) =
        .ok (after, (cat.answer (.get name key)).2) ∧
      Represents std after (cat.answer (.get name key)).1 := by
  cases shown : cat.shelves name with
  | none =>
      have absent : (databaseOps std).collection name db = none := represents.none_iff.mpr shown
      refine ⟨db, ?_, represents⟩
      rw [execute, absent, Catalogue.answer, shown]
      rfl
  | some shelf =>
      obtain ⟨coll, present, holds⟩ := represents.some_of shown
      have looked : (databaseOps std).find coll key = .ok (shelf.contents key) :=
        holds.find (takes shelf shown)
      refine ⟨db, ?_, represents⟩
      rw [execute_get (databaseOps std) present, looked, Catalogue.answer, shown]
      rfl

theorem put (takes : cat.Takes (.put name value)) (clean : CleanCommand std db (.put name value)) :
    ∃ after, execute (databaseOps std) db (.put name value) =
        .ok (after, (cat.answer (.put name value)).2) ∧
      Represents std after (cat.answer (.put name value)).1 := by
  cases shown : cat.shelves name with
  | none =>
      have absent : (databaseOps std).collection name db = none := represents.none_iff.mpr shown
      rw [execute, absent, Catalogue.answer, shown]
      exact ⟨db, rfl, represents⟩
  | some shelf =>
      obtain ⟨coll, present, holds⟩ := represents.some_of shown
      obtain ⟨length, capacity⟩ := takes shelf shown
      have document : coll.IsDocument value := by
        rw [Collection.IsDocument, holds.docSize, holds.schema, holds.key]
        exact ⟨length, capacity⟩
      obtain ⟨dest, after, stored, holds⟩ := holds.put document.1
        (keyEnd_le_of_built holds.built document) (clean coll present)
      have done : (databaseOps std).put coll value = .ok (true, after) := by
        change (coll.put std value >>= fun placed => pure (placed.1.isSome, placed.2)) = _
        rw [stored]
        rfl
      rw [execute_put (databaseOps std) present, done, Catalogue.answer, shown]
      exact ⟨_, rfl, represents.setCollection holds⟩

theorem delete (takes : cat.Takes (.delete name key)) :
    ∃ after, execute (databaseOps std) db (.delete name key) =
        .ok (after, (cat.answer (.delete name key)).2) ∧
      Represents std after (cat.answer (.delete name key)).1 := by
  cases shown : cat.shelves name with
  | none =>
      have absent : (databaseOps std).collection name db = none := represents.none_iff.mpr shown
      rw [execute, absent, Catalogue.answer, shown]
      exact ⟨db, rfl, represents⟩
  | some shelf =>
      obtain ⟨coll, present, holds⟩ := represents.some_of shown
      obtain ⟨after, removed, holds⟩ := holds.remove (takes shelf shown)
      have done : (databaseOps std).remove coll key = .ok after := removed
      rw [execute_delete (databaseOps std) present, done, Catalogue.answer, shown]
      exact ⟨_, rfl, represents.setCollection holds⟩

theorem execute (takes : cat.Takes cmd) (clean : CleanCommand std db cmd) :
    ∃ after, execute (databaseOps std) db cmd = .ok (after, (cat.answer cmd).2) ∧
      Represents std after (cat.answer cmd).1 := by
  cases cmd with
  | monostate => exact ⟨db, rfl, represents⟩
  | registerSchema name schema =>
      refine ⟨db.registerSchema name schema, rfl, ?_, represents.shelves⟩
      rw [Database.registerSchema, represents.schemas]
      rfl
  | createCollection => exact represents.createCollection takes
  | getSchema name =>
      have found : (databaseOps std).schema name db = cat.schemas name :=
        congrFun represents.schemas name
      refine ⟨db, ?_, represents⟩
      rw [Server.execute, found, Catalogue.answer]
      cases cat.schemas name <;> rfl
  | getCollectionSchema name =>
      refine ⟨db, ?_, represents⟩
      cases shown : cat.shelves name with
      | none =>
          have absent : (databaseOps std).collection name db = none := represents.none_iff.mpr shown
          rw [Server.execute, absent, Catalogue.answer, shown]
          rfl
      | some shelf =>
          obtain ⟨coll, present, holds⟩ := represents.some_of shown
          have found : (databaseOps std).collection name db = some coll := present
          have schema : (databaseOps std).collSchema coll = shelf.schema := holds.schema
          rw [Server.execute, found, Catalogue.answer, shown]
          dsimp only
          rw [schema]
          rfl
  | get => exact represents.get takes
  | put => exact represents.put takes clean
  | delete => exact represents.delete takes

/-- A tidy command is a clean one. -/
theorem clean_of_tidy (tidy : cat.Tidy std cmd) : CleanCommand std db cmd := by
  cases cmd with
  | put name value =>
      intro coll present
      cases shown : cat.shelves name with
      | none =>
          rw [represents.none_iff.mpr shown] at present
          cases present
      | some shelf =>
          obtain ⟨other, found, holds⟩ := represents.some_of shown
          obtain rfl : other = coll := Option.some.inj (found.symm.trans present)
          obtain ⟨hashable, clear⟩ := tidy shelf shown
          rw [← holds.key] at hashable clear
          exact ⟨hashable, holds.not_reusesMarker clear⟩
  | monostate | registerSchema | createCollection | getSchema | getCollectionSchema | get
  | delete => trivial

end Represents

/-! ## Runs -/

theorem execute_simulates (std : StdHash) :
    Simulates (execute (databaseOps std)) Catalogue.answer (Represents std) (Careful std) :=
  fun _ _ _ represents careful => represents.execute careful.1 careful.2

theorem execute_simulates_disciplined (std : StdHash) :
    Simulates (execute (databaseOps std)) Catalogue.answer (Represents std)
      fun _ => Catalogue.Disciplined std :=
  fun _ _ _ represents disciplined =>
    represents.execute disciplined.1 (represents.clean_of_tidy disciplined.2)

/-- Commands that are careful where they come to are executed without a fault,
and their responses are those of the catalogue. -/
theorem executeAll_answers (std : StdHash) (db : Database) (cat : Catalogue)
    (represents : Represents std db cat) (cmds : List Command)
    (careful : AllowedRun (execute (databaseOps std)) Catalogue.answer (Careful std) db cat cmds) :
    ∃ after, executeAll (databaseOps std) db cmds =
        .ok (after, (answerAll Catalogue.answer cat cmds).2) ∧
      Represents std after (answerAll Catalogue.answer cat cmds).1 := by
  rw [executeAll_eq_runAll]
  exact (execute_simulates std).run represents careful

open Collection

/-- The ids 1, 33 and 65 share their bucket; 1 is overwritten and deleted. -/
def ledgerCommands : List Command :=
  [.registerSchema [108] ledgerSchema, .createCollection [99] [108], .put [99] (ledgerEntry 1 5),
    .put [99] (ledgerEntry 33 6), .put [99] (ledgerEntry 1 7), .get [99] (leBytes 8 1),
    .delete [99] (leBytes 8 1), .get [99] (leBytes 8 1), .put [99] (ledgerEntry 65 8),
    .getCollectionSchema [98], .get [99] (leBytes 8 33)]

theorem executeAll_answers_ledger :
    ∃ after, executeAll (databaseOps noHash) {} ledgerCommands =
        .ok (after, (answerAll Catalogue.answer {} ledgerCommands).2) ∧
      Represents noHash after (answerAll Catalogue.answer {} ledgerCommands).1 :=
  executeAll_answers noHash {} {} (represents_empty noHash) ledgerCommands (by decide +kernel)

/-- Clients that overwrite no document of a collection from which one has been
deleted get the responses of the catalogue, whatever the hash functions do
besides marking no key. -/
theorem disciplined_answers (std : StdHash) (db : Database) (cat : Catalogue)
    (represents : Represents std db cat) (cmds : List Command)
    (disciplined : AllowedAnswers Catalogue.answer (Catalogue.Disciplined std) cat cmds) :
    ∃ after, executeAll (databaseOps std) db cmds =
        .ok (after, (answerAll Catalogue.answer cat cmds).2) ∧
      Represents std after (answerAll Catalogue.answer cat cmds).1 := by
  rw [executeAll_eq_runAll]
  exact (execute_simulates_disciplined std).run represents (disciplined.allowedRun db)

/-- After the delete the id 33 is deleted before it is put again. -/
theorem disciplined_answers_ledger :
    ∃ after, executeAll (databaseOps noHash) {} (ledgerCommands ++
          [.delete [99] (leBytes 8 33), .put [99] (ledgerEntry 33 9)]) =
        .ok (after, (answerAll Catalogue.answer {} (ledgerCommands ++
          [.delete [99] (leBytes 8 33), .put [99] (ledgerEntry 33 9)])).2) ∧
      Represents noHash after (answerAll Catalogue.answer {} (ledgerCommands ++
          [.delete [99] (leBytes 8 33), .put [99] (ledgerEntry 33 9)])).1 :=
  disciplined_answers noHash {} {} (represents_empty noHash) _ (by decide +kernel)

end Boutique.Server
