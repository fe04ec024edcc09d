import Boutique.Cli.Echo
import Boutique.Cli.Records
import Boutique.Db.CollectionKeys
import Boutique.Server.Catalogue

namespace Boutique.Cli

open Boutique.Core Boutique.Data Boutique.Db Boutique.Protocol Boutique.Server

/-! # Documents that are looked up -/

/-- The command leaves the document alone that the collection has under the key. -/
def Spares (access : KeyAccess) (name key : Bytes) : Command → Prop
  | .createCollection other _ => other ≠ name
  | .put other doc => other ≠ name ∨ access.keyOf doc ≠ key
  | .delete other key' => other ≠ name ∨ key' ≠ key
  | .monostate | .registerSchema _ _ | .getSchema _ | .getCollectionSchema _ | .get _ _ => True

instance (access : KeyAccess) (name key : Bytes) : DecidablePred (Spares access name key)
  | .createCollection other _ => inferInstanceAs (Decidable (other ≠ name))
  | .put other doc => inferInstanceAs (Decidable (other ≠ name ∨ access.keyOf doc ≠ key))
  | .delete other key' => inferInstanceAs (Decidable (other ≠ name ∨ key' ≠ key))
  | .monostate | .registerSchema _ _ | .getSchema _ | .getCollectionSchema _ | .get _ _ =>
      .isTrue trivial

/-- What the collection has under the key. -/
def Keeps (cat : Catalogue) (access : KeyAccess) (name key : Bytes) (doc : Option Bytes) : Prop :=
  ∃ shelf, cat.shelves name = some shelf ∧ shelf.key = access ∧ shelf.contents key = doc

variable {cat : Catalogue} {access : KeyAccess} {name key : Bytes} {doc : Option Bytes}
  {cmd : Command}

namespace Keeps

variable (keeps : Keeps cat access name key doc)

include keeps

theorem setShelf {other : Bytes} {shelf : Option Shelf} (apart : other ≠ name) :
    Keeps (cat.setShelf other shelf) access name key doc := by
  obtain ⟨kept, found, rest⟩ := keeps
  exact ⟨kept, (Function.update_of_ne (Ne.symm apart) ..).trans found, rest⟩

theorem answer (spares : Spares access name key cmd) :
    Keeps (cat.answer cmd).1 access name key doc := by
  cases cmd with
  | monostate | registerSchema | getSchema | getCollectionSchema | get => exact keeps
  | createCollection other schemaName =>
      rw [Catalogue.answer]
      cases cat.schemas schemaName with
      | none => exact keeps
      | some schema => exact keeps.setShelf spares
  | put other value =>
      rw [Catalogue.answer]
      cases found : cat.shelves other with
      | none => exact keeps
      | some shelf =>
          by_cases apart : other = name
          · subst apart
            obtain ⟨kept, found', rfl, rfl⟩ := keeps
            cases found.symm.trans found'
            have elsewhere := spares.resolve_left fun different => different rfl
            refine ⟨shelf.put value, Function.update_self .., rfl, ?_⟩
            exact Function.update_of_ne (Ne.symm elsewhere) ..
          · exact keeps.setShelf apart
  | delete other key' =>
      rw [Catalogue.answer]
      cases found : cat.shelves other with
      | none => exact keeps
      | some shelf =>
          by_cases apart : other = name
          · subst apart
            obtain ⟨kept, found', rfl, rfl⟩ := keeps
            cases found.symm.trans found'
            have elsewhere := spares.resolve_left fun different => different rfl
            refine ⟨shelf.remove key', Function.update_self .., rfl, ?_⟩
            exact Function.update_of_ne (Ne.symm elsewhere) ..
          · exact keeps.setShelf apart

theorem answerAll {cmds : List Command} (spares : ∀ cmd ∈ cmds, Spares access name key cmd) :
    Keeps (answerAll Catalogue.answer cat cmds).1 access name key doc := by
  induction cmds generalizing cat with
  | nil => exact keeps
  | cons cmd cmds ih =>
      obtain ⟨here, later⟩ := List.forall_mem_cons.mp spares
      rw [answerAll_cons]
      exact ih (keeps.answer here) later

end Keeps

/-- Whoever types the line for the key gets the document to see, with the values that
have been typed, until somebody puts or deletes one under the key. The database is the
one that the server has, and the commands are such that it answers as the catalogue. -/
theorem typed_found (std : StdHash) (floats : FloatText) (db : Database) (cat : Catalogue)
    (represents : Represents std db cat) (name : Bytes) (shelf : Shelf)
    (present : cat.shelves name = some shelf) (usable : Usable shelf.schema)
    (putter getter putter' : Console) (showPrompts showPrompts' : Bool) (doc : Bytes)
    (typed : readDocument floats showPrompts shelf.schema putter = .ok (doc, putter'))
    (same : getter.input.headD [] = (putter.input.drop
      (leavesAll (shelf.schema.fields.take shelf.schema.keyFieldIndex))).headD [])
    (between : List Command)
    (disciplined : AllowedAnswers Catalogue.answer (Catalogue.Disciplined std) cat
      (.put name doc :: between))
    (spares : ∀ cmd ∈ between, Spares shelf.key name (shelf.key.keyOf doc) cmd) :
    ∃ values rest getter' after responses,
      enterAll floats shelf.schema.fields putter.input = .ok (values, rest) ∧
      readKey floats showPrompts' shelf.schema getter = .ok (shelf.key.keyOf doc, getter') ∧
      executeAll (databaseOps std) db
        (.put name doc :: between ++ [.get name (shelf.key.keyOf doc)]) =
          .ok (after, responses ++ [.found doc]) ∧
      printAggregate floats doc shelf.schema.fields 0 =
        .ok (renderAll floats shelf.schema.fields values 0) := by
  obtain ⟨stored, _, holds⟩ := represents.some_of present
  obtain ⟨coll, made, kind⟩ := holds.built
  rw [holds.schema] at made
  have access : shelf.key = coll.key := holds.key.symm.trans kind.key
  have document := @readDocument_spec floats showPrompts shelf.schema putter usable
  cases entered : enterAll floats shelf.schema.fields putter.input with
  | error exception =>
      rw [entered] at document
      cases document.symm.trans typed
  | ok result =>
      obtain ⟨values, rest⟩ := result
      rw [entered] at document
      obtain ⟨_, _, read, _, records⟩ := document
      cases read.symm.trans typed
      obtain ⟨field, selected, leaf⟩ := usable.keyField
      obtain ⟨value, behind, found, alone⟩ := enterAll_getElem entered selected
      obtain ⟨_, found', keyOf, _⟩ := records.keyOf made
      cases found.symm.trans found'
      have again := enter_leaf leaf alone same
      have key :=
        @readKey_spec floats showPrompts' shelf.schema coll field getter usable made selected
      rw [again] at key
      obtain ⟨getter', read', _, isKey⟩ := key
      rw [← keyOf, ← access] at read' isKey
      have put : Keeps (cat.answer (.put name doc)).1 shelf.key name (shelf.key.keyOf doc)
          (some doc) := by
        rw [Catalogue.answer, present]
        exact ⟨shelf.put doc, Function.update_self .., rfl, Function.update_self ..⟩
      have kept : Keeps (Data.answerAll Catalogue.answer cat (.put name doc :: between)).1 shelf.key
          name (shelf.key.keyOf doc) (some doc) := by
        rw [answerAll_cons]
        exact put.answerAll spares
      obtain ⟨last, shown, sameKey, contents⟩ := kept
      have takes : Catalogue.Takes
          (Data.answerAll Catalogue.answer cat (.put name doc :: between)).1
          (.get name (shelf.key.keyOf doc)) := by
        intro other among
        cases shown.symm.trans among
        exact sameKey ▸ isKey
      have gets : AllowedAnswers Catalogue.answer (Catalogue.Disciplined std)
          (Data.answerAll Catalogue.answer cat (.put name doc :: between)).1
          [.get name (shelf.key.keyOf doc)] := ⟨⟨takes, trivial⟩, trivial⟩
      have allowed := allowedAnswers_append.mpr ⟨disciplined, gets⟩
      obtain ⟨after, ran, _⟩ :=
        (execute_simulates_disciplined std).run represents (allowed.allowedRun db)
      have answered : (Data.answerAll Catalogue.answer
          (Data.answerAll Catalogue.answer cat (.put name doc :: between)).1
          [.get name (shelf.key.keyOf doc)]).2 = [.found doc] := by
        rw [answerAll_cons, Catalogue.answer, shown, Option.bind_some, contents]
        rfl
      refine ⟨values, rest, getter', after,
        (Data.answerAll Catalogue.answer cat (.put name doc :: between)).2, rfl, read', ?_,
        records.stored.printAggregate usable.solid⟩
      rw [executeAll_eq_runAll, ran, answerAll_append, answered]

/-- Accounts by name. -/
def accountShelf : Shelf where
  schema := { fields := account, keyFieldIndex := 1 }
  key := { offset := 8, type := .string }
  docSize := 24

theorem accountShelf_usable : Usable accountShelf.schema where
  encodable := ⟨account_encodable, by decide⟩
  layable := by
    refine ⟨?_, ?_⟩
    · simp [accountShelf, account, FieldType.NoEmptyAggregate, NoEmptyAggregates]
    · intro field selected
      cases selected
      rfl
  small := account_smallGaps

theorem accountShelf_new : Shelf.new accountShelf.schema = some accountShelf := by
  have position : pad (pad 0 8 + 8) stringHeaderSize = 8 := by decide +kernel
  obtain ⟨coll, made, key, docSize⟩ : ∃ coll, Collection.new accountShelf.schema = .ok coll ∧
      coll.key = accountShelf.key ∧ coll.docSize = accountShelf.docSize :=
    ⟨_, rfl, congrArg (fun offset => { offset, type := .string : KeyAccess }) position,
      by decide +kernel⟩
  rw [Shelf.new, made]
  dsimp only
  rw [key, docSize]
  rfl

def adaTyped : List Bytes := [text "17", text "ada", text "-250"]

def adaDocument : Bytes :=
  [17, 0, 0, 0, 0, 0, 0, 0, 3, 0, 0, 0, 97, 100, 97, 0, 6, 255, 255, 255, 255, 255, 255, 255]

def bankOpening : List Command :=
  [.registerSchema (text "account") accountShelf.schema,
    .createCollection (text "bank") (text "account")]

theorem typed_found_account :
    ∃ db values rest getter' after responses,
      executeAll (databaseOps Collection.boundedHash) {} bankOpening =
        .ok (db, [.success, .success]) ∧
      enterAll noFloats account adaTyped = .ok (values, rest) ∧
      readKey noFloats true accountShelf.schema { input := [text "ada"] } =
        .ok (text "ada", getter') ∧
      executeAll (databaseOps Collection.boundedHash) db [.put (text "bank") adaDocument,
          .delete (text "bank") (text "bob"), .get (text "bank") (text "ada")] =
        .ok (after, responses ++ [.found adaDocument]) ∧
      printAggregate noFloats adaDocument account 0 =
        .ok (renderAll noFloats account values 0) := by
  have disciplined : AllowedAnswers Catalogue.answer
      (Catalogue.Disciplined Collection.boundedHash) {} bankOpening := by decide +kernel
  obtain ⟨db, ran, represents⟩ := (execute_simulates_disciplined Collection.boundedHash).run
    (represents_empty Collection.boundedHash) (disciplined.allowedRun ({} : Database))
  rw [← executeAll_eq_runAll] at ran
  have present : (answerAll Catalogue.answer {} bankOpening).1.shelves (text "bank") =
      some accountShelf := by
    rw [← accountShelf_new]
    rfl
  obtain ⟨values, rest, getter', after, responses, found⟩ := typed_found Collection.boundedHash
    noFloats db _ represents (text "bank") accountShelf present accountShelf_usable
    { input := adaTyped } { input := [text "ada"] } { input := [] } false true adaDocument
    (by decide +kernel) rfl [.delete (text "bank") (text "bob")] (by decide +kernel) (by decide)
  exact ⟨db, values, rest, getter', after, responses, ran, found⟩

end Boutique.Cli
