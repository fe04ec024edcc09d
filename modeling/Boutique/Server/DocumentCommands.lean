import Boutique.Db.CollectionFaults
import Boutique.Db.CollectionRoom
import Boutique.Server.ClientHandler

namespace Boutique.Server

open Boutique.Db Boutique.Protocol

variable {std : StdHash} {db db' : Database} {name key value : Bytes} {coll : Collection}
  {cmd : Command} {responses : List Response}

/-! ## The databases that commands lead to -/

def Reachable (std : StdHash) (db : Database) : Prop :=
  ∃ cmds responses, executeAll (databaseOps std) {} cmds = .ok (db, responses)

/-- Every collection is one that `P` holds of. -/
def Every (P : Collection → Prop) (db : Database) : Prop :=
  ∀ name coll, db.collection name = some coll → P coll

/-- What holds of new collections and what no operation on one breaks. -/
structure Invariant (std : StdHash) (P : Collection → Prop) : Prop where
  new : ∀ {schema coll}, Collection.new schema = .ok coll → P coll
  put : ∀ {coll value dest after}, P coll → coll.put std value = .ok (dest, after) → P after
  remove : ∀ {coll key after}, P coll → coll.remove std key = .ok after → P after

section

variable {P : Collection → Prop}

theorem Every.update (every : Every P db) (name : Bytes) (holds : P coll) :
    Every P (db.setCollection name coll) := by
  intro other found member
  rw [Database.collection, Database.setCollection] at member
  dsimp only at member
  by_cases same : other = name
  · subst same
    rw [Function.update_self] at member
    cases member
    exact holds
  · rw [Function.update_of_ne same] at member
    exact every other found member

theorem Invariant.execute (invariant : Invariant std P) (every : Every P db)
    (run : execute (databaseOps std) db cmd = .ok (db', responses)) : Every P db' := by
  cases (execute_ok run).1 with
  | unchanged => exact every
  | registered registered =>
      cases registered
      exact every
  | created created =>
      obtain ⟨coll, made, created⟩ := bind_ok_iff.mp created
      cases created
      exact every.update _ (invariant.new made)
  | stored present stored =>
      obtain ⟨_, put, stored⟩ := bind_ok_iff.mp stored
      cases stored
      exact every.update _ (invariant.put (every _ _ present) put)
  | removed present removed =>
      exact every.update _ (invariant.remove (every _ _ present) removed)

theorem Invariant.executeAll {cmds : List Command} (invariant : Invariant std P)
    (every : Every P db) (run : executeAll (databaseOps std) db cmds = .ok (db', responses)) :
    Every P db' := by
  induction cmds generalizing db responses with
  | nil =>
      cases run
      exact every
  | cons cmd cmds ih =>
      obtain ⟨first, one, run⟩ := bind_ok_iff.mp run
      obtain ⟨second, others, done⟩ := bind_ok_iff.mp run
      cases done
      exact ih (invariant.execute every one) others

theorem every_empty (P : Collection → Prop) : Every P {} := fun _ _ found => by cases found

end

/-- Every collection was made from its schema. -/
def AllBuilt (db : Database) : Prop := ∀ name coll, db.collection name = some coll → coll.Built

theorem built_invariant (std : StdHash) : Invariant std Collection.Built where
  new := .of_new
  put built put := built.of_sameKind (Collection.put_sameKind put)
  remove built removed := built.of_sameKind (Collection.remove_sameKind removed)

theorem Reachable.allBuilt (reachable : Reachable std db) : AllBuilt db := by
  obtain ⟨cmds, responses, run⟩ := reachable
  exact (built_invariant std).executeAll (every_empty _) run

/-! ## Document commands -/

/-- The collection a document command is about. -/
def collName : Command → Option Bytes
  | .get name _ | .put name _ | .delete name _ => some name
  | _ => none

/-- The lengths in the command are those that the collection works with. -/
def Confined (coll : Collection) : Command → Prop
  | .put _ value => coll.IsDocument value
  | .get _ key | .delete _ key => coll.key.IsKey key
  | _ => True

/-- The response says that nothing was done, and nothing was. -/
def Refused (db : Database) (outcome : Except Fault (Database × List Response)) : Prop :=
  ∃ response ∈ [Response.failed, .notFound, .invalidCommand], outcome = .ok (db, [response])

/-- The command is refused, or it has the right lengths and fails neither by a
read outside its bytes nor by the assertion on the length of its key. -/
def KeepsInside (std : StdHash) (db : Database) (coll : Collection) (cmd : Command) : Prop :=
  Refused db (execute (databaseOps std) db cmd) ∨
    Confined coll cmd ∧ Spares (execute (databaseOps std) db cmd)

theorem keyEnd_le_of_built (built : coll.Built) (document : coll.IsDocument value) :
    coll.key.keyEnd value ≤ coll.docSize := by
  obtain ⟨fresh, made, same⟩ := built
  have schema : fresh.schema = coll.schema := same.schema.symm
  rw [same.key, same.docSize]
  apply Collection.keyEnd_le_of_isDocument made
  obtain ⟨length, capacity⟩ := document
  rw [same.key] at capacity
  exact ⟨length.trans same.docSize, by rwa [schema]⟩

theorem keepsInside_of_confined (found : db.collection name = some coll) (built : coll.Built)
    (about : collName cmd = some name) (confined : Confined coll cmd) :
    KeepsInside std db coll cmd := by
  refine .inr ⟨confined, ?_⟩
  cases cmd with
  | monostate | registerSchema | createCollection | getSchema | getCollectionSchema => cases about
  | get name key =>
      cases about
      rw [execute_get _ found]
      exact (Collection.findDocument_spares confined).bind fun _ _ => .ok _
  | put name value =>
      cases about
      have fits := keyEnd_le_of_built built confined
      rw [execute_put _ found]
      apply Spares.bind
      · exact (Collection.put_spares confined.1 fits).bind fun _ _ => .ok _
      · exact fun _ _ => .ok _
  | delete name key =>
      cases about
      rw [execute_delete _ found]
      exact (Collection.remove_spares confined).bind fun _ _ => .ok _

theorem confined_of_keepsInside (found : db.collection name = some coll)
    (about : collName cmd = some name) (room : ∀ value, cmd = .put name value → coll.HasRoom)
    (inside : KeepsInside std db coll cmd) : Confined coll cmd := by
  rcases inside with ⟨response, refusal, refused⟩ | ⟨confined, _⟩
  · cases cmd with
    | monostate | registerSchema | createCollection | getSchema | getCollectionSchema => cases about
    | get name key =>
        cases about
        by_contra other
        rw [execute_get _ found] at refused
        obtain ⟨_, looked, _⟩ := bind_ok_iff.mp refused
        cases (Collection.findDocument_error other).symm.trans looked
    | put name value =>
        cases about
        rw [execute_put _ found] at refused
        obtain ⟨⟨stored, after⟩, put, done⟩ := bind_ok_iff.mp refused
        obtain ⟨⟨dest, after⟩, put, same⟩ := bind_ok_iff.mp put
        cases same
        cases dest with
        | none => exact absurd put (Collection.put_ne_none (room value rfl) after)
        | some dest =>
            have same := congrArg (Except.map Prod.snd) done
            cases same
            simp at refusal
    | delete name key =>
        cases about
        by_contra other
        rw [execute_delete _ found] at refused
        obtain ⟨_, removed, _⟩ := bind_ok_iff.mp refused
        cases (Collection.remove_error other).symm.trans removed
  · exact confined

/-- No check stands between the wire and the collection: a document command
stays inside its bytes if its lengths are right, and only then, provided that a
`put` does not fail for want of a bucket. -/
theorem keepsInside_iff_confined (std : StdHash) (db : Database) (reachable : Reachable std db)
    (name : Bytes) (coll : Collection) (found : db.collection name = some coll) (cmd : Command)
    (about : collName cmd = some name) :
    (Confined coll cmd → KeepsInside std db coll cmd) ∧
    ((∀ value, cmd = .put name value → coll.HasRoom) →
      (KeepsInside std db coll cmd ↔ Confined coll cmd)) := by
  have enough : Confined coll cmd → KeepsInside std db coll cmd :=
    keepsInside_of_confined found (reachable.allBuilt name coll found) about
  exact ⟨enough, fun room => ⟨confined_of_keepsInside found about room, enough⟩⟩

/-! A database with one empty ledger. -/

open Collection

def ledgers : Database :=
  (({} : Database).registerSchema [108] ledgerSchema).setCollection [99] emptyLedger

theorem reachable_ledgers : Reachable noHash ledgers := by
  let named : Database := ({} : Database).registerSchema [108] ledgerSchema
  have first : execute (databaseOps noHash) {} (.registerSchema [108] ledgerSchema) =
      .ok (named, [.success]) := rfl
  have created : (databaseOps noHash).createCollection [99] ledgerSchema named = .ok ledgers := by
    change named.createCollection [99] ledgerSchema = _
    rw [Database.createCollection, new_ledger]
    rfl
  have second : execute (databaseOps noHash) named (.createCollection [99] [108]) =
      .ok (ledgers, [.success]) := by
    have present : (databaseOps noHash).schema [108] named = some ledgerSchema := rfl
    rw [execute, present]
    dsimp only
    rw [created]
    rfl
  refine ⟨[.registerSchema [108] ledgerSchema, .createCollection [99] [108]],
    [.success, .success], ?_⟩
  rw [executeAll, first, ok_bind]
  dsimp only
  rw [executeAll, second]
  rfl

/-- Overwriting nothing, the ledger takes its first entry. -/
theorem keepsInside_iff_confined_ledger :
    Reachable noHash ledgers ∧ ledgers.collection [99] = some emptyLedger ∧
      (KeepsInside noHash ledgers emptyLedger (.put [99] (ledgerEntry 1 5)) ↔
        Confined emptyLedger (.put [99] (ledgerEntry 1 5))) := by
  have room : emptyLedger.HasRoom := (new_sound new_ledger noHash).hasRoom
  exact ⟨reachable_ledgers, rfl, (keepsInside_iff_confined noHash ledgers reachable_ledgers [99]
    emptyLedger rfl (.put [99] (ledgerEntry 1 5)) rfl).2 fun _ _ => room⟩

/-- A key of one byte fails the assertion, a value of three bytes is read to its
twelfth, and one of thirteen is stored short of its last. -/
theorem ledger_reads_outside :
    Reachable noHash ledgers ∧ ledgers.collection [99] = some emptyLedger ∧
      ¬ KeepsInside noHash ledgers emptyLedger (.get [99] [1]) ∧
      ¬ KeepsInside noHash ledgers emptyLedger (.delete [99] [1]) ∧
      ¬ KeepsInside noHash ledgers emptyLedger (.put [99] [1, 2, 3]) ∧
      ¬ KeepsInside noHash ledgers emptyLedger (.put [99] (ledgerEntry 1 5 ++ [0])) := by
  have room : emptyLedger.HasRoom := (new_sound new_ledger noHash).hasRoom
  have present : ledgers.collection [99] = some emptyLedger := rfl
  refine ⟨reachable_ledgers, present, ?_, ?_, ?_, ?_⟩
  · intro inside
    cases confined_of_keepsInside present rfl (fun _ _ => room) inside
  · intro inside
    cases confined_of_keepsInside present rfl (fun _ _ => room) inside
  · intro inside
    cases (confined_of_keepsInside present rfl (fun _ _ => room) inside).1
  · intro inside
    cases (confined_of_keepsInside present rfl (fun _ _ => room) inside).1

end Boutique.Server
