import Boutique.Core.StreamBuf
import Boutique.Data.Executions
import Boutique.Db.Database
import Boutique.Protocol.MessageCodec

namespace Boutique.Server

open Boutique.Core Boutique.Data Boutique.Db Boutique.Protocol

variable {Store Coll : Type}

/-- The operations of `Database` and `Collection` that commands reach. A
`Collection*` is the collection it points to, written back by `setCollection`;
`find` returns the `doc_size()` bytes at the pointer it gets, and `put` whether
its pointer is not null. -/
structure DatabaseOps (Store Coll : Type) where
  registerSchema : Bytes → Schema → Store → Except Fault Store
  createCollection : Bytes → Schema → Store → Except Fault Store
  schema : Bytes → Store → Option Schema
  collection : Bytes → Store → Option Coll
  setCollection : Bytes → Coll → Store → Store
  collSchema : Coll → Schema
  find : Coll → Bytes → Except Fault (Option Bytes)
  put : Coll → Bytes → Except Fault (Bool × Coll)
  remove : Coll → Bytes → Except Fault Coll

/-- The operations as `Database` and `Collection` implement them. -/
def databaseOps (std : StdHash) : DatabaseOps Database Collection where
  registerSchema name schema db := return db.registerSchema name schema
  createCollection name schema db := db.createCollection name schema
  schema name db := db.schema name
  collection name db := db.collection name
  setCollection name coll db := db.setCollection name coll
  collSchema coll := coll.schema
  find coll key := coll.findDocument std key
  put coll value := do
    let (dest, coll) ← coll.put std value
    return (dest.isSome, coll)
  remove coll key := coll.remove std key

/-- The visitor of `recv_handler`: what one command does to the database, and
the responses it passes to `write_and_send`. -/
def execute (ops : DatabaseOps Store Coll) (db : Store) :
    Command → Except Fault (Store × List Response)
  | .monostate => return (db, [])
  | .registerSchema name schema => do
      return (← ops.registerSchema name schema db, [.success])
  | .createCollection name schemaName =>
      match ops.schema schemaName db with
      | none => return (db, [.notFound])
      | some schema => do
          return (← ops.createCollection name schema db, [.success])
  | .getSchema name =>
      match ops.schema name db with
      | none => return (db, [.notFound])
      | some schema => return (db, [.schema schema])
  | .getCollectionSchema name =>
      match ops.collection name db with
      | none => return (db, [.notFound])
      | some coll => return (db, [.schema (ops.collSchema coll)])
  | .get collName key =>
      match ops.collection collName db with
      | none => return (db, [.notFound])
      | some coll => do
          match ← ops.find coll key with
          | none => return (db, [.notFound])
          | some found => return (db, [.found found])
  | .put collName value =>
      match ops.collection collName db with
      | none => return (db, [.notFound])
      | some coll => do
          let (stored, coll) ← ops.put coll value
          return (ops.setCollection collName coll db, [if stored then .success else .failed])
  | .delete collName key =>
      match ops.collection collName db with
      | none => return (db, [.notFound])
      | some coll => do
          let coll ← ops.remove coll key
          return (ops.setCollection collName coll db, [.success])

section

variable (ops : DatabaseOps Store Coll) {db : Store} {collName : Bytes} {coll : Coll}
  (present : ops.collection collName db = some coll)

include present

theorem execute_get (key : Bytes) :
    execute ops db (.get collName key) =
      ops.find coll key >>= fun found => .ok (db, [found.elim .notFound .found]) := by
  rw [execute, present]
  dsimp only
  congr 1
  funext found
  cases found <;> rfl

theorem execute_put (value : Bytes) :
    execute ops db (.put collName value) =
      ops.put coll value >>= fun (stored, coll) =>
        .ok (ops.setCollection collName coll db, [if stored then .success else .failed]) := by
  rw [execute, present]
  rfl

theorem execute_delete (key : Bytes) :
    execute ops db (.delete collName key) =
      ops.remove coll key >>= fun coll =>
        .ok (ops.setCollection collName coll db, [.success]) := by
  rw [execute, present]
  rfl

end

/-- What a command that does not fail does to the database. -/
inductive Executed (ops : DatabaseOps Store Coll) (db : Store) : Store → Prop where
  | unchanged : Executed ops db db
  | registered {name schema after} (run : ops.registerSchema name schema db = .ok after) :
      Executed ops db after
  | created {name schema after} (run : ops.createCollection name schema db = .ok after) :
      Executed ops db after
  | stored {collName coll value stored after} (present : ops.collection collName db = some coll)
      (run : ops.put coll value = .ok (stored, after)) :
      Executed ops db (ops.setCollection collName after db)
  | removed {collName coll key after} (present : ops.collection collName db = some coll)
      (run : ops.remove coll key = .ok after) :
      Executed ops db (ops.setCollection collName after db)

theorem execute_ok {ops : DatabaseOps Store Coll} {db after : Store} {cmd : Command}
    {responses : List Response} (run : execute ops db cmd = .ok (after, responses)) :
    Executed ops db after ∧ (cmd ≠ .monostate → responses.length = 1) ∧
      (.failed ∈ responses → ∃ collName coll value full,
        ops.collection collName db = some coll ∧ ops.put coll value = .ok (false, full)) := by
  cases cmd with
  | monostate =>
      cases run
      exact ⟨.unchanged, fun known => absurd rfl known, by simp⟩
  | registerSchema name schema =>
      obtain ⟨_, registered, done⟩ := bind_ok_iff.mp run
      cases done
      exact ⟨.registered registered, fun _ => rfl, by simp⟩
  | createCollection name schemaName =>
      rw [execute] at run
      split at run
      · cases run
        exact ⟨.unchanged, fun _ => rfl, by simp⟩
      · obtain ⟨_, created, done⟩ := bind_ok_iff.mp run
        cases done
        exact ⟨.created created, fun _ => rfl, by simp⟩
  | getSchema name | getCollectionSchema name =>
      rw [execute] at run
      split at run <;> cases run <;> exact ⟨.unchanged, fun _ => rfl, by simp⟩
  | get collName key =>
      cases present : ops.collection collName db with
      | none =>
          rw [execute, present] at run
          cases run
          exact ⟨.unchanged, fun _ => rfl, by simp⟩
      | some coll =>
          rw [execute_get ops present] at run
          obtain ⟨found, _, done⟩ := bind_ok_iff.mp run
          cases done
          exact ⟨.unchanged, fun _ => rfl, by cases found <;> simp⟩
  | put collName value =>
      cases present : ops.collection collName db with
      | none =>
          rw [execute, present] at run
          cases run
          exact ⟨.unchanged, fun _ => rfl, by simp⟩
      | some coll =>
          rw [execute_put ops present] at run
          obtain ⟨⟨placed, full⟩, stored, done⟩ := bind_ok_iff.mp run
          cases done
          refine ⟨.stored present stored, fun _ => rfl, fun failed => ?_⟩
          cases placed with
          | false => exact ⟨collName, coll, value, full, present, stored⟩
          | true => simp at failed
  | delete collName key =>
      cases present : ops.collection collName db with
      | none =>
          rw [execute, present] at run
          cases run
          exact ⟨.unchanged, fun _ => rfl, by simp⟩
      | some coll =>
          rw [execute_delete ops present] at run
          obtain ⟨_, removed, done⟩ := bind_ok_iff.mp run
          cases done
          exact ⟨.removed present removed, fun _ => rfl, by simp⟩

/-- Executing commands one by one. -/
def executeAll (ops : DatabaseOps Store Coll) (db : Store) :
    List Command → Except Fault (Store × List Response)
  | [] => return (db, [])
  | cmd :: cmds => do
      let (db, first) ← execute ops db cmd
      let (db, later) ← executeAll ops db cmds
      return (db, first ++ later)

theorem executeAll_eq_runAll (ops : DatabaseOps Store Coll) (db : Store) (cmds : List Command) :
    executeAll ops db cmds = runAll (execute ops) db cmds := by
  induction cmds generalizing db with
  | nil => rfl
  | cons cmd cmds ih =>
      rw [executeAll, runAll]
      cases execute ops db cmd with
      | error fault => rfl
      | ok first =>
          rw [ok_bind]
          dsimp only
          rw [ih]
          cases runAll (execute ops) first.1 cmds <;> rfl

structure ClientHandler where
  closed : Bool := false
  stream : StreamBuf := {}
deriving DecidableEq, Repr

/-- The `for (;;)` of `recv_handler`. `cmdBuf` points `pos` bytes into the
stream buffer and spans `rest`; the command is moved from after its visit, so
what `cmd` holds then is whatever the reader finds. -/
def recvLoop (ops : DatabaseOps Store Coll) (rest : Bytes) (pos : Nat) (cmd : Command)
    (stream : StreamBuf) (db : Store) (responses : List Response) :
    Except Fault (StreamBuf × Store × List Response) :=
  match outcome : readCommand rest cmd with
  | (.incomplete, _, _) => return (stream, db, responses)
  | (.invalid, _, _) => return (stream, db, responses ++ [.invalidCommand])
  | (.success, rest', cmd') => do
      let (db, issued) ← execute ops db cmd'
      let pos := pos + (rest.length - rest'.length)
      let stream ← stream.consume (pos - stream.used)
      recvLoop ops rest' pos cmd' stream db (responses ++ issued)
termination_by rest.length
decreasing_by
  obtain ⟨_, rfl⟩ := readCommand_reads.success_iff.mp outcome
  have nonempty := List.length_pos_iff.mpr (writeCommand_ne_nil cmd')
  rw [List.length_append]
  omega

/-- What a `recv_handler` call leaves behind; `rearmed` says that it queued the
next `async_recv`. -/
structure Received (Store : Type) where
  handler : ClientHandler
  db : Store
  responses : List Response
  rearmed : Bool

/-- `recv_handler` on the `data` that `recv` put into `m_buf`. -/
def ClientHandler.recvHandler (ops : DatabaseOps Store Coll) (handler : ClientHandler)
    (data : Bytes) (db : Store) : Except Fault (Received Store) :=
  if data.length = 0 then
    return { handler := { handler with closed := true }, db, responses := [], rearmed := false }
  else do
    let stream := handler.stream.append data
    let (stream, db, responses) ←
      recvLoop ops stream.asConstBuffer stream.used .monostate stream db []
    return { handler := { handler with stream }, db, responses, rearmed := true }

/-- Successive `recv_handler` calls, one for each chunk of data. -/
def feed (ops : DatabaseOps Store Coll) :
    List Bytes → ClientHandler → Store → Except Fault (ClientHandler × Store × List Response)
  | [], handler, db => return (handler, db, [])
  | chunk :: chunks, handler, db => do
      let first ← handler.recvHandler ops chunk db
      let (handler, db, later) ← feed ops chunks first.handler first.db
      return (handler, db, first.responses ++ later)

end Boutique.Server
