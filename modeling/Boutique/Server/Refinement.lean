import Boutique.Io.Simulation
import Boutique.Server.Catalogue
import Boutique.Server.Segmentation
import Boutique.Server.ClientsKept

namespace Boutique.Server

open Boutique.Core Boutique.Data Boutique.Db Boutique.Io Boutique.Protocol World

/-! # One database in place of another -/

section

variable {Store Store' Coll Coll' : Type} {ops : DatabaseOps Store Coll}
  {spec : DatabaseOps Store' Coll'} {excused : Fault → Prop} {like : Store → Store' → Prop}

/-- Whatever a command does to a store and is answered, it does to a like store
and is answered there as well, or the like store fails with an excuse. -/
def Stands (excused : Fault → Prop) (like : Store → Store' → Prop) (ops : DatabaseOps Store Coll)
    (spec : DatabaseOps Store' Coll') : Prop :=
  ∀ db db' cmd, like db db' → Follows excused (fun result result' =>
    like result.1 result'.1 ∧ result.2 = result'.2) (execute ops db cmd) (execute spec db' cmd)

/-- A callback halts the server with its fault. -/
def HaltExcused (excused : Fault → Prop) (halt : Halt) : Prop :=
  ∃ fault, halt = .aborted fault ∧ excused fault

/-- Worlds that differ in their stores only, which are alike. -/
structure AlikeWorlds (like : Store → Store' → Prop) (world : World Store) (world' : World Store') :
    Prop where
  db : like world.db world'.db
  clients : world'.clients = world.clients
  connections : world'.connections = world.connections

theorem AlikeWorlds.client? {world : World Store} {world' : World Store'}
    (alike : AlikeWorlds like world world') (address : Nat) :
    world'.client? address = world.client? address := by
  rw [World.client?, World.client?, alike.clients]

/-- By induction on the bytes that are left to read. -/
theorem Stands.recvLoop (stands : Stands excused like ops spec) {db : Store} {db' : Store'}
    (alike : like db db') (rest : Bytes) (pos : Nat) (cmd : Command) (stream : StreamBuf)
    (responses : List Response) :
    Follows excused (fun result result' => like result.2.1 result'.2.1 ∧ result.1 = result'.1 ∧
        result.2.2 = result'.2.2)
      (recvLoop ops rest pos cmd stream db responses)
      (recvLoop spec rest pos cmd stream db' responses) := by
  induction bound : rest.length using Nat.strong_induction_on generalizing rest pos cmd stream db
    db' responses with
  | _ length ih =>
    cases verdict : nextCommand rest with
    | starved =>
        rw [recvLoop_starved verdict, recvLoop_starved verdict]
        exact follows_ok_iff.mpr ⟨alike, rfl, rfl⟩
    | rejected =>
        rw [recvLoop_rejected verdict, recvLoop_rejected verdict]
        exact follows_ok_iff.mpr ⟨alike, rfl, rfl⟩
    | accepted cmd' rest' =>
        obtain ⟨fits, split⟩ := nextCommand_codec.accepted_iff.mp verdict
        have shorter : rest'.length < length := by
          have nonempty := List.length_pos_iff.mpr (nextCommand_codec.encode_ne_nil fits)
          rw [← bound, split, List.length_append]
          omega
        rw [recvLoop_accepted verdict, recvLoop_accepted verdict]
        refine (stands db db' cmd' alike).bind fun first first' given => ?_
        obtain ⟨next, issued⟩ := first
        obtain ⟨next', issued'⟩ := first'
        obtain ⟨alike, same⟩ := given
        cases same
        refine (Follows.refl _).bind fun stream _ same => ?_
        subst same
        exact ih _ shorter alike _ _ _ _ _ rfl

theorem Stands.recvHandler (stands : Stands excused like ops spec) {db : Store} {db' : Store'}
    (alike : like db db') (handler : ClientHandler) (data : Bytes) :
    Follows excused (fun received received' => like received.db received'.db ∧
        received'.handler = received.handler ∧ received'.responses = received.responses ∧
        received'.rearmed = received.rearmed)
      (handler.recvHandler ops data db) (handler.recvHandler spec data db') := by
  unfold ClientHandler.recvHandler
  split
  · exact follows_ok_iff.mpr ⟨alike, rfl, rfl, rfl⟩
  · refine (stands.recvLoop alike _ _ _ _ _).bind fun result result' given => ?_
    obtain ⟨stream, db, responses⟩ := result
    obtain ⟨stream', db', responses'⟩ := result'
    obtain ⟨alike, same, equal⟩ := given
    cases same
    cases equal
    exact follows_ok_iff.mpr ⟨alike, rfl, rfl, rfl⟩

variable {alloc : Nat → List Nat → Nat} {listener : Fd}

/-- A callback of the server. -/
theorem Stands.resume (stands : Stands excused like ops spec) {world : World Store}
    {world' : World Store'} (alike : AlikeWorlds like world world') (fn : Callback)
    (argument : Nat) :
    Follows (HaltExcused excused)
      (fun result result' => AlikeWorlds like result.1 result'.1 ∧ result.2 = result'.2)
      (resume ops alloc fn argument world) (resume spec alloc fn argument world') := by
  cases fn with
  | recvHandler address =>
      simp only [Server.resume, alike.client? address]
      cases present : world.client? address with
      | none => exact follows_error _ _
      | some client =>
          dsimp only
          have follows :=
            stands.recvHandler alike.db client.handler (client.buf.take argument)
          cases received : client.handler.recvHandler spec (client.buf.take argument) world'.db with
          | error fault =>
              rw [received] at follows
              rcases follows with excuse | same
              · exact .inl ⟨fault, rfl, excuse⟩
              · rw [same]
                exact follows_error _ _
          | ok result' =>
              rw [received] at follows
              obtain ⟨result, ran, db, handler, responses, rearmed⟩ := follows
              rw [ran]
              refine follows_ok_iff.mpr ⟨⟨db, ?_, alike.connections⟩, ?_⟩
              · dsimp only [updateClient]
                rw [handler, alike.clients]
              · rw [rearmed, responses]
  | respond address responses =>
      cases responses <;> exact follows_ok_iff.mpr ⟨alike, rfl⟩
  | acceptHandler =>
      refine follows_ok_iff.mpr ⟨?_, ?_⟩
      · refine ⟨alike.db, ?_, ?_⟩ <;> simp only [destroy, alike.clients, alike.connections]
      · simp only [alike.clients, alike.connections]
  | rearm | sent => exact follows_ok_iff.mpr ⟨alike, rfl⟩

/-- The server around such a store. -/
theorem Stands.host (stands : Stands excused like ops spec) :
    (host ops alloc listener).Simulates (HaltExcused excused) (host spec alloc listener)
      (AlikeWorlds like) where
  fd := by
    intro world world' object alike
    cases object with
    | listener => rfl
    | client address =>
        dsimp only [Server.host]
        rw [alike.client? address]
  recv := by
    intro world world' object buf data alike
    simp only [Server.host, recv, alike.client?, alike.connections]
    cases object with
    | listener => exact follows_error _ _
    | client address =>
        dsimp only
        cases (world.client? address).bind fun client => client.socket with
        | none => exact follows_error _ _
        | some fd =>
            cases world.client? buf.base with
            | none => exact follows_error _ _
            | some reader =>
                dsimp only
                split
                · refine follows_ok_iff.mpr ⟨alike.db, ?_, ?_⟩
                  · dsimp only [updateClient, updateConnection]
                    rw [alike.clients]
                  · dsimp only [updateClient, updateConnection]
                    rw [alike.connections]
                · exact follows_error _ _
  send := by
    intro world world' object data alike
    simp only [Server.host, World.send, alike.client?]
    cases object with
    | listener => exact follows_error _ _
    | client address =>
        dsimp only
        cases (world.client? address).bind fun client => client.socket with
        | none => exact follows_error _ _
        | some fd =>
            refine follows_ok_iff.mpr ⟨alike.db, alike.clients, ?_⟩
            dsimp only [updateConnection]
            rw [alike.connections]
  accept := by
    intro world world' object fd alike
    simp only [Server.host, accept, alike.connections]
    cases object with
    | listener =>
        dsimp only
        split
        · refine follows_ok_iff.mpr ⟨alike.db, alike.clients, ?_⟩
          rfl
        · exact follows_error _ _
    | client address => exact follows_error _ _
  resume := fun fn argument alike => stands.resume alike fn argument

end

/-! # The server around the catalogue -/

/-- What the catalogue makes of commands that are not disciplined. -/
def refusal : Fault := .outOfBounds .argument

/-- The operations as the catalogue has them. -/
def catalogueOps (std : StdHash) : DatabaseOps Catalogue Shelf where
  registerSchema name schema cat :=
    .ok { cat with schemas := Function.update cat.schemas name (some schema) }
  createCollection name schema cat :=
    match Shelf.new schema with
    | none => .error refusal
    | some shelf => .ok (cat.setShelf name (some shelf))
  schema name cat := cat.schemas name
  collection name cat := cat.shelves name
  setCollection name shelf cat := cat.setShelf name (some shelf)
  collSchema shelf := shelf.schema
  find shelf key := if shelf.key.IsKey key then .ok (shelf.contents key) else .error refusal
  put shelf value :=
    if shelf.IsDocument value ∧ Hashable (shelf.key.hash std (shelf.key.keyOf value)) ∧
        (shelf.contents (shelf.key.keyOf value) = none ∨ shelf.pruned = false) then
      .ok (true, shelf.put value)
    else
      .error refusal
  remove shelf key := if shelf.key.IsKey key then .ok (shelf.remove key) else .error refusal

attribute [simp] catalogueOps Catalogue.answer Catalogue.Takes Catalogue.Tidy
  Catalogue.Disciplined

@[simp] theorem pure_eq_ok {ε α : Type} (a : α) : (pure a : Except ε α) = .ok a := rfl

/-- A disciplined command is executed as the catalogue answers it. -/
theorem execute_catalogueOps (std : StdHash) (cat : Catalogue) (cmd : Command) :
    execute (catalogueOps std) cat cmd =
      if cat.Disciplined std cmd then .ok (cat.answer cmd) else .error refusal := by
  cases cmd with
  | monostate | registerSchema => rfl
  | createCollection name schemaName =>
      cases registered : cat.schemas schemaName with
      | none => simp [execute, registered]
      | some schema => cases made : Shelf.new schema <;> simp [execute, registered, made]
  | getSchema name => cases found : cat.schemas name <;> simp [execute, found]
  | getCollectionSchema name => cases shown : cat.shelves name <;> simp [execute, shown]
  | get name key =>
      cases shown : cat.shelves name with
      | none => simp [execute, shown]
      | some shelf =>
          by_cases isKey : shelf.key.IsKey key
          · cases found : shelf.contents key <;> simp [execute, shown, isKey, found]
          · simp [execute, shown, isKey]
  | put name value =>
      cases shown : cat.shelves name with
      | none => simp [execute, shown]
      | some shelf =>
          rw [execute_put (catalogueOps std) shown]
          simp only [catalogueOps, Catalogue.Disciplined, Catalogue.Takes, Catalogue.Tidy, shown,
            Catalogue.answer, Option.mem_some_iff, forall_eq']
          split <;> rfl
  | delete name key =>
      cases shown : cat.shelves name with
      | none => simp [execute, shown]
      | some shelf => by_cases isKey : shelf.key.IsKey key <;> simp [execute, shown, isKey]

theorem catalogue_stands (std : StdHash) :
    Stands (· = refusal) (Represents std) (databaseOps std) (catalogueOps std) := by
  intro db cat cmd represents
  rw [execute_catalogueOps]
  by_cases disciplined : cat.Disciplined std cmd
  · obtain ⟨after, ran, kept⟩ := represents.execute disciplined.1
      (represents.clean_of_tidy disciplined.2)
    rw [if_pos disciplined]
    exact ⟨(after, _), ran, kept, rfl⟩
  · rw [if_neg disciplined]
    exact .inl rfl

/-- In every run the server does what the one around the catalogue does: what the
one has received, queued and sent, so has the other, and the same events halt both.
Only a command that is not disciplined sets them apart. -/
theorem server_follows_catalogue (std : StdHash) (alloc : Nat → List Nat → Nat) (listener : Fd)
    (events : List (Event Callback)) :
    (∀ ideal, Machine.run (host (catalogueOps std) alloc listener) (start {}) events = .ok ideal →
      ∃ m, Machine.run (host (databaseOps std) alloc listener) (start {}) events = .ok m ∧
        Machine.Twins (AlikeWorlds (Represents std)) m ideal) ∧
    ∀ halt, Machine.run (host (catalogueOps std) alloc listener) (start {}) events = .error halt →
      halt = .aborted refusal ∨
        Machine.run (host (databaseOps std) alloc listener) (start {}) events = .error halt := by
  have stands : (host (databaseOps std) alloc listener).Simulates (HaltExcused (· = refusal))
      (host (catalogueOps std) alloc listener) (AlikeWorlds (Represents std)) :=
    (catalogue_stands std).host
  have twins : Machine.Twins (AlikeWorlds (Represents std)) (start {} : ServerMachine Database)
      (start {} : ServerMachine Catalogue) := ⟨{ db := {} }, ⟨represents_empty std, rfl, rfl⟩, rfl⟩
  have follows := twins.run stands events
  constructor
  · intro ideal ran
    rw [ran] at follows
    exact follows
  · intro halt failed
    rw [failed] at follows
    rcases follows with ⟨_, rfl, rfl⟩ | same
    · exact .inl rfl
    · exact .inr same

open Collection

/-- What the first of two clients sends to make a collection. -/
def opening : Bytes :=
  [.registerSchema [108] ledgerSchema, .createCollection [99] [108]].flatMap writeCommand

/-- What both then send. -/
def trades : Bytes × Bytes :=
  ([.put [99] (ledgerEntry 1 5), .get [99] (leBytes 8 33)].flatMap writeCommand,
    [.put [99] (ledgerEntry 33 6), .delete [99] (leBytes 8 1),
      .get [99] (leBytes 8 1)].flatMap writeCommand)

/-- The opening arrives in two parts, before and after the second client, whose
trades arrive first. -/
def traders : List (Event Callback) :=
  [.select [3] [], .accept 5, .tick, .tick, .tick,
    .select [3, 5] [], .recv (opening.take 30), .tick, .tick, .tick, .accept 6, .tick, .tick, .tick,
    .select [5] [5], .recv (opening.drop 30), .tick, .tick, .tick, .tick, .send 1, .tick, .tick,
    .tick,
    .select [5, 6] [5], .recv trades.2, .tick, .tick, .tick, .tick, .tick,
    .recv trades.1, .tick, .tick, .tick, .tick, .send 1, .tick, .tick, .tick,
    .select [] [5, 6], .tick, .tick, .send 1, .tick, .send 1, .tick, .send 1, .tick, .send 1, .tick,
    .send 17, .tick, .tick, .tick]

example :
    (Machine.run (host (catalogueOps noHash) nextAddress 3) (start {}) traders).isOk = true := by
  decide +kernel

end Boutique.Server
