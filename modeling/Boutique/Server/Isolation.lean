import Boutique.Server.SerialRuns

namespace Boutique.Server

open Boutique.Core Boutique.Data Boutique.Db Boutique.Io Boutique.Protocol World

/-! # Clients that share nothing

A client whose schemas and collections no other client changes is served as if it
were alone. -/

/-- What a command is about: a schema or a collection, by its name. -/
inductive Entry where
  | schema (name : Bytes)
  | collection (name : Bytes)
deriving DecidableEq

def touched : Command → List Entry
  | .monostate => []
  | .registerSchema name _ | .getSchema name => [.schema name]
  | .createCollection name schemaName => [.collection name, .schema schemaName]
  | .getCollectionSchema name | .get name _ | .put name _ | .delete name _ => [.collection name]

def changed : Command → List Entry
  | .monostate | .getSchema _ | .getCollectionSchema _ | .get _ _ => []
  | .registerSchema name _ => [.schema name]
  | .createCollection name _ | .put name _ | .delete name _ => [.collection name]

/-- The databases have the same under the entries that are `mine`. -/
structure AgreeOn (mine : Entry → Prop) (db db' : Database) : Prop where
  schemas : ∀ name, mine (.schema name) → db'.schemas name = db.schemas name
  colls : ∀ name, mine (.collection name) → db'.colls name = db.colls name

variable {mine : Entry → Prop} {std : StdHash} {db db' after : Database} {cmd : Command}
  {responses : List Response} {name : Bytes}

namespace AgreeOn

variable (agree : AgreeOn mine db db')

include agree

theorem collection (isMine : mine (.collection name)) :
    db'.collection name = db.collection name := by
  rw [Database.collection, Database.collection, agree.colls name isMine]

theorem setCollection (name : Bytes) (coll : Collection) :
    AgreeOn mine (db.setCollection name coll) (db'.setCollection name coll) where
  schemas := agree.schemas
  colls := by
    intro other isMine
    dsimp only [Database.setCollection]
    by_cases same : other = name
    · rw [same, Function.update_self, Function.update_self]
    · rw [Function.update_of_ne same, Function.update_of_ne same]
      exact agree.colls other isMine

theorem registerSchema (name : Bytes) (schema : Schema) :
    AgreeOn mine (db.registerSchema name schema) (db'.registerSchema name schema) where
  schemas := by
    intro other isMine
    dsimp only [Database.registerSchema]
    by_cases same : other = name
    · rw [same, Function.update_self, Function.update_self]
    · rw [Function.update_of_ne same, Function.update_of_ne same]
      exact agree.schemas other isMine
  colls := agree.colls

/-- A command that does something to one collection, which is the same in both. -/
theorem of_collection {α : Type} {call : Collection → Except Fault α}
    {next : Database → α → Database} {answers : α → List Response}
    (isMine : mine (.collection name))
    (absent : ∀ db, (databaseOps std).collection name db = none →
      Server.execute (databaseOps std) db cmd = .ok (db, [.notFound]))
    (present : ∀ db coll, (databaseOps std).collection name db = some coll →
      Server.execute (databaseOps std) db cmd =
        call coll >>= fun result => .ok (next db result, answers result))
    (keeps : ∀ result, AgreeOn mine (next db result) (next db' result))
    (ran : Server.execute (databaseOps std) db cmd = .ok (after, responses)) :
    ∃ after', Server.execute (databaseOps std) db' cmd = .ok (after', responses) ∧
      AgreeOn mine after after' := by
  have same : (databaseOps std).collection name db' = (databaseOps std).collection name db :=
    agree.colls name isMine
  cases found : (databaseOps std).collection name db with
  | none =>
      rw [absent db found] at ran
      rw [absent db' (same.trans found)]
      cases ran
      exact ⟨db', rfl, agree⟩
  | some coll =>
      rw [present db coll found] at ran
      rw [present db' coll (same.trans found)]
      obtain ⟨result, called, done⟩ := bind_ok_iff.mp ran
      cases done
      rw [called]
      exact ⟨_, rfl, keeps result⟩

/-- A command that touches only what is the same does the same. -/
theorem execute (own : ∀ entry ∈ touched cmd, mine entry)
    (ran : execute (databaseOps std) db cmd = .ok (after, responses)) :
    ∃ after', Server.execute (databaseOps std) db' cmd = .ok (after', responses) ∧
      AgreeOn mine after after' := by
  cases cmd with
  | monostate =>
      cases ran
      exact ⟨db', rfl, agree⟩
  | registerSchema name schema =>
      cases ran
      exact ⟨_, rfl, agree.registerSchema name schema⟩
  | createCollection name schemaName =>
      have same : (databaseOps std).schema schemaName db' =
          (databaseOps std).schema schemaName db :=
        agree.schemas schemaName (own _ (by simp [touched]))
      rw [Server.execute] at ran ⊢
      rw [same]
      cases registered : (databaseOps std).schema schemaName db with
      | none =>
          rw [registered] at ran
          cases ran
          exact ⟨db', rfl, agree⟩
      | some schema =>
          rw [registered] at ran
          obtain ⟨_, created, done⟩ := bind_ok_iff.mp ran
          cases done
          obtain ⟨coll, made, created⟩ := bind_ok_iff.mp created
          cases created
          refine ⟨db'.setCollection name coll, ?_, agree.setCollection name coll⟩
          dsimp only [databaseOps, Database.createCollection]
          rw [made]
          rfl
  | getSchema name =>
      have same : (databaseOps std).schema name db' = (databaseOps std).schema name db :=
        agree.schemas name (own _ (by simp [touched]))
      rw [Server.execute] at ran ⊢
      rw [same]
      split at ran <;> cases ran <;> exact ⟨db', rfl, agree⟩
  | getCollectionSchema name =>
      have same : (databaseOps std).collection name db' = (databaseOps std).collection name db :=
        agree.colls name (own _ (by simp [touched]))
      rw [Server.execute] at ran ⊢
      rw [same]
      split at ran <;> cases ran <;> exact ⟨db', rfl, agree⟩
  | get name key =>
      refine agree.of_collection (own _ (by simp [touched])) (fun db none => ?_)
        (fun db coll found => execute_get _ found key) (fun _ => agree) ran
      rw [Server.execute, none]
      rfl
  | put name value =>
      refine agree.of_collection (own _ (by simp [touched])) (fun db none => ?_)
        (fun db coll found => execute_put _ found value)
        (fun _ => agree.setCollection name _) ran
      rw [Server.execute, none]
      rfl
  | delete name key =>
      refine agree.of_collection (own _ (by simp [touched])) (fun db none => ?_)
        (fun db coll found => execute_delete _ found key)
        (fun _ => agree.setCollection name _) ran
      rw [Server.execute, none]
      rfl

theorem of_changed (foreign : AgreeOn mine db after) : AgreeOn mine after db' where
  schemas := fun name isMine => (agree.schemas name isMine).trans (foreign.schemas name isMine).symm
  colls := fun name isMine => (agree.colls name isMine).trans (foreign.colls name isMine).symm

end AgreeOn

theorem agreeOn_refl (db : Database) : AgreeOn mine db db := ⟨fun _ _ => rfl, fun _ _ => rfl⟩

theorem agreeOn_setCollection (foreign : ¬ mine (.collection name)) (db : Database)
    (coll : Collection) : AgreeOn mine db (db.setCollection name coll) where
  schemas := fun _ _ => rfl
  colls := by
    intro other isMine
    have apart : other ≠ name := fun same => foreign (same ▸ isMine)
    exact Function.update_of_ne apart _ _

/-- A command changes nothing else than it says. -/
theorem execute_changed (foreign : ∀ entry ∈ changed cmd, ¬ mine entry)
    (ran : execute (databaseOps std) db cmd = .ok (after, responses)) : AgreeOn mine db after := by
  cases cmd with
  | monostate =>
      cases ran
      exact agreeOn_refl db
  | registerSchema name schema =>
      cases ran
      refine ⟨fun other isMine => ?_, fun _ _ => rfl⟩
      have apart : other ≠ name := fun same => foreign _ (by simp [changed]) (same ▸ isMine)
      exact Function.update_of_ne apart _ _
  | createCollection name schemaName =>
      rw [execute] at ran
      split at ran
      · cases ran
        exact agreeOn_refl db
      · obtain ⟨_, created, done⟩ := bind_ok_iff.mp ran
        cases done
        obtain ⟨coll, _, created⟩ := bind_ok_iff.mp created
        cases created
        exact agreeOn_setCollection (foreign _ (by simp [changed])) db coll
  | getSchema | getCollectionSchema =>
      rw [execute] at ran
      split at ran <;> cases ran <;> exact agreeOn_refl db
  | get name key =>
      rw [execute] at ran
      split at ran
      · cases ran
        exact agreeOn_refl db
      · obtain ⟨found, _, done⟩ := bind_ok_iff.mp ran
        cases found <;> cases done <;> exact agreeOn_refl db
  | put name _ | delete name _ =>
      rw [execute] at ran
      split at ran
      · cases ran
        exact agreeOn_refl db
      · obtain ⟨_, _, done⟩ := bind_ok_iff.mp ran
        cases done
        exact agreeOn_setCollection (foreign _ (by simp [changed])) db _

theorem execute_unwinds (std : StdHash) (mine : Entry → Prop) :
    Unwinds (execute (databaseOps std)) (AgreeOn mine)
      (fun cmd => ∀ entry ∈ touched cmd, mine entry)
      fun cmd => ∀ entry ∈ changed cmd, ¬ mine entry where
  own := fun agree own ran => agree.execute own ran
  foreign := fun agree foreign ran => agree.of_changed (execute_changed foreign ran)

section

variable {τ : Type} [DecidableEq τ]

/-- No command of another owner changes what commands of this one touch. -/
def Undisturbed (owner : τ) (cmds : List (τ × Command)) : Prop :=
  ∀ theirs ∈ cmds, theirs.1 ≠ owner → ∀ entry ∈ changed theirs.2,
    ∀ cmd ∈ ownedBy owner cmds, entry ∉ touched cmd

theorem Undisturbed.answers {owner : τ} {cmds : List (τ × Command)} {given : List (τ × Response)}
    (undisturbed : Undisturbed owner cmds)
    (ran : runAll (ownedStep (execute (databaseOps std))) db cmds = .ok (after, given)) :
    ∃ alone, executeAll (databaseOps std) db (ownedBy owner cmds) =
      .ok (alone, ownedBy owner given) := by
  let mine : Entry → Prop := fun entry => ∃ cmd ∈ ownedBy owner cmds, entry ∈ touched cmd
  have own : ∀ input ∈ cmds, input.1 = owner → ∀ entry ∈ touched input.2, mine entry := by
    intro input member same entry isTouched
    refine ⟨input.2, List.mem_map.mpr ⟨input, ?_, rfl⟩, isTouched⟩
    exact List.mem_filter.mpr ⟨member, by simpa using same⟩
  have foreign : ∀ input ∈ cmds, input.1 ≠ owner → ∀ entry ∈ changed input.2, ¬ mine entry := by
    intro input member other entry isChanged given
    obtain ⟨cmd, among, isTouched⟩ := given
    exact undisturbed input member other entry isChanged cmd among isTouched
  obtain ⟨alone, answered, _⟩ :=
    (execute_unwinds std mine).run (agreeOn_refl db) own foreign ran
  rw [executeAll_eq_runAll]
  exact ⟨alone, answered⟩

end

/-! ## Connections -/

/-- The whole commands that a connection has received. -/
def commandsAt (connections : List Connection) (index : Nat) : List Command :=
  connections[index]?.elim [] fun conn =>
    drainedValues nextCommand conn.received.length conn.received

/-- Nothing that a command of another connection changes is touched by one of
this connection. -/
def Apart (connections : List Connection) (index : Nat) : Prop :=
  ∀ other < connections.length, other ≠ index → ∀ cmd ∈ commandsAt connections other,
    ∀ entry ∈ changed cmd, ∀ own ∈ commandsAt connections index, entry ∉ touched own

instance (connections : List Connection) (index : Nat) : Decidable (Apart connections index) :=
  inferInstanceAs (Decidable (∀ other < _, _ → _))

variable {ordered : Prop} {Store Coll : Type} {ops : DatabaseOps Store Coll} {store : Store}
  {m : ServerMachine Store} {history : List (Nat × Command)} {issued : List (Nat × Response)}

/-- The order has the commands that each connection has received. -/
theorem Served.commandsAt_eq (served : Served ordered ops store m history issued)
    (quiet : m.stack = []) {index : Nat} (inside : index < m.world.connections.length) :
    commandsAt m.world.connections index = ownedBy index history := by
  have found := List.getElem?_eq_getElem inside
  obtain ⟨handled, left, stuck, complaints, explained⟩ := served.each index _ found
  have received := explained.received
  rw [arriving_quiet quiet, List.append_nil] at received
  rw [commandsAt, found, Option.elim_some, received]
  exact explained.drained.drainedValues_eq nextCommand_codec le_rfl

theorem Served.undisturbed (served : Served ordered ops store m history issued)
    (quiet : m.stack = []) {index : Nat} (inside : index < m.world.connections.length)
    (apart : Apart m.world.connections index) : Undisturbed index history := by
  intro theirs member other entry isChanged
  have known := served.known theirs member
  rw [← served.commandsAt_eq quiet inside]
  refine apart theirs.1 known other theirs.2 ?_ entry isChanged
  rw [served.commandsAt_eq quiet known]
  exact List.mem_map.mpr ⟨theirs, List.mem_filter.mpr ⟨member, by simp⟩, rfl⟩

/-- While no callback runs, a connection that the others leave alone has been
sent, or is to be sent, the responses that its commands get without any others, and
complaints behind them if a malformed command has come. -/
theorem connection_isolated (std : StdHash) (alloc : Nat → List Nat → Nat)
    (fresh : ∀ count used, alloc count used ∉ used) (listener : Fd) (db : Database)
    (events : List (Event Callback))
    (sorted :
      Machine.Along (host (databaseOps std) alloc listener) SortedAtAccept (start db) events)
    (unsent :
      Machine.Along (host (databaseOps std) alloc listener) UnsentAtAccept (start db) events)
    (inTurn :
      Machine.Along (host (databaseOps std) alloc listener) Machine.InTurn (start db) events)
    (m : ServerMachine Database)
    (ran : Machine.run (host (databaseOps std) alloc listener) (start db) events = .ok m)
    (quiet : m.stack = []) (index : Nat) (conn : Connection)
    (found : m.world.connections[index]? = some conn)
    (apart : Apart m.world.connections index) :
    ∃ left stuck alone answers complaints,
      Drains nextCommand conn.received (commandsAt m.world.connections index) left stuck ∧
        executeAll (databaseOps std) db (commandsAt m.world.connections index) =
          .ok (alone, answers) ∧
        (stuck = true ↔ complaints ≠ 0) ∧
        conn.sent ++ stream (some index) (owing m) =
          (answers ++ List.replicate complaints Response.invalidCommand).flatMap writeResponse := by
  have begun : Served True (databaseOps std) db (start db) [] [] := served_start _ _
  obtain ⟨_, history, issued, served⟩ := run_served fresh (kept_start db) sorted unsent
    (fun _ => inTurn) begun ran
  rw [List.nil_append, List.nil_append] at served
  obtain ⟨inside, _⟩ := List.getElem?_eq_some_iff.mp found
  obtain ⟨alone, answered⟩ := (served.undisturbed quiet inside apart).answers served.executed
  obtain ⟨handled, left, stuck, complaints, explained⟩ := served.each index conn found
  have received := explained.received
  have sent := explained.sent trivial
  rw [arriving_quiet quiet, List.append_nil] at received
  rw [Server.unsent, responding_quiet quiet, List.flatMap_nil, List.append_nil] at sent
  rw [served.commandsAt_eq quiet inside, received]
  exact ⟨left, stuck, alone, ownedBy index issued, complaints, explained.drained, answered,
    explained.complained, sent⟩

open Collection

/-- Two clients with a collection each, into which both put a document. The second
one also looks into that of the first, and deletes its own document. -/
def neighbours : Bytes × Bytes :=
  ([.registerSchema [108] ledgerSchema, .createCollection [99] [108], .put [99] (ledgerEntry 1 5),
      .get [99] (leBytes 8 1)].flatMap writeCommand,
    [.registerSchema [107] ledgerSchema, .createCollection [100] [107],
      .put [100] (ledgerEntry 1 6), .get [99] (leBytes 8 1), .delete [100] (leBytes 8 1),
      .get [100] (leBytes 8 1)].flatMap writeCommand)

/-- Their commands interleave, and the last response to the first is sent in part. -/
def neighbourhood : List (Event Callback) :=
  [.select [3] [], .accept 5, .tick, .tick, .tick,
    .select [3, 5] [], .recv (neighbours.1.take 30), .tick, .tick, .tick, .accept 6, .tick, .tick,
    .tick,
    .select [5, 6] [5], .recv (neighbours.1.drop 30), .tick, .tick, .tick, .tick, .tick,
    .recv (neighbours.2.take 70), .tick, .tick, .tick, .tick, .tick, .send 1, .tick, .tick, .tick,
    .select [6] [5, 6], .tick, .recv (neighbours.2.drop 70), .tick, .tick, .tick, .tick, .tick,
    .send 1, .tick, .send 1, .tick, .send 1, .send 1, .tick, .send 1, .tick, .send 1, .tick, .tick,
    .tick]

theorem connection_isolated_neighbourhood :
    (Machine.run (host (databaseOps noHash) nextAddress 3) (start {}) neighbourhood).isOk = true ∧
    ∀ m, Machine.run (host (databaseOps noHash) nextAddress 3) (start {}) neighbourhood = .ok m →
      ∃ conn left stuck alone answers complaints, m.world.connections[0]? = some conn ∧
        Drains nextCommand conn.received (commandsAt m.world.connections 0) left stuck ∧
        executeAll (databaseOps noHash) {} (commandsAt m.world.connections 0) =
          .ok (alone, answers) ∧
        (stuck = true ↔ complaints ≠ 0) ∧
        conn.sent ++ stream (some 0) (owing m) =
          (answers ++ List.replicate complaints Response.invalidCommand).flatMap writeResponse := by
  have settled : (Machine.run (host (databaseOps noHash) nextAddress 3) (start {})
      neighbourhood).map (fun m => (m.stack.length, decide (0 < m.world.connections.length),
        decide (Apart m.world.connections 0))) = .ok (0, true, true) := by decide +kernel
  refine ⟨by decide +kernel, fun m ran => ?_⟩
  rw [ran] at settled
  obtain ⟨quiet, rest⟩ := Prod.mk.inj (Except.ok.inj settled)
  obtain ⟨inside, apart⟩ := Prod.mk.inj rest
  replace inside := of_decide_eq_true inside
  obtain ⟨left, stuck, alone, answers, complaints, served⟩ := connection_isolated noHash nextAddress
    nextAddress_fresh 3 {} neighbourhood (by decide +kernel) (by decide +kernel) (by decide +kernel)
    m ran (List.length_eq_zero_iff.mp quiet) 0 _ (List.getElem?_eq_getElem inside)
    (of_decide_eq_true apart)
  exact ⟨_, left, stuck, alone, answers, complaints, List.getElem?_eq_getElem inside, served⟩

end Boutique.Server
