import Boutique.Server.Reaping
import Boutique.Server.ResponsesApart

namespace Boutique.Server

open Boutique.Data Boutique.Db Boutique.Io Boutique.Io.Sockets World

variable {Store Coll : Type} {ops : DatabaseOps Store Coll} {alloc : Nat → List Nat → Nat}
  {listener : Fd}

/-! # Sockets along runs of the server -/

/-- What a step of the server does to sockets. -/
def socketSteps (alloc : Nat → List Nat → Nat) (m : ServerMachine Store) (event : Event Callback) :
    List (SocketStep (Option Object)) :=
  match m.stack, event with
  | (.acceptHandler, _) :: _, .tick =>
      handlerSteps (alloc m.world.connections.length) m.world.clients
  | [], .accept fd => [.accept (some .listener) none (.accepted fd)]
  | _, _ => []

/-- What a run does to them. -/
def socketRun (ops : DatabaseOps Store Coll) (alloc : Nat → List Nat → Nat) (listener : Fd) :
    ServerMachine Store → List (Event Callback) → List (SocketStep (Option Object))
  | _, [] => []
  | m, event :: events =>
      match m.step (host ops alloc listener) event with
      | .error _ => []
      | .ok after => socketSteps alloc m event ++ socketRun ops alloc listener after events

/-- When `accept_handler` runs, no open handler stands behind a closed one. -/
def SortedAtReap (m : ServerMachine Store) (event : Event Callback) : Prop :=
  match m.stack, event with
  | (.acceptHandler, _) :: _, .tick => Sorted m.world.clients
  | _, _ => True

/-- The socket that a running `accept_handler` has been given. -/
def handed : List (Callback × Nat) → Option (Option Fd)
  | (.acceptHandler, fd) :: _ => some (some fd)
  | _ => none

theorem sortedAtReap_tick {m : ServerMachine Store} :
    SortedAtReap m .tick ↔ ((handed m.stack).isSome = true → Sorted m.world.clients) := by
  rw [SortedAtReap.eq_def]
  cases stack : m.stack with
  | nil => simp [handed]
  | cons top rest =>
      obtain ⟨fn, fd⟩ := top
      cases fn <;> simp [handed]

theorem sortedAtReap_of_ne {m : ServerMachine Store} {event : Event Callback}
    (other : event ≠ .tick) : SortedAtReap m event := by
  rw [SortedAtReap.eq_def]
  split
  · exact absurd rfl other
  · trivial

instance (m : ServerMachine Store) : (event : Event Callback) → Decidable (SortedAtReap m event)
  | .tick => decidable_of_iff _ sortedAtReap_tick.symm
  | .call _ | .run | .select _ _ | .recv _ | .send _ | .accept _ | .wait _ =>
      .isTrue (sortedAtReap_of_ne (by simp))

variable {s : Sockets (Option Object)} {world later : World Store} {given : Option (Option Fd)}

theorem Mirrored.of_sameSockets (mirrored : Mirrored listener s world given)
    (same : SameSockets later world) : Mirrored listener s later given where
  listening := mirrored.listening
  clients := by
    intro client member
    have held := List.mem_map_of_mem (f := Client.holder) member
    rw [same.clients] at held
    obtain ⟨other, among, alike⟩ := List.mem_map.mp held
    obtain ⟨address, socket⟩ := Prod.mk.inj alike
    rw [Client.node, ← address, ← socket]
    exact mirrored.clients other among
  free := by
    have addresses : later.clients.map Client.address = world.clients.map Client.address := by
      have firsts := congrArg (List.map Prod.fst) same.clients
      rwa [List.map_map, List.map_map] at firsts
    rw [addresses]
    exact mirrored.free
  given := mirrored.given
  opened := by
    have viewed : ∀ world : World Store, ∀ fd,
        (∃ conn ∈ world.connections, conn.released = false ∧ conn.fd = fd) ↔
          (fd, false) ∈ world.connections.map Connection.descriptor := by
      intro world fd
      simp [Connection.descriptor, and_comm]
    intro fd
    rw [viewed, same.connections, ← viewed]
    exact mirrored.opened fd

/-! ## Steps that leave the sockets alone -/

theorem resume_sameSockets {fn : Callback} {argument : Nat}
    {call : Option (Call Object Nat Callback)} {next : Option Callback}
    (resumed : resume ops alloc fn argument world = .ok (later, call, next))
    (other : fn ≠ .acceptHandler) : SameSockets later world := by
  cases fn with
  | recvHandler => exact recvHandler_sameSockets resumed
  | respond address responses =>
      cases responses <;> cases resumed <;> exact .refl world
  | acceptHandler => exact absurd rfl other
  | rearm | sent =>
      cases resumed
      exact .refl world

/-- No callback is followed by `accept_handler`. -/
theorem resume_handed {fn : Callback} {argument : Nat}
    {call : Option (Call Object Nat Callback)} {next : Option Callback}
    (resumed : resume ops alloc fn argument world = .ok (later, call, next))
    (m : ServerMachine Store) : handed (m.proceed call next []).stack = none := by
  cases fn with
  | recvHandler =>
      simp only [resume] at resumed
      split at resumed
      · cases resumed
      · split at resumed
        · cases resumed
        · rename_i received _
          cases resumed
          cases received.rearmed <;> rfl
  | respond address responses =>
      cases responses with
      | nil =>
          cases resumed
          rfl
      | cons response responses =>
          cases resumed
          dsimp only [Machine.proceed, Machine.perform, Machine.callSendHandler]
          split <;> rfl
  | acceptHandler =>
      cases resumed
      rfl
  | rearm | sent =>
      cases resumed
      rfl

variable {strict : Prop} {m after : ServerMachine Store} {base : World Store} {owed : List Nat}
  {rearm : List (AcceptOp Object Callback)} {event : Event Callback}

/-- Callbacks do not run inside of others. -/
theorem Kept.alone (kept : Kept strict listener m base owed rearm) {fn : Callback}
    {argument : Nat} {stack : List (Callback × Nat)}
    (running : m.stack = (fn, argument) :: stack) : stack = [] := by
  have phase := kept.phase
  rw [running] at phase
  cases phase <;> rfl

theorem Kept.step_sameSockets (kept : Kept strict listener m base owed rearm)
    (stepped : m.step (host ops alloc listener) event = .ok after)
    (notHandler : handed m.stack = none) (notAccept : ∀ fd, event ≠ .accept fd) :
    SameSockets after.world m.world ∧ handed after.stack = none := by
  cases Machine.step_move stepped with
  | resume running resumed =>
      obtain rfl := kept.alone running
      rw [Machine.proceed_world]
      refine ⟨resume_sameSockets resumed ?_, resume_handed resumed _⟩
      intro handler
      subst handler
      rw [running] at notHandler
      cases notHandler
  | call quiet outside running =>
      rw [kept.running] at running
      cases running
  | start | «return» | select | passRecv | passSend | passAccept | passWait | merge =>
      exact ⟨.refl _, notHandler⟩
  | recv quiet inside next fd_eq set fits arrived =>
      have same := recv_sameSockets arrived
      obtain ⟨address, _, rfl⟩ := (kept.quiet quiet).recvOp_of_waiting (Rounds.mem_waiting next)
      exact ⟨same, rfl⟩
  | send quiet inside none next fd_eq set fits taken =>
      obtain ⟨address, origLen, socket, handler⟩ := kept.sending _ (Rounds.mem_waiting next)
      rw [Machine.invokeSend_world]
      refine ⟨send_sameSockets taken, ?_⟩
      rw [handler]
      dsimp only [Machine.invokeSend, Machine.callSendHandler]
      split
      · rfl
      · exact notHandler
  | accept => exact absurd rfl (notAccept _)
  | wait quiet inside next =>
      have waits := Rounds.mem_waiting next
      rw [kept.timeless] at waits
      cases waits

/-! ## Steps and runs -/

/-- The nodes are apart and hold descriptors, but `accept_handler` assigns over one. -/
structure Unsorted (m : ServerMachine Store) : Prop where
  running : ∃ fd, m.stack = [(.acceptHandler, fd)]
  nodes : (m.world.clients.map Client.node).Nodup
  held : ∀ client ∈ m.world.clients, client.socket ≠ none
  unsorted : ¬ Sorted m.world.clients

/-- Sockets that own their descriptors and are those of the server. -/
structure Followed (listener : Fd) (s : Sockets (Option Object)) (m : ServerMachine Store) :
    Prop where
  mirrored : Mirrored listener s m.world (handed m.stack)
  owned : s.Owned
  kept : (∃ base owed rearm, Kept False listener m base owed rearm) ∨ Unsorted m

theorem World.Consistent.nodes (consistent : world.Consistent) :
    (world.clients.map Client.node).Nodup := by
  have nodes : world.clients.map Client.node =
      (world.clients.map Client.address).map fun address => some (.client address) := by
    rw [List.map_map]
    rfl
  rw [nodes]
  exact consistent.addresses.map fun first second same =>
    Object.client.inj (Option.some.inj same)

theorem World.Consistent.holds (consistent : world.Consistent) :
    ∀ client ∈ world.clients, client.socket ≠ none := by
  intro client member empty
  obtain ⟨conn, _, _, same⟩ := consistent.held client member
  rw [empty] at same
  cases same

/-- The step of `accept_handler`. -/
theorem Followed.handle (fresh : ∀ count used, alloc count used ∉ used)
    (followed : Followed listener s m)
    {fd : Nat} {stack : List (Callback × Nat)} (running : m.stack = (.acceptHandler, fd) :: stack)
    (stepped : m.step (host ops alloc listener) .tick = .ok after) :
    ∃ next, s.run (handlerSteps (alloc m.world.connections.length) m.world.clients) = some next ∧
      (Along Keeps s (handlerSteps (alloc m.world.connections.length) m.world.clients) ↔
        Sorted m.world.clients) ∧
      (Sorted m.world.clients → Followed listener next after) := by
  have reapable : (m.world.clients.map Client.node).Nodup ∧
      ∀ client ∈ m.world.clients, client.socket ≠ none := by
    rcases followed.kept with ⟨base, owed, rearm, kept⟩ | unsorted
    · have phase := kept.phase
      have consistent := kept.consistent
      rw [running] at phase
      cases phase with
      | accepting _ _ opened =>
          obtain ⟨_, arrived⟩ := accept_ok opened
          rw [arrived]
          exact ⟨consistent.nodes, consistent.holds⟩
    · exact ⟨unsorted.nodes, unsorted.held⟩
  obtain ⟨nodes, held⟩ := reapable
  have mirrored := followed.mirrored
  rw [running, handed] at mirrored
  obtain ⟨next, ran, later⟩ := mirrored.handle followed.owned nodes fresh
  have keeps :=
    handlerSteps_keeps_iff (alloc m.world.connections.length) nodes mirrored.clients held
  refine ⟨next, ran, keeps, fun sorted => ?_⟩
  rcases followed.kept with ⟨base, owed, rearm, kept⟩ | unsorted
  · have accepts : SortedAtAccept m .tick := trivial
    have keptOn := kept.step fresh accepts nofun stepped
    obtain rfl := kept.alone running
    obtain ⟨world, call, callback, resumed, rfl⟩ := Machine.step_of_running running stepped
    replace resumed : resume ops alloc .acceptHandler fd m.world = .ok (world, call, callback) :=
      resumed
    refine ⟨?_, followed.owned.run (keeps.mpr sorted) ran, .inl keptOn⟩
    rw [Machine.proceed_world, resume_handed resumed]
    cases resumed
    exact later
  · exact absurd sorted unsorted.unsorted

/-- The step that accepts a connection. -/
theorem Followed.accept (fresh : ∀ count used, alloc count used ∉ used)
    (followed : Followed listener s m)
    (kept : Kept False listener m base owed rearm) {fd : Fd}
    (stepped : m.step (host ops alloc listener) (.accept fd) = .ok after) :
    m.stack = [] ∧ ∃ next,
      s.step (.accept (some .listener) none (.accepted fd)) = some next ∧
      Followed listener next after := by
  cases Machine.step_move stepped with
  | @accept _ op _ _ _ world quiet inside none next fd_eq set opened =>
      have mirrored := followed.mirrored
      have notHandler : handed m.stack = .none := congrArg handed quiet
      rw [notHandler] at mirrored
      obtain ⟨later, given, mirrored⟩ := mirrored.accept opened
      have clients : world.clients = m.world.clients := by
        obtain ⟨_, rfl⟩ := accept_ok opened
        rfl
      obtain rfl := (kept.quiet quiet).acceptOp_of_waiting (Rounds.mem_waiting next)
      refine ⟨quiet, later, given, mirrored, (followed.owned.step_iff given).mpr trivial, ?_⟩
      by_cases sorted : SortedAtAccept m (.accept fd)
      · exact .inl (kept.step fresh sorted nofun stepped)
      · have consistent := (kept.quiet quiet).consistent
        refine .inr ⟨⟨fd, congrArg _ quiet⟩, ?_, ?_, ?_⟩
        · exact clients ▸ consistent.nodes
        · exact clients ▸ consistent.holds
        · exact clients ▸ sorted

theorem socketSteps_other (notHandler : handed m.stack = none)
    (notAccept : ∀ fd, event ≠ .accept fd) : socketSteps alloc m event = [] := by
  rw [socketSteps.eq_def]
  split
  · rename_i running
    rw [running] at notHandler
    cases notHandler
  · exact absurd rfl (notAccept _)
  · rfl

theorem sortedAtReap_other (notHandler : handed m.stack = none) : SortedAtReap m event := by
  rw [SortedAtReap.eq_def]
  split
  · rename_i running
    rw [running] at notHandler
    cases notHandler
  · trivial

theorem running_of_handed {stack : List (Callback × Nat)} (running : handed stack ≠ none) :
    ∃ fd rest, stack = (.acceptHandler, fd) :: rest := by
  rw [handed.eq_def] at running
  split at running
  · exact ⟨_, _, rfl⟩
  · exact absurd rfl running

/-- What a step of the server does to sockets is what can be done to them, and
keeps the descriptors owned as long as the clients are in order when they are reaped. -/
theorem Followed.step (fresh : ∀ count used, alloc count used ∉ used)
    (followed : Followed listener s m)
    (stepped : m.step (host ops alloc listener) event = .ok after) :
    ∃ next, s.run (socketSteps alloc m event) = some next ∧
      (Along Keeps s (socketSteps alloc m event) ↔ SortedAtReap m event) ∧
      (SortedAtReap m event → Followed listener next after) := by
  by_cases notHandler : handed m.stack = none
  · have sorted : SortedAtReap m event := sortedAtReap_other notHandler
    rcases followed.kept with ⟨base, owed, rearm, kept⟩ | unsorted
    · by_cases accepts : ∃ fd, event = .accept fd
      · obtain ⟨fd, rfl⟩ := accepts
        obtain ⟨quiet, next, given, later⟩ := followed.accept fresh kept stepped
        rw [socketSteps.eq_def, quiet]
        refine ⟨next, (run_cons given _).trans rfl, iff_of_true ?_ sorted, fun _ => later⟩
        exact (along_cons given).mpr ⟨trivial, trivial⟩
      · have notAccept : ∀ fd, event ≠ .accept fd := fun fd same => accepts ⟨fd, same⟩
        obtain ⟨same, handedOn⟩ := kept.step_sameSockets stepped notHandler notAccept
        rw [socketSteps_other notHandler notAccept]
        refine ⟨s, rfl, iff_of_true trivial sorted, fun _ => ⟨?_, followed.owned, .inl ?_⟩⟩
        · have mirrored := followed.mirrored
          rw [notHandler] at mirrored
          rw [handedOn]
          exact mirrored.of_sameSockets same
        · refine kept.step fresh ?_ nofun stepped
          cases event with
          | accept fd => exact absurd rfl (notAccept fd)
          | _ => trivial
    · obtain ⟨fd, running⟩ := unsorted.running
      rw [running] at notHandler
      cases notHandler
  · obtain ⟨fd, rest, running⟩ := running_of_handed notHandler
    obtain rfl := Machine.tick_of_running running stepped
    rw [socketSteps.eq_def, SortedAtReap.eq_def, running]
    exact followed.handle fresh running stepped

/-- `accept_handler` goes through. -/
theorem sortedAtReap_of_error {halt : Halt}
    (failed : m.step (host ops alloc listener) event = .error halt) : SortedAtReap m event := by
  rw [SortedAtReap.eq_def]
  split
  · rename_i running
    simp only [Machine.step] at failed
    rw [running] at failed
    cases failed
  · trivial

theorem Followed.keeps_iff (fresh : ∀ count used, alloc count used ∉ used)
    (followed : Followed listener s m)
    (events : List (Event Callback)) :
    Along Keeps s (socketRun ops alloc listener m events) ↔
      Machine.Along (host ops alloc listener) SortedAtReap m events := by
  induction events generalizing m s with
  | nil => exact iff_of_true trivial trivial
  | cons event events ih =>
      rw [socketRun, Machine.Along]
      cases stepped : m.step (host ops alloc listener) event with
      | error halt => exact iff_of_true trivial ⟨sortedAtReap_of_error stepped, trivial⟩
      | ok after =>
          obtain ⟨next, ran, keeps, later⟩ := followed.step fresh stepped
          dsimp only
          rw [along_append ran, keeps]
          exact and_congr_right fun sorted => ih (later sorted)

theorem Followed.run (fresh : ∀ count used, alloc count used ∉ used)
    (followed : Followed listener s m)
    {events : List (Event Callback)}
    (sorted : Machine.Along (host ops alloc listener) SortedAtReap m events)
    (ran : m.run (host ops alloc listener) events = .ok after) :
    ∃ next, s.run (socketRun ops alloc listener m events) = some next ∧
      Followed listener next after := by
  induction events generalizing m s with
  | nil =>
      cases ran
      exact ⟨s, rfl, followed⟩
  | cons event events ih =>
      obtain ⟨first, sorted⟩ := sorted
      obtain ⟨next, stepped, ran⟩ := bind_ok_iff.mp ran
      rw [stepped] at sorted
      obtain ⟨between, socketsRan, _, later⟩ := followed.step fresh stepped
      obtain ⟨last, restRan, followed⟩ := ih (later first) sorted ran
      rw [socketRun, stepped]
      exact ⟨last, (run_append socketsRan _).trans restRan, followed⟩

/-- The constructor of `Server` makes the socket that it listens on. -/
def listening (listener : Fd) : SocketStep (Option Object) :=
  .listen (some .listener) { socket := some listener }

theorem followed_start (listener : Fd) (db : Store) :
    ∃ s, Sockets.step {} (listening listener) = some s ∧ Followed listener s (start db) := by
  have listens : Sockets.step ({} : Sockets (Option Object)) (listening listener) =
      some (construct {} (some .listener) (.ok listener, { opened := [listener] })) := by
    simp [listening, step, Unused, listenSocket, Descriptors.give]
  refine ⟨_, listens, ?_, (owned_empty.step_iff listens).mpr fun _ => ⟨rfl, rfl, rfl⟩,
    .inl ⟨_, _, _, kept_start db⟩⟩
  constructor
  · simp only [construct, Function.update_self]
  · intro client member
    cases member
  · intro address _
    simp [construct]
  · simp [construct, start, handed]
  · simp [construct, start]

/-- In a run of the server every open descriptor is held by one socket, and none
is closed twice, just as long as no open handler stands behind a closed one when
`accept_handler` runs. -/
theorem server_owns_descriptors_iff (ops : DatabaseOps Store Coll) (alloc : Nat → List Nat → Nat)
    (fresh : ∀ count used, alloc count used ∉ used) (listener : Fd) (db : Store)
    (events : List (Event Callback)) :
    Throughout Owned {} (listening listener :: socketRun ops alloc listener (start db) events) ↔
      Machine.Along (host ops alloc listener) SortedAtReap (start db) events := by
  obtain ⟨s, listens, followed⟩ := followed_start listener db
  rw [owned_empty.throughout_iff, along_cons listens, followed.keeps_iff fresh]
  exact and_iff_right fun _ => ⟨rfl, rfl, rfl⟩

/-- They are when the second of two clients leaves, and are not when the first does. -/
theorem server_owns_descriptors_iff_guests :
    (Machine.Along (host (databaseOps noHash) nextAddress 3) SortedAtReap (start {}) guests ∧
      ¬ Machine.Along (host (databaseOps noHash) nextAddress 3) SortedAtReap (start {}) turnover) ∧
    (Throughout Owned {} (listening 3 ::
        socketRun (databaseOps noHash) nextAddress 3 (start {}) guests) ↔
      Machine.Along (host (databaseOps noHash) nextAddress 3) SortedAtReap (start {}) guests) ∧
    (Throughout Owned {} (listening 3 ::
        socketRun (databaseOps noHash) nextAddress 3 (start {}) turnover) ↔
      Machine.Along (host (databaseOps noHash) nextAddress 3) SortedAtReap (start {}) turnover) :=
  ⟨by decide +kernel,
    server_owns_descriptors_iff (databaseOps noHash) nextAddress nextAddress_fresh 3 {} guests,
    server_owns_descriptors_iff (databaseOps noHash) nextAddress nextAddress_fresh 3 {} turnover⟩

/-- As long as that is so, what is open is what the server listens on and the
connections that it has not closed. -/
theorem server_sockets_follow (fresh : ∀ count used, alloc count used ∉ used) (db : Store)
    {events : List (Event Callback)}
    (sorted : Machine.Along (host ops alloc listener) SortedAtReap (start db) events)
    (ran : Machine.run (host ops alloc listener) (start db) events = .ok m) :
    ∃ s, Sockets.run {} (listening listener :: socketRun ops alloc listener (start db) events) =
      some s ∧ Mirrored listener s m.world (handed m.stack) := by
  obtain ⟨s, listens, followed⟩ := followed_start listener db
  obtain ⟨last, socketsRan, followed⟩ := followed.run fresh sorted ran
  exact ⟨last, (run_cons listens _).trans socketsRan, followed.mirrored⟩

theorem server_sockets_follow_guests :
    (Machine.run (host (databaseOps noHash) nextAddress 3) (start {}) guests).isOk = true ∧
    ∀ m, Machine.run (host (databaseOps noHash) nextAddress 3) (start {}) guests = .ok m →
      ∃ s, Sockets.run {} (listening 3 ::
          socketRun (databaseOps noHash) nextAddress 3 (start {}) guests) = some s ∧
        Mirrored 3 s m.world (handed m.stack) := by
  have sorted : Machine.Along (host (databaseOps noHash) nextAddress 3) SortedAtReap (start {})
      guests := by decide +kernel
  exact ⟨by decide +kernel,
    fun m ran => server_sockets_follow nextAddress_fresh ({} : Database) sorted ran⟩

end Boutique.Server
