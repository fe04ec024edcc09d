import Boutique.Io.SendOrder
import Boutique.Server.ResponsesApart

namespace Boutique.Server

open Boutique.Core Boutique.Data Boutique.Db Boutique.Io Boutique.Protocol World

/-! # One order of all commands

The server interleaves the commands of its clients. What they do and what they
are answered is what executing them in one order does, in which the commands of
each connection stand as they were received. -/

variable {Store Coll : Type} {ops : DatabaseOps Store Coll} {alloc : Nat → List Nat → Nat}
  {listener : Fd}

namespace World

variable {world after : World Store} {address index : Nat} {fd : Fd} {conn : Connection}

/-- The connection that a socket of the server belongs to. -/
def ownerOf (world : World Store) : Object → Option Nat
  | .listener => none
  | .client address => world.connectionOf address

theorem ownerOf_congr (same : SameSockets after world) : after.ownerOf = world.ownerOf := by
  funext object
  cases object with
  | listener => rfl
  | client address => exact congrFun (connectionOf_congr same) address

theorem connectionOf_lt (known : world.connectionOf address = some index) :
    index < world.connections.length := by
  obtain ⟨_, _, found⟩ := connectionOf_some_iff.mp known
  exact (List.findIdx?_eq_some_iff_getElem.mp found).1

theorem Consistent.updateConnection_eq (consistent : world.Consistent)
    (found : world.connections.findIdx? (fun conn => conn.fd = fd ∧ conn.released = false) =
      some index) (update : Connection → Connection) :
    (world.updateConnection fd update).connections = world.connections.modify index update := by
  apply map_eq_modify found
  have distinct := consistent.descriptors
  rw [List.Nodup, List.pairwise_map, List.pairwise_filter] at distinct
  apply distinct.imp
  intro conn other apart first second
  exact apart (by simp [first.2]) (by simp [second.2]) (first.1.trans second.1.symm)

/-- Two clients have two connections. -/
theorem Consistent.address_of_connection (consistent : world.Consistent) {other : Nat}
    (first : world.connectionOf address = some index)
    (second : world.connectionOf other = some index) : address = other := by
  obtain ⟨fd, holds, found⟩ := connectionOf_some_iff.mp first
  obtain ⟨fd', holds', found'⟩ := connectionOf_some_iff.mp second
  obtain ⟨_, here, _⟩ := List.findIdx?_eq_some_iff_getElem.mp found
  obtain ⟨_, here', _⟩ := List.findIdx?_eq_some_iff_getElem.mp found'
  obtain rfl : fd = fd' := by simp_all
  obtain ⟨client, present, socket⟩ := Option.bind_eq_some_iff.mp holds
  obtain ⟨client', present', socket'⟩ := Option.bind_eq_some_iff.mp holds'
  obtain ⟨member, rfl⟩ := client?_some present
  obtain ⟨member', rfl⟩ := client?_some present'
  exact congrArg Client.address
    (consistent.eq_of_socket member member' (socket.trans socket'.symm))

end World

variable {strict ordered : Prop} {m after : ServerMachine Store} {base : World Store}
  {owed : List Nat} {rearm : List (AcceptOp Object Callback)} {event : Event Callback}

/-! ## What is under way -/

/-- What waits to be sent, with the connections it goes to. -/
def owing (m : ServerMachine Store) : List (Option Nat × Bytes) :=
  m.context.send.waiting.map fun op => (m.world.ownerOf op.socket, op.buf)

/-- The bytes of a connection that its handler is about to see. -/
def arriving (m : ServerMachine Store) (index : Nat) : Bytes :=
  match m.stack with
  | (.recvHandler address, count) :: _ =>
      if m.world.connectionOf address = some index then
        (m.world.client? address).elim [] fun client => client.buf.take count
      else []
  | _ => []

/-- The commands that the running handler is about to execute, with its connection. -/
def completing (m : ServerMachine Store) : List (Nat × Command) :=
  match m.stack with
  | (.recvHandler address, count) :: _ =>
      match m.world.client? address, m.world.connectionOf address with
      | some client, some index =>
          let input := client.handler.stream.asConstBuffer ++ client.buf.take count
          (drainedValues nextCommand input.length input).map (Prod.mk index)
      | _, _ => []
  | _ => []

/-- The responses that the handler of a connection is about to send. -/
def responding (m : ServerMachine Store) (index : Nat) : List Response :=
  match m.stack with
  | (.respond address responses, _) :: _ =>
      if m.world.connectionOf address = some index then responses else []
  | _ => []

/-- Bytes of responses that a connection is still to be sent. -/
def unsent (m : ServerMachine Store) (index : Nat) : Bytes :=
  stream (some index) (owing m) ++ (responding m index).flatMap writeResponse

/-- Of the bytes received by the connection, its commands in `history` are those
that the handler has seen whole, and the responses it was `issued`, with one more
for every receive since a malformed command, are sent or will be, in that order. -/
structure Explained (ordered : Prop) (m : ServerMachine Store) (history : List (Nat × Command))
    (issued : List (Nat × Response)) (index : Nat) (conn : Connection)
    (handled left : Bytes) (stuck : Bool) (complaints : Nat) : Prop where
  received : conn.received = handled ++ arriving m index
  drained : Drains nextCommand handled (ownedBy index history) left stuck
  complained : stuck = true ↔ complaints ≠ 0
  sent : ordered → conn.sent ++ unsent m index =
    (ownedBy index issued ++
      List.replicate complaints Response.invalidCommand).flatMap writeResponse

/-- Executing `history` in order explains the database and all connections. -/
structure Served (ordered : Prop) (ops : DatabaseOps Store Coll) (db : Store)
    (m : ServerMachine Store) (history : List (Nat × Command)) (issued : List (Nat × Response)) :
    Prop where
  executed : runAll (ownedStep (execute ops)) db history = .ok (m.world.db, issued)
  known : ∀ entry ∈ history, entry.1 < m.world.connections.length
  each : ∀ index conn, m.world.connections[index]? = some conn →
    ∃ handled left stuck complaints,
      Explained ordered m history issued index conn handled left stuck complaints

variable {db : Store} {history : List (Nat × Command)} {issued : List (Nat × Response)}

theorem served_start (ops : DatabaseOps Store Coll) (db : Store) :
    Served ordered ops db (start db) [] [] := ⟨rfl, nofun, nofun⟩

theorem arriving_quiet (quiet : m.stack = []) (index : Nat) : arriving m index = [] := by
  rw [arriving, quiet]

theorem responding_quiet (quiet : m.stack = []) (index : Nat) : responding m index = [] := by
  rw [responding, quiet]

/-- What the kernel has moved on a connection. -/
def Connection.moved (conn : Connection) : Bytes × Bytes := (conn.received, conn.sent)

/-- A step that receives and sends nothing. -/
theorem Served.of_moved (served : Served ordered ops db m history issued)
    (database : after.world.db = m.world.db)
    (moved : after.world.connections.map Connection.moved =
      m.world.connections.map Connection.moved)
    (arriving : ∀ index, arriving after index = arriving m index)
    (unsent : ∀ index, unsent after index = unsent m index) :
    Served ordered ops db after history issued where
  executed := by
    rw [database]
    exact served.executed
  known := by
    have length := congrArg List.length moved
    rw [List.length_map, List.length_map] at length
    rw [length]
    exact served.known
  each := by
    intro index conn found
    have same := congrArg (fun views => views[index]?) moved
    simp only [List.getElem?_map, found, Option.map_some] at same
    obtain ⟨before, there, view⟩ := Option.map_eq_some_iff.mp same.symm
    obtain ⟨received, sent⟩ := Prod.mk.inj view
    obtain ⟨handled, left, stuck, complaints, explained⟩ := served.each index before there
    refine ⟨handled, left, stuck, complaints, ?_, explained.drained, explained.complained, ?_⟩
    · rw [← received, arriving]
      exact explained.received
    · rw [← sent, unsent]
      exact explained.sent

theorem unsent_congr (owing_eq : owing after = owing m)
    (responding_eq : ∀ index, responding after index = responding m index) (index : Nat) :
    unsent after index = unsent m index := by
  rw [unsent, unsent, owing_eq, responding_eq]

/-! ## Receiving -/

/-- Where the receive of a client stands: the bytes that are new, and in its
stream what is left of those before. -/
theorem Kept.reader {address : Nat} {data : Bytes}
    (kept : Kept strict listener m base [address] [])
    (arrived : base.recv (.client address) { base := address } data = .ok m.world) :
    ∃ reader index conn, m.world.client? address = some reader ∧
      reader.buf.take data.length = data ∧ m.world.connectionOf address = some index ∧
      base.connections[index]? = some conn ∧
      m.world.connections = base.connections.modify index (.deliver data) ∧
      Unconsumed conn.received reader.handler.stream := by
  have consistent := kept.consistent
  obtain ⟨addresses, _, owed⟩ := kept.receiving
  have isIn : address ∈ base.openAddresses := owed.mem_iff.mp (by simp)
  obtain ⟨client, member, isOpen, rfl⟩ := mem_openAddresses.mp isIn
  obtain ⟨index, known⟩ := consistent.connectionOf_client (openAddresses_subset isIn)
  obtain ⟨fd, holds, found⟩ := connectionOf_some_iff.mp known
  obtain ⟨inside, here, _⟩ := List.findIdx?_eq_some_iff_getElem.mp found
  have same := connectionOf_congr (recv_sameSockets arrived)
  obtain ⟨fd', holds', world⟩ := recv_ok arrived
  obtain rfl : fd = fd' := Option.some.inj (holds.symm.trans holds')
  rw [consistent.client?_eq member] at holds
  have reader := client?_updateClient base client.address
    (fun client => { client with buf := overwrite client.buf 0 data }) fun _ => rfl
  rw [consistent.client?_eq member] at reader
  have connections : m.world.connections = base.connections.modify index (.deliver data) := by
    rw [world]
    exact consistent.updateConnection_eq found _
  obtain ⟨fd_eq, unreleased⟩ := of_decide_eq_true here
  have serves := consistent.serves client member _ (List.getElem_mem inside) unreleased
    (fd_eq ▸ holds)
  refine ⟨{ client with buf := overwrite client.buf 0 data }, index, base.connections[index],
    ?_, ?_, ?_, List.getElem?_eq_getElem inside, connections,
    serves.unconsumed (serves.closed.trans isOpen)⟩
  · rw [world]
    exact reader
  · rw [overwrite, List.take_zero, List.nil_append, List.take_left]
  · rw [same, known]

/-- New bytes behind what has been drained, which are drained only as long as no
malformed command has come. -/
theorem drained_more {input left : Bytes} {cmds : List Command} {stuck : Bool}
    (drained : Drains nextCommand input cmds left stuck) (data : Bytes) :
    ∃ more left' stuck', Drains nextCommand (left ++ data) more left' stuck' ∧
      Drains nextCommand (input ++ data) (cmds ++ more) left' stuck' ∧
      (stuck = true → more = [] ∧ stuck' = true) := by
  cases stuck with
  | false =>
      obtain ⟨more, left', stuck', next⟩ := Drains.total nextCommand_codec (left ++ data)
      exact ⟨more, left', stuck', next, drained.append nextCommand_codec next, nofun⟩
  | true =>
      have rejected : nextCommand left = .rejected := drained.left_verdict
      refine ⟨[], left ++ data, true, .rejected (nextCommand_codec.rejected_append data rejected),
        ?_, fun _ => ⟨rfl, rfl⟩⟩
      rw [List.append_nil]
      exact drained.append_stuck nextCommand_codec data

theorem complained_more {more : List Command} {stuck stuck' : Bool} {complaints : Nat}
    (complained : stuck = true ↔ complaints ≠ 0)
    (stays : stuck = true → more = [] ∧ stuck' = true) :
    stuck' = true ↔ complaints + (complaint stuck').length ≠ 0 := by
  cases stuck' with
  | true => simp [complaint]
  | false =>
      have none : complaints = 0 := by
        by_contra some
        cases (stays (complained.mpr some)).2
      simp [complaint, none]

/-- Complaints come last. -/
theorem issued_more {answers : List Response} {stuck stuck' : Bool} {complaints : Nat}
    (complained : stuck = true ↔ complaints ≠ 0) (none : stuck = true → answers = []) :
    List.replicate complaints Response.invalidCommand ++ (answers ++ complaint stuck') =
      answers ++ List.replicate (complaints + (complaint stuck').length)
        Response.invalidCommand := by
  have last : complaint stuck' =
      List.replicate (complaint stuck').length Response.invalidCommand := by
    cases stuck' <;> rfl
  rw [List.replicate_add, ← last]
  by_cases nothing : complaints = 0
  · rw [nothing]
    rfl
  · rw [none (complained.mpr nothing)]
    rfl

theorem arriving_recvHandler {address count : Nat} {stack : List (Callback × Nat)}
    {reader : Client} {index : Nat} (running : m.stack = (.recvHandler address, count) :: stack)
    (present : m.world.client? address = some reader)
    (known : m.world.connectionOf address = some index) (other : Nat) :
    arriving m other = if other = index then reader.buf.take count else [] := by
  simp only [arriving, running, present, known, Option.some.injEq, Option.elim_some]
  exact if_congr eq_comm rfl rfl

theorem completing_quiet (quiet : m.stack = []) : completing m = [] := by
  rw [completing, quiet]

/-- A handler that is about to see `data`, behind what its stream has `left` of the
bytes before. The commands that there are then are `cmds`. -/
structure Reading (m : ServerMachine Store) (address index : Nat) (data : Bytes) (reader : Client)
    (earlier : Connection) (before cmds : List Command) (left left' : Bytes)
    (stuck stuck' : Bool) : Prop where
  present : m.world.client? address = some reader
  taken : reader.buf.take data.length = data
  known : m.world.connectionOf address = some index
  found : m.world.connections[index]? = some (earlier.deliver data)
  holds : reader.handler.stream.Holds left
  drained : Drains nextCommand earlier.received before left stuck
  completes : Drains nextCommand (left ++ data) cmds left' stuck'
  whole : Drains nextCommand (earlier.received ++ data) (before ++ cmds) left' stuck'
  stays : stuck = true → cmds = [] ∧ stuck' = true

theorem Kept.reading {address : Nat} {data : Bytes}
    (kept : Kept strict listener m base [address] [])
    (arrived : base.recv (.client address) { base := address } data = .ok m.world) :
    ∃ index reader earlier before cmds left left' stuck stuck',
      Reading m address index data reader earlier before cmds left left' stuck stuck' := by
  obtain ⟨reader, index, earlier, present, taken, known, there, delivered, before, left, stuck,
    drained, holds⟩ := kept.reader arrived
  obtain ⟨cmds, left', stuck', completes, whole, stays⟩ := drained_more drained data
  refine ⟨index, reader, earlier, before, cmds, left, left', stuck, stuck', present, taken, known,
    ?_, holds, drained, completes, whole, stays⟩
  rw [delivered, List.getElem?_modify_eq, there]
  rfl

namespace Reading

variable {address index : Nat} {data : Bytes} {reader : Client} {earlier : Connection}
  {before cmds : List Command} {left left' : Bytes} {stuck stuck' : Bool}
  (reading : Reading m address index data reader earlier before cmds left left' stuck stuck')

include reading

theorem completing_eq (running : m.stack = [(.recvHandler address, data.length)]) :
    completing m = cmds.map (Prod.mk index) := by
  simp only [completing, running, reading.present, reading.known, reading.taken,
    reading.holds.asConstBuffer_eq]
  rw [reading.completes.drainedValues_eq nextCommand_codec (Nat.le_refl _)]

theorem arriving_eq (running : m.stack = [(.recvHandler address, data.length)]) (other : Nat) :
    arriving m other = if other = index then data else [] := by
  rw [arriving_recvHandler running reading.present reading.known, reading.taken]

/-- At the end of the stream there is nothing to execute. -/
theorem ends (nothing : data = []) : cmds = [] ∧
    ∃ update : Client → Client, resume ops alloc (.recvHandler address) data.length m.world =
      .ok (m.world.updateClient address update, none, none) := by
  have completes := reading.completes
  subst nothing
  rw [List.append_nil] at completes
  obtain ⟨none, _⟩ := completes.deterministic (.of_left reading.drained)
  refine ⟨none, fun client =>
    { client with handler := { reader.handler with closed := true } }, ?_⟩
  simp only [resume, reading.present]
  rfl

/-- Otherwise the handler executes the commands, and responds to them. -/
theorem executes (some : data ≠ []) :
    ∃ update : Client → Client, resume ops alloc (.recvHandler address) data.length m.world =
      match executeAll ops m.world.db cmds with
      | .error fault => .error (.aborted fault)
      | .ok (db, answers) => .ok ({ m.world with db }.updateClient address update, none,
          Option.some (.respond address (answers ++ complaint stuck'))) := by
  obtain ⟨stream, _, run⟩ := recvHandler_drains ops reading.holds some reading.completes
  refine ⟨fun client => { client with handler := { reader.handler with stream } }, ?_⟩
  simp only [resume, reading.present, reading.taken, run]
  cases executeAll ops m.world.db cmds with
  | error fault => rfl
  | ok outcome => rfl

/-- The reader's own connection once the handler has taken the bytes. -/
theorem explained {complaints : Nat} {answers : List Response} {db' : Store}
    (explained : Explained ordered m history issued index (earlier.deliver data) earlier.received
      left stuck complaints)
    (drained : Drains nextCommand (earlier.received ++ data) (ownedBy index history ++ cmds) left'
      stuck')
    (executed : executeAll ops m.world.db cmds = .ok (db', answers))
    (quiet : responding m index = []) (arrived : arriving after index = [])
    (owing_eq : owing after = owing m)
    (responds : responding after index = answers ++ complaint stuck') :
    Explained ordered after (history ++ cmds.map (Prod.mk index))
      (issued ++ answers.map (Prod.mk index)) index (earlier.deliver data)
      (earlier.received ++ data) left' stuck' (complaints + (complaint stuck').length) where
  received := by
    rw [arrived, List.append_nil]
    rfl
  drained := by
    rw [ownedBy_append, ownedBy_mark_self]
    exact drained
  complained := complained_more explained.complained reading.stays
  sent := by
    intro isOrdered
    have sent := explained.sent isOrdered
    rw [unsent, quiet, List.flatMap_nil, List.append_nil] at sent
    have none : stuck = true → answers = [] := by
      intro isStuck
      obtain ⟨rfl, _⟩ := reading.stays isStuck
      cases executed
      rfl
    rw [unsent, responds, owing_eq, ← List.append_assoc, sent, ← List.flatMap_append,
      ownedBy_append, ownedBy_mark_self, List.append_assoc, List.append_assoc,
      issued_more explained.complained none]

end Reading

/-- The other connections meanwhile. -/
theorem Explained.of_other {other index : Nat} {conn : Connection} {handled left : Bytes}
    {stuck : Bool} {complaints : Nat} {cmds : List Command} {answers : List Response}
    (explained : Explained ordered m history issued other conn handled left stuck complaints)
    (apart : other ≠ index) (unread : arriving m other = []) (arrived : arriving after other = [])
    (owing_eq : owing after = owing m) (quiet : responding m other = [])
    (responds : responding after other = []) :
    Explained ordered after (history ++ cmds.map (Prod.mk index))
      (issued ++ answers.map (Prod.mk index)) other conn handled left stuck complaints where
  received := by
    rw [arrived, ← unread]
    exact explained.received
  drained := by
    rw [ownedBy_append, ownedBy_mark_of_ne (Ne.symm apart), List.append_nil]
    exact explained.drained
  complained := explained.complained
  sent := by
    intro isOrdered
    have sent := explained.sent isOrdered
    rw [unsent, quiet] at sent
    rw [unsent, responds, owing_eq, ownedBy_append, ownedBy_mark_of_ne (Ne.symm apart),
      List.append_nil]
    exact sent

theorem responding_recvHandler {address count : Nat} {stack : List (Callback × Nat)}
    (running : m.stack = (.recvHandler address, count) :: stack) (other : Nat) :
    responding m other = [] := by
  rw [responding, running]

theorem owing_proceed {world : World Store} (sockets : SameSockets world m.world)
    (next : Option Callback) : owing ({ m with world }.proceed none next []) = owing m := by
  simp only [owing, Machine.proceed, ownerOf_congr sockets]

section

variable {address index : Nat} {data : Bytes} {reader : Client} {earlier : Connection}
  {before cmds : List Command} {left left' : Bytes} {stuck stuck' : Bool} {world : World Store}
  {call : Option (Call Object Nat Callback)} {next : Option Callback}

/-- A handler that sees the end of the stream executes nothing. -/
theorem Served.receive_end
    (reading : Reading m address index data reader earlier before cmds left left' stuck stuck')
    (running : m.stack = [(.recvHandler address, data.length)])
    (served : Served ordered ops db m history issued)
    (resumed : resume ops alloc (.recvHandler address) data.length m.world =
      .ok (world, call, next)) (nothing : data = []) :
    ∃ answers, Served ordered ops db ({ m with world }.proceed call next [])
      (history ++ completing m) (issued ++ answers) := by
  have sockets := recvHandler_sameSockets resumed
  obtain ⟨none, update, run⟩ := reading.ends nothing
  cases resumed.symm.trans run
  refine ⟨[], ?_⟩
  rw [reading.completing_eq running, none, List.map_nil, List.append_nil, List.append_nil]
  refine served.of_moved rfl rfl ?_ (unsent_congr (owing_proceed sockets _) ?_)
  · intro other
    rw [reading.arriving_eq running, nothing, ite_self]
    rfl
  · intro other
    rw [responding_recvHandler running]
    rfl

/-- Otherwise it executes the commands that its new bytes complete. -/
theorem Served.receive_data
    (reading : Reading m address index data reader earlier before cmds left left' stuck stuck')
    (running : m.stack = [(.recvHandler address, data.length)])
    (served : Served ordered ops db m history issued)
    (resumed : resume ops alloc (.recvHandler address) data.length m.world =
      .ok (world, call, next)) (some : data ≠ []) :
    ∃ answers, Served ordered ops db ({ m with world }.proceed call next [])
      (history ++ completing m) (issued ++ answers) := by
  have sockets := recvHandler_sameSockets resumed
  have arrives := reading.arriving_eq running
  have quiet := responding_recvHandler running
  have owing_eq := fun next => owing_proceed (m := m) sockets next
  obtain ⟨handled, _, _, complaints, explained⟩ := served.each index _ reading.found
  obtain rfl : earlier.received = handled := by
    have both := explained.received
    rw [arrives, if_pos rfl] at both
    exact List.append_cancel_right both
  obtain ⟨rfl, rfl, rfl⟩ := reading.drained.deterministic explained.drained
  obtain ⟨update, run⟩ := reading.executes some
  rw [run] at resumed
  cases executed : executeAll ops m.world.db cmds with
  | error fault =>
      rw [executed] at resumed
      cases resumed
  | ok outcome =>
      obtain ⟨db', answers⟩ := outcome
      rw [executed] at resumed
      cases resumed
      have responds : ∀ other, responding ({ m with
          world := { m.world with db := db' }.updateClient address update }.proceed none
            (Option.some (.respond address (answers ++ complaint stuck'))) []) other =
            if other = index then answers ++ complaint stuck' else [] := by
        intro other
        have same := congrFun (connectionOf_congr sockets) address
        rw [reading.known] at same
        simp only [responding, Machine.proceed, Option.map_some, Option.toList_some,
          List.singleton_append, same, Option.some.injEq]
        exact if_congr eq_comm rfl rfl
      rw [reading.completing_eq running]
      refine ⟨answers.map (Prod.mk index), ?_, ?_, ?_⟩
      · rw [executeAll_eq_runAll] at executed
        exact runAll_append_iff.mpr
          ⟨_, _, _, served.executed, runAll_mark index executed, rfl⟩
      · intro entry member
        rcases List.mem_append.mp member with earlier | new
        · exact served.known entry earlier
        · obtain ⟨_, _, rfl⟩ := List.mem_map.mp new
          have inside := connectionOf_lt reading.known
          exact inside
      · intro other conn' found'
        replace found' : m.world.connections[other]? = Option.some conn' := found'
        by_cases same : other = index
        · subst same
          obtain rfl : earlier.deliver data = conn' :=
            Option.some.inj (reading.found.symm.trans found')
          exact ⟨_, _, _, _, reading.explained explained reading.whole executed (quiet _) rfl
            (owing_eq _) ((responds _).trans (if_pos rfl))⟩
        · obtain ⟨handled, left, stuck, complaints, explained⟩ := served.each other conn' found'
          exact ⟨handled, left, stuck, complaints, explained.of_other same
            ((arrives _).trans (if_neg same)) rfl (owing_eq _) (quiet _)
            ((responds _).trans (if_neg same))⟩

end

/-- Whatever a handler sees is explained. -/
theorem Served.receive {address : Nat} {data : Bytes}
    (kept : Kept strict listener m base [address] [])
    (arrived : base.recv (.client address) { base := address } data = .ok m.world)
    (running : m.stack = [(.recvHandler address, data.length)])
    (served : Served ordered ops db m history issued) {world : World Store}
    {call : Option (Call Object Nat Callback)} {next : Option Callback}
    (resumed : resume ops alloc (.recvHandler address) data.length m.world =
      .ok (world, call, next)) :
    ∃ answers, Served ordered ops db ({ m with world }.proceed call next [])
      (history ++ completing m) (issued ++ answers) := by
  obtain ⟨index, reader, earlier, before, cmds, left, left', stuck, stuck', reading⟩ :=
    kept.reading arrived
  by_cases nothing : data = []
  · exact served.receive_end reading running resumed nothing
  · exact served.receive_data reading running resumed nothing

/-! ## Owners of what waits -/

theorem Kept.ownerOf_waiting (kept : Kept True listener m base owed rearm)
    {op : SendOp Object Callback} (waits : op ∈ m.context.send.waiting) :
    ∃ address index, op.socket = .client address ∧ m.world.connectionOf address = some index := by
  obtain ⟨address, among, socket⟩ := kept.live trivial op waits
  obtain ⟨index, known⟩ := kept.consistent.connectionOf_client among
  refine ⟨address, index, socket, ?_⟩
  have phase := kept.phase
  generalize m.stack = stack at phase
  cases phase with
  | quiet | responding | rearming | sent => exact known
  | receiving arrived =>
      rw [connectionOf_congr (recv_sameSockets arrived)]
      exact known
  | accepting _ _ opened => exact connectionOf_accept opened known

theorem Kept.ownerOf_step (fresh : ∀ count used, alloc count used ∉ used)
    (kept : Kept True listener m base owed rearm)
    (stepped : m.step (host ops alloc listener) event = .ok after)
    {op : SendOp Object Callback} (waits : op ∈ m.context.send.waiting) :
    after.world.ownerOf op.socket = m.world.ownerOf op.socket := by
  obtain ⟨address, index, socket, known⟩ := kept.ownerOf_waiting waits
  have still := kept.connectionOf_step fresh stepped waits socket known
  rw [socket]
  exact still.trans known.symm

theorem Kept.owing_step (fresh : ∀ count used, alloc count used ∉ used)
    (kept : Kept True listener m base owed rearm)
    (stepped : m.step (host ops alloc listener) event = .ok after)
    (waiting : after.context.send.waiting = m.context.send.waiting) : owing after = owing m := by
  rw [owing, owing, waiting]
  apply List.map_congr_left
  intro op waits
  rw [kept.ownerOf_step fresh stepped waits]

/-- Nothing waits for a connection that is not there yet. -/
theorem Kept.stream_owing (kept : Kept True listener m base owed rearm) :
    stream (some m.world.connections.length) (owing m) = [] := by
  apply stream_eq_nil
  intro piece member
  obtain ⟨op, waits, rfl⟩ := List.mem_map.mp member
  obtain ⟨address, index, socket, known⟩ := kept.ownerOf_waiting waits
  have inside := connectionOf_lt known
  have owner : m.world.ownerOf op.socket = some index := by rw [socket]; exact known
  dsimp only
  rw [owner]
  intro same
  have := Option.some.inj same
  omega

/-- Sockets of one connection are one. -/
theorem Kept.ownerOf_ne (kept : Kept True listener m m.world owed rearm)
    {op other : SendOp Object Callback} (first : op ∈ m.context.send.waiting)
    (second : other ∈ m.context.send.waiting) (apart : other.socket ≠ op.socket) :
    m.world.ownerOf other.socket ≠ m.world.ownerOf op.socket := by
  obtain ⟨address, index, socket, known⟩ := kept.ownerOf_waiting first
  obtain ⟨address', index', socket', known'⟩ := kept.ownerOf_waiting second
  rw [socket, socket'] at apart ⊢
  change m.world.connectionOf address' ≠ m.world.connectionOf address
  rw [known, known']
  intro same
  obtain rfl := Option.some.inj same
  exact apart (congrArg Object.client (kept.consistent.address_of_connection known' known))

/-! ## Steps -/

/-- A response that is submitted waits behind those before it. -/
theorem Served.respond {address argument index : Nat} {response : Response}
    {responses : List Response}
    (running : m.stack = [(.respond address (response :: responses), argument)])
    (known : m.world.connectionOf address = some index)
    (served : Served ordered ops db m history issued) :
    Served ordered ops db (m.proceed
      (some (.asyncSendAll (.client address) (writeResponse response) .sent))
      (some (.respond address responses)) []) history issued := by
  have some : (writeResponse response).length ≠ 0 :=
    fun none => writeResponse_ne_nil response (List.length_eq_zero_iff.mp none)
  dsimp only [Machine.proceed, Machine.perform, Machine.callSendHandler]
  rw [List.drop_zero, if_neg some]
  refine served.of_moved rfl rfl ?_ ?_
  · intro other
    rw [arriving, arriving, running]
    rfl
  · intro other
    have owner : m.world.ownerOf (.client address) = Option.some index := known
    simp only [unsent, owing, responding, running, IOContext.asyncSend, Rounds.waiting_push,
      List.map_append, List.map_cons, List.map_nil, stream_append, owner, known, Option.map_some,
      Option.toList_some, List.singleton_append, Option.some.injEq]
    by_cases same : index = other
    · subst same
      rw [stream_cons_self, stream_nil, List.append_nil, if_pos rfl, if_pos rfl, List.flatMap_cons,
        List.append_assoc]
    · have apart : Option.some index ≠ Option.some other :=
        fun equal => same (Option.some.inj equal)
      rw [stream_cons_of_ne apart, stream_nil, List.append_nil, if_neg same, if_neg same]

/-- `accept_handler` has the kernel move nothing. -/
theorem acceptHandler_moved {world world' : World Store} {fd address : Nat}
    (accepted : world.acceptHandler alloc fd = (world', address)) :
    world'.db = world.db ∧
      world'.connections.map Connection.moved = world.connections.map Connection.moved := by
  rw [acceptHandler] at accepted
  dsimp only at accepted
  cases accepted
  refine ⟨rfl, ?_⟩
  rw [destroy, List.map_map]
  rfl

theorem Served.resume (fresh : ∀ count used, alloc count used ∉ used)
    (kept : Kept True listener m base owed rearm)
    (served : Served ordered ops db m history issued) {fn : Callback} {argument : Nat}
    {stack : List (Callback × Nat)} (running : m.stack = (fn, argument) :: stack)
    {world : World Store} {call : Option (Call Object Nat Callback)} {next : Option Callback}
    (resumed : Server.resume ops alloc fn argument m.world = .ok (world, call, next))
    (stepped : m.step (host ops alloc listener) .tick =
      .ok ({ m with world }.proceed call next stack)) :
    ∃ answers, Served ordered ops db ({ m with world }.proceed call next stack)
      (history ++ completing m) (issued ++ answers) := by
  have phase := kept.phase
  rw [running] at phase
  have still : ∀ {after : ServerMachine Store}, completing m = [] →
      Served ordered ops db after history issued →
      ∃ answers, Served ordered ops db after (history ++ completing m) (issued ++ answers) := by
    intro after nothing served
    refine ⟨[], ?_⟩
    rwa [nothing, List.append_nil, List.append_nil]
  have silent : (∀ address, fn ≠ .recvHandler address) → completing m = [] := by
    intro other
    rw [completing, running]
    cases fn with
    | recvHandler address => exact absurd rfl (other address)
    | respond | acceptHandler | rearm | sent => rfl
  cases phase with
  | receiving arrived => exact served.receive kept arrived running resumed
  | @responding address responses =>
      cases responses with
      | nil =>
          cases resumed
          refine still (silent fun _ => Callback.noConfusion) (served.of_moved rfl rfl ?_
            (unsent_congr (kept.owing_step fresh stepped rfl) ?_))
          · intro other
            rw [arriving, arriving, running]
            rfl
          · intro other
            simp only [responding, running, ite_self]
            rfl
      | cons response responses =>
          cases resumed
          obtain ⟨index, known⟩ := kept.connectionOf_responding running
          exact still (silent fun _ => Callback.noConfusion) (served.respond running known)
  | accepting =>
      cases accepted : m.world.acceptHandler alloc argument with
      | mk later address =>
          simp only [Server.resume] at resumed
          rw [accepted] at resumed
          cases resumed
          obtain ⟨database, moved⟩ := acceptHandler_moved accepted
          refine still (silent fun _ => Callback.noConfusion) (served.of_moved database moved ?_
            (unsent_congr (kept.owing_step fresh stepped rfl) ?_))
          · intro other
            rw [arriving, arriving, running]
            rfl
          · intro other
            rw [responding, responding, running]
            rfl
  | rearming | sent =>
      cases resumed
      refine still (silent fun _ => Callback.noConfusion) (served.of_moved rfl rfl ?_
        (unsent_congr (kept.owing_step fresh stepped rfl) ?_))
      · intro other
        rw [arriving, arriving, running]
        rfl
      · intro other
        rw [responding, responding, running]
        rfl

theorem owed_of_receiving {sends : List (SendOp Object Callback)} {world : World Store}
    {address count : Nat}
    (phase : Phase strict listener sends world [(.recvHandler address, count)] base owed rearm) :
    owed = [address] := by
  cases phase
  rfl

/-- The bytes that a connection has received and its handler has not seen yet. -/
theorem Served.recv {address : Nat} {data : Bytes} {ready : Ready} {world : World Store}
    {rest : List (RecvOp Object Nat Callback)} (kept : Kept True listener m m.world [] [])
    (quiet : m.stack = []) (inside : m.ready = some ready)
    (next : m.context.recv.todo = recvOp address :: rest)
    (arrived : m.world.recv (.client address) { base := address } data = .ok world)
    (served : Served ordered ops db m history issued) :
    Served ordered ops db ({ m with
      world, context := { m.context with recv := m.context.recv.visit true } }.enter
        (.recvHandler address) data.length) history issued := by
  obtain ⟨owed, later⟩ := kept.recv quiet inside next arrived
  generalize made : ({ m with
    world, context := { m.context with recv := m.context.recv.visit true } }.enter
      (.recvHandler address) data.length : ServerMachine Store) = after
  have stack : after.stack = [(.recvHandler address, data.length)] := by
    rw [← made, Machine.enter, quiet]
  have world_eq : after.world = world := by rw [← made, Machine.enter]
  replace later : Kept True listener after m.world owed [] := made ▸ later
  obtain rfl : owed = [address] := by
    have phase := later.phase
    rw [stack] at phase
    exact owed_of_receiving phase
  rw [← world_eq] at arrived
  obtain ⟨reader, index, earlier, present, taken, known, there, delivered, _⟩ :=
    later.reader arrived
  have arrives := arriving_recvHandler stack present known
  rw [taken] at arrives
  have waiting : ∀ other, unsent after other = unsent m other := by
    intro other
    have ownerOf := ownerOf_congr (recv_sameSockets arrived)
    rw [unsent, unsent, responding_quiet quiet, responding, stack, owing, owing, ownerOf, ← made]
    rfl
  refine ⟨?_, ?_, ?_⟩
  · have database : after.world.db = m.world.db := by
      obtain ⟨_, _, same⟩ := recv_ok arrived
      rw [same]
      rfl
    rw [database]
    exact served.executed
  · rw [delivered, List.length_modify]
    exact served.known
  · rw [delivered]
    intro other conn found
    by_cases same : other = index
    · subst same
      rw [List.getElem?_modify_eq, there] at found
      cases found
      obtain ⟨handled, left, stuck, complaints, explained⟩ := served.each other earlier there
      have received := explained.received
      rw [arriving_quiet quiet, List.append_nil] at received
      refine ⟨handled, left, stuck, complaints, ?_, explained.drained, explained.complained, ?_⟩
      · rw [arrives, if_pos rfl, ← received]
        rfl
      · rw [waiting]
        exact explained.sent
    · rw [List.getElem?_modify_ne _ _ (Ne.symm same)] at found
      obtain ⟨handled, left, stuck, complaints, explained⟩ := served.each other conn found
      refine ⟨handled, left, stuck, complaints, ?_, explained.drained, explained.complained, ?_⟩
      · rw [arrives, if_neg same, ← arriving_quiet quiet other]
        exact explained.received
      · rw [waiting]
        exact explained.sent

/-- A new connection has received nothing and is owed nothing. -/
theorem Served.accept {fd : Fd} {object : Object} {world : World Store}
    (opened : m.world.accept listener object fd = .ok world) (quiet : m.stack = [])
    (kept : Kept True listener m base owed rearm)
    (served : Served ordered ops db m history issued)
    (database : after.world = world)
    (owing_eq : owing after = owing m) (arriving : ∀ index, arriving after index = [])
    (responding : ∀ index, responding after index = []) :
    Served ordered ops db after history issued := by
  obtain ⟨_, rfl⟩ := accept_ok opened
  have connections : after.world.connections =
      m.world.connections ++ [({ fd } : Connection)] := by
    rw [database]
  refine ⟨?_, ?_, ?_⟩
  · rw [database]
    exact served.executed
  · rw [connections, List.length_append]
    intro entry member
    exact Nat.lt_of_lt_of_le (served.known entry member) (Nat.le_add_right _ _)
  · rw [connections]
    intro index conn found
    rw [List.getElem?_append] at found
    split at found
    · obtain ⟨handled, left, stuck, complaints, explained⟩ := served.each index conn found
      refine ⟨handled, left, stuck, complaints, ?_, explained.drained, explained.complained, ?_⟩
      · rw [arriving, ← arriving_quiet quiet index]
        exact explained.received
      · rw [unsent, owing_eq, responding, ← responding_quiet quiet index]
        exact explained.sent
    · rename_i outside
      obtain ⟨rfl, rfl⟩ : index = m.world.connections.length ∧ ({ fd } : Connection) = conn := by
        obtain ⟨inside, same⟩ := List.getElem?_eq_some_iff.mp found
        rw [List.length_singleton] at inside
        exact ⟨by omega, by simpa using same⟩
      have noCommand : ownedBy m.world.connections.length history = [] :=
        ownedBy_eq_nil fun entry member => (served.known entry member).ne
      have noAnswer : ownedBy m.world.connections.length issued = [] := by
        refine ownedBy_eq_nil fun answer member => ?_
        obtain ⟨entry, among, same⟩ := owner_of_output served.executed member
        exact same ▸ (served.known entry among).ne
      refine ⟨[], [], false, 0, ?_, ?_, by simp, fun _ => ?_⟩
      · rw [arriving]
        rfl
      · rw [noCommand]
        exact .starved rfl
      · rw [unsent, owing_eq, kept.stream_owing, responding, noAnswer]
        rfl

/-- What a handler has left to send waits behind everything else. -/
theorem stream_callSendHandler (m : ServerMachine Store) (handler : SendHandler Object Callback)
    (res : Nat) (key : Option Nat) :
    stream key (owing (m.callSendHandler handler res)) =
      stream key (owing m ++ [(m.world.ownerOf handler.data.socket, handler.buf.drop res)]) := by
  rw [Machine.callSendHandler]
  dsimp only
  split
  · rename_i nothing
    rw [List.length_eq_zero_iff.mp nothing, stream_append, stream_cons_empty, stream_nil,
      List.append_nil]
    rfl
  · simp only [owing, IOContext.asyncSend, Rounds.waiting_push, List.map_append, List.map_cons,
      List.map_nil]

theorem callSendHandler_quiet {m : ServerMachine Store} {handler : SendHandler Object Callback}
    (quiet : m.stack = []) (fn : handler.data.resFn = .sent) (res index : Nat) :
    arriving (m.callSendHandler handler res) index = [] ∧
      responding (m.callSendHandler handler res) index = [] := by
  rw [Machine.callSendHandler]
  dsimp only
  split
  · rw [arriving, responding, Machine.enter, quiet, fn]
    exact ⟨rfl, rfl⟩
  · exact ⟨arriving_quiet quiet index, responding_quiet quiet index⟩

theorem OwnSend.handler {op : SendOp Object Callback} (own : OwnSend op) :
    ∃ handler : SendHandler Object Callback, op.fn = .handler handler ∧
      handler.data.socket = op.socket ∧ handler.data.resFn = .sent ∧ handler.buf = op.buf := by
  obtain ⟨address, origLen, socket, fn⟩ := own
  exact ⟨_, fn, socket.symm, rfl, rfl⟩

/-- A send in turn takes from what waits for its connection first. -/
theorem Kept.stream_send {op : SendOp Object Callback} {rest : List (SendOp Object Callback)}
    {accepted : Nat} {handler : SendHandler Object Callback} {served : ServerMachine Store}
    (kept : Kept True listener m m.world owed rearm) (next : m.context.send.todo = op :: rest)
    (inTurn : m.InTurn (.send accepted)) (socket : handler.data.socket = op.socket)
    (buf : handler.buf = op.buf) (ownerOf : served.world.ownerOf = m.world.ownerOf)
    (visited : served.context.send = m.context.send.visit true) (key : Option Nat) :
    stream key (owing m) = stream key [(m.world.ownerOf op.socket, op.buf.take accepted)] ++
      stream key (owing (served.callSendHandler handler accepted)) := by
  have waits := Rounds.mem_waiting next
  obtain ⟨first, alone⟩ := inTurn.of_next next
  have front : ∀ piece ∈ m.context.send.kept.map fun op =>
      (m.world.ownerOf op.socket, op.buf), piece.1 ≠ m.world.ownerOf op.socket := by
    intro piece member
    obtain ⟨other, among, rfl⟩ := List.mem_map.mp member
    apply kept.ownerOf_ne waits _ (first other among)
    rw [Rounds.waiting_eq next]
    exact List.mem_append_left _ among
  have behind : op.buf.drop accepted ≠ [] → ∀ piece ∈ (rest ++ m.context.send.fresh).map fun op =>
      (m.world.ownerOf op.socket, op.buf), piece.1 ≠ m.world.ownerOf op.socket := by
    intro more piece member
    obtain ⟨other, among, rfl⟩ := List.mem_map.mp member
    rw [← List.length_pos_iff, List.length_drop] at more
    apply kept.ownerOf_ne waits _ (alone (by omega) other among)
    rw [Rounds.waiting_eq next]
    exact List.mem_append_right _ (List.mem_cons_of_mem _ among)
  have before : owing m = m.context.send.kept.map (fun op =>
      (m.world.ownerOf op.socket, op.buf)) ++ (m.world.ownerOf op.socket, op.buf) ::
        (rest ++ m.context.send.fresh).map fun op => (m.world.ownerOf op.socket, op.buf) := by
    rw [owing, Rounds.waiting_eq next, List.map_append, List.map_cons]
  have later : owing served = m.context.send.kept.map (fun op =>
      (m.world.ownerOf op.socket, op.buf)) ++
        (rest ++ m.context.send.fresh).map fun op => (m.world.ownerOf op.socket, op.buf) := by
    rw [owing, ownerOf, visited, Rounds.waiting_done next, List.map_append]
  rw [stream_callSendHandler, before, later, ownerOf, socket, buf]
  exact stream_served front accepted behind key

theorem send_db {world world' : World Store} {object : Object} {data : Bytes}
    (taken : world.send object data = .ok world') : world'.db = world.db := by
  simp only [World.send] at taken
  split at taken
  · cases taken
  · split at taken
    · cases taken
      rfl
    · cases taken

theorem Served.send {op : SendOp Object Callback} {rest : List (SendOp Object Callback)}
    {accepted : Nat} {world : World Store} (kept : Kept True listener m m.world [] [])
    (quiet : m.stack = []) (next : m.context.send.todo = op :: rest)
    (inTurn : ordered → m.InTurn (.send accepted))
    (taken : m.world.send op.socket (op.buf.take accepted) = .ok world)
    (served : Served ordered ops db m history issued) :
    Served ordered ops db ({ m with
      world, context := { m.context with send := m.context.send.visit true },
      accepted := m.accepted ++ [(op.socket, op.buf.take accepted)] }.invokeSend op.fn
        accepted) history issued := by
  have waits := Rounds.mem_waiting next
  obtain ⟨address, index, socket, known⟩ := kept.ownerOf_waiting waits
  obtain ⟨handler, fn_eq, own, isSent, buf⟩ := (kept.sending op waits).handler
  have connections : world.connections = m.world.connections.modify index fun conn =>
      { conn with sent := conn.sent ++ op.buf.take accepted } := by
    rw [socket] at taken
    exact kept.consistent.send_connections known taken
  rw [fn_eq]
  dsimp only [Machine.invokeSend]
  generalize visited_eq : ({ m with
    world, context := { m.context with send := m.context.send.visit true },
    accepted := m.accepted ++ [(op.socket, op.buf.take accepted)] } : ServerMachine Store) = visited
  have quiet' : visited.stack = [] := by
    rw [← visited_eq]
    exact quiet
  have still := callSendHandler_quiet quiet' isSent accepted
  have world_eq : (visited.callSendHandler handler accepted).world = world := by
    rw [Machine.callSendHandler_world, ← visited_eq]
  have streams : ordered → ∀ key, stream key (owing m) =
      stream key [(some index, op.buf.take accepted)] ++
        stream key (owing (visited.callSendHandler handler accepted)) := by
    intro isOrdered key
    have owner : m.world.ownerOf op.socket = some index := by rw [socket]; exact known
    rw [← owner]
    apply kept.stream_send next (inTurn isOrdered) own buf
    · rw [← visited_eq]
      exact ownerOf_congr (send_sameSockets taken)
    · rw [← visited_eq]
  refine ⟨?_, ?_, ?_⟩
  · rw [world_eq, send_db taken]
    exact served.executed
  · rw [world_eq, connections, List.length_modify]
    exact served.known
  · rw [world_eq, connections]
    intro other conn found
    by_cases same : other = index
    · subst same
      obtain ⟨earlier, there, rfl⟩ :
          ∃ earlier, m.world.connections[other]? = some earlier ∧
            { earlier with sent := earlier.sent ++ op.buf.take accepted } = conn := by
        rw [List.getElem?_modify_eq] at found
        exact Option.map_eq_some_iff.mp found
      obtain ⟨handled, left, stuck, complaints, explained⟩ := served.each other earlier there
      refine ⟨handled, left, stuck, complaints, ?_, explained.drained, explained.complained, ?_⟩
      · rw [(still other).1, ← arriving_quiet quiet other]
        exact explained.received
      · intro isOrdered
        have sent := explained.sent isOrdered
        rw [unsent, streams isOrdered, stream_cons_self, stream_nil, List.append_nil,
          responding_quiet quiet] at sent
        rw [unsent, (still other).2, ← sent]
        simp only [List.append_assoc]
    · rw [List.getElem?_modify_ne _ _ (Ne.symm same)] at found
      obtain ⟨handled, left, stuck, complaints, explained⟩ := served.each other conn found
      refine ⟨handled, left, stuck, complaints, ?_, explained.drained, explained.complained, ?_⟩
      · rw [(still other).1, ← arriving_quiet quiet other]
        exact explained.received
      · intro isOrdered
        have sent := explained.sent isOrdered
        have apart : some index ≠ some other := fun equal => same (Option.some.inj equal).symm
        rw [unsent, streams isOrdered, stream_cons_of_ne apart, stream_nil, List.nil_append,
          responding_quiet quiet] at sent
        rw [unsent, (still other).2]
        exact sent

/-- What a step adds to the order: the commands that a handler executes. -/
theorem Served.step (fresh : ∀ count used, alloc count used ∉ used)
    (kept : Kept True listener m base owed rearm) (inTurn : ordered → m.InTurn event)
    (served : Served ordered ops db m history issued)
    (stepped : m.step (host ops alloc listener) event = .ok after) :
    ∃ answers, Served ordered ops db after (history ++ completing m) (issued ++ answers) := by
  have still : ∀ {after : ServerMachine Store}, m.stack = [] →
      Served ordered ops db after history issued →
      ∃ answers, Served ordered ops db after (history ++ completing m) (issued ++ answers) := by
    intro after quiet served
    refine ⟨[], ?_⟩
    rwa [completing_quiet quiet, List.append_nil, List.append_nil]
  have idle : after.world = m.world → m.stack = [] → after.stack = [] →
      after.context.send.waiting = m.context.send.waiting →
      ∃ answers, Served ordered ops db after (history ++ completing m) (issued ++ answers) := by
    intro world quiet quiet' waiting
    refine still quiet (served.of_moved (by rw [world]) (by rw [world]) ?_
      (unsent_congr (kept.owing_step fresh stepped waiting) ?_))
    · intro index
      rw [arriving_quiet quiet, arriving_quiet quiet']
    · intro index
      rw [responding_quiet quiet, responding_quiet quiet']
  cases Machine.step_move stepped with
  | resume running resumed => exact served.resume fresh kept running resumed stepped
  | call quiet outside running | start quiet outside running =>
      rw [kept.running] at running
      cases running
  | «return» quiet outside running stop =>
      rw [kept.going] at stop
      cases stop
  | select quiet outside running stop =>
      obtain ⟨_, send, _, _⟩ := kept.idle outside
      exact idle rfl quiet quiet (Rounds.waiting_start _ |>.trans send.waiting_eq.symm)
  | passRecv quiet | passAccept quiet | passWait quiet | merge quiet =>
      exact idle rfl quiet quiet rfl
  | passSend quiet inside none next => exact idle rfl quiet quiet (Rounds.waiting_pass next)
  | recv quiet inside next fd_eq set fits arrived =>
      obtain ⟨address, _, rfl⟩ := (kept.quiet quiet).recvOp_of_waiting (Rounds.mem_waiting next)
      exact still quiet (served.recv (kept.quiet quiet) quiet inside next arrived)
  | send quiet inside none next fd_eq set fits taken =>
      exact still quiet (served.send (kept.quiet quiet) quiet next inTurn taken)
  | @accept _ _ _ _ fd world quiet inside none next fd_eq set opened =>
      replace opened : m.world.accept listener _ fd = .ok world := opened
      obtain rfl := (kept.quiet quiet).acceptOp_of_waiting (Rounds.mem_waiting next)
      refine still quiet
        (served.accept opened quiet kept rfl (kept.owing_step fresh stepped rfl) ?_ ?_)
      · intro index
        rw [arriving, Machine.enter, quiet]
        rfl
      · intro index
        rw [responding, Machine.enter, quiet]
        rfl
  | wait quiet inside next =>
      have timeless := kept.timeless
      rw [Rounds.waiting_eq next] at timeless
      simp at timeless

end Boutique.Server
