import Boutique.Server.Segmentation
import Boutique.Server.Server

namespace Boutique.Server

open Boutique.Core Boutique.Data Boutique.Io Boutique.Protocol

variable {Store Coll : Type} {ops : DatabaseOps Store Coll} {alloc : Nat → List Nat → Nat}

/-! ## A client and its connection -/

/-- A stream buffer holds what is left of the bytes received once the commands in
front are taken off. -/
def Unconsumed (received : Bytes) (stream : StreamBuf) : Prop :=
  ∃ cmds left stuck, Drains nextCommand received cmds left stuck ∧ stream.Holds left

theorem unconsumed_empty : Unconsumed [] {} :=
  ⟨[], [], false, .starved rfl, StreamBuf.holds_empty⟩

theorem Unconsumed.recv {received data : Bytes} {handler : ClientHandler} {db : Store}
    {after : Received Store} (unconsumed : Unconsumed received handler.stream)
    (more : data ≠ []) (done : handler.recvHandler ops data db = .ok after) :
    Unconsumed (received ++ data) after.handler.stream ∧
      after.handler.closed = handler.closed ∧ after.rearmed = true := by
  obtain ⟨cmds, left, stuck, drained, holds⟩ := unconsumed
  have next : ∃ cmds' left' stuck', Drains nextCommand (left ++ data) cmds' left' stuck' ∧
      ∃ cmds'', Drains nextCommand (received ++ data) cmds'' left' stuck' := by
    cases stuck with
    | false =>
        obtain ⟨cmds', left', stuck', drained'⟩ := Drains.total nextCommand_codec (left ++ data)
        exact ⟨cmds', left', stuck', drained', _, drained.append nextCommand_codec drained'⟩
    | true =>
        have rejected : nextCommand left = .rejected := drained.left_verdict
        exact ⟨[], left ++ data, true,
          .rejected (nextCommand_codec.rejected_append data rejected), cmds,
          drained.append_stuck nextCommand_codec data⟩
  obtain ⟨cmds', left', stuck', drained', cmds'', whole⟩ := next
  obtain ⟨stream, afterHolds, run⟩ := recvHandler_drains ops holds more drained'
  rw [run] at done
  cases executed : executeAll ops db cmds' with
  | error fault =>
      rw [executed] at done
      cases done
  | ok result =>
      rw [executed] at done
      cases done
      exact ⟨⟨cmds'', left', stuck', whole, afterHolds⟩, rfl, rfl⟩

/-- The client is open as long as the connection's end of stream has not been
reported, and holds its unconsumed bytes until then. -/
structure Serves (client : Client) (conn : Connection) : Prop where
  closed : conn.ended = client.handler.closed
  unconsumed : conn.ended = false → Unconsumed conn.received client.handler.stream

/-- The client once `recv` and its handler are done with `data`. -/
def Client.received (data : Bytes) (handler : ClientHandler) (client : Client) : Client :=
  { client with buf := overwrite client.buf 0 data, handler }

namespace World

/-- Clients and connections whose descriptors have not been closed hold the same
descriptors, each once, and where they hold the same the one serves the other. -/
structure Consistent (world : World Store) : Prop where
  addresses : (world.clients.map Client.address).Nodup
  sockets : (world.clients.map Client.socket).Nodup
  descriptors : ((world.connections.filter fun conn => !conn.released).map Connection.fd).Nodup
  held : ∀ client ∈ world.clients, ∃ conn ∈ world.connections,
    conn.released = false ∧ client.socket = some conn.fd
  holder : ∀ conn ∈ world.connections, conn.released = false →
    ∃ client ∈ world.clients, client.socket = some conn.fd
  serves : ∀ client ∈ world.clients, ∀ conn ∈ world.connections, conn.released = false →
    client.socket = some conn.fd → Serves client conn
  finished : ∀ conn ∈ world.connections, conn.released = true → conn.ended = true

/-- The addresses of the open clients. -/
def openAddresses (world : World Store) : List Nat :=
  (world.clients.filter fun client => !client.handler.closed).map Client.address

variable {world after : World Store} {client other : Client} {address : Nat}

theorem consistent_empty (db : Store) : Consistent { db } where
  addresses := .nil
  sockets := .nil
  descriptors := .nil
  held := nofun
  holder := nofun
  serves := nofun
  finished := nofun

theorem client?_some (found : world.client? address = some client) :
    client ∈ world.clients ∧ client.address = address :=
  ⟨List.mem_of_find?_eq_some found, by simpa using List.find?_some found⟩

namespace Consistent

variable (consistent : world.Consistent)

include consistent

theorem eq_of_address (first : client ∈ world.clients) (second : other ∈ world.clients)
    (same : client.address = other.address) : client = other :=
  List.inj_on_of_nodup_map consistent.addresses first second same

theorem eq_of_socket (first : client ∈ world.clients) (second : other ∈ world.clients)
    (same : client.socket = other.socket) : client = other :=
  List.inj_on_of_nodup_map consistent.sockets first second same

theorem client?_eq (member : client ∈ world.clients) :
    world.client? client.address = some client := by
  cases found : world.client? client.address with
  | none =>
      have absent := List.find?_eq_none.mp found client member
      simp at absent
  | some other =>
      obtain ⟨among, same⟩ := client?_some found
      rw [consistent.eq_of_address among member same]

/-- Changes to clients and connections that leave addresses and descriptors alone. -/
theorem map {f : Client → Client} {g : Connection → Connection}
    (clients : after.clients = world.clients.map f)
    (connections : after.connections = world.connections.map g)
    (keepsClient : ∀ client, (f client).address = client.address ∧
      (f client).socket = client.socket)
    (keepsConn : ∀ conn, (g conn).fd = conn.fd ∧ (g conn).released = conn.released)
    (serves : ∀ client ∈ world.clients, ∀ conn ∈ world.connections, conn.released = false →
      client.socket = some conn.fd → Serves (f client) (g conn))
    (finished : ∀ conn ∈ world.connections, conn.released = true → (g conn).ended = true) :
    after.Consistent where
  addresses := by
    have same : Client.address ∘ f = Client.address := funext fun client => (keepsClient client).1
    rw [clients, List.map_map, same]
    exact consistent.addresses
  sockets := by
    have same : Client.socket ∘ f = Client.socket := funext fun client => (keepsClient client).2
    rw [clients, List.map_map, same]
    exact consistent.sockets
  descriptors := by
    have same : Connection.fd ∘ g = Connection.fd := funext fun conn => (keepsConn conn).1
    have kept : ((fun conn => !conn.released) ∘ g) = fun conn => !conn.released :=
      funext fun conn => congrArg not (keepsConn conn).2
    rw [connections, List.filter_map, kept, List.map_map, same]
    exact consistent.descriptors
  held := by
    rw [clients, connections]
    intro client member
    obtain ⟨client, among, rfl⟩ := List.mem_map.mp member
    obtain ⟨conn, inside, unreleased, holds⟩ := consistent.held client among
    refine ⟨g conn, List.mem_map_of_mem inside, ?_, ?_⟩
    · rw [(keepsConn conn).2, unreleased]
    · rw [(keepsClient client).2, (keepsConn conn).1, holds]
  holder := by
    rw [clients, connections]
    intro conn member unreleased
    obtain ⟨conn, inside, rfl⟩ := List.mem_map.mp member
    rw [(keepsConn conn).2] at unreleased
    obtain ⟨client, among, holds⟩ := consistent.holder conn inside unreleased
    refine ⟨f client, List.mem_map_of_mem among, ?_⟩
    rw [(keepsClient client).2, (keepsConn conn).1, holds]
  serves := by
    rw [clients, connections]
    intro client member conn inside unreleased holds
    obtain ⟨client, among, rfl⟩ := List.mem_map.mp member
    obtain ⟨conn, present, rfl⟩ := List.mem_map.mp inside
    rw [(keepsConn conn).2] at unreleased
    rw [(keepsClient client).2, (keepsConn conn).1] at holds
    exact serves client among conn present unreleased holds
  finished := by
    rw [connections]
    intro conn inside released
    obtain ⟨conn, present, rfl⟩ := List.mem_map.mp inside
    rw [(keepsConn conn).2] at released
    exact finished conn present released

end Consistent

/-! ## Receiving -/

theorem mem_openAddresses :
    address ∈ world.openAddresses ↔
      ∃ client ∈ world.clients, client.handler.closed = false ∧ client.address = address := by
  simp [openAddresses, and_assoc]

theorem Consistent.nodup_openAddresses (consistent : world.Consistent) :
    world.openAddresses.Nodup :=
  consistent.addresses.sublist (List.filter_sublist.map _)

theorem recv_ok {data : Bytes}
    (arrived : world.recv (.client address) { base := address } data = .ok after) :
    ∃ fd, (world.client? address).bind Client.socket = some fd ∧
      after = (world.updateClient address fun client =>
        { client with buf := overwrite client.buf 0 data }).updateConnection fd
          (.deliver data) := by
  simp only [recv] at arrived
  split at arrived
  · rename_i fd _ holds _
    split at arrived
    · cases arrived
      exact ⟨fd, holds, rfl⟩
    · cases arrived
  · cases arrived

theorem client?_updateClient (world : World Store) (address : Nat) (update : Client → Client)
    (keeps : ∀ client, (update client).address = client.address) :
    (world.updateClient address update).client? address = (world.client? address).map update := by
  have same : ((fun client : Client => decide (client.address = address)) ∘ fun client =>
      if client.address = address then update client else client) =
        fun client => decide (client.address = address) := by
    funext client
    dsimp only [Function.comp]
    split <;> simp only [keeps]
  rw [client?, updateClient, List.find?_map, same]
  cases found : world.client? address with
  | none =>
      rw [client?] at found
      rw [found]
      rfl
  | some client =>
      have at_ := (client?_some found).2
      rw [client?] at found
      rw [found, Option.map_some, if_pos at_]
      rfl

theorem updateClient_updateClient (world : World Store) (address : Nat)
    (first second : Client → Client)
    (keeps : ∀ client, (first client).address = client.address) :
    (world.updateClient address first).updateClient address second =
      world.updateClient address fun client => second (first client) := by
  simp only [updateClient, List.map_map]
  congr 1
  apply List.map_congr_left
  intro client _
  dsimp only [Function.comp]
  by_cases same : client.address = address
  · simp [same, keeps]
  · simp [same]

/-- A receive on the descriptor of a client, together with what its handler has
become. -/
theorem Consistent.update (consistent : world.Consistent) (member : client ∈ world.clients)
    {fd : Fd} (holds : client.socket = some fd) {f : Client → Client}
    {g : Connection → Connection}
    (clients : after.clients = (world.updateClient client.address f).clients)
    (connections : after.connections = (world.updateConnection fd g).connections)
    (keepsClient : ∀ client, (f client).address = client.address ∧
      (f client).socket = client.socket)
    (keepsConn : ∀ conn, (g conn).fd = conn.fd ∧ (g conn).released = conn.released)
    (serves : ∀ conn, Serves client conn → Serves (f client) (g conn)) : after.Consistent := by
  apply consistent.map clients connections
  · intro other
    by_cases same : other.address = client.address
    · rw [if_pos same]
      exact keepsClient other
    · rw [if_neg same]
      exact ⟨rfl, rfl⟩
  · intro conn
    by_cases same : conn.fd = fd ∧ conn.released = false
    · rw [if_pos same]
      exact keepsConn conn
    · rw [if_neg same]
      exact ⟨rfl, rfl⟩
  · intro other among conn inside unreleased holds'
    have served := consistent.serves other among conn inside unreleased holds'
    by_cases same : other.address = client.address
    · obtain rfl := consistent.eq_of_address among member same
      have fd_eq : conn.fd = fd := Option.some.inj (holds'.symm.trans holds)
      rw [if_pos same, if_pos ⟨fd_eq, unreleased⟩]
      exact serves conn served
    · have apart : conn.fd ≠ fd := by
        intro shared
        subst shared
        exact same (congrArg Client.address (consistent.eq_of_socket among member
          (holds'.trans holds.symm)))
      rw [if_neg same, if_neg fun both => apart both.1]
      exact served
  · intro conn inside released
    have unchanged : ¬ (conn.fd = fd ∧ conn.released = false) := by
      rw [released]
      exact fun both => Bool.noConfusion both.2
    rw [if_neg unchanged]
    exact consistent.finished conn inside released

section

variable (consistent : world.Consistent) (member : client ∈ world.clients) {f : Client → Client}
  (clients : after.clients = (world.updateClient client.address f).clients)
  (keeps : ∀ client, (f client).address = client.address)

include clients keeps

theorem addresses_update : after.clients.map Client.address = world.clients.map Client.address := by
  rw [clients, updateClient, List.map_map]
  apply List.map_congr_left
  intro other _
  dsimp only [Function.comp]
  split
  · exact keeps other
  · rfl

include consistent member

theorem mem_openAddresses_update :
    address ∈ after.openAddresses ↔
      address = client.address ∧ (f client).handler.closed = false ∨
        address ≠ client.address ∧ address ∈ world.openAddresses := by
  rw [mem_openAddresses, mem_openAddresses, clients]
  constructor
  · intro given
    obtain ⟨updated, among, isOpen, rfl⟩ := given
    obtain ⟨other, present, rfl⟩ := List.mem_map.mp among
    by_cases same : other.address = client.address
    · obtain rfl := consistent.eq_of_address present member same
      rw [if_pos rfl] at isOpen ⊢
      exact .inl ⟨keeps other, isOpen⟩
    · rw [if_neg same] at isOpen ⊢
      exact .inr ⟨same, other, present, isOpen, rfl⟩
  · intro given
    rcases given with ⟨rfl, isOpen⟩ | ⟨apart, other, among, isOpen, rfl⟩
    · exact ⟨f client, List.mem_map.mpr ⟨client, member, if_pos rfl⟩, isOpen, keeps client⟩
    · exact ⟨other, List.mem_map.mpr ⟨other, among, if_neg apart⟩, isOpen, rfl⟩

theorem openAddresses_closed (afterConsistent : after.Consistent)
    (isOpen : client.handler.closed = false) (closes : (f client).handler.closed = true) :
    (after.openAddresses ++ [client.address]).Perm world.openAddresses := by
  have isIn : client.address ∈ world.openAddresses :=
    mem_openAddresses.mpr ⟨client, member, isOpen, rfl⟩
  have membership : ∀ address, address ∈ after.openAddresses ↔
      address ≠ client.address ∧ address ∈ world.openAddresses := by
    intro address
    rw [mem_openAddresses_update consistent member clients keeps, closes]
    simp
  have gone : client.address ∉ after.openAddresses := fun still => ((membership _).mp still).1 rfl
  have nodup : (after.openAddresses ++ [client.address]).Nodup := by
    rw [List.nodup_append_comm]
    exact List.nodup_cons.mpr ⟨gone, afterConsistent.nodup_openAddresses⟩
  rw [List.perm_ext_iff_of_nodup nodup consistent.nodup_openAddresses]
  intro address
  rw [List.mem_append, List.mem_singleton, membership]
  by_cases same : address = client.address
  · simp only [same, isIn, or_true]
  · simp only [same, ne_eq, not_false_eq_true, true_and, or_false]

theorem openAddresses_kept (afterConsistent : after.Consistent)
    (isOpen : client.handler.closed = false) (keepsOpen : (f client).handler.closed = false) :
    after.openAddresses.Perm world.openAddresses := by
  have isIn : client.address ∈ world.openAddresses :=
    mem_openAddresses.mpr ⟨client, member, isOpen, rfl⟩
  rw [List.perm_ext_iff_of_nodup afterConsistent.nodup_openAddresses
    consistent.nodup_openAddresses]
  intro address
  rw [mem_openAddresses_update consistent member clients keeps]
  by_cases same : address = client.address
  · simp only [same, keepsOpen, isIn, and_self, true_or]
  · simp only [same, false_and, ne_eq, not_false_eq_true, true_and, false_or]

end

theorem receive_ok (consistent : world.Consistent) (member : client ∈ world.clients)
    {data : Bytes} {arrived : World Store}
    (received : world.recv (.client client.address) { base := client.address } data = .ok arrived)
    {call : Option (Call Object Nat Callback)} {next : Option Callback}
    (resumed : resume ops alloc (.recvHandler client.address) data.length arrived =
      .ok (after, call, next)) :
    ∃ fd result, client.socket = some fd ∧
      client.handler.recvHandler ops data world.db = .ok result ∧
      call = none ∧
      next = (if result.rearmed then some (.respond client.address result.responses) else none) ∧
      after.clients = (world.updateClient client.address
        (.received data result.handler)).clients ∧
      after.connections = (world.updateConnection fd (.deliver data)).connections := by
  obtain ⟨fd, holds, rfl⟩ := recv_ok received
  rw [consistent.client?_eq member] at holds
  have found := client?_updateClient world client.address
    (fun client => { client with buf := overwrite client.buf 0 data }) fun _ => rfl
  rw [consistent.client?_eq member] at found
  have taken : (overwrite client.buf 0 data).take data.length = data := by
    rw [overwrite, List.take_zero, List.nil_append, List.take_left]
  simp only [resume] at resumed
  split at resumed
  · cases resumed
  · rename_i reader present
    obtain rfl : { client with buf := overwrite client.buf 0 data } = reader :=
      Option.some.inj (found.symm.trans present)
    dsimp only at resumed
    rw [taken] at resumed
    split at resumed
    · cases resumed
    · rename_i result run
      cases resumed
      refine ⟨fd, result, holds, run, rfl, rfl, ?_, rfl⟩
      have merged := congrArg World.clients (updateClient_updateClient world client.address
        (fun client => { client with buf := overwrite client.buf 0 data })
        (fun client => { client with handler := result.handler }) fun _ => rfl)
      exact merged

/-- `recv` with its handler: the connection's end of stream closes the client,
anything else ends with the client listening again. -/
theorem Consistent.receive (consistent : world.Consistent) (member : client ∈ world.clients)
    (isOpen : client.handler.closed = false) {data : Bytes} {arrived : World Store}
    (received : world.recv (.client client.address) { base := client.address } data = .ok arrived)
    {call : Option (Call Object Nat Callback)} {next : Option Callback}
    (resumed : resume ops alloc (.recvHandler client.address) data.length arrived =
      .ok (after, call, next)) :
    after.Consistent ∧ call = none ∧
      after.clients.map Client.address = world.clients.map Client.address ∧
      (next = none ∧ (after.openAddresses ++ [client.address]).Perm world.openAddresses ∨
        (∃ responses, next = some (.respond client.address responses)) ∧
          after.openAddresses.Perm world.openAddresses) := by
  obtain ⟨fd, result, holds, run, rfl, rfl, clients, connections⟩ :=
    receive_ok consistent member received resumed
  have keeps : ∀ client : Client,
      (client.received data result.handler).address = client.address := fun _ => rfl
  by_cases nothing : data = []
  · subst nothing
    cases run
    have afterConsistent : after.Consistent :=
      consistent.update member holds clients connections (fun _ => ⟨rfl, rfl⟩)
        (fun _ => ⟨rfl, rfl⟩) fun conn _ => by
          have ended : (conn.deliver []).ended = true := Bool.or_true conn.ended
          refine ⟨ended, fun running => ?_⟩
          rw [ended] at running
          cases running
    exact ⟨afterConsistent, rfl, addresses_update clients keeps, .inl ⟨rfl,
      openAddresses_closed consistent member clients keeps afterConsistent isOpen rfl⟩⟩
  · have served : ∀ conn, Serves client conn →
        Unconsumed (conn.received ++ data) result.handler.stream ∧
          result.handler.closed = client.handler.closed ∧ result.rearmed = true := by
      intro conn serves
      exact (serves.unconsumed (serves.closed.trans isOpen)).recv nothing run
    have afterConsistent : after.Consistent := by
      apply consistent.update member holds clients connections (fun _ => ⟨rfl, rfl⟩)
        (fun _ => ⟨rfl, rfl⟩)
      intro conn serves
      obtain ⟨unconsumed, closed, _⟩ := served conn serves
      refine ⟨?_, fun _ => unconsumed⟩
      have more : data.isEmpty = false := by
        rwa [List.isEmpty_eq_false_iff]
      change (conn.ended || data.isEmpty) = result.handler.closed
      rw [more, Bool.or_false, serves.closed, closed]
    obtain ⟨conn, inside, unreleased, same⟩ := consistent.held client member
    obtain ⟨_, closed, rearmed⟩ :=
      served conn (consistent.serves client member conn inside unreleased same)
    refine ⟨afterConsistent, rfl, addresses_update clients keeps, .inr ⟨⟨result.responses, ?_⟩, ?_⟩⟩
    · rw [if_pos rearmed]
    · exact openAddresses_kept consistent member clients keeps afterConsistent isOpen
        (closed.trans isOpen)

/-! ## Sending -/

theorem Consistent.send (consistent : world.Consistent) {object : Object} {data : Bytes}
    (sent : world.send object data = .ok after) :
    after.Consistent ∧ after.clients = world.clients := by
  simp only [World.send] at sent
  split at sent
  · cases sent
  · split at sent
    · rename_i fd holds
      cases sent
      refine ⟨consistent.map (List.map_id _).symm rfl (fun _ => ⟨rfl, rfl⟩) ?_ ?_ ?_, rfl⟩
      · intro conn
        split <;> exact ⟨rfl, rfl⟩
      · intro client member conn inside unreleased same
        have served := consistent.serves client member conn inside unreleased same
        split
        · exact ⟨served.closed, served.unconsumed⟩
        · exact served
      · intro conn inside released
        split
        · exact consistent.finished conn inside released
        · exact consistent.finished conn inside released
    · cases sent

/-! ## Accepting -/

/-- No open client stands behind a closed one. -/
def Sorted (clients : List Client) : Prop :=
  clients.Pairwise fun front behind =>
    front.handler.closed = true → behind.handler.closed = true

theorem removeClosed_closed {clients : List Client}
    (closed : ∀ client ∈ clients, client.handler.closed = true) (gap : List Client) :
    removeClosed gap clients = ([], gap ++ clients) := by
  induction clients generalizing gap with
  | nil => rw [removeClosed, List.append_nil]
  | cons client clients ih =>
      obtain ⟨first, rest⟩ := List.forall_mem_cons.mp closed
      cases gap with
      | nil =>
          rw [removeClosed, if_pos first, ih rest]
          rfl
      | cons dest gap =>
          rw [removeClosed, if_pos first, ih rest, List.append_assoc]
          rfl

/-- In that order nothing is assigned: the closed clients are the tail. -/
theorem removeClosed_sorted {clients : List Client} (sorted : Sorted clients) :
    removeClosed [] clients = (clients.filter fun client => !client.handler.closed,
      clients.filter fun client => client.handler.closed) := by
  induction clients with
  | nil => rfl
  | cons client clients ih =>
      obtain ⟨behind, sorted⟩ := List.pairwise_cons.mp sorted
      by_cases closed : client.handler.closed = true
      · have rest : ∀ other ∈ clients, other.handler.closed = true :=
          fun other member => behind other member closed
        have none : clients.filter (fun client => !client.handler.closed) = [] :=
          List.filter_eq_nil_iff.mpr (by simpa using rest)
        have all : clients.filter (fun client => client.handler.closed) = clients :=
          List.filter_eq_self.mpr rest
        rw [removeClosed, if_pos closed, removeClosed_closed rest]
        simp [closed, none, all]
      · rw [removeClosed, if_neg closed, ih sorted]
        simp [closed]

theorem destroy_released {erased : List Client} {conn : Connection} :
    (conn.released || erased.any fun client => client.socket = some conn.fd) = false ↔
      conn.released = false ∧ ∀ client ∈ erased, client.socket ≠ some conn.fd := by
  simp

theorem Consistent.reap (consistent : world.Consistent) :
    Consistent { world.destroy (world.clients.filter fun client => client.handler.closed) with
      clients := world.clients.filter fun client => !client.handler.closed } where
  addresses := consistent.addresses.sublist (List.filter_sublist.map _)
  sockets := consistent.sockets.sublist (List.filter_sublist.map _)
  descriptors := by
    refine consistent.descriptors.sublist ?_
    dsimp only [destroy]
    rw [List.filter_map, List.map_map]
    apply List.Sublist.map
    apply List.monotone_filter_right
    intro conn unreleased
    dsimp only [Function.comp] at unreleased
    rw [Bool.not_eq_true', destroy_released] at unreleased
    rw [unreleased.1]
    rfl
  held := by
    intro client member
    obtain ⟨among, isOpen⟩ := List.mem_filter.mp member
    obtain ⟨conn, inside, unreleased, holds⟩ := consistent.held client among
    refine ⟨_, List.mem_map.mpr ⟨conn, inside, rfl⟩, ?_, holds⟩
    rw [destroy_released]
    refine ⟨unreleased, fun other erased same => ?_⟩
    obtain ⟨present, closed⟩ := List.mem_filter.mp erased
    obtain rfl := consistent.eq_of_socket present among (same.trans holds.symm)
    rw [closed] at isOpen
    cases isOpen
  holder := by
    intro conn inside unreleased
    obtain ⟨conn, present, rfl⟩ := List.mem_map.mp inside
    obtain ⟨unreleased, apart⟩ := destroy_released.mp unreleased
    obtain ⟨client, among, holds⟩ := consistent.holder conn present unreleased
    refine ⟨client, List.mem_filter.mpr ⟨among, ?_⟩, holds⟩
    rw [Bool.not_eq_true']
    by_contra closed
    exact apart client (List.mem_filter.mpr ⟨among, by simpa using closed⟩) holds
  serves := by
    intro client member conn inside unreleased holds
    obtain ⟨conn, present, rfl⟩ := List.mem_map.mp inside
    obtain ⟨unreleased, _⟩ := destroy_released.mp unreleased
    have served := consistent.serves client (List.mem_filter.mp member).1 conn present unreleased
      holds
    exact ⟨served.closed, served.unconsumed⟩
  finished := by
    intro conn inside released
    obtain ⟨conn, present, rfl⟩ := List.mem_map.mp inside
    by_cases before : conn.released = true
    · exact consistent.finished conn present before
    · rw [Bool.not_eq_true] at before
      dsimp only at released
      rw [before, Bool.false_or, List.any_eq_true] at released
      obtain ⟨client, erased, holds⟩ := released
      obtain ⟨among, closed⟩ := List.mem_filter.mp erased
      have served := consistent.serves client among conn present before (of_decide_eq_true holds)
      exact served.closed.trans closed

theorem Consistent.connect (consistent : world.Consistent) (fd : Fd)
    (unused : ∀ conn ∈ world.connections, conn.fd = fd → conn.released = true)
    (new : address ∉ world.clients.map Client.address) :
    Consistent { world with
      clients := world.clients ++ [{ address, socket := some fd }]
      connections := world.connections ++ [{ fd }] } := by
  have apart : ∀ client ∈ world.clients, client.socket ≠ some fd := by
    intro client member holds
    obtain ⟨conn, inside, unreleased, same⟩ := consistent.held client member
    have released := unused conn inside (Option.some.inj (same.symm.trans holds))
    rw [released] at unreleased
    cases unreleased
  have serves : Serves { address, socket := some fd } { fd } := ⟨rfl, fun _ => unconsumed_empty⟩
  constructor
  case addresses =>
    rw [List.map_append, List.nodup_append_comm]
    exact List.nodup_cons.mpr ⟨new, consistent.addresses⟩
  case sockets =>
    rw [List.map_append, List.nodup_append_comm]
    refine List.nodup_cons.mpr ⟨?_, consistent.sockets⟩
    intro taken
    obtain ⟨client, member, same⟩ := List.mem_map.mp taken
    exact apart client member same
  case descriptors =>
    rw [List.filter_append, List.map_append, List.nodup_append_comm]
    refine List.nodup_cons.mpr ⟨?_, consistent.descriptors⟩
    intro taken
    obtain ⟨conn, member, same⟩ := List.mem_map.mp taken
    obtain ⟨inside, unreleased⟩ := List.mem_filter.mp member
    rw [unused conn inside same] at unreleased
    cases unreleased
  case held =>
    rw [List.forall_mem_append]
    refine ⟨fun client member => ?_, fun client member => ?_⟩
    · obtain ⟨conn, inside, rest⟩ := consistent.held client member
      exact ⟨conn, List.mem_append_left _ inside, rest⟩
    · rw [List.mem_singleton.mp member]
      exact ⟨{ fd }, List.mem_append_right _ List.mem_cons_self, rfl, rfl⟩
  case holder =>
    rw [List.forall_mem_append]
    refine ⟨fun conn inside unreleased => ?_, fun conn inside _ => ?_⟩
    · obtain ⟨client, member, holds⟩ := consistent.holder conn inside unreleased
      exact ⟨client, List.mem_append_left _ member, holds⟩
    · rw [List.mem_singleton.mp inside]
      exact ⟨_, List.mem_append_right _ List.mem_cons_self, rfl⟩
  case serves =>
    intro client member conn inside unreleased holds
    rcases List.mem_append.mp member with member | member <;>
      rcases List.mem_append.mp inside with inside | inside
    · exact consistent.serves client member conn inside unreleased holds
    · rw [List.mem_singleton.mp inside] at holds
      exact absurd holds (apart client member)
    · rw [List.mem_singleton.mp member] at holds
      have released := unused conn inside (Option.some.inj holds).symm
      rw [released] at unreleased
      cases unreleased
    · rw [List.mem_singleton.mp member, List.mem_singleton.mp inside]
      exact serves
  case finished =>
    rw [List.forall_mem_append]
    refine ⟨consistent.finished, fun conn inside released => ?_⟩
    rw [List.mem_singleton.mp inside] at released
    cases released

theorem accept_ok {listener fd : Fd} {object : Object}
    (opened : world.accept listener object fd = .ok after) :
    (∀ conn ∈ world.connections, conn.fd = fd → conn.released = true) ∧
      after = { world with connections := world.connections ++ [{ fd }] } := by
  simp only [accept] at opened
  split at opened
  · split at opened
    · rename_i unused
      cases opened
      exact ⟨unused.2, rfl⟩
    · cases opened
  · cases opened

/-- `accept_handler` on clients in that order: the closed ones go, the open ones
stay where they are, and the new one comes last. -/
theorem Consistent.accept (consistent : world.Consistent) (sorted : Sorted world.clients)
    {listener fd : Fd} {object : Object} {arrived : World Store}
    (opened : world.accept listener object fd = .ok arrived)
    (fresh : ∀ count used, alloc count used ∉ used)
    (accepted : arrived.acceptHandler alloc fd = (after, address)) :
    after.Consistent ∧ after.clients.map Client.address = world.openAddresses ++ [address] ∧
      after.openAddresses = world.openAddresses ++ [address] := by
  obtain ⟨unused, rfl⟩ := accept_ok opened
  have apart : ∀ client ∈ world.clients.filter (fun client => client.handler.closed),
      client.socket ≠ some fd := by
    intro client member holds
    obtain ⟨conn, inside, unreleased, same⟩ :=
      consistent.held client (List.mem_filter.mp member).1
    have released := unused conn inside (Option.some.inj (same.symm.trans holds))
    rw [released] at unreleased
    cases unreleased
  have kept := consistent.reap
  rw [acceptHandler] at accepted
  dsimp only at accepted
  rw [removeClosed_sorted sorted] at accepted
  cases accepted
  have connected := kept.connect fd ?_
    (fresh (world.connections ++ [({ fd } : Connection)]).length world.openAddresses)
  · refine ⟨?_, ?_, ?_⟩
    · have none : (world.clients.filter fun client => client.handler.closed).any
          (fun client => client.socket = some fd) = false := by
        simpa using apart
      have joined : (World.destroy { world with connections := world.connections ++ [{ fd }] }
          (world.clients.filter fun client => client.handler.closed)).connections =
            (world.destroy (world.clients.filter fun client => client.handler.closed)).connections
              ++ [({ fd } : Connection)] := by
        simp only [destroy, List.map_append, List.map_cons, List.map_nil, none, Bool.or_false]
      rw [joined]
      exact connected
    · exact List.map_append
    · simp [openAddresses, List.filter_filter]
  · intro conn inside same
    obtain ⟨conn, present, rfl⟩ := List.mem_map.mp inside
    exact Bool.or_eq_true_iff.mpr (.inl (unused conn present same))

end World

end Boutique.Server
