import Boutique.Io.Moves
import Boutique.Server.Connections

namespace Boutique.Server

open Boutique.Data Boutique.Db Boutique.Io Boutique.Protocol World

variable {Store Coll : Type} {ops : DatabaseOps Store Coll} {alloc : Nat → List Nat → Nat}
  {listener : Fd}

abbrev ServerMachine (Store : Type) := Machine Object Nat Callback (World Store)

/-- The operation by which the client at an address receives. -/
def recvOp (address : Nat) : RecvOp Object Nat Callback :=
  { socket := .client address, buf := { base := address }, maxlen := 128,
    fn := .user (.recvHandler address) }

def acceptOp : AcceptOp Object Callback := { socket := .listener, fn := .acceptHandler }

/-- An operation by which a client sends a response. -/
def OwnSend (op : SendOp Object Callback) : Prop :=
  ∃ address origLen, op.socket = .client address ∧
    op.fn = .handler { data := { socket := .client address, origLen, resFn := .sent },
                       buf := op.buf }

/-! ## What holds at the head of the loop -/

structure ClientsKept (m : ServerMachine Store) : Prop where
  /-- A connection whose end of stream has not been reported has one handler,
  which is open and holds its unconsumed bytes, and one operation to receive. -/
  handled : ∀ conn ∈ m.world.connections, conn.ended = false → ∃ client,
    m.world.clients.filter (fun client => client.socket = some conn.fd) = [client] ∧
    client.handler.closed = false ∧ Unconsumed conn.received client.handler.stream ∧
    m.context.recv.fresh.filter (fun op => op.socket = .client client.address) =
      [recvOp client.address]
  /-- No two of those connections have the same descriptor, and no two handlers
  the same address. -/
  descriptors : ((m.world.connections.filter fun conn => !conn.ended).map Connection.fd).Nodup
  addresses : (m.world.clients.map Client.address).Nodup
  /-- Socket, buffer and callback of an operation are those of one handler. -/
  own : ∀ op ∈ m.context.recv.fresh, ∃ address, op = recvOp address
  closed : ∀ client ∈ m.world.clients, client.handler.closed = true →
    ∀ op ∈ m.context.recv.fresh, op.socket ≠ .client client.address
  accepting : m.context.accept.fresh = [acceptOp]

/-- No response to a closed handler waits to be sent. -/
def Unsent (clients : List Client) (sends : List (SendOp Object Callback)) : Prop :=
  ∀ client ∈ clients, client.handler.closed = true →
    ∀ op ∈ sends, op.socket ≠ .client client.address

/-- When a connection is accepted, no open handler stands behind a closed one in
`m_clients`. -/
def SortedAtAccept (m : ServerMachine Store) : Event Callback → Prop
  | .accept _ => Sorted m.world.clients
  | _ => True

def UnsentAtAccept (m : ServerMachine Store) : Event Callback → Prop
  | .accept _ => Unsent m.world.clients m.context.send.waiting
  | _ => True

instance (clients : List Client) : Decidable (Sorted clients) :=
  inferInstanceAs (Decidable (clients.Pairwise _))

instance (m : ServerMachine Store) (event : Event Callback) :
    Decidable (SortedAtAccept m event) := by
  simp only [SortedAtAccept]
  split <;> infer_instance

instance (m : ServerMachine Store) (event : Event Callback) :
    Decidable (UnsentAtAccept m event) := by
  simp only [UnsentAtAccept, Unsent]
  split <;> infer_instance

/-! ## The invariant -/

/-- What the stack of running callbacks says about the clients: `base` are the
clients before the callback that runs, to which it owes an operation to receive
for the addresses `owed`, and to the listening socket those in `rearm`. `strict`
is whether responses are followed as well. -/
inductive Phase (strict : Prop) (listener : Fd) (sends : List (SendOp Object Callback))
    (world : World Store) : List (Callback × Nat) → World Store → List Nat →
      List (AcceptOp Object Callback) → Prop where
  | quiet : Phase strict listener sends world [] world [] []
  | receiving {base address data}
      (arrived : base.recv (.client address) { base := address } data = .ok world) :
      Phase strict listener sends world [(.recvHandler address, data.length)] base [address] []
  | responding {address responses argument} :
      Phase strict listener sends world [(.respond address responses, argument)] world [address] []
  | accepting {base fd} (sorted : Sorted base.clients)
      (unsent : strict → Unsent base.clients sends)
      (opened : base.accept listener .listener fd = .ok world) :
      Phase strict listener sends world [(.acceptHandler, fd)] base [] [acceptOp]
  | rearming {argument} : Phase strict listener sends world [(.rearm, argument)] world [] [acceptOp]
  | sent {argument} : Phase strict listener sends world [(.sent, argument)] world [] []

structure Kept (strict : Prop) (listener : Fd) (m : ServerMachine Store) (base : World Store)
    (owed : List Nat) (rearm : List (AcceptOp Object Callback)) : Prop where
  phase : Phase strict listener m.context.send.waiting m.world m.stack base owed rearm
  consistent : base.Consistent
  receiving : ∃ addresses, m.context.recv.waiting = addresses.map recvOp ∧
    (addresses ++ owed).Perm base.openAddresses
  accepting : m.context.accept.waiting ++ rearm = [acceptOp]
  sending : ∀ op ∈ m.context.send.waiting, OwnSend op
  live : strict → ∀ op ∈ m.context.send.waiting,
    ∃ address ∈ base.clients.map Client.address, op.socket = .client address
  timeless : m.context.wait.waiting = []
  running : m.running = true
  going : m.context.stop = false
  idle : m.ready = none → m.context.recv.Idle ∧ m.context.send.Idle ∧ m.context.accept.Idle ∧
    m.context.wait.Idle

variable {strict : Prop} {m after : ServerMachine Store} {base : World Store} {owed : List Nat}
  {rearm : List (AcceptOp Object Callback)} {event : Event Callback}

theorem kept_start (db : Store) : Kept strict listener (start db) { db } [] [] where
  phase := .quiet
  consistent := consistent_empty db
  receiving := ⟨[], rfl, .nil⟩
  accepting := rfl
  sending := nofun
  live _ := nofun
  timeless := rfl
  running := rfl
  going := rfl
  idle _ := ⟨⟨rfl, rfl⟩, ⟨rfl, rfl⟩, ⟨rfl, rfl⟩, ⟨rfl, rfl⟩⟩

theorem Kept.of_waiting (kept : Kept strict listener m base owed rearm)
    (world : after.world = m.world) (stack : after.stack = m.stack)
    (recv : after.context.recv.waiting = m.context.recv.waiting)
    (send : after.context.send.waiting = m.context.send.waiting)
    (accept : after.context.accept.waiting = m.context.accept.waiting)
    (wait : after.context.wait.waiting = m.context.wait.waiting)
    (running : after.running = m.running) (stop : after.context.stop = m.context.stop)
    (idle : after.ready = none → after.context.recv.Idle ∧ after.context.send.Idle ∧
      after.context.accept.Idle ∧ after.context.wait.Idle) :
    Kept strict listener after base owed rearm where
  phase := by
    rw [send, world, stack]
    exact kept.phase
  consistent := kept.consistent
  receiving := by
    rw [recv]
    exact kept.receiving
  accepting := by
    rw [accept]
    exact kept.accepting
  sending := by
    rw [send]
    exact kept.sending
  live := by
    rw [send]
    exact kept.live
  timeless := wait.trans kept.timeless
  running := running.trans kept.running
  going := stop.trans kept.going
  idle := idle

/-! ## Callbacks -/

theorem Kept.resume_receiving {address : Nat} {data : Bytes} {world : World Store}
    {call : Option (Call Object Nat Callback)} {next : Option Callback}
    (kept : Kept strict listener m base [address] [])
    (arrived : base.recv (.client address) { base := address } data = .ok m.world)
    (resumed : resume ops alloc (.recvHandler address) data.length m.world =
      .ok (world, call, next)) :
    ∃ owed, Kept strict listener ({ m with world }.proceed call next []) world owed [] := by
  obtain ⟨addresses, recv, owed⟩ := kept.receiving
  have isIn : address ∈ base.openAddresses := owed.mem_iff.mp (by simp)
  obtain ⟨client, member, isOpen, rfl⟩ := mem_openAddresses.mp isIn
  obtain ⟨consistent, rfl, same, outcome⟩ := kept.consistent.receive member isOpen arrived resumed
  have live := kept.live
  rw [← same] at live
  rcases outcome with ⟨rfl, left⟩ | ⟨⟨responses, rfl⟩, left⟩
  · refine ⟨[], { kept with
      phase := .quiet, consistent, receiving := ⟨addresses, recv, ?_⟩, live }⟩
    rw [List.append_nil]
    exact (List.perm_append_right_iff _).mp (owed.trans left.symm)
  · exact ⟨[client.address], { kept with
      phase := .responding, consistent, receiving := ⟨addresses, recv, owed.trans left.symm⟩,
      live }⟩

theorem Kept.resume_responding {address argument : Nat} {responses : List Response}
    {world : World Store} {call : Option (Call Object Nat Callback)} {next : Option Callback}
    (kept : Kept strict listener m m.world [address] [])
    (resumed : resume ops alloc (.respond address responses) argument m.world =
      .ok (world, call, next)) :
    ∃ owed, Kept strict listener ({ m with world }.proceed call next []) m.world owed [] := by
  obtain ⟨addresses, recv, owed⟩ := kept.receiving
  have isIn : address ∈ m.world.openAddresses := owed.mem_iff.mp (by simp)
  obtain ⟨client, member, isOpen, rfl⟩ := mem_openAddresses.mp isIn
  cases responses with
  | nil =>
      cases resumed
      refine ⟨[], { kept with
        phase := .quiet, receiving := ⟨addresses ++ [client.address], ?_, ?_⟩ }⟩
      · dsimp only [Machine.proceed, Machine.perform, IOContext.asyncRecv]
        rw [Rounds.waiting_push, recv, List.map_append]
        rfl
      · rw [List.append_nil]
        exact owed
  | cons response responses =>
      cases resumed
      have some : (writeResponse response).length ≠ 0 :=
        fun none => writeResponse_ne_nil response (List.length_eq_zero_iff.mp none)
      refine ⟨[client.address], ?_⟩
      dsimp only [Machine.proceed, Machine.perform, Machine.callSendHandler]
      rw [List.drop_zero, if_neg some]
      exact { kept with
        phase := .responding
        sending := (Rounds.forall_waiting_push _).mpr
          ⟨kept.sending, client.address, _, rfl, rfl⟩
        live := fun strict => (Rounds.forall_waiting_push _).mpr
          ⟨kept.live strict, client.address, List.mem_map_of_mem member, rfl⟩ }

theorem Kept.resume_accepting {fd : Nat} {world : World Store}
    {call : Option (Call Object Nat Callback)} {next : Option Callback}
    (fresh : ∀ count used, alloc count used ∉ used)
    (kept : Kept strict listener m base [] [acceptOp])
    (sorted : Sorted base.clients)
    (unsent : strict → Unsent base.clients m.context.send.waiting)
    (opened : base.accept listener .listener fd = .ok m.world)
    (resumed : resume ops alloc .acceptHandler fd m.world = .ok (world, call, next)) :
    Kept strict listener ({ m with world }.proceed call next []) world [] [acceptOp] := by
  obtain ⟨addresses, recv, owed⟩ := kept.receiving
  simp only [resume] at resumed
  cases accepted : m.world.acceptHandler alloc fd with
  | mk after address =>
      rw [accepted] at resumed
      cases resumed
      obtain ⟨consistent, all, opens⟩ := kept.consistent.accept sorted opened fresh accepted
      refine { kept with
        phase := .rearming, consistent, receiving := ⟨addresses ++ [address], ?_, ?_⟩,
        live := fun strict => ?_ }
      · dsimp only [Machine.proceed, Machine.perform, IOContext.asyncRecv]
        rw [Rounds.waiting_push, recv, List.map_append]
        rfl
      · rw [List.append_nil] at owed ⊢
        rw [opens]
        exact owed.append_right [address]
      · intro op waits
        obtain ⟨sender, among, socket⟩ := kept.live strict op waits
        refine ⟨sender, ?_, socket⟩
        obtain ⟨client, member, rfl⟩ := List.mem_map.mp among
        rw [all]
        apply List.mem_append_left
        rw [mem_openAddresses]
        refine ⟨client, member, ?_, rfl⟩
        rw [← Bool.not_eq_true]
        exact fun closed => unsent strict client member closed op waits socket

theorem Kept.resume {fn : Callback} {argument : Nat} {stack : List (Callback × Nat)}
    {world : World Store} {call : Option (Call Object Nat Callback)} {next : Option Callback}
    (fresh : ∀ count used, alloc count used ∉ used) (kept : Kept strict listener m base owed rearm)
    (running : m.stack = (fn, argument) :: stack)
    (resumed : (host ops alloc listener).resume fn argument m.world = .ok (world, call, next)) :
    ∃ base owed rearm,
      Kept strict listener ({ m with world }.proceed call next stack) base owed rearm := by
  replace resumed : Server.resume ops alloc fn argument m.world = .ok (world, call, next) := resumed
  have phase := kept.phase
  rw [running] at phase
  cases phase with
  | receiving arrived =>
      obtain ⟨owed, later⟩ := kept.resume_receiving arrived resumed
      exact ⟨_, owed, _, later⟩
  | responding =>
      obtain ⟨owed, later⟩ := kept.resume_responding resumed
      exact ⟨_, owed, _, later⟩
  | accepting sorted unsent opened =>
      exact ⟨_, _, _, kept.resume_accepting fresh sorted unsent opened resumed⟩
  | rearming =>
      cases resumed
      refine ⟨_, _, _, { kept with phase := .quiet, accepting := ?_ }⟩
      dsimp only [Machine.proceed, Machine.perform, IOContext.asyncAccept]
      rw [Rounds.waiting_push, List.append_nil]
      exact kept.accepting
  | sent =>
      cases resumed
      exact ⟨_, _, _, { kept with phase := .quiet }⟩

/-! ## Steps -/

theorem Kept.quiet (kept : Kept strict listener m base owed rearm) (quiet : m.stack = []) :
    Kept strict listener m m.world [] [] := by
  have phase := kept.phase
  rw [quiet] at phase
  cases phase
  exact kept

theorem not_outside {m : ServerMachine Store} {ready : Ready} {idle : Prop}
    (inside : m.ready = some ready) (outside : m.ready = none) : idle :=
  absurd (inside.symm.trans outside) nofun

theorem split_map {α β : Type} {f : α → β} {xs : List α} {front back : List β} {y : β}
    (same : front ++ y :: back = xs.map f) :
    ∃ before x after, xs = before ++ x :: after ∧ before.map f = front ∧ f x = y ∧
      after.map f = back := by
  obtain ⟨before, tail, rfl, rfl, rest⟩ := List.map_eq_append_iff.mp same.symm
  obtain ⟨x, after, rfl, rfl, rfl⟩ := List.map_eq_cons_iff.mp rest
  exact ⟨before, x, after, rfl, rfl, rfl, rfl⟩

theorem Kept.recv {op : RecvOp Object Nat Callback} {rest : List (RecvOp Object Nat Callback)}
    {ready : Ready} {data : Bytes} {world : World Store}
    (kept : Kept strict listener m m.world [] []) (quiet : m.stack = [])
    (inside : m.ready = some ready) (next : m.context.recv.todo = op :: rest)
    (arrived : m.world.recv op.socket op.buf data = .ok world) :
    ∃ owed, Kept strict listener ({ m with
      world, context := { m.context with recv := m.context.recv.visit true } }.invokeRecv op.fn
        data.length) m.world owed [] := by
  obtain ⟨addresses, recv, owed⟩ := kept.receiving
  rw [Rounds.waiting_eq next] at recv
  obtain ⟨before, address, behind, rfl, front, rfl, back⟩ := split_map recv
  refine ⟨[address], { kept with
    phase := ?_, receiving := ⟨before ++ behind, ?_, ?_⟩, idle := not_outside inside }⟩
  · dsimp only [recvOp, Machine.invokeRecv, Machine.enter]
    rw [quiet]
    exact .receiving arrived
  · dsimp only [recvOp, Machine.invokeRecv, Machine.enter]
    rw [Rounds.waiting_done next, ← front, ← back, List.map_append]
  · rw [List.append_nil] at owed
    refine .trans ?_ owed
    rw [List.append_assoc]
    exact (List.perm_append_singleton address behind).append_left before

theorem Kept.send {op : SendOp Object Callback} {rest : List (SendOp Object Callback)}
    {ready : Ready} {accepted : Nat} {world : World Store}
    (kept : Kept strict listener m m.world [] []) (quiet : m.stack = [])
    (inside : m.ready = some ready) (next : m.context.send.todo = op :: rest)
    (taken : m.world.send op.socket (op.buf.take accepted) = .ok world) :
    ∃ base, Kept strict listener ({ m with
      world, context := { m.context with send := m.context.send.visit true },
      accepted := m.accepted ++ [(op.socket, op.buf.take accepted)] }.invokeSend op.fn
        accepted) base [] [] := by
  have waits := Rounds.mem_waiting next
  obtain ⟨consistent, clients⟩ := kept.consistent.send taken
  obtain ⟨address, origLen, socket, handler⟩ := kept.sending op waits
  have sending : ∀ other ∈ (m.context.send.visit true).waiting, OwnSend other :=
    fun other still => kept.sending other (Rounds.mem_waiting_of_done next still)
  have live := kept.live
  rw [← clients] at live
  have othersLive : strict → ∀ other ∈ (m.context.send.visit true).waiting,
      ∃ address ∈ world.clients.map Client.address, other.socket = .client address :=
    fun strict other still => live strict other (Rounds.mem_waiting_of_done next still)
  have receiving : ∃ addresses, m.context.recv.waiting = addresses.map recvOp ∧
      (addresses ++ []).Perm world.openAddresses := by
    rw [openAddresses, clients]
    exact kept.receiving
  rw [handler]
  dsimp only [Machine.invokeSend, Machine.callSendHandler]
  refine ⟨world, ?_⟩
  split
  · refine { kept with
      phase := ?_, consistent, receiving, sending, live := othersLive,
      idle := not_outside inside }
    dsimp only [Machine.enter]
    rw [quiet]
    exact .sent
  · refine { kept with
      phase := ?_, consistent, receiving, idle := not_outside inside
      sending := (Rounds.forall_waiting_push _).mpr ⟨sending, address, origLen, rfl, rfl⟩
      live := fun strict => (Rounds.forall_waiting_push _).mpr ⟨othersLive strict, ?_⟩ }
    · dsimp only
      rw [quiet]
      exact .quiet
    · obtain ⟨sender, among, same⟩ := live strict op waits
      exact ⟨sender, among, socket.symm.trans same⟩

theorem Kept.accept {op : AcceptOp Object Callback} {rest : List (AcceptOp Object Callback)}
    {ready : Ready} {fd : Fd} {world : World Store}
    (kept : Kept strict listener m m.world [] []) (quiet : m.stack = [])
    (inside : m.ready = some ready) (next : m.context.accept.todo = op :: rest)
    (sorted : Sorted m.world.clients)
    (unsent : strict → Unsent m.world.clients m.context.send.waiting)
    (opened : m.world.accept listener op.socket fd = .ok world) :
    Kept strict listener ({ m with
      world, context := { m.context with accept := m.context.accept.visit true } }.enter op.fn fd)
        m.world [] [acceptOp] := by
  have accepting := kept.accepting
  rw [Rounds.waiting_eq next, List.append_nil] at accepting
  obtain ⟨front, rfl, back⟩ : m.context.accept.kept = [] ∧ op = acceptOp ∧
      rest ++ m.context.accept.fresh = [] := by
    cases front : m.context.accept.kept with
    | nil =>
        rw [front, List.nil_append] at accepting
        obtain ⟨same, back⟩ := List.cons.inj accepting
        exact ⟨rfl, same, back⟩
    | cons first others =>
        rw [front] at accepting
        have length := congrArg List.length accepting
        simp at length
  refine { kept with phase := ?_, accepting := ?_, idle := not_outside inside }
  · dsimp only [acceptOp, Machine.enter]
    rw [quiet]
    exact .accepting sorted unsent opened
  · dsimp only [Machine.enter]
    rw [Rounds.waiting_done next, front, back]
    rfl

/-- What every step preserves as long as closed handlers stand behind open ones
whenever a connection is accepted. -/
theorem Kept.step (fresh : ∀ count used, alloc count used ∉ used)
    (kept : Kept strict listener m base owed rearm) (sorted : SortedAtAccept m event)
    (unsent : strict → UnsentAtAccept m event)
    (stepped : m.step (host ops alloc listener) event = .ok after) :
    ∃ base owed rearm, Kept strict listener after base owed rearm := by
  cases Machine.step_move stepped with
  | resume running resumed => exact kept.resume fresh running resumed
  | call quiet outside running | start quiet outside running =>
      rw [kept.running] at running
      cases running
  | «return» quiet outside running stop =>
      rw [kept.going] at stop
      cases stop
  | select quiet outside running stop =>
      obtain ⟨recv, send, accept, wait⟩ := kept.idle outside
      exact ⟨_, _, _, kept.of_waiting rfl rfl (Rounds.waiting_start _ |>.trans recv.waiting_eq.symm)
        (Rounds.waiting_start _ |>.trans send.waiting_eq.symm)
        (Rounds.waiting_start _ |>.trans accept.waiting_eq.symm)
        (Rounds.waiting_start _ |>.trans wait.waiting_eq.symm) rfl rfl nofun⟩
  | passRecv quiet inside next =>
      exact ⟨_, _, _, kept.of_waiting rfl rfl (Rounds.waiting_pass next) rfl rfl rfl rfl rfl
        (not_outside inside)⟩
  | passSend quiet inside none next =>
      exact ⟨_, _, _, kept.of_waiting rfl rfl rfl (Rounds.waiting_pass next) rfl rfl rfl rfl
        (not_outside inside)⟩
  | passAccept quiet inside none next =>
      exact ⟨_, _, _, kept.of_waiting rfl rfl rfl rfl (Rounds.waiting_pass next) rfl rfl rfl
        (not_outside inside)⟩
  | passWait quiet inside next =>
      exact ⟨_, _, _, kept.of_waiting rfl rfl rfl rfl rfl (Rounds.waiting_pass next) rfl rfl
        (not_outside inside)⟩
  | recv quiet inside next fd_eq set fits arrived =>
      obtain ⟨owed, later⟩ := (kept.quiet quiet).recv quiet inside next arrived
      exact ⟨_, owed, _, later⟩
  | send quiet inside none next fd_eq set fits taken =>
      obtain ⟨base, later⟩ := (kept.quiet quiet).send quiet inside next taken
      exact ⟨base, _, _, later⟩
  | accept quiet inside none next fd_eq set opened =>
      exact ⟨_, _, _, (kept.quiet quiet).accept quiet inside next sorted unsent opened⟩
  | wait quiet inside next =>
      have timeless := kept.timeless
      rw [Rounds.waiting_eq next] at timeless
      simp at timeless
  | merge quiet inside recv send accept wait =>
      exact ⟨_, _, _, kept.of_waiting rfl rfl rfl rfl rfl rfl rfl rfl fun _ =>
        ⟨Rounds.idle_finish _, Rounds.idle_finish _, Rounds.idle_finish _, Rounds.idle_finish _⟩⟩

/-! ## No step uses a pointer to something gone -/

theorem client?_of_address (consistent : base.Consistent) {address : Nat}
    (among : address ∈ base.clients.map Client.address) :
    ∃ client fd, base.client? address = some client ∧
      (base.client? address).bind Client.socket = some fd := by
  obtain ⟨client, member, rfl⟩ := List.mem_map.mp among
  obtain ⟨conn, _, _, holds⟩ := consistent.held client member
  have found := consistent.client?_eq member
  refine ⟨client, conn.fd, found, ?_⟩
  rw [found]
  exact holds

theorem fdOf_client (consistent : base.Consistent) {address : Nat}
    (among : address ∈ base.clients.map Client.address) :
    Machine.fdOf (host ops alloc listener) base (.client address) ≠ .error .dangling := by
  obtain ⟨_, fd, _, known⟩ := client?_of_address consistent among
  replace known : (host ops alloc listener).fd base (.client address) = some fd := known
  rw [Machine.fdOf, known]
  nofun

theorem openAddresses_subset {address : Nat} (isIn : address ∈ base.openAddresses) :
    address ∈ base.clients.map Client.address :=
  (List.filter_sublist.map _).mem isIn

theorem Kept.recvOp_of_waiting (kept : Kept strict listener m m.world [] [])
    {op : RecvOp Object Nat Callback} (waits : op ∈ m.context.recv.waiting) :
    ∃ address ∈ m.world.openAddresses, op = recvOp address := by
  obtain ⟨addresses, recv, owed⟩ := kept.receiving
  rw [recv] at waits
  obtain ⟨address, member, rfl⟩ := List.mem_map.mp waits
  rw [List.append_nil] at owed
  exact ⟨address, owed.mem_iff.mp member, rfl⟩

theorem Kept.acceptOp_of_waiting (kept : Kept strict listener m m.world [] [])
    {op : AcceptOp Object Callback} (waits : op ∈ m.context.accept.waiting) : op = acceptOp := by
  have accepting := kept.accepting
  rw [List.append_nil] at accepting
  rw [accepting] at waits
  exact List.mem_singleton.mp waits

theorem recv_not_dangling (consistent : base.Consistent) {address : Nat}
    (among : address ∈ base.clients.map Client.address) (data : Bytes) :
    base.recv (.client address) { base := address } data ≠ .error .dangling := by
  obtain ⟨client, fd, found, known⟩ := client?_of_address consistent among
  simp only [World.recv]
  rw [known, found]
  dsimp only
  split <;> exact fun failed => by cases failed

theorem send_not_dangling (consistent : base.Consistent) {address : Nat}
    (among : address ∈ base.clients.map Client.address) (data : Bytes) :
    base.send (.client address) data ≠ .error .dangling := by
  obtain ⟨_, fd, _, known⟩ := client?_of_address consistent among
  simp only [World.send]
  rw [known]
  exact fun failed => by cases failed

theorem Kept.resume_not_dangling {fn : Callback} {argument : Nat} {stack : List (Callback × Nat)}
    (kept : Kept strict listener m base owed rearm) (running : m.stack = (fn, argument) :: stack) :
    Server.resume ops alloc fn argument m.world ≠ .error .dangling := by
  have phase := kept.phase
  rw [running] at phase
  cases phase with
  | @receiving _ address data arrived =>
      obtain ⟨addresses, recv, owed⟩ := kept.receiving
      have isIn : address ∈ base.openAddresses := owed.mem_iff.mp (by simp)
      obtain ⟨client, fd, found, _⟩ :=
        client?_of_address kept.consistent (openAddresses_subset isIn)
      obtain ⟨fd, _, same⟩ := recv_ok arrived
      have reader := client?_updateClient base address
        (fun client => { client with buf := overwrite client.buf 0 data }) fun _ => rfl
      rw [found] at reader
      have present : m.world.client? address =
          some { client with buf := overwrite client.buf 0 data } := by
        rw [same]
        exact reader
      simp only [Server.resume]
      rw [present]
      dsimp only
      split <;> exact fun failed => by cases failed
  | @responding _ responses =>
      cases responses <;> exact fun failed => by cases failed
  | accepting | rearming | sent => exact fun failed => by cases failed

theorem Kept.iterate_not_dangling (kept : Kept True listener m m.world [] []) {ready : Ready} :
    m.iterate (host ops alloc listener) ready event ≠ .error .dangling := by
  intro failed
  simp only [Machine.iterate] at failed
  split at failed
  · rename_i next
    obtain ⟨address, isIn, rfl⟩ := kept.recvOp_of_waiting (Rounds.mem_waiting next)
    have among := openAddresses_subset isIn
    rcases Machine.visit_error failed with unknown | served | refused
    · exact fdOf_client kept.consistent among unknown
    · simp only [Machine.serveRecv] at served
      split at served
      · split at served
        · rcases bind_error_iff.mp served with dangling | ⟨_, _, served⟩
          · exact recv_not_dangling kept.consistent among _ dangling
          · cases served
        · cases served
      · cases served
    · cases refused
  · rename_i next
    obtain ⟨address, among, socket⟩ := kept.live trivial _ (Rounds.mem_waiting next)
    rcases Machine.visit_error failed with unknown | served | refused
    · rw [socket] at unknown
      exact fdOf_client kept.consistent among unknown
    · simp only [Machine.serveSend] at served
      split at served
      · split at served
        · rcases bind_error_iff.mp served with dangling | ⟨_, _, served⟩
          · rw [socket] at dangling
            exact send_not_dangling kept.consistent among _ dangling
          · cases served
        · cases served
      · cases served
    · cases refused
  · rename_i next
    obtain rfl := kept.acceptOp_of_waiting (Rounds.mem_waiting next)
    rcases Machine.visit_error failed with unknown | served | refused
    · cases unknown
    · simp only [Machine.serveAccept] at served
      split at served
      · rcases bind_error_iff.mp served with dangling | ⟨_, _, served⟩
        · change World.accept _ listener .listener _ = _ at dangling
          simp only [World.accept] at dangling
          split at dangling <;> cases dangling
        · cases served
      · cases served
    · cases refused
  · rename_i next
    have timeless := kept.timeless
    rw [Rounds.waiting_eq next] at timeless
    simp at timeless
  · split at failed <;> cases failed

theorem Kept.select_not_dangling (kept : Kept True listener m m.world [] [])
    (read write : List Fd) :
    m.select (host ops alloc listener) read write ≠ .error .dangling := by
  intro failed
  rcases bind_error_iff.mp failed with recv | ⟨_, _, failed⟩
  · obtain ⟨_, member, unknown⟩ := mapM_error recv
    obtain ⟨op, queued, rfl⟩ := List.mem_map.mp member
    obtain ⟨address, isIn, rfl⟩ := kept.recvOp_of_waiting (Rounds.mem_waiting_of_fresh queued)
    exact fdOf_client kept.consistent (openAddresses_subset isIn) unknown
  rcases bind_error_iff.mp failed with send | ⟨_, _, failed⟩
  · obtain ⟨_, member, unknown⟩ := mapM_error send
    obtain ⟨op, queued, rfl⟩ := List.mem_map.mp member
    obtain ⟨address, among, socket⟩ := kept.live trivial op (Rounds.mem_waiting_of_fresh queued)
    rw [socket] at unknown
    exact fdOf_client kept.consistent among unknown
  rcases bind_error_iff.mp failed with accept | ⟨_, _, failed⟩
  · obtain ⟨_, member, unknown⟩ := mapM_error accept
    obtain ⟨op, queued, rfl⟩ := List.mem_map.mp member
    obtain rfl := kept.acceptOp_of_waiting (Rounds.mem_waiting_of_fresh queued)
    cases unknown
  rcases bind_error_iff.mp failed with wait | ⟨_, _, failed⟩
  · obtain ⟨_, member, unknown⟩ := mapM_error wait
    obtain ⟨op, queued, rfl⟩ := List.mem_map.mp member
    have waits := Rounds.mem_waiting_of_fresh queued
    rw [kept.timeless] at waits
    cases waits
  · cases failed

theorem Kept.not_dangling (kept : Kept True listener m base owed rearm) :
    m.step (host ops alloc listener) event ≠ .error .dangling := by
  intro failed
  simp only [Machine.step] at failed
  split at failed
  · rename_i fn argument stack running
    split at failed
    · rcases bind_error_iff.mp failed with resumed | ⟨_, _, done⟩
      · exact kept.resume_not_dangling running resumed
      · cases done
    · cases failed
  · rename_i quiet
    split at failed
    · simp only [Machine.atHead] at failed
      split at failed
      · cases failed
      · exact (kept.quiet quiet).select_not_dangling _ _ failed
      · cases failed
      · cases failed
      · cases failed
    · exact (kept.quiet quiet).iterate_not_dangling failed

theorem run_not_dangling (fresh : ∀ count used, alloc count used ∉ used)
    {events : List (Event Callback)}
    (kept : Kept True listener m base owed rearm)
    (sorted : Machine.Along (host ops alloc listener) SortedAtAccept m events)
    (unsent : Machine.Along (host ops alloc listener) UnsentAtAccept m events) :
    Machine.run (host ops alloc listener) m events ≠ .error .dangling := by
  induction events generalizing m base owed rearm with
  | nil => nofun
  | cons event events ih =>
      intro failed
      obtain ⟨firstSorted, sorted⟩ := sorted
      obtain ⟨firstUnsent, unsent⟩ := unsent
      rcases bind_error_iff.mp failed with dangling | ⟨next, stepped, failed⟩
      · exact kept.not_dangling dangling
      · rw [stepped] at sorted unsent
        obtain ⟨_, _, _, later⟩ := kept.step fresh firstSorted (fun _ => firstUnsent) stepped
        exact ih later sorted unsent failed

/-! ## The head of the loop -/

theorem filter_eq_singleton {α β : Type} [DecidableEq β] {f : α → β} {xs : List α} {x : α}
    (nodup : (xs.map f).Nodup) (member : x ∈ xs) : xs.filter (fun y => f y = f x) = [x] := by
  induction xs with
  | nil => cases member
  | cons y ys ih =>
      rw [List.map_cons, List.nodup_cons] at nodup
      rcases List.mem_cons.mp member with rfl | member
      · have none : ys.filter (fun y => f y = f x) = [] := by
          rw [List.filter_eq_nil_iff]
          intro y among same
          exact nodup.1 (List.mem_map.mpr ⟨y, among, of_decide_eq_true same⟩)
        rw [List.filter_cons_of_pos (by simp), none]
      · have apart : f y ≠ f x := fun same => nodup.1 (same ▸ List.mem_map_of_mem member)
        rw [List.filter_cons_of_neg (by simpa using apart), ih nodup.2 member]

theorem Kept.clientsKept (kept : Kept strict listener m base owed rearm) (quiet : m.stack = [])
    (outside : m.ready = none) : ClientsKept m := by
  replace kept := kept.quiet quiet
  have consistent := kept.consistent
  obtain ⟨recvIdle, _, acceptIdle, _⟩ := kept.idle outside
  obtain ⟨addresses, recv, owed⟩ := kept.receiving
  rw [recvIdle.waiting_eq] at recv
  rw [List.append_nil] at owed
  have sockets : (m.context.recv.fresh.map RecvOp.socket).Nodup := by
    rw [recv, List.map_map]
    refine List.Nodup.map ?_ (owed.nodup_iff.mpr consistent.nodup_openAddresses)
    exact fun first second same => Object.client.inj same
  have unreleased : ∀ conn ∈ m.world.connections, conn.ended = false → conn.released = false := by
    intro conn inside running
    by_contra released
    rw [Bool.not_eq_false] at released
    rw [consistent.finished conn inside released] at running
    cases running
  refine ⟨?_, ?_, consistent.addresses, ?_, ?_, ?_⟩
  · intro conn inside running
    obtain ⟨client, member, holds⟩ := consistent.holder conn inside (unreleased conn inside running)
    have served := consistent.serves client member conn inside (unreleased conn inside running)
      holds
    have isOpen : client.handler.closed = false := served.closed ▸ running
    refine ⟨client, ?_, isOpen, served.unconsumed running, ?_⟩
    · rw [← holds]
      exact filter_eq_singleton consistent.sockets member
    · have isIn : client.address ∈ addresses :=
        owed.mem_iff.mpr (mem_openAddresses.mpr ⟨client, member, isOpen, rfl⟩)
      apply filter_eq_singleton (x := recvOp client.address) sockets
      rw [recv]
      exact List.mem_map_of_mem isIn
  · have among : m.world.connections.filter (fun conn => !conn.ended) =
        (m.world.connections.filter fun conn => !conn.released).filter fun conn => !conn.ended := by
      rw [List.filter_filter]
      apply List.filter_congr
      intro conn inside
      cases ended : conn.ended with
      | true => rfl
      | false => rw [unreleased conn inside ended]; rfl
    rw [among]
    exact consistent.descriptors.sublist (List.filter_sublist.map _)
  · intro op queued
    rw [recv] at queued
    obtain ⟨address, _, rfl⟩ := List.mem_map.mp queued
    exact ⟨address, rfl⟩
  · intro client member closed op queued same
    rw [recv] at queued
    obtain ⟨address, isIn, rfl⟩ := List.mem_map.mp queued
    obtain ⟨other, among, isOpen, at_⟩ := mem_openAddresses.mp (owed.mem_iff.mp isIn)
    obtain rfl := consistent.eq_of_address among member (at_.trans (Object.client.inj same))
    rw [closed] at isOpen
    cases isOpen
  · have accepting := kept.accepting
    rwa [acceptIdle.waiting_eq, List.append_nil] at accepting

/-- As long as closed handlers stand behind open ones whenever a connection is
accepted, every open connection has its handler and its operation at the head of
the loop. No pointer to something gone is used if, then, no response to a closed
handler waits. -/
theorem clients_kept (ops : DatabaseOps Store Coll) (alloc : Nat → List Nat → Nat)
    (fresh : ∀ count used, alloc count used ∉ used) (listener : Fd) (db : Store)
    (events : List (Event Callback))
    (sorted : Machine.Along (host ops alloc listener) SortedAtAccept (start db) events) :
    (∀ m, Machine.run (host ops alloc listener) (start db) events = .ok m →
      m.stack = [] → m.ready = none → ClientsKept m) ∧
    (Machine.Along (host ops alloc listener) UnsentAtAccept (start db) events →
      Machine.run (host ops alloc listener) (start db) events ≠ .error .dangling) := by
  refine ⟨fun m ran quiet outside => ?_, run_not_dangling fresh (kept_start db) sorted⟩
  have preserves : ∀ m event after, (∃ base owed rearm, Kept False listener m base owed rearm) →
      SortedAtAccept m event → m.step (host ops alloc listener) event = .ok after →
      ∃ base owed rearm, Kept False listener after base owed rearm := by
    intro m event after ⟨_, _, _, kept⟩ sorted stepped
    exact kept.step fresh sorted nofun stepped
  obtain ⟨_, _, _, kept⟩ :=
    Machine.run_preserves preserves ⟨_, _, _, kept_start db⟩ sorted ran
  exact kept.clientsKept quiet outside

/-! ## Two runs -/

/-- Addresses for new nodes. -/
def nextAddress (_ : Nat) (used : List Nat) : Nat := used.foldr max 0 + 1

theorem nextAddress_fresh (count : Nat) (used : List Nat) : nextAddress count used ∉ used := by
  have below : ∀ address ∈ used, address ≤ used.foldr max 0 := by
    induction used with
    | nil => nofun
    | cons first rest ih =>
        intro address member
        rw [List.foldr_cons]
        rcases List.mem_cons.mp member with rfl | member
        · exact Nat.le_max_left _ _
        · exact (ih address member).trans (Nat.le_max_right _ _)
  intro member
  have bound := below _ member
  rw [nextAddress] at bound
  omega

/-- Two clients connect; the first asks for a schema, and is answered, while the
second leaves; then a third connects. -/
def guests : List (Event Callback) :=
  [.select [3] [], .accept 5, .tick, .tick, .tick,
    .select [3, 5] [], .recv [3, 1, 0, 0, 0, 117], .tick, .tick, .tick, .accept 6, .tick, .tick,
    .tick,
    .select [6] [5], .tick, .recv [], .tick, .send 1, .tick, .tick, .tick,
    .select [3] [], .tick, .accept 7, .tick, .tick, .tick]

theorem clients_kept_guests :
    (Machine.run (host (databaseOps noHash) nextAddress 3) (start {}) guests).isOk = true ∧
    (∀ m, Machine.run (host (databaseOps noHash) nextAddress 3) (start {}) guests = .ok m →
      m.stack = [] → m.ready = none → ClientsKept m) ∧
    (Machine.Along (host (databaseOps noHash) nextAddress 3) UnsentAtAccept (start {}) guests →
      Machine.run (host (databaseOps noHash) nextAddress 3) (start {}) guests ≠
        .error .dangling) :=
  ⟨by decide +kernel, clients_kept (databaseOps noHash) nextAddress nextAddress_fresh 3 {} guests
    (by decide +kernel)⟩

/-- Two clients connect, the first leaves, and a third connects. -/
def turnover : List (Event Callback) :=
  [.select [3] [], .accept 5, .tick, .tick, .tick,
    .select [3] [], .tick, .accept 6, .tick, .tick, .tick,
    .select [5] [], .recv [], .tick, .tick, .tick, .tick,
    .select [3] [], .tick, .accept 7, .tick, .tick, .tick]

/-- The second client is assigned to the node of the first, and nothing receives
for it any more. -/
theorem turnover_loses_client : ∃ m,
    Machine.run (host (databaseOps noHash) nextAddress 3) (start {}) turnover = .ok m ∧
    m.stack = [] ∧ m.ready = none ∧ ¬ ClientsKept m := by
  have settled : (Machine.run (host (databaseOps noHash) nextAddress 3) (start {}) turnover).map
      (fun m => (m.stack.length, m.ready)) = .ok (0, none) := by decide +kernel
  have connections : (Machine.run (host (databaseOps noHash) nextAddress 3) (start {})
      turnover).map (fun m => m.world.connections) =
        .ok [{ fd := 5, ended := true }, { fd := 6 }, { fd := 7 }] := by decide +kernel
  have clients : (Machine.run (host (databaseOps noHash) nextAddress 3) (start {}) turnover).map
      (fun m => m.world.clients.map fun client => (client.address, client.socket)) =
        .ok [(1, some 6), (2, some 7)] := by decide +kernel
  have queued : (Machine.run (host (databaseOps noHash) nextAddress 3) (start {}) turnover).map
      (fun m => m.context.recv.fresh.map RecvOp.socket) = .ok [.client 2, .client 2] := by
    decide +kernel
  cases ran : Machine.run (host (databaseOps noHash) nextAddress 3) (start {}) turnover with
  | error halt =>
      rw [ran] at queued
      cases queued
  | ok m =>
      rw [ran] at settled connections clients queued
      replace settled := Except.ok.inj settled
      replace connections := Except.ok.inj connections
      replace clients := Except.ok.inj clients
      replace queued := Except.ok.inj queued
      dsimp only at settled connections clients queued
      obtain ⟨quiet, outside⟩ := Prod.mk.inj settled
      refine ⟨m, rfl, List.length_eq_zero_iff.mp quiet, outside, fun kept => ?_⟩
      obtain ⟨client, only, _, _, op⟩ := kept.handled { fd := 6 } (by rw [connections]; simp) rfl
      have member : client ∈ m.world.clients ∧ client.socket = some 6 := by
        have among : client ∈ [client] := List.mem_cons_self
        rw [← only, List.mem_filter] at among
        exact ⟨among.1, of_decide_eq_true among.2⟩
      have node : (client.address, some 6) ∈ [(1, some 6), (2, some 7)] := by
        rw [← clients, ← member.2]
        exact List.mem_map_of_mem member.1
      have first : client.address = 1 := by simpa using node
      have waits : recvOp 1 ∈ m.context.recv.fresh := by
        have among : recvOp 1 ∈ [recvOp 1] := List.mem_cons_self
        rw [first] at op
        rw [← op] at among
        exact (List.mem_filter.mp among).1
      have impossible : Object.client 1 ∈ m.context.recv.fresh.map RecvOp.socket :=
        List.mem_map_of_mem waits
      rw [queued] at impossible
      simp at impossible

end Boutique.Server
