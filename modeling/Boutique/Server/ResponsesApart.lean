import Boutique.Io.Journals
import Boutique.Server.ClientsKept

namespace Boutique.Server

open Boutique.Data Boutique.Db Boutique.Io Boutique.Protocol World

variable {Store Coll : Type} {ops : DatabaseOps Store Coll} {alloc : Nat → List Nat → Nat}
  {listener : Fd}

/-- Changing what meets `p` is changing the first element that does, when no
other one does. -/
theorem map_eq_modify {α : Type} {p : α → Prop} [DecidablePred p] {f : α → α} {xs : List α}
    {index : Nat} (found : xs.findIdx? (fun x => p x) = some index)
    (once : xs.Pairwise fun x y => p x → ¬ p y) :
    (xs.map fun x => if p x then f x else x) = xs.modify index f := by
  induction xs generalizing index with
  | nil => cases found
  | cons x xs ih =>
      obtain ⟨first, once⟩ := List.pairwise_cons.mp once
      rw [List.findIdx?_cons] at found
      by_cases here : p x
      · have others : ∀ y ∈ xs, (if p y then f y else y) = y :=
          fun y member => if_neg (first y member here)
        simp only [here, decide_true, if_true, Option.some.injEq] at found
        subst found
        rw [List.map_cons, if_pos here, List.map_congr_left others, List.map_id']
        rfl
      · simp only [here, decide_false, Bool.false_eq_true, if_false,
          Option.map_eq_some_iff] at found
        obtain ⟨index, found, rfl⟩ := found
        rw [List.map_cons, if_neg here, ih found once]
        rfl

/-! ## The connection of a client -/

def Client.holder (client : Client) : Nat × Option Fd := (client.address, client.socket)

def Connection.descriptor (conn : Connection) : Fd × Bool := (conn.fd, conn.released)

namespace World

/-- Which of the accepted connections the descriptor of a client belongs to. -/
def connectionOf (world : World Store) (address : Nat) : Option Nat :=
  ((world.client? address).bind Client.socket).bind fun fd =>
    world.connections.findIdx? fun conn => conn.fd = fd ∧ conn.released = false

variable {world after : World Store} {address index : Nat} {fd : Fd}

theorem connectionOf_some_iff :
    world.connectionOf address = some index ↔
      ∃ fd, (world.client? address).bind Client.socket = some fd ∧
        world.connections.findIdx? (fun conn => conn.fd = fd ∧ conn.released = false) =
          some index := by
  rw [connectionOf, Option.bind_eq_some_iff]

/-- The same clients hold the same descriptors, of the same connections. -/
structure SameSockets (after world : World Store) : Prop where
  clients : after.clients.map Client.holder = world.clients.map Client.holder
  connections : after.connections.map Connection.descriptor =
    world.connections.map Connection.descriptor

theorem SameSockets.refl (world : World Store) : SameSockets world world := ⟨rfl, rfl⟩

theorem connectionOf_congr (same : SameSockets after world) :
    after.connectionOf = world.connectionOf := by
  have viewed : ∀ world : World Store, ∀ address, world.connectionOf address =
      (((world.clients.map Client.holder).find? fun holder => holder.1 = address).bind
        Prod.snd).bind fun fd => (world.connections.map Connection.descriptor).findIdx?
          fun descriptor => descriptor.1 = fd ∧ descriptor.2 = false := by
    intro world address
    rw [connectionOf, client?, List.find?_map, Option.bind_map]
    simp only [List.findIdx?_map]
    rfl
  funext address
  rw [viewed, viewed, same.clients, same.connections]

theorem updateClient_holder (world : World Store) (address : Nat) {update : Client → Client}
    (keeps : ∀ client, (update client).holder = client.holder) :
    (world.updateClient address update).clients.map Client.holder =
      world.clients.map Client.holder := by
  rw [updateClient, List.map_map]
  apply List.map_congr_left
  intro client _
  dsimp only [Function.comp]
  split
  · exact keeps client
  · rfl

theorem updateConnection_descriptor (world : World Store) (fd : Fd)
    {update : Connection → Connection}
    (keeps : ∀ conn, (update conn).descriptor = conn.descriptor) :
    (world.updateConnection fd update).connections.map Connection.descriptor =
      world.connections.map Connection.descriptor := by
  rw [updateConnection, List.map_map]
  apply List.map_congr_left
  intro conn _
  dsimp only [Function.comp]
  split
  · exact keeps conn
  · rfl

theorem recv_sameSockets {object : Object} {buf : Pointer Nat} {data : Bytes}
    (arrived : world.recv object buf data = .ok after) : SameSockets after world := by
  simp only [recv] at arrived
  split at arrived
  · cases arrived
  · split at arrived
    · split at arrived
      · cases arrived
        constructor
        · exact updateClient_holder world buf.base fun _ => rfl
        · exact updateConnection_descriptor _ _ fun _ => rfl
      · cases arrived
    · cases arrived

theorem send_sameSockets {object : Object} {data : Bytes}
    (sent : world.send object data = .ok after) : SameSockets after world := by
  simp only [World.send] at sent
  split at sent
  · cases sent
  · split at sent
    · cases sent
      exact ⟨rfl, updateConnection_descriptor _ _ fun _ => rfl⟩
    · cases sent

theorem connectionOf_accept {object : Object} (opened : world.accept listener object fd = .ok after)
    (known : world.connectionOf address = some index) :
    after.connectionOf address = some index := by
  obtain ⟨_, rfl⟩ := accept_ok opened
  obtain ⟨fd, holds, found⟩ := connectionOf_some_iff.mp known
  apply connectionOf_some_iff.mpr
  refine ⟨fd, holds, ?_⟩
  rw [List.findIdx?_append, found]
  rfl

/-- Sending on a client's descriptor reaches its connection alone. -/
theorem Consistent.send_connections (consistent : world.Consistent)
    (known : world.connectionOf address = some index) {data : Bytes}
    (sent : world.send (.client address) data = .ok after) :
    after.connections = world.connections.modify index fun conn =>
      { conn with sent := conn.sent ++ data } := by
  obtain ⟨fd, holds, found⟩ := connectionOf_some_iff.mp known
  have isSent : world.send (.client address) data = .ok (world.updateConnection fd fun conn =>
      { conn with sent := conn.sent ++ data }) := by
    simp only [World.send]
    rw [holds]
    rfl
  obtain rfl := Except.ok.inj (sent.symm.trans isSent)
  apply map_eq_modify found
  have distinct := consistent.descriptors
  rw [List.Nodup, List.pairwise_map, List.pairwise_filter] at distinct
  apply distinct.imp
  intro conn other apart first second
  exact apart (by simp [first.2]) (by simp [second.2]) (first.1.trans second.1.symm)

theorem Consistent.connectionOf_client (consistent : world.Consistent)
    (among : address ∈ world.clients.map Client.address) :
    ∃ index, world.connectionOf address = some index := by
  obtain ⟨client, member, rfl⟩ := List.mem_map.mp among
  obtain ⟨conn, inside, unreleased, holds⟩ := consistent.held client member
  have met : world.connections.any (fun conn' => conn'.fd = conn.fd ∧ conn'.released = false) :=
    List.any_eq_true.mpr ⟨conn, inside, by simp [unreleased]⟩
  obtain ⟨index, found⟩ := Option.isSome_iff_exists.mp (List.findIdx?_isSome.trans met)
  refine ⟨index, connectionOf_some_iff.mpr ⟨conn.fd, ?_, found⟩⟩
  rw [consistent.client?_eq member]
  exact holds

/-- `accept_handler` leaves the clients that stay their connections. -/
theorem Consistent.connectionOf_acceptHandler (consistent : world.Consistent)
    (sorted : Sorted world.clients) {object : Object} {arrived : World Store} {new : Nat}
    (opened : world.accept listener object fd = .ok arrived)
    (fresh : ∀ count used, alloc count used ∉ used)
    (accepted : arrived.acceptHandler alloc fd = (after, new))
    (isOpen : address ∈ world.openAddresses) (known : arrived.connectionOf address = some index) :
    after.connectionOf address = some index := by
  obtain ⟨afterConsistent, all, _⟩ := consistent.accept sorted opened fresh accepted
  obtain ⟨client, member, stays, rfl⟩ := mem_openAddresses.mp isOpen
  obtain ⟨_, rfl⟩ := accept_ok opened
  obtain ⟨held, holds, found⟩ := connectionOf_some_iff.mp known
  replace holds : client.socket = some held := by
    change (world.client? client.address).bind Client.socket = some held at holds
    rwa [consistent.client?_eq member] at holds
  rw [acceptHandler] at accepted
  dsimp only at accepted
  rw [removeClosed_sorted sorted] at accepted
  cases accepted
  have apart : ∀ other ∈ world.clients.filter (fun client => client.handler.closed),
      other.socket ≠ some held := by
    intro other erased same
    obtain ⟨present, closed⟩ := List.mem_filter.mp erased
    obtain rfl := consistent.eq_of_socket present member (same.trans holds.symm)
    rw [stays] at closed
    cases closed
  refine connectionOf_some_iff.mpr ⟨held, ?_, ?_⟩
  · have found := afterConsistent.client?_eq
      (List.mem_append_left _ (List.mem_filter.mpr ⟨member, by simp [stays]⟩))
    rw [found]
    exact holds
  · rw [← found, destroy, List.findIdx?_map]
    congr 1
    funext conn
    apply decide_eq_decide.mpr
    rw [destroy_released]
    constructor
    · exact fun given => ⟨given.1, given.2.1⟩
    · intro given
      obtain ⟨same, unreleased⟩ := given
      exact ⟨same, unreleased, fun other erased => same ▸ apart other erased⟩

end World

variable {strict : Prop} {m after : ServerMachine Store} {base : World Store} {owed : List Nat}
  {rearm : List (AcceptOp Object Callback)} {event : Event Callback}

/-! ## Steps -/

/-- What a callback of the server asks of the context. -/
theorem resume_cases {fn : Callback} {argument : Nat} {world world' : World Store}
    {call : Option (Call Object Nat Callback)} {next : Option Callback}
    (resumed : resume ops alloc fn argument world = .ok (world', call, next)) :
    (∃ address response responses, fn = .respond address (response :: responses) ∧
      world' = world ∧
      call = some (.asyncSendAll (.client address) (writeResponse response) .sent)) ∨
    call = none ∨ (∃ socket buf maxlen fn, call = some (.asyncRecv socket buf maxlen fn)) ∨
      ∃ socket fn, call = some (.asyncAccept socket fn) := by
  unfold resume at resumed
  split at resumed
  · split at resumed
    · cases resumed
    · dsimp only at resumed
      split at resumed
      · cases resumed
      · cases resumed
        exact .inr (.inl rfl)
  · cases resumed
    exact .inl ⟨_, _, _, rfl, rfl, rfl⟩
  · cases resumed
    exact .inr (.inr (.inl ⟨_, _, _, _, rfl⟩))
  · cases resumed
    exact .inr (.inr (.inl ⟨_, _, _, _, rfl⟩))
  · cases resumed
    exact .inr (.inr (.inr ⟨_, _, rfl⟩))
  · cases resumed
    exact .inr (.inl rfl)

theorem recvHandler_sameSockets {argument address : Nat} {world world' : World Store}
    {call : Option (Call Object Nat Callback)} {next : Option Callback}
    (resumed : resume ops alloc (.recvHandler address) argument world = .ok (world', call, next)) :
    SameSockets world' world := by
  simp only [resume] at resumed
  split at resumed
  · cases resumed
  · split at resumed
    · cases resumed
    · cases resumed
      exact ⟨updateClient_holder _ _ fun _ => rfl, rfl⟩

/-- A client for which a response waits keeps its connection. -/
theorem Kept.connectionOf_resume (fresh : ∀ count used, alloc count used ∉ used)
    (kept : Kept True listener m base owed rearm) {fn : Callback} {argument : Nat}
    {stack : List (Callback × Nat)} (running : m.stack = (fn, argument) :: stack)
    {world : World Store} {call : Option (Call Object Nat Callback)} {next : Option Callback}
    (resumed : Server.resume ops alloc fn argument m.world = .ok (world, call, next))
    {op : SendOp Object Callback} (waits : op ∈ m.context.send.waiting) {address index : Nat}
    (socket : op.socket = .client address) (known : m.world.connectionOf address = some index) :
    world.connectionOf address = some index := by
  have phase := kept.phase
  rw [running] at phase
  cases phase with
  | receiving =>
      rw [connectionOf_congr (recvHandler_sameSockets resumed)]
      exact known
  | @responding _ responses =>
      cases responses <;> cases resumed <;> exact known
  | accepting sorted unsent opened =>
      simp only [Server.resume] at resumed
      cases accepted : m.world.acceptHandler alloc argument with
      | mk later new =>
          rw [accepted] at resumed
          cases resumed
          obtain ⟨sender, among, same⟩ := kept.live trivial op waits
          obtain rfl : sender = address := Object.client.inj (same.symm.trans socket)
          obtain ⟨client, member, rfl⟩ := List.mem_map.mp among
          refine kept.consistent.connectionOf_acceptHandler sorted opened fresh accepted ?_ known
          refine mem_openAddresses.mpr ⟨client, member, ?_, rfl⟩
          rw [← Bool.not_eq_true]
          exact fun closed => unsent trivial client member closed op waits socket
  | rearming | sent =>
      cases resumed
      exact known

theorem Kept.connectionOf_step (fresh : ∀ count used, alloc count used ∉ used)
    (kept : Kept True listener m base owed rearm)
    (stepped : m.step (host ops alloc listener) event = .ok after)
    {op : SendOp Object Callback} (waits : op ∈ m.context.send.waiting) {address index : Nat}
    (socket : op.socket = .client address) (known : m.world.connectionOf address = some index) :
    after.world.connectionOf address = some index := by
  cases Machine.step_move stepped with
  | resume running resumed =>
      rw [Machine.proceed_world]
      exact kept.connectionOf_resume fresh running resumed waits socket known
  | call | start | «return» | select | passRecv | passSend | passAccept | passWait | wait | merge =>
      exact known
  | recv quiet inside next fd_eq set fits arrived =>
      rw [Machine.invokeRecv_world]
      dsimp only
      rw [connectionOf_congr (recv_sameSockets arrived)]
      exact known
  | send quiet inside none next fd_eq set fits taken =>
      rw [Machine.invokeSend_world]
      dsimp only
      rw [connectionOf_congr (send_sameSockets taken)]
      exact known
  | accept quiet inside none next fd_eq set opened => exact connectionOf_accept opened known

/-! ## Which connection a response answers -/

/-- The queue of send operations, each with the connection whose commands its
bytes answer. -/
abbrev Attributed := Rounds (SendOp Object Callback × Option Nat)

/-- The connection that what a step queues answers: that of the client whose
commands have been executed, or that of the operation whose rest it is. -/
def answered (m : ServerMachine Store) (attributed : Attributed) : Option Nat :=
  match m.stack with
  | (.respond address _, _) :: _ => m.world.connectionOf address
  | _ => attributed.todo.head?.bind Prod.snd

def attributeSends (host : Host Object Nat Callback (World Store)) (m : ServerMachine Store)
    (event : Event Callback) (attributed : Attributed) : Attributed :=
  ((m.effects host event).send.map (RoundStep.map fun op => (op, answered m attributed))).foldl
    Rounds.apply attributed

/-- The attributed queue at the end of a run. -/
def attribution (host : Host Object Nat Callback (World Store)) :
    ServerMachine Store → Attributed → List (Event Callback) → Attributed
  | _, attributed, [] => attributed
  | m, attributed, event :: events =>
      match m.step host event with
      | .error _ => attributed
      | .ok after => attribution host after (attributeSends host m event attributed) events

/-- The operation's client has the connection that its bytes answer. -/
def Answers (world : World Store) (entry : SendOp Object Callback × Option Nat) : Prop :=
  ∃ address index, entry.1.socket = .client address ∧ entry.2 = some index ∧
    world.connectionOf address = some index

structure Traced (m : ServerMachine Store) (attributed : Attributed) : Prop where
  same : attributed.map Prod.fst = m.context.send
  answers : ∀ entry ∈ attributed.waiting, Answers m.world entry

variable {attributed : Attributed}

theorem Traced.waits (traced : Traced m attributed) {entry : SendOp Object Callback × Option Nat}
    (waits : entry ∈ attributed.waiting) : entry.1 ∈ m.context.send.waiting := by
  rw [← traced.same, Rounds.map_waiting]
  exact List.mem_map_of_mem waits

/-- The operation that is next answers the connection it is attributed to. -/
theorem Traced.next (traced : Traced m attributed) {op : SendOp Object Callback}
    {rest : List (SendOp Object Callback)} (next : m.context.send.todo = op :: rest) :
    ∃ owner later, attributed.todo = (op, owner) :: later ∧ Answers m.world (op, owner) := by
  rw [← traced.same] at next
  obtain ⟨⟨_, owner⟩, later, todo, rfl, _⟩ := List.map_eq_cons_iff.mp next
  exact ⟨owner, later, todo, traced.answers _ (Rounds.mem_waiting todo)⟩

theorem map_attributed (steps : List (RoundStep (SendOp Object Callback))) (owner : Option Nat) :
    (steps.map (RoundStep.map fun op => (op, owner))).map (RoundStep.map Prod.fst) = steps := by
  rw [List.map_map]
  refine (List.map_congr_left fun step _ => ?_).trans (List.map_id _)
  cases step <;> rfl

theorem OwnSend.socket_of_queues {op served : SendOp Object Callback} (own : OwnSend served)
    {accepted : Nat} (queued : op ∈ served.queues accepted) : op.socket = served.socket := by
  obtain ⟨address, origLen, socket, handler⟩ := own
  simp only [SendOp.queues] at queued
  rw [handler] at queued
  dsimp only [SendHandler.queues] at queued
  split at queued
  · cases queued
  · rw [List.mem_singleton.mp queued, socket]

theorem socket_of_asyncSendAll {op : SendOp Object Callback} {socket : Object} {buf : Bytes}
    {fn : Callback} (pushed : .push op ∈
      (Call.effects (.asyncSendAll socket buf fn : Call Object Nat Callback)).send) :
    op.socket = socket := by
  dsimp only [Call.effects, SendHandler.queues] at pushed
  split at pushed
  · cases pushed
  · simp only [List.map_cons, List.map_nil, List.mem_singleton, RoundStep.push.injEq] at pushed
    rw [pushed]

theorem Kept.connectionOf_responding (kept : Kept strict listener m base owed rearm)
    {address argument : Nat} {responses : List Response} {stack : List (Callback × Nat)}
    (running : m.stack = (.respond address responses, argument) :: stack) :
    ∃ index, m.world.connectionOf address = some index := by
  have phase := kept.phase
  rw [running] at phase
  cases phase with
  | responding =>
      obtain ⟨addresses, _, owed⟩ := kept.receiving
      have isOpen : address ∈ m.world.openAddresses := owed.mem_iff.mp (by simp)
      exact kept.consistent.connectionOf_client (openAddresses_subset isOpen)

theorem Traced.pushed (fresh : ∀ count used, alloc count used ∉ used) (traced : Traced m attributed)
    (kept : Kept True listener m base owed rearm)
    (stepped : m.step (host ops alloc listener) event = .ok after) {op : SendOp Object Callback}
    (pushed : .push op ∈ (m.effects (host ops alloc listener) event).send) :
    Answers after.world (op, answered m attributed) := by
  rcases Machine.pushed_send pushed with
    ⟨fn, argument, stack, world, call, next, running, resumed, pushed⟩ |
    ⟨quiet, served, rest, accepted, next, rfl, queued⟩
  · obtain ⟨world', _, _, resumed', rfl⟩ := Machine.step_of_running running stepped
    obtain ⟨rfl, _⟩ := Prod.mk.inj (Except.ok.inj (resumed'.symm.trans resumed))
    rcases resume_cases resumed with
      ⟨address, response, responses, rfl, rfl, asked⟩ | asked | ⟨_, _, _, _, asked⟩ |
      ⟨_, _, asked⟩ <;> cases asked
    · obtain ⟨index, known⟩ := kept.connectionOf_responding running
      refine ⟨address, index, socket_of_asyncSendAll pushed, ?_, ?_⟩
      · rw [answered, running]
        exact known
      · rw [Machine.proceed_world]
        exact known
    · cases pushed
    · cases pushed
  · obtain ⟨owner, later, todo, address, index, socket, rfl, known⟩ := traced.next next
    have waits := Rounds.mem_waiting next
    refine ⟨address, index, ?_, ?_, kept.connectionOf_step fresh stepped waits socket known⟩
    · exact ((kept.sending served waits).socket_of_queues queued).trans socket
    · rw [answered, quiet]
      dsimp only
      rw [todo]
      rfl

theorem Traced.step (fresh : ∀ count used, alloc count used ∉ used) (traced : Traced m attributed)
    (kept : Kept True listener m base owed rearm)
    (stepped : m.step (host ops alloc listener) event = .ok after) :
    Traced after (attributeSends (host ops alloc listener) m event attributed) where
  same := by
    obtain ⟨stop, context⟩ := Machine.step_effects stepped
    rw [context, attributeSends, Rounds.map_foldl, map_attributed, traced.same]
    rfl
  answers := by
    intro entry waits
    rcases Rounds.mem_waiting_foldl waits with earlier | pushed
    · obtain ⟨address, index, socket, owner, known⟩ := traced.answers entry earlier
      exact ⟨address, index, socket, owner,
        kept.connectionOf_step fresh stepped (traced.waits earlier) socket known⟩
    · obtain ⟨step, among, same⟩ := List.mem_map.mp pushed
      cases step with
      | push op =>
          cases same
          exact traced.pushed fresh kept stepped among
      | start | visit | finish => cases same

/-! ## What is left to send -/

/-- What has been submitted on a socket has been taken by it or waits. -/
structure Accounted (m : ServerMachine Store) : Prop where
  some : ∀ op ∈ m.context.send.waiting, op.buf ≠ []
  lengths : ∀ socket, (stream socket m.submitted).length =
    (stream socket m.accepted).length + (stream socket (pieces m.context.send.waiting)).length

theorem accounted_start (db : Store) : Accounted (start db) := ⟨nofun, fun _ => rfl⟩

theorem Accounted.of_waiting (accounted : Accounted m)
    (waiting : after.context.send.waiting = m.context.send.waiting)
    (submitted : after.submitted = m.submitted) (accepted : after.accepted = m.accepted) :
    Accounted after where
  some := by
    rw [waiting]
    exact accounted.some
  lengths := by
    rw [waiting, submitted, accepted]
    exact accounted.lengths

theorem callSendHandler_accounted (m : ServerMachine Store) (handler : SendHandler Object Callback)
    (res : Nat) (some : ∀ op ∈ m.context.send.waiting, op.buf ≠ [])
    (lengths : ∀ socket, (stream socket m.submitted).length =
      (stream socket m.accepted).length + (stream socket
        (pieces m.context.send.waiting ++ [(handler.data.socket, handler.buf.drop res)])).length) :
    Accounted (m.callSendHandler handler res) := by
  rw [Machine.callSendHandler]
  dsimp only
  split
  · rename_i nothing
    refine ⟨some, fun socket => ?_⟩
    have unchanged := lengths socket
    rw [List.length_eq_zero_iff.mp nothing, stream_append, stream_cons_empty, stream_nil,
      List.append_nil] at unchanged
    exact unchanged
  · rename_i more
    refine ⟨?_, fun socket => ?_⟩
    · rw [IOContext.asyncSend, Rounds.forall_waiting_push]
      exact ⟨some, fun none => more (List.length_eq_zero_iff.mpr none)⟩
    · rw [IOContext.asyncSend, Rounds.waiting_push, pieces_append]
      exact lengths socket

theorem Accounted.send {op : SendOp Object Callback} {rest : List (SendOp Object Callback)}
    {accepted : Nat} (accounted : Accounted m) (own : OwnSend op)
    (next : m.context.send.todo = op :: rest) (world : World Store) :
    Accounted ({ m with
      world, context := { m.context with send := m.context.send.visit true },
      accepted := m.accepted ++ [(op.socket, op.buf.take accepted)] }.invokeSend op.fn
        accepted) := by
  obtain ⟨address, origLen, same, handler⟩ := own
  rw [handler]
  apply callSendHandler_accounted
  · exact fun other member => accounted.some other (Rounds.mem_waiting_of_done next member)
  · intro socket
    dsimp only
    have before := accounted.lengths socket
    have cut := stream_cut_length socket op.socket op.buf accepted
    have whole : pieces (op :: (rest ++ m.context.send.fresh)) =
        [(op.socket, op.buf)] ++ pieces (rest ++ m.context.send.fresh) := rfl
    rw [Rounds.waiting_eq next, pieces_append, whole] at before
    rw [Rounds.waiting_done next, pieces_append, ← same]
    simp only [stream_append, List.length_append] at before ⊢
    omega

theorem Accounted.resume (accounted : Accounted m) {fn : Callback} {argument : Nat}
    {stack : List (Callback × Nat)} {world : World Store}
    {call : Option (Call Object Nat Callback)} {next : Option Callback}
    (resumed : Server.resume ops alloc fn argument m.world = .ok (world, call, next)) :
    Accounted ({ m with world }.proceed call next stack) := by
  rcases resume_cases resumed with
    ⟨address, response, responses, _, _, rfl⟩ | rfl | ⟨_, _, _, _, rfl⟩ | ⟨_, _, rfl⟩
  · dsimp only [Machine.proceed, Machine.perform]
    refine callSendHandler_accounted _ _ _ accounted.some fun socket => ?_
    dsimp only
    rw [stream_append, List.length_append, accounted.lengths, stream_append, List.length_append,
      Nat.add_assoc]
    rfl
  · exact accounted.of_waiting rfl rfl rfl
  · exact accounted.of_waiting rfl rfl rfl
  · exact accounted.of_waiting rfl rfl rfl

theorem Accounted.step (kept : Kept strict listener m base owed rearm) (accounted : Accounted m)
    (stepped : m.step (host ops alloc listener) event = .ok after) : Accounted after := by
  cases Machine.step_move stepped with
  | resume running resumed => exact accounted.resume resumed
  | call | start | «return» | passRecv | passAccept | passWait | accept | wait =>
      exact accounted.of_waiting rfl rfl rfl
  | select quiet outside =>
      obtain ⟨_, send, _, _⟩ := kept.idle outside
      exact accounted.of_waiting (Rounds.waiting_start _ |>.trans send.waiting_eq.symm) rfl rfl
  | recv quiet inside next fd_eq set fits arrived =>
      obtain ⟨_, _, rfl⟩ := (kept.quiet quiet).recvOp_of_waiting (Rounds.mem_waiting next)
      exact accounted.of_waiting rfl rfl rfl
  | passSend quiet inside none next =>
      exact accounted.of_waiting (Rounds.waiting_pass next) rfl rfl
  | send quiet inside none next =>
      exact accounted.send (kept.sending _ (Rounds.mem_waiting next)) next _
  | merge => exact accounted.of_waiting rfl rfl rfl

/-- When a connection is accepted, the sockets of closed handlers have taken all
that was submitted on them. -/
def SettledAtAccept (m : ServerMachine Store) : Event Callback → Prop
  | .accept _ => ∀ client ∈ m.world.clients, client.handler.closed = true →
      (stream (.client client.address) m.submitted).length =
        (stream (.client client.address) m.accepted).length
  | _ => True

instance (m : ServerMachine Store) (event : Event Callback) :
    Decidable (SettledAtAccept m event) :=
  match event with
  | .accept _ => inferInstanceAs (Decidable (∀ client ∈ m.world.clients,
      client.handler.closed = true → (stream (.client client.address) m.submitted).length =
        (stream (.client client.address) m.accepted).length))
  | .call _ | .run | .select _ _ | .recv _ | .send _ | .wait _ | .tick => .isTrue trivial

theorem Accounted.unsentAtAccept (accounted : Accounted m) (settled : SettledAtAccept m event) :
    UnsentAtAccept m event := by
  cases event with
  | accept fd =>
      intro client member closed op waits same
      have none := accounted.lengths (.client client.address)
      rw [settled client member closed, Nat.left_eq_add, List.length_eq_zero_iff, ← same] at none
      have piece : (op.socket, op.buf) ∈ pieces m.context.send.waiting :=
        List.mem_map.mpr ⟨op, waits, rfl⟩
      exact stream_ne_nil piece (accounted.some op waits) none
  | _ => trivial

/-! ## Responses stay apart -/

/-- When `accept_handler` destroys a client, no operation that waits names its
socket or its buffer. -/
def DestroysUnnamed (m : ServerMachine Store) : Prop :=
  ∀ fd stack, m.stack = (.acceptHandler, fd) :: stack →
    ∀ client ∈ (removeClosed [] m.world.clients).2,
      (∀ op ∈ m.context.recv.waiting,
        op.socket ≠ .client client.address ∧ op.buf.base ≠ client.address) ∧
      ∀ op ∈ m.context.send.waiting, op.socket ≠ .client client.address

/-- What a step sends is sent to the connection it answers, and to no other. -/
def SendsToAnswered (host : Host Object Nat Callback (World Store)) (m : ServerMachine Store)
    (attributed : Attributed) : Prop :=
  ∀ accepted after, m.step host (.send accepted) = .ok after →
    ∃ op index rest, attributed.todo = (op, some index) :: rest ∧
      after.world.connections = m.world.connections.modify index fun conn =>
        { conn with sent := conn.sent ++ op.buf.take accepted }

theorem Kept.destroysUnnamed (kept : Kept True listener m base owed rearm) :
    DestroysUnnamed m := by
  intro fd stack running client erased
  have phase := kept.phase
  rw [running] at phase
  cases phase with
  | accepting sorted unsent opened =>
      obtain ⟨_, same⟩ := accept_ok opened
      have clients : m.world.clients = base.clients := by
        rw [same]
      rw [clients, removeClosed_sorted sorted] at erased
      obtain ⟨member, closed⟩ := List.mem_filter.mp erased
      obtain ⟨addresses, recv, owed⟩ := kept.receiving
      rw [List.append_nil] at owed
      have apart : ∀ address ∈ addresses, address ≠ client.address := by
        intro address isIn same
        obtain ⟨other, among, isOpen, at_⟩ := mem_openAddresses.mp (owed.mem_iff.mp isIn)
        obtain rfl := kept.consistent.eq_of_address among member (at_.trans same)
        rw [closed] at isOpen
        cases isOpen
      refine ⟨fun op waits => ?_, unsent trivial client member closed⟩
      rw [recv] at waits
      obtain ⟨address, isIn, rfl⟩ := List.mem_map.mp waits
      exact ⟨fun same => apart address isIn (Object.client.inj same), apart address isIn⟩

theorem Traced.sendsToAnswered (traced : Traced m attributed)
    (kept : Kept strict listener m base owed rearm) :
    SendsToAnswered (host ops alloc listener) m attributed := by
  intro accepted after stepped
  cases Machine.step_move stepped with
  | @send _ op _ _ _ world quiet inside none next fd_eq set fits taken =>
      obtain ⟨owner, later, todo, address, index, socket, rfl, known⟩ := traced.next next
      refine ⟨op, index, later, todo, ?_⟩
      rw [Machine.invokeSend_world]
      replace taken : m.world.send op.socket (op.buf.take accepted) = .ok world := taken
      rw [socket] at taken
      exact (kept.quiet quiet).consistent.send_connections known taken

theorem run_traced (fresh : ∀ count used, alloc count used ∉ used) {events : List (Event Callback)}
    (kept : Kept True listener m base owed rearm) (accounted : Accounted m)
    (traced : Traced m attributed)
    (sorted : Machine.Along (host ops alloc listener) SortedAtAccept m events)
    (settled : Machine.Along (host ops alloc listener) SettledAtAccept m events)
    (ran : Machine.run (host ops alloc listener) m events = .ok after) :
    (∃ base owed rearm, Kept True listener after base owed rearm) ∧
      Traced after (attribution (host ops alloc listener) m attributed events) := by
  induction events generalizing m base owed rearm attributed with
  | nil =>
      cases ran
      exact ⟨⟨_, _, _, kept⟩, traced⟩
  | cons event events ih =>
      obtain ⟨next, stepped, ran⟩ := bind_ok_iff.mp ran
      obtain ⟨firstSorted, sorted⟩ := sorted
      obtain ⟨firstSettled, settled⟩ := settled
      rw [stepped] at sorted settled
      obtain ⟨_, _, _, later⟩ := kept.step fresh firstSorted
        (fun _ => accounted.unsentAtAccept firstSettled) stepped
      rw [attribution, stepped]
      exact ih later (accounted.step kept stepped) (traced.step fresh kept stepped) sorted settled
        ran

/-- As long as, whenever a connection is accepted, closed handlers stand behind
open ones and their sockets have taken all that was submitted on them, responses
reach their connections and no others, and no handler is destroyed that an
operation still names. -/
theorem responses_stay_apart (ops : DatabaseOps Store Coll) (alloc : Nat → List Nat → Nat)
    (fresh : ∀ count used, alloc count used ∉ used) (listener : Fd) (db : Store)
    (events : List (Event Callback))
    (sorted : Machine.Along (host ops alloc listener) SortedAtAccept (start db) events)
    (settled : Machine.Along (host ops alloc listener) SettledAtAccept (start db) events)
    (m : ServerMachine Store)
    (ran : Machine.run (host ops alloc listener) (start db) events = .ok m) :
    let attributed := attribution (host ops alloc listener) (start db) {} events
    attributed.map Prod.fst = m.context.send ∧
      SendsToAnswered (host ops alloc listener) m attributed ∧ DestroysUnnamed m ∧
      ∀ event, m.step (host ops alloc listener) event ≠ .error .dangling := by
  have traced : Traced (start db) {} := ⟨rfl, nofun⟩
  obtain ⟨⟨_, _, _, kept⟩, traced⟩ :=
    run_traced fresh (kept_start db) (accounted_start db) traced sorted settled ran
  exact ⟨traced.same, traced.sendsToAnswered kept, kept.destroysUnnamed,
    fun event => kept.not_dangling⟩

/-- A client connects, asks for a schema and leaves once it is answered; then
another one connects. -/
def farewell : List (Event Callback) :=
  [.select [3] [], .accept 5, .tick, .tick, .tick,
    .select [5] [], .recv [3, 1, 0, 0, 0, 117], .tick, .tick, .tick, .tick, .tick,
    .select [5] [5], .recv [], .tick, .send 1, .tick, .tick, .tick,
    .select [3] [], .accept 6]

theorem responses_stay_apart_farewell :
    (Machine.run (host (databaseOps noHash) nextAddress 3) (start {}) farewell).isOk = true ∧
    ∀ m, Machine.run (host (databaseOps noHash) nextAddress 3) (start {}) farewell = .ok m →
      let attributed := attribution (host (databaseOps noHash) nextAddress 3) (start {}) {} farewell
      attributed.map Prod.fst = m.context.send ∧
        SendsToAnswered (host (databaseOps noHash) nextAddress 3) m attributed ∧
        DestroysUnnamed m ∧
        ∀ event, m.step (host (databaseOps noHash) nextAddress 3) event ≠ .error .dangling :=
  ⟨by decide +kernel, responses_stay_apart (databaseOps noHash) nextAddress nextAddress_fresh 3 {}
    farewell (by decide +kernel) (by decide +kernel)⟩

/-- The client leaves while its socket cannot be written to, and the other one
connects before it can. -/
def intrusion : List (Event Callback) :=
  [.select [3] [], .accept 5, .tick, .tick, .tick,
    .select [5] [], .recv [3, 1, 0, 0, 0, 117], .tick, .tick, .tick, .tick, .tick,
    .select [5] [], .recv [], .tick, .tick, .tick, .tick,
    .select [3] [], .tick, .accept 6]

/-- The other client's socket becomes writable. -/
def intruded : List (Event Callback) :=
  intrusion ++ [.tick, .tick, .tick, .select [] [6], .tick]

/-- The connection that `accept_handler` is about to serve. -/
def accepting? (m : ServerMachine Store) : Option Nat :=
  match m.stack with
  | [(.acceptHandler, fd)] => some fd
  | _ => none

/-- The handler is destroyed while its response waits, which then goes to the
client whose handler has been put in its place. -/
theorem response_reaches_stranger :
    (∃ m, Machine.run (host (databaseOps noHash) nextAddress 3) (start {}) intrusion = .ok m ∧
      ¬ DestroysUnnamed m) ∧
    ∃ m, Machine.run (host (databaseOps noHash) nextAddress 3) (start {}) intruded = .ok m ∧
      ¬ SendsToAnswered (host (databaseOps noHash) nextAddress 3) m
        (attribution (host (databaseOps noHash) nextAddress 3) (start {}) {} intruded) := by
  constructor
  · have seen : (Machine.run (host (databaseOps noHash) nextAddress 3) (start {}) intrusion).map
        (fun m => (accepting? m, (removeClosed [] m.world.clients).2.map Client.address,
          m.context.send.waiting.map SendOp.socket)) = .ok (some 6, [1], [.client 1]) := by
      decide +kernel
    obtain ⟨m, ran, seen⟩ := exists_of_map_ok seen
    simp only [Prod.mk.injEq] at seen
    obtain ⟨running, erased, waiting⟩ := seen
    refine ⟨m, ran, fun unnamed => ?_⟩
    obtain ⟨client, member, address⟩ : ∃ client ∈ (removeClosed [] m.world.clients).2,
        client.address = 1 := List.mem_map.mp (by simp [erased])
    obtain ⟨op, waits, socket⟩ : ∃ op ∈ m.context.send.waiting, op.socket = .client 1 :=
      List.mem_map.mp (by simp [waiting])
    unfold accepting? at running
    split at running
    · rename_i stack
      exact (unnamed _ _ stack client member).2 op waits (address ▸ socket)
    · cases running
  · have seen : (Machine.run (host (databaseOps noHash) nextAddress 3) (start {}) intruded).map
        (fun m => (m.world.connections.map Connection.sent,
          (m.step (host (databaseOps noHash) nextAddress 3) (.send 1)).map fun after =>
            after.world.connections.map Connection.sent)) = .ok ([[], []], .ok [[], [4]]) := by
      decide +kernel
    have owners : (attribution (host (databaseOps noHash) nextAddress 3) (start {}) {}
        intruded).todo.map Prod.snd = [some 0] := by
      decide +kernel
    obtain ⟨m, ran, seen⟩ := exists_of_map_ok seen
    simp only [Prod.mk.injEq] at seen
    obtain ⟨before, sent⟩ := seen
    obtain ⟨after, stepped, sent⟩ := exists_of_map_ok sent
    refine ⟨m, ran, fun answered => ?_⟩
    obtain ⟨op, index, rest, todo, connections⟩ := answered 1 after stepped
    rw [todo] at owners
    obtain rfl : index = 0 := by simpa using (List.cons.inj owners).1
    have stranger : (after.world.connections.map Connection.sent)[1]? =
        (m.world.connections.map Connection.sent)[1]? := by
      rw [connections]
      simp
    rw [sent, before] at stranger
    cases stranger

end Boutique.Server
