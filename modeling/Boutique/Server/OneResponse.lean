import Boutique.Server.Serial

namespace Boutique.Server

open Boutique.Core Boutique.Data Boutique.Io Boutique.Protocol World

/-! # Connections that wait for one response at a time

As long as each handler has one response to send at most, sends are in turn,
however little the kernel takes at a time. -/

variable {Store Coll : Type} {ops : DatabaseOps Store Coll} {alloc : Nat → List Nat → Nat}
  {listener : Fd} {m after : ServerMachine Store} {base : World Store} {owed : List Nat}
  {rearm : List (AcceptOp Object Callback)} {event : Event Callback}

/-- No two sends wait for one socket, and none behind a response that is to come. -/
structure OneEach (m : ServerMachine Store) : Prop where
  full : ∀ op ∈ m.context.send.waiting, op.buf ≠ []
  apart : (m.context.send.waiting.map SendOp.socket).Nodup
  next : ∀ address responses argument stack,
    m.stack = (.respond address responses, argument) :: stack → responses.length ≤ 1 ∧
      (responses ≠ [] → ∀ op ∈ m.context.send.waiting, op.socket ≠ .client address)

theorem oneEach_start (db : Store) : OneEach (start db) := ⟨nofun, .nil, nofun⟩

theorem OneEach.of_waiting (one : OneEach m)
    (waiting : after.context.send.waiting = m.context.send.waiting)
    (next : ∀ address responses argument stack,
      after.stack = (.respond address responses, argument) :: stack → responses.length ≤ 1 ∧
        (responses ≠ [] → ∀ op ∈ m.context.send.waiting, op.socket ≠ .client address)) :
    OneEach after where
  full := by
    rw [waiting]
    exact one.full
  apart := by
    rw [waiting]
    exact one.apart
  next := by
    rw [waiting]
    exact next

/-- Whatever is accepted of a send, nothing else waits for its socket. -/
theorem OneEach.inTurn (one : OneEach m) (event : Event Callback) : m.InTurn event := by
  have apart := one.apart
  unfold Machine.InTurn Machine.Foremost Machine.Alone
  split
  · rename_i op rest accepted next
    rw [Rounds.waiting_eq next, List.map_append, List.map_cons, List.nodup_append,
      List.nodup_cons] at apart
    obtain ⟨_, ⟨behind, _⟩, front⟩ := apart
    constructor
    · intro other among
      exact front _ (List.mem_map_of_mem among) _ List.mem_cons_self
    · intro _ other among same
      exact behind (same ▸ List.mem_map_of_mem among)
  · exact ⟨trivial, trivial⟩

/-- A handler that runs responds to one command at most, and only where nothing waits. -/
def Answering (m after : ServerMachine Store) : Prop :=
  ∀ address count other responses argument stack, m.stack = [(.recvHandler address, count)] →
    after.stack = (.respond other responses, argument) :: stack → responses.length ≤ 1 ∧
      (responses ≠ [] → ∀ op ∈ m.context.send.waiting, op.socket ≠ .client other)

theorem OneEach.respond {address argument : Nat} {responses : List Response} (one : OneEach m)
    (running : m.stack = [(.respond address responses, argument)])
    {world : World Store} {call : Option (Call Object Nat Callback)} {next : Option Callback}
    (resumed : resume ops alloc (.respond address responses) argument m.world =
      .ok (world, call, next)) : OneEach ({ m with world }.proceed call next []) := by
  obtain ⟨few, nothing⟩ := one.next address responses argument [] running
  cases responses with
  | nil =>
      cases resumed
      refine one.of_waiting rfl ?_
      intro other responses argument stack same
      cases same
  | cons response responses =>
      obtain rfl : responses = [] := by
        rw [List.length_cons] at few
        exact List.length_eq_zero_iff.mp (by omega)
      have some : (writeResponse response).length ≠ 0 :=
        fun none => writeResponse_ne_nil response (List.length_eq_zero_iff.mp none)
      cases resumed
      dsimp only [Machine.proceed, Machine.perform, Machine.callSendHandler]
      rw [List.drop_zero, if_neg some]
      refine ⟨?_, ?_, ?_⟩
      · exact (Rounds.forall_waiting_push _).mpr ⟨one.full, writeResponse_ne_nil response⟩
      · rw [IOContext.asyncSend, Rounds.waiting_push, List.map_append, List.nodup_append]
        refine ⟨one.apart, List.nodup_singleton _, ?_⟩
        intro socket among other same
        obtain ⟨op, waits, rfl⟩ := List.mem_map.mp among
        obtain rfl := List.mem_singleton.mp same
        exact nothing (List.cons_ne_nil _ _) op waits
      · intro other more argument stack same
        cases same
        exact ⟨Nat.zero_le _, fun some => absurd rfl some⟩

theorem resume_recvHandler_call {address argument : Nat} {before world : World Store}
    {call : Option (Call Object Nat Callback)} {next : Option Callback}
    (resumed : resume ops alloc (.recvHandler address) argument before = .ok (world, call, next)) :
    call = none := by
  simp only [resume] at resumed
  split at resumed
  · cases resumed
  · split at resumed
    · cases resumed
    · cases resumed
      rfl

theorem OneEach.resume (kept : Kept True listener m base owed rearm) (one : OneEach m)
    {fn : Callback} {argument : Nat} {stack : List (Callback × Nat)}
    (running : m.stack = (fn, argument) :: stack) {world : World Store}
    {call : Option (Call Object Nat Callback)} {next : Option Callback}
    (resumed : Server.resume ops alloc fn argument m.world = .ok (world, call, next))
    (answering : Answering m ({ m with world }.proceed call next stack)) :
    OneEach ({ m with world }.proceed call next stack) := by
  have phase := kept.phase
  rw [running] at phase
  cases phase with
  | receiving =>
      obtain rfl := resume_recvHandler_call resumed
      exact one.of_waiting rfl fun other responses _ _ => answering _ _ other responses _ _ running
  | responding => exact one.respond running resumed
  | accepting =>
      cases accepted : m.world.acceptHandler alloc argument with
      | mk later address =>
          simp only [Server.resume] at resumed
          rw [accepted] at resumed
          cases resumed
          refine one.of_waiting rfl ?_
          intro other responses argument stack same
          cases same
  | rearming | sent =>
      cases resumed
      refine one.of_waiting rfl ?_
      intro other responses argument stack same
      cases same

/-- What is left of a send takes its place. -/
theorem OneEach.send {op : SendOp Object Callback} {rest : List (SendOp Object Callback)}
    {accepted : Nat} {world : World Store} (kept : Kept True listener m m.world [] [])
    (one : OneEach m) (quiet : m.stack = []) (next : m.context.send.todo = op :: rest) :
    OneEach ({ m with
      world, context := { m.context with send := m.context.send.visit true },
      accepted := m.accepted ++ [(op.socket, op.buf.take accepted)] }.invokeSend op.fn
        accepted) := by
  obtain ⟨handler, fn_eq, socket, isSent, buf⟩ :=
    (kept.sending op (Rounds.mem_waiting next)).handler
  have apart := one.apart
  rw [Rounds.waiting_eq next, List.map_append, List.map_cons] at apart
  have moved := (List.perm_middle.nodup_iff.mp apart)
  rw [List.nodup_cons, ← List.map_append, ← Rounds.waiting_done next] at moved
  have full : ∀ other ∈ (m.context.send.visit true).waiting, other.buf ≠ [] :=
    fun other still => one.full other (Rounds.mem_waiting_of_done next still)
  rw [fn_eq]
  dsimp only [Machine.invokeSend, Machine.callSendHandler]
  split
  · refine ⟨full, moved.2, ?_⟩
    intro address responses argument stack same
    rw [Machine.enter, isSent] at same
    cases same
  · rename_i more
    refine ⟨?_, ?_, ?_⟩
    · refine (Rounds.forall_waiting_push _).mpr ⟨full, ?_⟩
      intro none
      exact more (List.length_eq_zero_iff.mpr none)
    · rw [IOContext.asyncSend, Rounds.waiting_push, List.map_append, List.nodup_append]
      refine ⟨moved.2, List.nodup_singleton _, ?_⟩
      intro other among same member equal
      obtain rfl := List.mem_singleton.mp member
      rw [equal, socket] at among
      exact moved.1 among
    · intro address responses argument stack same
      cases quiet.symm.trans same

/-- A step keeps that, if the handler does not respond too much. -/
theorem OneEach.step (kept : Kept True listener m base owed rearm) (one : OneEach m)
    (answering : Answering m after)
    (stepped : m.step (host ops alloc listener) event = .ok after) : OneEach after := by
  have still : m.stack = [] → after.stack = [] →
      after.context.send.waiting = m.context.send.waiting → OneEach after := by
    intro quiet quiet' waiting
    apply one.of_waiting waiting
    intro address responses argument stack same
    cases quiet'.symm.trans same
  cases Machine.step_move stepped with
  | resume running resumed => exact one.resume kept running resumed answering
  | call quiet outside running | start quiet outside running =>
      rw [kept.running] at running
      cases running
  | «return» quiet outside running stop =>
      rw [kept.going] at stop
      cases stop
  | select quiet outside running stop =>
      obtain ⟨_, send, _, _⟩ := kept.idle outside
      exact still quiet quiet (Rounds.waiting_start _ |>.trans send.waiting_eq.symm)
  | passRecv quiet | passAccept quiet | passWait quiet | merge quiet => exact still quiet quiet rfl
  | passSend quiet inside none next => exact still quiet quiet (Rounds.waiting_pass next)
  | recv quiet inside next fd_eq set fits arrived =>
      obtain ⟨address, _, rfl⟩ := (kept.quiet quiet).recvOp_of_waiting (Rounds.mem_waiting next)
      exact one.of_waiting rfl nofun
  | send quiet inside none next => exact one.send (kept.quiet quiet) quiet next
  | accept quiet inside none next =>
      obtain rfl := (kept.quiet quiet).acceptOp_of_waiting (Rounds.mem_waiting next)
      exact one.of_waiting rfl nofun
  | wait quiet inside next =>
      have timeless := kept.timeless
      rw [Rounds.waiting_eq next] at timeless
      simp at timeless

/-! ## Connections -/

/-- Where all that a connection has been issued is sent, nothing waits for its socket. -/
theorem OneEach.nothing_waits {address index : Nat} (one : OneEach m)
    (known : m.world.connectionOf address = some index) (none : unsent m index = []) :
    ∀ op ∈ m.context.send.waiting, op.socket ≠ .client address := by
  intro op waits same
  have owner : m.world.ownerOf op.socket = some index := by
    rw [same]
    exact known
  have piece : (m.world.ownerOf op.socket, op.buf) ∈ owing m := List.mem_map_of_mem waits
  rw [owner] at piece
  exact stream_ne_nil piece (one.full op waits) (List.append_eq_nil_iff.mp none).1

/-- A connection that has not been closed is that of a client. -/
theorem World.Consistent.client_of_connection {world : World Store} {index : Nat}
    {conn : Connection} (consistent : world.Consistent)
    (found : world.connections[index]? = some conn) (unreleased : conn.released = false) :
    ∃ client ∈ world.clients, client.socket = some conn.fd ∧
      world.connectionOf client.address = some index := by
  obtain ⟨client, member, socket⟩ :=
    consistent.holder conn (List.mem_of_getElem? found) unreleased
  obtain ⟨other, known⟩ := consistent.connectionOf_client (List.mem_map_of_mem member)
  obtain ⟨fd, holds, first⟩ := connectionOf_some_iff.mp known
  rw [consistent.client?_eq member, Option.bind_some, socket] at holds
  cases holds
  obtain ⟨inside, here, before⟩ := List.findIdx?_eq_some_iff_getElem.mp first
  obtain ⟨within, rfl⟩ := List.getElem?_eq_some_iff.mp found
  have distinct := consistent.descriptors
  rw [List.Nodup, List.pairwise_map, List.pairwise_filter] at distinct
  have same : other = index := by
    rcases Nat.lt_trichotomy other index with less | same | more
    · obtain ⟨equal, open'⟩ := of_decide_eq_true here
      exact absurd equal
        (List.pairwise_iff_getElem.mp distinct other index inside within less (by simp [open'])
          (by simp [unreleased]))
    · exact same
    · exact absurd (decide_eq_true ⟨rfl, unreleased⟩) (before index more)
  exact ⟨client, member, socket, same ▸ known⟩

/-- A connection whose descriptor has been closed has been reported to be at its end. -/
theorem Kept.finished {strict : Prop} {conn : Connection}
    (kept : Kept strict listener m base owed rearm) (inside : conn ∈ m.world.connections)
    (released : conn.released = true) : conn.ended = true := by
  have phase := kept.phase
  have finished := kept.consistent.finished
  generalize m.stack = stack at phase
  cases phase with
  | quiet | responding | rearming | sent => exact finished conn inside released
  | receiving arrived =>
      obtain ⟨fd, _, same⟩ := recv_ok arrived
      rw [same] at inside
      obtain ⟨before, among, rfl⟩ := List.mem_map.mp inside
      split at released
      · rename_i here
        cases released.symm.trans here.2
      · rename_i other
        rw [if_neg other]
        exact finished before among released
  | accepting sorted unsent opened =>
      obtain ⟨_, same⟩ := accept_ok opened
      rw [same] at inside
      rcases List.mem_append.mp inside with before | new
      · exact finished conn before released
      · cases List.mem_singleton.mp new
        cases released

/-- The server aborts in a handler only. -/
theorem aborts {fault : Fault}
    (failed : m.step (host ops alloc listener) event = .error (.aborted fault)) :
    ∃ address argument stack, m.stack = (.recvHandler address, argument) :: stack ∧
      Server.resume ops alloc (.recvHandler address) argument m.world =
        .error (.aborted fault) := by
  cases Machine.step_failure failed with
  | @resume fn argument stack _ running failed =>
      cases fn with
      | recvHandler address => exact ⟨address, argument, stack, running, failed⟩
      | respond address responses => cases responses <;> cases failed
      | acceptHandler | rearm | sent => cases failed
  | @recv object buf data _ failed =>
      replace failed : m.world.recv object buf data = .error (.aborted fault) := failed
      simp only [World.recv] at failed
      split at failed
      · cases failed
      · split at failed
        · split at failed <;> cases failed
        · cases failed
  | @send object data _ failed =>
      replace failed : m.world.send object data = .error (.aborted fault) := failed
      simp only [World.send] at failed
      split at failed
      · cases failed
      · split at failed <;> cases failed
  | @accept object conn _ failed =>
      replace failed : m.world.accept listener object conn = .error (.aborted fault) := failed
      simp only [World.accept] at failed
      split at failed
      · split at failed <;> cases failed
      · cases failed

/-- What the next step adds to the order is executed in it. -/
theorem Served.added {ordered : Prop} {db : Store} {history more : List (Nat × Command)}
    {issued answers : List (Nat × Response)} (served : Served ordered ops db m history issued)
    (later : Served ordered ops db after (history ++ more) (issued ++ answers)) :
    runAll (ownedStep (execute ops)) m.world.db more = .ok (after.world.db, answers) := by
  obtain ⟨middle, first, second, before, ran, same⟩ := runAll_append_iff.mp later.executed
  cases served.executed.symm.trans before
  rwa [List.append_cancel_left same]

end Boutique.Server
