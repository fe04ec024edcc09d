import Boutique.Io.Moves

namespace Boutique.Io

open Boutique.Data

variable {Addr Buf κ World : Type}

/-- The program sends by `async_send_all` alone. -/
def Host.SendsAll (host : Host Addr Buf κ World) : Prop :=
  ∀ fn argument world world' socket buf resFn next,
    host.resume fn argument world ≠ .ok (world', some (.asyncSend socket buf resFn), next)

/-- Sockets keep their descriptors. -/
def Host.Still (host : Host Addr Buf κ World) : Prop :=
  ∀ world world' object, host.fd world object = host.fd world' object

/-- The callback is the handler that keeps on sending the operation's bytes. -/
def SendOp.Resumable (op : SendOp Addr κ) : Prop :=
  ∃ data, op.fn = .handler { data, buf := op.buf } ∧ data.socket = op.socket

/-- What send operations have yet to send, with their sockets. -/
def pieces (ops : List (SendOp Addr κ)) : List (Addr × Bytes) :=
  ops.map fun op => (op.socket, op.buf)

theorem pieces_append (front back : List (SendOp Addr κ)) :
    pieces (front ++ back) = pieces front ++ pieces back := List.map_append

theorem pieces_apart {ops : List (SendOp Addr κ)} {socket : Addr}
    (apart : ∀ op ∈ ops, op.socket ≠ socket) : ∀ piece ∈ pieces ops, piece.1 ≠ socket := by
  intro piece member
  obtain ⟨op, among, rfl⟩ := List.mem_map.mp member
  exact apart op among

namespace Machine

variable {host : Host Addr Buf κ World} {m after : Machine Addr Buf κ World} {event : Event κ}

/-- The send operation that `event` serves, if any, is the first of its socket
that waits. -/
def Foremost (m : Machine Addr Buf κ World) (event : Event κ) : Prop :=
  match m.context.send.todo, event with
  | op :: _, .send _ => ∀ other ∈ m.context.send.kept, other.socket ≠ op.socket
  | _, _ => True

/-- The send operation that `event` serves, if any, has no other of its socket
behind it, unless the socket takes all of it. -/
def Alone (m : Machine Addr Buf κ World) (event : Event κ) : Prop :=
  match m.context.send.todo, event with
  | op :: rest, .send accepted => accepted < op.buf.length →
      ∀ other ∈ rest ++ m.context.send.fresh, other.socket ≠ op.socket
  | _, _ => True

def InTurn (m : Machine Addr Buf κ World) (event : Event κ) : Prop :=
  m.Foremost event ∧ m.Alone event

theorem InTurn.of_next {op : SendOp Addr κ} {rest : List (SendOp Addr κ)} {accepted : Nat}
    (inTurn : m.InTurn (.send accepted)) (next : m.context.send.todo = op :: rest) :
    (∀ other ∈ m.context.send.kept, other.socket ≠ op.socket) ∧
      (accepted < op.buf.length →
        ∀ other ∈ rest ++ m.context.send.fresh, other.socket ≠ op.socket) := by
  unfold InTurn Foremost Alone at inTurn
  rw [next] at inTurn
  exact inTurn

section

variable [DecidableEq Addr]

instance (m : Machine Addr Buf κ World) (event : Event κ) : Decidable (m.InTurn event) := by
  unfold InTurn Foremost Alone
  split <;> infer_instance

/-- The bytes submitted on a socket are those accepted there and then those that
wait, in the order of the queue. -/
structure InStep (m : Machine Addr Buf κ World) : Prop where
  resumable : ∀ op ∈ m.context.send.waiting, op.Resumable
  streams : ∀ socket, stream socket m.submitted =
    stream socket m.accepted ++ stream socket (pieces m.context.send.waiting)
  idle : m.ready = none → m.context.send.Idle

theorem InStep.of_waiting (inStep : m.InStep)
    (waiting : after.context.send.waiting = m.context.send.waiting)
    (submitted : after.submitted = m.submitted) (accepted : after.accepted = m.accepted)
    (idle : after.ready = none → after.context.send.Idle) : after.InStep where
  resumable := by
    rw [waiting]
    exact inStep.resumable
  streams := by
    rw [waiting, submitted, accepted]
    exact inStep.streams
  idle := idle

/-- What the handler has left to send waits behind everything else. -/
theorem callSendHandler_inStep (m : Machine Addr Buf κ World) (handler : SendHandler Addr κ)
    (res : Nat) (resumable : ∀ op ∈ m.context.send.waiting, op.Resumable)
    (streams : ∀ socket, stream socket m.submitted = stream socket m.accepted ++ stream socket
      (pieces m.context.send.waiting ++ [(handler.data.socket, handler.buf.drop res)]))
    (idle : m.ready = none → m.context.send.Idle) : (m.callSendHandler handler res).InStep := by
  rw [callSendHandler]
  dsimp only
  split
  · rename_i nothing
    refine ⟨resumable, fun socket => ?_, idle⟩
    have unchanged := streams socket
    rw [List.length_eq_zero_iff.mp nothing, stream_append, stream_cons_empty, stream_nil,
      List.append_nil] at unchanged
    exact unchanged
  · refine ⟨?_, fun socket => ?_, idle⟩
    · rw [IOContext.asyncSend, Rounds.forall_waiting_push]
      exact ⟨resumable, handler.data, rfl, rfl⟩
    · rw [IOContext.asyncSend, Rounds.waiting_push, pieces_append]
      exact streams socket

/-! ## Steps -/

theorem InStep.perform (inStep : m.InStep) (call : Call Addr Buf κ)
    (notRaw : ∀ socket buf fn, call ≠ .asyncSend socket buf fn) : (m.perform call).InStep := by
  cases call with
  | asyncRecv | asyncAccept | asyncWait | stop =>
      exact ⟨inStep.resumable, inStep.streams, inStep.idle⟩
  | asyncSend socket buf fn => exact absurd rfl (notRaw socket buf fn)
  | asyncRecvAll socket buf len fn =>
      rw [Machine.perform, callRecvHandler]
      dsimp only
      split <;> exact ⟨inStep.resumable, inStep.streams, inStep.idle⟩
  | asyncSendAll socket buf fn =>
      rw [Machine.perform]
      refine callSendHandler_inStep _ _ _ inStep.resumable (fun other => ?_) inStep.idle
      dsimp only
      rw [stream_append, inStep.streams, stream_append, List.append_assoc]
      rfl

theorem InStep.proceed (inStep : m.InStep) (call : Option (Call Addr Buf κ))
    (notRaw : ∀ socket buf fn, call ≠ some (.asyncSend socket buf fn)) (next : Option κ)
    (stack : List (κ × Nat)) : (m.proceed call next stack).InStep := by
  have kept : InStep { m with stack := (next.map fun fn => (fn, 0)).toList ++ stack } :=
    ⟨inStep.resumable, inStep.streams, inStep.idle⟩
  cases call with
  | none => exact kept
  | some call =>
      apply kept.perform
      intro socket buf fn same
      exact notRaw socket buf fn (congrArg some same)

/-- A send in turn: the operation waits in front of its stream, and what is left
of it waits there again. -/
theorem InStep.send {op : SendOp Addr κ} {rest : List (SendOp Addr κ)} {ready : Ready}
    {accepted : Nat} (inStep : m.InStep) (inside : m.ready = some ready)
    (next : m.context.send.todo = op :: rest) (inTurn : m.InTurn (.send accepted))
    (world : World) :
    ({ m with
      world, context := { m.context with send := m.context.send.visit true },
      accepted := m.accepted ++ [(op.socket, op.buf.take accepted)] }.invokeSend op.fn
        accepted).InStep := by
  obtain ⟨first, alone⟩ := inTurn.of_next next
  have waiting := Rounds.waiting_eq next
  have done := Rounds.waiting_done next
  obtain ⟨data, handler, same⟩ := inStep.resumable op (Rounds.mem_waiting next)
  rw [handler]
  apply callSendHandler_inStep
  · intro other member
    exact inStep.resumable other (Rounds.mem_waiting_of_done next member)
  · intro socket
    dsimp only
    have behind : op.buf.drop accepted ≠ [] →
        ∀ piece ∈ pieces (rest ++ m.context.send.fresh), piece.1 ≠ op.socket := by
      intro more
      apply pieces_apart
      apply alone
      rw [← List.length_pos_iff, List.length_drop] at more
      omega
    have before : pieces m.context.send.waiting = pieces m.context.send.kept ++
        (op.socket, op.buf) :: pieces (rest ++ m.context.send.fresh) := by
      rw [waiting, pieces_append]
      rfl
    have later : pieces (m.context.send.visit true).waiting =
        pieces m.context.send.kept ++ pieces (rest ++ m.context.send.fresh) := by
      rw [done, pieces_append]
    have moved := stream_served (pieces_apart first) accepted behind socket
    rw [inStep.streams, before, moved, later, same, ← List.append_assoc, ← stream_append,
      List.append_assoc]
  · intro outside
    rw [inside] at outside
    cases outside

theorem InStep.step (inStep : m.InStep) (sendsAll : host.SendsAll) (inTurn : m.InTurn event)
    (stepped : m.step host event = .ok after) : after.InStep := by
  cases step_move stepped with
  | resume running resumed =>
      rename_i world call next
      have kept : InStep { m with world } := ⟨inStep.resumable, inStep.streams, inStep.idle⟩
      apply kept.proceed
      intro socket buf fn raw
      subst raw
      exact sendsAll _ _ _ _ _ _ _ _ resumed
  | call | start | «return» => exact ⟨inStep.resumable, inStep.streams, inStep.idle⟩
  | select quiet outside running stop =>
      have same : m.context.send.start.waiting = m.context.send.waiting := by
        rw [Rounds.waiting_start, (inStep.idle outside).waiting_eq]
      exact inStep.of_waiting same rfl rfl nofun
  | passRecv | passAccept | passWait | accept | wait =>
      exact ⟨inStep.resumable, inStep.streams, inStep.idle⟩
  | @recv _ op =>
      cases op.fn with
      | user fn => exact ⟨inStep.resumable, inStep.streams, inStep.idle⟩
      | handler handler =>
          rw [invokeRecv, callRecvHandler]
          dsimp only
          split <;> exact ⟨inStep.resumable, inStep.streams, inStep.idle⟩
  | passSend quiet inside none next =>
      exact inStep.of_waiting (Rounds.waiting_pass next) rfl rfl
        fun outside => absurd (inside.symm.trans outside) nofun
  | send quiet inside none next => exact inStep.send inside next inTurn _
  | merge => exact ⟨inStep.resumable, inStep.streams, fun _ => Rounds.idle_finish _⟩

theorem inStep_start (world : World) : InStep { world : Machine Addr Buf κ World } where
  resumable := nofun
  streams _ := rfl
  idle _ := ⟨rfl, rfl⟩

theorem inStep_of_run {world : World} {events : List (Event κ)} (sendsAll : host.SendsAll)
    (ran : run host { world } events = .ok m) (inTurn : Along host InTurn { world } events) :
    m.InStep :=
  run_preserves (fun _ _ _ inStep inTurn stepped => inStep.step sendsAll inTurn stepped)
    (inStep_start world) inTurn ran

theorem InStep.isPrefix (inStep : m.InStep) (socket : Addr) :
    stream socket m.accepted <+: stream socket m.submitted := by
  rw [inStep.streams socket]
  exact List.prefix_append _ _

/-- As long as every send is in turn, each socket has at any moment taken a front
part of what was submitted to it, in the order of the calls. -/
theorem accepted_prefix_submitted (host : Host Addr Buf κ World) (sendsAll : host.SendsAll)
    (world : World) (events : List (Event κ)) (m : Machine Addr Buf κ World)
    (ran : run host { world } events = .ok m) (inTurn : Along host InTurn { world } events)
    (socket : Addr) : stream socket m.accepted <+: stream socket m.submitted :=
  (inStep_of_run sendsAll ran inTurn).isPrefix socket

end

/-! ## Sockets that keep their descriptors

An operation is passed over because its descriptor is not set. As long as its
socket keeps that, it holds for every later operation of the socket as well. -/

/-- The sockets of the operations passed over are not set. -/
def Skipped (host : Host Addr Buf κ World) (m : Machine Addr Buf κ World) : Prop :=
  ∀ ready, m.ready = some ready → ∀ op ∈ m.context.send.kept, ∀ fd,
    fdOf host m.world op.socket = .ok fd → fd ∉ ready.write

theorem callSendHandler_kept (m : Machine Addr Buf κ World) (handler : SendHandler Addr κ)
    (res : Nat) : (m.callSendHandler handler res).context.send.kept = m.context.send.kept ∧
      (m.callSendHandler handler res).ready = m.ready := by
  rw [callSendHandler]
  dsimp only
  split <;> exact ⟨rfl, rfl⟩

theorem callRecvHandler_kept (m : Machine Addr Buf κ World) (handler : RecvHandler Addr Buf κ)
    (res : Nat) : (m.callRecvHandler handler res).context.send.kept = m.context.send.kept ∧
      (m.callRecvHandler handler res).ready = m.ready := by
  rw [callRecvHandler]
  dsimp only
  split <;> exact ⟨rfl, rfl⟩

theorem proceed_kept (m : Machine Addr Buf κ World) (call : Option (Call Addr Buf κ))
    (next : Option κ) (stack : List (κ × Nat)) :
    (m.proceed call next stack).context.send.kept = m.context.send.kept ∧
      (m.proceed call next stack).ready = m.ready := by
  cases call with
  | none => exact ⟨rfl, rfl⟩
  | some call =>
      cases call with
      | asyncRecv | asyncSend | asyncAccept | asyncWait | stop => exact ⟨rfl, rfl⟩
      | asyncRecvAll => exact callRecvHandler_kept _ _ _
      | asyncSendAll => exact callSendHandler_kept _ _ _

theorem fdOf_still (still : host.Still) (world world' : World) (object : Addr) :
    fdOf host world object = fdOf host world' object := by
  rw [fdOf, fdOf, still world world']

theorem Skipped.of_kept (still : host.Still) (skipped : m.Skipped host)
    (kept : after.context.send.kept = m.context.send.kept ∧ after.ready = m.ready) :
    after.Skipped host := by
  intro sets inside op member fd known
  rw [kept.2] at inside
  rw [kept.1] at member
  rw [fdOf_still still after.world m.world] at known
  exact skipped sets inside op member fd known

theorem Skipped.step (still : host.Still) (skipped : m.Skipped host)
    (stepped : m.step host event = .ok after) : after.Skipped host := by
  cases step_move stepped with
  | resume => exact skipped.of_kept still (proceed_kept _ _ _ _)
  | call | start | «return» | passRecv | passAccept | passWait | accept | wait =>
      exact skipped.of_kept still ⟨rfl, rfl⟩
  | select =>
      intro _ _ op member
      cases member
  | @recv _ op =>
      cases op.fn with
      | user fn => exact skipped.of_kept still ⟨rfl, rfl⟩
      | handler handler => exact skipped.of_kept still (callRecvHandler_kept _ _ _)
  | @passSend ready op rest fd quiet inside none next known unset =>
      intro sets inside' other member fd' known'
      obtain rfl : ready = sets := Option.some.inj (inside.symm.trans inside')
      rw [Rounds.kept_pass next, List.mem_append, List.mem_singleton] at member
      rcases member with member | rfl
      · exact skipped ready inside other member fd' known'
      · obtain rfl : fd = fd' := Except.ok.inj (known.symm.trans known')
        exact unset
  | @send ready op rest fd accepted world quiet inside none next =>
      have done := Rounds.kept_done next
      cases op.fn with
      | user fn => exact skipped.of_kept still ⟨done, rfl⟩
      | handler handler =>
          obtain ⟨kept, ready⟩ := callSendHandler_kept
            { m with
              world, context := { m.context with send := m.context.send.visit true },
              accepted := m.accepted ++ [(op.socket, op.buf.take accepted)] } handler accepted
          exact skipped.of_kept still ⟨kept.trans done, ready⟩
  | merge => nofun

theorem Skipped.foremost (skipped : m.Skipped host)
    (stepped : m.step host event = .ok after) : m.Foremost event := by
  unfold Foremost
  split
  · rename_i op rest accepted next
    cases step_move stepped with
    | @send ready op' rest' fd _ _ quiet inside none next' known set =>
        intro other member same
        cases next.symm.trans next'
        exact skipped ready inside other member fd (by rw [same, known]) set
  · exact trivial

theorem along_inTurn_of_still (still : host.Still) {events : List (Event κ)}
    (skipped : m.Skipped host) (ran : run host m events = .ok after)
    (alone : Along host Alone m events) : Along host InTurn m events := by
  induction events generalizing m with
  | nil => exact trivial
  | cons event events ih =>
      obtain ⟨next, stepped, ran⟩ := bind_ok_iff.mp ran
      obtain ⟨meets, alone⟩ := alone
      refine ⟨⟨?_, meets⟩, ?_⟩
      · exact skipped.foremost stepped
      · rw [stepped] at alone ⊢
        exact ih (skipped.step still stepped) ran alone

/-- While sockets keep their descriptors, only a send that is taken in part with
another one of its socket behind it can upset the order. -/
theorem accepted_prefix_of_still [DecidableEq Addr] (sendsAll : host.SendsAll) (still : host.Still)
    {world : World} {events : List (Event κ)} (ran : run host { world } events = .ok m)
    (alone : Along host Alone { world } events) (socket : Addr) :
    stream socket m.accepted <+: stream socket m.submitted := by
  have skipped : Skipped host { world } := nofun
  exact (inStep_of_run sendsAll ran (along_inTurn_of_still still skipped ran alone)).isPrefix socket

/-! A program whose callbacks are scripts: payloads to send, with their sockets. -/

def scripted : Host Nat Unit (List (Nat × Bytes)) Unit where
  fd _ socket := some socket
  recv world _ _ _ := .ok world
  send world _ _ := .ok world
  accept world _ _ := .ok world
  resume script _ world :=
    match script with
    | [] => .ok (world, none, none)
    | (socket, payload) :: script =>
      .ok (world, some (.asyncSendAll socket payload []), some script)

theorem scripted_sendsAll : scripted.SendsAll := by
  intro script argument world world' socket buf resFn next raw
  cases script with
  | nil => cases raw
  | cons payload script => cases raw

/-- Two payloads on one socket, the second in two parts, and one on another. -/
def threePayloads : List (Event (List (Nat × Bytes))) :=
  [.call [(5, [1, 2]), (5, [3, 4, 5]), (6, [7])], .tick, .tick, .tick, .tick, .run,
    .select [] [5, 6], .send 2, .tick, .send 1, .send 1, .tick, .tick,
    .select [] [5], .send 2, .tick]

theorem accepted_prefix_submitted_scripted : ∃ m,
    run scripted { world := () } threePayloads = .ok m ∧ stream 5 m.accepted = [1, 2, 3, 4, 5] ∧
    ∀ socket, stream socket m.accepted <+: stream socket m.submitted :=
  ⟨_, rfl, by decide, accepted_prefix_submitted scripted scripted_sendsAll () threePayloads _ rfl
    (by decide +kernel)⟩

/-- A payload is accepted in part, and the next one goes out before its rest. -/
theorem partial_send_overtaken : scripted.SendsAll ∧ ∃ m,
    run scripted { world := () } [.call [(5, [1, 2, 3]), (5, [4, 5])], .tick, .tick, .tick, .run,
      .select [] [5], .send 1, .send 2] = .ok m ∧
    stream 5 m.submitted = [1, 2, 3, 4, 5] ∧ stream 5 m.accepted = [1, 4, 5] ∧
    ¬ stream 5 m.accepted <+: stream 5 m.submitted := by
  refine ⟨scripted_sendsAll, _, rfl, by decide, by decide, by decide⟩

end Machine

end Boutique.Io
