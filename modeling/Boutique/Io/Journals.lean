import Boutique.Data.Journal
import Boutique.Io.SendOrder

namespace Boutique.Io

open Boutique.Data

/-! # What is queued and which callbacks are invoked -/

variable {Addr Buf κ World : Type}

/-- What happens to each of the four queues, in order. A visit with the outcome
`true` is the one that invokes the callback of its operation. -/
structure Effects (Addr Buf κ : Type) where
  recv : List (RoundStep (RecvOp Addr Buf κ)) := []
  send : List (RoundStep (SendOp Addr κ)) := []
  accept : List (RoundStep (AcceptOp Addr κ)) := []
  wait : List (RoundStep (WaitOp Addr κ)) := []

/-- What the head of the loop in `run` does. -/
def Effects.copyQueues : Effects Addr Buf κ :=
  { recv := [.start], send := [.start], accept := [.start], wait := [.start] }

/-- What the end of the loop in `run` does. -/
def Effects.mergeQueues : Effects Addr Buf κ :=
  { recv := [.finish], send := [.finish], accept := [.finish], wait := [.finish] }

def IOContext.apply (context : IOContext Addr Buf κ) (effects : Effects Addr Buf κ) :
    IOContext Addr Buf κ :=
  { context with
    recv := effects.recv.foldl Rounds.apply context.recv
    send := effects.send.foldl Rounds.apply context.send
    accept := effects.accept.foldl Rounds.apply context.accept
    wait := effects.wait.foldl Rounds.apply context.wait }

/-- What `RecvHandler::operator()` queues. -/
def RecvHandler.queues (handler : RecvHandler Addr Buf κ) (res : Nat) : List (RecvOp Addr Buf κ) :=
  let len := handler.len - res
  let buf := { handler.buf with offset := handler.buf.offset + res }
  if len = 0 then []
  else [{ socket := handler.data.socket, buf, maxlen := len,
          fn := .handler { handler with buf, len } }]

/-- What `SendHandler::operator()` queues. -/
def SendHandler.queues (handler : SendHandler Addr κ) (res : Nat) : List (SendOp Addr κ) :=
  let buf := handler.buf.drop res
  if buf.length = 0 then []
  else [{ socket := handler.data.socket, buf, fn := .handler { handler with buf } }]

/-- What the callback of a receive operation queues before it returns or runs on. -/
def RecvOp.queues (op : RecvOp Addr Buf κ) (res : Nat) : List (RecvOp Addr Buf κ) :=
  match op.fn with
  | .user _ => []
  | .handler handler => handler.queues res

def SendOp.queues (op : SendOp Addr κ) (res : Nat) : List (SendOp Addr κ) :=
  match op.fn with
  | .user _ => []
  | .handler handler => handler.queues res

def Call.effects : Call Addr Buf κ → Effects Addr Buf κ
  | .asyncRecv socket buf maxlen fn => { recv := [.push { socket, buf, maxlen, fn := .user fn }] }
  | .asyncSend socket buf fn => { send := [.push { socket, buf, fn := .user fn }] }
  | .asyncAccept socket fn => { accept := [.push { socket, fn }] }
  | .asyncWait timer fn => { wait := [.push { timer, fn }] }
  | .asyncRecvAll socket buf len resFn =>
      let handler : RecvHandler Addr Buf κ :=
        { data := { socket, origLen := len, resFn }, buf, len }
      { recv := (handler.queues 0).map .push }
  | .asyncSendAll socket buf resFn =>
      let handler : SendHandler Addr κ := { data := { socket, origLen := buf.length, resFn }, buf }
      { send := (handler.queues 0).map .push }
  | .stop => {}

namespace Machine

/-- What a round of the loops in `run` does. -/
def iterateEffects (m : Machine Addr Buf κ World) (event : Event κ) : Effects Addr Buf κ :=
  match m.context.recv.todo, m.context.send.todo, m.context.accept.todo, m.context.wait.todo with
  | op :: _, _, _, _ =>
      match event with
      | .recv data => { recv := .visit true :: (op.queues data.length).map .push }
      | _ => { recv := [.visit false] }
  | [], op :: _, _, _ =>
      match event with
      | .send accepted => { send := .visit true :: (op.queues accepted).map .push }
      | _ => { send := [.visit false] }
  | [], [], _ :: _, _ =>
      match event with
      | .accept _ => { accept := [.visit true] }
      | _ => { accept := [.visit false] }
  | [], [], [], _ :: _ =>
      match event with
      | .wait _ => { wait := [.visit true] }
      | _ => { wait := [.visit false] }
  | [], [], [], [] =>
      .mergeQueues

/-- What a step does to the queues. -/
def effects (host : Host Addr Buf κ World) (m : Machine Addr Buf κ World) (event : Event κ) :
    Effects Addr Buf κ :=
  match m.stack with
  | (fn, argument) :: _ =>
      match host.resume fn argument m.world with
      | .ok (_, some call, _) => call.effects
      | _ => {}
  | [] =>
      match m.ready with
      | none =>
          match event with
          | .select _ _ => .copyQueues
          | _ => {}
      | some _ => m.iterateEffects event

variable {host : Host Addr Buf κ World} {m after : Machine Addr Buf κ World} {event : Event κ}

/-! ## The effects are those of the steps -/

theorem callRecvHandler_context (m : Machine Addr Buf κ World)
    (handler : RecvHandler Addr Buf κ) (res : Nat) :
    (m.callRecvHandler handler res).context =
      m.context.apply { recv := (handler.queues res).map .push } := by
  simp only [callRecvHandler, RecvHandler.queues]
  split <;> rfl

theorem callSendHandler_context (m : Machine Addr Buf κ World) (handler : SendHandler Addr κ)
    (res : Nat) :
    (m.callSendHandler handler res).context =
      m.context.apply { send := (handler.queues res).map .push } := by
  simp only [callSendHandler, SendHandler.queues]
  split <;> rfl

theorem invokeRecv_context (m : Machine Addr Buf κ World) (op : RecvOp Addr Buf κ) (res : Nat) :
    (m.invokeRecv op.fn res).context =
      m.context.apply { recv := (op.queues res).map .push } := by
  simp only [invokeRecv, RecvOp.queues]
  cases op.fn with
  | user fn => rfl
  | handler handler => exact callRecvHandler_context m handler res

theorem invokeSend_context (m : Machine Addr Buf κ World) (op : SendOp Addr κ) (res : Nat) :
    (m.invokeSend op.fn res).context =
      m.context.apply { send := (op.queues res).map .push } := by
  simp only [invokeSend, SendOp.queues]
  cases op.fn with
  | user fn => rfl
  | handler handler => exact callSendHandler_context m handler res

theorem perform_context (m : Machine Addr Buf κ World) (call : Call Addr Buf κ) :
    ∃ stop, (m.perform call).context = { m.context.apply call.effects with stop } := by
  cases call with
  | asyncRecv | asyncSend | asyncAccept | asyncWait | stop => exact ⟨_, rfl⟩
  | asyncRecvAll => exact ⟨_, callRecvHandler_context m _ 0⟩
  | asyncSendAll => exact ⟨_, callSendHandler_context _ _ 0⟩

theorem serveRecv_context {op : RecvOp Addr Buf κ}
    (served : m.serveRecv host op event = .ok after) : ∃ data, event = .recv data ∧
      after.context =
        m.context.apply { recv := .visit true :: (op.queues data.length).map .push } := by
  simp only [serveRecv] at served
  split at served
  · split at served
    · obtain ⟨world, _, served⟩ := bind_ok_iff.mp served
      cases served
      exact ⟨_, rfl, invokeRecv_context _ op _⟩
    · cases served
  · cases served

theorem serveSend_context {op : SendOp Addr κ}
    (served : m.serveSend host op event = .ok after) : ∃ accepted, event = .send accepted ∧
      after.context =
        m.context.apply { send := .visit true :: (op.queues accepted).map .push } := by
  simp only [serveSend] at served
  split at served
  · split at served
    · obtain ⟨world, _, served⟩ := bind_ok_iff.mp served
      cases served
      exact ⟨_, rfl, invokeSend_context _ op _⟩
    · cases served
  · cases served

theorem serveAccept_context {op : AcceptOp Addr κ}
    (served : m.serveAccept host op event = .ok after) : ∃ fd, event = .accept fd ∧
      after.context = m.context.apply { accept := [.visit true] } := by
  simp only [serveAccept] at served
  split at served
  · obtain ⟨world, _, served⟩ := bind_ok_iff.mp served
    cases served
    exact ⟨_, rfl, rfl⟩
  · cases served

theorem serveWait_context {op : WaitOp Addr κ} (served : m.serveWait op event = .ok after) :
    ∃ count, event = .wait count ∧ after.context = m.context.apply { wait := [.visit true] } := by
  simp only [serveWait] at served
  split at served
  · cases served
    exact ⟨_, rfl, rfl⟩
  · cases served

theorem iterate_effects {ready : Ready} (stepped : m.iterate host ready event = .ok after) :
    after.context = m.context.apply (m.iterateEffects event) := by
  simp only [iterate] at stepped
  split at stepped
  · rename_i next
    simp only [iterateEffects, next]
    obtain ⟨_, _, ⟨_, served⟩ | ⟨_, rfl, rfl⟩⟩ := visit_ok stepped
    · obtain ⟨data, rfl, context⟩ := serveRecv_context served
      exact context
    · rfl
  · rename_i recv next
    simp only [iterateEffects, recv, next]
    obtain ⟨_, _, ⟨_, served⟩ | ⟨_, rfl, rfl⟩⟩ := visit_ok stepped
    · obtain ⟨accepted, rfl, context⟩ := serveSend_context served
      exact context
    · rfl
  · rename_i recv send next
    simp only [iterateEffects, recv, send, next]
    obtain ⟨_, _, ⟨_, served⟩ | ⟨_, rfl, rfl⟩⟩ := visit_ok stepped
    · obtain ⟨fd, rfl, context⟩ := serveAccept_context served
      exact context
    · rfl
  · rename_i recv send accept next
    simp only [iterateEffects, recv, send, accept, next]
    obtain ⟨_, _, ⟨_, served⟩ | ⟨_, rfl, rfl⟩⟩ := visit_ok stepped
    · obtain ⟨count, rfl, context⟩ := serveWait_context served
      exact context
    · rfl
  · rename_i recv send accept wait
    simp only [iterateEffects, recv, send, accept, wait]
    split at stepped
    · cases stepped
      rfl
    · cases stepped

theorem effects_resume {fn : κ} {argument : Nat} {stack : List (κ × Nat)}
    (running : m.stack = (fn, argument) :: stack) {world : World}
    {call : Option (Call Addr Buf κ)} {next : Option κ}
    (resumed : host.resume fn argument m.world = .ok (world, call, next)) :
    m.effects host event = (call.map Call.effects).getD {} := by
  simp only [effects, running, resumed]
  cases call with
  | none => rfl
  | some call => rfl

theorem effects_outside (quiet : m.stack = []) (outside : m.ready = none) :
    m.effects host event = match event with
      | .select _ _ => .copyQueues
      | _ => {} := by
  simp only [effects]
  rw [quiet, outside]

theorem effects_inside {ready : Ready} (quiet : m.stack = []) (inside : m.ready = some ready) :
    m.effects host event = m.iterateEffects event := by
  simp only [effects]
  rw [quiet, inside]

theorem step_effects (stepped : m.step host event = .ok after) :
    ∃ stop, after.context = { m.context.apply (m.effects host event) with stop } := by
  cases running : m.stack with
  | cons entry stack =>
      cases step_move stepped with
      | resume runs resumed =>
          rename_i call next
          rw [effects_resume runs resumed]
          cases call with
          | none => exact ⟨_, rfl⟩
          | some call => exact perform_context _ call
      | call quiet | start quiet | «return» quiet | select quiet | passRecv quiet | recv quiet
      | passSend quiet | send quiet | passAccept quiet | accept quiet | passWait quiet
      | wait quiet | merge quiet =>
          cases running.symm.trans quiet
  | nil =>
      cases round : m.ready with
      | none =>
          rw [effects_outside running round]
          cases step_move stepped with
          | resume runs => cases runs.symm.trans running
          | call | start | «return» | select => exact ⟨_, rfl⟩
          | passRecv _ inside | recv _ inside | passSend _ inside | send _ inside
          | passAccept _ inside | accept _ inside | passWait _ inside | wait _ inside
          | merge _ inside =>
              cases inside.symm.trans round
      | some ready =>
          rw [effects_inside running round]
          simp only [step] at stepped
          rw [running, round] at stepped
          exact ⟨_, iterate_effects stepped⟩

/-- A send operation is queued by a call of a callback that runs, or by the
handler of one that has been served. -/
theorem pushed_send {op : SendOp Addr κ}
    (pushed : .push op ∈ (m.effects host event).send) :
    (∃ fn argument stack world call next, m.stack = (fn, argument) :: stack ∧
      host.resume fn argument m.world = .ok (world, some call, next) ∧
      .push op ∈ call.effects.send) ∨
    m.stack = [] ∧ ∃ served rest accepted, m.context.send.todo = served :: rest ∧
      event = .send accepted ∧ op ∈ served.queues accepted := by
  simp only [effects] at pushed
  split at pushed
  · rename_i running
    left
    split at pushed
    · rename_i resumed
      exact ⟨_, _, _, _, _, _, running, resumed, pushed⟩
    · cases pushed
  · rename_i quiet
    right
    refine ⟨quiet, ?_⟩
    split at pushed
    · split at pushed <;> simp [Effects.copyQueues] at pushed
    · simp only [iterateEffects] at pushed
      split at pushed
      · split at pushed <;> simp at pushed
      · rename_i next
        split at pushed
        · exact ⟨_, _, _, next, rfl, by simpa using pushed⟩
        · simp at pushed
      · split at pushed <;> simp at pushed
      · split at pushed <;> simp at pushed
      · simp [Effects.mergeQueues] at pushed

/-! ## What the context does leaves the program's state alone -/

theorem callRecvHandler_world (m : Machine Addr Buf κ World) (handler : RecvHandler Addr Buf κ)
    (res : Nat) : (m.callRecvHandler handler res).world = m.world := by
  rw [callRecvHandler]
  dsimp only
  split <;> rfl

theorem callSendHandler_world (m : Machine Addr Buf κ World) (handler : SendHandler Addr κ)
    (res : Nat) : (m.callSendHandler handler res).world = m.world := by
  rw [callSendHandler]
  dsimp only
  split <;> rfl

theorem proceed_world (m : Machine Addr Buf κ World) (call : Option (Call Addr Buf κ))
    (next : Option κ) (stack : List (κ × Nat)) : (m.proceed call next stack).world = m.world := by
  cases call with
  | none => rfl
  | some call =>
      cases call with
      | asyncRecv | asyncSend | asyncAccept | asyncWait | stop => rfl
      | asyncRecvAll => exact callRecvHandler_world _ _ _
      | asyncSendAll => exact callSendHandler_world _ _ _

theorem invokeRecv_world (m : Machine Addr Buf κ World) (op : RecvOp Addr Buf κ) (res : Nat) :
    (m.invokeRecv op.fn res).world = m.world := by
  simp only [invokeRecv]
  cases op.fn with
  | user fn => rfl
  | handler handler => exact callRecvHandler_world m handler res

theorem invokeSend_world (m : Machine Addr Buf κ World) (op : SendOp Addr κ) (res : Nat) :
    (m.invokeSend op.fn res).world = m.world := by
  simp only [invokeSend]
  cases op.fn with
  | user fn => rfl
  | handler handler => exact callSendHandler_world m handler res

end Machine

/-! ## Journals of the four queues -/

structure Journals (Addr Buf κ : Type) where
  recv : Journal (RecvOp Addr Buf κ) := {}
  send : Journal (SendOp Addr κ) := {}
  accept : Journal (AcceptOp Addr κ) := {}
  wait : Journal (WaitOp Addr κ) := {}

def Journals.apply (journals : Journals Addr Buf κ) (effects : Effects Addr Buf κ) :
    Journals Addr Buf κ where
  recv := effects.recv.foldl Journal.apply journals.recv
  send := effects.send.foldl Journal.apply journals.send
  accept := effects.accept.foldl Journal.apply journals.accept
  wait := effects.wait.foldl Journal.apply journals.wait

/-- Each journal follows its queue. -/
structure Journals.Follow (journals : Journals Addr Buf κ) (context : IOContext Addr Buf κ) :
    Prop where
  recv : journals.recv.Follows context.recv
  send : journals.send.Follows context.send
  accept : journals.accept.Follows context.accept
  wait : journals.wait.Follows context.wait

/-- No iteration is under way in any of the queues. -/
structure IOContext.Idle (context : IOContext Addr Buf κ) : Prop where
  recv : context.recv.Idle
  send : context.send.Idle
  accept : context.accept.Idle
  wait : context.wait.Idle

theorem IOContext.Idle.call {context : IOContext Addr Buf κ} (idle : context.Idle)
    (call : Call Addr Buf κ) : (context.apply call.effects).Idle := by
  obtain ⟨recv, send, accept, wait⟩ := idle
  cases call with
  | asyncRecv | asyncSend | asyncAccept | asyncWait | stop => exact ⟨recv, send, accept, wait⟩
  | asyncRecvAll =>
      simp only [Call.effects, RecvHandler.queues]
      split <;> exact ⟨recv, send, accept, wait⟩
  | asyncSendAll =>
      simp only [Call.effects, SendHandler.queues]
      split <;> exact ⟨recv, send, accept, wait⟩

namespace Machine

/-- The journals of a run. -/
def journal (host : Host Addr Buf κ World) :
    Machine Addr Buf κ World → Journals Addr Buf κ → List (Event κ) → Journals Addr Buf κ
  | _, journals, [] => journals
  | m, journals, event :: events =>
      match m.step host event with
      | .error _ => journals
      | .ok after => journal host after (journals.apply (m.effects host event)) events

variable {host : Host Addr Buf κ World} {m after : Machine Addr Buf κ World} {event : Event κ}
  {journals : Journals Addr Buf κ}

section

variable {α : Type} {served : Prop}

/-- An operation is served first of all, and only if `served` holds. -/
def Serving (steps : List (RoundStep α)) (served : Prop) : Prop :=
  .visit true ∈ steps → served ∧ ∃ pushed : List α, steps = .visit true :: pushed.map .push

/-- Steps of a queue while no round starts. -/
def Within (steps : List (RoundStep α)) (served : Prop) : Prop :=
  .start ∉ steps ∧ Serving steps served

@[simp] theorem within_pushes (pushed : List α) : Within (pushed.map .push) served := by
  simp [Within, Serving]

@[simp] theorem within_push (element : α) : Within [.push element] served :=
  within_pushes [element]

@[simp] theorem within_nil : Within ([] : List (RoundStep α)) served := within_pushes []

@[simp] theorem within_pass : Within ([.visit false] : List (RoundStep α)) served := by
  simp [Within, Serving]

@[simp] theorem within_finish : Within ([.finish] : List (RoundStep α)) served := by
  simp [Within, Serving]

theorem within_serve (pushed : List α) (meets : served) :
    Within (.visit true :: pushed.map .push) served := by
  refine ⟨by simp, fun _ => ⟨meets, pushed, rfl⟩⟩

theorem within_done (meets : served) : Within ([.visit true] : List (RoundStep α)) served :=
  within_serve [] meets

end

/-- Rounds start together, at the head of an iteration, and otherwise each queue
has its operations served by events of its own. -/
theorem effects_cases (host : Host Addr Buf κ World) (m : Machine Addr Buf κ World)
    (event : Event κ) :
    m.ready = none ∧ m.effects host event = .copyQueues ∨
      Within (m.effects host event).recv (∃ data, event = .recv data) ∧
        Within (m.effects host event).send (∃ sent, event = .send sent) ∧
        Within (m.effects host event).accept (∃ conn, event = .accept conn) ∧
        Within (m.effects host event).wait (∃ count, event = .wait count) := by
  simp only [effects]
  split
  · right
    split
    · rename_i call _ _
      cases call <;> simp [Call.effects]
    · simp
  · split
    · rename_i outside
      split
      · exact .inl ⟨outside, rfl⟩
      · right
        simp
    · right
      simp only [iterateEffects]
      split
      · split
        · simp [within_serve]
        · simp
      · split
        · simp [within_serve]
        · simp
      · split
        · simp [within_done]
        · simp
      · split
        · simp [within_done]
        · simp
      · simp [Effects.mergeQueues]

theorem follow_apply (follow : journals.Follow m.context)
    (idle : m.ready = none → m.context.Idle) (stepped : m.step host event = .ok after) :
    (journals.apply (m.effects host event)).Follow after.context := by
  obtain ⟨stop, context⟩ := step_effects stepped
  rw [context]
  rcases effects_cases host m event with ⟨outside, same⟩ | ⟨recv, send, accept, wait⟩
  · have idle := idle outside
    rw [same]
    exact ⟨follow.recv.start idle.recv, follow.send.start idle.send,
      follow.accept.start idle.accept, follow.wait.start idle.wait⟩
  · exact ⟨follow.recv.foldl fun starts => absurd starts recv.1,
      follow.send.foldl fun starts => absurd starts send.1,
      follow.accept.foldl fun starts => absurd starts accept.1,
      follow.wait.foldl fun starts => absurd starts wait.1⟩

theorem invokeRecv_ready (m : Machine Addr Buf κ World) (op : RecvOp Addr Buf κ) (res : Nat) :
    (m.invokeRecv op.fn res).ready = m.ready := by
  simp only [invokeRecv]
  cases op.fn with
  | user fn => rfl
  | handler handler => exact (callRecvHandler_kept m handler res).2

theorem invokeSend_ready (m : Machine Addr Buf κ World) (op : SendOp Addr κ) (res : Nat) :
    (m.invokeSend op.fn res).ready = m.ready := by
  simp only [invokeSend]
  cases op.fn with
  | user fn => rfl
  | handler handler => exact (callSendHandler_kept m handler res).2

theorem idle_step (idle : m.ready = none → m.context.Idle)
    (stepped : m.step host event = .ok after) (outside : after.ready = none) :
    after.context.Idle := by
  cases step_move stepped with
  | @resume fn argument stack world call next =>
      have ready : m.ready = none := (proceed_kept { m with world } call next stack).2 ▸ outside
      cases call with
      | none => exact idle ready
      | some call =>
          obtain ⟨stop, context⟩ := perform_context
            { m with world, stack := (next.map fun fn => (fn, 0)).toList ++ stack } call
          have kept := (idle ready).call call
          rw [Machine.proceed, context]
          exact ⟨kept.recv, kept.send, kept.accept, kept.wait⟩
  | call | start | «return» =>
      have kept := idle outside
      exact ⟨kept.recv, kept.send, kept.accept, kept.wait⟩
  | select => cases outside
  | merge => exact ⟨Rounds.idle_finish _, Rounds.idle_finish _, Rounds.idle_finish _,
      Rounds.idle_finish _⟩
  | passRecv quiet inside | passSend quiet inside | passAccept quiet inside
  | passWait quiet inside | accept quiet inside | wait quiet inside =>
      exact absurd (inside.symm.trans outside) (by simp)
  | @recv _ op _ _ _ _ quiet inside =>
      have ready := (invokeRecv_ready _ op _).symm.trans outside
      exact absurd (inside.symm.trans ready) (by simp)
  | @send _ op _ _ _ _ quiet inside =>
      have ready := (invokeSend_ready _ op _).symm.trans outside
      exact absurd (inside.symm.trans ready) (by simp)

/-- An operation is served, and its callback invoked, by events of its queue and
by no others. -/
def Visits (effects : Effects Addr Buf κ) (event : Event κ) : Prop :=
  (.visit true ∈ effects.recv ↔ ∃ data, event = .recv data) ∧
    (.visit true ∈ effects.send ↔ ∃ sent, event = .send sent) ∧
    (.visit true ∈ effects.accept ↔ ∃ conn, event = .accept conn) ∧
    (.visit true ∈ effects.wait ↔ ∃ count, event = .wait count)

theorem iterate_visits {ready : Ready} (stepped : m.iterate host ready event = .ok after) :
    Visits (m.iterateEffects event) event := by
  simp only [iterate] at stepped
  split at stepped
  · rename_i next
    obtain ⟨_, _, ⟨_, served⟩ | ⟨_, rfl, rfl⟩⟩ := visit_ok stepped
    · obtain ⟨data, rfl, _⟩ := serveRecv_context served
      simp [Visits, iterateEffects, next]
    · simp [Visits, iterateEffects, next]
  · rename_i recv next
    obtain ⟨_, _, ⟨_, served⟩ | ⟨_, rfl, rfl⟩⟩ := visit_ok stepped
    · obtain ⟨accepted, rfl, _⟩ := serveSend_context served
      simp [Visits, iterateEffects, recv, next]
    · simp [Visits, iterateEffects, recv, next]
  · rename_i recv send next
    obtain ⟨_, _, ⟨_, served⟩ | ⟨_, rfl, rfl⟩⟩ := visit_ok stepped
    · obtain ⟨conn, rfl, _⟩ := serveAccept_context served
      simp [Visits, iterateEffects, recv, send, next]
    · simp [Visits, iterateEffects, recv, send, next]
  · rename_i recv send accept next
    obtain ⟨_, _, ⟨_, served⟩ | ⟨_, rfl, rfl⟩⟩ := visit_ok stepped
    · obtain ⟨count, rfl, _⟩ := serveWait_context served
      simp [Visits, iterateEffects, recv, send, accept, next]
    · simp [Visits, iterateEffects, recv, send, accept, next]
  · rename_i recv send accept wait
    split at stepped
    · simp [Visits, iterateEffects, Effects.mergeQueues, recv, send, accept, wait]
    · cases stepped

theorem effects_serving (host : Host Addr Buf κ World) (m : Machine Addr Buf κ World)
    (event : Event κ) :
    Serving (m.effects host event).recv (∃ data, event = .recv data) ∧
      Serving (m.effects host event).send (∃ sent, event = .send sent) ∧
      Serving (m.effects host event).accept (∃ conn, event = .accept conn) ∧
      Serving (m.effects host event).wait (∃ count, event = .wait count) := by
  rcases effects_cases host m event with ⟨_, same⟩ | ⟨recv, send, accept, wait⟩
  · rw [same]
    simp [Serving, Effects.copyQueues]
  · exact ⟨recv.2, send.2, accept.2, wait.2⟩

theorem step_visits (stepped : m.step host event = .ok after) :
    Visits (m.effects host event) event := by
  have serving := effects_serving host m event
  cases step_move stepped with
  | resume | call | start | «return» | select =>
      exact ⟨⟨fun visited => (serving.1 visited).1, by simp⟩,
        ⟨fun visited => (serving.2.1 visited).1, by simp⟩,
        ⟨fun visited => (serving.2.2.1 visited).1, by simp⟩,
        ⟨fun visited => (serving.2.2.2 visited).1, by simp⟩⟩
  | passRecv quiet inside | recv quiet inside | passSend quiet inside | send quiet inside
  | passAccept quiet inside | accept quiet inside | passWait quiet inside | wait quiet inside
  | merge quiet inside =>
      simp only [step, quiet, inside] at stepped
      rw [effects_inside quiet inside]
      exact iterate_visits stepped

/-- When an operation's callback is invoked, its descriptor is among those that
`select` has reported in the iteration under way. -/
structure InvokesReady (host : Host Addr Buf κ World) (journals : Journals Addr Buf κ)
    (m : Machine Addr Buf κ World) (event : Event κ) (after : Machine Addr Buf κ World) :
    Prop where
  events : Visits (m.effects host event) event
  recv : .visit true ∈ (m.effects host event).recv →
    ∃ ready op rest fd data world, event = .recv data ∧ m.ready = some ready ∧
      m.context.recv.todo = op :: rest ∧ fdOf host m.world op.socket = .ok fd ∧ fd ∈ ready.read ∧
      after = { m with
        world, context := { m.context with recv := m.context.recv.visit true } }.invokeRecv op.fn
          data.length ∧
      journals.recv.Serves op (journals.apply (m.effects host event)).recv
  send : .visit true ∈ (m.effects host event).send →
    ∃ ready op rest fd sent world, event = .send sent ∧ m.ready = some ready ∧
      m.context.send.todo = op :: rest ∧ fdOf host m.world op.socket = .ok fd ∧ fd ∈ ready.write ∧
      after = { m with
        world, context := { m.context with send := m.context.send.visit true },
        accepted := m.accepted ++ [(op.socket, op.buf.take sent)] }.invokeSend op.fn sent ∧
      journals.send.Serves op (journals.apply (m.effects host event)).send
  accept : .visit true ∈ (m.effects host event).accept →
    ∃ ready op rest fd conn world, event = .accept conn ∧ m.ready = some ready ∧
      m.context.accept.todo = op :: rest ∧ fdOf host m.world op.socket = .ok fd ∧
      fd ∈ ready.read ∧
      after = { m with
        world,
        context := { m.context with accept := m.context.accept.visit true } }.enter op.fn conn ∧
      journals.accept.Serves op (journals.apply (m.effects host event)).accept
  wait : .visit true ∈ (m.effects host event).wait →
    ∃ ready op rest fd count, event = .wait count ∧ m.ready = some ready ∧
      m.context.wait.todo = op :: rest ∧ fdOf host m.world op.timer = .ok fd ∧ fd ∈ ready.read ∧
      after = { m with
        context := { m.context with wait := m.context.wait.visit true } }.enter op.fn count ∧
      journals.wait.Serves op (journals.apply (m.effects host event)).wait

theorem invokesReady_of_step (follow : journals.Follow m.context)
    (stepped : m.step host event = .ok after) : InvokesReady host journals m event after where
  events := step_visits stepped
  recv invoked := by
    obtain ⟨⟨data, rfl⟩, pushed, steps⟩ := (effects_serving host m event).1 invoked
    cases step_move stepped with
    | recv quiet inside next known set =>
        refine ⟨_, _, _, _, _, _, rfl, inside, next, known, set, rfl, ?_⟩
        rw [Journals.apply, steps]
        exact follow.recv.serves next pushed
  send invoked := by
    obtain ⟨⟨sent, rfl⟩, pushed, steps⟩ := (effects_serving host m event).2.1 invoked
    cases step_move stepped with
    | send quiet inside none next known set =>
        refine ⟨_, _, _, _, _, _, rfl, inside, next, known, set, rfl, ?_⟩
        rw [Journals.apply, steps]
        exact follow.send.serves next pushed
  accept invoked := by
    obtain ⟨⟨conn, rfl⟩, pushed, steps⟩ := (effects_serving host m event).2.2.1 invoked
    cases step_move stepped with
    | accept quiet inside none next known set =>
        refine ⟨_, _, _, _, _, _, rfl, inside, next, known, set, rfl, ?_⟩
        rw [Journals.apply, steps]
        exact follow.accept.serves next pushed
  wait invoked := by
    obtain ⟨⟨count, rfl⟩, pushed, steps⟩ := (effects_serving host m event).2.2.2 invoked
    cases step_move stepped with
    | wait quiet inside next known set =>
        refine ⟨_, _, _, _, _, rfl, inside, next, known, set, rfl, ?_⟩
        rw [Journals.apply, steps]
        exact follow.wait.serves next pushed

/-! ## Runs -/

theorem run_follow {events : List (Event κ)} (follow : journals.Follow m.context)
    (idle : m.ready = none → m.context.Idle) (ran : run host m events = .ok after) :
    (journal host m journals events).Follow after.context ∧
      (after.ready = none → after.context.Idle) := by
  induction events generalizing m journals with
  | nil =>
      cases ran
      exact ⟨follow, idle⟩
  | cons event events ih =>
      obtain ⟨next, stepped, ran⟩ := bind_ok_iff.mp ran
      rw [journal, stepped]
      exact ih (follow_apply follow idle stepped) (idle_step idle stepped) ran

/-- Outside of iterations each queue holds what was queued and has not had its
callback invoked, in the order it was queued in. No callback is invoked twice,
nor without its descriptor being ready. -/
theorem queues_keep_operations (host : Host Addr Buf κ World) (world : World)
    (events : List (Event κ)) (m : Machine Addr Buf κ World)
    (ran : run host { world } events = .ok m) :
    let journals := journal host { world } {} events
    (m.ready = none → m.context.recv.fresh = journals.recv.outstanding ∧
      m.context.send.fresh = journals.send.outstanding ∧
      m.context.accept.fresh = journals.accept.outstanding ∧
      m.context.wait.fresh = journals.wait.outstanding) ∧
    (journals.recv.done.Nodup ∧ journals.send.done.Nodup ∧ journals.accept.done.Nodup ∧
      journals.wait.done.Nodup) ∧
    ∀ event after, m.step host event = .ok after → InvokesReady host journals m event after := by
  have start : (({} : Journals Addr Buf κ)).Follow ({} : IOContext Addr Buf κ) :=
    ⟨Journal.follows_empty, Journal.follows_empty, Journal.follows_empty, Journal.follows_empty⟩
  have none : (({} : IOContext Addr Buf κ)).Idle := ⟨⟨rfl, rfl⟩, ⟨rfl, rfl⟩, ⟨rfl, rfl⟩, ⟨rfl, rfl⟩⟩
  obtain ⟨follow, idle⟩ := run_follow (m := { world }) start (fun _ => none) ran
  refine ⟨fun outside => ?_, ?_, fun event after stepped => invokesReady_of_step follow stepped⟩
  · have idle := idle outside
    rw [← follow.recv.waiting_eq, ← follow.send.waiting_eq, ← follow.accept.waiting_eq,
      ← follow.wait.waiting_eq]
    exact ⟨idle.recv.waiting_eq.symm, idle.send.waiting_eq.symm, idle.accept.waiting_eq.symm,
      idle.wait.waiting_eq.symm⟩
  · exact ⟨follow.recv.nodup, follow.send.nodup, follow.accept.nodup, follow.wait.nodup⟩

/-- An iteration in which a payload is sent in part; its rest is queued anew. -/
def partialRound : List (Event (List (Nat × Bytes))) :=
  [.call [(5, [1, 2]), (5, [3, 4, 5]), (6, [7])], .tick, .tick, .tick, .tick, .run,
    .select [] [5, 6], .send 2, .tick, .send 1, .send 1, .tick, .tick]

theorem queues_keep_operations_scripted : ∃ m,
    run scripted { world := () } partialRound = .ok m ∧ m.ready = none ∧
    (journal scripted { world := () } {} partialRound).send.done = [0, 1, 2] ∧
    m.context.send.fresh = (journal scripted { world := () } {} partialRound).send.outstanding :=
  ⟨_, rfl, rfl, by decide +kernel,
    ((queues_keep_operations scripted () partialRound _ rfl).1 rfl).2.1⟩

end Machine

end Boutique.Io
