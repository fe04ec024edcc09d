import Boutique.Core.Memory
import Boutique.Data.Instalments
import Boutique.Io.Journals

namespace Boutique.Io

open Boutique.Data

/-! # Transfers of whole buffers

An `async_recv_all` or `async_send_all` from the call to the callback, through
whatever else the context does in between. -/

variable {Addr Buf κ World : Type}

/-- The arguments of an `async_recv_all`. -/
structure RecvAll (Addr Buf κ : Type) where
  socket : Addr
  buf : Pointer Buf
  len : Nat
  fn : κ
deriving DecidableEq, Repr

namespace RecvAll

variable (r : RecvAll Addr Buf κ)

def call : Call Addr Buf κ := .asyncRecvAll r.socket r.buf r.len r.fn

/-- The handler once `count` bytes have been received. -/
def handler (count : Nat) : RecvHandler Addr Buf κ where
  data := { socket := r.socket, origLen := r.len, resFn := r.fn }
  buf := { r.buf with offset := r.buf.offset + count }
  len := r.len - count

/-- The operation that waits then. -/
def op (count : Nat) : RecvOp Addr Buf κ where
  socket := r.socket
  buf := { r.buf with offset := r.buf.offset + count }
  maxlen := r.len - count
  fn := .handler (r.handler count)

def continuation (count : Nat) : List (RecvOp Addr Buf κ) :=
  if count < r.len then [r.op count] else []

/-- The callbacks that have been invoked then. -/
def invoked (count : Nat) : List (κ × Nat) := if count < r.len then [] else [(r.fn, r.len)]

theorem socket_of_continuation {count : Nat} {op : RecvOp Addr Buf κ}
    (queued : op ∈ r.continuation count) : op.socket = r.socket := by
  rw [continuation] at queued
  split at queued
  · obtain rfl := List.mem_singleton.mp queued
    rfl
  · cases queued

end RecvAll

/-- The arguments of an `async_send_all`. -/
structure SendAll (Addr κ : Type) where
  socket : Addr
  buf : Bytes
  fn : κ
deriving DecidableEq, Repr

namespace SendAll

variable (s : SendAll Addr κ)

def call : Call Addr Buf κ := .asyncSendAll s.socket s.buf s.fn

def handler (count : Nat) : SendHandler Addr κ where
  data := { socket := s.socket, origLen := s.buf.length, resFn := s.fn }
  buf := s.buf.drop count

def op (count : Nat) : SendOp Addr κ where
  socket := s.socket
  buf := s.buf.drop count
  fn := .handler (s.handler count)

def continuation (count : Nat) : List (SendOp Addr κ) :=
  if count < s.buf.length then [s.op count] else []

def invoked (count : Nat) : List (κ × Nat) :=
  if count < s.buf.length then [] else [(s.fn, s.buf.length)]

theorem socket_of_continuation {count : Nat} {op : SendOp Addr κ}
    (queued : op ∈ s.continuation count) : op.socket = s.socket := by
  rw [continuation] at queued
  split at queued
  · obtain rfl := List.mem_singleton.mp queued
    rfl
  · cases queued

end SendAll

/-- A call of `Socket::recv`: where to and how much it was asked to receive, what
it received, and the callbacks invoked with the result. -/
structure RecvCall (Buf κ : Type) where
  buf : Pointer Buf
  maxlen : Nat
  data : Bytes
  invoked : List (κ × Nat)
deriving DecidableEq, Repr

def RecvCall.received (call : RecvCall Buf κ) : Nat := call.data.length

/-- A call of `Socket::send`, with the bytes it was asked to send and how many of
them it took. -/
structure SendCall (κ : Type) where
  buf : Bytes
  taken : Nat
  invoked : List (κ × Nat)
deriving DecidableEq, Repr

/-- The call is right for an `async_recv_all` that has received `count` bytes. -/
structure RecvAll.Makes (r : RecvAll Addr Buf κ) (count : Nat) (call : RecvCall Buf κ) : Prop where
  unfinished : count < r.len
  buf_eq : call.buf = { r.buf with offset := r.buf.offset + count }
  maxlen_eq : call.maxlen = r.len - count
  fits : call.received ≤ r.len - count
  invoked_eq : call.invoked = r.invoked (count + call.received)

structure SendAll.Makes (s : SendAll Addr κ) (count : Nat) (call : SendCall κ) : Prop where
  unfinished : count < s.buf.length
  buf_eq : call.buf = s.buf.drop count
  fits : call.taken ≤ s.buf.length - count
  invoked_eq : call.invoked = s.invoked (count + call.taken)

/-- The call receives from the socket. -/
def Call.ReceivesFrom (socket : Addr) : Call Addr Buf κ → Prop
  | .asyncRecv other _ _ _ => other = socket
  | .asyncRecvAll other _ _ _ => other = socket
  | _ => False

def Call.SendsTo (socket : Addr) : Call Addr Buf κ → Prop
  | .asyncSend other _ _ => other = socket
  | .asyncSendAll other _ _ => other = socket
  | _ => False

instance [DecidableEq Addr] (socket : Addr) :
    (call : Call Addr Buf κ) → Decidable (call.ReceivesFrom socket)
  | .asyncRecv other _ _ _ => inferInstanceAs (Decidable (other = socket))
  | .asyncRecvAll other _ _ _ => inferInstanceAs (Decidable (other = socket))
  | .asyncSend .. | .asyncAccept .. | .asyncWait .. | .asyncSendAll .. | .stop => .isFalse id

/-- A handler queues its operations on the socket of the one it was called for. -/
def RecvOp.Steady (op : RecvOp Addr Buf κ) : Prop :=
  ∀ handler, op.fn = .handler handler → handler.data.socket = op.socket

def SendOp.Steady (op : SendOp Addr κ) : Prop :=
  ∀ handler, op.fn = .handler handler → handler.data.socket = op.socket

namespace Machine

/-- The call of the context that a running callback makes next. -/
def nextCall (host : Host Addr Buf κ World) (m : Machine Addr Buf κ World) :
    Option (Call Addr Buf κ) :=
  match m.stack with
  | (fn, argument) :: _ =>
      match host.resume fn argument m.world with
      | .ok (_, call, _) => call
      | .error _ => none
  | [] => none

/-- The step queues nothing else to receive from the socket. -/
def NoOtherRecv (host : Host Addr Buf κ World) (socket : Addr) (m : Machine Addr Buf κ World)
    (_ : Event κ) : Prop :=
  ∀ call ∈ m.nextCall host, ¬ call.ReceivesFrom socket

def NoOtherSend (host : Host Addr Buf κ World) (socket : Addr) (m : Machine Addr Buf κ World)
    (_ : Event κ) : Prop :=
  ∀ call ∈ m.nextCall host, ¬ call.SendsTo socket

instance [DecidableEq Addr] (host : Host Addr Buf κ World) (socket : Addr)
    (m : Machine Addr Buf κ World) (event : Event κ) :
    Decidable (NoOtherRecv host socket m event) :=
  inferInstanceAs (Decidable (∀ call ∈ m.nextCall host, ¬ call.ReceivesFrom socket))

/-- What is seen in the steps of a run. -/
def record {α : Type} (host : Host Addr Buf κ World)
    (seen : Machine Addr Buf κ World → Event κ → Machine Addr Buf κ World → Option α) :
    Machine Addr Buf κ World → List (Event κ) → List α
  | _, [] => []
  | m, event :: events =>
      match m.step host event with
      | .error _ => []
      | .ok after => (seen m event after).toList ++ record host seen after events

theorem record_cons {α : Type} {host : Host Addr Buf κ World}
    {seen : Machine Addr Buf κ World → Event κ → Machine Addr Buf κ World → Option α}
    {m after : Machine Addr Buf κ World} {event : Event κ}
    (stepped : m.step host event = .ok after) (events : List (Event κ)) :
    record host seen m (event :: events) =
      (seen m event after).toList ++ record host seen after events := by
  rw [record, stepped]

section

variable [DecidableEq Addr]

/-- The call of `Socket::recv` on a socket in a step. -/
def recvCall (socket : Addr) (m : Machine Addr Buf κ World) (event : Event κ)
    (after : Machine Addr Buf κ World) : Option (RecvCall Buf κ) :=
  match event, m.context.recv.todo with
  | .recv data, op :: _ =>
      if op.socket = socket then
        some { buf := op.buf, maxlen := op.maxlen, data, invoked := after.stack }
      else none
  | _, _ => none

/-- The call of `Socket::send` on a socket in a step. -/
def sendCall (socket : Addr) (m : Machine Addr Buf κ World) (event : Event κ)
    (after : Machine Addr Buf κ World) : Option (SendCall κ) :=
  match event, m.context.send.todo with
  | .send taken, op :: _ =>
      if op.socket = socket then some { buf := op.buf, taken, invoked := after.stack } else none
  | _, _ => none

end

/-! ## Handlers -/

theorem callRecvHandler_handler (m : Machine Addr Buf κ World) (r : RecvAll Addr Buf κ)
    (count res : Nat) : m.callRecvHandler (r.handler count) res =
      { m with
        stack := r.invoked (count + res) ++ m.stack
        context := { m.context with
          recv := (r.continuation (count + res)).foldl Rounds.push m.context.recv } } := by
  have left : r.len - count - res = r.len - (count + res) := by omega
  simp only [callRecvHandler, RecvAll.handler, RecvAll.invoked, RecvAll.continuation, left,
    Nat.add_assoc]
  by_cases more : count + res < r.len
  · rw [if_neg (by omega), if_pos more, if_pos more]
    rfl
  · rw [if_pos (by omega), if_neg more, if_neg more]
    rfl

theorem callSendHandler_handler (m : Machine Addr Buf κ World) (s : SendAll Addr κ)
    (count res : Nat) : m.callSendHandler (s.handler count) res =
      { m with
        stack := s.invoked (count + res) ++ m.stack
        context := { m.context with
          send := (s.continuation (count + res)).foldl Rounds.push m.context.send } } := by
  simp only [callSendHandler, SendAll.handler, SendAll.invoked, SendAll.continuation,
    List.drop_drop, List.length_drop]
  by_cases more : count + res < s.buf.length
  · rw [if_neg (by omega), if_pos more, if_pos more]
    rfl
  · rw [if_pos (by omega), if_neg more, if_neg more]
    rfl

/-! ## Every handler stays on its socket -/

end Machine

theorem RecvHandler.of_queues {handler : RecvHandler Addr Buf κ} {res : Nat}
    {op : RecvOp Addr Buf κ} (queued : op ∈ handler.queues res) :
    op.Steady ∧ op.socket = handler.data.socket := by
  simp only [RecvHandler.queues] at queued
  split at queued
  · cases queued
  · rw [List.mem_singleton] at queued
    subst queued
    refine ⟨fun other same => ?_, rfl⟩
    cases same
    rfl

theorem SendHandler.of_queues {handler : SendHandler Addr κ} {res : Nat}
    {op : SendOp Addr κ} (queued : op ∈ handler.queues res) :
    op.Steady ∧ op.socket = handler.data.socket := by
  simp only [SendHandler.queues] at queued
  split at queued
  · cases queued
  · rw [List.mem_singleton] at queued
    subst queued
    refine ⟨fun other same => ?_, rfl⟩
    cases same
    rfl

/-- What a served operation queues anew stays on its socket. -/
theorem RecvOp.of_queues {served op : RecvOp Addr Buf κ} {res : Nat}
    (queued : op ∈ served.queues res) :
    op.Steady ∧ (served.Steady → op.socket = served.socket) := by
  simp only [RecvOp.queues] at queued
  split at queued
  · cases queued
  · rename_i handler same
    obtain ⟨steady, socket⟩ := RecvHandler.of_queues queued
    exact ⟨steady, fun own => socket.trans (own handler same)⟩

theorem SendOp.of_queues {served op : SendOp Addr κ} {res : Nat}
    (queued : op ∈ served.queues res) :
    op.Steady ∧ (served.Steady → op.socket = served.socket) := by
  simp only [SendOp.queues] at queued
  split at queued
  · cases queued
  · rename_i handler same
    obtain ⟨steady, socket⟩ := SendHandler.of_queues queued
    exact ⟨steady, fun own => socket.trans (own handler same)⟩

/-- What a call queues to receive is received from its socket. -/
theorem Call.recv_effects (call : Call Addr Buf κ) :
    ∃ pushed : List (RecvOp Addr Buf κ), call.effects.recv = pushed.map .push ∧
      ∀ op ∈ pushed, op.Steady ∧ call.ReceivesFrom op.socket := by
  cases call with
  | asyncSend | asyncAccept | asyncWait | asyncSendAll | stop => exact ⟨[], rfl, nofun⟩
  | asyncRecv socket buf maxlen fn =>
      refine ⟨[{ socket, buf, maxlen, fn := .user fn }], rfl, fun op queued => ?_⟩
      rw [List.mem_singleton] at queued
      subst queued
      exact ⟨nofun, rfl⟩
  | asyncRecvAll socket buf len fn =>
      refine ⟨_, rfl, fun op queued => ?_⟩
      obtain ⟨steady, same⟩ := RecvHandler.of_queues queued
      exact ⟨steady, same.symm⟩

theorem Call.send_effects (call : Call Addr Buf κ) :
    ∃ pushed : List (SendOp Addr κ), call.effects.send = pushed.map .push ∧
      ∀ op ∈ pushed, op.Steady ∧ call.SendsTo op.socket := by
  cases call with
  | asyncRecv | asyncAccept | asyncWait | asyncRecvAll | stop => exact ⟨[], rfl, nofun⟩
  | asyncSend socket buf fn =>
      refine ⟨[{ socket, buf, fn := .user fn }], rfl, fun op queued => ?_⟩
      rw [List.mem_singleton] at queued
      subst queued
      exact ⟨nofun, rfl⟩
  | asyncSendAll socket buf fn =>
      refine ⟨_, rfl, fun op queued => ?_⟩
      obtain ⟨steady, same⟩ := SendHandler.of_queues queued
      exact ⟨steady, same.symm⟩

namespace Machine

/-- Handlers stay on their sockets, and rounds are under way in iterations only. -/
structure Steady (m : Machine Addr Buf κ World) : Prop where
  recv : ∀ op ∈ m.context.recv.waiting, op.Steady
  send : ∀ op ∈ m.context.send.waiting, op.Steady
  idle : m.ready = none → m.context.Idle

variable {host : Host Addr Buf κ World} {m after : Machine Addr Buf κ World} {event : Event κ}

theorem steady_pushed (host : Host Addr Buf κ World) (m : Machine Addr Buf κ World)
    (event : Event κ) :
    (∀ op, .push op ∈ (m.effects host event).recv → op.Steady) ∧
      (∀ op, .push op ∈ (m.effects host event).send → op.Steady) := by
  simp only [effects]
  split
  · split
    · rename_i call _ _
      obtain ⟨recv, recvEq, recvSteady⟩ := call.recv_effects
      obtain ⟨send, sendEq, sendSteady⟩ := call.send_effects
      rw [recvEq, sendEq]
      simp only [List.mem_map, RoundStep.push.injEq, exists_eq_right]
      exact ⟨fun op queued => (recvSteady op queued).1, fun op queued => (sendSteady op queued).1⟩
    · simp
  · split
    · split <;> simp [Effects.copyQueues]
    · simp only [iterateEffects]
      split
      · split
        · simp only [List.mem_cons, List.mem_map, RoundStep.push.injEq, exists_eq_right,
            reduceCtorEq, false_or]
          exact ⟨fun op queued => (RecvOp.of_queues queued).1,
            fun op queued => absurd queued List.not_mem_nil⟩
        · simp
      · split
        · simp only [List.mem_cons, List.mem_map, RoundStep.push.injEq, exists_eq_right,
            reduceCtorEq, false_or]
          exact ⟨fun op queued => absurd queued List.not_mem_nil,
            fun op queued => (SendOp.of_queues queued).1⟩
        · simp
      · split <;> simp
      · split <;> simp
      · simp [Effects.mergeQueues]

theorem Steady.step (steady : m.Steady) (stepped : m.step host event = .ok after) :
    after.Steady := by
  obtain ⟨recv, send⟩ := steady_pushed host m event
  obtain ⟨stop, context⟩ := step_effects stepped
  refine ⟨fun op waits => ?_, fun op waits => ?_, idle_step steady.idle stepped⟩
  · rw [context] at waits
    exact (Rounds.mem_waiting_foldl waits).elim (steady.recv op) (recv op)
  · rw [context] at waits
    exact (Rounds.mem_waiting_foldl waits).elim (steady.send op) (send op)

theorem steady_start (world : World) : Steady { world : Machine Addr Buf κ World } :=
  ⟨nofun, nofun, fun _ => ⟨⟨rfl, rfl⟩, ⟨rfl, rfl⟩, ⟨rfl, rfl⟩, ⟨rfl, rfl⟩⟩⟩

theorem steady_of_run {events : List (Event κ)} (steady : m.Steady)
    (ran : run host m events = .ok after) : after.Steady := by
  induction events generalizing m with
  | nil =>
      cases ran
      exact steady
  | cons event events ih =>
      obtain ⟨next, stepped, ran⟩ := bind_ok_iff.mp ran
      exact ih (steady.step stepped) ran

end Machine

end Boutique.Io
