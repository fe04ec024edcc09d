import Boutique.Data.Streams
import Boutique.Io.Context

namespace Boutique.Io

open Boutique.Data

variable {Addr Buf κ World : Type}

/-- Why a step is not taken: the kernel does not answer so, a pointer to an
object that is gone is used, or the program fails. -/
inductive Halt where
  | refused
  | dangling
  | aborted (fault : Fault)
deriving DecidableEq, Repr

/-- A program around an `IOContext`, in a state of type `World`. A socket call
may change that state, and `resume` runs a callback with its argument up to its
next call of the context, whereupon the callback goes on as another one. -/
structure Host (Addr Buf κ World : Type) where
  fd : World → Addr → Option Fd
  recv : World → Addr → Pointer Buf → Bytes → Except Halt World
  send : World → Addr → Bytes → Except Halt World
  accept : World → Addr → Fd → Except Halt World
  resume : κ → Nat → World → Except Halt (World × Option (Call Addr Buf κ) × Option κ)

/-- The sets that `select` leaves behind. -/
structure Ready where
  read : List Fd
  write : List Fd
deriving DecidableEq, Repr

/-- A program and its `IOContext` on the way. In an iteration of `run`, `ready`
are its `fd_set`s; `stack` are the callbacks that run, the innermost first, with
their arguments. `submitted` and `accepted` record what `async_send_all` was
called with and what the sockets took. -/
structure Machine (Addr Buf κ World : Type) where
  world : World
  context : IOContext Addr Buf κ := {}
  running : Bool := false
  ready : Option Ready := none
  stack : List (κ × Nat) := []
  submitted : List (Addr × Bytes) := []
  accepted : List (Addr × Bytes) := []

/-- What happens next: the program, outside of `run`, does something or calls
`run`; the kernel answers a call; or the code goes on by itself. The answers are
those that `Socket` returns: on an error other than `EWOULDBLOCK` it throws, out of
`run`, and there a run ends. -/
inductive Event (κ : Type) where
  | call (fn : κ)
  | run
  | select (read write : List Fd)
  | recv (data : Bytes)
  | send (accepted : Nat)
  | accept (fd : Fd)
  | wait (count : Nat)
  | tick
deriving DecidableEq, Repr

namespace Machine

variable (m : Machine Addr Buf κ World)

/-- A callback begins to run. -/
def enter (fn : κ) (argument : Nat) : Machine Addr Buf κ World :=
  { m with stack := (fn, argument) :: m.stack }

/-- `RecvHandler::operator()`. -/
def callRecvHandler (handler : RecvHandler Addr Buf κ) (res : Nat) : Machine Addr Buf κ World :=
  let len := handler.len - res
  let buf := { handler.buf with offset := handler.buf.offset + res }
  if len = 0 then
    m.enter handler.data.resFn handler.data.origLen
  else
    let op := { socket := handler.data.socket, buf, maxlen := len,
                fn := .handler { handler with buf, len } }
    { m with context := m.context.asyncRecv op }

/-- `SendHandler::operator()`. -/
def callSendHandler (handler : SendHandler Addr κ) (res : Nat) : Machine Addr Buf κ World :=
  let buf := handler.buf.drop res
  if buf.length = 0 then
    m.enter handler.data.resFn handler.data.origLen
  else
    let op := { socket := handler.data.socket, buf, fn := .handler { handler with buf } }
    { m with context := m.context.asyncSend op }

/-- The call `op.fn(res)` of a receive operation. -/
def invokeRecv (fn : IntFn κ (RecvHandler Addr Buf κ)) (res : Nat) : Machine Addr Buf κ World :=
  match fn with
  | .user fn => m.enter fn res
  | .handler handler => m.callRecvHandler handler res

/-- The call `op.fn(res)` of a send operation. -/
def invokeSend (fn : IntFn κ (SendHandler Addr κ)) (res : Nat) : Machine Addr Buf κ World :=
  match fn with
  | .user fn => m.enter fn res
  | .handler handler => m.callSendHandler handler res

/-- A call that a callback makes. -/
def perform : Call Addr Buf κ → Machine Addr Buf κ World
  | .asyncRecv socket buf maxlen fn =>
      { m with context := m.context.asyncRecv { socket, buf, maxlen, fn := .user fn } }
  | .asyncSend socket buf fn =>
      { m with context := m.context.asyncSend { socket, buf, fn := .user fn } }
  | .asyncAccept socket fn => { m with context := m.context.asyncAccept { socket, fn } }
  | .asyncWait timer fn => { m with context := m.context.asyncWait { timer, fn } }
  | .asyncRecvAll socket buf len resFn =>
      m.callRecvHandler { data := { socket, origLen := len, resFn }, buf, len } 0
  | .asyncSendAll socket buf resFn =>
      { m with submitted := m.submitted ++ [(socket, buf)] }.callSendHandler
        { data := { socket, origLen := buf.length, resFn }, buf } 0
  | .stop => { m with context := { m.context with stop := true } }

/-- A callback has gone on up to its next `call`, behind which it is `next`. -/
def proceed (call : Option (Call Addr Buf κ)) (next : Option κ) (stack : List (κ × Nat)) :
    Machine Addr Buf κ World :=
  let m := { m with stack := (next.map fun fn => (fn, 0)).toList ++ stack }
  match call with
  | none => m
  | some call => m.perform call

def resume (host : Host Addr Buf κ World) (fn : κ) (argument : Nat) (stack : List (κ × Nat)) :
    Except Halt (Machine Addr Buf κ World) := do
  let (world, call, next) ← host.resume fn argument m.world
  return { m with world }.proceed call next stack

def fdOf (host : Host Addr Buf κ World) (world : World) (object : Addr) : Except Halt Fd :=
  match host.fd world object with
  | none => .error .dangling
  | some fd => return fd

/-- The head of the loop in `run`, up to the return of `select`, which reports
`read` and `write` as far as they were asked for. -/
def select (host : Host Addr Buf κ World) (read write : List Fd) :
    Except Halt (Machine Addr Buf κ World) := do
  let recvFds ← (m.context.recv.fresh.map RecvOp.socket).mapM (fdOf host m.world)
  let sendFds ← (m.context.send.fresh.map SendOp.socket).mapM (fdOf host m.world)
  let acceptFds ← (m.context.accept.fresh.map AcceptOp.socket).mapM (fdOf host m.world)
  let waitFds ← (m.context.wait.fresh.map WaitOp.timer).mapM (fdOf host m.world)
  return { m with
    context := m.context.copyQueues
    ready := some { read := read.filter fun fd => fd ∈ recvFds ++ acceptFds ++ waitFds
                    write := write.filter fun fd => fd ∈ sendFds } }

/-- One round of a loop over a copied queue: the operation on `object` is served
if its descriptor is set, and passed over if not. -/
def visit (host : Host Addr Buf κ World) (object : Addr) (set : List Fd)
    (passed : Machine Addr Buf κ World)
    (serve : Event κ → Except Halt (Machine Addr Buf κ World)) (event : Event κ) :
    Except Halt (Machine Addr Buf κ World) := do
  let fd ← fdOf host m.world object
  if fd ∈ set then serve event
  else match event with
    | .tick => return passed
    | _ => .error .refused

def serveRecv (host : Host Addr Buf κ World) (op : RecvOp Addr Buf κ) :
    Event κ → Except Halt (Machine Addr Buf κ World)
  | .recv data =>
      if data.length ≤ op.maxlen then do
        let world ← host.recv m.world op.socket op.buf data
        let context := { m.context with recv := m.context.recv.visit true }
        return { m with world, context }.invokeRecv op.fn data.length
      else
        .error .refused
  | _ => .error .refused

def serveSend (host : Host Addr Buf κ World) (op : SendOp Addr κ) :
    Event κ → Except Halt (Machine Addr Buf κ World)
  | .send accepted =>
      if accepted ≤ op.buf.length then do
        let world ← host.send m.world op.socket (op.buf.take accepted)
        let context := { m.context with send := m.context.send.visit true }
        let m := { m with
          world, context, accepted := m.accepted ++ [(op.socket, op.buf.take accepted)] }
        return m.invokeSend op.fn accepted
      else
        .error .refused
  | _ => .error .refused

def serveAccept (host : Host Addr Buf κ World) (op : AcceptOp Addr κ) :
    Event κ → Except Halt (Machine Addr Buf κ World)
  | .accept fd => do
      let world ← host.accept m.world op.socket fd
      let context := { m.context with accept := m.context.accept.visit true }
      return { m with world, context }.enter op.fn fd
  | _ => .error .refused

def serveWait (op : WaitOp Addr κ) : Event κ → Except Halt (Machine Addr Buf κ World)
  | .wait count =>
      let context := { m.context with wait := m.context.wait.visit true }
      return { m with context }.enter op.fn count
  | _ => .error .refused

/-- The body of the loop in `run` after `select`: the four loops one after
another, and the merging of the queues at the end. -/
def iterate (host : Host Addr Buf κ World) (ready : Ready) (event : Event κ) :
    Except Halt (Machine Addr Buf κ World) :=
  let context := m.context
  match context.recv.todo, context.send.todo, context.accept.todo, context.wait.todo with
  | op :: _, _, _, _ =>
      let context := { context with recv := context.recv.visit false }
      m.visit host op.socket ready.read { m with context } (m.serveRecv host op) event
  | [], op :: _, _, _ =>
      let context := { context with send := context.send.visit false }
      m.visit host op.socket ready.write { m with context } (m.serveSend host op) event
  | [], [], op :: _, _ =>
      let context := { context with accept := context.accept.visit false }
      m.visit host op.socket ready.read { m with context } (m.serveAccept host op) event
  | [], [], [], op :: _ =>
      let context := { context with wait := context.wait.visit false }
      m.visit host op.timer ready.read { m with context } (m.serveWait op) event
  | [], [], [], [] =>
      match event with
      | .tick => return { m with context := context.mergeQueues, ready := none }
      | _ => .error .refused

/-- The head of the loop in `run`, and the program outside of it. -/
def atHead (host : Host Addr Buf κ World) (event : Event κ) :
    Except Halt (Machine Addr Buf κ World) :=
  match m.running, m.context.stop, event with
  | true, true, .tick => return { m with running := false }
  | true, false, .select read write => m.select host read write
  | false, _, .run => return { m with running := true, context := { m.context with stop := false } }
  | false, _, .call fn => return m.enter fn 0
  | _, _, _ => .error .refused

def step (host : Host Addr Buf κ World) (event : Event κ) :
    Except Halt (Machine Addr Buf κ World) :=
  match m.stack with
  | (fn, argument) :: stack =>
      match event with
      | .tick => m.resume host fn argument stack
      | _ => .error .refused
  | [] =>
      match m.ready with
      | none => m.atHead host event
      | some ready => m.iterate host ready event

def run (host : Host Addr Buf κ World) (m : Machine Addr Buf κ World) :
    List (Event κ) → Except Halt (Machine Addr Buf κ World)
  | [] => return m
  | event :: events => do
      let m ← m.step host event
      run host m events

end Machine

end Boutique.Io
