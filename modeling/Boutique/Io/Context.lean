import Boutique.Core.Fault
import Boutique.Data.Rounds

namespace Boutique.Io

open Boutique.Data

/-! `Addr` are the addresses of `Socket` and `Timer` objects, `Buf` those of the
buffers to receive into, and `κ` the callbacks a program passes to an
`IOContext`. -/

variable {Addr Buf κ : Type}

abbrev Fd := Nat

/-- A `char*` into a buffer. -/
structure Pointer (Buf : Type) where
  base : Buf
  offset : Nat := 0
deriving DecidableEq, Repr

/-- `HandlerData`; there is one context. -/
structure HandlerData (Addr κ : Type) where
  socket : Addr
  origLen : Nat
  resFn : κ
deriving DecidableEq, Repr

structure RecvHandler (Addr Buf κ : Type) where
  data : HandlerData Addr κ
  buf : Pointer Buf
  len : Nat
deriving DecidableEq, Repr

/-- `SendHandler`, with the `m_len` bytes at `m_buf`, which the caller keeps as
they are until they are sent. -/
structure SendHandler (Addr κ : Type) where
  data : HandlerData Addr κ
  buf : Bytes
deriving DecidableEq, Repr

/-- What an `IntFn` holds: a callback of the program, or the handler of the
operation's direction. -/
inductive IntFn (κ Handler : Type) where
  | user (fn : κ)
  | handler (handler : Handler)
deriving DecidableEq, Repr

/-! An operation's `complete` is kept beside it, in the queue's `visited`. -/

structure RecvOp (Addr Buf κ : Type) where
  socket : Addr
  buf : Pointer Buf
  maxlen : Nat
  fn : IntFn κ (RecvHandler Addr Buf κ)
deriving DecidableEq, Repr

/-- `SendOp`, with the `maxlen` bytes at `buf`. -/
structure SendOp (Addr κ : Type) where
  socket : Addr
  buf : Bytes
  fn : IntFn κ (SendHandler Addr κ)
deriving DecidableEq, Repr

structure AcceptOp (Addr κ : Type) where
  socket : Addr
  fn : κ
deriving DecidableEq, Repr

structure WaitOp (Addr κ : Type) where
  timer : Addr
  fn : κ
deriving DecidableEq, Repr

/-- `IOContext`, each vector with its copy in `run`: `m_recv` is `recv.fresh`,
and `recv.visited` and `recv.todo` are the parts of `recv_copy` that the loop
over it has and has not reached. -/
structure IOContext (Addr Buf κ : Type) where
  stop : Bool := false
  recv : Rounds (RecvOp Addr Buf κ) := {}
  send : Rounds (SendOp Addr κ) := {}
  accept : Rounds (AcceptOp Addr κ) := {}
  wait : Rounds (WaitOp Addr κ) := {}

namespace IOContext

variable (context : IOContext Addr Buf κ)

def asyncRecv (op : RecvOp Addr Buf κ) : IOContext Addr Buf κ :=
  { context with recv := context.recv.push op }

def asyncSend (op : SendOp Addr κ) : IOContext Addr Buf κ :=
  { context with send := context.send.push op }

def asyncAccept (op : AcceptOp Addr κ) : IOContext Addr Buf κ :=
  { context with accept := context.accept.push op }

def asyncWait (op : WaitOp Addr κ) : IOContext Addr Buf κ :=
  { context with wait := context.wait.push op }

/-- The copying at the head of the loop in `run`. -/
def copyQueues : IOContext Addr Buf κ :=
  { context with
    recv := context.recv.start
    send := context.send.start
    accept := context.accept.start
    wait := context.wait.start }

/-- The end of the loop in `run`: what is not complete goes in front. -/
def mergeQueues : IOContext Addr Buf κ :=
  { context with
    recv := context.recv.finish
    send := context.send.finish
    accept := context.accept.finish
    wait := context.wait.finish }

end IOContext

/-- What a callback can ask of the context. -/
inductive Call (Addr Buf κ : Type) where
  | asyncRecv (socket : Addr) (buf : Pointer Buf) (maxlen : Nat) (fn : κ)
  | asyncSend (socket : Addr) (buf : Bytes) (fn : κ)
  | asyncAccept (socket : Addr) (fn : κ)
  | asyncWait (timer : Addr) (fn : κ)
  | asyncRecvAll (socket : Addr) (buf : Pointer Buf) (len : Nat) (fn : κ)
  | asyncSendAll (socket : Addr) (buf : Bytes) (fn : κ)
  | stop
deriving DecidableEq, Repr

end Boutique.Io
