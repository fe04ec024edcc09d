import Boutique.Core.Memory
import Boutique.Io.EventLoop
import Boutique.Server.ClientHandler

namespace Boutique.Server

open Boutique.Io Boutique.Protocol

variable {Store Coll : Type}

/-- A `Socket` of the server: its own, or that of the `ClientHandler` in the list
node at an address. -/
inductive Object where
  | listener
  | client (address : Nat)
deriving DecidableEq, Repr

/-- The callbacks that the server passes to its context. `respond` is the rest of
a `recv_handler` call once the commands are executed: it sends the responses and
receives again. `rearm` is the end of `accept_handler`, and `sent` the lambda
that keeps a sent buffer alive. -/
inductive Callback where
  | recvHandler (address : Nat)
  | respond (address : Nat) (responses : List Response)
  | acceptHandler
  | rearm
  | sent

/-- A node of `m_clients`. -/
structure Client where
  address : Nat
  handler : ClientHandler := {}
  socket : Option Fd
  buf : Bytes := List.replicate 128 0
deriving DecidableEq, Repr

namespace Client

/-- The implicit move assignment. `Socket::operator=` does not close the
descriptor that it overwrites. -/
def assign (dest other : Client) : Client := { other with address := dest.address }

/-- What a move leaves behind. -/
def movedFrom (other : Client) : Client :=
  { other with
    socket := none
    handler := { other.handler with stream := { other.handler.stream with buf := [] } } }

end Client

/-- `std::remove_if` on clients, with the nodes it keeps and those behind them,
which are then erased. The search for the first closed client and the loop that
follows are one here: `gap` are the nodes from where the next client to keep is
assigned to up to where the loop stands. -/
def removeClosed : List Client → List Client → List Client × List Client
  | gap, [] => ([], gap)
  | [], client :: clients =>
      if client.handler.closed then removeClosed [client] clients
      else
        let (kept, erased) := removeClosed [] clients
        (client :: kept, erased)
  | dest :: gap, client :: clients =>
      if client.handler.closed then removeClosed (dest :: gap ++ [client]) clients
      else
        let (kept, erased) := removeClosed (gap ++ [client.movedFrom]) clients
        (dest.assign client :: kept, erased)

/-- A connection that has been accepted, as the kernel knows it: by which
descriptor, what has been received and sent by it, whether its end of stream has
been reported and whether its descriptor has been closed. -/
structure Connection where
  fd : Fd
  received : Bytes := []
  sent : Bytes := []
  ended : Bool := false
  released : Bool := false
deriving DecidableEq, Repr

/-- The connection once `data` has been received by it, which is nothing at the
end of its stream. -/
def Connection.deliver (data : Bytes) (conn : Connection) : Connection :=
  { conn with received := conn.received ++ data, ended := conn.ended || data.isEmpty }

structure World (Store : Type) where
  db : Store
  clients : List Client := []
  connections : List Connection := []

namespace World

variable (world : World Store)

def client? (address : Nat) : Option Client :=
  world.clients.find? fun client => client.address = address

def updateClient (address : Nat) (update : Client → Client) : World Store :=
  { world with clients := world.clients.map fun client =>
      if client.address = address then update client else client }

/-- The connection behind a descriptor. -/
def updateConnection (fd : Fd) (update : Connection → Connection) : World Store :=
  { world with connections := world.connections.map fun conn =>
      if conn.fd = fd ∧ conn.released = false then update conn else conn }

/-- `Socket::recv` into the buffer of a client. There is nothing to receive
behind the end of the stream. -/
def recv (object : Object) (buf : Pointer Nat) (data : Bytes) : Except Halt (World Store) :=
  match object with
  | .listener => .error .refused
  | .client address =>
      match (world.client? address).bind Client.socket, world.client? buf.base with
      | some fd, some _ =>
          if ∀ conn ∈ world.connections, conn.fd = fd ∧ conn.released = false →
              conn.ended = true → data = [] then
            let world := world.updateClient buf.base fun client =>
              { client with buf := overwrite client.buf buf.offset data }
            return world.updateConnection fd (.deliver data)
          else
            .error .refused
      | _, _ => .error .dangling

/-- `Socket::send`. -/
def send (object : Object) (data : Bytes) : Except Halt (World Store) :=
  match object with
  | .listener => .error .refused
  | .client address =>
      match (world.client? address).bind Client.socket with
      | some fd =>
          return world.updateConnection fd fun conn => { conn with sent := conn.sent ++ data }
      | none => .error .dangling

/-- `Socket::accept`. The kernel gives a descriptor that is not in use. -/
def accept (listener : Fd) (object : Object) (fd : Fd) : Except Halt (World Store) :=
  match object with
  | .listener =>
      if fd ≠ listener ∧ ∀ conn ∈ world.connections, conn.fd = fd → conn.released = true then
        return { world with connections := world.connections ++ [{ fd }] }
      else
        .error .refused
  | .client _ => .error .refused

/-- The destructors of clients that are erased: `~Socket` closes its descriptor. -/
def destroy (erased : List Client) : World Store :=
  { world with connections := world.connections.map fun conn =>
      { conn with
        released := conn.released || erased.any fun client => client.socket = some conn.fd } }

/-- `accept_handler` up to its first call of the context, and the address of the
client it adds. `alloc` gives the address of a new node, by how many connections
there have been and which nodes are in use: any allocator, on any run. -/
def acceptHandler (alloc : Nat → List Nat → Nat) (fd : Fd) : World Store × Nat :=
  let (kept, erased) := removeClosed [] world.clients
  let address := alloc world.connections.length (kept.map Client.address)
  ({ world.destroy erased with clients := kept ++ [{ address, socket := some fd }] }, address)

end World

/-- A callback of the server up to its next call of the context. -/
def resume (ops : DatabaseOps Store Coll) (alloc : Nat → List Nat → Nat) (fn : Callback)
    (argument : Nat) (world : World Store) :
    Except Halt (World Store × Option (Call Object Nat Callback) × Option Callback) :=
  match fn with
  | .recvHandler address =>
      match world.client? address with
      | none => .error .dangling
      | some client =>
          match client.handler.recvHandler ops (client.buf.take argument) world.db with
          | .error fault => .error (.aborted fault)
          | .ok received =>
              let world := { world with db := received.db }
              let world := world.updateClient address fun client =>
                { client with handler := received.handler }
              return (world, none,
                if received.rearmed then some (.respond address received.responses) else none)
  | .respond address (response :: responses) =>
      return (world, some (.asyncSendAll (.client address) (writeResponse response) .sent),
        some (.respond address responses))
  | .respond address [] =>
      return (world, some (.asyncRecv (.client address) { base := address } 128
        (.recvHandler address)), none)
  | .acceptHandler =>
      let (world, address) := world.acceptHandler alloc argument
      return (world, some (.asyncRecv (.client address) { base := address } 128
        (.recvHandler address)), some .rearm)
  | .rearm => return (world, some (.asyncAccept .listener .acceptHandler), none)
  | .sent => return (world, none, none)

/-- The server as a program around its `IOContext`. -/
def host (ops : DatabaseOps Store Coll) (alloc : Nat → List Nat → Nat) (listener : Fd) :
    Host Object Nat Callback (World Store) where
  fd world
    | .listener => some listener
    | .client address => (world.client? address).bind Client.socket
  recv world := world.recv
  send world := world.send
  accept world := world.accept listener
  resume := resume ops alloc

/-- `Server::run` up to its loop. -/
def start (db : Store) : Machine Object Nat Callback (World Store) :=
  { world := { db }
    context := { accept := { fresh := [{ socket := .listener, fn := .acceptHandler }] } }
    running := true }

end Boutique.Server
