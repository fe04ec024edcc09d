import Boutique.Cli.ClientRuns
import Boutique.Cli.ReceiveLoop
import Boutique.Server.OneResponse

namespace Boutique.Cli

open Boutique.Core Boutique.Data Boutique.Db Boutique.Io Boutique.Protocol Boutique.Server

/-! # Clients on their connections

Client `i` is the one whose connection the server accepts as its `i`th, from 0 on. What
is sent on a connection arrives in order, in pieces of any size and at any time. -/

/-- Where `main` is: at the prompt, in front of the bytes of `cmd_buf` that it has not
sent, in the loop that receives, or at its end. -/
inductive Stage where
  | idle
  | sending (cmd : Command) (rest : Bytes)
  | receiving (cmd : Command)
  | ended (exit : Option Exit)

def Stage.isEnded : Stage → Bool
  | .ended _ => true
  | .idle | .sending _ _ | .receiving _ => false

/-- A client with all the bytes that its socket has taken and given. -/
structure Endpoint where
  showPrompts : Bool := true
  session : Session := {}
  stream : StreamBuf := {}
  console : Console
  stage : Stage := .idle
  outgoing : Bytes := []
  incoming : Bytes := []

namespace Endpoint

/-- A round of the main loop up to where the command is written. -/
def request (floats : FloatText) (remains : Bytes → Bytes) (rounds : Nat) (client : Endpoint) :
    Except Halt Endpoint :=
  match client.stage with
  | .idle =>
      if client.stream.empty then
        match readCommand floats client.showPrompts remains rounds client.session
          client.console with
        | .error exit => return { client with stage := .ended (some exit) }
        | .ok (.quit, session, console) =>
            return { client with session, console, stage := .ended none }
        | .ok (.again, session, console) => return { client with session, console }
        | .ok (.command cmd, session, console) =>
            return { client with session, console, stage := .sending cmd (writeCommand cmd) }
      else
        return { client with stage := .ended (some .unread) }
  | .sending _ _ | .receiving _ | .ended _ => .error .refused

/-- A round of the loop that sends: the socket takes `count` bytes. -/
def send (count : Nat) (client : Endpoint) : Except Halt Endpoint :=
  match client.stage with
  | .sending cmd rest =>
      if count ≤ rest.length then
        if count = 0 then
          return { client with
            stage := .receiving cmd
            console := client.console.printErr (text "Failed to send command.\n") }
        else
          let unsent := rest.drop count
          return { client with
            outgoing := client.outgoing ++ rest.take count
            stage := if unsent.isEmpty then .receiving cmd else .sending cmd unsent }
      else
        .error .refused
  | .idle | .receiving _ | .ended _ => .error .refused

/-- The complaint about a response that is none. -/
def complain (arrived : Bytes) (console : Console) : Console :=
  match readResponse arrived .monostate with
  | (.invalid, _, _) => console.printErr (text "Received invalid response from server.\n")
  | (.success, _, _) | (.incomplete, _, _) => console

/-- A round of the loop that receives, with the responses that are visited. -/
def recv (floats : FloatText) (data : Bytes) (client : Endpoint) :
    Except Halt (Endpoint × List Response) :=
  match client.stage with
  | .receiving cmd =>
      let console := complain (client.stream.append data).asConstBuffer client.console
      let client := { client with console, incoming := client.incoming ++ data }
      match receiveRound client.stream data with
      | .error fault => return ({ client with stage := .ended (some (.fault fault)) }, [])
      | .ok (again, stream, responses) =>
          match handleAll floats cmd responses client.session client.console with
          | .error fault =>
              return ({ client with stage := .ended (some (.fault fault)) }, responses)
          | .ok (session, console) =>
              let stage := if again then .receiving cmd else .idle
              return ({ client with session, console, stream, stage }, responses)
  | .idle | .sending _ _ | .ended _ => .error .refused

end Endpoint

/-- Neither end has been given what the other one has not sent, and the server no end
of the stream before the client has ended. -/
def Carries (conn : Connection) (client : Endpoint) : Prop :=
  conn.received <+: client.outgoing ∧ client.incoming <+: conn.sent ∧
    (conn.ended = true → client.stage.isEnded = true ∧ conn.received = client.outgoing)

instance (conn : Connection) (client : Endpoint) : Decidable (Carries conn client) :=
  inferInstanceAs (Decidable (_ ∧ _ ∧ _))

structure Network (Store : Type) where
  server : ServerMachine Store
  clients : Nat → Endpoint

namespace Network

variable {Store Coll : Type} (network : Network Store)

def Transported : Prop :=
  ∀ i conn, network.server.world.connections[i]? = some conn → Carries conn (network.clients i)

instance : Decidable network.Transported :=
  decidable_of_iff (∀ entry ∈ network.server.world.connections.zipIdx,
    Carries entry.1 (network.clients entry.2)) (by
      simp only [Transported, Prod.forall, List.mem_zipIdx_iff_getElem?]
      exact forall_comm)

def setClient (i : Nat) (client : Endpoint) : Network Store :=
  { network with clients := Function.update network.clients i client }

/-- What `recv` may give: up to 128 bytes, and none only if the server has closed the
connection. Before it has accepted it there is nothing to be had. -/
def MayGive (i : Nat) (data : Bytes) : Prop :=
  data.length ≤ 128 ∧
    match network.server.world.connections[i]? with
    | none => False
    | some conn => data = [] → conn.released = true

instance (i : Nat) (data : Bytes) : Decidable (network.MayGive i data) :=
  haveI : Decidable (match network.server.world.connections[i]? with
      | none => False
      | some conn => data = [] → conn.released = true) :=
    match network.server.world.connections[i]? with
    | none => .isFalse id
    | some conn => inferInstanceAs (Decidable (data = [] → conn.released = true))
  inferInstanceAs (Decidable (_ ∧ _))

end Network

/-- Who goes on. -/
inductive Action where
  | server (event : Event Callback)
  | request (i : Nat)
  | send (i count : Nat)
  | recv (i : Nat) (data : Bytes)

namespace Network

variable {Store Coll : Type}

section

variable (setup : Setup Nat) (ops : DatabaseOps Store Coll) (alloc : Nat → List Nat → Nat)
  (listener : Fd) (network : Network Store)

/-- What an action does, and the clients that it takes on to their next phase. -/
def perform : Action → Except Halt (Network Store × List Nat)
  | .server event => do
      let server ← network.server.step (host ops alloc listener) event
      return ({ network with server }, (completing network.server).map Prod.fst)
  | .request i => do
      let client ← (network.clients i).request setup.floats setup.remains setup.rounds
      return (network.setClient i client, [i])
  | .send i count => do
      let client ← (network.clients i).send count
      return (network.setClient i client, [])
  | .recv i data =>
      if network.MayGive i data then do
        let (client, responses) ← (network.clients i).recv setup.floats data
        return (network.setClient i client, responses.map fun _ => i)
      else
        .error .refused

/-- An action after which bytes have arrived that nobody has sent is none. -/
def step (action : Action) : Except Halt (Network Store × List Nat) := do
  let (after, moves) ← network.perform setup ops alloc listener action
  if after.Transported then return (after, moves) else .error .refused

end

/-- The server listens, and the clients are at their first prompt. -/
def opening (setup : Setup Nat) (db : Store) : Network Store where
  server := start db
  clients := fun i =>
    { showPrompts := setup.showPrompts i, console := { input := setup.inputs i } }

/-- Sockets take something of what is sent, and clients leave in order: when a connection
is accepted, closed handlers stand behind open ones. -/
def Orderly (network : Network Store) : Action → Prop
  | .server event => SortedAtAccept network.server event
  | .send _ count => count ≠ 0
  | .request _ | .recv _ _ => True

instance (network : Network Store) : (action : Action) → Decidable (network.Orderly action)
  | .server event => inferInstanceAs (Decidable (SortedAtAccept network.server event))
  | .send _ count => inferInstanceAs (Decidable (count ≠ 0))
  | .request _ | .recv _ _ => .isTrue trivial

end Network

end Boutique.Cli
