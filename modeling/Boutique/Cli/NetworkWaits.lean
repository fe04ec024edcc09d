import Boutique.Cli.NetworkRuns

namespace Boutique.Cli

open Boutique.Core Boutique.Data Boutique.Db Boutique.Io Boutique.Protocol Boutique.Server

/-! # Clients that wait -/

variable {std : StdHash} {setup : Setup Nat} {listener : Fd} {network : Network Database}
  {world : World Nat} {history : List (Nat × Command)} {issued : List (Nat × Response)}
  {i address : Nat} {cmd : Command} {conn : Connection}

namespace Mirrors

section

variable (mirrors : Mirrors std setup listener network world history issued)
include mirrors

theorem holder (quiet : network.server.stack = []) (running : conn.ended = false)
    (found : network.server.world.connections[i]? = some conn) :
    ∃ address, address ∈ network.server.world.openAddresses ∧
      network.server.world.connectionOf address = some i := by
  obtain ⟨_, _, _, kept⟩ := mirrors.kept
  replace kept := kept.quiet quiet
  have unreleased : conn.released = false := by
    cases released : conn.released with
    | false => rfl
    | true => cases running.symm.trans (kept.finished (List.mem_of_getElem? found) released)
  obtain ⟨client, member, socket, known⟩ :=
    kept.consistent.client_of_connection found unreleased
  have serves := kept.consistent.serves client member conn (List.mem_of_getElem? found)
    unreleased socket
  exact ⟨client.address,
    Server.World.mem_openAddresses.mpr ⟨client, member, serves.closed.symm.trans running, rfl⟩,
    known⟩

/-- A handler that is not closed has asked for more. -/
theorem asks (quiet : network.server.stack = []) (outside : network.server.ready = none)
    (isOpen : address ∈ network.server.world.openAddresses) :
    recvOp address ∈ network.server.context.recv.fresh := by
  obtain ⟨_, _, _, kept⟩ := mirrors.kept
  replace kept := kept.quiet quiet
  obtain ⟨recvIdle, _, _, _⟩ := kept.idle outside
  obtain ⟨addresses, submitted, owed⟩ := kept.receiving
  rw [List.append_nil] at owed
  rw [← recvIdle.waiting_eq, submitted]
  exact List.mem_map_of_mem (owed.mem_iff.mpr isOpen)

end

end Mirrors

/-- The command whose response a client waits for. -/
def Stage.command : Stage → Option Command
  | .receiving cmd => some cmd
  | .idle | .sending _ _ | .ended _ => none

end Boutique.Cli
