import Boutique.Io.Sockets
import Boutique.Server.Connections

namespace Boutique.Server

open Boutique.Io Boutique.Io.Sockets World

/-! # The sockets that `accept_handler` handles

Besides the `Socket` objects of the server there is the one that the handler is
given, which has no `Object`. -/

variable {Store : Type} {alloc : Nat → List Nat → Nat} {listener fd : Fd}
  {world arrived : World Store}

/-- Where the socket of a client is. -/
def Client.node (client : Client) : Option Object := some (.client client.address)

/-- The assignments of `std::remove_if`, with the nodes as in `removeClosed`. -/
def assignSteps : List Client → List Client → List (SocketStep (Option Object))
  | _, [] => []
  | [], client :: clients =>
      if client.handler.closed then assignSteps [client] clients
      else assignSteps [] clients
  | dest :: gap, client :: clients =>
      if client.handler.closed then assignSteps (dest :: gap ++ [client]) clients
      else .moveAssign dest.node client.node :: assignSteps (gap ++ [client.movedFrom]) clients

/-- The destructors of the clients that are erased. -/
def destroySteps (erased : List Client) : List (SocketStep (Option Object)) :=
  erased.map fun client => .destroy client.node

def reapSteps (clients : List Client) : List (SocketStep (Option Object)) :=
  assignSteps [] clients ++ destroySteps (removeClosed [] clients).2

/-- `accept_handler`. The parameters that the socket passes through on its way into
the new client are taken together. -/
def handlerSteps (alloc : List Nat → Nat) (clients : List Client) :
    List (SocketStep (Option Object)) :=
  let address := alloc ((removeClosed [] clients).1.map Client.address)
  reapSteps clients ++ [.moveConstruct (some (.client address)) none, .destroy none]

/-- The nodes of clients are live and hold their descriptors. -/
def Mirrors (s : Sockets (Option Object)) (clients : List Client) : Prop :=
  ∀ client ∈ clients, s.objects client.node = some client.socket

/-- The sockets are those of the server, of its clients and, if there is one, the
`given` one. What is open is what it listens on and its connections. -/
structure Mirrored (listener : Fd) (s : Sockets (Option Object)) (world : World Store)
    (given : Option (Option Fd)) : Prop where
  listening : s.objects (some .listener) = some (some listener)
  clients : Mirrors s world.clients
  free : ∀ address ∉ world.clients.map Client.address, s.objects (some (.client address)) = none
  given : s.objects none = given
  opened : ∀ fd, fd ∈ s.table.opened ↔
    fd = listener ∨ ∃ conn ∈ world.connections, conn.released = false ∧ conn.fd = fd

variable {s : Sockets (Option Object)} {client dest : Client}
  {clients gap erased : List Client}

theorem mem_nodes {address : Nat} : some (.client address) ∈ clients.map Client.node ↔
    address ∈ clients.map Client.address := by
  simp [Client.node]

theorem removeClosed_nodes (gap clients : List Client) :
    ((removeClosed gap clients).1 ++ (removeClosed gap clients).2).map Client.node =
      (gap ++ clients).map Client.node := by
  induction clients generalizing gap with
  | nil => rw [removeClosed, List.nil_append, List.append_nil]
  | cons client clients ih =>
      cases gap with
      | nil =>
          rw [removeClosed]
          split
          · exact ih [client]
          · exact congrArg (client.node :: ·) (ih [])
      | cons dest gap =>
          rw [removeClosed]
          split
          · rw [ih, List.append_assoc]
            rfl
          · refine (congrArg (dest.node :: ·) (ih (gap ++ [client.movedFrom]))).trans ?_
            simp [Client.node, Client.movedFrom]

theorem moveAssign_step {place other : Option Object} {target value : Option Fd}
    (live : s.objects place = some target) (source : s.objects other = some value) :
    s.step (.moveAssign place other) = some (s.takeFrom place other value) := by
  simp only [step, live, source, moveAssign]

/-- One assignment, with the nodes between the two and behind them. -/
theorem Mirrors.assign (nodup : ((dest :: gap ++ client :: clients).map Client.node).Nodup)
    (mirrors : Mirrors s (dest :: gap ++ client :: clients)) :
    let after := s.takeFrom dest.node client.node client.socket
    s.step (.moveAssign dest.node client.node) = some after ∧
      after.objects dest.node = some client.socket ∧
      Mirrors after (gap ++ [client.movedFrom] ++ clients) ∧
      ∀ place ∉ (dest :: gap ++ client :: clients).map Client.node,
        after.objects place = s.objects place := by
  intro after
  obtain ⟨target, mirrors⟩ := List.forall_mem_cons.mp mirrors
  have source := mirrors client (List.mem_append_right _ List.mem_cons_self)
  rw [List.cons_append, List.map_cons, List.nodup_cons] at nodup
  obtain ⟨notTarget, nodup⟩ := nodup
  rw [List.map_append, List.map_cons, List.nodup_middle, List.nodup_cons,
    ← List.map_append] at nodup
  have elsewhere {place : Option Object} (target : place ≠ dest.node)
      (source : place ≠ client.node) : after.objects place = s.objects place := by
    simp only [after, takeFrom, Function.update_apply, target, source, if_false]
  have apart : client.node ≠ dest.node := by
    intro same
    rw [← same] at notTarget
    exact notTarget (List.mem_map_of_mem (List.mem_append_right _ List.mem_cons_self))
  refine ⟨moveAssign_step target source, Function.update_self .., ?_, ?_⟩
  · intro other member
    rw [List.append_assoc, List.mem_append, List.singleton_append, List.mem_cons,
      or_left_comm, ← List.mem_append] at member
    rcases member with rfl | member
    · change after.objects client.node = some none
      simp only [after, takeFrom, Function.update_apply, apart, if_false, if_true]
    · have among : other ∈ gap ++ client :: clients := by
        simp only [List.mem_append, List.mem_cons] at member ⊢
        rcases member with front | behind
        · exact .inl front
        · exact .inr (.inr behind)
      rw [elsewhere]
      · exact mirrors other among
      · intro same
        exact notTarget (same ▸ List.mem_map_of_mem among)
      · intro same
        exact nodup.1 (same ▸ List.mem_map_of_mem member)
  · intro place outside
    apply elsewhere
    · intro same
      exact outside (same ▸ List.mem_cons_self)
    · intro same
      rw [same] at outside
      exact outside (List.mem_map_of_mem (List.mem_append_right _ List.mem_cons_self))

/-- The assignments leave the sockets of the clients in the nodes where
`removeClosed` has them, and no descriptor is closed. -/
theorem assignSteps_run (gap : List Client) (nodup : ((gap ++ clients).map Client.node).Nodup)
    (mirrors : Mirrors s (gap ++ clients)) :
    ∃ after, s.run (assignSteps gap clients) = some after ∧ after.table = s.table ∧
      Mirrors after ((removeClosed gap clients).1 ++ (removeClosed gap clients).2) ∧
      ∀ place ∉ (gap ++ clients).map Client.node, after.objects place = s.objects place := by
  induction clients generalizing gap s with
  | nil =>
      rw [List.append_nil] at mirrors
      rw [assignSteps.eq_def, removeClosed]
      exact ⟨s, rfl, rfl, mirrors, fun _ _ => rfl⟩
  | cons client clients ih =>
      cases gap with
      | nil =>
          rw [assignSteps.eq_def, removeClosed]
          dsimp only
          split
          · exact ih [client] nodup mirrors
          · rw [List.nil_append, List.map_cons, List.nodup_cons] at nodup
            obtain ⟨first, rest⟩ := List.forall_mem_cons.mp mirrors
            obtain ⟨after, ran, table, mirrored, frame⟩ := ih [] nodup.2 rest
            refine ⟨after, ran, table, List.forall_mem_cons.mpr ⟨?_, mirrored⟩, ?_⟩
            · exact (frame _ nodup.1).trans first
            · intro place outside
              exact frame place fun inside => outside (List.mem_cons_of_mem _ inside)
      | cons dest gap =>
          rw [assignSteps.eq_def, removeClosed]
          dsimp only
          split
          · have joined : dest :: gap ++ client :: clients =
                dest :: gap ++ [client] ++ clients := by simp
            rw [joined] at nodup mirrors ⊢
            exact ih _ nodup mirrors
          · have nodes : (gap ++ [client.movedFrom] ++ clients).map Client.node =
                (gap ++ client :: clients).map Client.node := by
              simp [Client.node, Client.movedFrom]
            obtain ⟨stepped, target, mirrors, others⟩ := mirrors.assign nodup
            rw [List.cons_append, List.map_cons, List.nodup_cons, ← nodes] at nodup
            obtain ⟨after, ran, table, mirrored, frame⟩ := ih _ nodup.2 mirrors
            refine ⟨after, ?_, table, List.forall_mem_cons.mpr ⟨?_, mirrored⟩, ?_⟩
            · rw [run_cons stepped, ran]
            · exact (frame _ nodup.1).trans target
            · intro place outside
              rw [← others place outside]
              apply frame
              rw [nodes]
              exact fun inside => outside (List.mem_cons_of_mem _ inside)

theorem mem_opened_close {table : Descriptors} {fd found : Fd} :
    found ∈ (table.close fd).opened ↔ found ∈ table.opened ∧ found ≠ fd := by
  rw [Descriptors.close]
  split
  · simp
  · rename_i absent
    refine ⟨fun member => ⟨member, fun same => ?_⟩, And.left⟩
    rw [same] at member
    exact absent member

/-- The destructors end the nodes and close the descriptors that they hold. -/
theorem destroySteps_run (nodup : (erased.map Client.node).Nodup) (mirrors : Mirrors s erased) :
    ∃ after, s.run (destroySteps erased) = some after ∧
      (∀ place ∈ erased.map Client.node, after.objects place = none) ∧
      (∀ place ∉ erased.map Client.node, after.objects place = s.objects place) ∧
      ∀ fd, fd ∈ after.table.opened ↔
        fd ∈ s.table.opened ∧ ∀ client ∈ erased, client.socket ≠ some fd := by
  induction erased generalizing s with
  | nil => exact ⟨s, rfl, nofun, fun _ _ => rfl, fun fd => (and_iff_left nofun).symm⟩
  | cons client erased ih =>
      obtain ⟨live, rest⟩ := List.forall_mem_cons.mp mirrors
      obtain ⟨first, nodup⟩ := List.nodup_cons.mp nodup
      have stepped : s.step (.destroy client.node) =
          some (s.destroy client.node client.socket) := by
        simp only [step, live]
      have elsewhere {place : Option Object} (apart : place ≠ client.node) :
          (s.destroy client.node client.socket).objects place = s.objects place :=
        Function.update_of_ne apart ..
      have mirrors : Mirrors (s.destroy client.node client.socket) erased := by
        intro other member
        rw [elsewhere fun same => first (same ▸ List.mem_map_of_mem member)]
        exact rest other member
      obtain ⟨after, ran, ended, frame, opened⟩ := ih nodup mirrors
      refine ⟨after, (run_cons stepped _).trans ran, List.forall_mem_cons.mpr ⟨?_, ended⟩, ?_, ?_⟩
      · rw [frame _ first]
        exact Function.update_self ..
      · intro place outside
        rw [List.map_cons, List.mem_cons, not_or] at outside
        rw [frame place outside.2, elsewhere outside.1]
      · intro fd
        rw [opened, List.forall_mem_cons, ← and_assoc]
        refine and_congr_left fun _ => ?_
        cases socket : client.socket with
        | none => simp [Sockets.destroy]
        | some held =>
            rw [Sockets.destroy, mem_opened_close, ne_comm, Ne, Ne, Option.some.injEq]

/-- The whole reaping. -/
theorem reapSteps_run (nodup : (clients.map Client.node).Nodup) (mirrors : Mirrors s clients) :
    ∃ after, s.run (reapSteps clients) = some after ∧
      Mirrors after (removeClosed [] clients).1 ∧
      (∀ place ∈ clients.map Client.node,
        place ∉ (removeClosed [] clients).1.map Client.node → after.objects place = none) ∧
      (∀ place ∉ clients.map Client.node, after.objects place = s.objects place) ∧
      ∀ fd, fd ∈ after.table.opened ↔ fd ∈ s.table.opened ∧
        ∀ client ∈ (removeClosed [] clients).2, client.socket ≠ some fd := by
  obtain ⟨next, assigned, table, mirrored, others⟩ := assignSteps_run [] nodup mirrors
  have nodes := removeClosed_nodes [] clients
  rw [List.nil_append] at nodes others
  rw [← nodes, List.map_append, List.nodup_append'] at nodup
  obtain ⟨_, nodup, apart⟩ := nodup
  obtain ⟨kept, gone⟩ := List.forall_mem_append.mp mirrored
  obtain ⟨after, destroyed, ended, frame, opened⟩ := destroySteps_run nodup gone
  rw [table] at opened
  refine ⟨after, (run_append assigned _).trans destroyed, ?_, ?_, ?_, opened⟩
  · intro client member
    rw [frame _ fun inside => apart (List.mem_map_of_mem member) inside]
    exact kept client member
  · intro place inside outside
    rw [← nodes, List.map_append, List.mem_append] at inside
    exact ended place (inside.resolve_left outside)
  · intro place outside
    rw [frame place, others place outside]
    intro inside
    rw [← nodes, List.map_append, List.mem_append] at outside
    exact outside (.inr inside)

/-! ## When the descriptors stay owned -/

theorem destroySteps_keeps (erased : List Client) : Along Keeps s (destroySteps erased) := by
  induction erased generalizing s with
  | nil => trivial
  | cons client erased ih =>
      rw [destroySteps, List.map_cons, Along]
      split
      · trivial
      · exact ⟨trivial, ih⟩

theorem assignSteps_closed (closed : ∀ client ∈ clients, client.handler.closed = true)
    (gap : List Client) : assignSteps gap clients = [] := by
  induction clients generalizing gap with
  | nil => rw [assignSteps.eq_def]
  | cons client clients ih =>
      obtain ⟨first, rest⟩ := List.forall_mem_cons.mp closed
      cases gap with
      | nil =>
          rw [assignSteps.eq_def]
          exact (if_pos first).trans (ih rest _)
      | cons dest gap =>
          rw [assignSteps.eq_def]
          exact (if_pos first).trans (ih rest _)

/-- The first open client behind a closed one is assigned to it. -/
theorem closed_of_keeps (gap : List Client)
    (nodup : ((dest :: gap ++ clients).map Client.node).Nodup)
    (mirrors : Mirrors s (dest :: gap ++ clients)) (holds : dest.socket ≠ none)
    (keeps : Along Keeps s (assignSteps (dest :: gap) clients)) :
    ∀ client ∈ clients, client.handler.closed = true := by
  induction clients generalizing gap with
  | nil => nofun
  | cons client clients ih =>
      rw [assignSteps.eq_def] at keeps
      dsimp only at keeps
      by_cases closed : client.handler.closed = true
      · rw [if_pos closed] at keeps
        have joined : dest :: gap ++ client :: clients =
            dest :: (gap ++ [client]) ++ clients := by simp
        rw [joined] at nodup mirrors
        exact List.forall_mem_cons.mpr ⟨closed, ih _ nodup mirrors keeps⟩
      · rw [if_neg closed] at keeps
        have assigned := ((along_cons (mirrors.assign nodup).1).mp keeps).1
        have live : s.objects dest.node = some dest.socket := mirrors dest List.mem_cons_self
        have apart : dest.node ≠ client.node := by
          intro same
          rw [List.cons_append, List.map_cons, List.nodup_cons, same] at nodup
          exact nodup.1 (List.mem_map_of_mem (List.mem_append_right _ List.mem_cons_self))
        rw [Keeps, live] at assigned
        exact absurd (Option.some.inj (assigned apart)) holds

theorem assignSteps_keeps_iff (nodup : (clients.map Client.node).Nodup)
    (mirrors : Mirrors s clients) (held : ∀ client ∈ clients, client.socket ≠ none) :
    Along Keeps s (assignSteps [] clients) ↔ Sorted clients := by
  induction clients with
  | nil => exact iff_of_true trivial List.Pairwise.nil
  | cons client clients ih =>
      rw [assignSteps.eq_def, Sorted, List.pairwise_cons]
      dsimp only
      by_cases closed : client.handler.closed = true
      · rw [if_pos closed]
        constructor
        · intro keeps
          have behind := closed_of_keeps [] nodup mirrors (held _ List.mem_cons_self) keeps
          exact ⟨fun other member _ => behind other member,
            List.pairwise_of_forall_mem_list fun _ _ other member _ => behind other member⟩
        · intro sorted
          rw [assignSteps_closed fun other member => sorted.1 other member closed]
          trivial
      · obtain ⟨_, mirrors⟩ := List.forall_mem_cons.mp mirrors
        obtain ⟨_, held⟩ := List.forall_mem_cons.mp held
        rw [if_neg closed, ih (List.nodup_cons.mp nodup).2 mirrors held]
        exact (and_iff_right fun _ _ isClosed => absurd isClosed closed).symm

/-- The reaping keeps the descriptors owned just when no open client stands
behind a closed one. -/
theorem reapSteps_keeps_iff (nodup : (clients.map Client.node).Nodup)
    (mirrors : Mirrors s clients) (held : ∀ client ∈ clients, client.socket ≠ none) :
    Along Keeps s (reapSteps clients) ↔ Sorted clients := by
  obtain ⟨next, assigned, _, _⟩ := assignSteps_run [] nodup mirrors
  rw [reapSteps, along_append assigned, assignSteps_keeps_iff nodup mirrors held]
  exact and_iff_left (destroySteps_keeps _)

/-! ## Accepting -/

theorem removeClosed_sockets (gap clients : List Client) :
    ∀ client ∈ (removeClosed gap clients).2, client.socket ≠ none →
      ∃ other ∈ gap ++ clients, other.socket = client.socket := by
  induction clients generalizing gap with
  | nil =>
      intro client member _
      rw [removeClosed] at member
      exact ⟨client, List.mem_append_left _ member, rfl⟩
  | cons first clients ih =>
      intro client member holds
      cases gap with
      | nil =>
          rw [removeClosed] at member
          split at member
          · exact ih [first] client member holds
          · obtain ⟨other, among, same⟩ := ih [] client member holds
            exact ⟨other, List.mem_cons_of_mem _ among, same⟩
      | cons dest gap =>
          rw [removeClosed] at member
          split at member
          · obtain ⟨other, among, same⟩ := ih _ client member holds
            rw [List.append_assoc] at among
            exact ⟨other, among, same⟩
          · obtain ⟨other, among, same⟩ := ih _ client member holds
            simp only [List.mem_append, List.mem_singleton] at among
            rcases among with (front | rfl) | behind
            · exact ⟨other, List.mem_cons_of_mem _ (List.mem_append_left _ front), same⟩
            · exact absurd same.symm holds
            · exact ⟨other, List.mem_append_right _ (List.mem_cons_of_mem _ behind), same⟩

theorem accept_ne_listener {object : Object}
    (opened : world.accept listener object fd = .ok arrived) : fd ≠ listener := by
  simp only [World.accept] at opened
  split at opened
  · split at opened
    · rename_i unused
      exact unused.1
    · cases opened
  · cases opened

theorem open_destroy {found : Fd} :
    (∃ conn ∈ (world.destroy erased).connections, conn.released = false ∧ conn.fd = found) ↔
      (∃ conn ∈ world.connections, conn.released = false ∧ conn.fd = found) ∧
        ∀ client ∈ erased, client.socket ≠ some found := by
  constructor
  · intro ⟨_, inside, unreleased, same⟩
    obtain ⟨conn, present, rfl⟩ := List.mem_map.mp inside
    obtain ⟨unreleased, apart⟩ := destroy_released.mp unreleased
    subst same
    exact ⟨⟨conn, present, unreleased, rfl⟩, apart⟩
  · intro ⟨⟨conn, present, unreleased, same⟩, apart⟩
    subst same
    exact ⟨_, List.mem_map_of_mem present, destroy_released.mpr ⟨unreleased, apart⟩, rfl⟩

/-- A socket goes where there is none, and what it is moved from ends. -/
theorem handOver_run {place other : Option Object} {value : Option Fd}
    (free : s.objects place = none) (source : s.objects other = some value) :
    ∃ after, s.run [.moveConstruct place other, .destroy other] = some after ∧
      after.table = s.table ∧
      after.objects =
        Function.update (Function.update s.objects other none) place (some value) := by
  have apart : other ≠ place := by
    intro same
    rw [same, free] at source
    cases source
  have moved : s.step (.moveConstruct place other) = some (s.takeFrom place other value) := by
    simp only [step, free, source, moveConstruct]
  have emptied : (s.takeFrom place other value).objects other = some none := by
    simp only [takeFrom, Function.update_apply, apart, if_false, if_true]
  have ended : (s.takeFrom place other value).step (.destroy other) =
      some ((s.takeFrom place other value).destroy other none) := by
    simp only [step, emptied]
  refine ⟨_, (run_cons moved _).trans (run_cons ended _), rfl, ?_⟩
  simp only [Sockets.destroy, takeFrom]
  rw [Function.update_comm apart, Function.update_idem]
  exact Function.update_comm apart.symm ..

theorem handOver_keeps (s : Sockets (Option Object)) (place other : Option Object) :
    Along Keeps s [.moveConstruct place other, .destroy other] := by
  rw [Along]
  split
  · trivial
  · rw [Along]
    split
    · exact ⟨trivial, trivial⟩
    · exact ⟨trivial, trivial, trivial⟩

/-- `Socket::accept` gives the handler a socket. -/
theorem Mirrored.accept (mirrored : Mirrored listener s world none) {object : Object}
    (opened : world.accept listener object fd = .ok arrived) :
    ∃ after, s.step (.accept (some .listener) none (.accepted fd)) = some after ∧
      Mirrored listener after arrived (some (some fd)) := by
  have apart := accept_ne_listener opened
  obtain ⟨released, rfl⟩ := accept_ok opened
  have unused : s.Unused (some fd) := by
    intro found same isOpen
    cases same
    rcases (mirrored.opened fd).mp isOpen with same | ⟨conn, inside, unreleased, same⟩
    · exact apart same
    · rw [released conn inside same] at unreleased
      cases unreleased
  have others (object : Object) :
      (s.construct none (.ok fd, s.table.give fd)).objects (some object) =
        s.objects (some object) := by
    simp only [construct, Function.update_of_ne (Option.some_ne_none object)]
  refine ⟨s.construct none (.ok fd, s.table.give fd), ?_, ?_, ?_, ?_, ?_, ?_⟩
  · simp only [step, mirrored.listening, mirrored.given, acceptSocket, if_pos unused]
  · rw [others, mirrored.listening]
  · intro client member
    exact (others _).trans (mirrored.clients client member)
  · intro address new
    rw [others, mirrored.free address new]
  · simp only [construct, Function.update_self]
  · intro found
    change found ∈ fd :: s.table.opened ↔ _
    rw [List.mem_cons, mirrored.opened, or_left_comm]
    simp only [List.mem_append, List.mem_singleton, or_and_right, exists_or, exists_eq_left,
      true_and, eq_comm (a := fd), or_comm (a := found = fd)]

/-- The handler does to the sockets what it does to the clients and connections. -/
theorem Mirrored.handle (mirrored : Mirrored listener s world (some (some fd)))
    (owned : s.Owned) (nodup : (world.clients.map Client.node).Nodup)
    (fresh : ∀ count used, alloc count used ∉ used) :
    ∃ after, s.run (handlerSteps (alloc world.connections.length) world.clients) = some after ∧
      Mirrored listener after (world.acceptHandler alloc fd).1 none := by
  obtain ⟨next, reaped, kept, ended, frame, opened⟩ := reapSteps_run nodup mirrored.clients
  have given : next.objects none = some (some fd) := by
    rw [frame none (by simp [Client.node]), mirrored.given]
  have listening : next.objects (some .listener) = some (some listener) := by
    rw [frame (some .listener) (by simp [Client.node]), mirrored.listening]
  have free (address : Nat) (outside : address ∉ (removeClosed [] world.clients).1.map
      Client.address) : next.objects (some (.client address)) = none := by
    by_cases inside : address ∈ world.clients.map Client.address
    · exact ended _ (mem_nodes.mpr inside) fun among => outside (mem_nodes.mp among)
    · rw [frame _ fun among => inside (mem_nodes.mp among), mirrored.free address inside]
  have new := fresh world.connections.length
    ((removeClosed [] world.clients).1.map Client.address)
  obtain ⟨after, handed, table, objects⟩ := handOver_run (free _ new) given
  have others {object : Object}
      (apart : object ≠ .client (alloc world.connections.length
        ((removeClosed [] world.clients).1.map Client.address))) :
      after.objects (some object) = next.objects (some object) := by
    simp only [objects, Function.update_apply, reduceCtorEq, if_false, Option.some.injEq, apart]
  refine ⟨after, (run_append reaped _).trans handed, ?_, ?_, ?_, ?_, ?_⟩
  · exact (others (by simp)).trans listening
  · refine List.forall_mem_append.mpr ⟨fun client member => ?_, fun client member => ?_⟩
    · refine (others ?_).trans (kept client member)
      intro same
      rw [← Object.client.inj same] at new
      exact new (List.mem_map_of_mem member)
    · rw [List.mem_singleton.mp member, objects]
      exact Function.update_self ..
  · intro address outside
    simp only [acceptHandler, List.map_append, List.mem_append, not_or, List.map_cons,
      List.map_nil, List.mem_singleton] at outside
    rw [others (by simpa using outside.2), free address outside.1]
  · simp [objects]
  · intro found
    change _ ↔ found = listener ∨
      ∃ conn ∈ (world.destroy (removeClosed [] world.clients).2).connections,
        conn.released = false ∧ conn.fd = found
    rw [table, opened, mirrored.opened, open_destroy, or_and_right]
    refine or_congr_left (and_iff_left_of_imp ?_)
    intro same client member holds
    subst same
    obtain ⟨other, among, held⟩ := removeClosed_sockets [] world.clients client member
      (holds ▸ Option.some_ne_none found)
    have otherHolds : s.Holds other.node found :=
      (mirrored.clients other among).trans (congrArg some (held.trans holds))
    cases Option.some.inj (owned.single otherHolds mirrored.listening)

/-- It keeps the descriptors owned just when the reaping does. -/
theorem handlerSteps_keeps_iff (alloc : List Nat → Nat)
    (nodup : (clients.map Client.node).Nodup) (mirrors : Mirrors s clients)
    (held : ∀ client ∈ clients, client.socket ≠ none) :
    Along Keeps s (handlerSteps alloc clients) ↔ Sorted clients := by
  obtain ⟨next, reaped, _⟩ := reapSteps_run nodup mirrors
  rw [handlerSteps, along_append reaped, reapSteps_keeps_iff nodup mirrors held]
  exact and_iff_left (handOver_keeps next _ none)

end Boutique.Server
