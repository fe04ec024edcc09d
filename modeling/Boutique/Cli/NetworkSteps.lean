import Boutique.Cli.Links

namespace Boutique.Cli

open Boutique.Core Boutique.Data Boutique.Db Boutique.Io Boutique.Protocol Boutique.Server

/-! # Steps of clients on their connections -/

variable {std : StdHash} {setup : Setup Nat} {alloc : Nat → List Nat → Nat} {listener : Fd}
  {network after : Network Database} {world : World Nat} {history : List (Nat × Command)}
  {issued : List (Nat × Response)} {action : Action} {moves : List Nat}

/-- The clients and the server are where those of `world` are: `history` are the commands
that have been served, with the connections of the clients, and `issued` the responses. -/
structure Agrees (std : StdHash) (network : Network Database) (world : World Nat)
    (history : List (Nat × Command)) (issued : List (Nat × Response)) : Prop where
  served : Served True (databaseOps std) {} network.server history issued
  represents : Represents std network.server.world.db world.cat
  linked : ∀ i, Linked (network.clients i) (ownedBy i history) (ownedBy i issued) (world.clients i)

/-- What stays true with that. -/
structure Mirrors (std : StdHash) (setup : Setup Nat) (listener : Fd) (network : Network Database)
    (world : World Nat) (history : List (Nat × Command)) (issued : List (Nat × Response)) : Prop
    extends Agrees std network world history issued where
  transported : network.Transported
  sound : world.Sound setup.floats setup.Said
  kept : ∃ base owed rearm, Kept True listener network.server base owed rearm
  one : OneEach network.server
  commands : ∀ entry ∈ history, entry.2.Encodable
  responses : ∀ entry ∈ issued, entry.2.Encodable

theorem Client.Sound.proper {floats : FloatText} {said : List Bytes → Prop} {cat : Catalogue}
    {client : Client} (sound : client.Sound floats said cat) : client.phase.Proper := by
  have phase := sound.phase
  generalize client.phase = now at phase
  cases now with
  | sent cmd => exact phase.2
  | idle | answered | ended => trivial

theorem Network.step_ok
    (stepped : network.step setup (databaseOps std) alloc listener action = .ok (after, moves)) :
    network.perform setup (databaseOps std) alloc listener action = .ok (after, moves) ∧
      after.Transported := by
  obtain ⟨⟨after', moves'⟩, performed, checked⟩ := bind_ok_iff.mp stepped
  dsimp only at checked
  split at checked
  · rename_i transported
    cases checked
    exact ⟨performed, transported⟩
  · cases checked

theorem Network.perform_recv {i : Nat} {data : Bytes}
    (performed : network.perform setup (databaseOps std) alloc listener (.recv i data) =
      .ok (after, moves)) :
    ∃ endpoint responses, network.MayGive i data ∧
      (network.clients i).recv setup.floats data = .ok (endpoint, responses) ∧
      after = network.setClient i endpoint ∧ moves = responses.map fun _ => i := by
  rw [Network.perform] at performed
  split at performed
  · rename_i may
    obtain ⟨⟨endpoint, responses⟩, given, performed⟩ := bind_ok_iff.mp performed
    cases performed
    exact ⟨endpoint, responses, may, given, rfl, rfl⟩
  · cases performed

/-- The receive of a handler that runs. -/
theorem reading_of_running {m : ServerMachine Database} {base : Server.World Database}
    {owed : List Nat} {rearm : List (AcceptOp Object Callback)} {address argument : Nat}
    {stack : List (Callback × Nat)} (kept : Kept True listener m base owed rearm)
    (running : m.stack = (.recvHandler address, argument) :: stack) :
    ∃ data index reader earlier before cmds left left' stuck stuck',
      m.stack = [(.recvHandler address, data.length)] ∧ argument = data.length ∧ stack = [] ∧
      Reading m address index data reader earlier before cmds left left' stuck stuck' := by
  have phase := kept.phase
  rw [running] at phase
  cases phase with
  | @receiving _ _ data arrived =>
      obtain ⟨index, reader, earlier, before, cmds, left, left', stuck, stuck', reading⟩ :=
        kept.reading arrived
      exact ⟨data, index, reader, earlier, before, cmds, left, left', stuck, stuck', running, rfl,
        rfl, reading⟩

theorem answerAll_sent {i : Nat} {cmd : Command} (now : (world.clients i).phase = .sent cmd) :
    answerAll setup.step world [i] =
      (World.setClient { world with cat := (world.cat.answer cmd).1 } i
        { world.clients i with phase := .answered cmd (world.cat.answer cmd).2 }, [cmd]) := by
  rw [answerAll_cons, Setup.step, World.step]
  dsimp only
  rw [now]
  rfl

namespace Mirrors

variable (mirrors : Mirrors std setup listener network world history issued)

include mirrors

/-! ## Connections -/

/-- Nothing that has reached the server is malformed, and what a connection is sent are
its responses. -/
theorem explained {index : Nat} {conn : Connection}
    (found : network.server.world.connections[index]? = some conn) :
    ∃ handled left, conn.received = handled ++ arriving network.server index ∧
      Drains nextCommand handled (ownedBy index history) left false ∧
      conn.sent ++ unsent network.server index = told (ownedBy index issued) := by
  obtain ⟨handled, left, stuck, complaints, explained⟩ := mirrors.served.each index conn found
  obtain ⟨reached, _, _⟩ := mirrors.transported index conn found
  have drained := explained.drained
  rw [← List.append_nil (ownedBy index history)] at drained
  have front : handled <+: (network.clients index).outgoing := by
    refine List.IsPrefix.trans ?_ reached
    rw [explained.received]
    exact List.prefix_append _ _
  obtain ⟨rfl, _⟩ := (mirrors.linked index).link.drains
    (fun cmd member => mirrors.commands _ (mem_ownedBy.mp member))
    (mirrors.sound.clients index).proper front drained
  have none : complaints = 0 := by
    by_contra some
    cases explained.complained.mpr some
  have sent := explained.sent trivial
  rw [none, List.replicate_zero, List.append_nil] at sent
  exact ⟨handled, left, explained.received, explained.drained, sent⟩

/-- A client that has been given all its responses leaves nothing to be sent to it. -/
theorem settled {index address : Nat}
    (known : network.server.world.connectionOf address = some index)
    (arrived : (network.clients index).incoming = told (ownedBy index issued)) :
    ∀ op ∈ network.server.context.send.waiting, op.socket ≠ .client address := by
  have found := List.getElem?_eq_getElem (Server.World.connectionOf_lt known)
  obtain ⟨_, _, _, _, sent⟩ := mirrors.explained found
  obtain ⟨_, taken, _⟩ := mirrors.transported index _ found
  obtain ⟨more, taken⟩ := taken
  rw [← taken, ← arrived, List.append_assoc] at sent
  have all : (network.clients index).incoming ++ (more ++ unsent network.server index) =
      (network.clients index).incoming ++ [] := sent.trans (List.append_nil _).symm
  have none := (List.append_eq_nil_iff.mp (List.append_cancel_left all)).2
  exact mirrors.one.nothing_waits known none

/-- Who leaves has been given its responses. -/
theorem unsentAtAccept {event : Event Callback} {server : ServerMachine Database}
    (stepped : network.server.step (host (databaseOps std) alloc listener) event = .ok server) :
    UnsentAtAccept network.server event := by
  cases Machine.step_move stepped with
  | accept quiet =>
      obtain ⟨_, _, _, kept⟩ := mirrors.kept
      have consistent := (kept.quiet quiet).consistent
      intro client member closed op waits
      obtain ⟨index, known⟩ := consistent.connectionOf_client (List.mem_map_of_mem member)
      obtain ⟨fd, holds, found⟩ := Server.World.connectionOf_some_iff.mp known
      obtain ⟨inside, here, _⟩ := List.findIdx?_eq_some_iff_getElem.mp found
      obtain ⟨fd_eq, unreleased⟩ := of_decide_eq_true here
      rw [consistent.client?_eq member] at holds
      have serves := consistent.serves client member _ (List.getElem_mem inside) unreleased
        (fd_eq ▸ holds)
      obtain ⟨_, _, ends⟩ :=
        mirrors.transported index _ (List.getElem?_eq_getElem inside)
      obtain ⟨ended, _⟩ := ends (serves.closed.trans closed)
      exact mirrors.settled known ((mirrors.linked index).link.settled_of_ended ended) op waits
  | resume | call | start | «return» | select | passRecv | recv | passSend | send | passAccept
  | passWait | wait | merge => trivial

/-! ## Handlers -/

/-- Of the commands that a handler is about to execute there is one at most, whose client
waits for it. -/
theorem reading {address index : Nat} {data : Bytes} {reader : Server.Client}
    {earlier : Connection} {before cmds : List Command} {left left' : Bytes} {stuck stuck' : Bool}
    (running : network.server.stack = [(.recvHandler address, data.length)])
    (reading : Reading network.server address index data reader earlier before cmds left left' stuck
      stuck') :
    stuck' = false ∧ (cmds = [] ∨ ∃ cmd, cmds = [cmd] ∧
      (network.clients index).stage = .receiving cmd ∧
      (world.clients index).phase = .sent cmd) := by
  obtain ⟨handled, left, received, drained, _⟩ := mirrors.explained reading.found
  rw [reading.arriving_eq running, if_pos rfl] at received
  obtain rfl := List.append_cancel_right received
  obtain ⟨rfl, _, _⟩ := drained.deterministic reading.drained
  obtain ⟨reached, _, _⟩ := mirrors.transported index _ reading.found
  exact (mirrors.linked index).link.drains
    (fun cmd member => mirrors.commands _ (mem_ownedBy.mp member))
    (mirrors.sound.clients index).proper reached reading.whole

theorem completing_cases :
    completing network.server = [] ∨ ∃ i cmd, completing network.server = [(i, cmd)] ∧
      (network.clients i).stage = .receiving cmd ∧ (world.clients i).phase = .sent cmd := by
  obtain ⟨base, owed, rearm, kept⟩ := mirrors.kept
  have phase := kept.phase
  generalize running : network.server.stack = stack at phase
  cases phase with
  | quiet | responding | accepting | rearming | sent =>
      rw [completing, running]
      exact .inl rfl
  | receiving arrived =>
      obtain ⟨index, _, _, _, cmds, _, _, _, _, reading⟩ := kept.reading arrived
      rw [reading.completing_eq running]
      obtain ⟨_, rfl | ⟨cmd, rfl, waits⟩⟩ := mirrors.reading running reading
      · exact .inl rfl
      · exact .inr ⟨index, cmd, rfl, waits⟩

theorem one_response {i : Nat} {cmd : Command} {db db' : Database} {answers : List Response}
    (now : (world.clients i).phase = .sent cmd)
    (executed : executeAll (databaseOps std) db [cmd] = .ok (db', answers)) :
    answers.length = 1 := by
  have proper := (mirrors.sound.clients i).proper
  rw [now] at proper
  rw [executeAll_eq_runAll] at executed
  obtain ⟨next, first, later, stepped, rest, rfl⟩ := runAll_cons_iff.mp executed
  cases rest
  obtain ⟨_, one, _⟩ := execute_ok stepped
  rw [List.append_nil]
  apply one
  intro none
  rw [none] at proper
  exact proper.1

/-- A handler responds to one command at most, when nothing else is sent to its client. -/
theorem answering {event : Event Callback} {server : ServerMachine Database}
    (stepped : network.server.step (host (databaseOps std) alloc listener) event = .ok server) :
    Answering network.server server := by
  intro address count other responses argument stack running responds
  obtain ⟨base, owed, rearm, kept⟩ := mirrors.kept
  obtain ⟨data, index, reader, earlier, before, cmds, left, left', stuck, stuck', running, rfl, _,
    reading⟩ := reading_of_running kept running
  obtain ⟨rfl, few⟩ := mirrors.reading running reading
  obtain ⟨server', call, next, resumed, rfl⟩ := Machine.step_of_running running stepped
  replace resumed : resume (databaseOps std) alloc (.recvHandler address) data.length
    network.server.world = .ok (server', call, next) := resumed
  by_cases nothing : data = []
  · obtain ⟨_, update, run⟩ := reading.ends nothing
    cases resumed.symm.trans run
    cases responds
  · obtain ⟨update, run⟩ := reading.executes nothing
    rw [run] at resumed
    cases executed : executeAll (databaseOps std) network.server.world.db cmds with
    | error fault =>
        rw [executed] at resumed
        cases resumed
    | ok outcome =>
        obtain ⟨db, answers⟩ := outcome
        rw [executed] at resumed
        cases resumed
        cases responds
        have quiet : answers ++ complaint false = answers := List.append_nil answers
        rw [quiet]
        rcases few with rfl | ⟨cmd, rfl, waits, now⟩
        · cases executed
          exact ⟨Nat.zero_le _, fun some => absurd rfl some⟩
        · have one := mirrors.one_response now executed
          have arrived := (mirrors.linked index).link.settled (by
            rw [now]
            exact fun _ _ => Phase.noConfusion)
          exact ⟨one.le, fun _ => mirrors.settled reading.known arrived⟩

/-! ## Steps -/

theorem setClient {i : Nat} {endpoint : Endpoint} {client : Client}
    (linked : Linked endpoint (ownedBy i history) (ownedBy i issued) client)
    (transported : (network.setClient i endpoint).Transported)
    (sound : (world.setClient i client).Sound setup.floats setup.Said) :
    Mirrors std setup listener (network.setClient i endpoint) (world.setClient i client) history
      issued where
  served := mirrors.served
  represents := mirrors.represents
  linked := by
    intro j
    rw [Network.setClient, World.setClient]
    dsimp only
    by_cases same : j = i
    · rw [same, Function.update_self, Function.update_self]
      exact linked
    · rw [Function.update_of_ne same, Function.update_of_ne same]
      exact mirrors.linked j
  transported := transported
  sound := sound
  kept := mirrors.kept
  one := mirrors.one
  commands := mirrors.commands
  responses := mirrors.responses

theorem request {i : Nat} {endpoint : Endpoint}
    (requested : (network.clients i).request setup.floats setup.remains setup.rounds =
      .ok endpoint)
    (transported : (network.setClient i endpoint).Transported)
    (sound : (answerAll setup.step world [i]).1.Sound setup.floats setup.Said) :
    (answerAll setup.step world [i]).2 = [] ∧
      Mirrors std setup listener (network.setClient i endpoint) (answerAll setup.step world [i]).1
        history issued := by
  obtain ⟨idle, linked⟩ := (mirrors.linked i).request requested
  have moved : answerAll setup.step world [i] =
      (world.setClient i
        ((world.clients i).request setup.floats setup.remains setup.rounds), []) := by
    rw [answerAll_cons, Setup.step, World.step]
    dsimp only
    rw [idle]
    rfl
  rw [moved] at sound ⊢
  exact ⟨rfl, mirrors.setClient linked transported sound⟩

/-- An endpoint goes on and its client does not. -/
theorem setEndpoint {i : Nat} {endpoint : Endpoint}
    (linked : Linked endpoint (ownedBy i history) (ownedBy i issued) (world.clients i))
    (transported : (network.setClient i endpoint).Transported) :
    Mirrors std setup listener (network.setClient i endpoint) world history issued := by
  have same : world.setClient i (world.clients i) = world := by
    rw [World.setClient, Function.update_eq_self]
  have sound : (world.setClient i (world.clients i)).Sound setup.floats setup.Said := by
    rw [same]
    exact mirrors.sound
  have after := mirrors.setClient linked transported sound
  rwa [same] at after

/-- What a client is given is the next of its responses. -/
theorem issued_of_given {i : Nat} {data : Bytes} {endpoint : Endpoint} {responses : List Response}
    (may : network.MayGive i data)
    (given : (network.clients i).recv setup.floats data = .ok (endpoint, responses))
    (transported : (network.setClient i endpoint).Transported) :
    data ≠ [] ∧ (network.clients i).incoming ++ data <+: told (ownedBy i issued) := by
  obtain ⟨_, _, _, kept⟩ := mirrors.kept
  obtain ⟨_, may⟩ := may
  cases found : network.server.world.connections[i]? with
  | none =>
      rw [found] at may
      exact may.elim
  | some conn =>
      rw [found] at may
      constructor
      · intro nothing
        have ended := kept.finished (List.mem_of_getElem? found) (may nothing)
        obtain ⟨_, _, ends⟩ := mirrors.transported i conn found
        obtain ⟨ends, _⟩ := ends ended
        rw [Endpoint.recv] at given
        split at given
        · rename_i now
          rw [now] at ends
          cases ends
        · cases given
        · cases given
        · cases given
      · obtain ⟨_, _, _, _, sent⟩ := mirrors.explained found
        obtain ⟨_, taken, _⟩ := transported i conn found
        rw [Network.setClient] at taken
        dsimp only at taken
        rw [Function.update_self, Endpoint.recv_incoming given] at taken
        rw [← sent]
        exact taken.trans (List.prefix_append _ _)

theorem given {i : Nat} {data : Bytes} {endpoint : Endpoint} {responses : List Response}
    (may : network.MayGive i data)
    (given : (network.clients i).recv setup.floats data = .ok (endpoint, responses))
    (transported : (network.setClient i endpoint).Transported) :
    responses = [] ∧
        Linked endpoint (ownedBy i history) (ownedBy i issued) (world.clients i) ∨
      ∃ cmd res, responses = [res] ∧ (network.clients i).stage = .receiving cmd ∧
        (world.clients i).phase = .answered cmd [res] ∧
        Linked endpoint (ownedBy i history) (ownedBy i issued)
          ((world.clients i).receive setup.floats cmd [res]) := by
  obtain ⟨some, next⟩ := mirrors.issued_of_given may given transported
  exact (mirrors.linked i).recv
    (fun res member => mirrors.responses _ (mem_ownedBy.mp member)) some next given

theorem recv {i : Nat} {data : Bytes} {endpoint : Endpoint} {responses : List Response}
    (may : network.MayGive i data)
    (given : (network.clients i).recv setup.floats data = .ok (endpoint, responses))
    (transported : (network.setClient i endpoint).Transported)
    (sound : (answerAll setup.step world (responses.map fun _ => i)).1.Sound setup.floats
      setup.Said) :
    (answerAll setup.step world (responses.map fun _ => i)).2 = [] ∧
      Mirrors std setup listener (network.setClient i endpoint)
        (answerAll setup.step world (responses.map fun _ => i)).1 history issued := by
  rcases mirrors.given may given transported with
    ⟨rfl, linked⟩ | ⟨cmd, res, rfl, _, now, linked⟩
  · exact ⟨rfl, mirrors.setEndpoint linked transported⟩
  · have moved : answerAll setup.step world ([res].map fun _ => i) =
        (world.setClient i ((world.clients i).receive setup.floats cmd [res]), []) := by
      rw [List.map_singleton, answerAll_cons, Setup.step, World.step]
      dsimp only
      rw [now]
      rfl
    rw [moved] at sound ⊢
    exact ⟨rfl, mirrors.setClient linked transported sound⟩

/-! ## The server -/

theorem executes {i : Nat} {cmd : Command} (now : (world.clients i).phase = .sent cmd)
    (allowed : world.Allowed setup.floats setup.remains setup.rounds i)
    (tidy : world.cat.Tidy std cmd) :
    ∃ db res, execute (databaseOps std) network.server.world.db cmd = .ok (db, [res]) ∧
      (world.cat.answer cmd).2 = [res] ∧ cmd.Encodable ∧ res.Encodable ∧
      Represents std db (world.cat.answer cmd).1 := by
  have phase := (mirrors.sound.clients i).phase
  rw [now] at phase
  rw [World.Allowed, now] at allowed
  have answered := mirrors.sound.cat.answered phase.1 phase.2 allowed
  obtain ⟨res, one, encodable, _⟩ := answered.one
  obtain ⟨db, executed, represents⟩ := execute_simulates_disciplined std _ _ cmd
    mirrors.represents ⟨answered.takes, tidy⟩
  rw [one] at executed
  exact ⟨db, res, executed, one, phase.2.1, encodable, represents⟩

/-- What a handler executes, the server of `world` comes to. -/
theorem serve {server : ServerMachine Database} {more : List (Nat × Command)}
    {answers : List (Nat × Response)}
    (few : more = [] ∨ ∃ i cmd, more = [(i, cmd)] ∧
      (network.clients i).stage = .receiving cmd ∧ (world.clients i).phase = .sent cmd)
    (later : Served True (databaseOps std) {} server (history ++ more) (issued ++ answers))
    (allowed : AllowedAnswers setup.step
      (World.Allowed setup.floats setup.remains setup.rounds) world (more.map Prod.fst))
    (tidy : AllowedAnswers Catalogue.answer (Catalogue.Tidy std) world.cat
      (answerAll setup.step world (more.map Prod.fst)).2) :
    (answerAll setup.step world (more.map Prod.fst)).2 = more.map Prod.snd ∧
      Agrees std { network with server } (answerAll setup.step world (more.map Prod.fst)).1
        (history ++ more) (issued ++ answers) ∧
      (∀ entry ∈ more, entry.2.Encodable) ∧ ∀ entry ∈ answers, entry.2.Encodable := by
  have added := mirrors.served.added later
  rcases few with rfl | ⟨i, cmd, rfl, waits, now⟩
  · obtain ⟨db, rfl⟩ := Prod.mk.inj (Except.ok.inj added)
    refine ⟨rfl, ⟨later, ?_, ?_⟩, nofun, nofun⟩
    · rw [← db]
      exact mirrors.represents
    · rw [List.append_nil, List.append_nil]
      exact mirrors.linked
  · rw [List.map_singleton] at allowed tidy ⊢
    rw [answerAll_sent now] at tidy ⊢
    obtain ⟨db, res, executed, answer, okCmd, okRes, represents⟩ :=
      mirrors.executes now allowed.1 tidy.1
    obtain ⟨next, _, _, stepped, rest, rfl⟩ := runAll_cons_iff.mp added
    obtain ⟨outputs, executed', rfl⟩ := ownedStep_ok_iff.mp stepped
    cases executed.symm.trans executed'
    obtain ⟨rfl, rfl⟩ := Prod.mk.inj (Except.ok.inj rest)
    refine ⟨rfl, ⟨later, represents, ?_⟩, ?_, ?_⟩
    · intro j
      rw [answer, World.setClient, ownedBy_append, ownedBy_append, List.append_nil]
      dsimp only
      by_cases same : j = i
      · subst same
        rw [Function.update_self, ownedBy_cons_self, ownedBy_mark_self]
        exact (mirrors.linked j).serve waits now res
      · have apart : i ≠ j := fun equal => same equal.symm
        rw [Function.update_of_ne same, ownedBy_cons_of_ne apart, ownedBy_mark_of_ne apart,
          ownedBy_nil, List.append_nil, List.append_nil]
        exact mirrors.linked j
    · exact List.forall_mem_singleton.mpr okCmd
    · exact List.forall_mem_singleton.mpr okRes

/-- A step of the server does what those of `world` do whose clients it serves. -/
theorem server {event : Event Callback} {server : ServerMachine Database}
    (fresh : ∀ count used, alloc count used ∉ used) (sorted : SortedAtAccept network.server event)
    (stepped : network.server.step (host (databaseOps std) alloc listener) event = .ok server)
    (transported : Network.Transported { network with server })
    (allowed : AllowedAnswers setup.step
      (World.Allowed setup.floats setup.remains setup.rounds) world
      ((completing network.server).map Prod.fst))
    (tidy : AllowedAnswers Catalogue.answer (Catalogue.Tidy std) world.cat
      (answerAll setup.step world ((completing network.server).map Prod.fst)).2)
    (sound : (answerAll setup.step world ((completing network.server).map Prod.fst)).1.Sound
      setup.floats setup.Said) :
    (answerAll setup.step world ((completing network.server).map Prod.fst)).2 =
        (completing network.server).map Prod.snd ∧
      ∃ answers, Mirrors std setup listener { network with server }
        (answerAll setup.step world ((completing network.server).map Prod.fst)).1
        (history ++ completing network.server) (issued ++ answers) := by
  obtain ⟨base, owed, rearm, kept⟩ := mirrors.kept
  obtain ⟨base', owed', rearm', kept'⟩ :=
    kept.step fresh sorted (fun _ => mirrors.unsentAtAccept stepped) stepped
  obtain ⟨answers, later⟩ :=
    mirrors.served.step fresh kept (fun _ => mirrors.one.inTurn event) stepped
  obtain ⟨same, agrees, okCmds, okResponses⟩ :=
    mirrors.serve mirrors.completing_cases later allowed tidy
  refine ⟨same, answers, { agrees with
    transported, sound, kept := ⟨base', owed', rearm', kept'⟩,
    one := mirrors.one.step kept (mirrors.answering stepped) stepped,
    commands := ?_, responses := ?_ }⟩
  · exact List.forall_mem_append.mpr ⟨mirrors.commands, okCmds⟩
  · exact List.forall_mem_append.mpr ⟨mirrors.responses, okResponses⟩

theorem step (fresh : ∀ count used, alloc count used ∉ used)
    (intact : ∀ name, setup.remains name = name) (orderly : network.Orderly action)
    (allowed : AllowedAnswers setup.step
      (World.Allowed setup.floats setup.remains setup.rounds) world moves)
    (tidy : AllowedAnswers Catalogue.answer (Catalogue.Tidy std) world.cat
      (answerAll setup.step world moves).2)
    (stepped : network.step setup (databaseOps std) alloc listener action = .ok (after, moves)) :
    ∃ more answers, more.map Prod.snd = (answerAll setup.step world moves).2 ∧
      Mirrors std setup listener after (answerAll setup.step world moves).1 (history ++ more)
        (issued ++ answers) := by
  obtain ⟨sound, _, _⟩ := mirrors.sound.run allowed setup.closed_said intact
  obtain ⟨performed, transported⟩ := Network.step_ok stepped
  cases action with
  | server event =>
      obtain ⟨server, served, performed⟩ := bind_ok_iff.mp performed
      cases performed
      obtain ⟨same, answers, later⟩ :=
        mirrors.server fresh orderly served transported allowed tidy sound
      exact ⟨_, answers, same.symm, later⟩
  | request i =>
      obtain ⟨endpoint, requested, performed⟩ := bind_ok_iff.mp performed
      cases performed
      obtain ⟨none, later⟩ := mirrors.request requested transported sound
      refine ⟨[], [], none.symm, ?_⟩
      rwa [List.append_nil, List.append_nil]
  | send i count =>
      obtain ⟨endpoint, taken, performed⟩ := bind_ok_iff.mp performed
      cases performed
      refine ⟨[], [], rfl, ?_⟩
      rw [List.append_nil, List.append_nil]
      exact mirrors.setEndpoint ((mirrors.linked i).send orderly taken) transported
  | recv i data =>
      obtain ⟨endpoint, responses, may, given, rfl, rfl⟩ := Network.perform_recv performed
      obtain ⟨none, later⟩ := mirrors.recv may given transported sound
      refine ⟨[], [], none.symm, ?_⟩
      rwa [List.append_nil, List.append_nil]

end Mirrors

/-! ## Failures -/

theorem Endpoint.request_refused {endpoint : Endpoint} {floats : FloatText}
    {remains : Bytes → Bytes} {rounds : Nat} {halt : Halt}
    (failed : endpoint.request floats remains rounds = .error halt) : halt = .refused := by
  rw [Endpoint.request] at failed
  split at failed
  · split at failed
    · split at failed <;> cases failed
    · cases failed
  · cases failed
    rfl
  · cases failed
    rfl
  · cases failed
    rfl

theorem Endpoint.send_refused {endpoint : Endpoint} {count : Nat} {halt : Halt}
    (failed : endpoint.send count = .error halt) : halt = .refused := by
  rw [Endpoint.send] at failed
  split at failed
  · split at failed
    · split at failed <;> cases failed
    · cases failed
      rfl
  · cases failed
    rfl
  · cases failed
    rfl
  · cases failed
    rfl

theorem Endpoint.recv_refused {endpoint : Endpoint} {floats : FloatText} {data : Bytes}
    {halt : Halt} (failed : endpoint.recv floats data = .error halt) : halt = .refused := by
  rw [Endpoint.recv] at failed
  split at failed
  · dsimp only at failed
    split at failed
    · cases failed
    · split at failed <;> cases failed
  · cases failed
    rfl
  · cases failed
    rfl
  · cases failed
    rfl

section

variable (mirrors : Mirrors std setup listener network world history issued)
  (allowed : AllowedAnswers setup.step (World.Allowed setup.floats setup.remains setup.rounds)
    world ((completing network.server).map Prod.fst))
  (tidy : AllowedAnswers Catalogue.answer (Catalogue.Tidy std) world.cat
    (answerAll setup.step world ((completing network.server).map Prod.fst)).2)

include mirrors allowed tidy

/-- What a handler executes does not fail. -/
theorem Mirrors.not_aborted {event : Event Callback} {fault : Fault} :
    network.server.step (host (databaseOps std) alloc listener) event ≠
      .error (.aborted fault) := by
  intro failed
  obtain ⟨address, argument, stack, running, failed⟩ := aborts failed
  obtain ⟨base, owed, rearm, kept⟩ := mirrors.kept
  obtain ⟨data, index, reader, earlier, before, cmds, left, left', stuck, stuck', running, rfl, rfl,
    reading⟩ := reading_of_running kept running
  by_cases nothing : data = []
  · obtain ⟨_, update, run⟩ := reading.ends nothing
    cases failed.symm.trans run
  · obtain ⟨update, run⟩ := reading.executes nothing
    rw [run] at failed
    obtain ⟨_, rfl | ⟨cmd, rfl, waits, now⟩⟩ := mirrors.reading running reading
    · cases failed
    · rw [reading.completing_eq running, List.map_singleton, List.map_singleton] at allowed tidy
      rw [answerAll_sent now] at tidy
      obtain ⟨db, res, executed, _⟩ := mirrors.executes now allowed.1 tidy.1
      rw [executeAll, executed] at failed
      cases failed

/-- An action that is what comes next does not fail. -/
theorem Mirrors.refused {halt : Halt}
    (failed : network.step setup (databaseOps std) alloc listener action = .error halt) :
    halt = .refused := by
  rcases bind_error_iff.mp failed with performed | ⟨_, _, checked⟩
  · cases action with
    | server event =>
        rcases bind_error_iff.mp performed with stepped | ⟨_, _, done⟩
        · obtain ⟨base, owed, rearm, kept⟩ := mirrors.kept
          cases halt with
          | refused => rfl
          | dangling => exact absurd stepped kept.not_dangling
          | aborted fault => exact absurd stepped (mirrors.not_aborted allowed tidy)
        · cases done
    | request i =>
        rcases bind_error_iff.mp performed with requested | ⟨_, _, done⟩
        · exact Endpoint.request_refused requested
        · cases done
    | send i count =>
        rcases bind_error_iff.mp performed with taken | ⟨_, _, done⟩
        · exact Endpoint.send_refused taken
        · cases done
    | recv i data =>
        rw [Network.perform] at performed
        split at performed
        · rcases bind_error_iff.mp performed with given | ⟨_, _, done⟩
          · exact Endpoint.recv_refused given
          · cases done
        · cases performed
          rfl
  · dsimp only at checked
    split at checked
    · cases checked
    · cases checked
      rfl

end

end Boutique.Cli
