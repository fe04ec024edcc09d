import Boutique.Cli.Network

namespace Boutique.Cli

open Boutique.Core Boutique.Data Boutique.Protocol Boutique.Server

/-! # Bytes and messages

How far a client on its connection is, against one that sends a command at once and is
given its responses together. -/

def asked (cmds : List Command) : Bytes := cmds.flatMap writeCommand

def told (answers : List Response) : Bytes := answers.flatMap writeResponse

/-- The server has executed `cmds` of the client, and answered `answers`. A command that
has been sent in part has not been served, and responses that have arrived in part have
not been visited. -/
inductive Link (endpoint : Endpoint) (cmds : List Command) (answers : List Response) :
    Stage → Phase → Prop
  | idle (sent : endpoint.outgoing = asked cmds) (arrived : endpoint.incoming = told answers)
      (fresh : endpoint.stream = {}) : Link endpoint cmds answers .idle .idle
  | sending {cmd front rest} (split : writeCommand cmd = front ++ rest) (unsent : rest ≠ [])
      (sent : endpoint.outgoing = asked cmds ++ front) (arrived : endpoint.incoming = told answers)
      (fresh : endpoint.stream = {}) : Link endpoint cmds answers (.sending cmd rest) (.sent cmd)
  | waiting {cmd} (sent : endpoint.outgoing = asked (cmds ++ [cmd]))
      (arrived : endpoint.incoming = told answers) (fresh : endpoint.stream = {}) :
      Link endpoint cmds answers (.receiving cmd) (.sent cmd)
  | answered {cmd earlier res front rest} (sent : endpoint.outgoing = asked cmds)
      (all : answers = earlier ++ [res]) (split : writeResponse res = front ++ rest)
      (unread : rest ≠ []) (arrived : endpoint.incoming = told earlier ++ front)
      (holds : endpoint.stream.Holds front) :
      Link endpoint cmds answers (.receiving cmd) (.answered cmd [res])
  | ended {exit} (sent : endpoint.outgoing = asked cmds)
      (arrived : endpoint.incoming = told answers) :
      Link endpoint cmds answers (.ended exit) (.ended exit)

structure Linked (endpoint : Endpoint) (cmds : List Command) (answers : List Response)
    (client : Client) : Prop where
  showPrompts : client.showPrompts = endpoint.showPrompts
  session : client.session = endpoint.session
  console : client.console = endpoint.console
  link : Link endpoint cmds answers endpoint.stage client.phase

variable {endpoint after : Endpoint} {cmds more : List Command} {answers responses : List Response}
  {client : Client} {stage : Stage} {phase : Phase} {cmd : Command} {res : Response}
  {input data left : Bytes} {stuck : Bool}

theorem told_append (answers responses : List Response) :
    told (answers ++ responses) = told answers ++ told responses := List.flatMap_append

theorem told_singleton (res : Response) : told [res] = writeResponse res :=
  List.flatMap_singleton ..

theorem asked_append (cmds more : List Command) : asked (cmds ++ more) = asked cmds ++ asked more :=
  List.flatMap_append

theorem asked_singleton (cmd : Command) : asked [cmd] = writeCommand cmd :=
  List.flatMap_singleton ..

/-! ## What has been sent and what has arrived -/

/-- What a client has sent is the front of its commands, one of which at most has not
been served. -/
theorem Link.outgoing (link : Link endpoint cmds answers stage phase) :
    ∃ pending rest, endpoint.outgoing ++ rest = asked (cmds ++ pending) ∧
      (pending = [] ∨ ∃ cmd, pending = [cmd] ∧ phase = .sent cmd ∧
        (rest = [] → stage = .receiving cmd)) := by
  cases link with
  | idle sent | answered sent | ended sent =>
      refine ⟨[], [], ?_, .inl rfl⟩
      rw [List.append_nil, List.append_nil, sent]
  | @sending cmd front rest split unsent sent =>
      refine ⟨[cmd], rest, ?_, .inr ⟨cmd, rfl, rfl, fun none => absurd none unsent⟩⟩
      rw [sent, List.append_assoc, ← split, asked_append, asked_singleton]
  | @waiting cmd sent =>
      refine ⟨[cmd], [], ?_, .inr ⟨cmd, rfl, rfl, fun _ => rfl⟩⟩
      rw [List.append_nil, sent]

/-- Of the commands that the server has not executed, what has reached it completes at
most the one that the client waits for. -/
theorem Link.drains (link : Link endpoint cmds answers stage phase)
    (encodable : ∀ cmd ∈ cmds, cmd.Encodable) (proper : phase.Proper)
    (reached : input <+: endpoint.outgoing)
    (drained : Drains nextCommand input (cmds ++ more) left stuck) :
    stuck = false ∧
      (more = [] ∨ ∃ cmd, more = [cmd] ∧ stage = .receiving cmd ∧ phase = .sent cmd) := by
  obtain ⟨pending, rest, whole, next⟩ := link.outgoing
  obtain ⟨later, outgoing⟩ := reached
  rw [← outgoing, List.append_assoc] at whole
  have valid : ∀ cmd ∈ cmds ++ pending, cmd.Encodable := by
    intro cmd member
    rcases List.mem_append.mp member with before | new
    · exact encodable cmd before
    · rcases next with rfl | ⟨_, rfl, rfl, _⟩
      · cases new
      · cases List.mem_singleton.mp new
        exact proper.1
  obtain ⟨rfl, unfinished, same, reached, cut⟩ :=
    Drains.of_cut nextCommand_codec valid rfl whole drained
  rw [List.append_assoc] at same
  replace same := List.append_cancel_left same
  refine ⟨rfl, ?_⟩
  rcases next with rfl | ⟨cmd, rfl, sent, last⟩
  · exact .inl (List.append_eq_nil_iff.mp same.symm).1
  · cases more with
    | nil => exact .inl rfl
    | cons first others =>
        obtain ⟨rfl, others⟩ := List.cons.inj same
        obtain ⟨rfl, rfl⟩ := List.append_eq_nil_iff.mp others.symm
        obtain rfl : left = [] := cut
        rw [List.append_nil] at reached
        have all : input ++ (later ++ rest) = input ++ [] := by
          rw [whole, List.append_nil, reached]
          rfl
        have none := (List.append_eq_nil_iff.mp (List.append_cancel_left all)).2
        exact .inr ⟨cmd, rfl, last none, sent⟩

/-- Unless responses are under way, all of them have arrived. -/
theorem Link.settled (link : Link endpoint cmds answers stage phase)
    (none : ∀ cmd responses, phase ≠ .answered cmd responses) :
    endpoint.incoming = told answers := by
  cases link with
  | idle sent arrived | sending split unsent sent arrived | waiting sent arrived
  | ended sent arrived => exact arrived
  | answered => exact absurd rfl (none _ _)

theorem Link.settled_of_ended (link : Link endpoint cmds answers stage phase)
    (ended : stage.isEnded = true) : endpoint.incoming = told answers := by
  cases link with
  | ended sent arrived => exact arrived
  | idle | sending | waiting | answered => cases ended

/-! ## Steps -/

theorem Linked.request {floats : FloatText} {remains : Bytes → Bytes} {rounds : Nat}
    (linked : Linked endpoint cmds answers client)
    (requested : endpoint.request floats remains rounds = .ok after) :
    client.phase = .idle ∧
      Linked after cmds answers (client.request floats remains rounds) := by
  obtain ⟨showPrompts, session, console, link⟩ := linked
  rw [Endpoint.request] at requested
  generalize endpoint.stage = stage at link requested
  generalize now : client.phase = phase at link
  cases link with
  | sending | waiting | answered | ended => cases requested
  | idle sent arrived fresh =>
      refine ⟨rfl, ?_⟩
      have empty : endpoint.stream.empty = true := by
        rw [fresh]
        rfl
      dsimp only at requested
      rw [if_pos empty, ← showPrompts, ← session, ← console] at requested
      rw [Client.request]
      generalize readCommand floats client.showPrompts remains rounds client.session
        client.console = outcome at requested
      cases outcome with
      | error exit =>
          cases requested
          exact ⟨rfl, rfl, rfl, .ended sent arrived⟩
      | ok result =>
          obtain ⟨entry, session, console⟩ := result
          cases entry with
          | quit =>
              cases requested
              exact ⟨rfl, rfl, rfl, .ended sent arrived⟩
          | again =>
              cases requested
              refine ⟨rfl, rfl, rfl, ?_⟩
              dsimp only
              rw [now]
              exact .idle sent arrived fresh
          | command cmd =>
              cases requested
              exact ⟨rfl, rfl, rfl, .sending rfl (writeCommand_ne_nil cmd)
                (sent.trans (List.append_nil _).symm) arrived fresh⟩

/-- A client that sends is on its way to where it waits. -/
theorem Linked.send {count : Nat} (linked : Linked endpoint cmds answers client)
    (some : count ≠ 0) (taken : endpoint.send count = .ok after) :
    Linked after cmds answers client := by
  obtain ⟨showPrompts, session, console, link⟩ := linked
  rw [Endpoint.send] at taken
  generalize endpoint.stage = stage at link taken
  generalize now : client.phase = phase at link
  cases link with
  | idle | waiting | answered | ended => cases taken
  | @sending cmd front rest split unsent sent arrived fresh =>
      dsimp only at taken
      by_cases fits : count ≤ rest.length
      · rw [if_pos fits, if_neg some] at taken
        cases taken
        refine ⟨showPrompts, session, console, ?_⟩
        dsimp only
        rw [now]
        have whole : writeCommand cmd = front ++ rest.take count ++ rest.drop count := by
          rw [List.append_assoc, List.take_append_drop, split]
        by_cases last : rest.drop count = []
        · rw [last, List.append_nil] at whole
          rw [if_pos (List.isEmpty_iff.mpr last)]
          refine .waiting ?_ arrived fresh
          rw [sent, asked_append, asked_singleton, whole, List.append_assoc]
        · rw [if_neg (fun empty => last (List.isEmpty_iff.mp empty))]
          refine .sending whole last ?_ arrived fresh
          rw [sent, List.append_assoc]
      · rw [if_neg fits] at taken
        cases taken

theorem Endpoint.recv_incoming {floats : FloatText}
    (given : endpoint.recv floats data = .ok (after, responses)) :
    after.incoming = endpoint.incoming ++ data := by
  rw [Endpoint.recv] at given
  split at given
  · dsimp only at given
    split at given
    · cases given
      rfl
    · split at given
      · cases given
        rfl
      · cases given
        rfl
  · cases given
  · cases given
  · cases given

theorem complain_of_encoding {rest : Bytes} (ok : res.Encodable)
    (split : writeResponse res = input ++ rest) (console : Console) :
    Endpoint.complain input console = console := by
  have quiet : nextResponse input ≠ .rejected := by
    intro rejected
    have whole := nextResponse_codec.rejected_append rest rejected
    rw [← split, ← List.append_nil (writeResponse res),
      nextResponse_codec.decode_encode ok] at whole
    cases whole
  rw [nextResponse] at quiet
  rw [Endpoint.complain]
  split
  · rename_i invalid
    rw [invalid] at quiet
    exact absurd rfl quiet
  · rfl
  · rfl

/-- The last bytes of a response take the client on to where it has been given it, and
the others nowhere. -/
theorem Linked.recv {floats : FloatText} (linked : Linked endpoint cmds answers client)
    (encodable : ∀ res ∈ answers, res.Encodable) (some : data ≠ [])
    (issued : endpoint.incoming ++ data <+: told answers)
    (given : endpoint.recv floats data = .ok (after, responses)) :
    responses = [] ∧ Linked after cmds answers client ∨
      ∃ cmd res, responses = [res] ∧ endpoint.stage = .receiving cmd ∧
        client.phase = .answered cmd [res] ∧
        Linked after cmds answers (client.receive floats cmd [res]) := by
  obtain ⟨showPrompts, session, console, link⟩ := linked
  rw [Endpoint.recv] at given
  generalize endpoint.stage = stage at link given ⊢
  generalize now : client.phase = phase at link
  cases link with
  | idle | sending | ended => cases given
  | waiting sent arrived fresh =>
      have length := issued.length_le
      rw [arrived, List.length_append] at length
      exact absurd (List.length_eq_zero_iff.mp (by omega)) some
  | @answered cmd earlier res front rest sent all split unread arrived holds =>
      obtain ⟨later, rfl⟩ : data <+: rest := by
        rw [arrived, all, told_append, told_singleton, split, List.append_assoc,
          List.prefix_append_right_inj, List.prefix_append_right_inj] at issued
        exact issued
      have ok : res.Encodable :=
        encodable res (all ▸ List.mem_append_right _ (List.mem_singleton.mpr rfl))
      rw [← List.append_assoc] at split
      obtain ⟨again, stream, more, round, took⟩ := receiveRound_takes holds data
      have quiet := complain_of_encoding ok split endpoint.console
      rw [← (holds.append data).asConstBuffer_eq] at quiet
      dsimp only at given
      rw [quiet, round] at given
      dsimp only at given
      by_cases last : later = []
      · rw [last, List.append_nil] at split
        rw [← split, takeOne_whole nextResponse_codec ok] at took
        obtain ⟨rfl, rfl, rfl⟩ := took
        refine .inr ⟨cmd, res, ?_⟩
        have arrives : endpoint.incoming ++ data = told answers := by
          rw [arrived, all, told_append, told_singleton, split, List.append_assoc]
        rw [← session, ← console] at given
        rw [Client.receive]
        generalize handleAll floats cmd [res] client.session client.console = handled at given
        cases handled with
        | error fault =>
            cases given
            exact ⟨rfl, rfl, rfl, showPrompts, rfl, rfl, .ended sent arrives⟩
        | ok outcome =>
            obtain ⟨session, console⟩ := outcome
            cases given
            exact ⟨rfl, rfl, rfl, showPrompts, rfl, rfl, .idle sent arrives rfl⟩
      · have begun : front ++ data ≠ [] := fun none => some (List.append_eq_nil_iff.mp none).2
        rw [takeOne_cut nextResponse_codec ok split begun last] at took
        obtain ⟨rfl, rfl, holds'⟩ := took
        cases given
        refine .inl ⟨rfl, showPrompts, session, console, ?_⟩
        dsimp only
        rw [now]
        refine .answered sent all split last ?_ holds'
        rw [arrived, List.append_assoc]

/-- Where the server has executed the command that a client waits for. -/
theorem Linked.serve (linked : Linked endpoint cmds answers client)
    (waits : endpoint.stage = .receiving cmd) (now : client.phase = .sent cmd) (res : Response) :
    Linked endpoint (cmds ++ [cmd]) (answers ++ [res])
      { client with phase := .answered cmd [res] } := by
  obtain ⟨showPrompts, session, console, link⟩ := linked
  refine ⟨showPrompts, session, console, ?_⟩
  dsimp only
  rw [waits, now] at link
  rw [waits]
  cases link with
  | waiting sent arrived fresh =>
      refine .answered sent rfl (List.nil_append _).symm (writeResponse_ne_nil res) ?_ ?_
      · rw [arrived, List.append_nil]
      · rw [fresh]
        exact StreamBuf.holds_empty

end Boutique.Cli
