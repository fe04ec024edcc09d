import Boutique.Io.Receiving

namespace Boutique.Io

open Boutique.Data

variable {Addr Buf κ World : Type}

/-! # Sending a whole buffer -/

namespace Machine

variable {host : Host Addr Buf κ World} {m after : Machine Addr Buf κ World}

theorem invokeSend_op (m : Machine Addr Buf κ World) (s : SendAll Addr κ) (count res : Nat) :
    m.invokeSend (s.op count).fn res =
      { m with
        stack := s.invoked (count + res) ++ m.stack
        context := { m.context with
          send := (s.continuation (count + res)).foldl Rounds.push m.context.send } } :=
  callSendHandler_handler m s count res

theorem pushes_send (context : IOContext Addr Buf κ) (pushed : List (SendOp Addr κ)) :
    (context.apply { send := pushed.map .push }).send = pushed.foldl Rounds.push context.send :=
  List.foldl_map

section

variable [DecidableEq Addr] {s : SendAll Addr κ} {count : Nat} {event : Event κ}

/-- `count` bytes have been sent, and what waits on the socket is the
continuation for the others. -/
structure Sending (m : Machine Addr Buf κ World) (s : SendAll Addr κ) (count : Nat) : Prop where
  most : count ≤ s.buf.length
  sole : m.context.send.waiting.filter (fun op => op.socket = s.socket) = s.continuation count

theorem Sending.of_waiting (sending : m.Sending s count)
    (same : after.context.send.waiting = m.context.send.waiting) : after.Sending s count :=
  ⟨sending.most, by rw [same, sending.sole]⟩

theorem Sending.proceed (sending : m.Sending s count) {call : Option (Call Addr Buf κ)}
    (others : ∀ made, call = some made → ¬ made.SendsTo s.socket) (next : Option κ)
    (stack : List (κ × Nat)) : (m.proceed call next stack).Sending s count := by
  cases call with
  | none => exact sending.of_waiting rfl
  | some call =>
      obtain ⟨pushed, effects, own⟩ := call.send_effects
      obtain ⟨stop, context⟩ := perform_context
        { m with stack := (next.map fun fn => (fn, 0)).toList ++ stack } call
      refine ⟨sending.most, ?_⟩
      rw [Machine.proceed, context]
      change List.filter _ (call.effects.send.foldl Rounds.apply m.context.send).waiting = _
      rw [effects, List.foldl_map]
      refine (Rounds.filter_pushes_other fun op queued => ?_).trans sending.sole
      rw [decide_eq_false_iff_not]
      intro same
      exact others call rfl (same ▸ (own op queued).2)

/-- The result of a call for the operation itself. -/
theorem Sending.serve {op : SendOp Addr κ} {rest : List (SendOp Addr κ)} {taken : Nat}
    {world : World} {accepted : List (Addr × Bytes)} (sending : m.Sending s count)
    (quiet : m.stack = []) (next : m.context.send.todo = op :: rest)
    (own : op.socket = s.socket) (fits : taken ≤ op.buf.length)
    (stepped : after = { m with
      world, context := { m.context with send := m.context.send.visit true },
      accepted }.invokeSend op.fn taken) :
    s.Makes count { buf := op.buf, taken, invoked := after.stack } ∧
      after.Sending s (count + taken) := by
  have waits : op ∈ m.context.send.waiting.filter fun op => op.socket = s.socket :=
    List.mem_filter.mpr ⟨Rounds.mem_waiting next, decide_eq_true own⟩
  rw [sending.sole, SendAll.continuation] at waits
  split at waits
  · rename_i unfinished
    obtain rfl : op = s.op count := List.mem_singleton.mp waits
    have sole := sending.sole
    rw [SendAll.continuation, if_pos unfinished] at sole
    obtain ⟨_, none⟩ := Rounds.filter_done_only next (decide_eq_true own) sole
    rw [invokeSend_op, quiet, List.append_nil] at stepped
    subst stepped
    have most := sending.most
    have room : taken ≤ s.buf.length - count := by
      rw [← List.length_drop]
      exact fits
    refine ⟨⟨unfinished, rfl, room, rfl⟩, by omega, ?_⟩
    dsimp only
    rw [Rounds.waiting_pushes, List.filter_append, none, List.nil_append, List.filter_eq_self]
    exact fun op queued => decide_eq_true (s.socket_of_continuation queued)
  · cases waits

/-- The result of a call for another operation. -/
theorem Sending.serve_other {op : SendOp Addr κ} {rest : List (SendOp Addr κ)} {world : World}
    {accepted : List (Addr × Bytes)} (sending : m.Sending s count) (steady : op.Steady)
    (next : m.context.send.todo = op :: rest) (other : op.socket ≠ s.socket) (res : Nat) :
    ({ m with
      world, context := { m.context with send := m.context.send.visit true },
      accepted }.invokeSend op.fn res).Sending s count := by
  refine ⟨sending.most, ?_⟩
  rw [invokeSend_context, pushes_send, Rounds.filter_pushes_other]
  · rw [Rounds.filter_done_other next (decide_eq_false other), sending.sole]
  · intro queued member
    rw [(SendOp.of_queues member).2 steady]
    exact decide_eq_false other

theorem Sending.step (sending : m.Sending s count) (steady : m.Steady)
    (only : m.NoOtherSend host s.socket event) (stepped : m.step host event = .ok after) :
    sendCall s.socket m event after = none ∧ after.Sending s count ∨
      ∃ call, sendCall s.socket m event after = some call ∧ s.Makes count call ∧
        after.Sending s (count + call.taken) := by
  cases step_move stepped with
  | resume running resumed =>
      rename_i world call next
      have kept : Sending { m with world } s count := sending.of_waiting rfl
      refine .inl ⟨rfl, kept.proceed (fun made same => ?_) _ _⟩
      apply only
      simp only [nextCall, running, resumed, same, Option.mem_def]
  | call | start | «return» | passRecv | passAccept | accept | passWait | wait =>
      exact .inl ⟨rfl, sending.of_waiting rfl⟩
  | select quiet outside =>
      refine .inl ⟨rfl, sending.of_waiting ?_⟩
      exact (Rounds.waiting_start _).trans (steady.idle outside).send.waiting_eq.symm
  | passSend quiet inside none next =>
      exact .inl ⟨rfl, sending.of_waiting (Rounds.waiting_pass next)⟩
  | merge => exact .inl ⟨rfl, sending.of_waiting rfl⟩
  | recv =>
      refine .inl ⟨rfl, sending.of_waiting ?_⟩
      rw [invokeRecv_context]
      rfl
  | @send _ op rest _ taken world quiet inside none next known set fits =>
      simp only [sendCall, next]
      by_cases own : op.socket = s.socket
      · rw [if_pos own]
        exact .inr ⟨_, rfl, sending.serve quiet next own fits rfl⟩
      · rw [if_neg own]
        refine .inl ⟨rfl, sending.serve_other ?_ next own taken⟩
        exact steady.send op (Rounds.mem_waiting next)

theorem Sending.run {events : List (Event κ)} (sending : m.Sending s count)
    (steady : m.Steady) (only : Along host (NoOtherSend host s.socket) m events)
    (ran : run host m events = .ok after) :
    let calls := record host (sendCall s.socket) m events
    Instalments s.Makes SendCall.taken count calls ∧
      after.Sending s (count + total SendCall.taken calls) := by
  induction events generalizing m count with
  | nil =>
      cases ran
      exact ⟨trivial, sending⟩
  | cons event events ih =>
      obtain ⟨next, stepped, ran⟩ := bind_ok_iff.mp ran
      obtain ⟨meets, only⟩ := only
      rw [stepped] at only
      rw [record_cons stepped]
      have later := steady.step stepped
      rcases sending.step steady meets stepped with ⟨none, kept⟩ | ⟨call, made, right, went⟩
      · rw [none]
        exact ih kept later only ran
      · obtain ⟨paid, done⟩ := ih went later only ran
        rw [made]
        refine ⟨⟨right, paid⟩, ?_⟩
        rw [Option.toList_some, List.singleton_append, total_cons, ← Nat.add_assoc]
        exact done

end

end Machine

namespace SendAll

variable {s : SendAll Addr κ} {count : Nat} {calls : List (SendCall κ)}

/-- A callback that runs calls `async_send_all`, and no other operation to send
to the socket waits. -/
inductive Begins (s : SendAll Addr κ) (host : Host Addr Buf κ World)
    (m : Machine Addr Buf κ World) : Machine Addr Buf κ World → Prop where
  | call {fn argument stack world next} (running : m.stack = (fn, argument) :: stack)
      (resumed : host.resume fn argument m.world = .ok (world, some s.call, next))
      (free : ∀ op ∈ m.context.send.waiting, op.socket ≠ s.socket) :
      Begins s host m ({ m with world }.proceed (some s.call) next stack)

/-- How the operation stands after the calls `calls` of `Socket::send`. -/
structure Transfers [DecidableEq Addr] (s : SendAll Addr κ)
    (started : Machine Addr Buf κ World) (calls : List (SendCall κ))
    (after : Machine Addr Buf κ World) : Prop where
  makes : ∀ front call back, calls = front ++ call :: back →
    s.Makes (total SendCall.taken front) call
  most : total SendCall.taken calls ≤ s.buf.length
  taken : calls.flatMap (fun call => call.buf.take call.taken) =
    s.buf.take (total SendCall.taken calls)
  queued : after.context.send.waiting.filter (fun op => op.socket = s.socket) =
    s.continuation (total SendCall.taken calls)
  entered : ∃ rest, started.stack = s.invoked 0 ++ rest
  invoked : s.invoked 0 ++ calls.flatMap (·.invoked) = s.invoked (total SendCall.taken calls)

/-- What the calls took are the bytes from where they are sent so far. -/
theorem taken_calls (paid : Instalments s.Makes SendCall.taken count calls) :
    calls.flatMap (fun call => call.buf.take call.taken) =
      (s.buf.drop count).take (total SendCall.taken calls) := by
  induction calls generalizing count with
  | nil => rw [total_nil, List.take_zero, List.flatMap_nil]
  | cons call calls ih =>
      rw [List.flatMap_cons, ih paid.2, paid.1.buf_eq, total_cons, List.take_add, List.drop_drop]

/-- The callback is invoked with the call that completes the buffer. -/
theorem invoked_calls (paid : Instalments s.Makes SendCall.taken count calls) :
    s.invoked count ++ calls.flatMap (·.invoked) =
      s.invoked (count + total SendCall.taken calls) := by
  induction calls generalizing count with
  | nil => exact List.append_nil _
  | cons call calls ih =>
      have unfinished : s.invoked count = [] := if_pos paid.1.unfinished
      rw [List.flatMap_cons, unfinished, List.nil_append, paid.1.invoked_eq, ih paid.2, total_cons,
        Nat.add_assoc]

end SendAll

namespace Machine

variable {host : Host Addr Buf κ World} {m started after : Machine Addr Buf κ World}
  [DecidableEq Addr] {s : SendAll Addr κ}

theorem sending_of_begins (begins : s.Begins host m started) :
    m.step host .tick = .ok started ∧ started.Sending s 0 ∧
      ∃ rest, started.stack = s.invoked 0 ++ rest := by
  obtain ⟨running, resumed, free⟩ := begins
  rename_i fn argument stack world next
  have called : ({ m with world }.proceed (some s.call) next stack) = _ :=
    callSendHandler_handler { m with
      world, stack := (next.map fun fn => (fn, 0)).toList ++ stack
      submitted := m.submitted ++ [(s.socket, s.buf)] } s 0 0
  refine ⟨?_, ⟨Nat.zero_le _, ?_⟩, ?_⟩
  · simp only [step, running, Machine.resume, resumed]
    rfl
  · rw [called]
    dsimp only
    have none : m.context.send.waiting.filter (fun op => op.socket = s.socket) = [] :=
      List.filter_eq_nil_iff.mpr fun op waits => by simpa using free op waits
    rw [Rounds.waiting_pushes, List.filter_append, none, List.nil_append, List.filter_eq_self]
    exact fun op queued => decide_eq_true (s.socket_of_continuation queued)
  · rw [called]
    exact ⟨_, rfl⟩

theorem sends_of_begins {world : World} {before events : List (Event κ)}
    (reached : run host { world } before = .ok m) (begins : s.Begins host m started)
    (ran : run host started events = .ok after)
    (only : Along host (NoOtherSend host s.socket) started events) :
    s.Transfers started (record host (sendCall s.socket) started events) after := by
  obtain ⟨stepped, sending, stack⟩ := sending_of_begins begins
  have steady := (steady_of_run (steady_start world) reached).step stepped
  obtain ⟨paid, done⟩ := sending.run steady only ran
  have invoked := SendAll.invoked_calls paid
  have taken := SendAll.taken_calls paid
  rw [Nat.zero_add] at invoked done
  rw [List.drop_zero] at taken
  refine ⟨fun front call back split => ?_, done.most, taken, done.sole, stack, invoked⟩
  have made := paid.good_of_split split
  rwa [Nat.zero_add] at made

/-- `async_recv_all` and `async_send_all` transfer the whole buffer, piece by
piece, whatever else the program does between the pieces. -/
theorem whole_buffers_transferred (host : Host Addr Buf κ World) {world : World}
    {before : List (Event κ)} {m started after : Machine Addr Buf κ World}
    (reached : run host { world } before = .ok m) (events : List (Event κ))
    (ran : run host started events = .ok after) :
    (∀ r : RecvAll Addr Buf κ, r.Begins host m started →
      Along host (NoOtherRecv host r.socket) started events →
      r.Transfers started (record host (recvCall r.socket) started events) after) ∧
    ∀ s : SendAll Addr κ, s.Begins host m started →
      Along host (NoOtherSend host s.socket) started events →
      s.Transfers started (record host (sendCall s.socket) started events) after :=
  ⟨fun _ begins only => transfers_of_begins reached begins ran only,
    fun _ begins only => sends_of_begins reached begins ran only⟩

/-! A program whose callbacks are scripts: lengths to receive and payloads to
send, with their sockets. -/

def exchange : Host Nat Unit (List (Nat × (Nat ⊕ Bytes))) Unit where
  fd _ socket := some socket
  recv world _ _ _ := .ok world
  send world _ _ := .ok world
  accept world _ _ := .ok world
  resume script _ world :=
    match script with
    | [] => .ok (world, none, none)
    | (socket, .inl len) :: script =>
        .ok (world, some (.asyncRecvAll socket { base := () } len []), some script)
    | (socket, .inr payload) :: script =>
        .ok (world, some (.asyncSendAll socket payload []), some script)

def threeBytes : RecvAll Nat Unit (List (Nat × (Nat ⊕ Bytes))) :=
  { socket := 5, buf := { base := () }, len := 3, fn := [] }

/-- The program is asked to receive three bytes on one socket and to send two to
another, and the first of the two is under way. -/
def asked : Machine Nat Unit (List (Nat × (Nat ⊕ Bytes))) Unit :=
  enter { world := () } [(5, .inl 3), (6, .inr [7, 8])] 0

def begun : Machine Nat Unit (List (Nat × (Nat ⊕ Bytes))) Unit :=
  asked.proceed (some threeBytes.call) (some [(6, .inr [7, 8])]) []

/-- The three bytes arrive in two parts, with an empty result in between. -/
def greeting : List (Event (List (Nat × (Nat ⊕ Bytes)))) :=
  [.tick, .tick, .run, .select [5] [6], .recv [1], .send 2, .tick, .tick, .select [5] [],
    .recv [], .tick, .select [5] [], .recv [2, 3], .tick, .tick]

theorem whole_buffers_transferred_exchange : ∃ after,
    run exchange begun greeting = .ok after ∧
      threeBytes.Transfers begun (record exchange (recvCall 5) begun greeting) after := by
  have reached : run exchange { world := () } [.call [(5, .inl 3), (6, .inr [7, 8])]] =
    .ok asked := rfl
  have begins : threeBytes.Begins exchange asked begun := .call rfl rfl nofun
  exact ⟨_, rfl, (whole_buffers_transferred exchange reached greeting rfl).1 threeBytes begins
    (by decide +kernel)⟩

end Machine

end Boutique.Io
