import Boutique.Io.Transfers

namespace Boutique.Io

open Boutique.Data

variable {Addr Buf κ World : Type}

/-! # Receiving a whole buffer -/

namespace Machine

variable {host : Host Addr Buf κ World} {m after : Machine Addr Buf κ World} {event : Event κ}

theorem invokeRecv_op (m : Machine Addr Buf κ World) (r : RecvAll Addr Buf κ) (count res : Nat) :
    m.invokeRecv (r.op count).fn res =
      { m with
        stack := r.invoked (count + res) ++ m.stack
        context := { m.context with
          recv := (r.continuation (count + res)).foldl Rounds.push m.context.recv } } :=
  callRecvHandler_handler m r count res

theorem pushes_recv (context : IOContext Addr Buf κ) (pushed : List (RecvOp Addr Buf κ)) :
    (context.apply { recv := pushed.map .push }).recv = pushed.foldl Rounds.push context.recv :=
  List.foldl_map

section

variable [DecidableEq Addr] {r : RecvAll Addr Buf κ} {count : Nat}

/-- `count` bytes have been received, and what waits on the socket is the
continuation for the others. -/
structure Receiving (m : Machine Addr Buf κ World) (r : RecvAll Addr Buf κ) (count : Nat) :
    Prop where
  most : count ≤ r.len
  sole : m.context.recv.waiting.filter (fun op => op.socket = r.socket) = r.continuation count

theorem Receiving.of_waiting (receiving : m.Receiving r count)
    (same : after.context.recv.waiting = m.context.recv.waiting) : after.Receiving r count :=
  ⟨receiving.most, by rw [same, receiving.sole]⟩

theorem Receiving.proceed (receiving : m.Receiving r count) {call : Option (Call Addr Buf κ)}
    (others : ∀ made, call = some made → ¬ made.ReceivesFrom r.socket) (next : Option κ)
    (stack : List (κ × Nat)) : (m.proceed call next stack).Receiving r count := by
  cases call with
  | none => exact receiving.of_waiting rfl
  | some call =>
      obtain ⟨pushed, effects, own⟩ := call.recv_effects
      obtain ⟨stop, context⟩ := perform_context
        { m with stack := (next.map fun fn => (fn, 0)).toList ++ stack } call
      refine ⟨receiving.most, ?_⟩
      rw [Machine.proceed, context]
      change List.filter _ (call.effects.recv.foldl Rounds.apply m.context.recv).waiting = _
      rw [effects, List.foldl_map]
      refine (Rounds.filter_pushes_other fun op queued => ?_).trans receiving.sole
      rw [decide_eq_false_iff_not]
      intro same
      exact others call rfl (same ▸ (own op queued).2)

/-- The result of a call for the operation itself. -/
theorem Receiving.serve {op : RecvOp Addr Buf κ} {rest : List (RecvOp Addr Buf κ)} {data : Bytes}
    {world : World} (receiving : m.Receiving r count) (quiet : m.stack = [])
    (next : m.context.recv.todo = op :: rest) (own : op.socket = r.socket)
    (fits : data.length ≤ op.maxlen)
    (stepped : after = { m with
      world, context := { m.context with recv := m.context.recv.visit true } }.invokeRecv op.fn
        data.length) :
    r.Makes count { buf := op.buf, maxlen := op.maxlen, data, invoked := after.stack } ∧
      after.Receiving r (count + data.length) := by
  have waits : op ∈ m.context.recv.waiting.filter fun op => op.socket = r.socket :=
    List.mem_filter.mpr ⟨Rounds.mem_waiting next, decide_eq_true own⟩
  rw [receiving.sole, RecvAll.continuation] at waits
  split at waits
  · rename_i unfinished
    obtain rfl : op = r.op count := List.mem_singleton.mp waits
    have sole := receiving.sole
    rw [RecvAll.continuation, if_pos unfinished] at sole
    obtain ⟨_, none⟩ := Rounds.filter_done_only next (decide_eq_true own) sole
    rw [invokeRecv_op, quiet, List.append_nil] at stepped
    subst stepped
    have most := receiving.most
    have room : data.length ≤ r.len - count := fits
    refine ⟨⟨unfinished, rfl, rfl, room, rfl⟩, by omega, ?_⟩
    dsimp only
    rw [Rounds.waiting_pushes, List.filter_append, none, List.nil_append, List.filter_eq_self]
    exact fun op queued => decide_eq_true (r.socket_of_continuation queued)
  · cases waits

/-- The result of a call for another operation. -/
theorem Receiving.serve_other {op : RecvOp Addr Buf κ} {rest : List (RecvOp Addr Buf κ)}
    {world : World} (receiving : m.Receiving r count) (steady : op.Steady)
    (next : m.context.recv.todo = op :: rest) (other : op.socket ≠ r.socket) (res : Nat) :
    ({ m with
      world, context := { m.context with recv := m.context.recv.visit true } }.invokeRecv op.fn
        res).Receiving r count := by
  refine ⟨receiving.most, ?_⟩
  rw [invokeRecv_context, pushes_recv, Rounds.filter_pushes_other]
  · rw [Rounds.filter_done_other next (decide_eq_false other), receiving.sole]
  · intro queued member
    rw [(RecvOp.of_queues member).2 steady]
    exact decide_eq_false other

/-- A step goes on with the operation or leaves it alone. -/
theorem Receiving.step (receiving : m.Receiving r count) (steady : m.Steady)
    (only : m.NoOtherRecv host r.socket event) (stepped : m.step host event = .ok after) :
    recvCall r.socket m event after = none ∧ after.Receiving r count ∨
      ∃ call, recvCall r.socket m event after = some call ∧ r.Makes count call ∧
        after.Receiving r (count + call.received) := by
  cases step_move stepped with
  | resume running resumed =>
      rename_i world call next
      have kept : Receiving { m with world } r count := receiving.of_waiting rfl
      refine .inl ⟨rfl, kept.proceed (fun made same => ?_) _ _⟩
      apply only
      simp only [nextCall, running, resumed, same, Option.mem_def]
  | call | start | «return» | passSend | passAccept | accept | passWait | wait =>
      exact .inl ⟨rfl, receiving.of_waiting rfl⟩
  | select quiet outside =>
      refine .inl ⟨rfl, receiving.of_waiting ?_⟩
      exact (Rounds.waiting_start _).trans (steady.idle outside).recv.waiting_eq.symm
  | passRecv quiet inside next =>
      exact .inl ⟨rfl, receiving.of_waiting (Rounds.waiting_pass next)⟩
  | merge => exact .inl ⟨rfl, receiving.of_waiting rfl⟩
  | send =>
      refine .inl ⟨rfl, receiving.of_waiting ?_⟩
      rw [invokeSend_context]
      rfl
  | @recv _ op rest _ data world quiet inside next known set fits =>
      simp only [recvCall, next]
      by_cases own : op.socket = r.socket
      · rw [if_pos own]
        exact .inr ⟨_, rfl, receiving.serve quiet next own fits rfl⟩
      · rw [if_neg own]
        refine .inl ⟨rfl, receiving.serve_other ?_ next own data.length⟩
        exact steady.recv op (Rounds.mem_waiting next)

theorem Receiving.run {events : List (Event κ)} (receiving : m.Receiving r count)
    (steady : m.Steady) (only : Along host (NoOtherRecv host r.socket) m events)
    (ran : run host m events = .ok after) :
    let calls := record host (recvCall r.socket) m events
    Instalments r.Makes RecvCall.received count calls ∧
      after.Receiving r (count + total RecvCall.received calls) := by
  induction events generalizing m count with
  | nil =>
      cases ran
      exact ⟨trivial, receiving⟩
  | cons event events ih =>
      obtain ⟨next, stepped, ran⟩ := bind_ok_iff.mp ran
      obtain ⟨meets, only⟩ := only
      rw [stepped] at only
      rw [record_cons stepped]
      have later := steady.step stepped
      rcases receiving.step steady meets stepped with ⟨none, kept⟩ | ⟨call, made, right, went⟩
      · rw [none]
        exact ih kept later only ran
      · obtain ⟨paid, done⟩ := ih went later only ran
        rw [made]
        refine ⟨⟨right, paid⟩, ?_⟩
        rw [Option.toList_some, List.singleton_append, total_cons, ← Nat.add_assoc]
        exact done

end

end Machine

namespace RecvAll

variable {r : RecvAll Addr Buf κ} {count : Nat} {calls : List (RecvCall Buf κ)}

/-- A callback that runs calls `async_recv_all`, and no other operation to
receive from the socket waits. -/
inductive Begins (r : RecvAll Addr Buf κ) (host : Host Addr Buf κ World)
    (m : Machine Addr Buf κ World) : Machine Addr Buf κ World → Prop where
  | call {fn argument stack world next} (running : m.stack = (fn, argument) :: stack)
      (resumed : host.resume fn argument m.world = .ok (world, some r.call, next))
      (free : ∀ op ∈ m.context.recv.waiting, op.socket ≠ r.socket) :
      Begins r host m ({ m with world }.proceed (some r.call) next stack)

/-- How the operation stands after the calls `calls` of `Socket::recv`. Each was
told to fill the buffer from where it was filled so far up to its end, the bytes
received are what has been written to the buffer, what waits on the socket is
the one continuation for the others, and the callback has been invoked if there
are none. -/
structure Transfers [DecidableEq Addr] (r : RecvAll Addr Buf κ)
    (started : Machine Addr Buf κ World) (calls : List (RecvCall Buf κ))
    (after : Machine Addr Buf κ World) : Prop where
  makes : ∀ front call back, calls = front ++ call :: back →
    r.Makes (total RecvCall.received front) call
  most : total RecvCall.received calls ≤ r.len
  written : ∀ memory : Bytes, r.buf.offset + r.len ≤ memory.length →
    calls.foldl (fun memory call => overwrite memory call.buf.offset call.data) memory =
      overwrite memory r.buf.offset (calls.flatMap (·.data))
  queued : after.context.recv.waiting.filter (fun op => op.socket = r.socket) =
    r.continuation (total RecvCall.received calls)
  entered : ∃ rest, started.stack = r.invoked 0 ++ rest
  invoked : r.invoked 0 ++ calls.flatMap (·.invoked) = r.invoked (total RecvCall.received calls)

/-- The calls fill the buffer from where it is filled so far. -/
theorem written (paid : Instalments r.Makes RecvCall.received count calls) (most : count ≤ r.len)
    {memory : Bytes} (room : r.buf.offset + r.len ≤ memory.length) :
    calls.foldl (fun memory call => overwrite memory call.buf.offset call.data) memory =
      overwrite memory (r.buf.offset + count) (calls.flatMap (·.data)) := by
  induction calls generalizing count memory with
  | nil => exact overwrite_nil.symm
  | cons call calls ih =>
      have fits := paid.1.fits
      have inside : r.buf.offset + count + call.data.length ≤ memory.length := by
        rw [RecvCall.received] at fits
        omega
      have offset : call.buf.offset = r.buf.offset + count := by rw [paid.1.buf_eq]
      rw [List.foldl_cons, List.flatMap_cons, offset,
        ih paid.2 (by omega) (by rw [overwrite_length inside]; exact room), RecvCall.received,
        ← Nat.add_assoc, overwrite_append inside]

/-- The callback is invoked with the call that completes the buffer. -/
theorem invoked_calls (paid : Instalments r.Makes RecvCall.received count calls) :
    r.invoked count ++ calls.flatMap (·.invoked) =
      r.invoked (count + total RecvCall.received calls) := by
  induction calls generalizing count with
  | nil => exact List.append_nil _
  | cons call calls ih =>
      have unfinished : r.invoked count = [] := if_pos paid.1.unfinished
      rw [List.flatMap_cons, unfinished, List.nil_append, paid.1.invoked_eq, ih paid.2, total_cons,
        Nat.add_assoc]

end RecvAll

namespace Machine

variable {host : Host Addr Buf κ World} {m started after : Machine Addr Buf κ World}

section

variable [DecidableEq Addr] {r : RecvAll Addr Buf κ}

theorem receiving_of_begins (begins : r.Begins host m started) :
    m.step host .tick = .ok started ∧ started.Receiving r 0 ∧
      ∃ rest, started.stack = r.invoked 0 ++ rest := by
  obtain ⟨running, resumed, free⟩ := begins
  rename_i fn argument stack world next
  have called : ({ m with world }.proceed (some r.call) next stack) = _ :=
    callRecvHandler_handler { m with world, stack := (next.map fun fn => (fn, 0)).toList ++ stack }
      r 0 0
  refine ⟨?_, ⟨Nat.zero_le _, ?_⟩, ?_⟩
  · simp only [step, running, Machine.resume, resumed]
    rfl
  · rw [called]
    dsimp only
    have none : m.context.recv.waiting.filter (fun op => op.socket = r.socket) = [] :=
      List.filter_eq_nil_iff.mpr fun op waits => by simpa using free op waits
    rw [Rounds.waiting_pushes, List.filter_append, none, List.nil_append, List.filter_eq_self]
    exact fun op queued => decide_eq_true (r.socket_of_continuation queued)
  · rw [called]
    exact ⟨_, rfl⟩

theorem transfers_of_begins {world : World} {before events : List (Event κ)}
    (reached : run host { world } before = .ok m) (begins : r.Begins host m started)
    (ran : run host started events = .ok after)
    (only : Along host (NoOtherRecv host r.socket) started events) :
    r.Transfers started (record host (recvCall r.socket) started events) after := by
  obtain ⟨stepped, receiving, stack⟩ := receiving_of_begins begins
  have steady := (steady_of_run (steady_start world) reached).step stepped
  obtain ⟨paid, done⟩ := receiving.run steady only ran
  have invoked := RecvAll.invoked_calls paid
  rw [Nat.zero_add] at invoked done
  refine ⟨fun front call back split => ?_, done.most, fun memory room => ?_, done.sole, stack,
    invoked⟩
  · have made := paid.good_of_split split
    rwa [Nat.zero_add] at made
  · exact RecvAll.written paid (Nat.zero_le _) room

end

end Machine

end Boutique.Io
