import Boutique.Io.Sending

namespace Boutique.Io.Machine

open Boutique.Data

/-! # Receiving past the end of a stream

`Socket::recv` answers 0 at the end of a stream as it does when there is nothing
yet, and `RecvHandler` asks for the rest either way. -/

/-- The program calls `async_recv_all` and then `run`. -/
def askForAll (socket len : Nat) : List (Event (List (Nat × (Nat ⊕ Bytes)))) :=
  [.call [(socket, .inl len)], .tick, .tick, .run]

/-- Iterations in each of which the socket is readable, with what `recv` answers. -/
def answers (socket : Nat) (results : List Bytes) : List (Event (List (Nat × (Nat ⊕ Bytes)))) :=
  results.flatMap fun data => [.select [socket] [], .recv data, .tick]

/-- A stream that arrives as `division`, and `ends` reads of its end. -/
def streamAndEnds (socket len : Nat) (division : List Bytes) (ends : Nat) :
    List (Event (List (Nat × (Nat ⊕ Bytes)))) :=
  askForAll socket len ++ answers socket (division ++ List.replicate ends [])

def recvCalls (socket len : Nat) (division : List Bytes) (ends : Nat) :
    List (RecvCall Unit (List (Nat × (Nat ⊕ Bytes)))) :=
  record exchange (recvCall socket) { world := () } (streamAndEnds socket len division ends)

/-- However often the end of the stream is read, no more than so many calls of
`recv` are made. -/
def StopsAtEnd (socket len : Nat) (division : List Bytes) : Prop :=
  ∃ bound, ∀ ends m, run exchange { world := () } (streamAndEnds socket len division ends) = .ok m →
    (recvCalls socket len division ends).length ≤ bound

variable {r : RecvAll Nat Unit (List (Nat × (Nat ⊕ Bytes)))} {count : Nat} {data : Bytes}

/-- The machine in `run` between iterations, while an `async_recv_all` waits. -/
def listening (r : RecvAll Nat Unit (List (Nat × (Nat ⊕ Bytes)))) (count : Nat) :
    Machine Nat Unit (List (Nat × (Nat ⊕ Bytes))) Unit :=
  { world := (), running := true, context := { recv := { fresh := [r.op count] } } }

/-- The machine in an iteration in which the socket is readable. -/
def reported (r : RecvAll Nat Unit (List (Nat × (Nat ⊕ Bytes))))
    (recv : Rounds (RecvOp Nat Unit (List (Nat × (Nat ⊕ Bytes))))) :
    Machine Nat Unit (List (Nat × (Nat ⊕ Bytes))) Unit :=
  { world := (), running := true, context := { recv },
    ready := some { read := [r.socket], write := [] } }

theorem listening_select : (listening r count).step exchange (.select [r.socket] []) =
    .ok (reported r { todo := [r.op count] }) := by
  have asked : [r.socket].filter (fun fd => decide (fd ∈ [r.socket] ++ [] ++ [])) = [r.socket] := by
    simp
  have selected : (listening r count).step exchange (.select [r.socket] []) =
      .ok { reported r { todo := [r.op count] } with
        ready := some {
          read := [r.socket].filter (fun fd => decide (fd ∈ [r.socket] ++ [] ++ []))
          write := [] } } := rfl
  rw [selected, asked]
  rfl

theorem reported_recv (short : count + data.length < r.len) :
    (reported r { todo := [r.op count] }).step exchange (.recv data) =
      .ok (reported r { visited := [(r.op count, true)],
                        fresh := [r.op (count + data.length)] }) := by
  have known : fdOf exchange () (r.op count).socket = .ok r.socket := rfl
  have fits : data.length ≤ (r.op count).maxlen := by
    change data.length ≤ r.len - count
    omega
  simp only [step, reported, iterate, visit, known, ok_bind]
  rw [if_pos List.mem_cons_self]
  simp only [serveRecv]
  rw [if_pos fits]
  change Except.ok (invokeRecv _ (r.op count).fn data.length) = _
  rw [invokeRecv_op, RecvAll.invoked, if_pos short, RecvAll.continuation, if_pos short]
  rfl

theorem reported_merge (op other : RecvOp Nat Unit (List (Nat × (Nat ⊕ Bytes)))) :
    (reported r { visited := [(op, true)], fresh := [other] }).step exchange .tick =
      .ok { world := (), running := true, context := { recv := { fresh := [other] } } } := rfl

/-- An answer that leaves something to receive, be it empty, leads to the next
call of `recv`. -/
theorem listening_round (short : count + data.length < r.len) (events) :
    run exchange (listening r count) (.select [r.socket] [] :: .recv data :: .tick :: events) =
      run exchange (listening r (count + data.length)) events := by
  rw [run, listening_select, ok_bind, run, reported_recv short, ok_bind, run, reported_merge,
    ok_bind, listening]

theorem listening_record (short : count + data.length < r.len) (events) :
    record exchange (recvCall r.socket) (listening r count)
        (.select [r.socket] [] :: .recv data :: .tick :: events) =
      { buf := (r.op count).buf, maxlen := r.len - count, data, invoked := [] } ::
        record exchange (recvCall r.socket) (listening r (count + data.length)) events := by
  have seen : recvCall r.socket (reported r { todo := [r.op count] }) (.recv data)
      (reported r { visited := [(r.op count, true)], fresh := [r.op (count + data.length)] }) =
      some { buf := (r.op count).buf, maxlen := r.len - count, data, invoked := [] } := if_pos rfl
  rw [record_cons listening_select, record_cons (reported_recv short), seen,
    record_cons (reported_merge _ _)]
  rfl

theorem listening_answers (r : RecvAll Nat Unit (List (Nat × (Nat ⊕ Bytes)))) (count : Nat)
    (results : List Bytes) (short : count + results.flatten.length < r.len) :
    run exchange (listening r count) (answers r.socket results) =
        .ok (listening r (count + results.flatten.length)) ∧
      (record exchange (recvCall r.socket) (listening r count)
        (answers r.socket results)).length = results.length := by
  induction results generalizing count with
  | nil => exact ⟨rfl, rfl⟩
  | cons data results ih =>
      rw [List.flatten_cons, List.length_append, ← Nat.add_assoc] at short ⊢
      obtain ⟨ran, calls⟩ := ih _ short
      have first : count + data.length < r.len := by omega
      rw [answers, List.flatMap_cons]
      change run _ _ (.select _ _ :: .recv _ :: .tick :: answers r.socket results) = _ ∧
        (record _ _ _ (.select _ _ :: .recv _ :: .tick :: answers r.socket results)).length = _
      rw [listening_round first, listening_record first, List.length_cons, List.length_cons, calls]
      exact ⟨ran, rfl⟩

/-- The operation of a program that asks for `len` bytes. -/
def asks (socket len : Nat) : RecvAll Nat Unit (List (Nat × (Nat ⊕ Bytes))) :=
  { socket, buf := { base := () }, len, fn := [] }

variable {socket len : Nat} {division : List Bytes}

/-- The call queues the operation, for there is something to receive. -/
theorem askForAll_listening (socket : Nat) (some : 0 < len) (events) :
    run exchange { world := () } (askForAll socket len ++ events) =
        run exchange (listening (asks socket len) 0) events ∧
      record exchange (recvCall socket) { world := () } (askForAll socket len ++ events) =
        record exchange (recvCall socket) (listening (asks socket len) 0) events := by
  obtain ⟨more, rfl⟩ := Nat.exists_eq_add_of_lt some
  rw [Nat.zero_add]
  exact ⟨rfl, rfl⟩

/-- The stream and any number of reads of its end. -/
theorem reads_of_end (socket : Nat) (short : division.flatten.length < len) (ends : Nat) :
    run exchange { world := () } (streamAndEnds socket len division ends) =
        .ok (listening (asks socket len) division.flatten.length) ∧
      (recvCalls socket len division ends).length = division.length + ends := by
  have nothing : (division ++ List.replicate ends []).flatten = division.flatten := by
    simp
  have started := askForAll_listening socket (Nat.zero_lt_of_lt short)
    (answers socket (division ++ List.replicate ends []))
  have answered := listening_answers (asks socket len) 0 (division ++ List.replicate ends [])
    (by rw [nothing, Nat.zero_add]; exact short)
  rw [nothing, Nat.zero_add] at answered
  rw [recvCalls, streamAndEnds, started.1, started.2]
  refine ⟨answered.1, answered.2.trans ?_⟩
  rw [List.length_append, List.length_replicate]

theorem not_stopsAtEnd (short : division.flatten.length < len) :
    ¬ StopsAtEnd socket len division := by
  intro stops
  obtain ⟨bound, bounded⟩ := stops
  obtain ⟨ran, calls⟩ := reads_of_end socket short (bound + 1)
  have few := bounded (bound + 1) _ ran
  omega

/-- In any program at all an operation that is short of bytes waits for them,
however many calls of `recv` have answered with none. -/
theorem waits_while_short {Addr Buf κ World : Type} [DecidableEq Addr]
    {host : Host Addr Buf κ World} {world : World} {before events : List (Event κ)}
    {m started after : Machine Addr Buf κ World} {r : RecvAll Addr Buf κ}
    (reached : run host { world } before = .ok m) (begins : r.Begins host m started)
    (ran : run host started events = .ok after)
    (only : Along host (NoOtherRecv host r.socket) started events)
    (short : total RecvCall.received (record host (recvCall r.socket) started events) < r.len) :
    after.context.recv.waiting.filter (fun op => op.socket = r.socket) =
      [r.op (total RecvCall.received (record host (recvCall r.socket) started events))] := by
  rw [(transfers_of_begins reached begins ran only).queued, RecvAll.continuation, if_pos short]

/-- However a stream that is too short arrives, its end may be read any number
of times, the operation always waits again, and so it never stops. -/
theorem recv_all_outlives_stream (socket len : Nat) (division : List Bytes)
    (short : division.flatten.length < len) :
    ¬ StopsAtEnd socket len division ∧
    ∀ ends, ∃ m,
      run exchange { world := () } (streamAndEnds socket len division ends) = .ok m ∧
      (recvCalls socket len division ends).length = division.length + ends ∧
      m.context.recv.waiting = [(asks socket len).op division.flatten.length] :=
  ⟨not_stopsAtEnd short, fun ends =>
    have reads := reads_of_end socket short ends
    ⟨_, reads.1, reads.2, rfl⟩⟩

/-- One byte arrives of two. -/
theorem recv_all_outlives_stream_cut : ¬ StopsAtEnd 5 2 [[1]] ∧
    ∀ ends, ∃ m, run exchange { world := () } (streamAndEnds 5 2 [[1]] ends) = .ok m ∧
      (recvCalls 5 2 [[1]] ends).length = 1 + ends ∧
      m.context.recv.waiting = [(asks 5 2).op 1] :=
  recv_all_outlives_stream 5 2 [[1]] (by decide)

theorem no_stop_after_one_byte : ¬ ∀ (socket len : Nat) (division : List Bytes),
    division.flatten.length < len → StopsAtEnd socket len division :=
  fun stops => not_stopsAtEnd (by decide) (stops 5 2 [[1]] (by decide))

end Boutique.Io.Machine
