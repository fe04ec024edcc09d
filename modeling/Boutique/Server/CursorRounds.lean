import Boutique.Core.StreamRuns
import Boutique.Server.Segmentation

namespace Boutique.Server

open Boutique.Core Boutique.Data Boutique.Db Boutique.Protocol

variable {Store Coll : Type} {s stream : StreamBuf} {cmds : List Command} {rest rest' : Bytes}
  {pos : Nat} {cmd cmd' : Command} {appended : Bytes} {consumed : Nat}

/-- The rounds of the loop of `recv_handler` over the buffer `s`: the commands
visited so far, `cmd_buf` as what is left to read and its place in the buffer,
`cmd`, and the buffer they have left. -/
inductive LoopRounds (s : StreamBuf) :
    List Command → Bytes → Nat → Command → StreamBuf → Prop where
  | first : LoopRounds s [] s.asConstBuffer s.used .monostate s
  | next {cmds : List Command} {rest rest' : Bytes} {pos : Nat} {cmd cmd' : Command}
      {stream after : StreamBuf} (before : LoopRounds s cmds rest pos cmd stream)
      (outcome : readCommand rest cmd = (.success, rest', cmd'))
      (run : stream.consume (pos + (rest.length - rest'.length) - stream.used) = .ok after) :
      LoopRounds s (cmds ++ [cmd']) rest' (pos + (rest.length - rest'.length)) cmd' after

/-- These are the rounds that the loop itself goes through. -/
theorem LoopRounds.recvLoop_eq (rounds : LoopRounds s cmds rest pos cmd stream)
    (ops : DatabaseOps Store Coll) (db : Store) (responses : List Response) :
    recvLoop ops s.asConstBuffer s.used .monostate s db responses = (do
      let (db, issued) ← executeAll ops db cmds
      recvLoop ops rest pos cmd stream db (responses ++ issued)) := by
  induction rounds with
  | first => simp only [executeAll, pure_bind, List.append_nil]
  | @next cmds rest rest' pos cmd cmd' stream after before outcome run ih =>
      have accepted : nextCommand rest = .accepted cmd' rest' := by
        rw [← nextCommand_eq rest cmd]
        exact verdict_accepted_iff.mpr outcome
      rw [ih, executeAll_append]
      simp only [recvLoop_accepted accepted, executeAll, run, ok_bind, bind_assoc, pure_bind,
        List.append_nil, List.append_assoc]

/-- `cmd_buf` keeps pace with the buffer: it is what the buffer still holds, and
starts at `data()` until nothing is left. -/
structure InStep (rest : Bytes) (pos : Nat) (stream : StreamBuf) : Prop where
  holds : stream.Holds rest
  pos_eq : rest ≠ [] → pos = stream.used

/-- What a round consumes lies inside the buffer, and leaves the two in step. -/
theorem InStep.consume (inStep : InStep rest pos stream)
    (outcome : readCommand rest cmd = (.success, rest', cmd')) :
    stream.used ≤ pos + (rest.length - rest'.length) ∧
      pos + (rest.length - rest'.length) - stream.used ≤ stream.dataSize ∧
      ∀ {after}, stream.consume (pos + (rest.length - rest'.length) - stream.used) = .ok after →
        InStep rest' (pos + (rest.length - rest'.length)) after := by
  obtain ⟨_, rfl⟩ := readCommand_reads.success_iff.mp outcome
  have nonempty : writeCommand cmd' ++ rest' ≠ [] :=
    List.append_ne_nil_of_left_ne_nil (writeCommand_ne_nil cmd') rest'
  have start := inStep.pos_eq nonempty
  have held := inStep.holds.dataSize_eq
  have length : (writeCommand cmd' ++ rest').length - rest'.length =
      (writeCommand cmd').length := by
    rw [List.length_append, Nat.add_sub_cancel]
  have distance : pos + (writeCommand cmd').length - stream.used =
      (writeCommand cmd').length := by omega
  rw [List.length_append] at held
  rw [length, distance]
  refine ⟨by omega, by omega, ?_⟩
  intro after run
  obtain ⟨after', run', holds, used⟩ := inStep.holds.consume
  rw [run] at run'
  cases run'
  exact ⟨holds, fun more => by rw [used more, start]⟩

theorem LoopRounds.inStep (rounds : LoopRounds s cmds rest pos cmd stream)
    (holds : s.Holds s.asConstBuffer) : InStep rest pos stream := by
  induction rounds with
  | first => exact ⟨holds, fun _ => rfl⟩
  | next before outcome run ih => exact (ih.consume outcome).2.2 run

/-- A stream buffer queues the bytes appended and not yet consumed, and the
distance from `data()` to `cmd_buf` after a command is never more than it has. -/
theorem streamBuf_is_queue (reached : s.Reached appended consumed) :
    consumed ≤ appended.length ∧ s.Queues (appended.drop consumed) ∧
      ∀ {cmds rest pos cmd stream}, LoopRounds s cmds rest pos cmd stream →
        ∀ {rest' cmd'}, readCommand rest cmd = (.success, rest', cmd') →
          stream.used ≤ pos + (rest.length - rest'.length) ∧
            pos + (rest.length - rest'.length) - stream.used ≤ stream.dataSize := by
  obtain ⟨bound, holds⟩ := reached.holds
  refine ⟨bound, holds.queues, ?_⟩
  intro cmds rest pos cmd stream rounds rest' cmd' outcome
  have held : s.Holds s.asConstBuffer := by
    rw [holds.asConstBuffer_eq]
    exact holds
  obtain ⟨ordered, within, _⟩ := (rounds.inStep held).consume outcome
  exact ⟨ordered, within⟩

/-- Two bytes of a three-byte append were consumed. -/
def halfway : StreamBuf := { size := 3, used := 2, buf := [5, 6, 7] }

theorem reached_halfway : halfway.Reached [5, 6, 7] 2 :=
  (StreamBuf.Reached.empty.append [5, 6, 7]).consume (show 2 ≤ 3 by decide) rfl

theorem streamBuf_is_queue_halfway :
    2 ≤ [5, 6, 7].length ∧ halfway.Queues [7] ∧
      ∀ {cmds rest pos cmd stream}, LoopRounds halfway cmds rest pos cmd stream →
        ∀ {rest' cmd'}, readCommand rest cmd = (.success, rest', cmd') →
          stream.used ≤ pos + (rest.length - rest'.length) ∧
            pos + (rest.length - rest'.length) - stream.used ≤ stream.dataSize :=
  streamBuf_is_queue reached_halfway

end Boutique.Server
