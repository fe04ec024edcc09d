import Boutique.Core.StreamRuns
import Boutique.Data.OneByOne
import Boutique.Protocol.MessageCodec

namespace Boutique.Cli

open Boutique.Core Boutique.Data Boutique.Protocol

/-! # The loop that receives a response

What `recv` gives is scripted: chunks of what the server sent, and 0 bytes once
they are used up. -/

/-- Where the loop is, with the responses visited so far. -/
inductive Progress where
  | receiving (stream : StreamBuf) (handled : List Response)
  | exited (recvs : Nat) (stream : StreamBuf) (handled : List Response)

/-- One round on the `data` that `recv` put into `recv_buf`: whether there is
another one, the buffer then and what was visited. -/
def receiveRound (stream : StreamBuf) (data : Bytes) :
    Except Fault (Bool × StreamBuf × List Response) :=
  let stream := stream.append data
  match readResponse stream.asConstBuffer .monostate with
  | (.invalid, _, _) => do
      let stream ← stream.consume stream.dataSize
      return (false, stream, [])
  | (.success, resBuf, res) => do
      let stream ← stream.consume (stream.asConstBuffer.length - resBuf.length)
      return (!stream.empty, stream, [res])
  | (.incomplete, _, _) => return (!stream.empty, stream, [])

/-- What `recv` gives in round `i`, from 0 on. -/
def recv (chunks : List Bytes) (i : Nat) : Bytes := chunks.getD i []

/-- The first rounds of the loop, which begins with an empty buffer. -/
def receive (chunks : List Bytes) : Nat → Except Fault Progress
  | 0 => return .receiving {} []
  | i + 1 => do
      match ← receive chunks i with
      | .exited recvs stream handled => return .exited recvs stream handled
      | .receiving stream handled => do
          let (again, stream, res) ← receiveRound stream (recv chunks i)
          if again then return .receiving stream (handled ++ res)
          else return .exited (i + 1) stream (handled ++ res)

/-- What a server sends in pieces that fit into `recv_buf`. -/
def Division (chunks : List Bytes) : Prop :=
  ∀ chunk ∈ chunks, 1 ≤ chunk.length ∧ chunk.length ≤ 128

instance (chunks : List Bytes) : Decidable (Division chunks) :=
  inferInstanceAs (Decidable (∀ chunk ∈ chunks, 1 ≤ chunk.length ∧ chunk.length ≤ 128))

def Terminates (chunks : List Bytes) : Prop :=
  ∃ i recvs stream handled, receive chunks i = .ok (.exited recvs stream handled)

/-- The loop is left in the round of the last chunk, which is the one that
handles `res`, with nothing in the buffer. -/
def HandlesOnce (chunks : List Bytes) (res : Response) : Prop :=
  (∃ stream, receive chunks (chunks.length - 1) = .ok (.receiving stream [])) ∧
    ∃ stream, stream.empty = true ∧ stream.dataSize = 0 ∧
      ∀ i, chunks.length ≤ i → receive chunks i = .ok (.exited chunks.length stream [res])

/-! ## The loop takes responses one by one -/

def nextResponse (input : Bytes) : Verdict Response UInt8 :=
  verdict (readResponse input .monostate)

theorem nextResponse_codec : Codec nextResponse writeResponse Response.Encodable :=
  readResponse_reads.codec (fun _ => writeResponse_ne_nil _) .monostate

variable {stream : StreamBuf} {content data rest : Bytes} {chunks : List Bytes} {res : Response}
  {i : Nat}

theorem holds_nil (holds : stream.Holds []) : stream = {} := by
  obtain ⟨size, used, buf⟩ := stream
  have none : used = 0 := holds.cleared rfl
  have bytes : buf = [] := by simpa [none] using holds.drop_eq
  have length : size = buf.length := holds.size_eq
  rw [none, length, bytes]
  rfl

theorem not_empty (holds : stream.Holds content) : (!stream.empty) = !content.isEmpty := by
  have same := holds.empty_iff
  cases content <;> cases empty : stream.empty <;> simp_all

/-- A round takes one response at most off the buffer, and is the last one where
there is nothing more to take. -/
theorem receiveRound_takes (holds : stream.Holds content) (data : Bytes) :
    ∃ again after more, receiveRound stream data = .ok (again, after, more) ∧
      match takeOne nextResponse (content ++ data) with
      | (values, some buffer) => more = values ∧ again = true ∧ after.Holds buffer
      | (values, none) => more = values ∧ again = false ∧ after = {} := by
  have grown := holds.append data
  have arrived := grown.asConstBuffer_eq
  rw [receiveRound]
  simp only [arrived, takeOne, nextResponse]
  cases outcome : readResponse (content ++ data) .monostate with
  | mk result left =>
      obtain ⟨rest, res⟩ := left
      cases result with
      | invalid =>
          obtain ⟨after, consumed, holds'⟩ := grown.consume_drop (Nat.le_refl _)
          rw [← grown.dataSize_eq] at consumed
          rw [List.drop_length] at holds'
          simp only [consumed]
          exact ⟨false, after, [], rfl, rfl, rfl, holds_nil holds'⟩
      | incomplete =>
          refine ⟨_, _, _, rfl, ?_⟩
          rw [not_empty grown]
          cases whole : content ++ data with
          | nil =>
              rw [whole] at grown
              exact ⟨rfl, rfl, holds_nil grown⟩
          | cons first others =>
              rw [whole] at grown
              exact ⟨rfl, rfl, grown⟩
      | success =>
          obtain ⟨_, split⟩ := readResponse_reads.success_iff.mp outcome
          rw [split] at grown
          obtain ⟨after, consumed, holds', _⟩ := grown.consume
          have length : (content ++ data).length - rest.length = (writeResponse res).length := by
            rw [split, List.length_append, Nat.add_sub_cancel]
          simp only [length, consumed]
          refine ⟨_, _, _, rfl, ?_⟩
          rw [not_empty holds']
          cases rest with
          | nil => exact ⟨rfl, rfl, holds_nil holds'⟩
          | cons first others => exact ⟨rfl, rfl, holds'⟩

/-- So does the loop, and it never trips an assertion. -/
theorem receive_takes (chunks : List Bytes) (i : Nat) :
    ∃ progress, receive chunks i = .ok progress ∧
      match taken nextResponse chunks i with
      | (values, some buffer) =>
          ∃ stream, progress = .receiving stream values ∧ stream.Holds buffer
      | (values, none) => ∃ last < i, progress = .exited (last + 1) {} values ∧
          (taken nextResponse chunks last).2 ≠ none ∧
          (taken nextResponse chunks (last + 1)).2 = none := by
  induction i with
  | zero => exact ⟨_, rfl, {}, rfl, StreamBuf.holds_empty⟩
  | succ i ih =>
      obtain ⟨progress, run, spec⟩ := ih
      rw [receive, run, ok_bind]
      cases before : taken nextResponse chunks i with
      | mk values buffer =>
          rw [before] at spec
          cases buffer with
          | none =>
              obtain ⟨last, early, rfl, going, gone⟩ := spec
              have ended : (taken nextResponse chunks i).2 = none := by rw [before]
              rw [taken_succ_of_ended ended, before]
              exact ⟨_, rfl, last, Nat.lt_succ_of_lt early, rfl, going, gone⟩
          | some buffer =>
              obtain ⟨stream, rfl, holds⟩ := spec
              obtain ⟨again, after, more, round, took⟩ :=
                receiveRound_takes holds (recv chunks i)
              cases here : takeOne nextResponse (buffer ++ recv chunks i) with
              | mk one left =>
                  have next := taken_succ before here
                  rw [here] at took
                  simp only [round, ok_bind, next]
                  cases left with
                  | none =>
                      obtain ⟨rfl, rfl, rfl⟩ := took
                      refine ⟨_, rfl, i, Nat.lt_succ_self i, rfl, ?_, by rw [next]⟩
                      rw [before]
                      exact Option.some_ne_none buffer
                  | some buffer =>
                      obtain ⟨rfl, rfl, holds'⟩ := took
                      exact ⟨_, rfl, after, rfl, holds'⟩

theorem terminates_iff (chunks : List Bytes) :
    Terminates chunks ↔ ∃ i, (taken nextResponse chunks i).2 = none := by
  constructor
  · intro ⟨i, recvs, stream, handled, run⟩
    obtain ⟨progress, run', spec⟩ := receive_takes chunks i
    match here : taken nextResponse chunks i with
    | (values, none) => exact ⟨i, by rw [here]⟩
    | (values, some buffer) =>
        rw [here] at spec
        obtain ⟨_, rfl, _⟩ := spec
        rw [run] at run'
        cases run'
  · intro ⟨i, ended⟩
    obtain ⟨progress, run, spec⟩ := receive_takes chunks i
    match here : taken nextResponse chunks i with
    | (values, none) =>
        rw [here] at spec
        obtain ⟨last, _, rfl, _⟩ := spec
        exact ⟨i, _, _, _, run⟩
    | (values, some buffer) =>
        rw [here] at ended
        cases ended

/-- Whatever the pieces, one response is handled with the last of them. -/
theorem handlesOnce (division : Division chunks) (fits : Response.Encodable res)
    (whole : chunks.flatten = writeResponse res) : HandlesOnce chunks res := by
  have nonempty : ∀ chunk ∈ chunks, chunk ≠ [] := by
    intro chunk member nothing
    have some := (division chunk member).1
    rw [nothing] at some
    exact absurd some (by decide)
  have handled := taken_single nextResponse_codec fits whole nonempty
  have early {i : Nat} (before : i < chunks.length) :
      taken nextResponse chunks i = ([], some (received chunks i)) :=
    taken_before_single nextResponse_codec fits whole nonempty before
  have positive : 0 < chunks.length := by
    rw [List.length_pos_iff]
    intro none
    rw [none] at whole
    exact writeResponse_ne_nil res whole.symm
  constructor
  · obtain ⟨progress, run, spec⟩ := receive_takes chunks (chunks.length - 1)
    rw [early (Nat.sub_lt positive Nat.one_pos)] at spec
    obtain ⟨stream, rfl, _⟩ := spec
    exact ⟨stream, run⟩
  · refine ⟨{}, rfl, rfl, fun i all => ?_⟩
    have ended : (taken nextResponse chunks chunks.length).2 = none := by rw [handled]
    obtain ⟨progress, run, spec⟩ := receive_takes chunks i
    rw [taken_of_le ended all, handled] at spec
    obtain ⟨last, _, rfl, going, gone⟩ := spec
    have notLater : last < chunks.length := by
      by_contra late
      rw [taken_of_le ended (Nat.le_of_not_lt late)] at going
      exact going ended
    have notEarlier : ¬ last + 1 < chunks.length := by
      intro before
      rw [early before] at gone
      cases gone
    rw [run]
    congr 2
    omega

/-- When the loop ends: what was sent holds something that is no response, or
nothing but responses, or there is a chunk with which everything that had
arrived was responses, no more of which had arrived since any chunk than one
for each. -/
def ComesToEnd (chunks : List Bytes) : Prop :=
  ∃ responses left malformed, Drains nextResponse chunks.flatten responses left malformed ∧
    (malformed = true ∨ left = [] ∨
      ∃ i, 0 < i ∧ i ≤ chunks.length ∧ CaughtUp nextResponse chunks i)

theorem receive_loop_iff (chunks : List Bytes) (division : Division chunks) :
    (Terminates chunks ∧ ∀ res, Response.Encodable res →
      chunks.flatten = writeResponse res → HandlesOnce chunks res) ↔ ComesToEnd chunks := by
  obtain ⟨responses, left, malformed, drained⟩ :=
    Drains.total nextResponse_codec chunks.flatten
  have ends := taken_ends_iff nextResponse_codec drained
  rw [terminates_iff, ends]
  constructor
  · intro ⟨given, _⟩
    exact ⟨responses, left, malformed, drained, given⟩
  · intro ⟨_, _, _, other, given⟩
    obtain ⟨rfl, rfl, rfl⟩ := drained.deterministic other
    exact ⟨given, fun res fits whole => handlesOnce division fits whole⟩

/-- A response in three pieces. -/
def pieces : List Bytes := [[5, 2], [0, 0, 0, 104], [105]]

theorem receive_loop_iff_pieces :
    Terminates pieces ∧ ∀ res, Response.Encodable res →
      pieces.flatten = writeResponse res → HandlesOnce pieces res :=
  (receive_loop_iff pieces (by decide)).mpr
    ⟨[.found [104, 105]], [], false, .accepted rfl (.starved rfl), .inr (.inl rfl)⟩

/-- The buffer once the server has closed the connection after one byte of a
response. -/
theorem receive_cut (i : Nat) : receive [[5]] (i + 1) =
    .ok (.receiving { size := 1, used := 0, buf := [5] } []) := by
  induction i with
  | zero => rfl
  | succ i ih =>
      rw [receive, ih]
      rfl

theorem cut_never_ends : Division [[5]] ∧ ¬ Terminates [[5]] := by
  refine ⟨by decide, fun ends => ?_⟩
  obtain ⟨i, recvs, stream, handled, run⟩ := ends
  cases i with
  | zero => cases run
  | succ i =>
      rw [receive_cut] at run
      cases run

end Boutique.Cli
