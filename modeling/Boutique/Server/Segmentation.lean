import Mathlib.Data.List.Induction
import Boutique.Server.ClientHandler

namespace Boutique.Server

open Boutique.Core Boutique.Data Boutique.Db Boutique.Protocol

variable {Store Coll : Type} {ops : DatabaseOps Store Coll}

/-! ## One receive -/

def nextCommand (input : Bytes) : Verdict Command UInt8 := verdict (readCommand input .monostate)

theorem nextCommand_codec : Codec nextCommand writeCommand Command.Encodable :=
  readCommand_reads.codec (fun _ => writeCommand_ne_nil _) .monostate

variable {rest rest' : Bytes} {cmd cmd' : Command} {pos : Nat} {stream : StreamBuf} {db : Store}
  {responses : List Response}

theorem nextCommand_eq (rest : Bytes) (cmd : Command) :
    verdict (readCommand rest cmd) = nextCommand rest :=
  readCommand_reads.verdict_eq rest cmd .monostate

theorem recvLoop_starved (starved : nextCommand rest = .starved) :
    recvLoop ops rest pos cmd stream db responses = .ok (stream, db, responses) := by
  rw [← nextCommand_eq rest cmd] at starved
  rw [recvLoop]
  split <;> rename_i outcome
  · rfl
  · rw [outcome] at starved
    cases starved
  · rw [outcome] at starved
    cases starved

theorem recvLoop_rejected (rejected : nextCommand rest = .rejected) :
    recvLoop ops rest pos cmd stream db responses =
      .ok (stream, db, responses ++ [.invalidCommand]) := by
  rw [← nextCommand_eq rest cmd] at rejected
  rw [recvLoop]
  split <;> rename_i outcome
  · rw [outcome] at rejected
    cases rejected
  · rfl
  · rw [outcome] at rejected
    cases rejected

theorem recvLoop_accepted (accepted : nextCommand rest = .accepted cmd' rest') :
    recvLoop ops rest pos cmd stream db responses = (do
      let (db, issued) ← execute ops db cmd'
      let pos := pos + (rest.length - rest'.length)
      let stream ← stream.consume (pos - stream.used)
      recvLoop ops rest' pos cmd' stream db (responses ++ issued)) := by
  rw [← nextCommand_eq rest cmd] at accepted
  rw [recvLoop]
  split <;> rename_i outcome
  · rw [outcome] at accepted
    cases accepted
  · rw [outcome] at accepted
    cases accepted
  · rw [outcome] at accepted
    cases accepted
    rfl

/-- What the loop sends when it leaves a malformed command behind. -/
def complaint (stuck : Bool) : List Response := if stuck then [.invalidCommand] else []

/-- The loop executes what the buffer drains to and keeps what is left. The
read position and `data()` part only once nothing is left to read. -/
theorem recvLoop_drains (ops : DatabaseOps Store Coll) {cmds : List Command} {left : Bytes}
    {stuck : Bool} (drained : Drains nextCommand rest cmds left stuck) (holds : stream.Holds rest)
    (inStep : rest ≠ [] → pos = stream.used) :
    ∃ after, after.Holds left ∧ ∀ cmd (db : Store) responses,
      recvLoop ops rest pos cmd stream db responses =
        (executeAll ops db cmds).map fun (db, issued) =>
          (after, db, responses ++ issued ++ complaint stuck) := by
  induction drained generalizing stream pos with
  | starved verdict =>
      refine ⟨stream, holds, fun cmd db responses => ?_⟩
      rw [recvLoop_starved verdict]
      simp [executeAll, complaint, Except.map, pure, Except.pure]
  | rejected verdict =>
      refine ⟨stream, holds, fun cmd db responses => ?_⟩
      rw [recvLoop_rejected verdict]
      simp [executeAll, complaint, Except.map, pure, Except.pure]
  | @accepted rest cmd' rest' cmds left stuck verdict tail ih =>
      obtain ⟨fits, split⟩ := nextCommand_codec.accepted_iff.mp verdict
      have nonempty : rest ≠ [] := fun nothing =>
        nextCommand_codec.encode_ne_nil fits (List.append_eq_nil_iff.mp (split ▸ nothing)).1
      rw [split] at holds
      obtain ⟨next, consumed, nextHolds, used⟩ := holds.consume
      have length : rest.length - rest'.length = (writeCommand cmd').length := by
        rw [split, List.length_append]
        omega
      have stillInStep : rest' ≠ [] → pos + (rest.length - rest'.length) = next.used := by
        intro more
        rw [used more, inStep nonempty, length]
      obtain ⟨after, afterHolds, run⟩ := ih nextHolds stillInStep
      refine ⟨after, afterHolds, fun cmd db responses => ?_⟩
      have distance : pos + (rest.length - rest'.length) - stream.used
          = (writeCommand cmd').length := by
        rw [inStep nonempty, length]
        omega
      rw [recvLoop_accepted verdict]
      simp only [executeAll]
      cases execute ops db cmd' with
      | error fault => rfl
      | ok first =>
          obtain ⟨db, issued⟩ := first
          simp only [bind, Except.bind, distance, consumed, run]
          cases executeAll ops db cmds with
          | error fault => rfl
          | ok later => simp [Except.map, pure, Except.pure, List.append_assoc]

/-- One receive on a buffer that holds `content`. -/
theorem recvHandler_drains (ops : DatabaseOps Store Coll) {handler : ClientHandler}
    {content chunk : Bytes} {cmds : List Command} {left : Bytes} {stuck : Bool}
    (holds : handler.stream.Holds content) (some : chunk ≠ [])
    (drained : Drains nextCommand (content ++ chunk) cmds left stuck) :
    ∃ after, after.Holds left ∧ ∀ db : Store,
      handler.recvHandler ops chunk db = (executeAll ops db cmds).map fun (db, issued) =>
        { handler := { handler with stream := after }, db, responses := issued ++ complaint stuck,
          rearmed := true } := by
  have grown := holds.append chunk
  obtain ⟨after, afterHolds, run⟩ := recvLoop_drains ops drained grown fun _ => rfl
  refine ⟨after, afterHolds, fun db => ?_⟩
  have length : chunk.length ≠ 0 := fun none => some (List.length_eq_zero_iff.mp none)
  simp only [ClientHandler.recvHandler, length, ↓reduceIte, grown.asConstBuffer_eq, run]
  cases executeAll ops db cmds with
  | error fault => rfl
  | ok result => rfl

theorem feed_append (chunks later : List Bytes) (handler : ClientHandler) (db : Store) :
    feed ops (chunks ++ later) handler db = (do
      let (handler, db, first) ← feed ops chunks handler db
      let (handler, db, second) ← feed ops later handler db
      return (handler, db, first ++ second)) := by
  induction chunks generalizing handler db with
  | nil =>
      simp only [List.nil_append, feed, pure_bind]
      cases feed ops later handler db with
      | error fault => rfl
      | ok result => rfl
  | cons chunk chunks ih =>
      simp only [List.cons_append, feed, bind_assoc, pure_bind, ih, List.append_assoc]

theorem executeAll_append (cmds later : List Command) (db : Store) :
    executeAll ops db (cmds ++ later) = (do
      let (db, first) ← executeAll ops db cmds
      let (db, second) ← executeAll ops db later
      return (db, first ++ second)) := by
  induction cmds generalizing db with
  | nil =>
      simp only [List.nil_append, executeAll, pure_bind]
      cases executeAll ops db later with
      | error fault => rfl
      | ok result => rfl
  | cons cmd cmds ih =>
      simp only [List.cons_append, executeAll, bind_assoc, pure_bind, ih, List.append_assoc]

/-! ## Whole runs -/

/-- What `chunks` amount to on a fresh handler: the commands that the bytes
drain to are executed, what is left is buffered, and `complaints` responses to
a malformed command follow. -/
structure Fed (ops : DatabaseOps Store Coll) (chunks : List Bytes) (cmds : List Command)
    (left : Bytes) (stuck : Bool) (complaints : Nat) : Prop where
  drains : Drains nextCommand chunks.flatten cmds left stuck
  runs : ∃ stream : StreamBuf, stream.Holds left ∧ ∀ db : Store,
    feed ops chunks {} db = (executeAll ops db cmds).map fun (db, issued) =>
      ({ stream }, db, issued ++ List.replicate complaints .invalidCommand)

namespace Fed

variable {chunks : List Bytes} {chunk left left' : Bytes} {cmds more : List Command}
  {stuck : Bool} {complaints : Nat}

theorem nil : Fed ops [] [] [] false 0 where
  drains := .starved rfl
  runs := ⟨{}, StreamBuf.holds_empty, fun _ => rfl⟩

/-- One more chunk, given what the handler's buffer then drains to. -/
theorem snoc_run (fed : Fed ops chunks cmds left stuck complaints) (some : chunk ≠ [])
    {stuck' : Bool} (drained : Drains nextCommand (left ++ chunk) more left' stuck') :
    ∃ stream : StreamBuf, stream.Holds left' ∧ ∀ db : Store,
      feed ops (chunks ++ [chunk]) {} db = (do
        let (db, first) ← executeAll ops db cmds
        let (db, second) ← executeAll ops db more
        return ({ stream }, db, first ++ List.replicate complaints .invalidCommand ++
          (second ++ complaint stuck'))) := by
  obtain ⟨stream, holds, run⟩ := fed.runs
  have held : ({ stream } : ClientHandler).stream.Holds left := holds
  obtain ⟨after, afterHolds, received⟩ := recvHandler_drains ops held some drained
  refine ⟨after, afterHolds, fun db => ?_⟩
  rw [feed_append, run]
  cases executeAll ops db cmds with
  | error fault => rfl
  | ok first =>
      obtain ⟨db, issued⟩ := first
      simp only [Except.map, bind, Except.bind, feed, received]
      cases executeAll ops db more with
      | error fault => rfl
      | ok second => simp [Except.pure, pure]

theorem snoc (fed : Fed ops chunks cmds left false 0) (some : chunk ≠ [])
    (drained : Drains nextCommand (left ++ chunk) more left' stuck) :
    Fed ops (chunks ++ [chunk]) (cmds ++ more) left' stuck (if stuck then 1 else 0) where
  drains := by
    rw [List.flatten_concat]
    exact fed.drains.append nextCommand_codec drained
  runs := by
    obtain ⟨stream, holds, run⟩ := fed.snoc_run some drained
    refine ⟨stream, holds, fun db => ?_⟩
    rw [run, executeAll_append]
    cases executeAll ops db cmds with
    | error fault => rfl
    | ok first =>
        obtain ⟨db, issued⟩ := first
        cases second : executeAll ops db more with
        | error fault => simp [second, bind, Except.bind, Except.map]
        | ok result =>
            cases stuck <;>
              simp [second, bind, Except.bind, Except.map, pure, Except.pure, complaint]

/-- The malformed bytes stay in the buffer, so each chunk that comes after them
earns another complaint. -/
theorem snoc_stuck (fed : Fed ops chunks cmds left true complaints) (some : chunk ≠ []) :
    Fed ops (chunks ++ [chunk]) cmds (left ++ chunk) true (complaints + 1) where
  drains := by
    rw [List.flatten_concat]
    exact fed.drains.append_stuck nextCommand_codec chunk
  runs := by
    have rejected : nextCommand left = .rejected := fed.drains.left_verdict
    obtain ⟨stream, holds, run⟩ := fed.snoc_run some
      (.rejected (nextCommand_codec.rejected_append chunk rejected))
    refine ⟨stream, holds, fun db => ?_⟩
    rw [run]
    cases executeAll ops db cmds with
    | error fault => rfl
    | ok first =>
        simp [bind, Except.bind, Except.map, pure, Except.pure, complaint, executeAll,
          List.replicate_succ']

end Fed

theorem exists_fed (ops : DatabaseOps Store Coll) (chunks : List Bytes)
    (some : ∀ chunk ∈ chunks, chunk ≠ []) :
    ∃ cmds left stuck complaints, Fed ops chunks cmds left stuck complaints ∧
      (stuck = false → complaints = 0) := by
  induction chunks using List.reverseRecOn with
  | nil => exact ⟨[], [], false, 0, .nil, fun _ => rfl⟩
  | append_singleton chunks chunk ih =>
      obtain ⟨cmds, left, stuck, complaints, fed, quiet⟩ := ih fun other member =>
        some other (List.mem_append_left _ member)
      have last : chunk ≠ [] := some chunk (by simp)
      cases stuck with
      | true => exact ⟨cmds, left ++ chunk, true, complaints + 1, fed.snoc_stuck last, nofun⟩
      | false =>
          obtain ⟨more, left', stuck, drained⟩ := Drains.total nextCommand_codec (left ++ chunk)
          obtain rfl := quiet rfl
          exact ⟨cmds ++ more, left', stuck, _, fed.snoc last drained, by simp +contextual⟩

theorem fed_of_drains (ops : DatabaseOps Store Coll) {chunks : List Bytes} {cmds : List Command}
    {left : Bytes} (some : ∀ chunk ∈ chunks, chunk ≠ [])
    (drained : Drains nextCommand chunks.flatten cmds left false) :
    Fed ops chunks cmds left false 0 := by
  obtain ⟨cmds', left', stuck, complaints, fed, quiet⟩ := exists_fed ops chunks some
  obtain ⟨rfl, rfl, rfl⟩ := drained.deterministic fed.drains
  obtain rfl := quiet rfl
  exact fed

theorem executeAll_length {cmds : List Command} {db db' : Store} {responses : List Response}
    (known : ∀ cmd ∈ cmds, cmd ≠ .monostate)
    (run : executeAll ops db cmds = .ok (db', responses)) : responses.length = cmds.length := by
  induction cmds generalizing db responses with
  | nil =>
      cases run
      rfl
  | cons cmd cmds ih =>
      obtain ⟨first, one, run⟩ := bind_ok_iff.mp run
      obtain ⟨second, others, done⟩ := bind_ok_iff.mp run
      cases done
      rw [List.forall_mem_cons] at known
      rw [List.length_append, (execute_ok one).2.1 known.1, ih known.2 others, List.length_cons,
        Nat.add_comm]

/-- However commands are cut into chunks, after each chunk those received whole
have been executed, in order and with one response each, and the buffer holds
what has arrived of the next. -/
theorem feed_commands (ops : DatabaseOps Store Coll) (cmds : List Command) (chunks : List Bytes)
    (fits : ∀ cmd ∈ cmds, Command.Encodable cmd) (some : ∀ chunk ∈ chunks, chunk ≠ [])
    (whole : chunks.flatten = cmds.flatMap writeCommand) (n : Nat) :
    ∃ finished unfinished left stream,
      cmds = finished ++ unfinished ∧
      (chunks.take n).flatten = finished.flatMap writeCommand ++ left ∧
      CutShort writeCommand unfinished left ∧
      StreamBuf.Holds stream left ∧
      (∀ db, feed ops (chunks.take n) {} db =
        (executeAll ops db finished).map fun (db, responses) => ({ stream }, db, responses)) ∧
      ∀ db db' responses, executeAll ops db finished = .ok (db', responses) →
        responses.length = finished.length := by
  have split : (chunks.take n).flatten ++ (chunks.drop n).flatten = cmds.flatMap writeCommand := by
    rw [← List.flatten_append, List.take_append_drop, whole]
  obtain ⟨finished, unfinished, left, rfl, received, cut⟩ :=
    exists_cutShort writeCommand cmds _ _ split
  rw [List.forall_mem_append] at fits
  have starved := nextCommand_codec.starved_of_cutShort fits.2 cut rfl
  have drained := Drains.of_encodings nextCommand_codec finished fits.1 starved
  rw [← received] at drained
  have nonempty : ∀ chunk ∈ chunks.take n, chunk ≠ [] := fun chunk member =>
    some chunk (List.mem_of_mem_take member)
  obtain ⟨stream, holds, run⟩ := (fed_of_drains ops nonempty drained).runs
  refine ⟨finished, unfinished, left, stream, rfl, received, cut, holds, fun db => ?_,
    fun db db' responses => executeAll_length fun cmd member => ?_⟩
  · rw [run]
    simp only [List.replicate_zero, List.append_nil]
  · intro same
    subst same
    exact fits.1 _ member

/-- Two lookups in three chunks, the first cut inside a length and the second
cut between two. -/
theorem feed_two_lookups :
    ∃ finished unfinished left stream,
      [Command.getSchema [117], .getCollectionSchema [99]] = finished ++ unfinished ∧
      ([[3, 1, 0], [0, 0, 117, 4, 1], [0, 0, 0, 99]].take 2).flatten =
        finished.flatMap writeCommand ++ left ∧
      CutShort writeCommand unfinished left ∧
      StreamBuf.Holds stream left ∧
      (∀ db, feed (databaseOps noHash) ([[3, 1, 0], [0, 0, 117, 4, 1], [0, 0, 0, 99]].take 2) {}
          db = (executeAll (databaseOps noHash) db finished).map
            fun (db, responses) => ({ stream }, db, responses)) ∧
      ∀ db db' responses, executeAll (databaseOps noHash) db finished = .ok (db', responses) →
        responses.length = finished.length :=
  feed_commands (databaseOps noHash) [.getSchema [117], .getCollectionSchema [99]]
    [[3, 1, 0], [0, 0, 117, 4, 1], [0, 0, 0, 99]] (by simp [Command.Encodable]) (by simp)
    (by decide) 2

/-! ## Segmentation -/

/-- A split of `bytes` into chunks that `recv` can deliver into a buffer of
`limit` bytes. -/
structure Split (limit : Nat) (bytes : Bytes) (chunks : List Bytes) : Prop where
  nonempty : ∀ chunk ∈ chunks, chunk ≠ []
  bounded : ∀ chunk ∈ chunks, chunk.length ≤ limit
  flatten_eq : chunks.flatten = bytes

/-- What a client and the database see of a whole run. -/
def outcome (ops : DatabaseOps Store Coll) (db : Store) (chunks : List Bytes) :
    Except Fault (List Response × Store) :=
  (feed ops chunks {} db).map fun (_, db, responses) => (responses, db)

/-- No malformed command shows before the last byte, or executing the commands
in front of it fails. -/
def Settled (ops : DatabaseOps Store Coll) (db : Store) (bytes : Bytes) : Prop :=
  ∃ cmds left stuck, Drains nextCommand bytes.dropLast cmds left stuck ∧
    (stuck = true → ∃ fault, executeAll ops db cmds = .error fault)

section Segmentation

variable {chunks : List Bytes} {chunk bytes left : Bytes} {cmds : List Command} {stuck : Bool}
  {complaints limit : Nat}

theorem Fed.outcome_eq (fed : Fed ops chunks cmds left stuck complaints) (db : Store) :
    outcome ops db chunks = (executeAll ops db cmds).map fun (db, issued) =>
      (issued ++ List.replicate complaints .invalidCommand, db) := by
  obtain ⟨stream, _, run⟩ := fed.runs
  rw [outcome, run]
  cases executeAll ops db cmds with
  | error fault => rfl
  | ok result => rfl

theorem Fed.snoc_of_drains {left' : Bytes} {cmds' : List Command} {stuck' : Bool}
    (fed : Fed ops chunks cmds left false 0) (some : chunk ≠ [])
    (drained : Drains nextCommand (chunks ++ [chunk]).flatten cmds' left' stuck') :
    Fed ops (chunks ++ [chunk]) cmds' left' stuck' (if stuck' then 1 else 0) := by
  obtain ⟨more, rest, stuck, next⟩ := Drains.total nextCommand_codec (left ++ chunk)
  have whole := fed.snoc some next
  obtain ⟨rfl, rfl, rfl⟩ := drained.deterministic whole.drains
  exact whole

theorem Settled.outcome_eq (settled : Settled ops db bytes) (split : Split limit bytes chunks)
    (drained : Drains nextCommand bytes cmds left stuck) :
    outcome ops db chunks =
      (executeAll ops db cmds).map fun (db, issued) => (issued ++ complaint stuck, db) := by
  obtain ⟨nonempty, _, rfl⟩ := split
  induction chunks using List.reverseRecOn with
  | nil =>
      obtain ⟨rfl, rfl, rfl⟩ := drained.deterministic (.starved rfl)
      exact Fed.nil.outcome_eq db
  | append_singleton front last _ =>
      obtain ⟨frontSome, lastSome⟩ := List.forall_mem_append.mp nonempty
      replace lastSome : last ≠ [] := lastSome last (List.mem_singleton_self last)
      obtain ⟨cmds₀, left₀, stuck₀, complaints, fed, quiet⟩ := exists_fed ops front frontSome
      cases stuck₀ with
      | false =>
          obtain rfl := quiet rfl
          rw [(fed.snoc_of_drains lastSome drained).outcome_eq]
          cases stuck <;> rfl
      | true =>
          -- The commands in front of the malformed one fail, however they arrive.
          obtain ⟨cmds₁, left₁, stuck₁, early, fails⟩ := settled
          rw [List.flatten_concat,
            List.dropLast_append_of_ne_nil lastSome] at early
          have stuckEarly := fed.drains.append_stuck nextCommand_codec last.dropLast
          obtain ⟨rfl, rfl, rfl⟩ := early.deterministic stuckEarly
          obtain ⟨fault, failed⟩ := fails rfl
          have whole := fed.snoc_stuck lastSome
          obtain ⟨rfl, rfl, rfl⟩ := drained.deterministic whole.drains
          rw [whole.outcome_eq, failed]
          rfl

theorem flatten_map_singleton (bytes : Bytes) : (bytes.map fun byte => [byte]).flatten = bytes := by
  induction bytes with
  | nil => rfl
  | cons byte bytes ih => rw [List.map_cons, List.flatten_cons, ih, List.singleton_append]

/-- Once the bytes before the last are malformed, it shows in the responses
whether the last byte comes alone or together with the one before. -/
theorem exists_fed_apart (ops : DatabaseOps Store Coll) {front : Bytes} {next : UInt8}
    (last : UInt8) (early : Drains nextCommand (front ++ [next]) cmds left true) :
    ∃ complaints left',
      Fed ops (front.map (fun byte => [byte]) ++ [[next]] ++ [[last]]) cmds left' true
        (complaints + 1) ∧
      Fed ops (front.map (fun byte => [byte]) ++ [[next, last]]) cmds left' true complaints := by
  have nonempty : ∀ chunk ∈ front.map (fun byte => [byte]), chunk ≠ [] := by simp
  obtain ⟨cmds₀, left₀, stuck₀, complaints, fed, quiet⟩ := exists_fed ops _ nonempty
  cases stuck₀ with
  | true =>
      have drained := fed.drains.append_stuck nextCommand_codec [next]
      rw [flatten_map_singleton] at drained
      obtain ⟨rfl, rfl, -⟩ := early.deterministic drained
      refine ⟨complaints + 1, left₀ ++ [next] ++ [last], ?_, ?_⟩
      · exact (fed.snoc_stuck (by simp)).snoc_stuck (by simp)
      · rw [List.append_assoc]
        exact fed.snoc_stuck (by simp)
  | false =>
      obtain rfl := quiet rfl
      have whole := early.append_stuck nextCommand_codec [last]
      rw [List.append_assoc, ← flatten_map_singleton front, ← List.flatten_concat] at whole
      rw [← flatten_map_singleton front, ← List.flatten_concat] at early
      refine ⟨1, left ++ [last], ?_, fed.snoc_of_drains (by simp) whole⟩
      exact (fed.snoc_of_drains (by simp) early).snoc_stuck (by simp)

theorem Split.bytewise (front : Bytes) (chunks : List Bytes) (room : 2 ≤ limit)
    (small : ∀ chunk ∈ chunks, chunk ≠ [] ∧ chunk.length ≤ 2) :
    Split limit (front ++ chunks.flatten) (front.map (fun byte => [byte]) ++ chunks) where
  nonempty := by
    rw [List.forall_mem_append]
    exact ⟨by simp, fun chunk member => (small chunk member).1⟩
  bounded := by
    rw [List.forall_mem_append, List.forall_mem_map]
    exact ⟨fun byte _ => Nat.le_trans (by simp) room,
      fun chunk member => Nat.le_trans (small chunk member).2 room⟩
  flatten_eq := by rw [List.flatten_append, flatten_map_singleton]

theorem settled_of_outcome_eq (room : 2 ≤ limit)
    (same : ∀ chunks chunks', Split limit bytes chunks → Split limit bytes chunks' →
      outcome ops db chunks = outcome ops db chunks') : Settled ops db bytes := by
  obtain ⟨cmds, left, stuck, drained⟩ := Drains.total nextCommand_codec bytes.dropLast
  refine ⟨cmds, left, stuck, drained, ?_⟩
  intro shown
  subst shown
  cases run : executeAll ops db cmds with
  | error fault => exact ⟨fault, rfl⟩
  | ok result =>
      cases bytes using List.reverseRecOn with
      | nil => obtain ⟨-, -, impossible⟩ := drained.deterministic (.starved rfl); cases impossible
      | append_singleton initial last =>
          rw [List.dropLast_concat] at drained
          cases initial using List.reverseRecOn with
          | nil =>
              obtain ⟨-, -, impossible⟩ := drained.deterministic (.starved rfl)
              cases impossible
          | append_singleton front next =>
              obtain ⟨complaints, left', apart, joined⟩ :=
                exists_fed_apart ops last drained
              have agree := same _ _
                (by simpa using Split.bytewise front [[next], [last]] room (by simp))
                (by simpa using Split.bytewise front [[next, last]] room (by simp))
              rw [← List.singleton_append, ← List.append_assoc] at agree
              rw [apart.outcome_eq, joined.outcome_eq, run] at agree
              have lengths := congrArg (Except.map fun result => result.1.length) agree
              simp [Except.map] at lengths

/-- The segmentation of a stream goes unnoticed exactly when no malformed
command shows before its last byte, short of a failing command. -/
theorem segmentation_free_iff_settled (ops : DatabaseOps Store Coll) (db : Store) (bytes : Bytes)
    (limit : Nat) (room : 2 ≤ limit) :
    (∀ chunks chunks', Split limit bytes chunks → Split limit bytes chunks' →
      outcome ops db chunks = outcome ops db chunks') ↔ Settled ops db bytes := by
  constructor
  · exact settled_of_outcome_eq room
  · intro settled chunks chunks' split split'
    obtain ⟨cmds, left, stuck, drained⟩ := Drains.total nextCommand_codec bytes
    rw [settled.outcome_eq split drained, settled.outcome_eq split' drained]

theorem segmentation_free_iff_settled_receive :
    2 ≤ 128 ∧ ((∀ chunks chunks', Split 128 [0, 0] chunks → Split 128 [0, 0] chunks' →
      outcome (databaseOps noHash) {} chunks = outcome (databaseOps noHash) {} chunks') ↔
        Settled (databaseOps noHash) {} [0, 0]) :=
  ⟨by decide, segmentation_free_iff_settled (databaseOps noHash) {} [0, 0] 128 (by decide)⟩

/-- Two bytes that begin no command draw one complaint together and two apart. -/
theorem malformed_bytes_apart : ∃ chunks chunks',
    Split 128 [0, 0] chunks ∧ Split 128 [0, 0] chunks' ∧
    ∀ {Store Coll : Type} (ops : DatabaseOps Store Coll) (db : Store),
      outcome ops db chunks = .ok ([.invalidCommand], db) ∧
      outcome ops db chunks' = .ok ([.invalidCommand, .invalidCommand], db) := by
  refine ⟨[[0, 0]], [[0], [0]], ⟨by simp, by simp, rfl⟩, ⟨by simp, by simp, rfl⟩,
    fun ops db => ⟨?_, ?_⟩⟩
  · have fed : Fed ops [[0, 0]] [] [0, 0] true 1 := Fed.nil.snoc (by simp) (.rejected rfl)
    rw [fed.outcome_eq]
    rfl
  · have fed : Fed ops [[0]] [] [0] true 1 := Fed.nil.snoc (by simp) (.rejected rfl)
    have again : Fed ops [[0], [0]] [] [0, 0] true 2 := fed.snoc_stuck (by simp)
    rw [again.outcome_eq]
    rfl

end Segmentation

end Boutique.Server
