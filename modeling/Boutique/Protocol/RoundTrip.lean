import Boutique.Protocol.MessageCodec

namespace Boutique.Protocol

open Boutique.Core Boutique.Data Boutique.Db

variable {α : Type} {read : Bytes → α → ReadResult × Bytes × α} {encode : α → Bytes}
  {valid : α → Prop}

/-- A reader that can be called again as more bytes arrive: more bytes change
neither a success nor a rejection, a message cut short is incomplete, and a
call that does not succeed leaves the cursor and the output as they were. -/
structure Incremental (read : Bytes → α → ReadResult × Bytes × α) : Prop where
  consumes : ∀ b out rest value, read b out = (.success, rest, value) →
    ∃ n ≤ b.length, rest = b.drop n
  success_append : ∀ b t out out' n value, n ≤ b.length →
    read b out = (.success, b.drop n, value) →
      read (b ++ t) out' = (.success, (b ++ t).drop n, value)
  invalid_append : ∀ b t out out', (read b out).1 = .invalid → (read (b ++ t) out').1 = .invalid
  prefix_incomplete : ∀ b out out' n value, n ≤ b.length →
    read b out = (.success, b.drop n, value) → ∀ k < n, (read (b.take k) out').1 = .incomplete
  unchanged : ∀ b out, (read b out).1 ≠ .success → (read b out).2 = (b, out)

/-- A reader accepts a value only in the one spelling its writer gives it. -/
structure Canonical (read : Bytes → α → ReadResult × Bytes × α) (encode : α → Bytes) : Prop where
  rewrites : ∀ b out n value, n ≤ b.length → read b out = (.success, b.drop n, value) →
    encode value = b.take n
  unique : ∀ b b' out out' value, read b out = (.success, [], value) →
    read b' out' = (.success, [], value) → b = b'

theorem Reads.success_split (reads : Reads read encode valid) {b : Bytes} {out value : α} {n : Nat}
    (done : read b out = (.success, b.drop n, value)) :
    valid value ∧ encode value = b.take n := by
  obtain ⟨fits, same⟩ := reads.success_iff.mp done
  have whole : encode value ++ b.drop n = b.take n ++ b.drop n := by
    rw [← same, List.take_append_drop]
  exact ⟨fits, List.append_cancel_right whole⟩

theorem Reads.incremental (reads : Reads read encode valid)
    (nonempty : ∀ value, encode value ≠ []) : Incremental read where
  consumes b out rest value done := by
    obtain ⟨_, rfl⟩ := reads.success_iff.mp done
    exact ⟨(encode value).length, by simp, by simp⟩
  success_append b t out out' n value inside done := by
    obtain ⟨fits, same⟩ := reads.success_split done
    refine reads.success_iff.mpr ⟨fits, ?_⟩
    rw [same, List.drop_append_of_le_length inside, ← List.append_assoc, List.take_append_drop]
  invalid_append b t out out' rejected := reads.invalid_append t out' rejected
  prefix_incomplete b out out' n value _ done k short := by
    obtain ⟨fits, same⟩ := reads.success_split done
    have split : encode value = b.take k ++ (b.take n).drop k := by
      have front : b.take k = (b.take n).take k := by
        rw [List.take_take, Nat.min_eq_left (Nat.le_of_lt short)]
      rw [front, List.take_append_drop, same]
    have missing : (b.take n).drop k ≠ [] := by
      intro nothing
      have length := congrArg List.length nothing
      rw [List.length_drop, List.length_take, List.length_nil] at length
      omega
    have starved := (reads.codec (fun _ => nonempty _) out').starved_of_cut fits split missing
    exact verdict_starved_iff.mp starved
  unchanged b out := reads.unchanged

theorem Reads.toCanonical (reads : Reads read encode valid) : Canonical read encode where
  rewrites b out n value _ done := (reads.success_split done).2
  unique b b' out out' value done done' := by
    have same := (reads.success_iff.mp done).2
    have same' := (reads.success_iff.mp done').2
    rw [same, same']

/-- Decoding undoes encoding, whatever follows the message. -/
theorem read_write_messages :
    (∀ cmd, Command.Encodable cmd → ∀ tail out,
      readCommand (writeCommand cmd ++ tail) out = (.success, tail, cmd)) ∧
    (∀ res, Response.Encodable res → ∀ tail out,
      readResponse (writeResponse res ++ tail) out = (.success, tail, res)) :=
  ⟨fun _ fits tail out => readCommand_complete fits out tail,
    fun _ fits tail out => readResponse_complete fits out tail⟩

/-- A schema with a nested aggregate and a key in second place makes the trip. -/
theorem read_write_nested_schema :
    (∀ tail out, readCommand (writeCommand (.registerSchema [117] ⟨[⟨[97], .aggregate
      [⟨[98], .string 64⟩]⟩, ⟨[99], .primitive .uint64⟩], 1⟩) ++ tail) out =
      (.success, tail, .registerSchema [117] ⟨[⟨[97], .aggregate
        [⟨[98], .string 64⟩]⟩, ⟨[99], .primitive .uint64⟩], 1⟩)) ∧
    (∀ tail out, readResponse (writeResponse (.found [1, 2, 3]) ++ tail) out =
      (.success, tail, .found [1, 2, 3])) :=
  ⟨read_write_messages.1 _ (by
      simp [Command.Encodable, Schema.Encodable, FieldType.Encodable, EncodableFields]),
    read_write_messages.2 _ (by simp [Response.Encodable])⟩

theorem readers_incremental : Incremental readCommand ∧ Incremental readResponse :=
  ⟨readCommand_reads.incremental writeCommand_ne_nil,
    readResponse_reads.incremental writeResponse_ne_nil⟩

theorem readers_canonical :
    Canonical readCommand writeCommand ∧ Canonical readResponse writeResponse :=
  ⟨readCommand_reads.toCanonical, readResponse_reads.toCanonical⟩

end Boutique.Protocol
