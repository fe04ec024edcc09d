import Boutique.Data.Codec
import Boutique.Protocol.AggregateCodec

namespace Boutique.Protocol

open Boutique.Core Boutique.Data Boutique.Db

/-! # Encoded schemas and messages -/

/-- What a schema needs to survive the wire: everything stored in 32 bits fits
there, and the key is one of the top-level fields. -/
def Schema.Encodable (schema : Schema) : Prop :=
  FieldType.Encodable (.aggregate schema.fields) ∧ schema.keyFieldIndex < schema.fields.length

def Command.Encodable : Command → Prop
  | .monostate => False
  | .registerSchema name schema => name.length < 256 ^ 4 ∧ Schema.Encodable schema
  | .createCollection name schemaName => name.length < 256 ^ 4 ∧ schemaName.length < 256 ^ 4
  | .getSchema name | .getCollectionSchema name => name.length < 256 ^ 4
  | .get collName key | .delete collName key =>
      collName.length < 256 ^ 4 ∧ key.length < 256 ^ 4
  | .put collName value => collName.length < 256 ^ 4 ∧ value.length < 256 ^ 4

def Response.Encodable : Response → Prop
  | .monostate => False
  | .success | .failed | .invalidCommand | .notFound => True
  | .found value | .string value => value.length < 256 ^ 4
  | .schema s => Schema.Encodable s

/-- What a reader that reports through a result, a cursor and an output
parameter does: it succeeds on exactly the encodings in front of anything,
keeps a rejection when more arrives, and touches neither cursor nor output
unless it succeeds. -/
structure Reads {α : Type} (read : Bytes → α → ReadResult × Bytes × α) (encode : α → Bytes)
    (valid : α → Prop) : Prop where
  success_iff : ∀ {c out rest value},
    read c out = (.success, rest, value) ↔ valid value ∧ c = encode value ++ rest
  invalid_append : ∀ {c out} (tail out'),
    (read c out).1 = .invalid → (read (c ++ tail) out').1 = .invalid
  unchanged : ∀ {c out}, (read c out).1 ≠ .success → (read c out).2 = (c, out)

variable {α : Type} {read : Bytes → α → ReadResult × Bytes × α} {encode : α → Bytes}
  {valid : α → Prop} {c rest tail : Bytes} {out out' value : α}

def verdict : ReadResult × Bytes × α → Verdict α UInt8
  | (.success, rest, value) => .accepted value rest
  | (.incomplete, _, _) => .starved
  | (.invalid, _, _) => .rejected

@[simp] theorem verdict_accepted_iff {result : ReadResult × Bytes × α} :
    verdict result = .accepted value rest ↔ result = (.success, rest, value) := by
  obtain ⟨res, left, found⟩ := result
  cases res <;> simp [verdict, and_comm]

@[simp] theorem verdict_rejected_iff {result : ReadResult × Bytes × α} :
    verdict result = .rejected ↔ result.1 = .invalid := by
  obtain ⟨res, left, found⟩ := result
  cases res <;> simp [verdict]

@[simp] theorem verdict_starved_iff {result : ReadResult × Bytes × α} :
    verdict result = .starved ↔ result.1 = .incomplete := by
  obtain ⟨res, left, found⟩ := result
  cases res <;> simp [verdict]

/-- A reader that keeps to its contract is an incremental decoder, whatever the
output parameter holds. -/
theorem Reads.codec (reads : Reads read encode valid)
    (nonempty : ∀ {value}, valid value → encode value ≠ []) (out : α) :
    Codec (fun input => verdict (read input out)) encode valid where
  accepted_iff := by
    intro input value rest
    rw [verdict_accepted_iff, reads.success_iff]
  rejected_append tail rejected := by
    rw [verdict_rejected_iff] at rejected ⊢
    exact reads.invalid_append tail out rejected
  encode_ne_nil := nonempty

/-- What the output parameter holds beforehand makes no difference. -/
theorem Reads.verdict_eq (reads : Reads read encode valid) (c : Bytes) (out out' : α) :
    verdict (read c out) = verdict (read c out') := by
  cases other : verdict (read c out') with
  | accepted value rest =>
      rw [verdict_accepted_iff, reads.success_iff] at other ⊢
      exact other
  | rejected =>
      rw [verdict_rejected_iff] at other ⊢
      simpa using reads.invalid_append [] out other
  | starved =>
      cases this : verdict (read c out) with
      | accepted value rest =>
          have done : read c out' = (.success, rest, value) :=
            reads.success_iff.mpr (reads.success_iff.mp (verdict_accepted_iff.mp this))
          rw [done] at other
          cases other
      | rejected =>
          rw [verdict_rejected_iff] at this
          have invalid := reads.invalid_append [] out' this
          rw [List.append_nil, ← verdict_rejected_iff, other] at invalid
          cases invalid
      | starved => rfl

/-! ## Schemas -/

theorem readAggregate_success_iff {out agg : AggregateType} :
    readAggregate c out = (.success, rest, agg) ↔
      FieldType.Encodable (.aggregate agg) ∧ c = writeAggregate agg ++ rest :=
  acceptsEncodings_readAggregateWithin c.length c rest out agg (Nat.le_refl _)

theorem readAggregate_invalid_append (tail : Bytes)
    (rejected : (readAggregate c []).1 = .invalid) :
    (readAggregate (c ++ tail) []).1 = .invalid :=
  readAggregateWithin_invalid c.length (c ++ tail).length tail c (Nat.le_refl _) (Nat.le_refl _)
    rejected

theorem readSchema_reads : Reads readSchema writeSchema Schema.Encodable where
  success_iff := by
    intro c out rest schema
    refine ⟨fun done => ?_, fun ⟨⟨fits, inRange⟩, same⟩ => ?_⟩
    · simp only [readSchema] at done
      split at done
      · rename_i afterFields fields fieldsRead
        obtain ⟨fits, rfl⟩ := readAggregate_success_iff.mp fieldsRead
        split at done
        · cases done
        · rename_i index afterIndex indexRead
          obtain ⟨_, rfl⟩ := read_some_iff.mp indexRead
          split at done
          · cases done
          · rename_i inRange
            cases done
            exact ⟨⟨fits, Nat.lt_of_not_le inRange⟩, by simp only [writeSchema, List.append_assoc]⟩
      · rename_i failed _
        exact absurd (congrArg Prod.fst done) failed
    · obtain ⟨fields, index⟩ := schema
      subst same
      have fieldsRead : readAggregate
          (writeSchema ⟨fields, index⟩ ++ rest) [] = (.success, write 4 index ++ rest, fields) :=
        readAggregate_success_iff.mpr ⟨fits, by simp only [writeSchema, List.append_assoc]⟩
      have indexRead := read_write (Nat.lt_trans inRange fits.1) rest
      have accepted : ¬ index ≥ fields.length := Nat.not_le.mpr inRange
      simp only [readSchema, fieldsRead, indexRead, if_neg accepted]
  invalid_append := by
    intro c out tail out' rejected
    simp only [readSchema] at rejected
    split at rejected
    · rename_i afterFields fields fieldsRead
      obtain ⟨fits, rfl⟩ := readAggregate_success_iff.mp fieldsRead
      split at rejected
      · cases rejected
      · rename_i index afterIndex indexRead
        split at rejected
        · rename_i outOfRange
          have fieldsAgain : readAggregate (writeAggregate fields ++ afterFields ++ tail) [] =
              (.success, afterFields ++ tail, fields) :=
            readAggregate_success_iff.mpr ⟨fits, List.append_assoc ..⟩
          simp only [readSchema, fieldsAgain, read_append indexRead, if_pos outOfRange]
        · cases rejected
    · rename_i failed fieldsRead
      have again := readAggregate_invalid_append tail (by rw [fieldsRead]; exact rejected)
      simp only [readSchema]
      split
      · rename_i other
        rw [other] at again
        cases again
      · rename_i other
        rw [other] at again
        exact again
  unchanged := by
    intro c out failed
    unfold readSchema at failed ⊢
    split at failed
    · split at failed
      · rfl
      · split at failed
        · rename_i outOfRange
          rw [if_pos outOfRange]
        · exact absurd rfl failed
    · rfl

/-! ## Message bodies -/

section Bodies

variable {Message : Type} {msg msg' value : Message} {cursor cursor' c rest : Bytes}

theorem readOneString_success_iff {build : Bytes → Message} :
    readOneString build cursor c msg = (.success, rest, value) ↔
      ∃ s, s.length < 256 ^ 4 ∧ value = build s ∧ c = writeLengthPrefixedString s ++ rest := by
  refine ⟨fun done => ?_, fun ⟨s, fits, built, same⟩ => ?_⟩
  · simp only [readOneString] at done
    split at done
    · cases done
    · rename_i s afterString stringRead
      cases done
      obtain ⟨fits, same⟩ := readLengthPrefixedString_some_iff.mp stringRead
      exact ⟨s, fits, rfl, same⟩
  · have stringRead := readLengthPrefixedString_some_iff.mpr ⟨fits, same⟩
    simp only [readOneString, stringRead, built]

theorem readOneString_cases (build : Bytes → Message) (cursor c : Bytes) (msg : Message) :
    (readOneString build cursor c msg).1 = .success ∨
      readOneString build cursor c msg = (.incomplete, cursor, msg) := by
  simp only [readOneString]
  split
  · exact Or.inr rfl
  · exact Or.inl rfl

theorem readTwoStrings_success_iff {build : Bytes → Bytes → Command} {cmd out : Command} :
    readTwoStrings build cursor c out = (.success, rest, cmd) ↔
      ∃ first second, (first.length < 256 ^ 4 ∧ second.length < 256 ^ 4) ∧
        cmd = build first second ∧
        c = writeLengthPrefixedString first ++ writeLengthPrefixedString second ++ rest := by
  refine ⟨fun done => ?_, fun ⟨first, second, ⟨firstFits, secondFits⟩, built, same⟩ => ?_⟩
  · simp only [readTwoStrings] at done
    cases firstRead : readLengthPrefixedString c with
    | mk first afterFirst =>
        cases secondRead : readLengthPrefixedString afterFirst with
        | mk second afterSecond =>
            simp only [firstRead, secondRead] at done
            split at done
            · cases done
              obtain ⟨firstFits, rfl⟩ := readLengthPrefixedString_some_iff.mp firstRead
              obtain ⟨secondFits, rfl⟩ := readLengthPrefixedString_some_iff.mp secondRead
              exact ⟨_, _, ⟨firstFits, secondFits⟩, rfl, by simp only [List.append_assoc]⟩
            · cases done
  · rw [List.append_assoc] at same
    have firstRead := readLengthPrefixedString_some_iff.mpr ⟨firstFits, same⟩
    simp only [readTwoStrings, firstRead, readLengthPrefixedString_write secondFits, built]

theorem readTwoStrings_cases (build : Bytes → Bytes → Command) (cursor c : Bytes) (cmd : Command) :
    (readTwoStrings build cursor c cmd).1 = .success ∨
      readTwoStrings build cursor c cmd = (.incomplete, cursor, cmd) := by
  simp only [readTwoStrings]
  split
  · exact Or.inl rfl
  · exact Or.inr rfl

theorem readSchemaInto_success_iff {build : Schema → Message} :
    readSchemaInto build cursor c msg = (.success, rest, value) ↔
      ∃ schema, Schema.Encodable schema ∧ value = build schema ∧
        c = writeSchema schema ++ rest := by
  refine ⟨fun done => ?_, fun ⟨schema, fits, built, same⟩ => ?_⟩
  · simp only [readSchemaInto] at done
    split at done
    · rename_i afterSchema schema schemaRead
      cases done
      obtain ⟨fits, same⟩ := readSchema_reads.success_iff.mp schemaRead
      exact ⟨schema, fits, rfl, same⟩
    · rename_i failed _
      exact absurd (congrArg Prod.fst done) failed
  · have schemaRead : readSchema c {} = _ := readSchema_reads.success_iff.mpr ⟨fits, same⟩
    simp only [readSchemaInto, schemaRead, built]

theorem readSchemaInto_cases (build : Schema → Message) (cursor c : Bytes) (msg : Message) :
    ((readSchemaInto build cursor c msg).1 = .success ∧ (readSchema c {}).1 = .success) ∨
      readSchemaInto build cursor c msg = ((readSchema c {}).1, cursor, msg) := by
  simp only [readSchemaInto]
  split
  · rename_i schemaRead
    exact Or.inl ⟨rfl, by rw [schemaRead]⟩
  · rename_i schemaRead
    rw [schemaRead]
    exact Or.inr rfl

theorem readSchemaInto_invalid_append {build : Schema → Message} (tail : Bytes)
    (rejected : (readSchemaInto build cursor c msg).1 = .invalid) :
    (readSchemaInto build cursor' (c ++ tail) msg').1 = .invalid := by
  rcases readSchemaInto_cases build cursor c msg with ⟨done, _⟩ | same
  · rw [done] at rejected
    cases rejected
  · rw [same] at rejected
    have again := readSchema_reads.invalid_append tail {} rejected
    rcases readSchemaInto_cases build cursor' (c ++ tail) msg' with ⟨_, done⟩ | same
    · rw [done] at again
      cases again
    · rw [same]
      exact again

end Bodies

/-! ## Commands -/

theorem Command.index_lt (cmd : Command) : cmd.index < 256 ^ 1 := by
  cases cmd <;> simp only [Command.index] <;> decide

theorem readCommand_sound {cmd out : Command}
    (done : readCommand c out = (.success, rest, cmd)) :
    Command.Encodable cmd ∧ c = writeCommand cmd ++ rest := by
  simp only [readCommand] at done
  split at done
  · cases done
  · rename_i cmdType body typeRead
    obtain ⟨_, rfl⟩ := read_some_iff.mp typeRead
    split at done
    case h_1 =>
      split at done
      · cases done
      · rename_i name afterName nameRead
        obtain ⟨nameFits, rfl⟩ := readLengthPrefixedString_some_iff.mp nameRead
        obtain ⟨schema, fits, rfl, rfl⟩ := readSchemaInto_success_iff.mp done
        exact ⟨⟨nameFits, fits⟩, by simp only [writeCommand, Command.index, List.append_assoc]⟩
    case h_8 => cases done
    all_goals first
      | obtain ⟨first, second, fits, rfl, rfl⟩ := readTwoStrings_success_iff.mp done
        exact ⟨fits, by simp only [writeCommand, Command.index, List.append_assoc]⟩
      | obtain ⟨name, fits, rfl, rfl⟩ := readOneString_success_iff.mp done
        exact ⟨fits, by simp only [writeCommand, Command.index, List.append_assoc]⟩

theorem readCommand_complete {cmd : Command} (fits : Command.Encodable cmd) (out : Command)
    (rest : Bytes) : readCommand (writeCommand cmd ++ rest) out = (.success, rest, cmd) := by
  simp only [readCommand, writeCommand]
  rw [List.append_assoc, read_write (Command.index_lt cmd)]
  cases cmd with
  | monostate => exact fits.elim
  | registerSchema name schema =>
      simp only [Command.index, List.append_assoc, readLengthPrefixedString_write fits.1]
      exact readSchemaInto_success_iff.mpr ⟨schema, fits.2, rfl, rfl⟩
  | getSchema name => exact readOneString_success_iff.mpr ⟨name, fits, rfl, rfl⟩
  | getCollectionSchema name => exact readOneString_success_iff.mpr ⟨name, fits, rfl, rfl⟩
  | createCollection first second | get first second | put first second | delete first second =>
      exact readTwoStrings_success_iff.mpr ⟨first, second, fits, rfl, rfl⟩

theorem readCommand_invalid_append {cmd : Command} (tail : Bytes) (cmd' : Command)
    (rejected : (readCommand c cmd).1 = .invalid) :
    (readCommand (c ++ tail) cmd').1 = .invalid := by
  simp only [readCommand] at rejected
  split at rejected
  · cases rejected
  · rename_i cmdType body typeRead
    rw [readCommand, read_append typeRead]
    split at rejected
    case h_1 =>
      split at rejected
      · cases rejected
      · rename_i name afterName nameRead
        simp only [readLengthPrefixedString_append nameRead]
        exact readSchemaInto_invalid_append tail rejected
    case h_8 =>
      dsimp only
      split <;> first
        | contradiction
        | rfl
    case h_3 | h_4 =>
      rcases readOneString_cases _ c body cmd with done | done <;> rw [done] at rejected <;>
        cases rejected
    all_goals
      rcases readTwoStrings_cases _ c body cmd with done | done <;> rw [done] at rejected <;>
        cases rejected

theorem readCommand_unchanged {cmd : Command} (failed : (readCommand c cmd).1 ≠ .success) :
    (readCommand c cmd).2 = (c, cmd) := by
  unfold readCommand at failed ⊢
  split
  · rfl
  · rename_i cmdType body typeRead
    rw [typeRead] at failed
    dsimp only at failed
    split at failed
    case h_1 =>
      split
      · rfl
      · rename_i name afterName nameRead
        rw [nameRead] at failed
        rcases readSchemaInto_cases (.registerSchema name) c afterName cmd with ⟨done, _⟩ | same
        · exact absurd done failed
        · rw [same]
    case h_8 => rfl
    case h_3 | h_4 =>
      rcases readOneString_cases _ c body cmd with done | done
      · exact absurd done failed
      · rw [done]
    all_goals
      rcases readTwoStrings_cases _ c body cmd with done | done
      · exact absurd done failed
      · rw [done]

theorem readCommand_reads : Reads readCommand writeCommand Command.Encodable where
  success_iff := ⟨readCommand_sound, fun ⟨fits, same⟩ => same ▸ readCommand_complete fits _ _⟩
  invalid_append := readCommand_invalid_append
  unchanged := readCommand_unchanged

/-! ## Responses -/

theorem Response.index_lt (res : Response) : res.index < 256 ^ 1 := by
  cases res <;> simp only [Response.index] <;> decide

theorem readResponse_sound {res out : Response}
    (done : readResponse c out = (.success, rest, res)) :
    Response.Encodable res ∧ c = writeResponse res ++ rest := by
  simp only [readResponse] at done
  split at done
  · cases done
  · rename_i resType body typeRead
    obtain ⟨_, rfl⟩ := read_some_iff.mp typeRead
    split at done
    case h_5 | h_6 =>
      obtain ⟨value, fits, rfl, rfl⟩ := readOneString_success_iff.mp done
      exact ⟨fits, by simp only [writeResponse, Response.index, List.append_assoc]⟩
    case h_7 =>
      obtain ⟨schema, fits, rfl, rfl⟩ := readSchemaInto_success_iff.mp done
      exact ⟨fits, by simp only [writeResponse, Response.index, List.append_assoc]⟩
    case h_8 => cases done
    all_goals
      cases done
      exact ⟨trivial, by simp only [writeResponse, Response.index, List.append_nil]⟩

theorem readResponse_complete {res : Response} (fits : Response.Encodable res) (out : Response)
    (rest : Bytes) : readResponse (writeResponse res ++ rest) out = (.success, rest, res) := by
  simp only [readResponse, writeResponse]
  rw [List.append_assoc, read_write (Response.index_lt res)]
  cases res with
  | monostate => exact fits.elim
  | success | failed | invalidCommand | notFound => rfl
  | found value | string value => exact readOneString_success_iff.mpr ⟨value, fits, rfl, rfl⟩
  | schema schema => exact readSchemaInto_success_iff.mpr ⟨schema, fits, rfl, rfl⟩

theorem readResponse_invalid_append {res : Response} (tail : Bytes) (res' : Response)
    (rejected : (readResponse c res).1 = .invalid) :
    (readResponse (c ++ tail) res').1 = .invalid := by
  simp only [readResponse] at rejected
  split at rejected
  · cases rejected
  · rename_i resType body typeRead
    rw [readResponse, read_append typeRead]
    split at rejected
    case h_5 | h_6 =>
      rcases readOneString_cases _ c body res with done | done <;> rw [done] at rejected <;>
        cases rejected
    case h_7 => exact readSchemaInto_invalid_append tail rejected
    case h_8 =>
      dsimp only
      split <;> first
        | contradiction
        | rfl
    all_goals cases rejected

theorem readResponse_unchanged {res : Response} (failed : (readResponse c res).1 ≠ .success) :
    (readResponse c res).2 = (c, res) := by
  unfold readResponse at failed ⊢
  split
  · rfl
  · rename_i resType body typeRead
    rw [typeRead] at failed
    dsimp only at failed
    split at failed
    case h_5 | h_6 =>
      rcases readOneString_cases _ c body res with done | done
      · exact absurd done failed
      · rw [done]
    case h_7 =>
      rcases readSchemaInto_cases .schema c body res with ⟨done, _⟩ | same
      · exact absurd done failed
      · rw [same]
    case h_8 => rfl
    all_goals exact absurd rfl failed

theorem readResponse_reads : Reads readResponse writeResponse Response.Encodable where
  success_iff := ⟨readResponse_sound, fun ⟨fits, same⟩ => same ▸ readResponse_complete fits _ _⟩
  invalid_append := readResponse_invalid_append
  unchanged := readResponse_unchanged

theorem writeCommand_ne_nil (cmd : Command) : writeCommand cmd ≠ [] := by
  intro nothing
  have length := congrArg List.length nothing
  simp [writeCommand] at length

theorem writeResponse_ne_nil (res : Response) : writeResponse res ≠ [] := by
  intro nothing
  have length := congrArg List.length nothing
  simp [writeResponse] at length

end Boutique.Protocol
