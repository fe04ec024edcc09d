import Boutique.Core.Memory
import Boutique.Protocol.MessageCodec

namespace Boutique.Protocol

open Boutique.Core Boutique.Db

/-! # Where the readers go

The readers once more on the buffer itself: a cursor is a pointer and a length
that are kept apart, every access is checked against the buffer, `reserve` and
the calls for nested aggregates take what there is of memory, and the fields
pushed are counted, also those of aggregates that are given up. -/

namespace Checked

/-- How a reader ends without a result: `remove_prefix` of more bytes than there
are, a read outside of the buffer, a cursor that is assigned a longer one, a
`reserve` that throws `std::bad_alloc`, or nesting deeper than the stack. -/
inductive Stray where
  | removePrefix
  | outOfBounds
  | longerCursor
  | badAlloc
  | stackOverflow
deriving DecidableEq, Repr

/-- For want of memory, and within all bounds. -/
def Stray.IsLack : Stray → Prop
  | .badAlloc | .stackOverflow => True
  | .removePrefix | .outOfBounds | .longerCursor => False

/-- What there is for a reader: whether `reserve` finds memory for `count` fields
when `left` bytes are left, and how many calls of `read` for aggregates the stack
holds. A reader reserves with any number of bytes left once at most, so that
`reserves` stands for any allocator. -/
structure Resources where
  reserves : (left count : Nat) → Bool
  depth : Nat

/-- A `ConstBuffer` into the buffer, by its offset there. -/
structure Cursor where
  data : Nat
  len : Nat
deriving DecidableEq, Repr

/-- The cursor that the readers are called with. -/
def Cursor.whole (buffer : Bytes) : Cursor := { data := 0, len := buffer.length }

/-- `Span::remove_prefix`. -/
def Cursor.removePrefix (c : Cursor) (count : Nat) : Except Stray Cursor :=
  if count ≤ c.len then .ok { data := c.data + count, len := c.len - count }
  else .error .removePrefix

/-- `cursor = c`. -/
def Cursor.assign (cursor c : Cursor) : Except Stray Cursor :=
  if c.len ≤ cursor.len then .ok c else .error .longerCursor

def load (buffer : Bytes) (data len : Nat) : Except Stray Bytes :=
  if data + len ≤ buffer.length then .ok (slice buffer data len) else .error .outOfBounds

def read (buffer : Bytes) (size : Nat) (c : Cursor) : Except Stray (Option Nat × Cursor) :=
  if c.len < size then
    return (none, c)
  else do
    let v ← load buffer c.data size
    let c ← c.removePrefix size
    return (some (Data.leValue v), c)

def readLengthPrefixedString (buffer : Bytes) (c : Cursor) :
    Except Stray (Option Bytes × Cursor) :=
  if c.len < 4 then
    return (none, c)
  else do
    let (len, c) ← read buffer 4 c
    match len with
    | none => return (none, c)
    | some len =>
        if c.len < len then
          return (none, c)
        else do
          let s ← load buffer c.data len
          let c ← c.removePrefix len
          return (some s, c)

/-- What a reader of aggregates takes and gives: the cursor, the output and the
number of fields pushed so far. -/
abbrev AggregateReader :=
  Cursor → AggregateType → Nat → Except Stray ((ReadResult × Cursor × AggregateType) × Nat)

def readFieldType (readNested : AggregateReader) (buffer : Bytes) (typeIndex : Nat) (c : Cursor)
    (pushed : Nat) : Except Stray (Except ReadResult (FieldType × Cursor) × Nat) :=
  match typeIndex with
  | 0 => return (.ok (.primitive .bool, c), pushed)
  | 1 => return (.ok (.primitive .uint8, c), pushed)
  | 2 => return (.ok (.primitive .uint16, c), pushed)
  | 3 => return (.ok (.primitive .uint32, c), pushed)
  | 4 => return (.ok (.primitive .uint64, c), pushed)
  | 5 => return (.ok (.primitive .int8, c), pushed)
  | 6 => return (.ok (.primitive .int16, c), pushed)
  | 7 => return (.ok (.primitive .int32, c), pushed)
  | 8 => return (.ok (.primitive .int64, c), pushed)
  | 9 => return (.ok (.primitive .float32, c), pushed)
  | 10 => return (.ok (.primitive .float64, c), pushed)
  | 11 => do
      let (capacity, c) ← read buffer 4 c
      match capacity with
      | none => return (.error .incomplete, pushed)
      | some capacity => return (.ok (.string capacity, c), pushed)
  | 12 => do
      let ((res, c, agg), pushed) ← readNested c [] pushed
      match res with
      | .success => return (.ok (.aggregate agg, c), pushed)
      | res => return (.error res, pushed)
  | _ => return (.error .invalid, pushed)

def readFields (readNested : AggregateReader) (buffer : Bytes) :
    Nat → Cursor → AggregateType → Nat →
      Except Stray (Except ReadResult (AggregateType × Cursor) × Nat)
  | 0, c, agg, pushed => return (.ok (agg, c), pushed)
  | count + 1, c, agg, pushed => do
      let (name, c) ← readLengthPrefixedString buffer c
      let (typeIndex, c) ← read buffer 1 c
      match name, typeIndex with
      | some name, some typeIndex => do
          let (type, pushed) ← readFieldType readNested buffer typeIndex c pushed
          match type with
          | .ok (type, c) =>
              readFields readNested buffer count c (agg ++ [⟨name, type⟩]) (pushed + 1)
          | .error res => return (.error res, pushed)
      | _, _ => return (.error .incomplete, pushed)

/-- `agg.reserve(count)`. -/
def reserve (resources : Resources) (count : Nat) (c : Cursor) : Except Stray Unit :=
  if resources.reserves c.len count then .ok () else .error .badAlloc

/-- `read(ConstBuffer&, AggregateType&)`, where the stack holds so many calls of it. -/
def readAggregateWithin (resources : Resources) (buffer : Bytes) : Nat → AggregateReader
  | 0, _, _, _ => .error .stackOverflow
  | depth + 1, cursor, outAgg, pushed => do
      let (fieldCount, c) ← read buffer 4 cursor
      match fieldCount with
      | none => return ((.incomplete, cursor, outAgg), pushed)
      | some fieldCount => do
          reserve resources fieldCount c
          let (fields, pushed) ←
            readFields (readAggregateWithin resources buffer depth) buffer fieldCount c [] pushed
          match fields with
          | .ok (agg, c) => return ((.success, ← cursor.assign c, agg), pushed)
          | .error res => return ((res, cursor, outAgg), pushed)

def readAggregate (resources : Resources) (buffer : Bytes) : AggregateReader :=
  readAggregateWithin resources buffer resources.depth

def readSchema (resources : Resources) (buffer : Bytes) (cursor : Cursor) (outSchema : Schema)
    (pushed : Nat) : Except Stray ((ReadResult × Cursor × Schema) × Nat) := do
  let ((res, c, fields), pushed) ← readAggregate resources buffer cursor [] pushed
  match res with
  | .success => do
      let (keyFieldIndex, c) ← read buffer 4 c
      match keyFieldIndex with
      | none => return ((.incomplete, cursor, outSchema), pushed)
      | some keyFieldIndex =>
          if keyFieldIndex ≥ fields.length then
            return ((.invalid, cursor, outSchema), pushed)
          else
            return ((.success, ← cursor.assign c, { fields, keyFieldIndex }), pushed)
  | res => return ((res, cursor, outSchema), pushed)

def readTwoStrings (build : Bytes → Bytes → Command) (buffer : Bytes) (cursor c : Cursor)
    (cmd : Command) : Except Stray ((ReadResult × Cursor × Command) × Nat) := do
  let (first, c) ← readLengthPrefixedString buffer c
  let (second, c) ← readLengthPrefixedString buffer c
  match first, second with
  | some first, some second => return ((.success, ← cursor.assign c, build first second), 0)
  | _, _ => return ((.incomplete, cursor, cmd), 0)

def readOneString {Message : Type} (build : Bytes → Message) (buffer : Bytes) (cursor c : Cursor)
    (msg : Message) : Except Stray ((ReadResult × Cursor × Message) × Nat) := do
  let (s, c) ← readLengthPrefixedString buffer c
  match s with
  | none => return ((.incomplete, cursor, msg), 0)
  | some s => return ((.success, ← cursor.assign c, build s), 0)

def readSchemaInto {Message : Type} (resources : Resources) (build : Schema → Message)
    (buffer : Bytes) (cursor c : Cursor) (msg : Message) :
    Except Stray ((ReadResult × Cursor × Message) × Nat) := do
  let ((res, c, schema), pushed) ← readSchema resources buffer c {} 0
  match res with
  | .success => return ((.success, ← cursor.assign c, build schema), pushed)
  | res => return ((res, cursor, msg), pushed)

/-- `read(ConstBuffer&, Command&)`, with the number of fields it pushes. -/
def readCommand (resources : Resources) (buffer : Bytes) (cursor : Cursor) (cmd : Command) :
    Except Stray ((ReadResult × Cursor × Command) × Nat) := do
  let (cmdType, c) ← read buffer 1 cursor
  match cmdType with
  | none => return ((.incomplete, cursor, cmd), 0)
  | some cmdType =>
      match cmdType with
      | 1 => do
          let (name, c) ← readLengthPrefixedString buffer c
          match name with
          | none => return ((.incomplete, cursor, cmd), 0)
          | some name => readSchemaInto resources (.registerSchema name) buffer cursor c cmd
      | 2 => readTwoStrings .createCollection buffer cursor c cmd
      | 3 => readOneString .getSchema buffer cursor c cmd
      | 4 => readOneString .getCollectionSchema buffer cursor c cmd
      | 5 => readTwoStrings .get buffer cursor c cmd
      | 6 => readTwoStrings .put buffer cursor c cmd
      | 7 => readTwoStrings .delete buffer cursor c cmd
      | _ => return ((.invalid, cursor, cmd), 0)

/-- `read(ConstBuffer&, Response&)`, with the number of fields it pushes. -/
def readResponse (resources : Resources) (buffer : Bytes) (cursor : Cursor) (res : Response) :
    Except Stray ((ReadResult × Cursor × Response) × Nat) := do
  let (resType, c) ← read buffer 1 cursor
  match resType with
  | none => return ((.incomplete, cursor, res), 0)
  | some resType =>
      match resType with
      | 1 => return ((.success, ← cursor.assign c, .success), 0)
      | 2 => return ((.success, ← cursor.assign c, .failed), 0)
      | 3 => return ((.success, ← cursor.assign c, .invalidCommand), 0)
      | 4 => return ((.success, ← cursor.assign c, .notFound), 0)
      | 5 => readOneString .found buffer cursor c res
      | 6 => readOneString .string buffer cursor c res
      | 7 => readSchemaInto resources .schema buffer cursor c res
      | _ => return ((.invalid, cursor, res), 0)

/-! ## Cursors -/

/-- The cursor spans what is left of the buffer. -/
structure Spans (buffer : Bytes) (c : Cursor) (rest : Bytes) : Prop where
  ends : c.data + c.len = buffer.length
  content : buffer.drop c.data = rest

variable {buffer rest whole : Bytes} {c cursor : Cursor} {size count : Nat}

theorem spans_whole (buffer : Bytes) : Spans buffer (.whole buffer) buffer :=
  ⟨Nat.zero_add _, List.drop_zero⟩

theorem Spans.len_eq (spans : Spans buffer c rest) : c.len = rest.length := by
  have ends := spans.ends
  rw [← spans.content, List.length_drop]
  omega

theorem Spans.load (spans : Spans buffer c rest) (inside : count ≤ rest.length) :
    load buffer c.data count = .ok (rest.take count) := by
  have ends := spans.ends
  rw [← spans.len_eq] at inside
  rw [Checked.load, if_pos (by omega), slice, spans.content]

theorem Spans.removePrefix (spans : Spans buffer c rest) (inside : count ≤ rest.length) :
    ∃ after, c.removePrefix count = .ok after ∧ Spans buffer after (rest.drop count) := by
  have ends := spans.ends
  rw [← spans.len_eq] at inside
  refine ⟨{ data := c.data + count, len := c.len - count }, if_pos inside, ?_, ?_⟩
  · dsimp only
    omega
  · rw [← spans.content, List.drop_drop]

theorem Spans.assign (spans : Spans buffer c rest) (old : Spans buffer cursor whole)
    (shorter : rest.length ≤ whole.length) : cursor.assign c = .ok c := by
  rw [← spans.len_eq, ← old.len_eq] at shorter
  exact if_pos shorter

theorem Spans.read (spans : Spans buffer c rest) (size : Nat) :
    ∃ after, read buffer size c = .ok ((Core.read size rest).1, after) ∧
      Spans buffer after (Core.read size rest).2 := by
  simp only [Checked.read, Core.read, spans.len_eq]
  by_cases short : rest.length < size
  · rw [if_pos short, if_pos short]
    exact ⟨c, rfl, spans⟩
  · obtain ⟨after, removed, spansAfter⟩ := spans.removePrefix (Nat.le_of_not_lt short)
    rw [if_neg short, if_neg short, spans.load (Nat.le_of_not_lt short), ok_bind, removed, ok_bind]
    exact ⟨after, rfl, spansAfter⟩

theorem Spans.readLengthPrefixedString (spans : Spans buffer c rest) :
    ∃ after, readLengthPrefixedString buffer c =
        .ok ((Core.readLengthPrefixedString rest).1, after) ∧
      Spans buffer after (Core.readLengthPrefixedString rest).2 := by
  simp only [Checked.readLengthPrefixedString, Core.readLengthPrefixedString, spans.len_eq]
  by_cases short : rest.length < 4
  · rw [if_pos short, if_pos short]
    exact ⟨c, rfl, spans⟩
  · obtain ⟨payload, header, spansPayload⟩ := spans.read 4
    rw [if_neg short, if_neg short, header, ok_bind]
    cases found : Core.read 4 rest with
    | mk len left =>
        rw [found] at spansPayload
        cases len with
        | none => exact ⟨payload, rfl, spansPayload⟩
        | some len =>
            dsimp only
            rw [spansPayload.len_eq]
            by_cases missing : left.length < len
            · rw [if_pos missing, if_pos missing]
              exact ⟨payload, rfl, spansPayload⟩
            · obtain ⟨after, removed, spansAfter⟩ :=
                spansPayload.removePrefix (Nat.le_of_not_lt missing)
              rw [if_neg missing, if_neg missing, spansPayload.load (Nat.le_of_not_lt missing),
                ok_bind, removed, ok_bind]
              exact ⟨after, rfl, spansAfter⟩

/-! ## What is claimed of memory -/

/-- Wherever, behind fewer than `count` whole fields, a nested aggregate begins,
its bytes are afforded. -/
def EachNested (affords : Bytes → Prop) (count : Nat) (bytes : Bytes) : Prop :=
  ∀ fields name inner, fields.length < count → EncodableFields fields → name.length < 256 ^ 4 →
    bytes = writeFields fields ++ (writeLengthPrefixedString name ++ (write 1 12 ++ inner)) →
    affords inner

/-- There is memory for what the bytes of an aggregate claim, whole or not: for as
many fields as their count says and, one call deeper on the stack, for each
aggregate that begins in them. -/
def Affords (resources : Resources) : (depth : Nat) → Bytes → Prop
  | 0, _ => False
  | depth + 1, bytes => ∀ count rest, count < 256 ^ 4 → bytes = write 4 count ++ rest →
      resources.reserves rest.length count = true ∧
        EachNested (Affords resources depth) count rest

variable {resources : Resources} {affords : Bytes → Prop} {depth : Nat}

theorem affords_of_starved (starved : (Core.read 4 rest).1 = none) :
    Affords resources (depth + 1) rest := by
  intro count left fits same
  rw [same, read_write fits] at starved
  cases starved

theorem affords_succ_iff {left : Bytes} (found : Core.read 4 rest = (some count, left)) :
    Affords resources (depth + 1) rest ↔ resources.reserves left.length count = true ∧
      EachNested (Affords resources depth) count left := by
  obtain ⟨fits, same⟩ := read_some_iff.mp found
  constructor
  · exact fun all => all count left fits same
  · intro here count' left' fits' same'
    rw [same', read_write fits'] at found
    cases found
    exact here

theorem eachNested_zero (affords : Bytes → Prop) (bytes : Bytes) : EachNested affords 0 bytes :=
  fun _ _ _ none => absurd none (Nat.not_lt_zero _)

theorem fieldHeader_writeFields (field : Field) (fields : AggregateType)
    (fits : field.name.length < 256 ^ 4) (behind : Bytes) :
    fieldHeader (writeFields (field :: fields) ++ behind) = some (field.name,
      typeIndex field.type, writeTypeDetail field.type ++ (writeFields fields ++ behind)) := by
  refine fieldHeader_some_iff.mpr ⟨fits, typeIndex_lt field.type, ?_⟩
  simp only [writeFields, List.append_assoc]

theorem eachNested_of_starved (starved : fieldHeader rest = none) :
    EachNested affords count rest := by
  intro fields name inner _ fits nameFits same
  cases fields with
  | nil =>
      have header := fieldHeader_some_iff.mpr ⟨nameFits, (by decide : 12 < 256 ^ 1), same⟩
      cases starved.symm.trans header
  | cons field fields =>
      rw [same, fieldHeader_writeFields field fields fits.1.1] at starved
      cases starved

theorem acceptsEncodings_readAggregate (bound : Nat) :
    AcceptsEncodings Protocol.readAggregate bound :=
  fun _ _ _ _ _ => readAggregate_success_iff

/-- One field more: it is an aggregate that is afforded, and so are those behind it
if it is read. -/
theorem eachNested_succ_iff {name left : Bytes} {index : Nat}
    (header : fieldHeader rest = some (name, index, left)) :
    EachNested affords (count + 1) rest ↔ (index = 12 → affords left) ∧
      ∀ type behind, Protocol.readFieldType Protocol.readAggregate index left = .ok (type, behind) →
        EachNested affords count behind := by
  obtain ⟨nameFits, _, same⟩ := fieldHeader_some_iff.mp header
  constructor
  · intro all
    constructor
    · intro aggregate
      subst aggregate
      exact all [] name left (Nat.succ_pos _) trivial nameFits same
    · intro type behind typeRead fields name' inner fewer fits nameFits' same'
      obtain ⟨rfl, typeFits, rfl⟩ :=
        readFieldType_ok (acceptsEncodings_readAggregate _) (Nat.le_refl _) typeRead
      refine all (⟨name, type⟩ :: fields) name' inner (Nat.succ_lt_succ fewer)
        ⟨⟨nameFits, typeFits⟩, fits⟩ nameFits' ?_
      rw [same, same']
      simp only [writeFields, List.append_assoc]
  · intro here fields name' inner fewer fits nameFits' same'
    cases fields with
    | nil =>
        have first := fieldHeader_some_iff.mpr ⟨nameFits', (by decide : 12 < 256 ^ 1), same'⟩
        cases header.symm.trans first
        exact here.1 rfl
    | cons field fields =>
        obtain ⟨⟨fieldFits, typeFits⟩, fits⟩ := fits
        rw [same', fieldHeader_writeFields field fields fieldFits] at header
        cases header
        exact here.2 _ _ (readFieldType_encoded (acceptsEncodings_readAggregate _) typeFits _
          (Nat.le_refl _)) fields name' inner (Nat.lt_of_succ_lt_succ fewer) fits nameFits' rfl

/-! ## Aggregates -/

/-- What a part of a reader came to on the buffer, beside what it came to on the
bytes. It set out with `start` fields pushed and `length` bytes left, and every
field it pushed took five of them. -/
inductive Follows (buffer : Bytes) (start length : Nat) {α : Type} :
    Except ReadResult (α × Bytes) → Except ReadResult (α × Cursor) × Nat → Prop where
  | ok {value rest c pushed} (spans : Spans buffer c rest) (counted : start ≤ pushed)
      (paid : 5 * pushed + rest.length ≤ 5 * start + length) :
      Follows buffer start length (.ok (value, rest)) (.ok (value, c), pushed)
  | error {res pushed} (paid : 5 * pushed ≤ 5 * start + length) :
      Follows buffer start length (.error res) (.error res, pushed)

/-- The same of a whole reader. -/
inductive Answers (buffer : Bytes) (start length : Nat) {α : Type} :
    ReadResult × Bytes × α → (ReadResult × Cursor × α) × Nat → Prop where
  | success {rest c out pushed} (spans : Spans buffer c rest) (counted : start ≤ pushed)
      (paid : 5 * pushed + rest.length ≤ 5 * start + length) :
      Answers buffer start length (.success, rest, out) ((.success, c, out), pushed)
  | failure {res rest c out pushed} (failed : res ≠ .success) (spans : Spans buffer c rest)
      (paid : 5 * pushed ≤ 5 * start + length) :
      Answers buffer start length (res, rest, out) ((res, c, out), pushed)

theorem Follows.mono {α : Type} {start other length otherLength : Nat}
    {model : Except ReadResult (α × Bytes)} {answer : Except ReadResult (α × Cursor) × Nat}
    (follows : Follows buffer other otherLength model answer) (counted : start ≤ other)
    (paid : 5 * other + otherLength ≤ 5 * start + length) :
    Follows buffer start length model answer := by
  cases follows with
  | ok spans later rest => exact .ok spans (by omega) (by omega)
  | error rest => exact .error (by omega)

/-- A reader answers, and so that `p`, if `afforded`, and lacks memory if not. -/
inductive Outcome {α : Type} (afforded : Prop) (p : α → Prop) : Except Stray α → Prop where
  | answer {a} (can : afforded) (holds : p a) : Outcome afforded p (.ok a)
  | lack {stray} (cannot : ¬ afforded) (lacks : stray.IsLack) : Outcome afforded p (.error stray)

section

variable {α β : Type} {afforded other : Prop} {p : α → Prop} {q : β → Prop}
  {result : Except Stray α}

theorem Outcome.of_ok (can : afforded) (answered : ∃ a, result = .ok a ∧ p a) :
    Outcome afforded p result := by
  obtain ⟨a, rfl, holds⟩ := answered
  exact .answer can holds

theorem Outcome.of_other {type index : Nat} (different : type ≠ index)
    (answered : ∃ a, result = .ok a ∧ p a) : Outcome (type = index → afforded) p result :=
  .of_ok (fun same => absurd same different) answered

theorem Outcome.imp {weaker : α → Prop} (outcome : Outcome afforded p result)
    (same : other ↔ afforded) (imp : ∀ a, p a → weaker a) : Outcome other weaker result := by
  cases outcome with
  | answer can holds => exact .answer (same.mpr can) (imp _ holds)
  | lack cannot lacks => exact .lack (fun can => cannot (same.mp can)) lacks

theorem Outcome.congr (outcome : Outcome afforded p result) (same : other ↔ afforded) :
    Outcome other p result :=
  outcome.imp same fun _ holds => holds

/-- What follows on an answer needs no more memory. -/
theorem Outcome.bind {next : α → Except Stray β} (outcome : Outcome afforded p result)
    (follow : ∀ a, p a → ∃ b, next a = .ok b ∧ q b) : Outcome afforded q (result >>= next) := by
  cases outcome with
  | answer can holds => exact .of_ok can (follow _ holds)
  | lack cannot lacks => exact .lack cannot lacks

theorem Outcome.lacks_of_error {stray : Stray} (outcome : Outcome afforded p result)
    (failed : result = .error stray) : stray.IsLack := by
  cases outcome with
  | answer => cases failed
  | lack _ lacks =>
      cases failed
      exact lacks

end

/-- `readNested` answers as `readAggregate` does where it affords to. -/
def AnswersWhere (buffer : Bytes) (readNested : AggregateReader) (affords : Bytes → Prop) : Prop :=
  ∀ c rest out pushed, Spans buffer c rest →
    Outcome (affords rest)
      (Answers buffer pushed rest.length (Protocol.readAggregate rest out))
      (readNested c out pushed)

variable {readNested : AggregateReader} {pushed : Nat}

theorem readFieldType_outcome (nested : AnswersWhere buffer readNested affords)
    (typeIndex pushed : Nat) (spans : Spans buffer c rest) :
    Outcome (typeIndex = 12 → affords rest)
      (Follows buffer pushed rest.length
        (Protocol.readFieldType Protocol.readAggregate typeIndex rest))
      (readFieldType readNested buffer typeIndex c pushed) := by
  simp only [readFieldType]
  split
  case h_12 =>
    obtain ⟨after, header, spansAfter⟩ := spans.read 4
    refine .of_other (by decide) ?_
    rw [header, ok_bind]
    simp only [Protocol.readFieldType]
    cases found : Core.read 4 rest with
    | mk capacity left =>
        rw [found] at spansAfter
        cases capacity with
        | none => exact ⟨_, rfl, .error (Nat.le_add_right _ _)⟩
        | some capacity =>
            obtain ⟨_, rfl⟩ := read_some_iff.mp found
            refine ⟨_, rfl, .ok spansAfter (Nat.le_refl _) ?_⟩
            rw [List.length_append]
            omega
  case h_13 =>
    refine Outcome.congr (Outcome.bind (nested c rest [] pushed spans) ?_) (by simp)
    intro answer answers
    simp only [Protocol.readFieldType]
    generalize Protocol.readAggregate rest [] = model at answers
    cases answers with
    | success spansAfter counted paid => exact ⟨_, rfl, .ok spansAfter counted paid⟩
    | @failure res _ _ _ _ failed _ paid =>
        cases res with
        | success => exact absurd rfl failed
        | incomplete => exact ⟨_, rfl, .error paid⟩
        | invalid => exact ⟨_, rfl, .error paid⟩
  case h_14 other =>
    simp only [Protocol.readFieldType]
    exact .of_other other ⟨_, rfl, .error (Nat.le_add_right _ _)⟩
  all_goals
    exact .of_other (by decide) ⟨_, rfl, .ok spans (Nat.le_refl _) (Nat.le_refl _)⟩

/-- A field takes four bytes for the length of its name and one for its type. -/
theorem fieldHeader_room {name : Bytes} {index : Nat} {left : Bytes}
    (found : fieldHeader rest = some (name, index, left)) : left.length + 5 ≤ rest.length := by
  obtain ⟨_, _, rfl⟩ := fieldHeader_some_iff.mp found
  simp only [List.length_append, writeLengthPrefixedString_length, write_length]
  omega

theorem fieldHeader_reads {name : Bytes} {index : Nat} {left : Bytes}
    (found : fieldHeader rest = some (name, index, left)) :
    (Core.readLengthPrefixedString rest).1 = some name ∧
      Core.read 1 (Core.readLengthPrefixedString rest).2 = (some index, left) := by
  obtain ⟨nameFits, indexFits, rfl⟩ := fieldHeader_some_iff.mp found
  simp only [readLengthPrefixedString_write nameFits, read_write indexFits, true_and]

theorem readFields_outcome (nested : AnswersWhere buffer readNested affords) (count pushed : Nat)
    (agg : AggregateType) (spans : Spans buffer c rest) :
    Outcome (EachNested affords count rest)
      (Follows buffer pushed rest.length
        (Prod.swap <$> Protocol.readFields Protocol.readAggregate count rest agg))
      (readFields readNested buffer count c agg pushed) := by
  induction count generalizing c rest agg pushed with
  | zero => exact .answer (eachNested_zero _ _) (.ok spans (Nat.le_refl _) (Nat.le_refl _))
  | succ count ih =>
      obtain ⟨afterName, nameRead, spansName⟩ := spans.readLengthPrefixedString
      obtain ⟨afterIndex, indexRead, spansIndex⟩ := spansName.read 1
      rw [readFields, nameRead, ok_bind]
      dsimp only
      rw [indexRead, ok_bind, readFields_succ]
      dsimp only
      cases header : fieldHeader rest with
      | none =>
          refine .of_ok (eachNested_of_starved header)
            ⟨(.error .incomplete, pushed), ?_, .error (Nat.le_add_right _ _)⟩
          simp only [fieldHeader] at header
          split
          · rename_i name index nameFound indexFound
            simp only [nameFound, indexFound] at header
            cases header
          · rfl
      | some found =>
          obtain ⟨name, index, left⟩ := found
          have room := fieldHeader_room header
          obtain ⟨nameFound, indexFound⟩ := fieldHeader_reads header
          have spansHeader : Spans buffer afterIndex left := by
            rw [indexFound] at spansIndex
            exact spansIndex
          have claimed := @eachNested_succ_iff rest count affords name left index header
          have typeRead := readFieldType_outcome nested index pushed spansHeader
          rw [nameFound, indexFound]
          dsimp only
          generalize readFieldType readNested buffer index afterIndex pushed = result at typeRead
          cases typeRead with
          | lack cannot lacks => exact .lack (fun all => cannot (claimed.mp all).1) lacks
          | answer can follows =>
              rw [ok_bind]
              generalize Protocol.readFieldType Protocol.readAggregate index left = model
                at follows claimed
              cases follows with
              | ok spansType counted paid =>
                  refine Outcome.imp (ih _ _ spansType) ?_
                    fun answer later => later.mono (by omega) (by omega)
                  refine claimed.trans ⟨fun all => all.2 _ _ rfl, fun here => ⟨can, ?_⟩⟩
                  intro type behind same
                  cases same
                  exact here
              | error paid =>
                  refine .answer (claimed.mpr ⟨can, fun type behind same => ?_⟩) (.error (by omega))
                  cases same

theorem readAggregateWithin_outcome (resources : Resources) (buffer : Bytes) (depth : Nat) :
    AnswersWhere buffer (readAggregateWithin resources buffer depth) (Affords resources depth) := by
  induction depth with
  | zero => exact fun _ _ _ _ _ => .lack id trivial
  | succ depth nested =>
      intro cursor rest out pushed spans
      obtain ⟨afterCount, header, spansFields⟩ := spans.read 4
      rw [readAggregateWithin, header, ok_bind, readAggregate_eq]
      cases found : Core.read 4 rest with
      | mk fieldCount payload =>
          rw [found] at spansFields
          dsimp only at spansFields
          cases fieldCount with
          | none =>
              exact .answer (affords_of_starved (congrArg Prod.fst found))
                (.failure (by decide) spans (Nat.le_add_right _ _))
          | some fieldCount =>
              obtain ⟨_, same⟩ := read_some_iff.mp found
              have used := congrArg List.length same
              rw [List.length_append, write_length] at used
              refine Outcome.congr ?_ (affords_succ_iff found)
              dsimp only
              rw [reserve, spansFields.len_eq]
              cases reserves : resources.reserves payload.length fieldCount with
              | false =>
                  refine .lack (fun all => ?_) trivial
                  cases all.1
              | true =>
                  rw [if_pos rfl, ok_bind]
                  refine Outcome.congr (Outcome.bind
                    (readFields_outcome nested fieldCount pushed [] spansFields) ?_) (by simp)
                  intro answer follows
                  have early : Protocol.readFields Protocol.readAggregate fieldCount payload [] ≠
                    .error .success := readFields_ne_success
                  generalize Protocol.readFields Protocol.readAggregate fieldCount payload [] =
                    model at follows early
                  cases model with
                  | error res =>
                      cases follows with
                      | error paid =>
                          refine ⟨_, rfl, .failure (fun success => ?_) spans (by omega)⟩
                          exact early (congrArg Except.error success)
                  | ok fields =>
                      cases follows with
                      | ok spansAfter counted paid =>
                          have assigned := spansAfter.assign spans (by omega)
                          refine ⟨_, ?_, .success spansAfter counted (by omega)⟩
                          dsimp only
                          rw [assigned, ok_bind]
                          rfl

/-! ## Messages -/

theorem readSchema_outcome (resources : Resources) (spans : Spans buffer c rest) (out : Schema)
    (pushed : Nat) :
    Outcome (Affords resources resources.depth rest)
      (Answers buffer pushed rest.length (Protocol.readSchema rest out))
      (readSchema resources buffer c out pushed) := by
  refine Outcome.bind
    (readAggregateWithin_outcome resources buffer resources.depth c rest [] pushed spans) ?_
  intro answer answers
  rw [Protocol.readSchema]
  generalize Protocol.readAggregate rest [] = model at answers
  cases answers with
  | @failure res _ _ _ _ failed _ paid =>
      cases res with
      | success => exact absurd rfl failed
      | incomplete => exact ⟨_, rfl, .failure failed spans paid⟩
      | invalid => exact ⟨_, rfl, .failure failed spans paid⟩
  | @success payload _ fields counter spansKey counted paid =>
      obtain ⟨after, keyRead, spansAfter⟩ := spansKey.read 4
      dsimp only
      rw [keyRead, ok_bind]
      cases found : Core.read 4 payload with
      | mk keyFieldIndex left =>
          rw [found] at spansAfter
          dsimp only at spansAfter
          cases keyFieldIndex with
          | none => exact ⟨_, rfl, .failure (by decide) spans (by omega)⟩
          | some keyFieldIndex =>
              obtain ⟨_, same⟩ := read_some_iff.mp found
              have used := congrArg List.length same
              rw [List.length_append, write_length] at used
              dsimp only
              by_cases outside : keyFieldIndex ≥ fields.length
              · rw [if_pos outside, if_pos outside]
                exact ⟨_, rfl, .failure (by decide) spans (by omega)⟩
              · rw [if_neg outside, if_neg outside, spansAfter.assign spans (by omega), ok_bind]
                exact ⟨_, rfl, .success spansAfter counted (by omega)⟩

section

variable {Message : Type} {msg : Message}

/-- A message that is not read leaves the cursor where it was. -/
theorem Answers.kept {res : ReadResult} (failed : res ≠ .success) (old : Spans buffer cursor whole)
    {start : Nat} (paid : 5 * pushed ≤ 5 * start + whole.length) :
    Answers buffer start whole.length (res, whole, msg) ((res, cursor, msg), pushed) :=
  .failure failed old paid

/-- One that is moves it to where reading ended. -/
theorem Answers.moved (pushed : Nat) (old : Spans buffer cursor whole)
    (spans : Spans buffer c rest) (paid : 5 * pushed + rest.length ≤ whole.length) (out : Message) :
    cursor.assign c = .ok c ∧
      Answers buffer 0 whole.length (.success, rest, out) ((.success, c, out), pushed) :=
  ⟨spans.assign old (by omega), .success spans (Nat.zero_le _) (by omega)⟩

theorem readSchemaInto_outcome (resources : Resources) (build : Schema → Message)
    (old : Spans buffer cursor whole) (spans : Spans buffer c rest)
    (shorter : rest.length ≤ whole.length) :
    Outcome (Affords resources resources.depth rest)
      (Answers buffer 0 whole.length (Protocol.readSchemaInto build whole rest msg))
      (readSchemaInto resources build buffer cursor c msg) := by
  refine Outcome.bind (readSchema_outcome resources spans {} 0) ?_
  intro answer answers
  rw [Protocol.readSchemaInto]
  generalize Protocol.readSchema rest {} = model at answers
  cases answers with
  | @failure res _ _ _ _ failed _ paid =>
      cases res with
      | success => exact absurd rfl failed
      | incomplete => exact ⟨_, rfl, .kept failed old (by omega)⟩
      | invalid => exact ⟨_, rfl, .kept failed old (by omega)⟩
  | success spansAfter counted paid =>
      obtain ⟨assigned, answers⟩ :=
        Answers.moved _ old spansAfter (Nat.le_trans paid (by omega)) (build _)
      dsimp only
      rw [assigned, ok_bind]
      exact ⟨_, rfl, answers⟩

theorem readOneString_answers (build : Bytes → Message) (old : Spans buffer cursor whole)
    (spans : Spans buffer c rest) (shorter : rest.length ≤ whole.length) :
    ∃ answer, readOneString build buffer cursor c msg = .ok answer ∧
      Answers buffer 0 whole.length (Protocol.readOneString build whole rest msg) answer := by
  obtain ⟨after, stringRead, spansAfter⟩ := spans.readLengthPrefixedString
  rw [readOneString, stringRead, ok_bind, Protocol.readOneString]
  cases found : Core.readLengthPrefixedString rest with
  | mk s left =>
      rw [found] at spansAfter
      dsimp only at spansAfter
      cases s with
      | none => exact ⟨_, rfl, .kept (by decide) old (Nat.zero_le _)⟩
      | some s =>
          have used := readLengthPrefixedString_length found
          obtain ⟨assigned, answers⟩ :=
            Answers.moved 0 old spansAfter (by omega) (build s)
          dsimp only
          rw [assigned, ok_bind]
          exact ⟨_, rfl, answers⟩

end

variable {cmd : Command}

theorem readTwoStrings_answers (build : Bytes → Bytes → Command) (old : Spans buffer cursor whole)
    (spans : Spans buffer c rest) (shorter : rest.length ≤ whole.length) :
    ∃ answer, readTwoStrings build buffer cursor c cmd = .ok answer ∧
      Answers buffer 0 whole.length (Protocol.readTwoStrings build whole rest cmd) answer := by
  obtain ⟨between, firstRead, spansBetween⟩ := spans.readLengthPrefixedString
  obtain ⟨after, secondRead, spansAfter⟩ := spansBetween.readLengthPrefixedString
  rw [readTwoStrings, firstRead, ok_bind]
  dsimp only
  rw [secondRead, ok_bind, Protocol.readTwoStrings]
  cases firstFound : Core.readLengthPrefixedString rest with
  | mk first left =>
      rw [firstFound] at spansAfter
      dsimp only at spansAfter ⊢
      cases secondFound : Core.readLengthPrefixedString left with
      | mk second behind =>
          rw [secondFound] at spansAfter
          dsimp only at spansAfter ⊢
          cases first with
          | none => exact ⟨_, rfl, .kept (by decide) old (Nat.zero_le _)⟩
          | some first =>
              cases second with
              | none => exact ⟨_, rfl, .kept (by decide) old (Nat.zero_le _)⟩
              | some second =>
                  have firstUsed := readLengthPrefixedString_length firstFound
                  have secondUsed := readLengthPrefixedString_length secondFound
                  obtain ⟨assigned, answers⟩ :=
                    Answers.moved 0 old spansAfter (by omega) (build first second)
                  dsimp only
                  rw [assigned, ok_bind]
                  exact ⟨_, rfl, answers⟩

/-- The type index in front of a message. -/
theorem messageType_length {type : Nat} {left : Bytes}
    (header : Core.read 1 whole = (some type, left)) : left.length ≤ whole.length := by
  obtain ⟨_, rfl⟩ := read_some_iff.mp header
  rw [List.length_append]
  exact Nat.le_add_left _ _

/-- There is memory for the schema of the command, if it registers one. -/
def CommandAffords (resources : Resources) (bytes : Bytes) : Prop :=
  ∀ name rest, name.length < 256 ^ 4 →
    bytes = write 1 1 ++ (writeLengthPrefixedString name ++ rest) →
    Affords resources resources.depth rest

/-- There is memory for the schema of the response, if it holds one. -/
def ResponseAffords (resources : Resources) (bytes : Bytes) : Prop :=
  ∀ rest, bytes = write 1 7 ++ rest → Affords resources resources.depth rest

theorem commandAffords_of_starved (starved : (Core.read 1 whole).1 = none) :
    CommandAffords resources whole := by
  intro name rest _ same
  rw [same, read_write (by decide)] at starved
  cases starved

theorem commandAffords_iff {type : Nat} {left : Bytes}
    (header : Core.read 1 whole = (some type, left)) :
    CommandAffords resources whole ↔ type = 1 → ∀ name rest, name.length < 256 ^ 4 →
      left = writeLengthPrefixedString name ++ rest → Affords resources resources.depth rest := by
  obtain ⟨_, same⟩ := read_some_iff.mp header
  constructor
  · intro all registers name rest fits same'
    subst registers same'
    exact all name rest fits same
  · intro here name rest fits same'
    rw [same', read_write (by decide)] at header
    cases header
    exact here rfl name rest fits rfl

theorem readCommand_outcome (resources : Resources) (cmd : Command)
    (spans : Spans buffer cursor whole) :
    Outcome (CommandAffords resources whole)
      (Answers buffer 0 whole.length (Protocol.readCommand whole cmd))
      (readCommand resources buffer cursor cmd) := by
  obtain ⟨after, header, spansAfter⟩ := spans.read 1
  rw [readCommand, header, ok_bind]
  cases found : Core.read 1 whole with
  | mk cmdType left =>
      rw [found] at spansAfter
      dsimp only at spansAfter
      cases cmdType with
      | none =>
          simp only [Protocol.readCommand, found]
          exact .answer (commandAffords_of_starved (congrArg Prod.fst found))
            (.kept (by decide) spans (Nat.zero_le _))
      | some cmdType =>
          have shorter := messageType_length found
          refine Outcome.congr ?_ (commandAffords_iff found)
          dsimp only
          split <;> simp only [Protocol.readCommand, found]
          · obtain ⟨afterName, nameRead, spansName⟩ := spansAfter.readLengthPrefixedString
            rw [nameRead, ok_bind]
            cases nameFound : Core.readLengthPrefixedString left with
            | mk name behind =>
                rw [nameFound] at spansName
                dsimp only at spansName
                cases name with
                | none =>
                    refine .answer ?_ (.kept (by decide) spans (Nat.zero_le _))
                    intro _ name rest fits same
                    rw [same, readLengthPrefixedString_write fits] at nameFound
                    cases nameFound
                | some name =>
                    have used := readLengthPrefixedString_length nameFound
                    refine Outcome.congr
                      (readSchemaInto_outcome resources _ spans spansName (by omega)) ?_
                    constructor
                    · intro all
                      obtain ⟨fits, same⟩ := readLengthPrefixedString_some_iff.mp nameFound
                      exact all trivial name behind fits same
                    · intro here _ name' rest fits same
                      rw [same, readLengthPrefixedString_write fits] at nameFound
                      cases nameFound
                      exact here
          · exact .of_other (by decide) (readTwoStrings_answers _ spans spansAfter shorter)
          · exact .of_other (by decide) (readOneString_answers _ spans spansAfter shorter)
          · exact .of_other (by decide) (readOneString_answers _ spans spansAfter shorter)
          · exact .of_other (by decide) (readTwoStrings_answers _ spans spansAfter shorter)
          · exact .of_other (by decide) (readTwoStrings_answers _ spans spansAfter shorter)
          · exact .of_other (by decide) (readTwoStrings_answers _ spans spansAfter shorter)
          · rename_i other _ _ _ _ _ _
            exact .of_other other ⟨_, rfl, .kept (by decide) spans (Nat.zero_le _)⟩

theorem responseAffords_of_starved (starved : (Core.read 1 whole).1 = none) :
    ResponseAffords resources whole := by
  intro rest same
  rw [same, read_write (by decide)] at starved
  cases starved

theorem responseAffords_iff {type : Nat} {left : Bytes}
    (header : Core.read 1 whole = (some type, left)) :
    ResponseAffords resources whole ↔ type = 7 → Affords resources resources.depth left := by
  obtain ⟨_, same⟩ := read_some_iff.mp header
  constructor
  · intro all holds
    subst holds
    exact all left same
  · intro here rest same'
    rw [same', read_write (by decide)] at header
    cases header
    exact here rfl

theorem readResponse_outcome (resources : Resources) (res : Response)
    (spans : Spans buffer cursor whole) :
    Outcome (ResponseAffords resources whole)
      (Answers buffer 0 whole.length (Protocol.readResponse whole res))
      (readResponse resources buffer cursor res) := by
  obtain ⟨after, header, spansAfter⟩ := spans.read 1
  rw [readResponse, header, ok_bind]
  cases found : Core.read 1 whole with
  | mk resType left =>
      rw [found] at spansAfter
      dsimp only at spansAfter
      cases resType with
      | none =>
          simp only [Protocol.readResponse, found]
          exact .answer (responseAffords_of_starved (congrArg Prod.fst found))
            (.kept (by decide) spans (Nat.zero_le _))
      | some resType =>
          have shorter := messageType_length found
          have whole_moved (out : Response) := Answers.moved 0 spans spansAfter (by omega) out
          refine Outcome.congr ?_ (responseAffords_iff found)
          dsimp only
          split <;> simp only [Protocol.readResponse, found]
          case h_5 => exact .of_other (by decide) (readOneString_answers _ spans spansAfter shorter)
          case h_6 => exact .of_other (by decide) (readOneString_answers _ spans spansAfter shorter)
          case h_7 =>
            refine Outcome.congr
              (readSchemaInto_outcome resources _ spans spansAfter shorter) (by simp)
          case h_8 other =>
            exact .of_other other ⟨_, rfl, .kept (by decide) spans (Nat.zero_le _)⟩
          all_goals
            obtain ⟨assigned, answers⟩ := whole_moved _
            rw [assigned, ok_bind]
            exact .of_other (by decide) ⟨_, rfl, answers⟩

/-! ## Whole buffers -/

/-- The reader comes to an end as `model` does, with the same result and output and
with a cursor that spans what is left and is no longer than the buffer, and it has
pushed at most a field for every five bytes. -/
def StaysInside {Message : Type} (buffer : Bytes) (model : ReadResult × Bytes × Message)
    (read : Except Stray ((ReadResult × Cursor × Message) × Nat)) : Prop :=
  ∃ cursor pushed, read = .ok ((model.1, cursor, model.2.2), pushed) ∧
    Spans buffer cursor model.2.1 ∧ cursor.len ≤ buffer.length ∧ pushed ≤ buffer.length / 5

theorem Answers.inside {Message : Type} {model : ReadResult × Bytes × Message}
    {answer : (ReadResult × Cursor × Message) × Nat}
    (answers : Answers buffer 0 buffer.length model answer) :
    StaysInside buffer model (.ok answer) := by
  cases answers with
  | success spans _ paid =>
      exact ⟨_, _, rfl, spans, by rw [← spans.ends]; exact Nat.le_add_left _ _, by omega⟩
  | failure _ spans paid =>
      exact ⟨_, _, rfl, spans, by rw [← spans.ends]; exact Nat.le_add_left _ _, by omega⟩

theorem Outcome.staysInside_iff {Message : Type} {afforded : Prop}
    {model : ReadResult × Bytes × Message}
    {read : Except Stray ((ReadResult × Cursor × Message) × Nat)}
    (outcome : Outcome afforded (Answers buffer 0 buffer.length model) read) :
    StaysInside buffer model read ↔ afforded := by
  cases outcome with
  | answer can answers => exact ⟨fun _ => can, fun _ => answers.inside⟩
  | lack cannot =>
      refine ⟨?_, fun can => absurd can cannot⟩
      intro inside
      obtain ⟨_, _, same, _⟩ := inside
      cases same

theorem affords_of_ample (ample : ∀ left count, resources.reserves left count = true)
    (deep : rest.length < depth) : Affords resources depth rest := by
  induction depth generalizing rest with
  | zero => exact absurd deep (Nat.not_lt_zero _)
  | succ depth ih =>
      intro count left _ whole
      subst whole
      refine ⟨ample _ _, ?_⟩
      intro fields name inner _ _ _ same
      subst same
      apply ih
      simp only [List.length_append, write_length] at deep
      omega

end Checked

/-- On any buffer the readers come to an end without straying, do on it what they do
on its bytes, leave a cursor that still ends where the buffer does, and push at most
a field for every five bytes, exactly if there is memory for the fields that the
buffer claims. Without it they stray nowhere either, but give no result. -/
theorem readers_stay_inside_iff_afforded (resources : Checked.Resources) (buffer : Bytes) :
    (∀ cmd, let read := Checked.readCommand resources buffer (.whole buffer) cmd
      (Checked.StaysInside buffer (readCommand buffer cmd) read ↔
        Checked.CommandAffords resources buffer) ∧
      ∀ stray, read = .error stray → stray.IsLack) ∧
    (∀ res, let read := Checked.readResponse resources buffer (.whole buffer) res
      (Checked.StaysInside buffer (readResponse buffer res) read ↔
        Checked.ResponseAffords resources buffer) ∧
      ∀ stray, read = .error stray → stray.IsLack) := by
  have spans := Checked.spans_whole buffer
  constructor
  · intro cmd read
    have outcome := Checked.readCommand_outcome resources cmd spans
    exact ⟨outcome.staysInside_iff, fun stray => outcome.lacks_of_error⟩
  · intro res read
    have outcome := Checked.readResponse_outcome resources res spans
    exact ⟨outcome.staysInside_iff, fun stray => outcome.lacks_of_error⟩

/-- Where memory is refused to nobody the readers are those on bytes. -/
theorem readers_stay_inside_where_ample (resources : Checked.Resources) (buffer : Bytes)
    (ample : ∀ left count, resources.reserves left count = true)
    (deep : buffer.length < resources.depth) :
    (∀ cmd, Checked.StaysInside buffer (readCommand buffer cmd)
      (Checked.readCommand resources buffer (.whole buffer) cmd)) ∧
    (∀ res, Checked.StaysInside buffer (readResponse buffer res)
      (Checked.readResponse resources buffer (.whole buffer) res)) := by
  have spans := Checked.spans_whole buffer
  constructor
  · intro cmd
    refine (Checked.readCommand_outcome resources cmd spans).staysInside_iff.mpr ?_
    intro name rest _ same
    subst same
    apply Checked.affords_of_ample ample
    simp only [List.length_append] at deep
    omega
  · intro res
    refine (Checked.readResponse_outcome resources res spans).staysInside_iff.mpr ?_
    intro rest same
    subst same
    apply Checked.affords_of_ample ample
    simp only [List.length_append] at deep
    omega

/-- 64 gigabytes, of which a `Field` takes 64 bytes. -/
def workstation : Checked.Resources where
  reserves := fun _ count => count * 64 ≤ 2 ^ 36
  depth := 10000

/-- A schema without a name that claims 4294967295 fields. -/
def greedyCommand : Bytes := [1, 0, 0, 0, 0, 255, 255, 255, 255]

theorem greedyCommand_badAlloc :
    Checked.readCommand workstation greedyCommand (.whole greedyCommand)
        .monostate = .error .badAlloc ∧
      ¬ Checked.StaysInside greedyCommand (readCommand greedyCommand .monostate)
        (Checked.readCommand workstation greedyCommand (.whole greedyCommand)
          .monostate) := by
  have thrown : Checked.readCommand workstation greedyCommand
      (.whole greedyCommand) .monostate = .error .badAlloc := rfl
  refine ⟨thrown, ?_⟩
  intro inside
  obtain ⟨_, _, same, _⟩ := inside
  cases thrown.symm.trans same

end Boutique.Protocol
