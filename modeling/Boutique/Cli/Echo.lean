import Mathlib.Data.List.TakeWhile
import Boutique.Cli.Values

namespace Boutique.Cli

open Boutique.Core Boutique.Data Boutique.Db Boutique.Protocol

/-! # What is typed is what is shown -/

/-! ## Numbers -/

/-- The line is how a number below `256 ^ width` is printed. -/
def isUnsigned (width : Nat) (line : Bytes) : Bool :=
  line = decimal (digitsValue line) && digitsValue line < 256 ^ width

def isSigned (width : Nat) : Bytes → Bool
  | 45 :: digits => digits = decimal (digitsValue digits) && 0 < digitsValue digits &&
      digitsValue digits ≤ 2 ^ (8 * width - 1)
  | line => line = decimal (digitsValue line) && digitsValue line < 2 ^ (8 * width - 1)

/-- The line is the text of a number of the type. Single bytes are shown as
characters, and `true` and `false` as digits. -/
def isLiteral : PrimitiveType → Bytes → Bool
  | .uint16 => isUnsigned 2
  | .uint32 => isUnsigned 4
  | .uint64 => isUnsigned 8
  | .int16 => isSigned 2
  | .int32 => isSigned 4
  | .int64 => isSigned 8
  | _ => fun _ => false

variable {floats : FloatText} {width n : Nat} {line : Bytes}

theorem isDigit_apart {c : UInt8} (digit : isDigit c = true) :
    isSpace c = false ∧ c ≠ 45 ∧ c ≠ 43 := by
  simp only [isDigit, isSpace, UInt8.le_iff_toNat_le, ← UInt8.toNat_inj, Bool.and_eq_true,
    decide_eq_true_iff, ne_eq, Bool.or_eq_false_iff, Bool.and_eq_false_iff,
    decide_eq_false_iff_not, UInt8.reduceToNat] at *
  omega

theorem takeWhile_decimal (n : Nat) : (decimal n).takeWhile isDigit = decimal n :=
  List.takeWhile_eq_self_iff.mpr fun _ => isDigit_of_mem_decimal

theorem numeral_decimal (n : Nat) : numeral (decimal n) = (false, decimal n) := by
  have taken := takeWhile_decimal n
  obtain ⟨c, rest, digits⟩ := List.exists_cons_of_ne_nil (decimal_ne_nil n)
  have digit : isDigit c = true := isDigit_of_mem_decimal (digits ▸ List.mem_cons_self)
  obtain ⟨solid, noMinus, noPlus⟩ := isDigit_apart digit
  rw [digits] at taken ⊢
  rw [numeral, List.dropWhile_cons, solid, if_neg Bool.false_ne_true]
  split
  · rename_i same
    cases same
    exact absurd rfl noMinus
  · rename_i same
    cases same
    exact absurd rfl noPlus
  · rw [taken]

theorem numeral_minus (n : Nat) : numeral (45 :: decimal n) = (true, decimal n) := by
  change (true, (decimal n).takeWhile isDigit) = _
  rw [takeWhile_decimal]

theorem stoull_decimal (fits : n < 2 ^ 64) : stoull (decimal n) = .ok n := by
  rw [stoull, numeral_decimal]
  dsimp only
  rw [if_neg (decimal_ne_nil n), digitsValue_decimal, if_neg (Nat.not_le_of_lt fits)]
  rfl

theorem stoll_decimal (fits : n < 2 ^ 63) : stoll (decimal n) = .ok (n : Int) := by
  rw [stoll, numeral_decimal]
  dsimp only
  rw [if_neg (decimal_ne_nil n), digitsValue_decimal, if_neg (Nat.not_le_of_lt fits)]
  rfl

theorem stoll_minus (fits : n ≤ 2 ^ 63) : stoll (45 :: decimal n) = .ok (-(n : Int)) := by
  rw [stoll, numeral_minus]
  dsimp only
  rw [if_neg (decimal_ne_nil n), digitsValue_decimal, if_neg (Nat.not_lt_of_le fits)]
  rfl

theorem isUnsigned_iff : isUnsigned width line = true ↔ ∃ n < 256 ^ width, line = decimal n := by
  rw [isUnsigned, Bool.and_eq_true, decide_eq_true_iff, decide_eq_true_iff]
  constructor
  · intro literal
    exact ⟨_, literal.2, literal.1⟩
  · intro given
    obtain ⟨n, fits, rfl⟩ := given
    rw [digitsValue_decimal]
    exact ⟨rfl, fits⟩

theorem isSigned_cases (literal : isSigned width line = true) :
    (∃ n < 2 ^ (8 * width - 1), line = decimal n) ∨
      ∃ n ≤ 2 ^ (8 * width - 1), 0 < n ∧ line = 45 :: decimal n := by
  rw [isSigned.eq_def] at literal
  split at literal
  · simp only [Bool.and_eq_true, decide_eq_true_iff] at literal
    right
    exact ⟨_, literal.2, literal.1.2, congrArg _ literal.1.1⟩
  · simp only [Bool.and_eq_true, decide_eq_true_iff] at literal
    left
    exact ⟨_, literal.2, literal.1⟩

theorem printSigned_write (fits : n < 2 ^ (8 * width - 1)) :
    printSigned (write width n) = decimal n := by
  have bound : 2 ^ (8 * width - 1) ≤ 256 ^ width := by
    rw [show 256 = 2 ^ 8 from rfl, ← pow_mul]
    exact Nat.pow_le_pow_right (by omega) (Nat.sub_le _ _)
  have value : leValue (write width n) = n := leValue_leBytes (Nat.lt_of_lt_of_le fits bound)
  rw [printSigned, write_length, value, if_pos fits]

theorem printSigned_minus (sizes : width = 2 ∨ width = 4 ∨ width = 8) (positive : 0 < n)
    (fits : n ≤ 2 ^ (8 * width - 1)) :
    printSigned (write width (-(n : Int) % 2 ^ 64).toNat) = 45 :: decimal n := by
  have wrapped : (-(n : Int) % 2 ^ 64).toNat % 256 ^ width = 2 ^ (8 * width) - n := by
    rcases sizes with rfl | rfl | rfl <;> omega
  have large : ¬ 2 ^ (8 * width) - n < 2 ^ (8 * width - 1) := by
    rcases sizes with rfl | rfl | rfl <;> omega
  have back : 2 ^ (8 * width) - (2 ^ (8 * width) - n) = n := by
    rcases sizes with rfl | rfl | rfl <;> omega
  rw [printSigned, write_length, write, leValue_leBytes_mod, wrapped, if_neg large, back]

theorem echoes_unsigned (sizes : width ≤ 8) (literal : isUnsigned width line = true) :
    ∃ n, stoull line = .ok n ∧ decimal (leValue (write width n)) = line := by
  obtain ⟨n, fits, rfl⟩ := isUnsigned_iff.mp literal
  have bound : 256 ^ width ≤ 2 ^ 64 := Nat.pow_le_pow_right (by omega) sizes
  refine ⟨n, stoull_decimal (Nat.lt_of_lt_of_le fits bound), ?_⟩
  rw [write, leValue_leBytes fits]

theorem echoes_signed (sizes : width = 2 ∨ width = 4 ∨ width = 8)
    (literal : isSigned width line = true) :
    ∃ n, stoll line = .ok n ∧ printSigned (write width (n % 2 ^ 64).toNat) = line := by
  have bound : 2 ^ (8 * width - 1) ≤ 2 ^ 63 := Nat.pow_le_pow_right (by omega) (by omega)
  rcases isSigned_cases literal with ⟨n, fits, rfl⟩ | ⟨n, fits, positive, rfl⟩
  · have small : n < 2 ^ 63 := Nat.lt_of_lt_of_le fits bound
    have same : ((n : Int) % 2 ^ 64).toNat = n := by omega
    refine ⟨n, stoll_decimal small, ?_⟩
    rw [same, printSigned_write fits]
  · exact ⟨_, stoll_minus (Nat.le_trans fits bound), printSigned_minus sizes positive fits⟩

theorem echoes_of_isLiteral {type : PrimitiveType} (literal : isLiteral type line = true) :
    ∃ bytes, readPrimitive floats line type = .ok bytes ∧
      printPrimitive floats bytes type = line := by
  cases type with
  | bool | uint8 | int8 | float32 | float64 => cases literal
  | uint16 | uint32 | uint64 =>
      obtain ⟨n, read, shown⟩ := echoes_unsigned (by omega) literal
      exact ⟨_, by rw [readPrimitive, read]; rfl, shown⟩
  | int16 | int32 | int64 =>
      obtain ⟨n, read, shown⟩ := echoes_signed (by omega) literal
      exact ⟨_, by rw [readPrimitive, read]; rfl, shown⟩

/-! ## Documents -/

mutual
/-- What is shown of a value whose lines are literal, and the lines behind them. -/
def echo : FieldType → List Bytes → (indent : Nat) → Option (Bytes × List Bytes)
  | .string capacity, line :: rest, _ =>
      if line.length ≤ capacity then some (text "\"" ++ line ++ text "\"\n", rest) else none
  | .primitive type, line :: rest, _ =>
      if isLiteral type line then some (line ++ text "\n", rest) else none
  | .aggregate agg, input, indent => do
      let (shown, rest) ← echoAll agg input (indent + 1)
      return (text "\n" ++ shown, rest)
  | _, [], _ => none

def echoAll : AggregateType → List Bytes → (indent : Nat) → Option (Bytes × List Bytes)
  | [], input, _ => return ([], input)
  | field :: rest, input, indent => do
      let (first, input) ← echo field.type input indent
      let (later, input) ← echoAll rest input indent
      return (tabs indent ++ field.name ++ text " = " ++ first ++ later, input)
end

variable {type : FieldType} {agg : AggregateType} {input rest : List Bytes} {shown : Bytes}
  {indent : Nat}

theorem echoAll_enters
    (each : ∀ field ∈ agg, ∀ input shown rest, echo field.type input indent = some (shown, rest) →
      ∃ value, enter floats field.type input = .ok (value, rest) ∧
        render floats field.type value indent = shown)
    (echoed : echoAll agg input indent = some (shown, rest)) :
    ∃ values, enterAll floats agg input = .ok (values, rest) ∧
      renderAll floats agg values indent = shown := by
  induction agg generalizing input shown with
  | nil =>
      cases echoed
      exact ⟨[], rfl, rfl⟩
  | cons field agg ih =>
      rw [echoAll] at echoed
      obtain ⟨⟨first, between⟩, here, echoed⟩ := Option.bind_eq_some_iff.mp echoed
      obtain ⟨⟨later, _⟩, there, done⟩ := Option.bind_eq_some_iff.mp echoed
      cases done
      obtain ⟨value, entered, rfl⟩ := each field List.mem_cons_self _ _ _ here
      obtain ⟨values, others, rfl⟩ :=
        ih (fun other member => each other (List.mem_cons_of_mem _ member)) there
      refine ⟨value :: values, ?_, rfl⟩
      rw [enterAll, entered, ok_bind]
      dsimp only
      rw [others]
      rfl

/-- Literal lines stand for values that are shown as the lines. -/
theorem echo_enters (echoed : echo type input indent = some (shown, rest)) :
    ∃ value, enter floats type input = .ok (value, rest) ∧
      render floats type value indent = shown := by
  induction type using FieldType.induct generalizing input shown rest indent with
  | primitive type =>
      cases input with
      | nil => cases echoed
      | cons line others =>
          rw [echo] at echoed
          split at echoed
          · rename_i literal
            cases echoed
            obtain ⟨bytes, read, printed⟩ := @echoes_of_isLiteral floats _ _ literal
            refine ⟨.primitive bytes, ?_, ?_⟩
            · rw [enter]
              change (do return (Value.primitive (← readPrimitive floats line type), _)) = _
              rw [read]
              rfl
            · rw [render, printed]
          · cases echoed
  | string capacity =>
      cases input with
      | nil => cases echoed
      | cons line others =>
          rw [echo] at echoed
          split at echoed
          · rename_i fits
            cases echoed
            refine ⟨.string line, ?_, rfl⟩
            rw [enter]
            change Except.ok (Value.string (line.take capacity), _) = _
            rw [List.take_of_length_le fits]
            rfl
          · cases echoed
  | aggregate agg ih =>
      rw [echo] at echoed
      obtain ⟨⟨inner, _⟩, fields, done⟩ := Option.bind_eq_some_iff.mp echoed
      cases done
      obtain ⟨values, entered, rfl⟩ := echoAll_enters
        (fun field member input shown rest echoed => ih field member echoed) fields
      refine ⟨.record values, ?_, rfl⟩
      rw [enter, entered]
      rfl

variable {bytes : Nat} {showPrompts : Bool} {console : Console} {values : List Value}

theorem readAggregate_stores {memory : Bytes} {dest : Nat}
    (sized : size (.aggregate agg) = .ok bytes)
    (encodable : FieldType.Encodable (.aggregate agg)) (small : (FieldType.aggregate agg).SmallGaps)
    (inside : dest + bytes ≤ memory.length)
    (entered : enterAll floats agg console.input = .ok (values, rest)) :
    ∃ memory' console', readAggregate floats showPrompts agg dest memory console =
        .ok (memory', console') ∧ console'.input = rest ∧
      Stored memory' (.aggregate agg) (.record values) dest := by
  have solid := noEmptyAggregate_of_size sized
  rw [size_eq solid] at sized
  cases sized
  have outcome := @readAggregate_enters floats showPrompts memory dest console agg solid encodable
    inside
  rw [Enters, enter, entered] at outcome
  obtain ⟨memory', console', read, left, _, stored⟩ := outcome
  exact ⟨memory', console', read, left, stored small⟩

/-- Reading a document takes a line for each leaf and writes only where the document
goes, or it ends with the exception that a number makes. -/
theorem readAggregate_confined (floats : FloatText) (showPrompts : Bool)
    (sized : size (.aggregate agg) = .ok bytes) (encodable : FieldType.Encodable (.aggregate agg))
    (memory : Bytes) (dest : Nat) (inside : dest + bytes ≤ memory.length) (console : Console) :
    (∃ exception, enterAll floats agg console.input = .error exception ∧
      readAggregate floats showPrompts agg dest memory console = .error (.thrown exception)) ∨
    ∃ memory' console', readAggregate floats showPrompts agg dest memory console =
        .ok (memory', console') ∧
      console'.input = console.input.drop (leavesAll agg) ∧
      OnlyWithin memory memory' dest bytes := by
  have solid := noEmptyAggregate_of_size sized
  rw [size_eq solid] at sized
  cases sized
  have outcome := @readAggregate_enters floats showPrompts memory dest console agg solid encodable
    inside
  rw [Enters, enter] at outcome
  cases entered : enterAll floats agg console.input with
  | error exception =>
      rw [entered] at outcome
      exact .inl ⟨exception, rfl, outcome⟩
  | ok result =>
      obtain ⟨values, rest⟩ := result
      rw [entered] at outcome
      obtain ⟨memory', console', read, left, within, _⟩ := outcome
      refine .inr ⟨memory', console', read, ?_, within⟩
      rw [left]
      exact enterAll_rest (fun _ _ _ _ _ => enter_rest) entered

/-- Floats as a program without them may treat them. -/
def noFloats : FloatText where
  read32 := fun _ => .error .invalidArgument
  read64 := fun _ => .error .invalidArgument
  print32 := fun _ => []
  print64 := fun _ => []

/-- An account under its id. -/
def account : AggregateType :=
  [⟨text "id", .primitive .uint64⟩, ⟨text "name", .string 3⟩,
    ⟨text "state", .aggregate [⟨text "balance", .primitive .int64⟩]⟩]

theorem account_encodable : FieldType.Encodable (.aggregate account) := by
  simp [account, FieldType.Encodable, EncodableFields, text]

theorem account_smallGaps : (FieldType.aggregate account).SmallGaps := by
  simp [account, FieldType.SmallGaps, SmallGapsInside, GapsAtMostHalf, shapes, alignOf, maxAlign,
    extent, roundUp, PrimitiveType.implSize, stringHeaderSize]

def accountLines : List Bytes := [text "17", text "ada", text "-250", text "get"]

theorem readAggregate_confined_account :
    (∃ exception, enterAll noFloats account accountLines = .error exception ∧
      readAggregate noFloats true account 8 (List.replicate 40 7) { input := accountLines } =
        .error (.thrown exception)) ∨
    ∃ memory' console',
      readAggregate noFloats true account 8 (List.replicate 40 7) { input := accountLines } =
        .ok (memory', console') ∧
      console'.input = accountLines.drop (leavesAll account) ∧
      OnlyWithin (List.replicate 40 7) memory' 8 24 :=
  readAggregate_confined noFloats true (by decide +kernel) account_encodable _ 8 (by decide)
    { input := accountLines }

/-- A document that has been read is shown with the values that its lines stand for. -/
theorem readAggregate_shown (floats : FloatText) (showPrompts : Bool)
    (sized : size (.aggregate agg) = .ok bytes) (encodable : FieldType.Encodable (.aggregate agg))
    (small : (FieldType.aggregate agg).SmallGaps) (console : Console)
    (entered : enterAll floats agg console.input = .ok (values, rest)) :
    ∃ memory console',
      readAggregate floats showPrompts agg 0 (List.replicate bytes 0) console =
        .ok (memory, console') ∧
      console'.input = rest ∧
      printAggregate floats memory agg 0 = .ok (renderAll floats agg values 0) := by
  have inside : 0 + bytes ≤ (List.replicate bytes 0 : Bytes).length := by simp
  obtain ⟨memory, console', read, left, stored⟩ :=
    readAggregate_stores sized encodable small inside entered
  exact ⟨memory, console', read, left, stored.printAggregate (noEmptyAggregate_of_size sized)⟩

/-- A name that is too long and a negative number for an unsigned one. -/
theorem readAggregate_shown_account :
    ∃ memory console', readAggregate noFloats false account 0 (List.replicate 24 0)
        { input := [text "-1", text "lovelace", text " +5 euros"] } = .ok (memory, console') ∧
      console'.input = [] ∧ printAggregate noFloats memory account 0 =
        .ok (renderAll noFloats account [.primitive (List.replicate 8 255), .string (text "lov"),
          .record [.primitive [5, 0, 0, 0, 0, 0, 0, 0]]] 0) :=
  readAggregate_shown noFloats false (by decide +kernel) account_encodable account_smallGaps
    { input := [text "-1", text "lovelace", text " +5 euros"] } rfl

/-- Strings that fit and the texts of numbers are shown as they were typed. -/
theorem readAggregate_echoes (floats : FloatText) (showPrompts : Bool)
    (sized : size (.aggregate agg) = .ok bytes) (encodable : FieldType.Encodable (.aggregate agg))
    (small : (FieldType.aggregate agg).SmallGaps) (console : Console)
    (echoed : echoAll agg console.input 0 = some (shown, rest)) :
    ∃ memory console',
      readAggregate floats showPrompts agg 0 (List.replicate bytes 0) console =
        .ok (memory, console') ∧
      console'.input = rest ∧ printAggregate floats memory agg 0 = .ok shown := by
  obtain ⟨values, entered, rendered⟩ :=
    echoAll_enters (fun _ _ _ _ _ => echo_enters) echoed
  have inside : 0 + bytes ≤ (List.replicate bytes 0 : Bytes).length := by simp
  obtain ⟨memory, console', read, left, stored⟩ :=
    readAggregate_stores sized encodable small inside entered
  refine ⟨memory, console', read, left, ?_⟩
  rw [stored.printAggregate (noEmptyAggregate_of_size sized), rendered]

theorem readAggregate_echoes_account :
    ∃ memory console', readAggregate noFloats true account 0 (List.replicate 24 0)
        { input := accountLines } = .ok (memory, console') ∧
      console'.input = [text "get"] ∧ printAggregate noFloats memory account 0 =
        .ok (text "id = 17\nname = \"ada\"\nstate = \n\tbalance = -250\n") :=
  readAggregate_echoes noFloats true (by decide +kernel) account_encodable account_smallGaps
    { input := accountLines } (by decide +kernel)

end Boutique.Cli
