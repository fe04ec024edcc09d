import Boutique.Cli.Documents
import Boutique.Db.Leaves
import Boutique.Protocol.AggregateCodec

namespace Boutique.Cli

open Boutique.Core Boutique.Data Boutique.Db Boutique.Protocol

/-! # What documents mean

The values that lines of input stand for, without any memory. -/

inductive Value where
  | primitive (bytes : Bytes)
  | string (s : Bytes)
  | record (values : List Value)

section

variable (floats : FloatText)

mutual
/-- The value that the first lines stand for, and the other lines. -/
def enter : FieldType → List Bytes → Except Exception (Value × List Bytes)
  | .string capacity, input => return (.string ((input.headD []).take capacity), input.tail)
  | .aggregate agg, input => do
      let (values, input) ← enterAll agg input
      return (.record values, input)
  | .primitive type, input =>
      return (.primitive (← readPrimitive floats (input.headD []) type), input.tail)

def enterAll : AggregateType → List Bytes → Except Exception (List Value × List Bytes)
  | [], input => return ([], input)
  | field :: rest, input => do
      let (value, input) ← enter field.type input
      let (values, input) ← enterAll rest input
      return (value :: values, input)
end

mutual
/-- How many lines a value takes. -/
def leaves : FieldType → Nat
  | .primitive _ | .string _ => 1
  | .aggregate agg => leavesAll agg

def leavesAll : AggregateType → Nat
  | [] => 0
  | field :: rest => leaves field.type + leavesAll rest
end

mutual
def render : FieldType → Value → (indent : Nat) → Bytes
  | .string _, .string s, _ => text "\"" ++ s ++ text "\"\n"
  | .aggregate agg, .record values, indent => text "\n" ++ renderAll agg values (indent + 1)
  | .primitive type, .primitive bytes, _ => printPrimitive floats bytes type ++ text "\n"
  | _, _, _ => []

def renderAll : AggregateType → List Value → (indent : Nat) → Bytes
  | field :: rest, value :: values, indent =>
      tabs indent ++ field.name ++ text " = " ++ render field.type value indent ++
        renderAll rest values indent
  | _, _, _ => []
end

end

/-! ## Values in memory -/

/-- The memory has the value from `start` on. -/
inductive Stored (memory : Bytes) : FieldType → Value → (start : Nat) → Prop where
  | primitive {type bytes start} (inside : start + type.implSize ≤ memory.length)
      (content : slice memory start type.implSize = bytes) :
      Stored memory (.primitive type) (.primitive bytes) start
  | string {capacity s start} (fits : s.length ≤ capacity) (short : capacity < 256 ^ 4)
      (inside : start + stringHeaderSize + capacity ≤ memory.length)
      (content : slice memory start (stringHeaderSize + s.length) = writeLengthPrefixedString s) :
      Stored memory (.string capacity) (.string s) start
  | record {agg values start} (length : values.length = agg.length)
      (each : ∀ index field value, agg[index]? = some field → values[index]? = some value →
        Stored memory field.type value (start + fieldStart pad (shapes pad agg) index 0)) :
      Stored memory (.aggregate agg) (.record values) start

/-- Nothing outside of the `len` bytes from `start` on differs. -/
structure OnlyWithin (memory memory' : Bytes) (start len : Nat) : Prop where
  length : memory'.length = memory.length
  outside : ∀ other size, other + size ≤ start ∨ start + len ≤ other →
    slice memory' other size = slice memory other size

variable {floats : FloatText} {showPrompts : Bool} {memory memory' memory'' : Bytes}
  {type : FieldType} {value : Value} {start len indent dest : Nat} {console : Console}
  {agg : AggregateType}

theorem OnlyWithin.refl (memory : Bytes) (start len : Nat) : OnlyWithin memory memory start len :=
  ⟨rfl, fun _ _ _ => rfl⟩

theorem OnlyWithin.trans (first : OnlyWithin memory memory' start len)
    (second : OnlyWithin memory' memory'' start len) : OnlyWithin memory memory'' start len where
  length := second.length.trans first.length
  outside := fun other size apart =>
    (second.outside other size apart).trans (first.outside other size apart)

theorem OnlyWithin.widen {inner innerLen : Nat} (within : OnlyWithin memory memory' inner innerLen)
    (low : start ≤ inner) (high : inner + innerLen ≤ start + len) :
    OnlyWithin memory memory' start len where
  length := within.length
  outside := fun other size apart => within.outside other size (by omega)

theorem onlyWithin_overwrite {data : Bytes} (inside : start + data.length ≤ memory.length)
    (fits : data.length ≤ len) : OnlyWithin memory (overwrite memory start data) start len where
  length := overwrite_length inside
  outside := fun other size apart => slice_overwrite_apart inside (by omega)

theorem enterAll_rest
    (each : ∀ field ∈ agg, ∀ input value rest, enter floats field.type input = .ok (value, rest) →
      rest = input.drop (leaves field.type))
    {input rest : List Bytes} {values : List Value}
    (entered : enterAll floats agg input = .ok (values, rest)) :
    rest = input.drop (leavesAll agg) := by
  induction agg generalizing input values with
  | nil =>
      cases entered
      rfl
  | cons field agg ih =>
      rw [enterAll] at entered
      obtain ⟨⟨value, between⟩, here, entered⟩ := bind_ok_iff.mp entered
      obtain ⟨⟨others, _⟩, there, done⟩ := bind_ok_iff.mp entered
      cases done
      have first := each field List.mem_cons_self _ _ _ here
      have second := ih (fun other member => each other (List.mem_cons_of_mem _ member)) there
      rw [second, first, List.drop_drop, leavesAll]

theorem enter_rest {input rest : List Bytes}
    (entered : enter floats type input = .ok (value, rest)) :
    rest = input.drop (leaves type) := by
  induction type using FieldType.induct generalizing input value rest with
  | primitive type =>
      rw [enter] at entered
      obtain ⟨_, _, done⟩ := bind_ok_iff.mp entered
      cases done
      exact List.drop_one.symm
  | string capacity =>
      cases entered
      exact List.drop_one.symm
  | aggregate agg ih =>
      rw [enter] at entered
      obtain ⟨⟨values, _⟩, fields, done⟩ := bind_ok_iff.mp entered
      cases done
      rw [leaves]
      exact enterAll_rest (fun field member _ _ _ entered => ih field member entered) fields

/-- The value of one of the fields, by the lines in front of it. -/
theorem enterAll_getElem {input rest : List Bytes} {values : List Value} {index : Nat}
    {field : Field} (entered : enterAll floats agg input = .ok (values, rest))
    (selected : agg[index]? = some field) :
    ∃ value behind, values[index]? = some value ∧
      enter floats field.type (input.drop (leavesAll (agg.take index))) = .ok (value, behind) := by
  induction agg generalizing input values index with
  | nil => cases selected
  | cons first agg ih =>
      rw [enterAll] at entered
      obtain ⟨⟨value, between⟩, here, entered⟩ := bind_ok_iff.mp entered
      obtain ⟨⟨others, _⟩, there, done⟩ := bind_ok_iff.mp entered
      cases done
      cases index with
      | zero =>
          cases selected
          exact ⟨value, between, rfl, here⟩
      | succ index =>
          obtain ⟨found, behind, isThere, alone⟩ := ih there selected
          rw [enter_rest here, List.drop_drop] at alone
          exact ⟨found, behind, isThere, alone⟩

/-- The value of a leaf is that of the first line. -/
theorem enter_leaf {input other rest : List Bytes} (leaf : type.isLeaf = true)
    (entered : enter floats type input = .ok (value, rest))
    (same : other.headD [] = input.headD []) :
    enter floats type other = .ok (value, other.tail) := by
  cases type with
  | primitive type =>
      rw [enter] at entered ⊢
      obtain ⟨bytes, read, done⟩ := bind_ok_iff.mp entered
      cases done
      rw [same, read]
      rfl
  | string capacity =>
      cases entered
      rw [enter, same]
      rfl
  | aggregate => cases leaf

/-- What is stored elsewhere stays so. -/
theorem Stored.of_onlyWithin {other : Nat} (solid : type.NoEmptyAggregate)
    (stored : Stored memory type value other) (within : OnlyWithin memory memory' start len)
    (apart : other + extent pad type ≤ start ∨ start + len ≤ other) :
    Stored memory' type value other := by
  induction type using FieldType.induct generalizing value other with
  | primitive type =>
      cases stored with
      | primitive inside content =>
          rw [extent] at apart
          rw [← within.length] at inside
          exact .primitive inside ((within.outside _ _ apart).trans content)
  | string capacity =>
      cases stored with
      | @string _ s _ fits short inside content =>
          rw [extent] at apart
          rw [← within.length] at inside
          have same := within.outside other (stringHeaderSize + s.length) (by omega)
          exact .string fits short inside (same.trans content)
  | aggregate agg ih =>
      cases stored with
      | record length each =>
          refine .record length fun index field value selected found => ?_
          have member := List.mem_of_getElem? selected
          have fieldEnd : fieldStart pad (shapes pad agg) index 0 + extent pad field.type ≤ _ :=
            fieldStart_add_size_le_recordEnd (endsAdvance solid.2) (shapes_getElem? pad selected)
          rw [extent] at apart
          exact ih field member (noEmptyAggregates_iff.mp solid.2 field member)
            (each index field value selected found) (by omega)

/-! ## Reading stores what is entered -/

@[simp] theorem promptFor_input (showPrompts : Bool) (name : Bytes) (indent : Nat)
    (console : Console) : (promptFor showPrompts name indent console).input = console.input := by
  cases showPrompts <;> rfl

theorem getline_nil (console : Console) :
    ∃ after, console.getline [] = (console.input.headD [], after) ∧
      after.input = console.input.tail := by
  rw [Console.getline]
  cases console.input with
  | nil => exact ⟨_, by rw [ite_self]; rfl, rfl⟩
  | cons line rest => exact ⟨_, rfl, rfl⟩

theorem trim_spec (capacity : Nat) (value : Bytes) (console : Console) :
    (trim capacity value console).1 = value.take capacity ∧
      (trim capacity value console).2.input = console.input := by
  rw [trim]
  split
  · exact ⟨rfl, rfl⟩
  · rename_i short
    exact ⟨(List.take_of_length_le (Nat.le_of_not_lt short)).symm, rfl⟩

theorem readPrimitive_length {line bytes : Bytes} {type : PrimitiveType}
    (read : readPrimitive floats line type = .ok bytes) : bytes.length = type.implSize := by
  cases type with
  | bool =>
      cases read
      exact write_length _ _
  | uint8 | uint16 | uint32 | uint64 | int8 | int16 | int32 | int64 | float32 | float64 =>
      obtain ⟨_, _, done⟩ := bind_ok_iff.mp read
      cases done
      exact write_length _ _

/-- The outcome is the value that the lines stand for, in its place, or the
exception they make. -/
def Enters (floats : FloatText) (type : FieldType) (memory : Bytes) (dest : Nat) (console : Console)
    (outcome : Except Exit (Bytes × Console)) : Prop :=
  match enter floats type console.input with
  | .error exception => outcome = .error (.thrown exception)
  | .ok (value, rest) => ∃ memory' console', outcome = .ok (memory', console') ∧
      console'.input = rest ∧ OnlyWithin memory memory' dest (extent pad type) ∧
      (type.SmallGaps → Stored memory' type value dest)

@[simp] theorem faulty_ok {α : Type} (a : α) : faulty (.ok a) = .ok a := rfl

theorem write_faulty {data : Bytes} (inside : dest + data.length ≤ memory.length) :
    faulty (writeBytes .argument memory dest data) = .ok (overwrite memory dest data) := by
  rw [writeBytes_eq inside]
  rfl

theorem readField_string (name : Bytes) {capacity : Nat} (short : capacity < 256 ^ 4)
    (inside : dest + extent pad (.string capacity) ≤ memory.length) :
    Enters floats (.string capacity) memory dest console
      (readField floats showPrompts name (.string capacity) dest indent memory console) := by
  rw [extent] at inside
  obtain ⟨prompted, got, left⟩ := getline_nil (promptFor showPrompts name indent console)
  rw [promptFor_input] at got left
  rw [readField, Enters, enter, got]
  dsimp only
  obtain ⟨trimmed, rest⟩ := trim_spec capacity (console.input.headD []) prompted
  rw [trimmed]
  generalize value_eq : (console.input.headD []).take capacity = value
  have fits : value.length ≤ capacity := by
    rw [← value_eq]
    exact List.length_take_le _ _
  have length := writeLengthPrefixedString_length value
  have room : dest + (writeLengthPrefixedString value).length ≤ memory.length := by
    rw [length]
    exact Nat.le_trans (Nat.add_le_add_left (Nat.add_le_add_left fits 4) dest) inside
  refine ⟨overwrite memory dest (writeLengthPrefixedString value),
    (trim capacity (console.input.headD []) prompted).2, ?_, ?_, ?_, fun _ => ?_⟩
  · rw [write_faulty room]
    rfl
  · rw [rest, left]
  · apply onlyWithin_overwrite room
    rw [extent, length]
    exact Nat.add_le_add_left fits 4
  · refine .string fits short ?_ ?_
    · rw [overwrite_length room, Nat.add_assoc]
      exact inside
    · have whole := slice_overwrite_self room
      rwa [length] at whole

theorem readField_primitive (name : Bytes) (type : PrimitiveType)
    (inside : dest + extent pad (.primitive type) ≤ memory.length) :
    Enters floats (.primitive type) memory dest console
      (readField floats showPrompts name (.primitive type) dest indent memory console) := by
  rw [extent] at inside
  obtain ⟨prompted, got, left⟩ := getline_nil (promptFor showPrompts name indent console)
  rw [promptFor_input] at got left
  rw [readField, Enters, enter, got]
  dsimp only
  cases read : readPrimitive floats (console.input.headD []) type with
  | error exception => rfl
  | ok bytes =>
      have length := readPrimitive_length read
      rw [← length] at inside
      refine ⟨overwrite memory dest bytes, prompted, ?_, left, ?_, fun _ => ?_⟩
      · change (do return (← faulty (writeBytes .argument memory dest bytes), _)) = _
        rw [write_faulty inside]
        rfl
      · apply onlyWithin_overwrite inside
        rw [extent, length]
      · refine .primitive ?_ ?_
        · rw [overwrite_length inside, ← length]
          exact inside
        · rw [← length]
          exact slice_overwrite_self inside

/-- The first fields have the values. -/
def FieldsStored (memory : Bytes) (agg : AggregateType) (values : List Value) (dest : Nat) : Prop :=
  ∀ index field value, agg[index]? = some field → values[index]? = some value →
    Stored memory field.type value (dest + fieldStart pad (shapes pad agg) index 0)

theorem FieldsStored.snoc {index : Nat} {field : Field} {values : List Value}
    (solid : (FieldType.aggregate agg).NoEmptyAggregate)
    (small : (FieldType.aggregate agg).SmallGaps) (count : values.length = index)
    (selected : agg[index]? = some field) (stored : FieldsStored memory agg values dest)
    (within : OnlyWithin memory memory' (dest + fieldStart pad (shapes pad agg) index 0)
      (extent pad field.type))
    (new : Stored memory' field.type value (dest + fieldStart pad (shapes pad agg) index 0)) :
    FieldsStored memory' agg (values ++ [value]) dest := by
  intro other otherField otherValue otherSelected found
  have bound := (List.getElem?_eq_some_iff.mp found).1
  rw [List.length_append, List.length_singleton, count] at bound
  by_cases same : other = index
  · subst same
    obtain rfl := Option.some.inj (otherSelected.symm.trans selected)
    rw [List.getElem?_append_right (Nat.le_of_eq count), count, Nat.sub_self] at found
    cases found
    exact new
  · have before : other < index := by omega
    rw [List.getElem?_append_left (count ▸ before)] at found
    have order := (small.forward solid).ordered (shapes_getElem? pad otherSelected) before (by
      rw [shapes_eq_map, List.length_map]
      exact (List.getElem?_eq_some_iff.mp selected).1)
    have otherSolid :=
      noEmptyAggregates_iff.mp solid.2 otherField (List.mem_of_getElem? otherSelected)
    refine (stored other otherField otherValue otherSelected found).of_onlyWithin otherSolid
      within ?_
    left
    dsimp only at order
    omega

theorem readFields_enters (solid : (FieldType.aggregate agg).NoEmptyAggregate)
    (each : ∀ field ∈ agg, ∀ memory dest indent console,
      dest + extent pad field.type ≤ memory.length → Enters floats field.type memory dest console
        (readField floats showPrompts field.name field.type dest indent memory console))
    (inside : dest + extent pad (.aggregate agg) ≤ memory.length) {rest : AggregateType}
    {index : Nat} (left : agg.drop index = rest) {values : List Value}
    (count : values.length = index)
    (stored : (FieldType.aggregate agg).SmallGaps → FieldsStored memory agg values dest) :
    match enterAll floats rest console.input with
    | .error exception =>
        readFields floats showPrompts agg rest index dest indent memory console =
          .error (.thrown exception)
    | .ok (more, input) => ∃ memory' console',
        readFields floats showPrompts agg rest index dest indent memory console =
          .ok (memory', console') ∧ console'.input = input ∧
        OnlyWithin memory memory' dest (extent pad (.aggregate agg)) ∧
        more.length = rest.length ∧
        ((FieldType.aggregate agg).SmallGaps → FieldsStored memory' agg (values ++ more) dest) := by
  induction rest generalizing index values memory console with
  | nil =>
      refine ⟨memory, console, rfl, rfl, .refl _ _ _, rfl, ?_⟩
      rw [List.append_nil]
      exact stored
  | cons field rest ih =>
      have selected : agg[index]? = some field := by
        rw [← List.head?_drop, left]
        rfl
      have later : agg.drop (index + 1) = rest := by
        rw [← List.tail_drop, left]
        rfl
      have isIn := (List.getElem?_eq_some_iff.mp selected).1
      have member := List.mem_of_getElem? selected
      have fieldEnd : fieldStart pad (shapes pad agg) index 0 + extent pad field.type ≤ _ :=
        fieldStart_add_size_le_recordEnd (endsAdvance solid.2) (shapes_getElem? pad selected)
      have ending : extent pad (.aggregate agg) = recordEnd pad (shapes pad agg) 0 := by rw [extent]
      have entered := each field member memory (dest + fieldStart pad (shapes pad agg) index 0)
        indent console (by omega)
      rw [Enters] at entered
      rw [readFields, offset_eq solid.2 isIn, enterAll]
      cases first : enter floats field.type console.input with
      | error exception =>
          rw [first] at entered
          dsimp only at entered
          rw [error_bind, faulty_ok, ok_bind, entered]
          rfl
      | ok result =>
          obtain ⟨value, input⟩ := result
          rw [first] at entered
          obtain ⟨between, console', run, rfl, within, new⟩ := entered
          rw [ok_bind, faulty_ok, ok_bind, run, ok_bind]
          dsimp only
          have small : (FieldType.aggregate agg).SmallGaps → field.type.SmallGaps :=
            fun outer => smallGapsInside_iff.mp outer.2 field member
          have stillInside : dest + extent pad (.aggregate agg) ≤ between.length := by
            rw [within.length]
            exact inside
          have counted : (values ++ [value]).length = index + 1 := by
            rw [List.length_append, count]
            rfl
          have rests := @ih between console' stillInside (index + 1) later (values ++ [value])
            counted fun outer =>
              (stored outer).snoc solid outer count selected within (new (small outer))
          cases others : enterAll floats rest console'.input with
          | error exception =>
              rw [others] at rests
              exact rests
          | ok result =>
              obtain ⟨more, input⟩ := result
              rw [others] at rests
              obtain ⟨memory', console'', ran, rfl, within', length, all⟩ := rests
              refine ⟨memory', console'', ran, rfl, ?_, ?_, ?_⟩
              · exact (within.widen (Nat.le_add_right _ _) (by omega)).trans within'
              · rw [List.length_cons, List.length_cons, length]
              · rwa [List.append_assoc] at all

theorem readFields_record (solid : (FieldType.aggregate agg).NoEmptyAggregate)
    (each : ∀ field ∈ agg, ∀ memory dest indent console,
      dest + extent pad field.type ≤ memory.length → Enters floats field.type memory dest console
        (readField floats showPrompts field.name field.type dest indent memory console))
    (inside : dest + extent pad (.aggregate agg) ≤ memory.length) :
    Enters floats (.aggregate agg) memory dest console
      (readFields floats showPrompts agg agg 0 dest indent memory console) := by
  have none : (FieldType.aggregate agg).SmallGaps → FieldsStored memory agg [] dest := by
    intro _ index field value _ found
    cases found
  have looped := @readFields_enters floats showPrompts memory indent dest console agg
    solid each inside agg 0 List.drop_zero [] rfl none
  rw [Enters, enter]
  cases entered : enterAll floats agg console.input with
  | error exception =>
      rw [entered] at looped
      exact looped
  | ok result =>
      obtain ⟨values, rest⟩ := result
      rw [entered] at looped
      obtain ⟨memory', console', ran, left, within, length, stored⟩ := looped
      exact ⟨memory', console', ran, left, within, fun small => .record length (stored small)⟩

theorem encodableFields_iff : EncodableFields agg ↔
    ∀ field ∈ agg, field.name.length < 256 ^ 4 ∧ FieldType.Encodable field.type := by
  induction agg with
  | nil => simp [EncodableFields]
  | cons field rest ih => simp [EncodableFields, ih]

theorem readField_enters (name : Bytes) (solid : type.NoEmptyAggregate)
    (encodable : FieldType.Encodable type) (inside : dest + extent pad type ≤ memory.length) :
    Enters floats type memory dest console
      (readField floats showPrompts name type dest indent memory console) := by
  induction type using FieldType.induct generalizing name dest indent memory console with
  | primitive type => exact readField_primitive name type inside
  | string capacity => exact readField_string name encodable inside
  | aggregate agg ih =>
      have each : ∀ field ∈ agg, ∀ memory dest indent console,
          dest + extent pad field.type ≤ memory.length →
            Enters floats field.type memory dest console
              (readField floats showPrompts field.name field.type dest indent memory console) := by
        intro field member memory dest indent console inside
        exact ih field member field.name (noEmptyAggregates_iff.mp solid.2 field member)
          (encodableFields_iff.mp encodable.2 field member).2 inside
      rw [readField]
      generalize prompted_eq : (if showPrompts = true then
        (promptFor showPrompts name indent console).print (text "\n")
        else promptFor showPrompts name indent console) = prompted
      have input : prompted.input = console.input := by
        rw [← prompted_eq]
        cases showPrompts <;> rfl
      have looped := @readFields_record floats showPrompts memory (indent + 1) dest prompted agg
        solid each inside
      rw [Enters, input] at looped
      exact looped

theorem readAggregate_enters (solid : (FieldType.aggregate agg).NoEmptyAggregate)
    (encodable : FieldType.Encodable (.aggregate agg))
    (inside : dest + extent pad (.aggregate agg) ≤ memory.length) :
    Enters floats (.aggregate agg) memory dest console
      (readAggregate floats showPrompts agg dest memory console) :=
  readFields_record solid (fun field member _ _ _ _ => readField_enters field.name
    (noEmptyAggregates_iff.mp solid.2 field member)
    (encodableFields_iff.mp encodable.2 field member).2) inside

/-! ## Printing shows what is stored -/

theorem printFields_eq {data : Nat} {values more : List Value} {rest : AggregateType} {index : Nat}
    (solid : (FieldType.aggregate agg).NoEmptyAggregate)
    (each : ∀ index field value, agg[index]? = some field → values[index]? = some value →
      printValue floats memory field.type (data + fieldStart pad (shapes pad agg) index 0) indent =
        .ok (render floats field.type value indent))
    (left : agg.drop index = rest) (right : values.drop index = more)
    (length : more.length = rest.length) :
    printFields floats memory agg rest index data indent =
      .ok (renderAll floats rest more indent) := by
  induction rest generalizing index more with
  | nil =>
      cases List.length_eq_zero_iff.mp length
      rfl
  | cons field rest ih =>
      obtain ⟨value, more, rfl⟩ := List.exists_cons_of_length_eq_add_one length
      have selected : agg[index]? = some field := by
        rw [← List.head?_drop, left]
        rfl
      have found : values[index]? = some value := by
        rw [← List.head?_drop, right]
        rfl
      have later : agg.drop (index + 1) = rest := by
        rw [← List.tail_drop, left]
        rfl
      have laterValues : values.drop (index + 1) = more := by
        rw [← List.tail_drop, right]
        rfl
      rw [printFields, offset_eq solid.2 (List.getElem?_eq_some_iff.mp selected).1, ok_bind,
        each index field value selected found, ok_bind,
        ih later laterValues (Nat.succ.inj length), renderAll]
      rfl

/-- A length-prefixed string in memory, piece by piece. -/
theorem prefixed_content {s : Bytes}
    (content : slice memory start (stringHeaderSize + s.length) = writeLengthPrefixedString s) :
    slice memory start stringHeaderSize = write 4 s.length ∧
      slice memory (start + stringHeaderSize) s.length = s := by
  have header : slice (slice memory start (stringHeaderSize + s.length)) 0 stringHeaderSize =
      slice memory (start + 0) stringHeaderSize := slice_slice (by omega)
  have payload : slice (slice memory start (stringHeaderSize + s.length)) stringHeaderSize
      s.length = slice memory (start + stringHeaderSize) s.length := slice_slice (Nat.le_refl _)
  have split : (write 4 s.length).length = stringHeaderSize := write_length _ _
  rw [content, writeLengthPrefixedString, slice] at header payload
  rw [List.drop_zero, List.take_left' split, Nat.add_zero] at header
  rw [List.drop_left' split, List.take_length] at payload
  exact ⟨header.symm, payload.symm⟩

theorem Stored.print (solid : type.NoEmptyAggregate)
    (stored : Stored memory type value start) (indent : Nat) :
    printValue floats memory type start indent = .ok (render floats type value indent) := by
  induction type using FieldType.induct generalizing value start indent with
  | primitive type =>
      cases stored with
      | primitive inside content =>
          rw [printValue, readBytes_eq inside, content]
          rfl
  | string capacity =>
      cases stored with
      | @string _ s _ fits short inside content =>
          have room : start + (stringHeaderSize + s.length) ≤ memory.length := by omega
          have length : leValue (write 4 s.length) = s.length :=
            leValue_leBytes (Nat.lt_of_le_of_lt fits short)
          obtain ⟨header, payload⟩ := prefixed_content content
          rw [printValue, readBytes_eq (by omega), ok_bind, header, length, readBytes_eq (by omega),
            ok_bind, payload]
          rfl
  | aggregate agg ih =>
      cases stored with
      | @record _ values _ length each =>
          have shown : printFields floats memory agg agg 0 start (indent + 1) =
              .ok (renderAll floats agg values (indent + 1)) :=
            printFields_eq solid (fun index field value selected found =>
              ih field (List.mem_of_getElem? selected)
                (noEmptyAggregates_iff.mp solid.2 field (List.mem_of_getElem? selected))
                (each index field value selected found) (indent + 1))
              List.drop_zero List.drop_zero length
          rw [printValue, shown]
          rfl

theorem Stored.printAggregate {values : List Value}
    (solid : (FieldType.aggregate agg).NoEmptyAggregate)
    (stored : Stored memory (.aggregate agg) (.record values) start) :
    printAggregate floats memory agg start = .ok (renderAll floats agg values 0) := by
  cases stored with
  | record length each =>
      refine printFields_eq solid (fun index field value selected found => ?_) List.drop_zero
        List.drop_zero length
      have member := List.mem_of_getElem? selected
      exact (each index field value selected found).print
        (noEmptyAggregates_iff.mp solid.2 field member) 0

end Boutique.Cli
