import Boutique.Core.Memory
import Boutique.Core.Serialize
import Boutique.Data.Decimal
import Boutique.Db.Schema

namespace Boutique.Cli

open Boutique.Core Boutique.Data Boutique.Db

/-! # Documents on the console -/

def text (s : String) : Bytes := s.toList.map fun c => UInt8.ofNat c.toNat

/-- `std::cin` as the lines that are left of it, whether the last one ends in a
newline and whether the end of the input has not been met yet, and what has been
written to `std::cout` and `std::cerr`. -/
structure Console where
  input : List Bytes
  terminated : Bool := true
  good : Bool := true
  out : Bytes := []
  err : Bytes := []
deriving DecidableEq

namespace Console

/-- `std::getline`, which clears `str` first unless the end has been met before. -/
def getline (console : Console) (str : Bytes) : Bytes × Console :=
  match console.input with
  | [] => (if console.good then [] else str, { console with good := false })
  | line :: rest =>
      (line, { console with input := rest, good := console.terminated || !rest.isEmpty })

def print (console : Console) (s : Bytes) : Console := { console with out := console.out ++ s }

def printErr (console : Console) (s : Bytes) : Console := { console with err := console.err ++ s }

end Console

/-! ## Numbers -/

/-- `std::invalid_argument` and `std::out_of_range`. -/
inductive Exception where
  | invalidArgument
  | outOfRange
deriving DecidableEq, Repr

/-- `std::isspace` in the C locale. -/
def isSpace (c : UInt8) : Bool := c = 32 || (9 ≤ c && c ≤ 13)

/-- What `strtoull` and `strtoll` take from a text in base 10: whether there is a
minus sign, and the digits. What stands behind them is not looked at. -/
def numeral (value : Bytes) : Bool × Bytes :=
  match value.dropWhile isSpace with
  | 45 :: rest => (true, rest.takeWhile isDigit)
  | 43 :: rest => (false, rest.takeWhile isDigit)
  | rest => (false, rest.takeWhile isDigit)

/-- `std::stoull`, which negates modulo `2 ^ 64`. -/
def stoull (value : Bytes) : Except Exception Nat :=
  let (negative, digits) := numeral value
  if digits = [] then .error .invalidArgument
  else if 2 ^ 64 ≤ digitsValue digits then .error .outOfRange
  else if negative then .ok ((2 ^ 64 - digitsValue digits) % 2 ^ 64)
  else .ok (digitsValue digits)

def stoll (value : Bytes) : Except Exception Int :=
  let (negative, digits) := numeral value
  if digits = [] then .error .invalidArgument
  else if negative then
    if 2 ^ 63 < digitsValue digits then .error .outOfRange
    else .ok (-(digitsValue digits))
  else if 2 ^ 63 ≤ digitsValue digits then .error .outOfRange
  else .ok (digitsValue digits)

/-- How floats, by their bits, are read (`std::stod` and the cast to the type) and
printed, which the program's text does not determine. -/
structure FloatText where
  read32 : Bytes → Except Exception UInt32
  read64 : Bytes → Except Exception UInt64
  print32 : UInt32 → Bytes
  print64 : UInt64 → Bytes

/-- The bytes that `read_field` writes for a line of input. `static_cast` to a
narrower type keeps the low bytes. -/
def readPrimitive (floats : FloatText) (value : Bytes) : PrimitiveType → Except Exception Bytes
  | .bool => .ok (write 1 (if value = text "true" then 1 else 0))
  | .float32 => return write 4 (← floats.read32 value).toNat
  | .float64 => return write 8 (← floats.read64 value).toNat
  | .uint8 => return write 1 (← stoull value)
  | .uint16 => return write 2 (← stoull value)
  | .uint32 => return write 4 (← stoull value)
  | .uint64 => return write 8 (← stoull value)
  | .int8 => return write 1 ((← stoll value) % 2 ^ 64).toNat
  | .int16 => return write 2 ((← stoll value) % 2 ^ 64).toNat
  | .int32 => return write 4 ((← stoll value) % 2 ^ 64).toNat
  | .int64 => return write 8 ((← stoll value) % 2 ^ 64).toNat

/-- `std::cout <<` a signed integer. -/
def printSigned (bytes : Bytes) : Bytes :=
  if leValue bytes < 2 ^ (8 * bytes.length - 1) then decimal (leValue bytes)
  else 45 :: decimal (2 ^ (8 * bytes.length) - leValue bytes)

/-- `std::cout <<` the value in `bytes`; `std::uint8_t` and `std::int8_t` are
character types. -/
def printPrimitive (floats : FloatText) (bytes : Bytes) : PrimitiveType → Bytes
  | .uint8 | .int8 => bytes
  | .bool | .uint16 | .uint32 | .uint64 => decimal (leValue bytes)
  | .int16 | .int32 | .int64 => printSigned bytes
  | .float32 => floats.print32 (UInt32.ofNat (leValue bytes))
  | .float64 => floats.print64 (UInt64.ofNat (leValue bytes))

/-! ## Reading -/

/-- How the program ends before its time: by an exception, in a fault, or because
there is something left in the stream at the prompt. -/
inductive Exit where
  | thrown (exception : Exception)
  | fault (fault : Fault)
  | unread
deriving DecidableEq, Repr

def thrown {α : Type} : Except Exception α → Except Exit α := Except.mapError .thrown

def faulty {α : Type} : Except Fault α → Except Exit α := Except.mapError .fault

def tabs (indent : Nat) : Bytes := List.replicate indent 9

section

variable (floats : FloatText) (showPrompts : Bool)

def promptFor (name : Bytes) (indent : Nat) (console : Console) : Console :=
  if showPrompts then console.print (tabs indent ++ text "value for " ++ name ++ text " > ")
  else console

/-- A string that is too long is trimmed. -/
def trim (capacity : Nat) (value : Bytes) (console : Console) : Bytes × Console :=
  if capacity < value.length then
    (value.take capacity, console.printErr (text "String too long to fit in type, trimming to " ++
      decimal capacity ++ text " bytes.\n"))
  else
    (value, console)

mutual
/-- `read_field` of a field with a name and a type, into the memory from `dest` on. -/
def readField (name : Bytes) : FieldType → (dest indent : Nat) → (memory : Bytes) → Console →
    Except Exit (Bytes × Console)
  | .string capacity, dest, indent, memory, console => do
      let (value, console) := (promptFor showPrompts name indent console).getline []
      let (value, console) := trim capacity value console
      let memory ← faulty (writeBytes .argument memory dest (writeLengthPrefixedString value))
      return (memory, console)
  | .aggregate agg, dest, indent, memory, console =>
      let console := promptFor showPrompts name indent console
      let console := if showPrompts then console.print (text "\n") else console
      readFields agg agg 0 dest (indent + 1) memory console
  | .primitive type, dest, indent, memory, console => do
      let (value, console) := (promptFor showPrompts name indent console).getline []
      let bytes ← thrown (readPrimitive floats value type)
      return (← faulty (writeBytes .argument memory dest bytes), console)

/-- The loop of `read_aggregate` over `agg`, where the fields from `fieldIndex` on
are left. -/
def readFields (agg : AggregateType) : AggregateType → (fieldIndex dest indent : Nat) →
    (memory : Bytes) → Console → Except Exit (Bytes × Console)
  | [], _, _, _, memory, console => return (memory, console)
  | field :: rest, fieldIndex, dest, indent, memory, console => do
      let o ← faulty (offset agg fieldIndex)
      let (memory, console) ← readField field.name field.type (dest + o) indent memory console
      readFields agg rest (fieldIndex + 1) dest indent memory console
end

def readAggregate (agg : AggregateType) (dest : Nat) (memory : Bytes) (console : Console) :
    Except Exit (Bytes × Console) :=
  readFields floats showPrompts agg agg 0 dest 0 memory console

end

/-! ## Printing -/

section

variable (floats : FloatText) (memory : Bytes)

mutual
/-- The visitor of `print_aggregate`, of a value at an offset in the memory. -/
def printValue : FieldType → (value indent : Nat) → Except Fault Bytes
  | .string _, value, _ => do
      let len ← readBytes .argument memory value stringHeaderSize
      let s ← readBytes .argument memory (value + stringHeaderSize) (leValue len)
      return text "\"" ++ s ++ text "\"\n"
  | .aggregate agg, value, indent =>
      return text "\n" ++ (← printFields agg agg 0 value (indent + 1))
  | .primitive type, value, _ => do
      let bytes ← readBytes .argument memory value type.implSize
      return printPrimitive floats bytes type ++ text "\n"

/-- The loop of `print_aggregate`. -/
def printFields (agg : AggregateType) : AggregateType → (fieldIndex data indent : Nat) →
    Except Fault Bytes
  | [], _, _, _ => return []
  | field :: rest, fieldIndex, data, indent => do
      let o ← offset agg fieldIndex
      let first ← printValue field.type (data + o) indent
      let later ← printFields agg rest (fieldIndex + 1) data indent
      return tabs indent ++ field.name ++ text " = " ++ first ++ later
end

def printAggregate (agg : AggregateType) (data : Nat) : Except Fault Bytes :=
  printFields floats memory agg agg 0 data 0

end

end Boutique.Cli
