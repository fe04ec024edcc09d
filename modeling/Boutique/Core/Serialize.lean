import Boutique.Core.Fault
import Boutique.Data.LittleEndian

namespace Boutique.Core

open Boutique.Data

/-! The primitive readers and writers of `core/serialize`.

A `ConstBuffer` cursor is the list of bytes it still spans. A reader returns
the cursor as it leaves it, which is not always where it found it when the read
fails. Writers return the bytes they append through their `WriteFn`. -/

/-- `read<T>` for an unsigned `T` of `size` bytes. -/
def read (size : Nat) (c : Bytes) : Option Nat × Bytes :=
  if c.length < size then
    (none, c)
  else
    (some (leValue (c.take size)), c.drop size)

/-- `read<LengthPrefixedString>`: the length prefix stays consumed when the
payload is not there yet. -/
def readLengthPrefixedString (c : Bytes) : Option Bytes × Bytes :=
  if c.length < 4 then
    (none, c)
  else
    match read 4 c with
    | (none, c) => (none, c)
    | (some len, c) =>
        if c.length < len then
          (none, c)
        else
          (some (c.take len), c.drop len)

/-- `write(write_fn, T)` for an unsigned `T` of `size` bytes; a wider value is
truncated by the `static_cast` at the call. -/
def write (size value : Nat) : Bytes := leBytes size value

def writeLengthPrefixedString (s : Bytes) : Bytes := write 4 s.length ++ s

@[simp] theorem write_length (size value : Nat) : (write size value).length = size :=
  leBytes_length size value

@[simp] theorem writeLengthPrefixedString_length (s : Bytes) :
    (writeLengthPrefixedString s).length = 4 + s.length := by
  simp [writeLengthPrefixedString]

theorem read_some_iff {size value : Nat} {c rest : Bytes} :
    read size c = (some value, rest) ↔ value < 256 ^ size ∧ c = write size value ++ rest := by
  constructor
  · intro done
    simp only [read] at done
    split at done
    · simp at done
    · rename_i enough
      have taken : (c.take size).length = size := by rw [List.length_take]; omega
      simp only [Prod.mk.injEq, Option.some.injEq] at done
      obtain ⟨rfl, rfl⟩ := done
      constructor
      · have bound := leValue_lt (c.take size)
        rwa [taken] at bound
      · have bytes := leBytes_leValue (c.take size)
        rw [taken] at bytes
        rw [write, bytes, List.take_append_drop]
  · intro given
    obtain ⟨fits, rfl⟩ := given
    have enough : ¬ (write size value ++ rest).length < size := by simp
    have front : (write size value ++ rest).take size = write size value :=
      List.take_left' (write_length size value)
    have back : (write size value ++ rest).drop size = rest :=
      List.drop_left' (write_length size value)
    rw [read, if_neg enough, front, back, write, leValue_leBytes fits]

theorem readLengthPrefixedString_some_iff {s c rest : Bytes} :
    readLengthPrefixedString c = (some s, rest) ↔
      s.length < 256 ^ 4 ∧ c = writeLengthPrefixedString s ++ rest := by
  constructor
  · intro done
    simp only [readLengthPrefixedString] at done
    split at done
    · simp at done
    · cases header : read 4 c with
      | mk len payload =>
          cases len with
          | none => simp [header] at done
          | some len =>
              obtain ⟨fits, rfl⟩ := read_some_iff.mp header
              simp only [header] at done
              split at done
              · simp at done
              · rename_i enough
                simp only [Prod.mk.injEq, Option.some.injEq] at done
                obtain ⟨rfl, rfl⟩ := done
                have taken : (payload.take len).length = len := by rw [List.length_take]; omega
                refine ⟨by rwa [taken], ?_⟩
                rw [writeLengthPrefixedString, taken, List.append_assoc, List.take_append_drop]
  · intro given
    obtain ⟨fits, rfl⟩ := given
    have header : read 4 (writeLengthPrefixedString s ++ rest) = (some s.length, s ++ rest) :=
      read_some_iff.mpr ⟨fits, by rw [writeLengthPrefixedString, List.append_assoc]⟩
    have enough : ¬ (writeLengthPrefixedString s ++ rest).length < 4 := by simp; omega
    have payload : ¬ (s ++ rest).length < s.length := by simp
    simp only [readLengthPrefixedString, if_neg enough, header, if_neg payload]
    rw [List.take_left, List.drop_left]

theorem readLengthPrefixedString_length {s c rest : Bytes}
    (done : readLengthPrefixedString c = (some s, rest)) :
    rest.length + s.length + 4 = c.length := by
  obtain ⟨_, rfl⟩ := readLengthPrefixedString_some_iff.mp done
  rw [List.length_append, writeLengthPrefixedString_length]
  omega

theorem read_write {size value : Nat} (fits : value < 256 ^ size) (tail : Bytes) :
    read size (write size value ++ tail) = (some value, tail) :=
  read_some_iff.mpr ⟨fits, rfl⟩

theorem readLengthPrefixedString_write {s : Bytes} (fits : s.length < 256 ^ 4) (tail : Bytes) :
    readLengthPrefixedString (writeLengthPrefixedString s ++ tail) = (some s, tail) :=
  readLengthPrefixedString_some_iff.mpr ⟨fits, rfl⟩

theorem read_append {size value : Nat} {c rest : Bytes} (done : read size c = (some value, rest))
    (tail : Bytes) : read size (c ++ tail) = (some value, rest ++ tail) := by
  obtain ⟨fits, rfl⟩ := read_some_iff.mp done
  exact read_some_iff.mpr ⟨fits, List.append_assoc ..⟩

theorem readLengthPrefixedString_append {s c rest : Bytes}
    (done : readLengthPrefixedString c = (some s, rest)) (tail : Bytes) :
    readLengthPrefixedString (c ++ tail) = (some s, rest ++ tail) := by
  obtain ⟨fits, rfl⟩ := readLengthPrefixedString_some_iff.mp done
  exact readLengthPrefixedString_some_iff.mpr ⟨fits, List.append_assoc ..⟩

end Boutique.Core
