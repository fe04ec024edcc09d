import Boutique.Core.Fault

namespace Boutique.Core

/-- `StreamBuf`: `buf` keeps consumed bytes until everything is consumed. -/
structure StreamBuf where
  size : Nat := 0
  used : Nat := 0
  buf : Bytes := []
deriving DecidableEq, Repr

namespace StreamBuf

def append (s : StreamBuf) (data : Bytes) : StreamBuf :=
  { s with buf := s.buf ++ data, size := s.size + data.length }

def consume (s : StreamBuf) (len : Nat) : Except Fault StreamBuf := do
  check .streamUsed (s.used + len ≤ s.size)
  if s.used + len = s.size then
    return { size := 0, used := 0, buf := [] }
  else
    return { s with used := s.used + len }

/-- `as_const_buffer`: the `size()` bytes from `data()` on. Pointers into the
buffer are offsets from `m_buf.data()`, so `data()` is `used`. -/
def asConstBuffer (s : StreamBuf) : Bytes := (s.buf.drop s.used).take (s.size - s.used)

/-- `size()`; the field is `m_size`. -/
def dataSize (s : StreamBuf) : Nat := s.size - s.used

def empty (s : StreamBuf) : Bool := s.size == 0

/-- The buffer holds exactly `content`, and nothing at all once it is empty. -/
structure Holds (s : StreamBuf) (content : Bytes) : Prop where
  size_eq : s.size = s.buf.length
  used_le : s.used ≤ s.size
  drop_eq : s.buf.drop s.used = content
  cleared : content = [] → s.used = 0

variable {s : StreamBuf} {content : Bytes}

theorem holds_empty : ({} : StreamBuf).Holds [] :=
  ⟨rfl, Nat.le_refl _, rfl, fun _ => rfl⟩

theorem Holds.asConstBuffer_eq (holds : s.Holds content) : s.asConstBuffer = content := by
  have size := congrArg List.length holds.drop_eq
  rw [List.length_drop, ← holds.size_eq] at size
  rw [asConstBuffer, holds.drop_eq, size, List.take_length]

theorem Holds.dataSize_eq (holds : s.Holds content) : s.dataSize = content.length := by
  rw [← holds.drop_eq, List.length_drop, ← holds.size_eq]
  rfl

/-- `empty()` tests `m_size`, which is zero only once nothing is left. -/
theorem Holds.empty_iff (holds : s.Holds content) : s.empty = true ↔ content = [] := by
  have length := holds.dataSize_eq
  rw [dataSize] at length
  rw [empty, beq_iff_eq, ← List.length_eq_zero_iff]
  constructor
  · intro none
    omega
  · intro none
    have used := holds.cleared (List.length_eq_zero_iff.mp none)
    omega

theorem Holds.append (holds : s.Holds content) (data : Bytes) :
    (s.append data).Holds (content ++ data) where
  size_eq := by simp [StreamBuf.append, holds.size_eq]
  used_le := Nat.le_trans holds.used_le (Nat.le_add_right _ _)
  drop_eq := by
    have inside : s.used ≤ s.buf.length := holds.size_eq ▸ holds.used_le
    change (s.buf ++ data).drop s.used = content ++ data
    rw [List.drop_append_of_le_length inside, holds.drop_eq]
  cleared nothing := holds.cleared (List.append_eq_nil_iff.mp nothing).1

/-- Consuming a front of the content never trips the assertion and leaves the
rest, moving `data()` along unless nothing is left. -/
theorem Holds.consume {front rest : Bytes} (holds : s.Holds (front ++ rest)) :
    ∃ after, s.consume front.length = .ok after ∧ after.Holds rest ∧
      (rest ≠ [] → after.used = s.used + front.length) := by
  have length := congrArg List.length holds.drop_eq
  rw [List.length_drop, List.length_append, ← holds.size_eq] at length
  have used := holds.used_le
  have inside : decide (s.used + front.length ≤ s.size) = true := by
    rw [decide_eq_true_eq]
    omega
  unfold StreamBuf.consume
  rw [inside]
  by_cases whole : s.used + front.length = s.size
  · have nothing : rest = [] := List.length_eq_zero_iff.mp (by omega)
    refine ⟨{}, by simp only [whole, ↓reduceIte]; rfl, ?_, fun some => absurd nothing some⟩
    rw [nothing]
    exact holds_empty
  · refine ⟨{ s with used := s.used + front.length }, by simp only [whole, ↓reduceIte]; rfl,
      ⟨holds.size_eq, by dsimp only; omega, ?_, ?_⟩, fun _ => rfl⟩
    · change s.buf.drop (s.used + front.length) = rest
      rw [← List.drop_drop, holds.drop_eq, List.drop_left]
    · intro nothing
      rw [nothing, List.length_nil] at length
      omega

end StreamBuf

end Boutique.Core
