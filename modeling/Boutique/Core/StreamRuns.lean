import Boutique.Core.StreamBuf

namespace Boutique.Core.StreamBuf

/-- A buffer as `append` and `consume` leave it, next to all the bytes appended
and how many of them were consumed. -/
inductive Reached : StreamBuf → Bytes → Nat → Prop where
  | empty : Reached {} [] 0
  | append {s : StreamBuf} {appended : Bytes} {consumed : Nat}
      (before : Reached s appended consumed) (data : Bytes) :
      Reached (s.append data) (appended ++ data) consumed
  | consume {s after : StreamBuf} {appended : Bytes} {consumed len : Nat}
      (before : Reached s appended consumed) (inside : len ≤ s.dataSize)
      (run : s.consume len = .ok after) : Reached after appended (consumed + len)

/-- A buffer is for queueing bytes. -/
structure Queues (s : StreamBuf) (queued : Bytes) : Prop where
  content : s.asConstBuffer = queued
  dataSize_eq : s.dataSize = queued.length
  size_eq : s.size = s.buf.length
  used_le : s.used ≤ s.size
  empty_iff : s.empty = true ↔ s.dataSize = 0
  consumes : ∀ {len}, len ≤ s.dataSize → ∃ after, s.consume len = .ok after

variable {s after : StreamBuf} {content appended : Bytes} {consumed len : Nat}

theorem Holds.consume_drop (holds : s.Holds content) (inside : len ≤ content.length) :
    ∃ after, s.consume len = .ok after ∧ after.Holds (content.drop len) := by
  have length : (content.take len).length = len := List.length_take_of_le inside
  rw [← List.take_append_drop len content] at holds
  obtain ⟨after, run, holds', _⟩ := holds.consume
  rw [length] at run
  exact ⟨after, run, holds'⟩

theorem Holds.queues (holds : s.Holds content) : s.Queues content where
  content := holds.asConstBuffer_eq
  dataSize_eq := holds.dataSize_eq
  size_eq := holds.size_eq
  used_le := holds.used_le
  empty_iff := by rw [holds.empty_iff, holds.dataSize_eq, List.length_eq_zero_iff]
  consumes := by
    intro len inside
    rw [holds.dataSize_eq] at inside
    obtain ⟨after, run, _⟩ := holds.consume_drop inside
    exact ⟨after, run⟩

theorem Reached.holds (reached : s.Reached appended consumed) :
    consumed ≤ appended.length ∧ s.Holds (appended.drop consumed) := by
  induction reached with
  | empty => exact ⟨Nat.le_refl 0, holds_empty⟩
  | append before data ih =>
      obtain ⟨bound, holds⟩ := ih
      have grown := holds.append data
      rw [← List.drop_append_of_le_length bound] at grown
      exact ⟨by rw [List.length_append]; omega, grown⟩
  | consume before inside run ih =>
      obtain ⟨bound, holds⟩ := ih
      rw [holds.dataSize_eq] at inside
      obtain ⟨after, run', holds'⟩ := holds.consume_drop inside
      rw [run] at run'
      cases run'
      rw [List.length_drop] at inside
      rw [List.drop_drop] at holds'
      exact ⟨by omega, holds'⟩

end Boutique.Core.StreamBuf
