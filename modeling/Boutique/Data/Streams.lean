import Mathlib.Data.List.Basic

namespace Boutique.Data

/-! Logs of pieces that belong to streams, and when serving the pieces that wait
keeps every stream in order. -/

variable {κ β : Type} [DecidableEq κ]

/-- The stream of `key` in a log. -/
def stream (key : κ) (log : List (κ × List β)) : List β :=
  (log.filter fun piece => piece.1 = key).flatMap Prod.snd

variable {key other : κ} {log front back : List (κ × List β)} {content : List β}

@[simp] theorem stream_nil : stream key ([] : List (κ × List β)) = [] := rfl

@[simp] theorem stream_append (front back : List (κ × List β)) :
    stream key (front ++ back) = stream key front ++ stream key back := by
  rw [stream, List.filter_append, List.flatMap_append, stream, stream]

@[simp] theorem stream_cons_self :
    stream key ((key, content) :: log) = content ++ stream key log := by
  rw [stream, List.filter_cons_of_pos (by simp), List.flatMap_cons, stream]

theorem stream_cons_of_ne (apart : other ≠ key) :
    stream key ((other, content) :: log) = stream key log := by
  rw [stream, List.filter_cons_of_neg (by simpa using apart), stream]

@[simp] theorem stream_cons_empty : stream key ((other, []) :: log) = stream key log := by
  by_cases same : other = key
  · rw [same, stream_cons_self, List.nil_append]
  · exact stream_cons_of_ne same

theorem stream_eq_nil (apart : ∀ piece ∈ log, piece.1 ≠ key) : stream key log = [] := by
  rw [stream, List.filter_eq_nil_iff.mpr (by simpa using apart), List.flatMap_nil]

theorem stream_ne_nil {piece : κ × List β} (member : piece ∈ log) (some : piece.2 ≠ []) :
    stream piece.1 log ≠ [] := by
  intro none
  rw [stream, List.flatMap_eq_nil_iff] at none
  exact some (none piece (List.mem_filter.mpr ⟨member, by simp⟩))

/-- Whatever the order, cutting a piece in two changes no stream's length. -/
theorem stream_cut_length (key other : κ) (content : List β) (count : Nat) :
    (stream key [(other, content)]).length =
      (stream key [(other, content.take count)]).length +
        (stream key [(other, content.drop count)]).length := by
  by_cases same : other = key
  · subst same
    simp only [stream_cons_self, stream_nil, List.append_nil]
    rw [← List.length_append, List.take_append_drop]
  · simp only [stream_cons_of_ne same, stream_nil, List.length_nil]

/-- Of the pieces that wait, one is served its first `count` elements, and the
rest of it queues again behind all others. No stream notices, provided that no
piece of the same stream waits in front, and none behind unless nothing is left. -/
theorem stream_served (inFront : ∀ piece ∈ front, piece.1 ≠ other) (count : Nat)
    (behind : content.drop count ≠ [] → ∀ piece ∈ back, piece.1 ≠ other) (key : κ) :
    stream key (front ++ (other, content) :: back) =
      stream key [(other, content.take count)] ++
        stream key (front ++ back ++ [(other, content.drop count)]) := by
  by_cases same : other = key
  · subst same
    simp only [stream_append, stream_cons_self, stream_nil, stream_eq_nil inFront,
      List.nil_append, List.append_nil]
    by_cases whole : content.drop count = []
    · rw [whole, List.append_nil, ← List.append_nil (content.take count), ← whole,
        List.take_append_drop]
    · rw [stream_eq_nil (behind whole), List.append_nil, List.nil_append, List.take_append_drop]
  · simp only [stream_append, stream_cons_of_ne same, stream_nil, List.nil_append,
      List.append_nil]

end Boutique.Data
