import Mathlib.Data.List.Basic

namespace Boutique.Data

/-! Queues that are served in rounds: a round visits what was queued when it
began, and what it leaves undone goes in front of what was queued meanwhile. -/

/-- `visited` and `todo` are the two parts of the round, `fresh` is what has been
queued since it began. A visited element comes with whether it is done. -/
structure Rounds (α : Type) where
  fresh : List α := []
  visited : List (α × Bool) := []
  todo : List α := []

namespace Rounds

variable {α : Type} (queue : Rounds α) {element : α} {rest : List α}

def push (element : α) : Rounds α := { queue with fresh := queue.fresh ++ [element] }

def start : Rounds α := { todo := queue.fresh }

def visit (done : Bool) : Rounds α :=
  match queue.todo with
  | [] => queue
  | element :: todo => { queue with visited := queue.visited ++ [(element, done)], todo }

/-- The visited elements that are not done. -/
def kept : List α := (queue.visited.filter fun visit => !visit.2).map Prod.fst

def waiting : List α := queue.kept ++ queue.todo ++ queue.fresh

def finish : Rounds α := { fresh := queue.waiting }

/-- No round is under way. -/
def Idle : Prop := queue.visited = [] ∧ queue.todo = []

@[simp] theorem waiting_push : (queue.push element).waiting = queue.waiting ++ [element] := by
  simp only [waiting, push, kept, List.append_assoc]

theorem forall_waiting_push {P : α → Prop} :
    (∀ other ∈ (queue.push element).waiting, P other) ↔
      (∀ other ∈ queue.waiting, P other) ∧ P element := by
  simp [or_imp, forall_and]

@[simp] theorem waiting_finish : queue.finish.waiting = queue.waiting := rfl

theorem waiting_start : queue.start.waiting = queue.fresh := by
  simp only [waiting, start, kept, List.filter_nil, List.map_nil, List.nil_append, List.append_nil]

theorem idle_finish : queue.finish.Idle := ⟨rfl, rfl⟩

variable {queue}

theorem Idle.waiting_eq (idle : queue.Idle) : queue.waiting = queue.fresh := by
  rw [waiting, kept, idle.1, idle.2]
  rfl

theorem waiting_eq (next : queue.todo = element :: rest) :
    queue.waiting = queue.kept ++ element :: (rest ++ queue.fresh) := by
  rw [waiting, next, List.append_assoc, List.cons_append]

theorem mem_waiting (next : queue.todo = element :: rest) : element ∈ queue.waiting := by
  rw [waiting_eq next]
  exact List.mem_append_right _ List.mem_cons_self

theorem mem_waiting_of_fresh (queued : element ∈ queue.fresh) : element ∈ queue.waiting :=
  List.mem_append_right _ queued

theorem kept_pass (next : queue.todo = element :: rest) :
    (queue.visit false).kept = queue.kept ++ [element] := by
  simp [visit, next, kept]

theorem kept_done (next : queue.todo = element :: rest) :
    (queue.visit true).kept = queue.kept := by
  simp [visit, next, kept]

theorem waiting_pass (next : queue.todo = element :: rest) :
    (queue.visit false).waiting = queue.waiting := by
  rw [waiting_eq next]
  simp [visit, next, waiting, kept]

theorem waiting_done (next : queue.todo = element :: rest) :
    (queue.visit true).waiting = queue.kept ++ (rest ++ queue.fresh) := by
  simp [visit, next, waiting, kept]

theorem mem_waiting_of_done (next : queue.todo = element :: rest) {other : α}
    (waits : other ∈ (queue.visit true).waiting) : other ∈ queue.waiting := by
  rw [waiting_done next] at waits
  rw [waiting_eq next]
  exact ((List.sublist_cons_self element _).append_left _).mem waits

/-! Those of the waiting elements that meet a condition. -/

variable {p : α → Bool} {only : α}

theorem waiting_pushes (queue : Rounds α) (pushed : List α) :
    (pushed.foldl push queue).waiting = queue.waiting ++ pushed := by
  induction pushed generalizing queue with
  | nil => rw [List.foldl_nil, List.append_nil]
  | cons element pushed ih =>
      rw [List.foldl_cons, ih, waiting_push, List.append_assoc, List.singleton_append]

theorem filter_pushes_other {pushed : List α} (others : ∀ element ∈ pushed, p element = false) :
    (pushed.foldl push queue).waiting.filter p = queue.waiting.filter p := by
  have none : pushed.filter p = [] := List.filter_eq_nil_iff.mpr fun element member => by
    simp [others element member]
  rw [waiting_pushes, List.filter_append, none, List.append_nil]

theorem filter_done_other (next : queue.todo = element :: rest) (other : p element = false) :
    (queue.visit true).waiting.filter p = queue.waiting.filter p := by
  rw [waiting_done next, waiting_eq next]
  simp only [List.filter_append, List.filter_cons, other, Bool.false_eq_true, if_false]

/-- An element that meets the condition is the only one that does. -/
theorem filter_done_only (next : queue.todo = element :: rest) (meets : p element = true)
    (sole : queue.waiting.filter p = [only]) :
    element = only ∧ (queue.visit true).waiting.filter p = [] := by
  rw [waiting_eq next, List.filter_append, List.filter_cons_of_pos meets,
    List.append_eq_singleton_iff] at sole
  rcases sole with ⟨before, after⟩ | ⟨_, after⟩
  · obtain ⟨same, behind⟩ := List.cons_eq_cons.mp after
    exact ⟨same, by rw [waiting_done next, List.filter_append, before, behind, List.nil_append]⟩
  · cases after

end Rounds

end Boutique.Data
