import Boutique.Data.Rounds
import Mathlib.Data.List.Nodup

namespace Boutique.Data

/-! A journal beside a queue that is served in rounds: everything that was ever
queued, numbered in this order, and the numbers of what has been done. -/

variable {α β : Type}

/-- What can be done to a queue. -/
inductive RoundStep (α : Type) where
  | push (element : α)
  | start
  | visit (done : Bool)
  | finish
deriving DecidableEq, Repr

def RoundStep.map (f : α → β) : RoundStep α → RoundStep β
  | .push element => .push (f element)
  | .start => .start
  | .visit done => .visit done
  | .finish => .finish

namespace Rounds

def apply (queue : Rounds α) : RoundStep α → Rounds α
  | .push element => queue.push element
  | .start => queue.start
  | .visit done => queue.visit done
  | .finish => queue.finish

def map (f : α → β) (queue : Rounds α) : Rounds β where
  fresh := queue.fresh.map f
  visited := queue.visited.map (Prod.map f id)
  todo := queue.todo.map f

variable (f : α → β) (queue : Rounds α)

theorem map_push (element : α) : (queue.push element).map f = (queue.map f).push (f element) := by
  simp [map, push]

theorem map_start : queue.start.map f = (queue.map f).start := rfl

theorem map_visit (done : Bool) : (queue.visit done).map f = (queue.map f).visit done := by
  cases next : queue.todo with
  | nil => simp [visit, map, next]
  | cons element rest => simp [visit, map, next]

theorem map_kept : (queue.map f).kept = queue.kept.map f := by
  simp [kept, map, List.filter_map, Function.comp_def]

theorem map_waiting : (queue.map f).waiting = queue.waiting.map f := by
  rw [waiting, map_kept, waiting, List.map_append, List.map_append]
  rfl

theorem map_finish : queue.finish.map f = (queue.map f).finish := by
  rw [finish, finish, map_waiting]
  rfl

theorem map_apply (step : RoundStep α) :
    (queue.apply step).map f = (queue.map f).apply (step.map f) := by
  cases step with
  | push element => exact map_push f queue element
  | start => exact map_start f queue
  | visit done => exact map_visit f queue done
  | finish => exact map_finish f queue

theorem map_foldl (steps : List (RoundStep α)) :
    (steps.foldl apply queue).map f = (steps.map (RoundStep.map f)).foldl apply (queue.map f) := by
  induction steps generalizing queue with
  | nil => rfl
  | cons step steps ih => rw [List.foldl_cons, ih, map_apply, List.map_cons, List.foldl_cons]

variable {f queue}

/-- Nothing waits that did not wait before or is pushed. -/
theorem mem_waiting_apply {step : RoundStep α} {element : α}
    (waits : element ∈ (queue.apply step).waiting) :
    element ∈ queue.waiting ∨ step = .push element := by
  cases step with
  | push pushed =>
      rw [apply, waiting_push, List.mem_append, List.mem_singleton] at waits
      exact waits.imp_right fun same => congrArg RoundStep.push same.symm
  | start =>
      rw [apply, waiting_start] at waits
      exact .inl (mem_waiting_of_fresh waits)
  | visit done =>
      left
      cases next : queue.todo with
      | nil => simpa [apply, visit, next] using waits
      | cons first rest =>
          cases done with
          | false => rwa [apply, waiting_pass next] at waits
          | true => exact mem_waiting_of_done next waits
  | finish => exact .inl waits

theorem mem_waiting_foldl {steps : List (RoundStep α)} {element : α}
    (waits : element ∈ (steps.foldl apply queue).waiting) :
    element ∈ queue.waiting ∨ .push element ∈ steps := by
  induction steps generalizing queue with
  | nil => exact .inl waits
  | cons step steps ih =>
      rcases ih waits with earlier | pushed
      · apply (mem_waiting_apply earlier).imp_right
        intro same
        rw [same]
        exact List.mem_cons_self
      · exact .inr (List.mem_cons_of_mem _ pushed)

end Rounds

structure Journal (α : Type) where
  queued : List α := []
  done : List Nat := []
  numbered : Rounds (α × Nat) := {}

namespace Journal

def apply (journal : Journal α) : RoundStep α → Journal α
  | .push element => { journal with
      queued := journal.queued ++ [element]
      numbered := journal.numbered.push (element, journal.queued.length) }
  | .start => { journal with numbered := journal.numbered.start }
  | .visit true => { journal with
      done := journal.done ++ (journal.numbered.todo.head?.map Prod.snd).toList
      numbered := journal.numbered.visit true }
  | .visit false => { journal with numbered := journal.numbered.visit false }
  | .finish => { journal with numbered := journal.numbered.finish }

/-- What was queued and is not done, with its numbers. -/
def pending (journal : Journal α) : List (α × Nat) :=
  journal.queued.zipIdx.filter fun entry => entry.2 ∉ journal.done

/-- What was queued and is not done, in the order it was queued in. -/
def outstanding (journal : Journal α) : List α := journal.pending.map Prod.fst

/-- The queue holds what is outstanding, and nothing was done twice. -/
structure Follows (journal : Journal α) (queue : Rounds α) : Prop where
  same : journal.numbered.map Prod.fst = queue
  waiting : journal.numbered.waiting = journal.pending
  nodup : journal.done.Nodup
  below : ∀ number ∈ journal.done, number < journal.queued.length

variable {journal : Journal α} {queue : Rounds α}

theorem follows_empty : Follows ({} : Journal α) {} := ⟨rfl, rfl, .nil, nofun⟩

theorem Follows.waiting_eq (follows : journal.Follows queue) :
    queue.waiting = journal.outstanding := by
  rw [← follows.same, Rounds.map_waiting, follows.waiting, outstanding]

theorem numbers_nodup (list : List α) : (list.zipIdx.map Prod.snd).Nodup := by
  rw [List.zipIdx_map_snd]
  exact List.nodup_range' ..

/-- Leaving out the number of one element leaves out that element. -/
theorem filter_ne_number {front back : List (α × Nat)} {entry : α × Nat}
    (distinct : ((front ++ entry :: back).map Prod.snd).Nodup) :
    (front ++ entry :: back).filter (fun other => other.2 ≠ entry.2) = front ++ back := by
  rw [List.map_append, List.map_cons, List.nodup_middle, List.nodup_cons, ← List.map_append]
    at distinct
  have others : ∀ other ∈ front ++ back, other.2 ≠ entry.2 := by
    intro other member same
    exact distinct.1 (same ▸ List.mem_map_of_mem member)
  rw [List.filter_append, List.filter_cons_of_neg (by simp), ← List.filter_append,
    List.filter_eq_self]
  exact fun other member => decide_eq_true (others other member)

theorem Follows.push (follows : journal.Follows queue) (element : α) :
    (journal.apply (.push element)).Follows (queue.push element) := by
  have unused : journal.queued.length ∉ journal.done :=
    fun used => Nat.lt_irrefl _ (follows.below _ used)
  refine ⟨?_, ?_, follows.nodup, ?_⟩
  · rw [← follows.same]
    exact Rounds.map_push ..
  · simp only [apply, Rounds.waiting_push, follows.waiting]
    simp [pending, List.zipIdx_append, List.filter_append, unused]
  · intro number used
    have := follows.below number used
    simp only [apply, List.length_append, List.length_singleton]
    omega

theorem Follows.start (follows : journal.Follows queue) (idle : queue.Idle) :
    (journal.apply .start).Follows queue.start := by
  have numberedIdle : journal.numbered.Idle := by
    obtain ⟨visited, todo⟩ := idle
    rw [← follows.same] at visited todo
    exact ⟨List.map_eq_nil_iff.mp visited, List.map_eq_nil_iff.mp todo⟩
  refine ⟨?_, ?_, follows.nodup, follows.below⟩
  · rw [← follows.same]
    rfl
  · have waiting := follows.waiting
    rw [numberedIdle.waiting_eq] at waiting
    exact (Rounds.waiting_start _).trans waiting

theorem Follows.finish (follows : journal.Follows queue) :
    (journal.apply .finish).Follows queue.finish := by
  refine ⟨?_, ?_, follows.nodup, follows.below⟩
  · rw [← follows.same, ← Rounds.map_finish]
    rfl
  · exact (Rounds.waiting_finish _).trans follows.waiting

theorem Follows.pass (follows : journal.Follows queue) :
    (journal.apply (.visit false)).Follows (queue.visit false) := by
  refine ⟨?_, ?_, follows.nodup, follows.below⟩
  · rw [← follows.same, ← Rounds.map_visit]
    rfl
  · refine Eq.trans ?_ follows.waiting
    change (journal.numbered.visit false).waiting = _
    cases next : journal.numbered.todo with
    | nil => rw [Rounds.visit, next]
    | cons entry rest => exact Rounds.waiting_pass next

theorem Follows.mem_pending (follows : journal.Follows queue) {entry : α × Nat}
    {rest : List (α × Nat)} (next : journal.numbered.todo = entry :: rest) :
    entry ∈ journal.pending := by
  rw [← follows.waiting]
  exact Rounds.mem_waiting next

theorem Follows.done (follows : journal.Follows queue) :
    (journal.apply (.visit true)).Follows (queue.visit true) := by
  have same : (journal.numbered.visit true).map Prod.fst = queue.visit true := by
    rw [← follows.same, ← Rounds.map_visit]
  cases next : journal.numbered.todo with
  | nil =>
      have unchanged : journal.apply (.visit true) = journal := by
        simp [apply, next, Rounds.visit]
      have queueUnchanged : queue.visit true = queue := by
        rw [← same, Rounds.visit, next]
        exact follows.same
      rw [unchanged, queueUnchanged]
      exact follows
  | cons entry rest =>
      have waiting := follows.waiting
      rw [Rounds.waiting_eq next] at waiting
      obtain ⟨listed, undone⟩ := List.mem_filter.mp (follows.mem_pending next)
      have distinct : (journal.pending.map Prod.snd).Nodup :=
        (numbers_nodup journal.queued).sublist (List.filter_sublist.map Prod.snd)
      have numbers : (journal.apply (.visit true)).done = journal.done ++ [entry.2] := by
        simp [apply, next]
      refine ⟨same, ?_, ?_, ?_⟩
      · calc (journal.numbered.visit true).waiting
          _ = journal.numbered.kept ++ (rest ++ journal.numbered.fresh) := Rounds.waiting_done next
          _ = journal.pending.filter fun other => other.2 ≠ entry.2 := by
              rw [← waiting] at distinct ⊢
              exact (filter_ne_number distinct).symm
          _ = (journal.apply (.visit true)).pending := by
              rw [pending, pending, numbers, List.filter_filter]
              apply List.filter_congr
              intro other _
              simp [and_comm, not_or]
      · rw [numbers, List.nodup_append_comm]
        exact List.nodup_cons.mpr ⟨of_decide_eq_true undone, follows.nodup⟩
      · rw [numbers]
        intro number used
        rcases List.mem_append.mp used with before | here
        · exact follows.below number before
        · rw [List.mem_singleton.mp here]
          exact List.snd_lt_of_mem_zipIdx listed

/-- `element` has been served, for the first time. -/
def Serves (journal : Journal α) (element : α) (after : Journal α) : Prop :=
  ∃ number ∉ journal.done, journal.queued[number]? = some element ∧
    after.done = journal.done ++ [number]

theorem done_pushes (journal : Journal α) (pushed : List α) :
    ((pushed.map .push).foldl apply journal).done = journal.done := by
  induction pushed generalizing journal with
  | nil => rfl
  | cons element pushed ih => exact ih _

theorem Follows.serves (follows : journal.Follows queue) {element : α} {rest : List α}
    (next : queue.todo = element :: rest) (pushed : List α) :
    journal.Serves element ((.visit true :: pushed.map .push).foldl apply journal) := by
  rw [← follows.same] at next
  obtain ⟨entry, later, numbered, rfl, _⟩ := List.map_eq_cons_iff.mp next
  obtain ⟨listed, undone⟩ := List.mem_filter.mp (follows.mem_pending numbered)
  refine ⟨entry.2, of_decide_eq_true undone, List.mem_zipIdx_iff_getElem?.mp listed, ?_⟩
  rw [List.foldl_cons, done_pushes]
  simp [apply, numbered]

/-- A round may start only by itself, when none is under way. -/
theorem Follows.foldl {steps : List (RoundStep α)} (follows : journal.Follows queue)
    (starts : RoundStep.start ∈ steps → steps = [.start] ∧ queue.Idle) :
    (steps.foldl apply journal).Follows (steps.foldl Rounds.apply queue) := by
  by_cases round : RoundStep.start ∈ steps
  · obtain ⟨rfl, idle⟩ := starts round
    exact follows.start idle
  · clear starts
    induction steps generalizing journal queue with
    | nil => exact follows
    | cons step steps ih =>
        refine ih ?_ fun later => round (List.mem_cons_of_mem _ later)
        cases step with
        | push element => exact follows.push element
        | start => exact absurd List.mem_cons_self round
        | visit outcome =>
            cases outcome with
            | false => exact follows.pass
            | true => exact follows.done
        | finish => exact follows.finish

end Journal

end Boutique.Data
