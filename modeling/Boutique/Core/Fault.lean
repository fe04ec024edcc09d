import Mathlib.Data.List.Basic

namespace Boutique

abbrev Bytes := List UInt8

/-- The conditions the program asserts: in order, a non-empty aggregate and a
field index in range (`alignment`, `offset`), a key that is no aggregate
(`Collection::Collection`), a key of `sizeof(T)` bytes (the hash function), a
fresh bucket while rehashing, a bucket for the last document
(`Collection::remove`), a non-empty storage and an element inside it
(`Storage::remove`), and `m_used <= m_size` (`StreamBuf::consume`). The build
sets no `NDEBUG`, so a failed assertion aborts the process. -/
inductive Assertion where
  | emptyAggregate
  | fieldIndex
  | aggregateKey
  | keyLength
  | rehashIndex
  | lastElement
  | storageEmpty
  | storageIndex
  | streamUsed
deriving DecidableEq, Repr

/-- Memory the program reaches through bare pointers: the document or key
handed to a collection, the bytes of `Storage::m_data`, and the elements of
`Collection::m_buckets`. -/
inductive Region where
  | argument
  | storage
  | buckets
deriving DecidableEq, Repr

/-- How an operation can fail to return: a failed assertion, an access outside
a region, `count() - 1` with no documents, or a loop that does not end. -/
inductive Fault where
  | assertion (failed : Assertion)
  | outOfBounds (region : Region)
  | underflow
  | diverges
deriving DecidableEq, Repr

/-- `assert(condition)`. -/
def check (assertion : Assertion) (condition : Bool) : Except Fault Unit :=
  if condition then .ok () else .error (.assertion assertion)

@[simp] theorem check_true (assertion : Assertion) : check assertion true = .ok () := rfl

@[simp] theorem check_false (assertion : Assertion) :
    check assertion false = .error (.assertion assertion) := rfl

theorem check_ok_iff {assertion : Assertion} {condition : Bool} {done : Unit} :
    check assertion condition = .ok done ↔ condition = true := by
  cases condition <;> simp

section

variable {ε α β : Type}

@[simp] theorem ok_bind (value : α) (next : α → Except ε β) :
    (Except.ok value >>= next) = next value := rfl

@[simp] theorem error_bind (fault : ε) (next : α → Except ε β) :
    (Except.error fault >>= next) = .error fault := rfl

/-- A sequence of steps returns exactly when each of them does. -/
theorem bind_ok_iff {step : Except ε α} {next : α → Except ε β} {result : β} :
    step >>= next = .ok result ↔ ∃ middle, step = .ok middle ∧ next middle = .ok result := by
  cases step with
  | error fault => simp [bind, Except.bind]
  | ok middle => simp [bind, Except.bind]

/-- It fails exactly when one of them does, the ones before having returned. -/
theorem bind_error_iff {step : Except ε α} {next : α → Except ε β} {fault : ε} :
    step >>= next = .error fault ↔
      step = .error fault ∨ ∃ middle, step = .ok middle ∧ next middle = .error fault := by
  cases step with
  | error fault => simp [bind, Except.bind]
  | ok middle => simp [bind, Except.bind]

/-- What is known of the result of a step is known of some result. -/
theorem exists_of_map_ok {step : Except ε α} {view : α → β} {seen : β}
    (mapped : view <$> step = .ok seen) : ∃ result, step = .ok result ∧ view result = seen := by
  cases step with
  | error fault => cases mapped
  | ok result => exact ⟨result, rfl, Except.ok.inj mapped⟩

theorem mapM_error {step : α → Except ε β} {values : List α} {fault : ε}
    (failed : values.mapM step = .error fault) : ∃ value ∈ values, step value = .error fault := by
  induction values with
  | nil => cases failed
  | cons value values ih =>
      rw [List.mapM_cons] at failed
      rcases bind_error_iff.mp failed with first | ⟨_, _, failed⟩
      · exact ⟨value, List.mem_cons_self, first⟩
      · rcases bind_error_iff.mp failed with rest | ⟨_, _, failed⟩
        · obtain ⟨culprit, member, failed⟩ := ih rest
          exact ⟨culprit, List.mem_cons_of_mem _ member, failed⟩
        · cases failed

end

end Boutique
