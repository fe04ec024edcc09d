import Boutique.Db.Storage

namespace Boutique.Db.Storage

/-- What is done to a storage. Documents are removed by the pointer that
`operator[]` gives. -/
inductive Op where
  | put (elemData : Bytes)
  | remove (index : Nat)
  | clear
deriving DecidableEq, Repr

variable {s after : Storage} {docSize index : Nat} {docs old : List Bytes} {op : Op}

def step (s : Storage) : Op → Except Fault Storage
  | .put elemData => do
      let (_, s) ← s.put elemData
      return s
  | .remove index => s.remove (s.elemAt index)
  | .clear => return s.clear

/-- `put` is handed a whole document, and only documents inside are removed. -/
def Op.Allowed (s : Storage) : Op → Prop
  | .put elemData => s.docSize ≤ elemData.length
  | .remove index => index < s.count
  | .clear => True

instance : DecidablePred (Op.Allowed s)
  | .put elemData => inferInstanceAs (Decidable (s.docSize ≤ elemData.length))
  | .remove index => inferInstanceAs (Decidable (index < s.count))
  | .clear => inferInstanceAs (Decidable True)

/-- What a storage is for: a list of documents. -/
def Op.apply (docSize : Nat) (docs : List Bytes) : Op → List Bytes
  | .put elemData => docs ++ [elemData.take docSize]
  | .remove index => Data.swapRemove docs index
  | .clear => []

/-- A storage as its operations leave it, next to the list they lead to. -/
inductive Reached (docSize : Nat) : Storage → List Bytes → Prop where
  | empty : Reached docSize { docSize } []
  | step {s after : Storage} {docs : List Bytes} {op : Op} (before : Reached docSize s docs)
      (allowed : op.Allowed s) (stepped : s.step op = .ok after) :
      Reached docSize after (op.apply docSize docs)

/-- Where the documents are, and the bounds of every copy the next operation
can make. -/
structure Keeps (s : Storage) (docSize : Nat) (docs : List Bytes) : Prop where
  docSize_eq : s.docSize = docSize
  count_eq : s.count = docs.length
  element : ∀ index, index < s.count →
    some (slice s.data (s.elemAt index) docSize) = docs[index]?
  length_eq : ∀ doc ∈ docs, doc.length = docSize
  inside : ∀ index, index < s.count → s.elemAt index + docSize ≤ s.data.length
  apart : ∀ index, index + 1 < s.count → s.elemAt index + docSize ≤ s.elemAt (s.count - 1)

/-- `put` makes room behind the last document and moves no byte. -/
structure Grows (s : Storage) : Prop where
  docSize_eq : s.grow.docSize = s.docSize
  count_eq : s.grow.count = s.count
  prefix_kept : s.data <+: s.grow.data
  room : s.docSize * (s.count + 1) ≤ s.grow.data.length

theorem grows (s : Storage) : s.Grows := by
  obtain ⟨more, grown, enough⟩ := s.grow_spec
  refine ⟨by rw [grown], by rw [grown], ?_, ?_⟩
  · rw [grown]
    exact List.prefix_append s.data more
  · rw [grown]
    exact enough

/-- Every size asked of `resize` is at most this one, so that `std::size_t` holds
it wherever it holds twice the bytes in use and the initial capacity. -/
theorem grow_length_le (s : Storage) : s.grow.data.length ≤
    max s.data.length (max (2 * (s.docSize * (s.count + 1))) (s.docSize * initCap)) := by
  induction s using grow.induct with
  | case1 s short size ih =>
      rw [grow, dif_pos short]
      rw [List.length_append, List.length_replicate] at ih
      refine Nat.le_trans ih (Nat.max_le.mpr ⟨?_, Nat.le_max_right _ _⟩)
      dsimp only at *
      omega
  | case2 s enough =>
      rw [grow, dif_neg enough]
      exact Nat.le_max_left _ _

theorem elemAt_eq (s : Storage) (index : Nat) : s.elemAt index = s.docSize * index :=
  Nat.mul_comm index s.docSize

/-- Only the first `docSize` bytes of the argument are read. -/
theorem put_take {elemData : Bytes} (enough : s.docSize ≤ elemData.length) :
    s.put (elemData.take s.docSize) = s.put elemData := by
  have same : s.grow.docSize = s.docSize := s.grows.docSize_eq
  have taken : s.docSize ≤ (elemData.take s.docSize).length := by
    rw [List.length_take_of_le enough]
  have read : readBytes .argument (elemData.take s.docSize) 0 s.grow.docSize =
      readBytes .argument elemData 0 s.grow.docSize := by
    rw [same, readBytes_eq (by omega), readBytes_eq (by omega), slice, slice, List.drop_zero,
      List.drop_zero, List.take_take, Nat.min_self]
  simp only [put, read]

theorem Holds.keeps (holds : s.Holds docSize docs old) : s.Keeps docSize docs := by
  have among : ∀ {index}, index < s.count → index < (docs ++ old).length := by
    intro index bound
    rw [List.length_append, ← holds.count_eq]
    omega
  refine ⟨holds.docSize_eq, holds.count_eq, ?_, ?_, ?_, ?_⟩
  · intro index bound
    have bound' : index < docs.length := holds.count_eq ▸ bound
    have stored : (docs ++ old)[index]? = some docs[index] := by
      rw [List.getElem?_append_left bound', List.getElem?_eq_getElem]
    rw [elemAt_eq, holds.docSize_eq, holds.blocks.content stored, List.getElem?_eq_getElem]
  · intro doc member
    exact holds.blocks.length_eq doc (List.mem_append_left old member)
  · intro index bound
    rw [elemAt_eq, holds.docSize_eq]
    exact holds.blocks.inside (among bound)
  · intro index bound
    rw [elemAt_eq, elemAt_eq, holds.docSize_eq]
    exact Blocks.end_le docSize (by omega)

/-- Whatever is allowed returns, and leaves the list the operation leads to. -/
theorem Holds.step (holds : s.Holds docSize docs old) (allowed : op.Allowed s) :
    ∃ after, s.step op = .ok after ∧ ∃ old, after.Holds docSize (op.apply docSize docs) old := by
  cases op with
  | put elemData =>
      have enough : s.docSize ≤ elemData.length := allowed
      have length : (elemData.take docSize).length = docSize :=
        List.length_take_of_le (holds.docSize_eq ▸ enough)
      obtain ⟨after, put, holds'⟩ := holds.put length
      rw [← holds.docSize_eq, put_take enough] at put
      refine ⟨after, ?_, old.tail, holds'⟩
      rw [Storage.step, put, ok_bind]
      rfl
  | remove index =>
      have bound : index < docs.length := holds.count_eq ▸ allowed
      obtain ⟨after, removed, holds'⟩ := holds.remove bound
      refine ⟨after, ?_, _, holds'⟩
      rw [Storage.step, elemAt_eq, holds.docSize_eq]
      exact removed
  | clear => exact ⟨s.clear, rfl, docs ++ old, holds.clear⟩

theorem Reached.holds (positive : 0 < docSize) (reached : Reached docSize s docs) :
    ∃ old, s.Holds docSize docs old := by
  induction reached with
  | empty => exact ⟨[], holds_empty positive⟩
  | step before allowed stepped ih =>
      obtain ⟨old, holds⟩ := ih
      obtain ⟨after, stepped', holds'⟩ := holds.step allowed
      rw [stepped] at stepped'
      cases stepped'
      exact holds'

/-- A storage is the list of the documents put into it, where removing moves the
last one into the gap, and none of its operations leaves its bytes. -/
theorem storage_is_list (positive : 0 < docSize) (reached : Reached docSize s docs) :
    s.Keeps docSize docs ∧ s.Grows ∧
      ∀ op : Op, op.Allowed s → ∃ after, s.step op = .ok after := by
  obtain ⟨old, holds⟩ := reached.holds positive
  refine ⟨holds.keeps, s.grows, ?_⟩
  intro op allowed
  obtain ⟨after, stepped, _⟩ := holds.step allowed
  exact ⟨after, stepped⟩

/-- Two documents of two bytes were put, and the first one removed. -/
def moved : Storage :=
  { docSize := 2, data := [3, 4, 3, 4] ++ List.replicate 28 0, count := 1 }

theorem reached_moved : Reached 2 moved [[3, 4]] := by
  have first : step { docSize := 2 } (.put [1, 2]) =
      .ok { docSize := 2, data := [1, 2] ++ List.replicate 30 0, count := 1 } := by
    decide +kernel
  have second : step { docSize := 2, data := [1, 2] ++ List.replicate 30 0, count := 1 }
      (.put [3, 4, 5]) =
      .ok { docSize := 2, data := [1, 2, 3, 4] ++ List.replicate 28 0, count := 2 } := by
    decide +kernel
  have third : step { docSize := 2, data := [1, 2, 3, 4] ++ List.replicate 28 0, count := 2 }
      (.remove 0) = .ok moved := by
    decide +kernel
  exact ((Reached.empty.step (by decide) first).step (by decide) second).step (by decide) third

theorem storage_is_list_moved : moved.Keeps 2 [[3, 4]] ∧ moved.Grows ∧
    ∀ op : Op, op.Allowed moved → ∃ after, moved.step op = .ok after :=
  storage_is_list Nat.two_pos reached_moved

end Boutique.Db.Storage
