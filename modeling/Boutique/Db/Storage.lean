import Boutique.Core.Memory
import Boutique.Data.SwapRemove
import Mathlib.Tactic.Ring

namespace Boutique.Db

/-- `Storage`. Its bytes are known by their offset from `m_data.data()`, and
`operator new` is taken to align them. -/
structure Storage where
  docSize : Nat
  data : Bytes := []
  count : Nat := 0
deriving DecidableEq, Repr

namespace Storage

def initCap : Nat := 16

/-- The loop of `put` that makes room for one more document. -/
def grow (s : Storage) : Storage :=
  if _short : s.data.length < s.docSize * (s.count + 1) then
    let size := max (s.data.length * 2) (s.docSize * initCap)
    grow { s with data := s.data ++ List.replicate (size - s.data.length) 0 }
  else s
termination_by s.docSize * (s.count + 1) - s.data.length
decreasing_by
  have positive : 0 < s.docSize := Nat.pos_of_ne_zero fun zero => by simp [zero] at _short
  rw [List.length_append, List.length_replicate, initCap]
  omega

/-- `operator[]`. -/
def elemAt (s : Storage) (index : Nat) : Nat := index * s.docSize

def put (s : Storage) (elemData : Bytes) : Except Fault (Nat × Storage) := do
  let s := s.grow
  let doc ← readBytes .argument elemData 0 s.docSize
  let data ← writeBytes .storage s.data (s.docSize * s.count) doc
  return (s.docSize * s.count, { s with data, count := s.count + 1 })

def remove (s : Storage) (elem : Nat) : Except Fault Storage := do
  check .storageEmpty (0 < s.count)
  check .storageIndex (elem / s.docSize < s.count)
  let lastElem := s.docSize * (s.count - 1)
  if elem = lastElem then
    return { s with count := s.count - 1 }
  else
    let doc ← readBytes .storage s.data lastElem s.docSize
    let data ← writeBytes .storage s.data elem doc
    return { s with data, count := s.count - 1 }

def clear (s : Storage) : Storage := { s with count := 0 }

/-- Copying `elemData` over the document at `elem`. -/
def replace (s : Storage) (elem : Nat) (elemData : Bytes) : Except Fault Storage := do
  let doc ← readBytes .argument elemData 0 s.docSize
  let data ← writeBytes .storage s.data elem doc
  return { s with data }

/-- The storage keeps `docs`, and behind them what is left of documents that
were removed. -/
structure Holds (s : Storage) (docSize : Nat) (docs old : List Bytes) : Prop where
  positive : 0 < docSize
  docSize_eq : s.docSize = docSize
  count_eq : s.count = docs.length
  blocks : Blocks s.data docSize (docs ++ old)

variable {s : Storage} {docSize index : Nat} {docs old : List Bytes} {doc : Bytes}

theorem holds_empty (positive : 0 < docSize) : Holds { docSize } docSize [] [] :=
  ⟨positive, rfl, rfl, .nil [] docSize⟩

theorem grow_spec (s : Storage) : ∃ more, s.grow = { s with data := s.data ++ more } ∧
    s.docSize * (s.count + 1) ≤ (s.data ++ more).length := by
  induction s using grow.induct with
  | case1 s short size ih =>
      obtain ⟨more, grown, enough⟩ := ih
      rw [grow, dif_pos short, grown]
      exact ⟨List.replicate (size - s.data.length) 0 ++ more, by rw [List.append_assoc],
        by rwa [← List.append_assoc]⟩
  | case2 s enough =>
      rw [grow, dif_neg enough]
      exact ⟨[], by rw [List.append_nil], by rw [List.append_nil]; omega⟩

/-- A new document takes the place of the first that was left behind, if any. -/
theorem Holds.put (holds : s.Holds docSize docs old) (length : doc.length = docSize) :
    ∃ after, s.put doc = .ok (docSize * docs.length, after) ∧
      after.Holds docSize (docs ++ [doc]) old.tail := by
  obtain rfl := holds.docSize_eq
  obtain ⟨more, grown, enough⟩ := s.grow_spec
  have blocks := holds.blocks.extend more
  rw [holds.count_eq] at enough
  have whole : slice doc 0 s.docSize = doc := by rw [← length, slice_all]
  have inside : s.docSize * docs.length + doc.length ≤ (s.data ++ more).length := by
    rw [length, ← Nat.mul_succ]
    exact enough
  refine ⟨{ s with data := overwrite (s.data ++ more) (s.docSize * docs.length) doc,
                   count := docs.length + 1 }, ?_, holds.positive, rfl, by simp, ?_⟩
  · rw [Storage.put, grown]
    simp only [holds.count_eq]
    rw [readBytes_eq (by omega), whole, ok_bind, writeBytes_eq inside, ok_bind]
    rfl
  · cases old with
    | nil =>
        rw [List.append_nil] at blocks
        rw [List.tail_nil, List.append_nil]
        exact blocks.append length enough
    | cons first rest =>
        have bound : docs.length < (docs ++ first :: rest).length := by simp
        have written := blocks.set bound length
        rw [List.set_append_right _ _ (Nat.le_refl _), Nat.sub_self, List.set_cons_zero,
          List.append_cons] at written
        exact written

theorem Holds.replace (holds : s.Holds docSize docs old) (bound : index < docs.length)
    (length : doc.length = docSize) :
    ∃ after, s.replace (docSize * index) doc = .ok after ∧
      after.Holds docSize (docs.set index doc) old := by
  obtain rfl := holds.docSize_eq
  have whole : slice doc 0 s.docSize = doc := by rw [← length, slice_all]
  have among : index < (docs ++ old).length := by
    rw [List.length_append]
    omega
  have inside : s.docSize * index + doc.length ≤ s.data.length := by
    rw [length]
    exact holds.blocks.inside among
  have written := holds.blocks.set among length
  rw [List.set_append_left _ _ bound] at written
  refine ⟨{ s with data := overwrite s.data (s.docSize * index) doc }, ?_, holds.positive, rfl,
    by simpa using holds.count_eq, written⟩
  rw [Storage.replace, readBytes_eq (by omega), whole, ok_bind, writeBytes_eq inside, ok_bind]
  rfl

theorem Holds.remove (holds : s.Holds docSize docs old) (bound : index < docs.length) :
    ∃ after, s.remove (docSize * index) = .ok after ∧
      after.Holds docSize (Data.swapRemove docs index) (docs[docs.length - 1] :: old) := by
  obtain rfl := holds.docSize_eq
  have positive := holds.positive
  have some : decide (0 < s.count) = true := by
    rw [holds.count_eq, decide_eq_true_eq]
    omega
  have valid : decide (s.docSize * index / s.docSize < s.count) = true := by
    rw [Nat.mul_div_cancel_left index positive, holds.count_eq, decide_eq_true_eq]
    exact bound
  have lastBound : docs.length - 1 < docs.length := by omega
  have among : ∀ {i}, i < docs.length → i < (docs ++ old).length := by
    intro i before
    rw [List.length_append]
    omega
  have left := Data.swapRemove_append_last bound
  rw [Storage.remove, some, check_true, ok_bind, valid, check_true, ok_bind, holds.count_eq]
  by_cases last : s.docSize * index = s.docSize * (docs.length - 1)
  · obtain rfl := Nat.eq_of_mul_eq_mul_left positive last
    refine ⟨{ s with count := docs.length - 1 }, by rw [if_pos rfl]; rfl,
      positive, rfl, by simp, ?_⟩
    rw [List.append_cons, left, List.set_getElem_self]
    exact holds.blocks
  · have lastDoc : (docs ++ old)[docs.length - 1]? = Option.some docs[docs.length - 1] := by
      rw [List.getElem?_append_left lastBound, List.getElem?_eq_getElem]
    have length := holds.blocks.length_eq _ (List.mem_of_getElem? lastDoc)
    have inside : s.docSize * index + docs[docs.length - 1].length ≤ s.data.length := by
      rw [length]
      exact holds.blocks.inside (among bound)
    have written := holds.blocks.set (among bound) length
    rw [List.set_append_left _ _ bound, ← left, ← List.append_cons] at written
    refine ⟨{ s with data := overwrite s.data (s.docSize * index) docs[docs.length - 1],
                     count := docs.length - 1 }, ?_, positive, rfl, by simp, written⟩
    rw [if_neg last, readBytes_eq (holds.blocks.inside (among lastBound)), ok_bind,
      holds.blocks.content lastDoc, writeBytes_eq inside, ok_bind]
    rfl

/-- Clearing leaves every document behind. -/
theorem Holds.clear (holds : s.Holds docSize docs old) :
    s.clear.Holds docSize [] (docs ++ old) :=
  ⟨holds.positive, holds.docSize_eq, rfl, holds.blocks⟩

end Storage

end Boutique.Db
