import Mathlib.Data.List.Induction
import Mathlib.Data.List.Nodup

namespace Boutique.Data

/-! Removal from a list that need not keep its order: the last element takes
the place of the removed one. -/

variable {α β : Type*}

def swapRemove (list : List α) (index : Nat) : List α :=
  match list[list.length - 1]? with
  | none => []
  | some last => (list.set index last).take (list.length - 1)

variable {list : List α} {index other : Nat}

@[simp] theorem swapRemove_length (list : List α) (index : Nat) :
    (swapRemove list index).length = list.length - 1 := by
  cases list with
  | nil => rfl
  | cons first rest => simp [swapRemove]

theorem swapRemove_getElem? (inside : index < list.length) (other : Nat) :
    (swapRemove list index)[other]? =
      if other < list.length - 1 then
        (if other = index then list[list.length - 1]? else list[other]?)
      else none := by
  have last : list.length - 1 < list.length := by omega
  rw [swapRemove, List.getElem?_eq_getElem last]
  by_cases kept : other < list.length - 1
  · rw [if_pos kept, List.getElem?_take_of_lt kept, List.getElem?_set]
    by_cases here : index = other
    · rw [if_pos here, if_pos inside, if_pos here.symm]
    · rw [if_neg here, if_neg (Ne.symm here)]
  · rw [if_neg kept]
    exact List.getElem?_eq_none (by rw [List.length_take, List.length_set]; omega)

/-- What is removed from the end stays behind it. -/
theorem swapRemove_append_last (inside : index < list.length) :
    swapRemove list index ++ [list[list.length - 1]] = list.set index list[list.length - 1] := by
  apply List.ext_getElem?
  intro other
  rw [List.getElem?_append, swapRemove_length, swapRemove_getElem? inside, List.getElem?_set]
  by_cases before : other < list.length - 1
  · rw [if_pos before, if_pos before]
    by_cases here : other = index
    · rw [if_pos here, if_pos here.symm, if_pos inside, List.getElem?_eq_getElem]
    · rw [if_neg here, if_neg (Ne.symm here)]
  · rw [if_neg before]
    by_cases last : other = list.length - 1
    · rw [last, Nat.sub_self, List.getElem?_cons_zero]
      by_cases here : index = list.length - 1
      · rw [if_pos here, if_pos inside]
      · rw [if_neg here, List.getElem?_eq_getElem]
    · rw [List.getElem?_eq_none (by simp; omega), if_neg (by omega),
        List.getElem?_eq_none (by omega)]

theorem swapRemove_map (f : α → β) (list : List α) (index : Nat) :
    (swapRemove list index).map f = swapRemove (list.map f) index := by
  rw [swapRemove, swapRemove, List.length_map, List.getElem?_map]
  cases list[list.length - 1]? with
  | none => rfl
  | some last => rw [List.map_take, List.map_set, Option.map_some]

theorem swapRemove_of_last (front : List α) (removed : α) :
    swapRemove (front ++ [removed]) front.length = front := by
  simp [swapRemove]

theorem swapRemove_of_inner (front middle : List α) (removed last : α) :
    swapRemove (front ++ removed :: (middle ++ [last])) front.length = front ++ last :: middle := by
  have lastAt : (front ++ removed :: (middle ++ [last])).length - 1 =
      front.length + (middle.length + 1) := by simp
  have found : (front ++ removed :: (middle ++ [last]))[front.length + (middle.length + 1)]? =
      some last := by
    rw [List.getElem?_append_right (by omega), Nat.add_sub_cancel_left, List.getElem?_cons_succ,
      List.getElem?_concat_length]
  rw [swapRemove, lastAt, found]
  simp only [List.set_append_right _ _ (Nat.le_refl _), Nat.sub_self, List.set_cons_zero,
    List.take_length_add_append, List.take_succ_cons, List.take_left]

theorem swapRemove_perm (inside : index < list.length) :
    (swapRemove list index).Perm (list.eraseIdx index) := by
  obtain ⟨front, removed, rest, rfl, rfl⟩ : ∃ front removed rest,
      list = front ++ removed :: rest ∧ front.length = index :=
    ⟨list.take index, list[index], list.drop (index + 1),
      by rw [← List.drop_eq_getElem_cons inside, List.take_append_drop],
      List.length_take_of_le (Nat.le_of_lt inside)⟩
  rw [List.eraseIdx_append_of_length_le (Nat.le_refl _), Nat.sub_self, List.eraseIdx_cons_zero]
  cases rest using List.reverseRecOn with
  | nil => rw [swapRemove_of_last, List.append_nil]
  | append_singleton middle last =>
      rw [swapRemove_of_inner]
      exact (List.perm_append_singleton last middle).symm.append_left front

theorem mem_of_mem_swapRemove (inside : index < list.length) {element : α}
    (member : element ∈ swapRemove list index) : element ∈ list :=
  List.mem_of_mem_eraseIdx ((swapRemove_perm inside).mem_iff.mp member)

/-- Everything but the removed element stays. -/
theorem mem_swapRemove_iff (distinct : list.Nodup) {removed : α}
    (found : list[index]? = some removed) {element : α} :
    element ∈ swapRemove list index ↔ element ≠ removed ∧ element ∈ list := by
  classical
  obtain ⟨inside, rfl⟩ := List.getElem?_eq_some_iff.mp found
  rw [(swapRemove_perm inside).mem_iff, ← distinct.erase_getElem, distinct.mem_erase_iff]

theorem swapRemove_nodup (distinct : list.Nodup) (inside : index < list.length) :
    (swapRemove list index).Nodup :=
  (swapRemove_perm inside).nodup_iff.mpr (distinct.eraseIdx index)

end Boutique.Data
