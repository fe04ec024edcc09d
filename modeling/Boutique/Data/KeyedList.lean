import Boutique.Data.SwapRemove
import Mathlib.Data.Set.Card

namespace Boutique.Data

/-! A list of elements with distinct keys, read as a finite map. -/

variable {α κ : Type*} {keyOf : α → κ} {list : List α} {map : κ → Option α} {element old : α}
  {index : Nat} {key : κ}

/-- The list has exactly the elements of the map, under their keys. -/
def Lists (keyOf : α → κ) (list : List α) (map : κ → Option α) : Prop :=
  ∀ key element, map key = some element ↔ element ∈ list ∧ keyOf element = key

namespace Lists

theorem nil (keyOf : α → κ) : Lists keyOf [] fun _ => none := by
  intro key element
  simp

theorem eq_none_iff (lists : Lists keyOf list map) : map key = none ↔ key ∉ list.map keyOf := by
  rw [Option.eq_none_iff_forall_ne_some, List.mem_map, not_exists]
  exact forall_congr' fun element => not_congr (lists key element)

/-- As many elements as keys with one. -/
theorem ncard_eq (lists : Lists keyOf list map) (distinct : (list.map keyOf).Nodup) :
    list.length = Set.ncard {key | map key ≠ none} := by
  classical
  have keys : {key | map key ≠ none} = ((list.map keyOf).toFinset : Set κ) := by
    ext key
    rw [Set.mem_ofPred_eq, Finset.mem_coe, List.mem_toFinset, Ne, lists.eq_none_iff, not_not]
  rw [keys, Set.ncard_coe_finset, List.toFinset_card_of_nodup distinct, List.length_map]

variable [DecidableEq κ]

/-- Distinct keys make a map of the list. -/
theorem exists_of_nodup (distinct : (list.map keyOf).Nodup) : ∃ map, Lists keyOf list map := by
  refine ⟨fun key => list.find? fun element => keyOf element = key, fun key element => ?_⟩
  constructor
  · intro found
    exact ⟨List.mem_of_find?_eq_some found, by simpa using List.find?_some found⟩
  · intro ⟨member, same⟩
    cases found : list.find? fun element => keyOf element = key with
    | none =>
        exact absurd (decide_eq_true same) (List.find?_eq_none.mp found element member)
    | some other =>
        have otherSame : keyOf other = key := by simpa using List.find?_some found
        obtain rfl := List.inj_on_of_nodup_map distinct (List.mem_of_find?_eq_some found) member
          (otherSame.trans same.symm)
        exact found

theorem append (lists : Lists keyOf list map) (absent : keyOf element ∉ list.map keyOf) :
    Lists keyOf (list ++ [element]) (Function.update map (keyOf element) (some element)) := by
  intro key found
  rw [List.mem_append, List.mem_singleton, Function.update_apply]
  split
  · rename_i here
    rw [Option.some.injEq]
    constructor
    · intro same
      subst same
      exact ⟨.inr rfl, here.symm⟩
    · intro given
      obtain ⟨member | same, rfl⟩ := given
      · exact absurd (here ▸ List.mem_map_of_mem member) absent
      · exact same.symm
  · rename_i elsewhere
    rw [lists]
    constructor
    · intro ⟨member, same⟩
      exact ⟨.inl member, same⟩
    · intro given
      obtain ⟨member | rfl, same⟩ := given
      · exact ⟨member, same⟩
      · exact absurd same.symm elsewhere

theorem swapRemove (lists : Lists keyOf list map) (distinct : (list.map keyOf).Nodup)
    (found : list[index]? = some element) :
    Lists keyOf (swapRemove list index) (Function.update map (keyOf element) none) := by
  have apart : list.Nodup := List.Nodup.of_map keyOf distinct
  intro key other
  rw [mem_swapRemove_iff apart found, Function.update_apply]
  split
  · rename_i here
    constructor
    · exact nofun
    · intro ⟨⟨different, member⟩, same⟩
      refine absurd ?_ different
      exact List.inj_on_of_nodup_map distinct member (List.mem_of_getElem? found)
        (same.trans here)
  · rename_i elsewhere
    rw [lists]
    constructor
    · intro given
      obtain ⟨member, rfl⟩ := given
      refine ⟨⟨?_, member⟩, rfl⟩
      intro same
      subst same
      exact elsewhere rfl
    · intro ⟨⟨_, member⟩, same⟩
      exact ⟨member, same⟩

theorem remove_absent (lists : Lists keyOf list map) (absent : key ∉ list.map keyOf) :
    Lists keyOf list (Function.update map key none) := by
  have unchanged : Function.update map key none = map := by
    rw [← lists.eq_none_iff.mpr absent, Function.update_eq_self]
  rwa [unchanged]

theorem set (lists : Lists keyOf list map) (distinct : (list.map keyOf).Nodup)
    (found : list[index]? = some old) (same : keyOf old = keyOf element) :
    Lists keyOf (list.set index element) (Function.update map (keyOf element) (some element)) := by
  obtain ⟨bound, rfl⟩ := List.getElem?_eq_some_iff.mp found
  intro key other
  rw [Function.update_apply]
  split
  · rename_i here
    rw [Option.some.injEq]
    constructor
    · intro same
      subst same
      exact ⟨List.mem_set bound _, here.symm⟩
    · intro ⟨member, sameKey⟩
      obtain ⟨position, inside, rfl⟩ := List.mem_iff_getElem.mp member
      rw [List.getElem_set] at sameKey ⊢
      split
      · rfl
      · rename_i elsewhere
        rw [if_neg elsewhere] at sameKey
        rw [List.length_set] at inside
        have equal : (list.map keyOf)[position]? = (list.map keyOf)[index]? := by
          rw [List.getElem?_map, List.getElem?_map, List.getElem?_eq_getElem inside, found,
            Option.map_some, Option.map_some, sameKey, here, same]
        exact absurd ((List.getElem?_inj (by rwa [List.length_map]) distinct).mp equal).symm
          elsewhere
  · rename_i elsewhere
    rw [lists]
    constructor
    · intro given
      obtain ⟨member, rfl⟩ := given
      obtain ⟨position, inside, rfl⟩ := List.mem_iff_getElem.mp member
      refine ⟨List.mem_iff_getElem?.mpr ⟨position, ?_⟩, rfl⟩
      rw [List.getElem?_set_ne, List.getElem?_eq_getElem inside]
      intro same
      subst same
      exact elsewhere same
    · intro given
      obtain ⟨member, rfl⟩ := given
      rcases List.mem_or_eq_of_mem_set member with kept | rfl
      · exact ⟨kept, rfl⟩
      · exact absurd rfl elsewhere

end Lists

end Boutique.Data
