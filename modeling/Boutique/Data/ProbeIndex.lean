import Boutique.Data.Probing
import Boutique.Data.SwapRemove
import Mathlib.Data.Fintype.Card

namespace Boutique.Data

/-! An index by linear probing over documents kept elsewhere.

The documents are known by the list of their keys. A slot is free from the
start, freed by a removal, or holds the hash and the position of one key.
`Indexes` is the invariant of such a table, kept by adding a key to the end of
the list and by swap-removal from it. -/

inductive Slot (η : Type) where
  | empty
  | removed
  | live (hash : η) (index : Nat)
deriving DecidableEq, Repr

def Slot.isLive {η : Type} : Slot η → Bool
  | .live _ _ => true
  | .empty | .removed => false

variable {κ η : Type} (home : η → Nat) (hash : κ → η)

/-- The slot `distance` steps along the probe path of a hash. -/
def pathSlot (slots : List (Slot η)) (h : η) (distance : Nat) : Option (Slot η) :=
  slots[probeAt slots.length (home h) distance]?

/-- The table holds every key once and nothing else, each within reach of a
lookup. -/
structure Indexes (keys : List κ) (slots : List (Slot η)) : Prop where
  live : ∀ {position index : Nat} {h : η}, slots[position]? = some (Slot.live h index) →
    ∃ key, keys[index]? = some key ∧ h = hash key
  reached : ∀ {index : Nat} {key : κ}, keys[index]? = some key → ∃ distance < slots.length,
    pathSlot home slots (hash key) distance = some (Slot.live (hash key) index) ∧
    ∀ earlier < distance, pathSlot home slots (hash key) earlier ≠ some Slot.empty
  unique : ∀ {position other index : Nat} {h h' : η}, slots[position]? = some (Slot.live h index) →
    slots[other]? = some (Slot.live h' index) → position = other

variable {home hash} {keys : List κ} {slots : List (Slot η)} {key : κ}
  {position other index distance : Nat} {h h' : η} {slot old : Slot η}

/-! ## Writing a slot -/

theorem pathSlot_set_of_ne (found : pathSlot home slots h distance = some old)
    (elsewhere : position ≠ probeAt slots.length (home h) distance) :
    pathSlot home (slots.set position slot) h distance = some old := by
  rw [pathSlot, List.length_set, List.getElem?_set_ne elsewhere]
  exact found

theorem pathSlot_set_ne_empty (before : pathSlot home slots h distance ≠ some Slot.empty)
    (occupied : slot ≠ .empty) :
    pathSlot home (slots.set position slot) h distance ≠ some Slot.empty := by
  rw [pathSlot, List.length_set, List.getElem?_set]
  split
  · split
    · exact fun same => occupied (Option.some.inj same)
    · exact nofun
  · exact before

namespace Indexes

theorem index_lt (indexes : Indexes home hash keys slots)
    (found : slots[position]? = some (Slot.live h index)) : index < keys.length := by
  obtain ⟨key, stored, _⟩ := indexes.live found
  exact (List.getElem?_eq_some_iff.mp stored).1

theorem empty (home : η → Nat) (hash : κ → η) (size : Nat) :
    Indexes home hash [] (List.replicate size .empty) where
  live found := by cases List.eq_of_mem_replicate (List.mem_of_getElem? found)
  reached stored := by cases stored
  unique found _ := by cases List.eq_of_mem_replicate (List.mem_of_getElem? found)

/-- A key added to the list may take any free slot on its path that a lookup
gets to. -/
theorem append (indexes : Indexes home hash keys slots) (inside : distance < slots.length)
    (free : pathSlot home slots (hash key) distance = some slot) (notLive : slot.isLive = false)
    (before : ∀ earlier < distance, pathSlot home slots (hash key) earlier ≠ some Slot.empty) :
    Indexes home hash (keys ++ [key])
      (slots.set (probeAt slots.length (home (hash key)) distance)
        (.live (hash key) keys.length)) := by
  have bound := probeAt_lt (Nat.zero_lt_of_lt inside) (home (hash key)) distance
  have other : ∀ {h i}, slots[probeAt slots.length (home (hash key)) distance]? ≠
      some (Slot.live h i) := by
    intro h i found
    rw [pathSlot, found] at free
    cases free
    cases notLive
  constructor
  · intro position index h found
    rw [List.getElem?_set, if_pos bound] at found
    split at found
    · cases found
      exact ⟨key, List.getElem?_concat_length, rfl⟩
    · obtain ⟨stored, at_, same⟩ := indexes.live found
      exact ⟨stored, by rw [List.getElem?_append_left (indexes.index_lt found), at_], same⟩
  · intro index stored at_
    rw [List.length_set]
    by_cases old : index < keys.length
    · rw [List.getElem?_append_left old] at at_
      obtain ⟨distance, inside, found, before⟩ := indexes.reached at_
      refine ⟨distance, inside, pathSlot_set_of_ne found ?_,
        fun earlier short => pathSlot_set_ne_empty (before earlier short) nofun⟩
      intro here
      rw [pathSlot, ← here] at found
      exact other found
    · have bounds := (List.getElem?_eq_some_iff.mp at_).1
      obtain rfl : index = keys.length := by
        rw [List.length_append, List.length_singleton] at bounds
        omega
      obtain rfl : key = stored := by simpa using at_
      refine ⟨distance, inside, ?_,
        fun earlier short => pathSlot_set_ne_empty (before earlier short) nofun⟩
      rw [pathSlot, List.length_set, List.getElem?_set_self bound]
  · intro first second index h h' found found'
    rw [List.getElem?_set, if_pos bound] at found found'
    split at found <;> split at found'
    · rename_i here here'
      exact here.symm.trans here'
    · cases found
      exact absurd (indexes.index_lt found') (Nat.lt_irrefl _)
    · cases found'
      exact absurd (indexes.index_lt found) (Nat.lt_irrefl _)
    · exact indexes.unique found found'

section

variable (indexes : Indexes home hash keys slots)
  (found : slots[position]? = some (Slot.live h index))
  (lastFound : slots[other]? = some (Slot.live h' (keys.length - 1)))

include indexes found lastFound

/-- A slot that is live after a swap-removal is that of the last key, pointed to
the gap, or was live before. -/
theorem live_of_swapRemove {place i : Nat} {k : η}
    (slot : ((slots.set other (Slot.live h' index)).set position .removed)[place]? =
      some (Slot.live k i)) :
    place ≠ position ∧ (place = other ∧ i = index ∧ k = h' ∨
      i ≠ index ∧ i < keys.length - 1 ∧ slots[place]? = some (Slot.live k i)) := by
  rw [List.getElem?_set] at slot
  split at slot
  · split at slot <;> cases slot
  rename_i elsewhere
  refine ⟨Ne.symm elsewhere, ?_⟩
  rw [List.getElem?_set] at slot
  split at slot
  · rename_i here
    split at slot <;> cases slot
    exact .inl ⟨here.symm, rfl, rfl⟩
  · rename_i apart
    have bound := indexes.index_lt slot
    have notLast : i ≠ keys.length - 1 := by
      intro same
      subst same
      exact apart (indexes.unique lastFound slot)
    have notRemoved : i ≠ index := by
      intro same
      subst same
      exact elsewhere (indexes.unique found slot)
    exact .inr ⟨notRemoved, by omega, slot⟩

/-- The last key is found where it was, with its new index. -/
theorem reached_last (stored : keys[keys.length - 1]? = some key)
    (inner : index < keys.length - 1) :
    ∃ distance < slots.length,
      pathSlot home ((slots.set other (.live h' index)).set position .removed) (hash key) distance =
        some (Slot.live (hash key) index) ∧
      ∀ earlier < distance, pathSlot home
        ((slots.set other (.live h' index)).set position .removed) (hash key) earlier ≠
          some Slot.empty := by
  obtain ⟨distance, bound, slot, clear⟩ := indexes.reached stored
  refine ⟨distance, bound, ?_, fun earlier short =>
    pathSlot_set_ne_empty (pathSlot_set_ne_empty (clear earlier short) nofun) nofun⟩
  obtain rfl := indexes.unique lastFound slot
  cases lastFound.symm.trans slot
  have apart : position ≠ probeAt slots.length (home (hash key)) distance := by
    intro same
    subst same
    cases found.symm.trans lastFound
    omega
  rw [pathSlot, List.length_set, List.length_set, List.getElem?_set_ne apart,
    List.getElem?_set_self (List.getElem?_eq_some_iff.mp lastFound).1]

/-- The other keys are found as before. -/
theorem reached_inner {i : Nat} (stored : keys[i]? = some key) (apart : i ≠ index)
    (inner : i < keys.length - 1) :
    ∃ distance < slots.length,
      pathSlot home ((slots.set other (.live h' index)).set position .removed) (hash key) distance =
        some (Slot.live (hash key) i) ∧
      ∀ earlier < distance, pathSlot home
        ((slots.set other (.live h' index)).set position .removed) (hash key) earlier ≠
          some Slot.empty := by
  obtain ⟨distance, bound, slot, clear⟩ := indexes.reached stored
  refine ⟨distance, bound, ?_, fun earlier short =>
    pathSlot_set_ne_empty (pathSlot_set_ne_empty (clear earlier short) nofun) nofun⟩
  apply pathSlot_set_of_ne (pathSlot_set_of_ne slot ?_)
  · rw [List.length_set]
    intro same
    subst same
    cases found.symm.trans slot
    exact apart rfl
  · intro same
    subst same
    cases lastFound.symm.trans slot
    omega

/-- Swap-removal from the list frees the slot of the removed key, after the
slot of the last key has been pointed to where that key goes. The two may be
one slot. -/
theorem swapRemove :
    Indexes home hash (swapRemove keys index)
      ((slots.set other (.live h' index)).set position .removed) := by
  have inside := indexes.index_lt found
  have last : index = keys.length - 1 → position = other := by
    intro same
    subst same
    exact indexes.unique found lastFound
  constructor
  · intro place i k slot
    rw [swapRemove_getElem? inside]
    obtain ⟨elsewhere, ⟨rfl, rfl, rfl⟩ | ⟨apart, before, slot⟩⟩ :=
      indexes.live_of_swapRemove found lastFound slot
    · obtain ⟨key, stored, same⟩ := indexes.live lastFound
      have inner : i < keys.length - 1 := by
        have : i ≠ keys.length - 1 := fun here => elsewhere (last here).symm
        omega
      exact ⟨key, by rw [if_pos inner, if_pos rfl, stored], same⟩
    · obtain ⟨key, stored, same⟩ := indexes.live slot
      exact ⟨key, by rw [if_pos before, if_neg apart, stored], same⟩
  · intro i key stored
    rw [swapRemove_getElem? inside] at stored
    rw [List.length_set, List.length_set]
    split at stored
    · rename_i before
      split at stored
      · rename_i here
        subst here
        exact indexes.reached_last found lastFound stored before
      · rename_i apart
        exact indexes.reached_inner found lastFound stored apart before
    · cases stored
  · intro place place' i k k' slot slot'
    obtain ⟨_, ⟨rfl, rfl, rfl⟩ | ⟨apart, _, slot⟩⟩ :=
      indexes.live_of_swapRemove found lastFound slot
    · obtain ⟨_, ⟨rfl, _, _⟩ | ⟨apart, _, _⟩⟩ :=
        indexes.live_of_swapRemove found lastFound slot'
      · rfl
      · exact absurd rfl apart
    · obtain ⟨_, ⟨_, rfl, _⟩ | ⟨_, _, slot'⟩⟩ :=
        indexes.live_of_swapRemove found lastFound slot'
      · exact absurd rfl apart
      · exact indexes.unique slot slot'

end

/-- With fewer keys than slots, some slot is free. -/
theorem exists_free (indexes : Indexes home hash keys slots) (room : keys.length < slots.length) :
    ∃ (position : Nat) (slot : Slot η), slots[position]? = some slot ∧ slot.isLive = false := by
  by_contra full
  push Not at full
  have live : ∀ position : Fin slots.length, ∃ index : Fin keys.length, ∃ h,
      slots[(position : Nat)]? = some (Slot.live h index) := by
    intro position
    have found := List.getElem?_eq_getElem position.isLt
    cases slot : slots[(position : Nat)] with
    | empty | removed => exact absurd (by rw [slot]; rfl) (full _ _ found)
    | live h index =>
        rw [slot] at found
        exact ⟨⟨index, indexes.index_lt found⟩, h, found⟩
  choose index h found using live
  have injective : Function.Injective index := by
    intro first second same
    have other := found second
    rw [← same] at other
    exact Fin.ext (indexes.unique (found first) other)
  have card := Fintype.card_le_of_injective index injective
  rw [Fintype.card_fin, Fintype.card_fin] at card
  omega

/-- No more keys than slots: each key has a slot of its own. -/
theorem length_le (indexes : Indexes home hash keys slots) : keys.length ≤ slots.length := by
  have reached : ∀ index : Fin keys.length, ∃ position : Fin slots.length, ∃ h,
      slots[(position : Nat)]? = some (Slot.live h index) := by
    intro index
    obtain ⟨distance, inside, found, _⟩ := indexes.reached (List.getElem?_eq_getElem index.isLt)
    exact ⟨⟨_, probeAt_lt (Nat.zero_lt_of_lt inside) _ distance⟩, _, found⟩
  choose position h found using reached
  have injective : Function.Injective position := by
    intro first second same
    have other := found second
    rw [← same, found first, Option.some.injEq, Slot.live.injEq] at other
    exact Fin.ext other.2
  have card := Fintype.card_le_of_injective position injective
  rwa [Fintype.card_fin, Fintype.card_fin] at card

end Indexes

/-! ## Searching -/

variable [DecidableEq κ] [DecidableEq η]

namespace Slot

/-- Whether the slot is the one of `key`. -/
def holds (hash : κ → η) (keys : List κ) (key : κ) : Slot η → Bool
  | .live h index => h = hash key ∧ keys[index]? = some key
  | .empty | .removed => false

/-- What a lookup does at a slot: the result it ends with, or nothing to go on. -/
def lookup (hash : κ → η) (keys : List κ) (key : κ) (position : Nat) (slot : Slot η) :
    Option (Option Nat) :=
  if slot = .empty then some none
  else if slot.holds hash keys key then some (some position)
  else none

/-- What an insertion does at a slot: it takes one that is free or holds the
key already. -/
def claim (hash : κ → η) (keys : List κ) (key : κ) (position : Nat) (slot : Slot η) : Option Nat :=
  if slot.isLive && !slot.holds hash keys key then none else some position

@[simp] theorem lookup_empty : (empty : Slot η).lookup hash keys key position = some none := rfl

@[simp] theorem lookup_removed : (removed : Slot η).lookup hash keys key position = none := rfl

@[simp] theorem lookup_live : (live h index).lookup hash keys key position =
    if h = hash key ∧ keys[index]? = some key then some (some position) else none := by
  simp [lookup, holds]

@[simp] theorem claim_empty : (empty : Slot η).claim hash keys key position = some position := rfl

@[simp] theorem claim_removed :
    (removed : Slot η).claim hash keys key position = some position := rfl

@[simp] theorem claim_live : (live h index).claim hash keys key position =
    if h = hash key ∧ keys[index]? = some key then some position else none := by
  by_cases own : h = hash key ∧ keys[index]? = some key <;> simp [claim, holds, isLive, own]

theorem holds_iff : slot.holds hash keys key = true ↔
    ∃ index, slot = .live (hash key) index ∧ keys[index]? = some key := by
  cases slot with
  | empty | removed => simp [holds]
  | live h index =>
      rw [holds, decide_eq_true_eq]
      constructor
      · intro given
        obtain ⟨rfl, stored⟩ := given
        exact ⟨index, rfl, stored⟩
      · intro ⟨other, same, stored⟩
        cases same
        exact ⟨rfl, stored⟩

theorem claim_eq_none_iff :
    slot.claim hash keys key position = none ↔
      slot.isLive = true ∧ slot.holds hash keys key = false := by
  simp [claim]

theorem claim_eq_some (claimed : slot.claim hash keys key position = some other) :
    other = position ∧ (slot.isLive = false ∨ slot.holds hash keys key = true) := by
  rw [claim] at claimed
  split at claimed
  · cases claimed
  · rename_i free
    cases claimed
    refine ⟨rfl, ?_⟩
    cases live : slot.isLive with
    | false => exact .inl rfl
    | true => simpa [live] using free

end Slot

/-- The search along the probe path of `key`. -/
def search {ρ : Type} (home : η → Nat) (hash : κ → η) (visit : Nat → Slot η → Option ρ)
    (slots : List (Slot η)) (key : κ) : Option ρ :=
  (List.range slots.length).findSome? fun distance =>
    (pathSlot home slots (hash key) distance).bind
      (visit (probeAt slots.length (home (hash key)) distance))

/-- A freed slot comes before the one of the key on its path. -/
def Shadowed (home : η → Nat) (hash : κ → η) (keys : List κ) (slots : List (Slot η)) (key : κ) :
    Prop :=
  ∃ distance < slots.length,
    (pathSlot home slots (hash key) distance).any (Slot.holds hash keys key) = true ∧
    ∃ earlier < distance, pathSlot home slots (hash key) earlier = some Slot.removed

theorem search_lookup_absent (absent : key ∉ keys) :
    (search home hash (Slot.lookup hash keys key) slots key).join = none := by
  cases result : search home hash (Slot.lookup hash keys key) slots key with
  | none => rfl
  | some found =>
      obtain ⟨distance, _, here, _⟩ := findSome?_range_eq_some_iff.mp result
      obtain ⟨slot, _, found⟩ := Option.bind_eq_some_iff.mp here
      rw [Slot.lookup] at found
      split at found
      · cases found
        rfl
      · split at found
        · rename_i holds
          obtain ⟨index, _, stored⟩ := Slot.holds_iff.mp holds
          exact absurd (List.mem_of_getElem? stored) absent
        · cases found

instance (keys : List κ) (slots : List (Slot η)) (key : κ) :
    Decidable (Shadowed home hash keys slots key) :=
  inferInstanceAs (Decidable (∃ distance < slots.length, _ ∧ ∃ earlier < distance, _))

/-- Only the keys that live slots point to matter to a search. -/
theorem search_claim_congr {keys' : List κ}
    (same : ∀ {position index : Nat} {h : η}, slots[position]? = some (Slot.live h index) →
      keys[index]? = keys'[index]?) :
    search home hash (Slot.claim hash keys key) slots key =
      search home hash (Slot.claim hash keys' key) slots key := by
  rw [search, search]
  congr 1
  funext distance
  cases passed : pathSlot home slots (hash key) distance with
  | none => rfl
  | some slot =>
      cases slot with
      | empty | removed => rfl
      | live h index => rw [Option.bind_some, Option.bind_some, Slot.claim_live, Slot.claim_live,
          same passed]

namespace Indexes

theorem eq_of_holds (indexes : Indexes home hash keys slots) (distinct : keys.Nodup)
    (stored : keys[index]? = some key) (found : slots[position]? = some (Slot.live h index))
    (passed : slots[other]? = some slot) (holds : slot.holds hash keys key = true) :
    other = position := by
  obtain ⟨index', rfl, stored'⟩ := Slot.holds_iff.mp holds
  have bound := (List.getElem?_eq_some_iff.mp stored).1
  obtain rfl := (List.getElem?_inj bound distinct).mp (stored.trans stored'.symm)
  exact indexes.unique passed found

theorem search_lookup_stored (indexes : Indexes home hash keys slots) (distinct : keys.Nodup)
    (stored : keys[index]? = some key) :
    ∃ position, slots[position]? = some (Slot.live (hash key) index) ∧
      search home hash (Slot.lookup hash keys key) slots key = some (some position) := by
  obtain ⟨distance, inside, found, clear⟩ := indexes.reached stored
  refine ⟨probeAt slots.length (home (hash key)) distance, found, ?_⟩
  rw [search, findSome?_range_eq_some_iff]
  refine ⟨distance, inside, ?_, ?_⟩
  · rw [found]
    simp [Slot.lookup, Slot.holds, stored]
  · intro earlier before
    cases passed : pathSlot home slots (hash key) earlier with
    | none => rfl
    | some slot =>
        have occupied : slot ≠ .empty := by
          intro same
          subst same
          exact clear earlier before passed
        have other : ¬ slot.holds hash keys key = true := by
          intro holds
          have same := indexes.eq_of_holds distinct stored found passed holds
          have := probeAt_injective (Nat.lt_trans before inside) inside same
          omega
        rw [Option.bind_some, Slot.lookup, if_neg occupied, if_neg other]

theorem search_claim_absent (indexes : Indexes home hash keys slots)
    (room : keys.length < slots.length) (absent : key ∉ keys) :
    ∃ distance < slots.length, ∃ slot, pathSlot home slots (hash key) distance = some slot ∧
      slot.isLive = false ∧
      (∀ earlier < distance, pathSlot home slots (hash key) earlier ≠ some Slot.empty) ∧
      search home hash (Slot.claim hash keys key) slots key =
        some (probeAt slots.length (home (hash key)) distance) := by
  have unheld : ∀ slot : Slot η, ¬ slot.holds hash keys key = true := by
    intro slot holds
    obtain ⟨index, _, stored⟩ := Slot.holds_iff.mp holds
    exact absent (List.mem_of_getElem? stored)
  cases result : search home hash (Slot.claim hash keys key) slots key with
  | none =>
      obtain ⟨position, slot, found, free⟩ := indexes.exists_free room
      obtain ⟨bound, _⟩ := List.getElem?_eq_some_iff.mp found
      obtain ⟨distance, inside, rfl⟩ := exists_probeAt_eq bound (home (hash key))
      have passed := List.findSome?_eq_none_iff.mp result distance (List.mem_range.mpr inside)
      rw [pathSlot, found, Option.bind_some, Slot.claim_eq_none_iff] at passed
      rw [passed.1] at free
      cases free
  | some claimed =>
      obtain ⟨distance, inside, here, skipped⟩ := findSome?_range_eq_some_iff.mp result
      obtain ⟨slot, found, taken⟩ := Option.bind_eq_some_iff.mp here
      obtain ⟨rfl, free⟩ := Slot.claim_eq_some taken
      refine ⟨distance, inside, slot, found, free.resolve_right (unheld slot), ?_, rfl⟩
      intro earlier before empty
      have passed := skipped earlier before
      rw [empty, Option.bind_some, Slot.claim_eq_none_iff] at passed
      cases passed.1

theorem search_claim_stored (indexes : Indexes home hash keys slots) (distinct : keys.Nodup)
    (stored : keys[index]? = some key) (clear : ¬ Shadowed home hash keys slots key) :
    ∃ position, slots[position]? = some (Slot.live (hash key) index) ∧
      search home hash (Slot.claim hash keys key) slots key = some position := by
  obtain ⟨distance, inside, found, reached⟩ := indexes.reached stored
  refine ⟨probeAt slots.length (home (hash key)) distance, found, ?_⟩
  have own : (Slot.live (hash key) index).holds hash keys key = true :=
    Slot.holds_iff.mpr ⟨index, rfl, stored⟩
  rw [search, findSome?_range_eq_some_iff]
  refine ⟨distance, inside, ?_, ?_⟩
  · rw [found, Option.bind_some, Slot.claim, own]
    rfl
  · intro earlier before
    cases passed : pathSlot home slots (hash key) earlier with
    | none => rfl
    | some slot =>
        rw [Option.bind_some, Slot.claim_eq_none_iff]
        constructor
        · cases slot with
          | live => rfl
          | empty => exact absurd passed (reached earlier before)
          | removed =>
              refine absurd ⟨distance, inside, ?_, earlier, before, passed⟩ clear
              rw [found]
              exact own
        · by_contra holds
          rw [Bool.not_eq_false] at holds
          have same := indexes.eq_of_holds distinct stored found passed holds
          have := probeAt_injective (Nat.lt_trans before inside) inside same
          omega

/-- An insertion stops at a freed slot in front of the one of its key. -/
theorem search_claim_shadowed (indexes : Indexes home hash keys slots) (distinct : keys.Nodup)
    (shadowed : Shadowed home hash keys slots key) :
    ∃ position slot, slots[position]? = some slot ∧ slot.isLive = false ∧
      search home hash (Slot.claim hash keys key) slots key = some position := by
  obtain ⟨distance, inside, own, earlier, before, removed⟩ := shadowed
  have claims : Slot.claim hash keys key (probeAt slots.length (home (hash key)) earlier)
      Slot.removed ≠ none := by simp
  cases result : search home hash (Slot.claim hash keys key) slots key with
  | none =>
      have passed := List.findSome?_eq_none_iff.mp result earlier
        (List.mem_range.mpr (Nat.lt_trans before inside))
      rw [removed] at passed
      exact absurd passed claims
  | some claimed =>
      obtain ⟨reached, within, here, skipped⟩ := findSome?_range_eq_some_iff.mp result
      obtain ⟨slot, found, taken⟩ := Option.bind_eq_some_iff.mp here
      obtain ⟨rfl, free⟩ := Slot.claim_eq_some taken
      refine ⟨_, slot, found, ?_, rfl⟩
      rcases free with free | holds
      · exact free
      · -- The search would have passed the freed slot to get to its own.
        obtain ⟨ownSlot, ownFound, ownHolds⟩ := (Option.any_eq_true _ _).mp own
        obtain ⟨index, rfl, stored⟩ := Slot.holds_iff.mp ownHolds
        have same := probeAt_injective within inside
          (indexes.eq_of_holds distinct stored ownFound found holds)
        have passed := skipped earlier (same ▸ before)
        rw [removed] at passed
        exact absurd passed claims

end Indexes

end Boutique.Data
