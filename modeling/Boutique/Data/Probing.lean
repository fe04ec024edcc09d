import Mathlib.Data.List.Nodup
import Mathlib.Data.List.Range
import Mathlib.Data.Nat.ModEq

namespace Boutique.Data

/-! Linear probing in an array whose size is a power of two.

`probe` walks the positions with a mask, as programs do; `probe_eq` says that
it searches the distances `0, 1, ...` from the home position in order, each
once and all of them. -/

variable {ε ρ : Type}

/-- Visits `index` and the positions after it, cyclically, until a visit gives a
result or the walk is back at `start`. The fuel bounds the steps. -/
def probe (exhausted : ε) (visit : Nat → Except ε (Option ρ)) (size start : Nat) :
    Nat → Nat → Except ε (Option ρ)
  | 0, _ => .error exhausted
  | fuel + 1, index => do
      match ← visit index with
      | some result => return some result
      | none =>
          let next := (index + 1) &&& (size - 1)
          if next = start then return none else probe exhausted visit size start fuel next

def probeAt (size home distance : Nat) : Nat := (home + distance) % size

variable {size home distance other : Nat}

theorem mask_eq_mod (powerOfTwo : ∃ k, size = 2 ^ k) (value : Nat) :
    value &&& (size - 1) = value % size := by
  obtain ⟨k, rfl⟩ := powerOfTwo
  exact Nat.and_two_pow_sub_one_eq_mod value k

theorem probeAt_lt (positive : 0 < size) (home distance : Nat) :
    probeAt size home distance < size :=
  Nat.mod_lt _ positive

theorem probeAt_succ (size home distance : Nat) :
    (probeAt size home distance + 1) % size = probeAt size home (distance + 1) := by
  rw [probeAt, probeAt, Nat.mod_add_mod, Nat.add_assoc]

theorem probeAt_size (size home : Nat) : probeAt size home size = probeAt size home 0 := by
  rw [probeAt, probeAt, Nat.add_mod_right, Nat.add_zero]

theorem probeAt_injective (inside : distance < size) (otherInside : other < size)
    (same : probeAt size home distance = probeAt size home other) : distance = other := by
  have congruent : distance ≡ other [MOD size] := Nat.ModEq.add_left_cancel' home same
  rwa [Nat.ModEq, Nat.mod_eq_of_lt inside, Nat.mod_eq_of_lt otherInside] at congruent

theorem exists_probeAt_eq {position : Nat} (inside : position < size) (home : Nat) :
    ∃ distance < size, probeAt size home distance = position := by
  have homeInside := Nat.mod_lt home (Nat.zero_lt_of_lt inside)
  refine ⟨(position + (size - home % size)) % size, Nat.mod_lt _ (by omega), ?_⟩
  rw [probeAt, Nat.add_mod_mod, ← Nat.mod_add_mod, ← Nat.add_assoc, Nat.add_comm _ position,
    Nat.add_assoc, Nat.add_sub_cancel' (Nat.le_of_lt homeInside), Nat.add_mod_right,
    Nat.mod_eq_of_lt inside]

/-- What a walk returns, some visit returned. -/
theorem visited_of_probe {exhausted : ε} {visit : Nat → Except ε (Option ρ)}
    {start fuel index : Nat} {result : ρ}
    (found : probe exhausted visit size start fuel index = .ok (some result)) :
    ∃ index, visit index = .ok (some result) := by
  induction fuel generalizing index with
  | zero => cases found
  | succ fuel ih =>
      rw [probe] at found
      cases here : visit index with
      | error fault =>
          rw [here] at found
          cases found
      | ok stopped =>
          rw [here] at found
          cases stopped with
          | some result =>
              cases found
              exact ⟨index, here⟩
          | none =>
              simp only [bind, Except.bind] at found
              split at found
              · cases found
              · exact ih found

theorem probe_from {exhausted : ε} {visit : Nat → Except ε (Option ρ)}
    (powerOfTwo : ∃ k, size = 2 ^ k) (home fuel : Nat) (some : 0 < fuel)
    (total : distance + fuel = size) :
    probe exhausted visit size (probeAt size home 0) fuel (probeAt size home distance) =
      (List.range' distance fuel).findSomeM? fun d => visit (probeAt size home d) := by
  induction fuel generalizing distance with
  | zero => omega
  | succ fuel ih =>
      rw [probe, List.range'_succ, List.findSomeM?_cons]
      cases visit (probeAt size home distance) with
      | error fault => rfl
      | ok result =>
          cases result with
          | some result => rfl
          | none =>
              simp only [bind, Except.bind]
              rw [mask_eq_mod powerOfTwo, probeAt_succ]
              by_cases last : fuel = 0
              · obtain rfl := last
                rw [← total, probeAt_size, if_pos rfl]
                rfl
              · rw [if_neg, ih (Nat.pos_of_ne_zero last) (by omega)]
                intro wrapped
                have same := probeAt_injective (by omega) (by omega) wrapped
                omega

/-- The masked walk searches every distance once, in order, and always ends. -/
theorem probe_eq {exhausted : ε} {visit : Nat → Except ε (Option ρ)}
    (powerOfTwo : ∃ k, size = 2 ^ k) (home : Nat) :
    probe exhausted visit size (home &&& (size - 1)) size (home &&& (size - 1)) =
      (List.range size).findSomeM? fun d => visit (probeAt size home d) := by
  have positive : 0 < size := by
    obtain ⟨k, rfl⟩ := powerOfTwo
    exact Nat.two_pow_pos k
  have start : home &&& (size - 1) = probeAt size home 0 := mask_eq_mod powerOfTwo home
  rw [start, probe_from powerOfTwo home size positive (Nat.zero_add size), List.range_eq_range']

theorem visited_of_findSomeM?_none {α : Type} {visit : α → Except ε (Option ρ)} {list : List α}
    (searched : list.findSomeM? visit = .ok none) : ∀ element ∈ list, visit element = .ok none := by
  induction list with
  | nil => exact nofun
  | cons first rest ih =>
      rw [List.findSomeM?_cons] at searched
      cases here : visit first with
      | error fault =>
          rw [here] at searched
          cases searched
      | ok result =>
          rw [here] at searched
          cases result with
          | none => exact List.forall_mem_cons.mpr ⟨here, ih searched⟩
          | some result => cases searched

theorem findSomeM?_eq_none_iff {α : Type} {visit : α → Except ε (Option ρ)} {list : List α} :
    list.findSomeM? visit = .ok none ↔ ∀ element ∈ list, visit element = .ok none := by
  constructor
  · exact visited_of_findSomeM?_none
  · intro passed
    induction list with
    | nil => rfl
    | cons first rest ih =>
        rw [List.forall_mem_cons] at passed
        rw [List.findSomeM?_cons, passed.1]
        exact ih passed.2

theorem findSomeM?_range'_eq_some_iff {visit : Nat → Except ε (Option ρ)} {start count : Nat}
    {result : ρ} :
    (List.range' start count).findSomeM? visit = .ok (some result) ↔
      ∃ d, start ≤ d ∧ d < start + count ∧ visit d = .ok (some result) ∧
        ∀ e, start ≤ e → e < d → visit e = .ok none := by
  induction count generalizing start with
  | zero =>
      refine ⟨nofun, fun ⟨d, after, before, _⟩ => ?_⟩
      omega
  | succ count ih =>
      rw [List.range'_succ, List.findSomeM?_cons]
      constructor
      · intro searched
        cases here : visit start with
        | error fault =>
            rw [here] at searched
            cases searched
        | ok found =>
            rw [here] at searched
            cases found with
            | some found =>
                cases searched
                exact ⟨start, Nat.le_refl _, by omega, here, fun e _ _ => by omega⟩
            | none =>
                obtain ⟨d, after, before, stopped, passed⟩ := ih.mp searched
                refine ⟨d, by omega, by omega, stopped, fun e _ early => ?_⟩
                by_cases first : e = start
                · rw [first, here]
                · exact passed e (by omega) early
      · intro ⟨d, after, before, stopped, passed⟩
        by_cases first : d = start
        · rw [← first, stopped]
          rfl
        · rw [passed start (Nat.le_refl _) (by omega)]
          exact ih.mpr ⟨d, by omega, by omega, stopped, fun e _ early =>
            passed e (by omega) early⟩

section

variable {exhausted : ε} {visit : Nat → Except ε (Option ρ)}

/-- A walk comes back to its start when no visit ended it. -/
theorem probe_eq_none_iff (powerOfTwo : ∃ k, size = 2 ^ k) (home : Nat) :
    probe exhausted visit size (home &&& (size - 1)) size (home &&& (size - 1)) = .ok none ↔
      ∀ d < size, visit (probeAt size home d) = .ok none := by
  rw [probe_eq powerOfTwo, findSomeM?_eq_none_iff]
  simp only [List.mem_range]

theorem probe_eq_some_iff (powerOfTwo : ∃ k, size = 2 ^ k) (home : Nat) {result : ρ} :
    probe exhausted visit size (home &&& (size - 1)) size (home &&& (size - 1)) =
        .ok (some result) ↔
      ∃ d < size, visit (probeAt size home d) = .ok (some result) ∧
        ∀ e < d, visit (probeAt size home e) = .ok none := by
  rw [probe_eq powerOfTwo, List.range_eq_range', findSomeM?_range'_eq_some_iff]
  simp only [Nat.zero_le, true_and, Nat.zero_add, forall_const]

end

/-- The walk without fuel, next to the positions it visits: it has an outcome
where it ends. -/
inductive Walks (visit : Nat → Except ε (Option ρ)) (size start : Nat) :
    Nat → List Nat → Except ε (Option ρ) → Prop where
  | failed {index : Nat} {fault : ε} (visited : visit index = .error fault) :
      Walks visit size start index [index] (.error fault)
  | stopped {index : Nat} {result : ρ} (visited : visit index = .ok (some result)) :
      Walks visit size start index [index] (.ok (some result))
  | wrapped {index : Nat} (visited : visit index = .ok none)
      (back : (index + 1) &&& (size - 1) = start) :
      Walks visit size start index [index] (.ok none)
  | onward {index : Nat} {positions : List Nat} {outcome : Except ε (Option ρ)}
      (visited : visit index = .ok none) (away : (index + 1) &&& (size - 1) ≠ start)
      (rest : Walks visit size start ((index + 1) &&& (size - 1)) positions outcome) :
      Walks visit size start index (index :: positions) outcome

theorem walks_from {exhausted : ε} {visit : Nat → Except ε (Option ρ)}
    (powerOfTwo : ∃ k, size = 2 ^ k) (home fuel : Nat) (some : 0 < fuel)
    (total : distance + fuel = size) :
    ∃ count, 0 < count ∧ count ≤ fuel ∧
      Walks visit size (probeAt size home 0) (probeAt size home distance)
        ((List.range' distance count).map (probeAt size home))
        (probe exhausted visit size (probeAt size home 0) fuel (probeAt size home distance)) := by
  induction fuel generalizing distance with
  | zero => omega
  | succ fuel ih =>
      rw [probe]
      cases here : visit (probeAt size home distance) with
      | error fault => exact ⟨1, Nat.one_pos, by omega, .failed here⟩
      | ok result =>
          cases result with
          | some result => exact ⟨1, Nat.one_pos, by omega, .stopped here⟩
          | none =>
              have next : (probeAt size home distance + 1) &&& (size - 1) =
                  probeAt size home (distance + 1) := by
                rw [mask_eq_mod powerOfTwo, probeAt_succ]
              simp only [bind, Except.bind, next]
              by_cases back : probeAt size home (distance + 1) = probeAt size home 0
              · rw [if_pos back]
                exact ⟨1, Nat.one_pos, by omega, .wrapped here (next.trans back)⟩
              · have left : 0 < fuel := by
                  by_contra last
                  obtain rfl : distance + 1 = size := by omega
                  exact back (probeAt_size _ home)
                have ahead : distance + 1 + fuel = size := by omega
                obtain ⟨count, _, bound, walks⟩ := ih left ahead
                rw [if_neg back]
                refine ⟨count + 1, Nat.succ_pos count, by omega, ?_⟩
                rw [List.range'_succ, List.map_cons]
                refine .onward here ?_ ?_
                · rwa [next]
                · rwa [next]

/-- The walk ends within `size` steps, having visited the first distances in
order. -/
theorem walks_probe {exhausted : ε} {visit : Nat → Except ε (Option ρ)}
    (powerOfTwo : ∃ k, size = 2 ^ k) (home : Nat) :
    ∃ count, 0 < count ∧ count ≤ size ∧
      Walks visit size (home &&& (size - 1)) (home &&& (size - 1))
        ((List.range count).map (probeAt size home))
        (probe exhausted visit size (home &&& (size - 1)) size (home &&& (size - 1))) := by
  have positive : 0 < size := by
    obtain ⟨k, rfl⟩ := powerOfTwo
    exact Nat.two_pow_pos k
  have start : home &&& (size - 1) = probeAt size home 0 := mask_eq_mod powerOfTwo home
  simp only [start, List.range_eq_range']
  exact walks_from powerOfTwo home size positive (Nat.zero_add size)

theorem probeAt_nodup (home : Nat) {count : Nat} (bound : count ≤ size) :
    ((List.range count).map (probeAt size home)).Nodup := by
  refine List.Nodup.map_on ?_ List.nodup_range
  intro distance inside other otherInside same
  rw [List.mem_range] at inside otherInside
  exact probeAt_injective (by omega) (by omega) same

theorem findSomeM?_range'_congr {visit other : Nat → Except ε (Option ρ)} (start count : Nat)
    (same : ∀ d, start ≤ d → d < start + count →
      (∀ e, start ≤ e → e < d → visit e = .ok none) → other d = visit d) :
    (List.range' start count).findSomeM? other = (List.range' start count).findSomeM? visit := by
  induction count generalizing start with
  | zero => rfl
  | succ count ih =>
      rw [List.range'_succ, List.findSomeM?_cons, List.findSomeM?_cons,
        same start (Nat.le_refl _) (by omega) fun e _ _ => by omega]
      cases here : visit start with
      | error fault => rfl
      | ok result =>
          cases result with
          | some result => rfl
          | none =>
              refine ih (start + 1) fun d after inside passed => same d (by omega) (by omega) ?_
              intro e from_ before
              by_cases first : e = start
              · rw [first, here]
              · exact passed e (by omega) before

/-- Two walks agree that make the same of everything they come to. -/
theorem probe_congr {exhausted : ε} {visit other : Nat → Except ε (Option ρ)}
    (powerOfTwo : ∃ k, size = 2 ^ k) (home : Nat)
    (same : ∀ d < size, (∀ e < d, visit (probeAt size home e) = .ok none) →
      other (probeAt size home d) = visit (probeAt size home d)) :
    probe exhausted other size (home &&& (size - 1)) size (home &&& (size - 1)) =
      probe exhausted visit size (home &&& (size - 1)) size (home &&& (size - 1)) := by
  rw [probe_eq powerOfTwo, probe_eq powerOfTwo, List.range_eq_range']
  apply findSomeM?_range'_congr
  intro d _ inside passed
  exact same d (by omega) fun e before => passed e (Nat.zero_le e) before

/-! The first distance at which a search stops. -/

variable {look : Nat → Option ρ} {result : ρ}

theorem findSome?_range_eq_some_iff :
    (List.range size).findSome? look = some result ↔
      ∃ d < size, look d = some result ∧ ∀ e < d, look e = none := by
  induction size with
  | zero => simp
  | succ size ih =>
      rw [List.range_succ, List.findSome?_append, Option.or_eq_some_iff, ih,
        List.findSome?_eq_none_iff]
      simp only [List.mem_range, List.findSome?_cons, List.findSome?_nil]
      constructor
      · intro given
        rcases given with ⟨d, inside, found, skipped⟩ | ⟨skipped, found⟩
        · exact ⟨d, Nat.lt_succ_of_lt inside, found, skipped⟩
        · refine ⟨size, Nat.lt_succ_self size, ?_, skipped⟩
          cases here : look size with
          | none => rw [here] at found; exact absurd found (by simp)
          | some _ => rw [here] at found; exact found
      · intro ⟨d, inside, found, skipped⟩
        by_cases early : d < size
        · exact .inl ⟨d, early, found, skipped⟩
        · obtain rfl : d = size := by omega
          exact .inr ⟨skipped, by rw [found]⟩

end Boutique.Data
