import Mathlib.Data.List.Basic

namespace Boutique.Data

/-! Machines that answer. An input makes a step, which leads to a new state and
gives outputs, or fails. -/

variable {σ α β ι ο ε τ : Type*} {step : σ → ι → Except ε (σ × List ο)} {s t after : σ} {a : α}
  {input : ι} {inputs front back : List ι} {outputs : List ο}

/-- The steps of the inputs one after the other, up to one that fails. -/
def runAll (step : σ → ι → Except ε (σ × List ο)) : σ → List ι → Except ε (σ × List ο)
  | s, [] => .ok (s, [])
  | s, input :: inputs =>
      match step s input with
      | .error failure => .error failure
      | .ok (s, first) =>
          match runAll step s inputs with
          | .error failure => .error failure
          | .ok (s, later) => .ok (s, first ++ later)

@[simp] theorem runAll_nil : runAll step s [] = .ok (s, []) := rfl

theorem runAll_cons_iff : runAll step s (input :: inputs) = .ok (after, outputs) ↔
    ∃ next first later, step s input = .ok (next, first) ∧
      runAll step next inputs = .ok (after, later) ∧ outputs = first ++ later := by
  rw [runAll]
  constructor
  · intro ran
    split at ran
    · cases ran
    · rename_i next first stepped
      split at ran
      · cases ran
      · rename_i later rest
        cases ran
        exact ⟨next, first, later, stepped, rest, rfl⟩
  · intro given
    obtain ⟨next, first, later, stepped, rest, rfl⟩ := given
    rw [stepped]
    dsimp only
    rw [rest]

theorem runAll_append_iff : runAll step s (front ++ back) = .ok (after, outputs) ↔
    ∃ middle first later, runAll step s front = .ok (middle, first) ∧
      runAll step middle back = .ok (after, later) ∧ outputs = first ++ later := by
  induction front generalizing s outputs with
  | nil =>
      rw [List.nil_append]
      constructor
      · intro ran
        exact ⟨s, [], outputs, rfl, ran, rfl⟩
      · intro given
        obtain ⟨middle, first, later, none, ran, rfl⟩ := given
        cases none
        exact ran
  | cons input front ih =>
      rw [List.cons_append, runAll_cons_iff]
      constructor
      · intro given
        obtain ⟨next, first, _, stepped, behind, rfl⟩ := given
        obtain ⟨middle, second, later, ran, rest, rfl⟩ := ih.mp behind
        exact ⟨middle, first ++ second, later,
          runAll_cons_iff.mpr ⟨next, first, second, stepped, ran, rfl⟩, rest,
          (List.append_assoc _ _ _).symm⟩
      · intro given
        obtain ⟨middle, _, later, before, rest, rfl⟩ := given
        obtain ⟨next, first, second, stepped, ran, rfl⟩ := runAll_cons_iff.mp before
        exact ⟨next, first, second ++ later, stepped,
          ih.mpr ⟨middle, second, later, ran, rest, rfl⟩, List.append_assoc _ _ _⟩

/-! ## Simulation

A machine that never fails says what the answers ought to be. -/

/-- The answers to the inputs, and the state then. -/
def answerAll (answer : α → ι → α × List ο) : α → List ι → α × List ο
  | a, [] => (a, [])
  | a, input :: inputs =>
      let (a, first) := answer a input
      let (a, later) := answerAll answer a inputs
      (a, first ++ later)

/-- Each input is allowed in the states that the inputs before it lead to. -/
def AllowedRun (step : σ → ι → Except ε (σ × List ο)) (answer : α → ι → α × List ο)
    (allowed : σ → α → ι → Prop) : σ → α → List ι → Prop
  | _, _, [] => True
  | s, a, input :: inputs =>
      allowed s a input ∧ match step s input with
        | .error _ => True
        | .ok (s, _) => AllowedRun step answer allowed s (answer a input).1 inputs

/-- Where an input is allowed, the step gives the answer, and the states stay
related. -/
def Simulates (step : σ → ι → Except ε (σ × List ο)) (answer : α → ι → α × List ο)
    (related : σ → α → Prop) (allowed : σ → α → ι → Prop) : Prop :=
  ∀ s a input, related s a → allowed s a input →
    ∃ after, step s input = .ok (after, (answer a input).2) ∧ related after (answer a input).1

/-- The same where the answers alone say what is allowed. -/
def AllowedAnswers (answer : α → ι → α × List ο) (allowed : α → ι → Prop) : α → List ι → Prop
  | _, [] => True
  | a, input :: inputs =>
      allowed a input ∧ AllowedAnswers answer allowed (answer a input).1 inputs

/-- And where the steps alone do. -/
def AlongRun (step : σ → ι → Except ε (σ × List ο)) (allowed : σ → ι → Prop) : σ → List ι → Prop
  | _, [] => True
  | s, input :: inputs =>
      allowed s input ∧ match step s input with
        | .error _ => True
        | .ok (s, _) => AlongRun step allowed s inputs

section

variable {answer : α → ι → α × List ο} {related : σ → α → Prop} {allowed : σ → α → ι → Prop}

instance decidableAllowedRun [∀ s a input, Decidable (allowed s a input)] :
    (s : σ) → (a : α) → (inputs : List ι) → Decidable (AllowedRun step answer allowed s a inputs)
  | _, _, [] => .isTrue trivial
  | s, a, input :: inputs =>
      haveI : Decidable (match step s input with
        | .error _ => True
        | .ok (s, _) => AllowedRun step answer allowed s (answer a input).1 inputs) :=
        match step s input with
        | .error _ => .isTrue trivial
        | .ok (s, _) => decidableAllowedRun s (answer a input).1 inputs
      inferInstanceAs (Decidable (_ ∧ _))

instance decidableAllowedAnswers {allowed : α → ι → Prop} [∀ a input, Decidable (allowed a input)] :
    (a : α) → (inputs : List ι) → Decidable (AllowedAnswers answer allowed a inputs)
  | _, [] => .isTrue trivial
  | a, input :: inputs =>
      haveI : Decidable (AllowedAnswers answer allowed (answer a input).1 inputs) :=
        decidableAllowedAnswers (answer a input).1 inputs
      inferInstanceAs (Decidable (_ ∧ _))

instance decidableAlongRun {allowed : σ → ι → Prop} [∀ s input, Decidable (allowed s input)] :
    (s : σ) → (inputs : List ι) → Decidable (AlongRun step allowed s inputs)
  | _, [] => .isTrue trivial
  | s, input :: inputs =>
      haveI : Decidable (match step s input with
        | .error _ => True
        | .ok (s, _) => AlongRun step allowed s inputs) :=
        match step s input with
        | .error _ => .isTrue trivial
        | .ok (s, _) => decidableAlongRun s inputs
      inferInstanceAs (Decidable (_ ∧ _))

theorem answerAll_cons (a : α) (input : ι) (inputs : List ι) :
    answerAll answer a (input :: inputs) =
      ((answerAll answer (answer a input).1 inputs).1,
        (answer a input).2 ++ (answerAll answer (answer a input).1 inputs).2) := rfl

theorem answerAll_append (a : α) (front back : List ι) :
    answerAll answer a (front ++ back) =
      ((answerAll answer (answerAll answer a front).1 back).1,
        (answerAll answer a front).2 ++
          (answerAll answer (answerAll answer a front).1 back).2) := by
  induction front generalizing a with
  | nil => rfl
  | cons input front ih =>
      rw [List.cons_append, answerAll_cons, ih, answerAll_cons]
      dsimp only
      rw [List.append_assoc]

theorem allowedAnswers_append {allowed : α → ι → Prop} {a : α} {front back : List ι} :
    AllowedAnswers answer allowed a (front ++ back) ↔
      AllowedAnswers answer allowed a front ∧
        AllowedAnswers answer allowed (answerAll answer a front).1 back := by
  induction front generalizing a with
  | nil => simp [AllowedAnswers, answerAll]
  | cons input front ih => simp only [List.cons_append, AllowedAnswers, answerAll, ih, and_assoc]

theorem AllowedAnswers.and {allowed allowed' : α → ι → Prop}
    (meets : AllowedAnswers answer allowed a inputs)
    (meets' : AllowedAnswers answer allowed' a inputs) :
    AllowedAnswers answer (fun a input => allowed a input ∧ allowed' a input) a inputs := by
  induction inputs generalizing a with
  | nil => trivial
  | cons input inputs ih => exact ⟨⟨meets.1, meets'.1⟩, ih meets.2 meets'.2⟩

theorem AllowedAnswers.allowedRun {allowed : α → ι → Prop}
    (meets : AllowedAnswers answer allowed a inputs) (s : σ) :
    AllowedRun step answer (fun _ => allowed) s a inputs := by
  induction inputs generalizing s a with
  | nil => trivial
  | cons input inputs ih =>
      obtain ⟨here, meets⟩ := meets
      refine ⟨here, ?_⟩
      cases step s input with
      | error failure => trivial
      | ok result => exact ih meets result.1

theorem Simulates.run (simulates : Simulates step answer related allowed) (start : related s a)
    (meets : AllowedRun step answer allowed s a inputs) :
    ∃ after, runAll step s inputs = .ok (after, (answerAll answer a inputs).2) ∧
      related after (answerAll answer a inputs).1 := by
  induction inputs generalizing s a with
  | nil => exact ⟨s, rfl, start⟩
  | cons input inputs ih =>
      obtain ⟨here, meets⟩ := meets
      obtain ⟨next, stepped, kept⟩ := simulates s a input start here
      rw [stepped] at meets
      obtain ⟨after, ran, related⟩ := ih kept meets
      exact ⟨after, runAll_cons_iff.mpr ⟨next, _, _, stepped, ran, rfl⟩, related⟩

end

/-- What the specification leads to, the program leads to the like of, and where
it fails, the program fails as well, or the failure is excused. -/
def Follows (excused : ε → Prop) (like : α → β → Prop) (program : Except ε α) : Except ε β → Prop
  | .ok b => ∃ a, program = .ok a ∧ like a b
  | .error failure => excused failure ∨ program = .error failure

section

variable {excused : ε → Prop}

@[simp] theorem follows_ok_iff {like : α → β → Prop} {a : α} {b : β} :
    Follows excused like (.ok a) (.ok b) ↔ like a b := by
  constructor
  · intro follows
    obtain ⟨_, same, alike⟩ := follows
    cases same
    exact alike
  · intro alike
    exact ⟨a, rfl, alike⟩

@[simp] theorem follows_error (like : α → β → Prop) (failure : ε) :
    Follows excused like (.error failure) (.error failure) := .inr rfl

theorem Follows.refl (program : Except ε α) : Follows excused Eq program program := by
  cases program with
  | error failure => exact follows_error _ failure
  | ok a => exact ⟨a, rfl, rfl⟩

theorem Follows.bind {α α' β β' : Type} {like : α → β → Prop} {like' : α' → β' → Prop}
    {program : Except ε α} {spec : Except ε β} {f : α → Except ε α'} {g : β → Except ε β'}
    (first : Follows excused like program spec)
    (next : ∀ a b, like a b → Follows excused like' (f a) (g b)) :
    Follows excused like' (program >>= f) (spec >>= g) := by
  cases spec with
  | error failure =>
      rcases first with excuse | rfl
      · exact .inl excuse
      · exact follows_error _ failure
  | ok b =>
      obtain ⟨a, rfl, alike⟩ := first
      exact next a b alike

end

/-- The program returns what meets the postcondition, or its failure is excused. -/
def Meets (excused : ε → Prop) (post : α → Prop) : Except ε α → Prop
  | .ok a => post a
  | .error failure => excused failure

section

variable {excused : ε → Prop}

theorem Meets.bind {α β : Type} {middle : α → Prop} {post : β → Prop} {program : Except ε α}
    {next : α → Except ε β} (first : Meets excused middle program)
    (rest : ∀ a, middle a → Meets excused post (next a)) :
    Meets excused post (program >>= next) := by
  cases program with
  | error failure => exact first
  | ok a => exact rest a first

theorem Meets.imp {post post' : α → Prop} {program : Except ε α}
    (meets : Meets excused post program) (weaker : ∀ a, post a → post' a) :
    Meets excused post' program := by
  cases program with
  | error failure => exact meets
  | ok a => exact weaker a meets

end

/-! ## Owners

Where inputs have owners, an owner whom the others' inputs do not concern gets
the outputs that it would get alone. -/

variable [DecidableEq τ] {owner : τ} {owned : List (τ × ι)} {given : List (τ × ο)}

/-- What belongs to an owner. -/
def ownedBy (owner : τ) (items : List (τ × α)) : List α :=
  (items.filter fun item => item.1 = owner).map Prod.snd

@[simp] theorem ownedBy_nil (owner : τ) : ownedBy owner ([] : List (τ × α)) = [] := rfl

@[simp] theorem ownedBy_append (owner : τ) (front back : List (τ × α)) :
    ownedBy owner (front ++ back) = ownedBy owner front ++ ownedBy owner back := by
  rw [ownedBy, List.filter_append, List.map_append]
  rfl

theorem ownedBy_cons_self (x : α) (items : List (τ × α)) :
    ownedBy owner ((owner, x) :: items) = x :: ownedBy owner items := by
  simp [ownedBy]

theorem ownedBy_cons_of_ne {other : τ} (apart : other ≠ owner) (x : α) (items : List (τ × α)) :
    ownedBy owner ((other, x) :: items) = ownedBy owner items := by
  simp [ownedBy, apart]

theorem mem_ownedBy {x : α} {items : List (τ × α)} :
    x ∈ ownedBy owner items ↔ (owner, x) ∈ items := by
  simp [ownedBy]

@[simp] theorem ownedBy_mark_self (owner : τ) (xs : List α) :
    ownedBy owner (xs.map (Prod.mk owner)) = xs := by
  simp [ownedBy, List.filter_map, Function.comp_def]

@[simp] theorem ownedBy_mark_of_ne {other : τ} (apart : other ≠ owner) (xs : List α) :
    ownedBy owner (xs.map (Prod.mk other)) = [] := by
  simp [ownedBy, List.filter_map, Function.comp_def, apart]

/-- The outputs get the owner of the input. -/
def ownedStep (step : σ → ι → Except ε (σ × List ο)) (s : σ) (input : τ × ι) :
    Except ε (σ × List (τ × ο)) :=
  match step s input.2 with
  | .error failure => .error failure
  | .ok (s, outputs) => .ok (s, outputs.map (Prod.mk input.1))

omit [DecidableEq τ] in
theorem ownedStep_ok_iff {input : τ × ι} : ownedStep step s input = .ok (after, given) ↔
    ∃ outputs, step s input.2 = .ok (after, outputs) ∧
      given = outputs.map (Prod.mk input.1) := by
  rw [ownedStep]
  cases step s input.2 with
  | error failure => simp
  | ok result =>
      obtain ⟨next, outputs⟩ := result
      dsimp only
      constructor
      · intro done
        cases done
        exact ⟨outputs, rfl, rfl⟩
      · intro made
        obtain ⟨_, same, rfl⟩ := made
        cases same
        rfl

omit [DecidableEq τ] in
/-- The inputs of one owner. -/
theorem runAll_mark (owner : τ) (ran : runAll step s inputs = .ok (after, outputs)) :
    runAll (ownedStep step) s (inputs.map (Prod.mk owner)) =
      .ok (after, outputs.map (Prod.mk owner)) := by
  induction inputs generalizing s outputs with
  | nil =>
      cases ran
      rfl
  | cons input inputs ih =>
      obtain ⟨next, first, later, stepped, rest, rfl⟩ := runAll_cons_iff.mp ran
      rw [List.map_cons, List.map_append]
      exact runAll_cons_iff.mpr
        ⟨next, _, _, ownedStep_ok_iff.mpr ⟨first, stepped, rfl⟩, ih rest, rfl⟩

omit [DecidableEq τ] in
/-- Whoever gets an output has given an input. -/
theorem owner_of_output (ran : runAll (ownedStep step) s owned = .ok (after, given))
    {output : τ × ο} (member : output ∈ given) : ∃ input ∈ owned, input.1 = output.1 := by
  induction owned generalizing s given with
  | nil =>
      cases ran
      cases member
  | cons input owned ih =>
      obtain ⟨next, _, later, marked, rest, rfl⟩ := runAll_cons_iff.mp ran
      obtain ⟨outputs, _, rfl⟩ := ownedStep_ok_iff.mp marked
      rcases List.mem_append.mp member with here | there
      · obtain ⟨_, _, rfl⟩ := List.mem_map.mp here
        exact ⟨input, List.mem_cons_self, rfl⟩
      · obtain ⟨other, among, same⟩ := ih rest there
        exact ⟨other, List.mem_cons_of_mem _ among, same⟩

theorem ownedBy_eq_nil {items : List (τ × α)} (others : ∀ item ∈ items, item.1 ≠ owner) :
    ownedBy owner items = [] := by
  rw [ownedBy, List.filter_eq_nil_iff.mpr, List.map_nil]
  intro item member
  simpa using others item member

/-- States that look alike to an owner: its own inputs do the same in both, and
those of others are not seen. -/
structure Unwinds (step : σ → ι → Except ε (σ × List ο)) (alike : σ → σ → Prop)
    (own foreign : ι → Prop) : Prop where
  own : ∀ {s t after input outputs}, alike s t → own input → step s input = .ok (after, outputs) →
    ∃ after', step t input = .ok (after', outputs) ∧ alike after after'
  foreign : ∀ {s t after input outputs}, alike s t → foreign input →
    step s input = .ok (after, outputs) → alike after t

theorem Unwinds.run {alike : σ → σ → Prop} {own foreign : ι → Prop}
    (unwinds : Unwinds step alike own foreign) (start : alike s t)
    (mine : ∀ input ∈ owned, input.1 = owner → own input.2)
    (theirs : ∀ input ∈ owned, input.1 ≠ owner → foreign input.2)
    (ran : runAll (ownedStep step) s owned = .ok (after, given)) :
    ∃ alone, runAll step t (ownedBy owner owned) = .ok (alone, ownedBy owner given) ∧
      alike after alone := by
  induction owned generalizing s t given with
  | nil =>
      cases ran
      exact ⟨t, rfl, start⟩
  | cons input owned ih =>
      obtain ⟨next, _, later, marked, rest, rfl⟩ := runAll_cons_iff.mp ran
      obtain ⟨tag, input⟩ := input
      obtain ⟨first, mine⟩ := List.forall_mem_cons.mp mine
      obtain ⟨second, theirs⟩ := List.forall_mem_cons.mp theirs
      obtain ⟨outputs, stepped, rfl⟩ := ownedStep_ok_iff.mp marked
      by_cases same : tag = owner
      · obtain ⟨next', stepped', kept⟩ := unwinds.own start (first same) stepped
        obtain ⟨alone, ran', alike⟩ := ih kept mine theirs rest
        refine ⟨alone, ?_, alike⟩
        rw [same, ownedBy_cons_self, ownedBy_append, ownedBy_mark_self]
        exact runAll_cons_iff.mpr ⟨next', _, _, stepped', ran', rfl⟩
      · obtain ⟨alone, ran', alike⟩ := ih (unwinds.foreign start (second same) stepped) mine theirs
          rest
        refine ⟨alone, ?_, alike⟩
        rw [ownedBy_cons_of_ne same, ownedBy_append, ownedBy_mark_of_ne same, List.nil_append]
        exact ran'

end Boutique.Data
