import Boutique.Data.Codec

namespace Boutique.Data

/-! Decoding one value for each arrival.

Chunks arrive one after the other, and nothing at all once they are used up.
With every arrival, also of nothing, at most one value is taken off the front of
the buffer; this goes on until the buffer is empty or rejected. -/

variable {α β : Type*} {decode : List β → Verdict α β} {encode : α → List β}
  {valid : α → Prop} {chunks : List (List β)} {i j : Nat} {value : α}
  {values values' : List α} {input buffer rest left : List β} {stuck : Bool} {count : Nat}

/-- What is taken off the buffer, and the buffer then, unless this is the end. -/
def takeOne (decode : List β → Verdict α β) (buffer : List β) : List α × Option (List β) :=
  match decode buffer with
  | .accepted value rest => ([value], if rest.isEmpty then none else some rest)
  | .starved => ([], if buffer.isEmpty then none else some buffer)
  | .rejected => ([], none)

/-- What `i` arrivals make of an empty buffer. -/
def taken (decode : List β → Verdict α β) (chunks : List (List β)) :
    Nat → List α × Option (List β)
  | 0 => ([], some [])
  | i + 1 =>
      match taken decode chunks i with
      | (values, none) => (values, none)
      | (values, some buffer) =>
          let (more, buffer) := takeOne decode (buffer ++ chunks.getD i [])
          (values ++ more, buffer)

/-- A whole value is taken, and then nothing is left. -/
theorem takeOne_whole (codec : Codec decode encode valid) (ok : valid value) :
    takeOne decode (encode value) = ([value], none) := by
  have whole : decode (encode value) = .accepted value [] :=
    codec.accepted_iff.mpr ⟨ok, (List.append_nil _).symm⟩
  rw [takeOne, whole]
  rfl

/-- Of a value that is cut short nothing is taken. -/
theorem takeOne_cut (codec : Codec decode encode valid) (ok : valid value)
    (split : encode value = buffer ++ rest) (begun : buffer ≠ []) (missing : rest ≠ []) :
    takeOne decode buffer = ([], some buffer) := by
  have begun : buffer.isEmpty = false := List.isEmpty_eq_false_iff.mpr begun
  rw [takeOne, codec.starved_of_cut ok split missing]
  dsimp only
  rw [begun]
  rfl

def received (chunks : List (List β)) (i : Nat) : List β := (chunks.take i).flatten

/-- `count` values are whole at the front of the input. -/
def Yields (decode : List β → Verdict α β) (input : List β) (count : Nat) : Prop :=
  ∃ values left stuck, Drains decode input values left stuck ∧ values.length = count

/-- What has arrived is values only, and of those never more arrived at a time
than were taken since. -/
def CaughtUp (decode : List β → Verdict α β) (chunks : List (List β)) (i : Nat) : Prop :=
  ∃ values, Drains decode (received chunks i) values [] false ∧
    ∀ s ≤ i, ∀ count, Yields decode (received chunks s) count →
      values.length ≤ count + (i - s)

theorem received_succ (chunks : List (List β)) (i : Nat) :
    received chunks (i + 1) = received chunks i ++ chunks.getD i [] := by
  rw [received, received, List.take_add_one, List.flatten_append, List.getD_eq_getElem?_getD]
  cases chunks[i]? with
  | none => rfl
  | some chunk => rw [Option.toList_some, List.flatten_singleton, Option.getD_some]

theorem received_all (used : chunks.length ≤ i) : received chunks i = chunks.flatten := by
  rw [received, List.take_of_length_le used]

theorem Yields.unique (yields : Yields decode input count)
    (drained : Drains decode input values left stuck) : count = values.length := by
  obtain ⟨_, _, _, other, rfl⟩ := yields
  rw [(other.deterministic drained).1]

theorem Drains.yields (drained : Drains decode input values left stuck) :
    Yields decode input values.length :=
  ⟨values, left, stuck, drained, rfl⟩

/-- Valid encodings in front of a buffer come out first. -/
theorem Drains.of_front (codec : Codec decode encode valid) (ok : ∀ value ∈ values, valid value)
    (drained : Drains decode buffer values' left stuck) :
    Drains decode (values.flatMap encode ++ buffer) (values ++ values') left stuck := by
  induction values with
  | nil => exact drained
  | cons value values ih =>
      rw [List.forall_mem_cons] at ok
      rw [List.flatMap_cons, List.append_assoc]
      exact .accepted (codec.decode_encode ok.1 _) (ih ok.2)

theorem Drains.eq_of_nil (drained : Drains decode buffer [] left stuck) : buffer = left := by
  cases drained with
  | starved => rfl
  | rejected => rfl

/-- Where taking stands after `i` arrivals: how far it is behind is given by the
arrival since when a value was taken with each. -/
structure Pending (decode : List β → Verdict α β) (encode : α → List β) (valid : α → Prop)
    (chunks : List (List β)) (i : Nat) (values : List α) (buffer : List β) : Prop where
  split : received chunks i = values.flatMap encode ++ buffer
  ok : ∀ value ∈ values, valid value
  atMost : ∀ s ≤ i, ∀ count, Yields decode (received chunks s) count →
    values.length ≤ count + (i - s)
  since : ∃ s ≤ i, ∃ count, Yields decode (received chunks s) count ∧
    values.length = count + (i - s)

namespace Pending

theorem drains (codec : Codec decode encode valid)
    (pending : Pending decode encode valid chunks i values buffer)
    (drained : Drains decode buffer values' left stuck) :
    Drains decode (received chunks i) (values ++ values') left stuck := by
  rw [pending.split]
  exact drained.of_front codec pending.ok

theorem start (codec : Codec decode encode valid) :
    Pending decode encode valid chunks 0 [] [] := by
  obtain ⟨values, left, stuck, drained⟩ := Drains.total codec (received chunks 0)
  have none : values = [] := by
    cases drained with
    | starved => rfl
    | rejected => rfl
    | accepted verdict => exact absurd (codec.rest_length verdict) (Nat.not_lt_zero _)
  subst none
  exact ⟨rfl, nofun, fun _ _ _ _ => Nat.zero_le _, 0, Nat.le_refl 0, 0, drained.yields, rfl⟩

theorem split_succ (pending : Pending decode encode valid chunks i values buffer) :
    received chunks (i + 1) = values.flatMap encode ++ (buffer ++ chunks.getD i []) := by
  rw [received_succ, pending.split, List.append_assoc]

/-- A value taken keeps the distance to the arrivals before. -/
theorem accept (codec : Codec decode encode valid)
    (pending : Pending decode encode valid chunks i values buffer)
    (verdict : decode (buffer ++ chunks.getD i []) = .accepted value rest) :
    Pending decode encode valid chunks (i + 1) (values ++ [value]) rest := by
  obtain ⟨fits, split⟩ := codec.accepted_iff.mp verdict
  have whole : received chunks (i + 1) = (values ++ [value]).flatMap encode ++ rest := by
    rw [pending.split_succ, split, List.flatMap_append, List.flatMap_singleton, List.append_assoc]
  have ok : ∀ other ∈ values ++ [value], valid other := by
    rw [List.forall_mem_append]
    exact ⟨pending.ok, by simpa using fits⟩
  obtain ⟨s, before, count, yields, same⟩ := pending.since
  refine ⟨whole, ok, ?_, s, by omega, count, yields, by simp; omega⟩
  intro s before count yields
  rw [List.length_append, List.length_singleton]
  by_cases now : s = i + 1
  · obtain ⟨later, left, stuck, drained⟩ := Drains.total codec rest
    rw [now, whole] at yields
    have all := yields.unique (drained.of_front codec ok)
    rw [all, List.length_append, List.length_append, List.length_singleton]
    omega
  · have behind := pending.atMost s (by omega) count yields
    omega

/-- With nothing whole in the buffer there is no distance any more. -/
theorem starve (codec : Codec decode encode valid)
    (pending : Pending decode encode valid chunks i values buffer)
    (verdict : decode (buffer ++ chunks.getD i []) = .starved) :
    Pending decode encode valid chunks (i + 1) values (buffer ++ chunks.getD i []) := by
  have drained := (Drains.starved verdict).of_front codec pending.ok
  rw [List.append_nil, ← pending.split_succ] at drained
  refine ⟨pending.split_succ, pending.ok, ?_, i + 1, Nat.le_refl _, values.length,
    drained.yields, by omega⟩
  intro s before count yields
  by_cases now : s = i + 1
  · rw [now] at yields
    rw [yields.unique drained]
    omega
  · have behind := pending.atMost s (by omega) count yields
    omega

/-- With nothing left, taking has caught up. -/
theorem caughtUp (codec : Codec decode encode valid)
    (pending : Pending decode encode valid chunks i values []) (empty : decode [] = .starved) :
    CaughtUp decode chunks i := by
  have drained := pending.drains codec (.starved empty)
  rw [List.append_nil] at drained
  exact ⟨values, drained, pending.atMost⟩

/-- Where it can have caught up, nothing is left. -/
theorem buffer_eq_nil (codec : Codec decode encode valid)
    (pending : Pending decode encode valid chunks i values buffer)
    (caught : CaughtUp decode chunks i) : buffer = [] := by
  obtain ⟨all, drained, fast⟩ := caught
  obtain ⟨later, left, stuck, drainedBuffer⟩ := Drains.total codec buffer
  obtain ⟨same, none, _⟩ := drained.deterministic (pending.drains codec drainedBuffer)
  obtain ⟨s, before, count, yields, behind⟩ := pending.since
  have bound := fast s before count yields
  rw [same, List.length_append] at bound
  have taken : later = [] := List.length_eq_zero_iff.mp (by omega)
  subst taken
  rw [none, drainedBuffer.eq_of_nil]

/-- Once everything has arrived and there was time for every value, only what
is no value is left. -/
theorem late (codec : Codec decode encode valid)
    (pending : Pending decode encode valid chunks i values buffer)
    (drained : Drains decode chunks.flatten values' left stuck)
    (enough : chunks.length + values'.length ≤ i) : Drains decode buffer [] left stuck := by
  obtain ⟨later, left', stuck', drainedBuffer⟩ := Drains.total codec buffer
  have whole := pending.drains codec drainedBuffer
  rw [received_all (by omega)] at whole
  obtain ⟨same, rfl, rfl⟩ := drained.deterministic whole
  obtain ⟨s, before, count, yields, behind⟩ := pending.since
  have lengths := congrArg List.length same
  rw [List.length_append] at lengths
  have taken : later = [] := by
    rw [← List.length_eq_zero_iff]
    by_cases used : chunks.length ≤ s
    · rw [received_all used] at yields
      have all := yields.unique drained
      omega
    · omega
  rwa [taken] at drainedBuffer

end Pending

/-- Why taking ended with the arrivals up to `i`. -/
def Ended (decode : List β → Verdict α β) (chunks : List (List β)) (i : Nat) : Prop :=
  0 < i ∧ (CaughtUp decode chunks i ∨
    ∃ values left, Drains decode (received chunks i) values left true)

/-- What one more arrival makes of a buffer. -/
theorem takeOne_spec (codec : Codec decode encode valid)
    (pending : Pending decode encode valid chunks i values buffer) :
    ∃ more after, takeOne decode (buffer ++ chunks.getD i []) = (more, after) ∧
      match after with
      | some buffer =>
          Pending decode encode valid chunks (i + 1) (values ++ more) buffer ∧ buffer ≠ []
      | none => Ended decode chunks (i + 1) := by
  rw [takeOne]
  cases verdict : decode (buffer ++ chunks.getD i []) with
  | accepted value rest =>
      have next := pending.accept codec verdict
      obtain ⟨fits, _⟩ := codec.accepted_iff.mp verdict
      cases rest with
      | nil =>
          have empty : decode [] = .starved :=
            codec.starved_of_cut fits rfl (codec.encode_ne_nil fits)
          exact ⟨_, none, rfl, Nat.succ_pos i, .inl (next.caughtUp codec empty)⟩
      | cons first rest => exact ⟨_, some (first :: rest), rfl, next, nofun⟩
  | starved =>
      have next := pending.starve codec verdict
      cases whole : buffer ++ chunks.getD i [] with
      | nil =>
          rw [whole] at next verdict
          exact ⟨_, none, rfl, Nat.succ_pos i, .inl (next.caughtUp codec verdict)⟩
      | cons first rest =>
          rw [whole] at next
          refine ⟨_, some (first :: rest), rfl, ?_, nofun⟩
          rwa [List.append_nil]
  | rejected =>
      have drained := (Drains.rejected verdict).of_front codec pending.ok
      rw [← pending.split_succ] at drained
      exact ⟨_, none, rfl, Nat.succ_pos i, .inr ⟨_, _, drained⟩⟩

theorem taken_succ {more : List α} {after : Option (List β)}
    (before : taken decode chunks i = (values, some buffer))
    (took : takeOne decode (buffer ++ chunks.getD i []) = (more, after)) :
    taken decode chunks (i + 1) = (values ++ more, after) := by
  rw [taken, before]
  simp only [took]

theorem taken_spec (codec : Codec decode encode valid) (chunks : List (List β)) (i : Nat) :
    match taken decode chunks i with
    | (values, some buffer) =>
        Pending decode encode valid chunks i values buffer ∧ (0 < i → buffer ≠ [])
    | (_, none) => ∃ j ≤ i, Ended decode chunks j := by
  induction i with
  | zero => exact ⟨.start codec, fun positive => absurd positive (Nat.lt_irrefl 0)⟩
  | succ i ih =>
      match before : taken decode chunks i with
      | (values, none) =>
          rw [before] at ih
          rw [taken, before]
          obtain ⟨j, bound, ended⟩ := ih
          exact ⟨j, Nat.le_succ_of_le bound, ended⟩
      | (values, some buffer) =>
          rw [before] at ih
          obtain ⟨more, after, took, spec⟩ := takeOne_spec codec ih.1
          rw [taken_succ before took]
          cases after with
          | none => exact ⟨i + 1, Nat.le_refl _, spec⟩
          | some buffer => exact ⟨spec.1, fun _ => spec.2⟩

/-- With the arrivals up to `i` taking ended at the latest, if it can have caught
up there. -/
theorem taken_of_caughtUp (codec : Codec decode encode valid) (positive : 0 < i)
    (caught : CaughtUp decode chunks i) : (taken decode chunks i).2 = none := by
  have spec := taken_spec codec chunks i
  match here : taken decode chunks i with
  | (values, none) => rfl
  | (values, some buffer) =>
      rw [here] at spec
      exact absurd (spec.1.buffer_eq_nil codec caught) (spec.2 positive)

theorem taken_succ_of_ended (ended : (taken decode chunks i).2 = none) :
    taken decode chunks (i + 1) = taken decode chunks i := by
  rw [taken]
  match here : taken decode chunks i with
  | (values, none) => rfl
  | (values, some buffer) =>
      rw [here] at ended
      cases ended

theorem taken_of_le (ended : (taken decode chunks i).2 = none) (later : i ≤ j) :
    taken decode chunks j = taken decode chunks i := by
  induction later with
  | refl => rfl
  | step _ ih => rw [taken_succ_of_ended (by rw [ih, ended]), ih]

/-- Nothing is left for ever that is whole or malformed. -/
theorem taken_of_drained (codec : Codec decode encode valid)
    (drained : Drains decode chunks.flatten values left stuck)
    (done : stuck = true ∨ left = []) :
    (taken decode chunks (chunks.length + values.length + 2)).2 = none := by
  have spec := taken_spec codec chunks (chunks.length + values.length + 1)
  match here : taken decode chunks (chunks.length + values.length + 1) with
  | (_, none) =>
      rw [taken_succ_of_ended (by rw [here]), here]
  | (taking, some buffer) =>
      rw [here] at spec
      have late := spec.1.late codec drained (Nat.le_succ _)
      obtain rfl := late.eq_of_nil
      rcases done with rejected | nothing
      · have verdict := late.left_verdict
        rw [if_pos rejected] at verdict
        rw [taken, here]
        simp only [List.getD_eq_getElem?_getD, List.getElem?_eq_none (show chunks.length ≤
          chunks.length + values.length + 1 by omega), Option.getD_none, List.append_nil, takeOne,
          verdict]
      · exact absurd nothing (spec.2 (Nat.succ_pos _))

/-- Taking comes to an end exactly when it catches up with some arrival, or what
has arrived by the end holds something malformed or nothing else but values. -/
theorem taken_ends_iff (codec : Codec decode encode valid)
    (drained : Drains decode chunks.flatten values left stuck) :
    (∃ i, (taken decode chunks i).2 = none) ↔
      stuck = true ∨ left = [] ∨ ∃ i, 0 < i ∧ i ≤ chunks.length ∧ CaughtUp decode chunks i := by
  constructor
  · intro ⟨i, ends⟩
    have spec := taken_spec codec chunks i
    match here : taken decode chunks i with
    | (_, some buffer) =>
        rw [here] at ends
        cases ends
    | (_, none) =>
        rw [here] at spec
        obtain ⟨j, _, positive, caught | ⟨_, _, malformed⟩⟩ := spec
        · by_cases inside : j ≤ chunks.length
          · exact .inr (.inr ⟨j, positive, inside, caught⟩)
          · obtain ⟨_, whole, _⟩ := caught
            rw [received_all (by omega)] at whole
            exact .inr (.inl (drained.deterministic whole).2.1)
        · have whole := malformed.append_stuck codec (chunks.drop j).flatten
          rw [received, ← List.flatten_append, List.take_append_drop] at whole
          exact .inl (drained.deterministic whole).2.2
  · intro given
    rcases given with rejected | nothing | ⟨i, positive, _, caught⟩
    · exact ⟨_, taken_of_drained codec drained (.inl rejected)⟩
    · exact ⟨_, taken_of_drained codec drained (.inr nothing)⟩
    · exact ⟨i, taken_of_caughtUp codec positive caught⟩

section

variable (codec : Codec decode encode valid) (fits : valid value)
  (whole : chunks.flatten = encode value) (nonempty : ∀ chunk ∈ chunks, chunk ≠ [])

include codec fits whole nonempty

theorem starved_of_single (early : i < chunks.length) :
    decode (received chunks i) = .starved := by
  have split : encode value = received chunks i ++ (chunks.drop i).flatten := by
    rw [received, ← List.flatten_append, List.take_append_drop, whole]
  refine codec.starved_of_cut fits split ?_
  rw [List.drop_eq_getElem_cons early, List.flatten_cons]
  exact List.append_ne_nil_of_left_ne_nil (nonempty _ (List.getElem_mem early)) _

/-- While a single value arrives, nothing is taken. -/
theorem taken_before_single (early : i < chunks.length) :
    taken decode chunks i = ([], some (received chunks i)) := by
  induction i with
  | zero => rfl
  | succ i ih =>
      have verdict := starved_of_single codec fits whole nonempty early
      have arrived : (received chunks (i + 1)).isEmpty = false := by
        rw [List.isEmpty_eq_false_iff, received_succ, List.getD_eq_getElem?_getD,
          List.getElem?_eq_getElem (by omega), Option.getD_some]
        exact List.append_ne_nil_of_right_ne_nil _ (nonempty _ (List.getElem_mem _))
      rw [taken, ih (by omega)]
      simp only [← received_succ, takeOne, verdict, arrived]
      rfl

/-- It is taken with its last chunk. -/
theorem taken_single : taken decode chunks chunks.length = ([value], none) := by
  have positive : 0 < chunks.length := by
    rw [List.length_pos_iff]
    intro none
    rw [none] at whole
    exact codec.encode_ne_nil fits whole.symm
  obtain ⟨last, length⟩ := Nat.exists_eq_succ_of_ne_zero (Nat.ne_of_gt positive)
  have all : received chunks (last + 1) = encode value := by
    rw [received_all (by omega), whole]
  have verdict : decode (encode value) = .accepted value [] :=
    codec.accepted_iff.mpr ⟨fits, (List.append_nil _).symm⟩
  rw [length, taken, taken_before_single codec fits whole nonempty (by omega)]
  simp only [← received_succ, all, takeOne, verdict]
  rfl

end

end Boutique.Data
