import Mathlib.Data.List.Basic

namespace Boutique.Data

/-! Incremental decoders over a stream of symbols.

A decoder is shown whatever has arrived so far and either accepts a value from
the front, asks for more, or rejects. `Codec` ties a decoder to an encoder by
two laws from which round trips, canonicity and behaviour under truncation and
extension all follow; `Drains` is the greedy decoding of a whole stream. -/

variable {α β : Type*}

inductive Verdict (α β : Type*) where
  | accepted (value : α) (rest : List β)
  | starved
  | rejected

/-- `decode` accepts exactly the valid encodings, and never changes its mind
about a rejection. -/
structure Codec (decode : List β → Verdict α β) (encode : α → List β) (valid : α → Prop) :
    Prop where
  accepted_iff : ∀ {input value rest},
    decode input = .accepted value rest ↔ valid value ∧ input = encode value ++ rest
  rejected_append : ∀ {input} (tail), decode input = .rejected → decode (input ++ tail) = .rejected
  encode_ne_nil : ∀ {value}, valid value → encode value ≠ []

namespace Codec

variable {decode : List β → Verdict α β} {encode : α → List β} {valid : α → Prop}
  {input tail rest rest' front back : List β} {value other : α}

theorem decode_encode (codec : Codec decode encode valid) (ok : valid value) (tail : List β) :
    decode (encode value ++ tail) = .accepted value tail :=
  codec.accepted_iff.mpr ⟨ok, rfl⟩

theorem accepted_append (codec : Codec decode encode valid)
    (accepted : decode input = .accepted value rest) (tail : List β) :
    decode (input ++ tail) = .accepted value (rest ++ tail) := by
  obtain ⟨ok, rfl⟩ := codec.accepted_iff.mp accepted
  exact codec.accepted_iff.mpr ⟨ok, List.append_assoc ..⟩

theorem rest_length (codec : Codec decode encode valid)
    (accepted : decode input = .accepted value rest) : rest.length < input.length := by
  obtain ⟨ok, rfl⟩ := codec.accepted_iff.mp accepted
  have positive := List.length_pos_iff.mpr (codec.encode_ne_nil ok)
  rw [List.length_append]
  omega

/-- Cutting an encoding short starves the decoder: it can neither accept the
front, which would decode the whole differently, nor reject it, which would
reject the whole. -/
theorem starved_of_cut (codec : Codec decode encode valid) (ok : valid value)
    (split : encode value = front ++ back) (missing : back ≠ []) : decode front = .starved := by
  have whole : decode (front ++ back) = .accepted value [] :=
    codec.accepted_iff.mpr ⟨ok, by rw [← split, List.append_nil]⟩
  cases verdict : decode front with
  | starved => rfl
  | rejected =>
      rw [codec.rejected_append back verdict] at whole
      cases whole
  | accepted early rest =>
      have extended := codec.accepted_append verdict back
      rw [whole, Verdict.accepted.injEq] at extended
      exact absurd (List.append_eq_nil_iff.mp extended.2.symm).2 missing

end Codec

/-- Greedy decoding of a buffer: the values accepted one after the other, the
symbols left over, and whether decoding stopped on a rejection. -/
inductive Drains (decode : List β → Verdict α β) : List β → List α → List β → Bool → Prop
  | starved {input} (verdict : decode input = .starved) : Drains decode input [] input false
  | rejected {input} (verdict : decode input = .rejected) : Drains decode input [] input true
  | accepted {input value rest values left stuck} (verdict : decode input = .accepted value rest)
      (tail : Drains decode rest values left stuck) :
      Drains decode input (value :: values) left stuck

namespace Drains

variable {decode : List β → Verdict α β} {encode : α → List β} {valid : α → Prop}
  {input more left left' : List β} {values values' : List α} {stuck stuck' : Bool}

theorem deterministic (first : Drains decode input values left stuck)
    (second : Drains decode input values' left' stuck') :
    values = values' ∧ left = left' ∧ stuck = stuck' := by
  induction first generalizing values' with
  | starved verdict =>
      cases second with
      | starved => exact ⟨rfl, rfl, rfl⟩
      | rejected other => rw [verdict] at other; cases other
      | accepted other => rw [verdict] at other; cases other
  | rejected verdict =>
      cases second with
      | starved other => rw [verdict] at other; cases other
      | rejected => exact ⟨rfl, rfl, rfl⟩
      | accepted other => rw [verdict] at other; cases other
  | accepted verdict tail ih =>
      cases second with
      | starved other => rw [verdict] at other; cases other
      | rejected other => rw [verdict] at other; cases other
      | accepted other otherTail =>
          rw [verdict, Verdict.accepted.injEq] at other
          obtain ⟨rfl, rfl⟩ := other
          obtain ⟨rfl, rfl, rfl⟩ := ih otherTail
          exact ⟨rfl, rfl, rfl⟩

/-- Every accepted value shortens the buffer, so draining comes to an end. -/
theorem total (codec : Codec decode encode valid) (input : List β) :
    ∃ values left stuck, Drains decode input values left stuck := by
  induction size : input.length using Nat.strongRecOn generalizing input with
  | ind length ih =>
      cases verdict : decode input with
      | starved => exact ⟨[], input, false, .starved verdict⟩
      | rejected => exact ⟨[], input, true, .rejected verdict⟩
      | accepted value rest =>
          have shorter := codec.rest_length verdict
          obtain ⟨values, left, stuck, tail⟩ := ih rest.length (by omega) rest rfl
          exact ⟨value :: values, left, stuck, .accepted verdict tail⟩

theorem left_verdict (drained : Drains decode input values left stuck) :
    decode left = if stuck then .rejected else .starved := by
  induction drained with
  | starved verdict => exact verdict
  | rejected verdict => exact verdict
  | accepted _ _ ih => exact ih

/-- There is nothing in what is left. -/
theorem of_left (drained : Drains decode input values left stuck) :
    Drains decode left [] left stuck := by
  have verdict := drained.left_verdict
  cases stuck with
  | false => exact .starved verdict
  | true => exact .rejected verdict

/-- Draining a stream in two instalments is draining it at once, as long as
the first instalment met no rejection. -/
theorem append (codec : Codec decode encode valid)
    (drained : Drains decode input values left false)
    (next : Drains decode (left ++ more) values' left' stuck') :
    Drains decode (input ++ more) (values ++ values') left' stuck' := by
  generalize same : false = stuck at drained
  induction drained with
  | starved verdict => exact next
  | rejected verdict => cases same
  | accepted verdict tail ih => exact .accepted (codec.accepted_append verdict more) (ih next same)

/-- A rejection is final: what arrives later is never looked at. -/
theorem append_stuck (codec : Codec decode encode valid)
    (drained : Drains decode input values left true) (more : List β) :
    Drains decode (input ++ more) values (left ++ more) true := by
  generalize same : true = stuck at drained
  induction drained with
  | starved verdict => cases same
  | rejected verdict => exact .rejected (codec.rejected_append more verdict)
  | accepted verdict tail ih => exact .accepted (codec.accepted_append verdict more) (ih same)

/-- A stream of whole encodings followed by the front of one more drains to
exactly the whole ones. -/
theorem of_encodings (codec : Codec decode encode valid) (values : List α)
    (ok : ∀ value ∈ values, valid value) (starved : decode left = .starved) :
    Drains decode (values.flatMap encode ++ left) values left false := by
  induction values with
  | nil => exact .starved starved
  | cons value values ih =>
      rw [List.flatMap_cons, List.append_assoc]
      exact .accepted (codec.decode_encode (ok value (by simp)) _)
        (ih fun other member => ok other (by simp [member]))

end Drains

/-- The values that a buffer drains to, by decoding at most `fuel` times. -/
def drainedValues (decode : List β → Verdict α β) : Nat → List β → List α
  | 0, _ => []
  | fuel + 1, input =>
      match decode input with
      | .accepted value rest => value :: drainedValues decode fuel rest
      | .starved | .rejected => []

/-- Decoding once for every symbol is enough. -/
theorem Drains.drainedValues_eq {decode : List β → Verdict α β} {encode : α → List β}
    {valid : α → Prop} {input left : List β} {values : List α} {stuck : Bool}
    (codec : Codec decode encode valid) (drained : Drains decode input values left stuck)
    {fuel : Nat} (enough : input.length ≤ fuel) : drainedValues decode fuel input = values := by
  induction drained generalizing fuel with
  | starved verdict | rejected verdict =>
      cases fuel with
      | zero => rfl
      | succ fuel => rw [drainedValues, verdict]
  | accepted verdict tail ih =>
      have shorter := codec.rest_length verdict
      cases fuel with
      | zero => omega
      | succ fuel =>
          rw [drainedValues, verdict]
          dsimp only
          rw [ih (by omega)]

/-- `left` is what arrived of the first of `values`, cut before its end. -/
def CutShort (encode : α → List β) : List α → List β → Prop
  | [], left => left = []
  | value :: _, left => ∃ missing, missing ≠ [] ∧ encode value = left ++ missing

/-- However much of a stream of encodings has arrived, it is some whole ones
and the front of the next. -/
theorem exists_cutShort (encode : α → List β) (values : List α) (received later : List β)
    (whole : received ++ later = values.flatMap encode) :
    ∃ finished unfinished left, values = finished ++ unfinished ∧
      received = finished.flatMap encode ++ left ∧ CutShort encode unfinished left := by
  induction values generalizing received with
  | nil =>
      have nothing := (List.append_eq_nil_iff.mp whole).1
      exact ⟨[], [], [], rfl, nothing, rfl⟩
  | cons value values ih =>
      rw [List.flatMap_cons] at whole
      rcases List.append_eq_append_iff.mp whole with ⟨missing, split, _⟩ | ⟨more, split, rest⟩
      · by_cases done : missing = []
        · subst done
          rw [List.append_nil] at split
          obtain ⟨finished, unfinished, left, same, none, cut⟩ := ih [] (by
            rw [split] at whole
            exact List.append_cancel_left whole)
          refine ⟨value :: finished, unfinished, left, by rw [same, List.cons_append], ?_, cut⟩
          rw [List.flatMap_cons, List.append_assoc, ← none, List.append_nil, split]
        · exact ⟨[], value :: values, received, rfl, rfl, missing, done, split⟩
      · obtain ⟨finished, unfinished, left, same, received, cut⟩ := ih more rest.symm
        refine ⟨value :: finished, unfinished, left, by rw [same, List.cons_append], ?_, cut⟩
        rw [List.flatMap_cons, List.append_assoc, ← received, split]

theorem Codec.starved_of_cutShort {decode : List β → Verdict α β} {encode : α → List β}
    {valid : α → Prop} (codec : Codec decode encode valid) {values : List α} {left : List β}
    (ok : ∀ value ∈ values, valid value) (cut : CutShort encode values left)
    (empty : decode [] = .starved) : decode left = .starved := by
  cases values with
  | nil =>
      have nothing : left = [] := cut
      rwa [nothing]
  | cons value values =>
      obtain ⟨missing, some, split⟩ := cut
      exact codec.starved_of_cut (ok value (by simp)) split some

/-- The front of a stream of valid encodings drains to the first of them. -/
theorem Drains.of_cut {decode : List β → Verdict α β} {encode : α → List β} {valid : α → Prop}
    (codec : Codec decode encode valid) {values drainedOff : List α} {input later left : List β}
    {stuck : Bool} (ok : ∀ value ∈ values, valid value) (empty : decode [] = .starved)
    (whole : input ++ later = values.flatMap encode)
    (drained : Drains decode input drainedOff left stuck) :
    stuck = false ∧ ∃ unfinished, values = drainedOff ++ unfinished ∧
      input = drainedOff.flatMap encode ++ left ∧ CutShort encode unfinished left := by
  obtain ⟨finished, unfinished, front, rfl, rfl, cut⟩ := exists_cutShort encode values input later
    whole
  have starved : decode front = .starved := codec.starved_of_cutShort
    (fun value member => ok value (List.mem_append_right _ member)) cut empty
  have drains := Drains.of_encodings codec finished
    (fun value member => ok value (List.mem_append_left _ member)) starved
  obtain ⟨rfl, rfl, rfl⟩ := drained.deterministic drains
  exact ⟨rfl, unfinished, rfl, rfl, cut⟩

end Boutique.Data
