import Boutique.Protocol.BinaryProtocol

namespace Boutique.Protocol

open Boutique.Core Boutique.Db

/-! # Encoded aggregates

`readAggregateWithin` accepts exactly what `writeAggregate` produces, keeps a
rejection under any extension, and does not depend on its nesting bound. -/

mutual
/-- Everything the encoding stores in 32 bits fits there. -/
def FieldType.Encodable : FieldType → Prop
  | .primitive _ => True
  | .string capacity => capacity < 256 ^ 4
  | .aggregate fields => fields.length < 256 ^ 4 ∧ EncodableFields fields

def EncodableFields : AggregateType → Prop
  | [] => True
  | field :: rest =>
      (field.name.length < 256 ^ 4 ∧ FieldType.Encodable field.type) ∧ EncodableFields rest
end

variable {readNested readOther : Bytes → AggregateType → ReadResult × Bytes × AggregateType}
  {bound index count : Nat} {c rest : Bytes} {type : FieldType} {acc agg : AggregateType}

/-- The name and the type index of a field, when both are there. -/
def fieldHeader (c : Bytes) : Option (Bytes × Nat × Bytes) :=
  let (name, c) := readLengthPrefixedString c
  let (index, c) := read 1 c
  match name, index with
  | some name, some index => some (name, index, c)
  | _, _ => none

theorem readFields_succ : readFields readNested (count + 1) c acc =
    match fieldHeader c with
    | none => .error .incomplete
    | some (name, index, c) =>
        match readFieldType readNested index c with
        | .ok (type, c) => readFields readNested count c (acc ++ [⟨name, type⟩])
        | .error res => .error res := by
  rw [readFields, fieldHeader]
  dsimp only
  cases (readLengthPrefixedString c).1 with
  | none => rfl
  | some name => cases (read 1 (readLengthPrefixedString c).2).1 <;> rfl

theorem fieldHeader_some_iff {name : Bytes} : fieldHeader c = some (name, index, rest) ↔
    name.length < 256 ^ 4 ∧ index < 256 ^ 1 ∧
      c = writeLengthPrefixedString name ++ (write 1 index ++ rest) := by
  refine ⟨fun found => ?_, fun ⟨nameFits, indexFits, same⟩ => ?_⟩
  · simp only [fieldHeader] at found
    cases nameRead : readLengthPrefixedString c with
    | mk foundName afterName =>
        cases indexRead : read 1 afterName with
        | mk foundIndex afterIndex =>
            simp only [nameRead, indexRead] at found
            split at found
            · cases found
              obtain ⟨nameFits, rfl⟩ := readLengthPrefixedString_some_iff.mp nameRead
              obtain ⟨indexFits, rfl⟩ := read_some_iff.mp indexRead
              exact ⟨nameFits, indexFits, rfl⟩
            · cases found
  · subst same
    simp only [fieldHeader, readLengthPrefixedString_write nameFits, read_write indexFits]

theorem fieldHeader_length {name : Bytes} (found : fieldHeader c = some (name, index, rest)) :
    rest.length < c.length := by
  obtain ⟨_, _, rfl⟩ := fieldHeader_some_iff.mp found
  simp only [List.length_append, write_length]
  omega

theorem fieldHeader_append {name : Bytes} (found : fieldHeader c = some (name, index, rest))
    (tail : Bytes) : fieldHeader (c ++ tail) = some (name, index, rest ++ tail) := by
  obtain ⟨nameFits, indexFits, rfl⟩ := fieldHeader_some_iff.mp found
  exact fieldHeader_some_iff.mpr ⟨nameFits, indexFits, by simp only [List.append_assoc]⟩

/-- `readNested` accepts exactly the encodings of aggregates, as far as cursors
of at most `bound` bytes are concerned. -/
def AcceptsEncodings (readNested : Bytes → AggregateType → ReadResult × Bytes × AggregateType)
    (bound : Nat) : Prop :=
  ∀ c rest out agg, c.length ≤ bound →
    (readNested c out = (.success, rest, agg) ↔
      FieldType.Encodable (.aggregate agg) ∧ c = writeAggregate agg ++ rest)

theorem typeIndex_lt (type : FieldType) : typeIndex type < 256 ^ 1 := by
  rcases type with type | capacity | fields
  · cases type <;> decide
  · exact (by decide : 11 < 256 ^ 1)
  · exact (by decide : 12 < 256 ^ 1)

theorem readFieldType_ok (accepts : AcceptsEncodings readNested bound) (short : c.length ≤ bound)
    (done : readFieldType readNested index c = .ok (type, rest)) :
    index = typeIndex type ∧ FieldType.Encodable type ∧ c = writeTypeDetail type ++ rest := by
  simp only [readFieldType] at done
  split at done
  case h_12 =>
    cases header : read 4 c with
    | mk capacity payload =>
        cases capacity with
        | none => simp [header] at done
        | some capacity =>
            simp only [header, Except.ok.injEq, Prod.mk.injEq] at done
            obtain ⟨rfl, rfl⟩ := done
            obtain ⟨fits, same⟩ := read_some_iff.mp header
            exact ⟨rfl, fits, same⟩
  case h_13 =>
    split at done
    · rename_i payload fields nested
      simp only [Except.ok.injEq, Prod.mk.injEq] at done
      obtain ⟨rfl, rfl⟩ := done
      obtain ⟨fits, same⟩ := (accepts c _ [] _ short).mp nested
      exact ⟨rfl, fits, same⟩
    · cases done
  case h_14 => cases done
  all_goals
    simp only [Except.ok.injEq, Prod.mk.injEq] at done
    obtain ⟨rfl, rfl⟩ := done
    exact ⟨rfl, trivial, rfl⟩

theorem readFieldType_encoded (accepts : AcceptsEncodings readNested bound)
    (fits : FieldType.Encodable type) (rest : Bytes)
    (short : (writeTypeDetail type ++ rest).length ≤ bound) :
    readFieldType readNested (typeIndex type) (writeTypeDetail type ++ rest) =
      .ok (type, rest) := by
  rcases type with type | capacity | fields
  · cases type <;> rfl
  · simp only [readFieldType, typeIndex, writeTypeDetail, read_write fits]
  · have nested := (accepts _ rest [] fields short).mpr ⟨fits, rfl⟩
    simp only [readFieldType, typeIndex, nested]

/-- An early return is never an early success. -/
theorem readFieldType_ne_success : readFieldType readNested index c ≠ .error .success := by
  intro done
  simp only [readFieldType] at done
  split at done
  case h_12 => split at done <;> simp at done
  case h_13 =>
    split at done
    · cases done
    · rename_i failed nested
      simp only [Except.error.injEq] at done
      subst done
      exact failed rfl
  all_goals cases done

theorem readFields_ne_success : readFields readNested count c acc ≠ .error .success := by
  intro done
  induction count generalizing c acc with
  | zero => cases done
  | succ count ih =>
      rw [readFields_succ] at done
      split at done
      · cases done
      · split at done
        · exact ih done
        · rename_i typeRead
          cases done
          exact readFieldType_ne_success typeRead

theorem readFields_ok (accepts : AcceptsEncodings readNested bound) (short : c.length ≤ bound)
    (done : readFields readNested count c acc = .ok (rest, agg)) :
    ∃ fields, fields.length = count ∧ agg = acc ++ fields ∧ EncodableFields fields ∧
      c = writeFields fields ++ rest := by
  induction count generalizing c acc with
  | zero =>
      simp only [readFields, Except.ok.injEq, Prod.mk.injEq] at done
      obtain ⟨rfl, rfl⟩ := done
      exact ⟨[], rfl, by simp, trivial, rfl⟩
  | succ count ih =>
      rw [readFields_succ] at done
      split at done
      · cases done
      · rename_i name index afterIndex header
        have used := fieldHeader_length header
        split at done
        · rename_i type afterType typeRead
          obtain ⟨rfl, typeFits, rfl⟩ := readFieldType_ok accepts (by omega) typeRead
          obtain ⟨nameFits, _, rfl⟩ := fieldHeader_some_iff.mp header
          simp only [List.length_append] at short
          obtain ⟨fields, size, rfl, fits, rfl⟩ := ih (by omega) done
          refine ⟨⟨name, type⟩ :: fields, by simp [size], by simp,
            ⟨⟨nameFits, typeFits⟩, fits⟩, ?_⟩
          simp only [writeFields, List.append_assoc]
        · cases done

theorem readFields_encoded (accepts : AcceptsEncodings readNested bound) (fields : AggregateType)
    (fits : EncodableFields fields) (rest : Bytes) (acc : AggregateType)
    (short : (writeFields fields ++ rest).length ≤ bound) :
    readFields readNested fields.length (writeFields fields ++ rest) acc =
      .ok (rest, acc ++ fields) := by
  induction fields generalizing acc with
  | nil => simp [readFields, writeFields]
  | cons field fields ih =>
      obtain ⟨⟨nameFits, typeFits⟩, fits⟩ := fits
      simp only [writeFields, List.append_assoc, List.length_append] at short ⊢
      have header (after : Bytes) : fieldHeader (writeLengthPrefixedString field.name ++
          (write 1 (typeIndex field.type) ++ after)) =
          some (field.name, typeIndex field.type, after) :=
        fieldHeader_some_iff.mpr ⟨nameFits, typeIndex_lt field.type, rfl⟩
      have typeRead := readFieldType_encoded accepts typeFits (writeFields fields ++ rest)
        (by simp only [List.length_append]; omega)
      rw [List.length_cons, readFields_succ, header]
      dsimp only
      rw [typeRead]
      dsimp only
      rw [ih fits _ (by simp only [List.length_append]; omega), List.append_assoc]
      rfl

theorem acceptsEncodings_readAggregateWithin (depth : Nat) :
    AcceptsEncodings (readAggregateWithin depth) depth := by
  induction depth with
  | zero =>
      intro c rest out agg short
      have nothing : c = [] := List.length_eq_zero_iff.mp (by omega)
      subst nothing
      refine ⟨fun done => by simp [readAggregateWithin] at done, fun ⟨_, same⟩ => ?_⟩
      have lengths := congrArg List.length same
      simp [writeAggregate] at lengths
      omega
  | succ depth ih =>
      intro c rest out agg short
      refine ⟨fun done => ?_, fun ⟨⟨countFits, fits⟩, same⟩ => ?_⟩
      · rw [readAggregateWithin] at done
        cases header : read 4 c with
        | mk count payload =>
            cases count with
            | none => simp [header] at done
            | some count =>
                obtain ⟨countFits, rfl⟩ := read_some_iff.mp header
                simp only [header] at done
                cases fieldsRead : readFields (readAggregateWithin depth) count payload [] with
                | error res =>
                    simp only [fieldsRead, Prod.mk.injEq] at done
                    exact absurd (done.1 ▸ fieldsRead) readFields_ne_success
                | ok result =>
                    obtain ⟨left, read⟩ := result
                    simp only [fieldsRead, Prod.mk.injEq, true_and] at done
                    obtain ⟨rfl, rfl⟩ := done
                    obtain ⟨fields, rfl, rfl, fits, rfl⟩ := readFields_ok ih (by
                      simp only [List.length_append, write_length] at short
                      omega) fieldsRead
                    exact ⟨⟨countFits, fits⟩, by simp [writeAggregate]⟩
      · subst same
        rw [writeAggregate, List.append_assoc] at short ⊢
        have fieldsRead := readFields_encoded ih agg fits rest [] (by
          simp only [List.length_append, write_length] at short ⊢
          omega)
        simp only [readAggregateWithin, read_write countFits, fieldsRead, List.nil_append]

/-! ## Longer input -/

variable {otherBound : Nat} {tail : Bytes}

theorem readFieldType_append (accepts : AcceptsEncodings readNested bound)
    (acceptsOther : AcceptsEncodings readOther otherBound) (short : c.length ≤ bound)
    (otherShort : (c ++ tail).length ≤ otherBound)
    (done : readFieldType readNested index c = .ok (type, rest)) :
    readFieldType readOther index (c ++ tail) = .ok (type, rest ++ tail) := by
  obtain ⟨rfl, fits, rfl⟩ := readFieldType_ok accepts short done
  rw [List.append_assoc] at otherShort ⊢
  exact readFieldType_encoded acceptsOther fits _ otherShort

/-- `readOther` rejects every extension of a short cursor that `readNested`
rejects. -/
def KeepsRejections
    (readNested readOther : Bytes → AggregateType → ReadResult × Bytes × AggregateType)
    (bound otherBound : Nat) (tail : Bytes) : Prop :=
  ∀ c, c.length ≤ bound → (c ++ tail).length ≤ otherBound →
    (readNested c []).1 = .invalid → (readOther (c ++ tail) []).1 = .invalid

theorem readFieldType_invalid (rejects : KeepsRejections readNested readOther bound otherBound tail)
    (short : c.length ≤ bound) (otherShort : (c ++ tail).length ≤ otherBound)
    (done : readFieldType readNested index c = .error .invalid) :
    readFieldType readOther index (c ++ tail) = .error .invalid := by
  simp only [readFieldType] at done
  split at done
  case h_12 => split at done <;> simp at done
  case h_13 =>
    split at done
    · cases done
    · rename_i nested
      cases done
      have rejected := rejects c short otherShort (by rw [nested])
      simp only [readFieldType]
      split
      · rename_i other
        rw [other] at rejected
        cases rejected
      · rename_i other
        rw [other] at rejected
        exact congrArg Except.error rejected
  case h_14 =>
    simp only [readFieldType]
  all_goals cases done

theorem readFields_invalid (accepts : AcceptsEncodings readNested bound)
    (acceptsOther : AcceptsEncodings readOther otherBound)
    (rejects : KeepsRejections readNested readOther bound otherBound tail)
    (short : c.length ≤ bound) (otherShort : (c ++ tail).length ≤ otherBound)
    (done : readFields readNested count c acc = .error .invalid) :
    readFields readOther count (c ++ tail) acc = .error .invalid := by
  induction count generalizing c acc with
  | zero => cases done
  | succ count ih =>
      rw [readFields_succ] at done ⊢
      split at done
      · cases done
      · rename_i name index afterIndex header
        have used := fieldHeader_length header
        have detailShort : (afterIndex ++ tail).length ≤ otherBound := by
          rw [List.length_append] at otherShort ⊢
          omega
        rw [fieldHeader_append header]
        dsimp only
        split at done
        · rename_i type afterType typeRead
          obtain ⟨_, _, same⟩ := readFieldType_ok accepts (by omega) typeRead
          have typeShort := congrArg List.length same
          rw [List.length_append] at typeShort
          rw [readFieldType_append accepts acceptsOther (by omega) detailShort typeRead]
          rw [List.length_append] at detailShort
          exact ih (by omega) (by rw [List.length_append]; omega) done
        · rename_i typeRead
          cases done
          rw [readFieldType_invalid rejects (by omega) detailShort typeRead]

theorem readAggregateWithin_invalid (depth otherDepth : Nat) (tail : Bytes) :
    KeepsRejections (readAggregateWithin depth) (readAggregateWithin otherDepth) depth otherDepth
      tail := by
  induction depth generalizing otherDepth with
  | zero =>
      intro c _ _ rejected
      cases rejected
  | succ depth ih =>
      intro c short otherShort rejected
      rw [readAggregateWithin] at rejected
      cases header : read 4 c with
      | mk count payload =>
          cases count with
          | none => simp [header] at rejected
          | some count =>
              obtain ⟨_, same⟩ := read_some_iff.mp header
              have used := congrArg List.length same
              simp only [List.length_append, write_length] at used otherShort
              simp only [header] at rejected
              cases otherDepth with
              | zero => omega
              | succ otherDepth =>
                  cases fieldsRead : readFields (readAggregateWithin depth) count payload [] with
                  | ok result => simp [fieldsRead] at rejected
                  | error res =>
                      simp only [fieldsRead] at rejected
                      subst rejected
                      simp only [readAggregateWithin, read_append header tail]
                      rw [readFields_invalid (acceptsEncodings_readAggregateWithin depth)
                        (acceptsEncodings_readAggregateWithin otherDepth) (ih otherDepth) (by omega)
                        (by rw [List.length_append]; omega) fieldsRead]

/-! ## The nesting bound -/

theorem AcceptsEncodings.mono (accepts : AcceptsEncodings readNested bound)
    (below : otherBound ≤ bound) : AcceptsEncodings readNested otherBound :=
  fun c rest out agg short => accepts c rest out agg (Nat.le_trans short below)

theorem readFields_congr (accepts : AcceptsEncodings readNested bound)
    (same : ∀ c out, c.length ≤ bound → readNested c out = readOther c out)
    (short : c.length ≤ bound) :
    readFields readNested count c acc = readFields readOther count c acc := by
  induction count generalizing c acc with
  | zero => rfl
  | succ count ih =>
      rw [readFields_succ, readFields_succ]
      cases header : fieldHeader c with
      | none => rfl
      | some found =>
          obtain ⟨name, index, afterIndex⟩ := found
          have used := fieldHeader_length header
          have typeSame : readFieldType readNested index afterIndex =
              readFieldType readOther index afterIndex := by
            simp only [readFieldType]
            rw [same afterIndex [] (by omega)]
          dsimp only
          rw [← typeSame]
          cases typeRead : readFieldType readNested index afterIndex with
          | error res => rfl
          | ok result =>
              obtain ⟨type, afterType⟩ := result
              obtain ⟨_, _, same⟩ := readFieldType_ok accepts (by omega) typeRead
              have typeShort := congrArg List.length same
              rw [List.length_append] at typeShort
              exact ih (by omega)

theorem readAggregateWithin_depth (depth otherDepth : Nat) (c : Bytes) (out : AggregateType)
    (short : c.length ≤ depth) (otherShort : c.length ≤ otherDepth) :
    readAggregateWithin depth c out = readAggregateWithin otherDepth c out := by
  induction depth generalizing otherDepth c out with
  | zero =>
      have nothing : c = [] := List.length_eq_zero_iff.mp (by omega)
      subst nothing
      cases otherDepth <;> rfl
  | succ depth ih =>
      cases otherDepth with
      | zero =>
          have nothing : c = [] := List.length_eq_zero_iff.mp (by omega)
          subst nothing
          rfl
      | succ otherDepth =>
          rw [readAggregateWithin, readAggregateWithin]
          cases header : read 4 c with
          | mk count payload =>
              cases count with
              | none => rfl
              | some count =>
                  obtain ⟨_, same⟩ := read_some_iff.mp header
                  have used := congrArg List.length same
                  simp only [List.length_append, write_length] at used
                  dsimp only
                  rw [readFields_congr
                    ((acceptsEncodings_readAggregateWithin depth).mono (by omega))
                    (fun c out below => ih otherDepth c out (by omega) (by omega))
                    (Nat.le_refl payload.length)]

/-- `readAggregate` as the source has it, recursing on itself. -/
theorem readAggregate_eq (cursor : Bytes) (outAgg : AggregateType) :
    readAggregate cursor outAgg =
      match read 4 cursor with
      | (none, _) => (.incomplete, cursor, outAgg)
      | (some fieldCount, c) =>
          match readFields readAggregate fieldCount c [] with
          | .ok (c, agg) => (.success, c, agg)
          | .error res => (res, cursor, outAgg) := by
  rw [readAggregate]
  cases size : cursor.length with
  | zero =>
      have nothing := List.length_eq_zero_iff.mp size
      subst nothing
      rfl
  | succ depth =>
      rw [readAggregateWithin]
      cases header : read 4 cursor with
      | mk count payload =>
          cases count with
          | none => rfl
          | some count =>
              obtain ⟨_, same⟩ := read_some_iff.mp header
              have used := congrArg List.length same
              simp only [List.length_append, write_length] at used
              dsimp only
              rw [readFields_congr
                ((acceptsEncodings_readAggregateWithin depth).mono (by omega))
                (fun c out below => readAggregateWithin_depth depth c.length c out (by omega)
                  (Nat.le_refl _)) (Nat.le_refl payload.length)]
              rfl

end Boutique.Protocol
