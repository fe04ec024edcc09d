import Boutique.Db.CollectionRuns
import Boutique.Db.Database

namespace Boutique.Db

open Boutique.Data

/-! ## Faults that the bytes of a command cause -/

/-- A read outside the document or key handed to a collection, or a key of the
wrong length for its type. -/
def Fault.FromArgument (fault : Fault) : Prop :=
  fault = .outOfBounds .argument ∨ fault = .assertion .keyLength

instance (fault : Fault) : Decidable (Fault.FromArgument fault) :=
  inferInstanceAs (Decidable (fault = .outOfBounds .argument ∨ fault = .assertion .keyLength))

/-- The step does not fail on account of the bytes of a command. -/
def Spares {α : Type} (step : Except Fault α) : Prop :=
  ∀ fault, step = .error fault → ¬ Fault.FromArgument fault

namespace Spares

variable {α β : Type}

theorem ok (value : α) : Spares (.ok value : Except Fault α) := nofun

theorem error {fault : Fault} (other : ¬ Fault.FromArgument fault) :
    Spares (.error fault : Except Fault α) := by
  intro _ same
  cases same
  exact other

theorem bind {step : Except Fault α} {next : α → Except Fault β} (first : Spares step)
    (rest : ∀ value, step = .ok value → Spares (next value)) : Spares (step >>= next) := by
  cases done : step with
  | error fault => exact error (first fault done)
  | ok value => exact rest value done

theorem check {assertion : Assertion} {condition : Bool} (other : assertion ≠ .keyLength) :
    Spares (Boutique.check assertion condition) := by
  cases condition with
  | true => exact ok ()
  | false =>
      apply error
      intro given
      rcases given with impossible | impossible
      · cases impossible
      · cases impossible
        exact other rfl

theorem readBytes {memory : Bytes} {offset len : Nat} :
    Spares (Boutique.readBytes .storage memory offset len) := by
  rw [Boutique.readBytes]
  split
  · exact ok _
  · exact error (by decide)

theorem writeBytes {memory data : Bytes} {offset : Nat} :
    Spares (Boutique.writeBytes .storage memory offset data) := by
  rw [Boutique.writeBytes]
  split
  · exact ok _
  · exact error (by decide)

theorem probe {ρ : Type} {visit : Nat → Except Fault (Option ρ)}
    (visits : ∀ index, Spares (visit index)) (size start fuel index : Nat) :
    Spares (Data.probe .diverges visit size start fuel index) := by
  induction fuel generalizing index with
  | zero => exact error (by decide)
  | succ fuel ih =>
      rw [Data.probe]
      apply bind (visits index)
      intro outcome _
      cases outcome with
      | none =>
          dsimp only
          split
          · exact ok _
          · exact ih _
      | some result => exact ok _

end Spares

namespace Storage

variable {s : Storage} {data : Bytes} {dest : Nat}

theorem put_spares (length : data.length = s.docSize) : Spares (s.put data) := by
  have whole : Boutique.readBytes .argument data 0 s.grow.docSize = .ok data := by
    rw [grow_docSize, ← length, readBytes_eq (by omega), slice_all]
  rw [put, whole, ok_bind]
  exact Spares.writeBytes.bind fun _ _ => .ok _

theorem replace_spares (length : data.length = s.docSize) : Spares (s.replace dest data) := by
  rw [replace, ← length, readBytes_eq (by omega), slice_all, ok_bind]
  exact Spares.writeBytes.bind fun _ _ => .ok _

theorem remove_spares : Spares (s.remove dest) := by
  refine Spares.bind (.check nofun) fun _ _ => ?_
  refine Spares.bind (.check nofun) fun _ _ => ?_
  dsimp only
  split
  · exact .ok _
  · exact Spares.readBytes.bind fun _ _ => Spares.writeBytes.bind fun _ _ => .ok _

end Storage

namespace Collection

variable {c : Collection} {std : StdHash} {data key : Bytes} {dest : List KeyValue}
  {keyHash : UInt64} {idx : Nat}

theorem bufferFn_spares {access : KeyAccess} {memory : Bytes} {base : Nat} :
    Spares (access.bufferFn .storage memory base) := by
  rw [KeyAccess.bufferFn]
  split
  · exact Spares.readBytes.bind fun _ _ => .ok _
  · exact .ok _

theorem bucketAt_spares : Spares (bucketAt dest idx) := by
  rw [bucketAt]
  split
  · exact .error (by decide)
  · exact .ok _

/-- Hashing a key read from a document of the storage: its length is right. -/
theorem hashStored_spares {α : Type} {access : KeyAccess} {memory : Bytes} {base : Nat}
    {next : Bytes → UInt64 → Except Fault α} (rest : ∀ key hash, Spares (next key hash)) :
    Spares (access.readKey .storage memory base >>= fun key =>
      access.hashFn std key >>= next key) := by
  apply Spares.bind
  · exact bufferFn_spares.bind fun _ _ => Spares.readBytes
  · intro key read
    have isKey : access.IsKey key := by
      obtain ⟨buf, buffer, read⟩ := bind_ok_iff.mp read
      obtain ⟨offset, type⟩ := access
      cases type with
      | string => trivial
      | primitive type =>
          cases buffer
          rw [Boutique.readBytes] at read
          split at read
          · cases read
            exact slice_length (by assumption)
          · cases read
    rw [KeyAccess.hashFn_eq isKey, ok_bind]
    exact rest key _

theorem hasKey_spares {index : Nat} : Spares (c.hasKey index key) := by
  apply bufferFn_spares.bind
  intro buf _
  split
  · exact Spares.readBytes.bind fun _ _ => .ok _
  · exact .ok _

theorem putInternal_spares : Spares (c.putInternal dest key keyHash) := by
  apply Spares.probe
  intro index
  apply bucketAt_spares.bind
  intro bucket _
  split
  · exact .ok _
  · split
    · apply hasKey_spares.bind
      intro found _
      cases found <;> exact .ok _
    · exact .ok _

theorem findInternal_spares : Spares (c.findInternal key keyHash) := by
  rw [findInternal]
  split
  · exact .ok _
  · refine Spares.bind (Spares.probe ?_ _ _ _ _) fun _ _ => .ok _
    intro index
    apply bucketAt_spares.bind
    intro bucket _
    split
    · exact .ok _
    · split
      · apply hasKey_spares.bind
        intro found _
        cases found <;> exact .ok _
      · exact .ok _

theorem rehashFrom_spares (remaining i : Nat) : Spares (c.rehashFrom std remaining i dest) := by
  induction remaining generalizing i dest with
  | zero => exact .ok _
  | succ remaining ih =>
      apply hashStored_spares
      intro key hash
      apply putInternal_spares.bind
      intro placed _
      cases placed with
      | none => exact .ok _
      | some placed =>
          apply bucketAt_spares.bind
          intro res _
          refine Spares.bind (.check nofun) fun _ _ => ?_
          exact ih (i + 1)

theorem growBuckets_spares : Spares (c.growBuckets std) := by
  rw [growBuckets]
  split
  · apply (rehashFrom_spares _ _).bind
    intro rehashed _
    cases rehashed <;> exact .ok _
  · exact .ok _

/-- A document of the right size with its key inside is all that `put` reads. -/
theorem put_spares (length : data.length = c.docSize) (fits : c.key.keyEnd data ≤ c.docSize) :
    Spares (c.put std data) := by
  apply growBuckets_spares.bind
  intro grown grew
  cases grown with
  | none => exact .ok _
  | some grown =>
      have same := growBuckets_sameKind grew
      rw [← same.docSize] at length fits
      rw [← same.key] at fits
      have whole : slice data 0 grown.docSize = data := by rw [← length, slice_all]
      change Spares (grown.insert std data)
      rw [insert, grown.key.readKey_eq (by omega) whole fits, ok_bind,
        KeyAccess.hashFn_eq (grown.key.isKey_keyOf length fits), ok_bind]
      apply putInternal_spares.bind
      intro placed _
      cases placed with
      | none => exact .ok _
      | some placed =>
          apply bucketAt_spares.bind
          intro res _
          split
          · exact (Storage.put_spares length).bind fun _ _ => .ok _
          · exact (Storage.replace_spares length).bind fun _ _ => .ok _

theorem hashFn_error {access : KeyAccess} (other : ¬ access.IsKey key) :
    access.hashFn std key = .error (.assertion .keyLength) := by
  obtain ⟨offset, type⟩ := access
  cases type with
  | string => exact absurd trivial other
  | primitive type =>
      have length : decide (key.length = type.implSize) = false := decide_eq_false other
      simp only [KeyAccess.hashFn, length, check_false, error_bind]

theorem findDocument_error (other : ¬ c.key.IsKey key) :
    c.findDocument std key = .error (.assertion .keyLength) := by
  rw [findDocument, find, hashFn_error other]
  rfl

theorem remove_error (other : ¬ c.key.IsKey key) :
    c.remove std key = .error (.assertion .keyLength) := by
  rw [remove, hashFn_error other]
  rfl

theorem findDocument_spares (isKey : c.key.IsKey key) : Spares (c.findDocument std key) := by
  rw [findDocument, find, KeyAccess.hashFn_eq isKey, ok_bind]
  apply Spares.bind
  · apply findInternal_spares.bind
    intro found _
    cases found with
    | none => exact .ok _
    | some idx => exact bucketAt_spares.bind fun _ _ => .ok _
  · intro found _
    cases found with
    | none => exact .ok _
    | some dest => exact Spares.readBytes.bind fun _ _ => .ok _

theorem redirectLast_spares {valueIndex : Nat} : Spares (c.redirectLast std valueIndex) := by
  rw [redirectLast]
  split
  · apply hashStored_spares
    intro key hash
    apply findInternal_spares.bind
    intro last _
    cases last with
    | none => exact .error (by decide)
    | some last => exact bucketAt_spares.bind fun _ _ => .ok _
  · exact .ok _

theorem remove_spares (isKey : c.key.IsKey key) : Spares (c.remove std key) := by
  rw [remove, KeyAccess.hashFn_eq isKey, ok_bind]
  apply findInternal_spares.bind
  intro found _
  cases found with
  | none => exact .ok _
  | some found =>
      apply bucketAt_spares.bind
      intro bucket _
      split
      · exact .error (by decide)
      · apply redirectLast_spares.bind
        intro buckets _
        apply bucketAt_spares.bind
        intro bucket _
        exact Storage.remove_spares.bind fun _ _ => .ok _

end Collection

end Boutique.Db
