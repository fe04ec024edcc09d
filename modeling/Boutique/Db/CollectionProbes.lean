import Boutique.Db.CollectionRoom

namespace Boutique.Db.Collection

open Boutique.Data

/-! # The buckets that probing examines

In any state: neither the buckets nor what they point at need to be well
formed. -/

variable {c : Collection} {buckets : List KeyValue} {bucket : KeyValue} {key : Bytes}
  {keyHash : UInt64} {idx : Nat}

/-- The bucket does not match: its hash is another one, or the document it
points at compares different. A comparison that leaves the storage tells
nothing. -/
def Differs (c : Collection) (key : Bytes) (keyHash : UInt64) (bucket : KeyValue) : Prop :=
  bucket.keyHash = keyHash → c.hasKey bucket.valueIndex key = .ok false

/-- Neither empty nor a tombstone. -/
def IsLive (bucket : KeyValue) : Prop :=
  bucket.keyHash ≠ 0 ∧ bucket.keyHash ≠ tombstoneKeyHash

/-- The bucket `distance` positions behind the home of a hash. -/
def probed (buckets : List KeyValue) (keyHash : UInt64) (distance : Nat) : Option KeyValue :=
  buckets[probeAt buckets.length keyHash.toNat distance]?

/-- Comparing goes on behind a bucket exactly when it does not match. -/
theorem compare_none_iff {α : Type} {result : α} :
    (if bucket.keyHash = keyHash then do
        if ← c.hasKey bucket.valueIndex key then return some result else return none
      else return none : Except Fault (Option α)) = .ok none ↔ c.Differs key keyHash bucket := by
  rw [Differs]
  by_cases same : bucket.keyHash = keyHash
  · simp only [same, ↓reduceIte, forall_const]
    cases c.hasKey bucket.valueIndex key with
    | error fault => simp
    | ok equal => cases equal <;> simp [pure, Except.pure]
  · simp [same, pure, Except.pure]

theorem putVisit_none_iff (found : buckets[idx]? = some bucket) :
    c.putVisit buckets key keyHash idx = .ok none ↔
      IsLive bucket ∧ c.Differs key keyHash bucket := by
  rw [putVisit, bucketAt_ok_iff.mpr found, ok_bind, IsLive, ← not_or]
  by_cases free : bucket.keyHash = 0 ∨ bucket.keyHash = tombstoneKeyHash
  · simp [free, pure, Except.pure]
  · rw [if_neg free, compare_none_iff]
    simp [free]

theorem findVisit_none_iff (found : c.buckets[idx]? = some bucket) :
    c.findVisit key keyHash idx = .ok none ↔
      bucket.keyHash ≠ 0 ∧ c.Differs key keyHash bucket := by
  rw [findVisit, bucketAt_ok_iff.mpr found, ok_bind]
  by_cases empty : bucket.keyHash = 0
  · simp [empty, pure, Except.pure]
  · rw [if_neg empty, compare_none_iff]
    simp [empty]

theorem findVisit_empty_iff (found : c.buckets[idx]? = some bucket) :
    c.findVisit key keyHash idx = .ok (some none) ↔ bucket.keyHash = 0 := by
  rw [findVisit, bucketAt_ok_iff.mpr found, ok_bind]
  by_cases empty : bucket.keyHash = 0
  · simp [empty, pure, Except.pure]
  · rw [if_neg empty]
    by_cases same : bucket.keyHash = keyHash
    · simp only [same, ↓reduceIte]
      cases c.hasKey bucket.valueIndex key with
      | error fault => simp [← same, empty]
      | ok equal => cases equal <;> simp [pure, Except.pure, ← same, empty]
    · simp [same, empty, pure, Except.pure]

/-- A probing loop ends with `outcome` after at most one round over the buckets,
which starts at the home of the hash and comes to none twice. -/
def Probes {ρ : Type} (visit : Nat → Except Fault (Option ρ)) (buckets : List KeyValue)
    (keyHash : UInt64) (outcome : Except Fault (Option ρ)) : Prop :=
  ∃ positions : List Nat, positions.length ≤ buckets.length ∧ positions.Nodup ∧
    (∀ j, j < positions.length →
      positions[j]? = some ((keyHash.toNat + j) % buckets.length)) ∧
    Walks visit buckets.length (keyHash.toNat &&& (buckets.length - 1))
      (keyHash.toNat &&& (buckets.length - 1)) positions outcome

theorem probes_probe {ρ : Type} (visit : Nat → Except Fault (Option ρ))
    (powerOfTwo : ∃ k, buckets.length = 2 ^ k) (keyHash : UInt64) :
    Probes visit buckets keyHash
      (probe .diverges visit buckets.length (keyHash.toNat &&& (buckets.length - 1))
        buckets.length (keyHash.toNat &&& (buckets.length - 1))) := by
  obtain ⟨count, _, bound, walks⟩ := walks_probe powerOfTwo keyHash.toNat
  refine ⟨_, ?_, probeAt_nodup keyHash.toNat bound, ?_, walks⟩
  · rwa [List.length_map, List.length_range]
  · intro j before
    rw [List.length_map, List.length_range] at before
    rw [List.getElem?_map, List.getElem?_range before]
    rfl

/-- The bucket at this distance is empty. -/
def EmptyAt (c : Collection) (keyHash : UInt64) (distance : Nat) : Prop :=
  ∃ bucket, probed c.buckets keyHash distance = some bucket ∧ bucket.keyHash = 0

/-- It is not, but it does not match either. -/
def PassedAt (c : Collection) (key : Bytes) (keyHash : UInt64) (distance : Nat) : Prop :=
  ∃ bucket, probed c.buckets keyHash distance = some bucket ∧
    bucket.keyHash ≠ 0 ∧ c.Differs key keyHash bucket

theorem exists_probed (inside : 0 < buckets.length) (keyHash : UInt64) (distance : Nat) :
    ∃ bucket, probed buckets keyHash distance = some bucket :=
  ⟨_, List.getElem?_eq_getElem (probeAt_lt inside keyHash.toNat distance)⟩

theorem emptyAt_iff (key : Bytes) (inside : 0 < c.buckets.length) {distance : Nat} :
    c.EmptyAt keyHash distance ↔
      c.findVisit key keyHash (probeAt c.buckets.length keyHash.toNat distance) =
        .ok (some none) := by
  obtain ⟨bucket, found⟩ := exists_probed inside keyHash distance
  rw [findVisit_empty_iff found, EmptyAt, found]
  simp

theorem passedAt_iff (inside : 0 < c.buckets.length) {distance : Nat} :
    c.PassedAt key keyHash distance ↔
      c.findVisit key keyHash (probeAt c.buckets.length keyHash.toNat distance) = .ok none := by
  obtain ⟨bucket, found⟩ := exists_probed inside keyHash distance
  rw [findVisit_none_iff found, PassedAt, found]
  simp

theorem putInternal_none_iff (powerOfTwo : ∃ k, buckets.length = 2 ^ k) :
    c.putInternal buckets key keyHash = .ok none ↔
      ∀ bucket ∈ buckets, IsLive bucket ∧ c.Differs key keyHash bucket := by
  rw [putInternal, probe_eq_none_iff powerOfTwo]
  constructor
  · intro passed bucket member
    obtain ⟨position, inside, rfl⟩ := List.getElem_of_mem member
    obtain ⟨distance, near, rfl⟩ := exists_probeAt_eq inside keyHash.toNat
    exact (putVisit_none_iff (List.getElem?_eq_getElem inside)).mp (passed distance near)
  · intro full distance near
    obtain ⟨bucket, found⟩ := exists_probed (Nat.zero_lt_of_lt near) keyHash distance
    exact (putVisit_none_iff found).mpr (full bucket (List.mem_of_getElem? found))

theorem findInternal_eq_probe (powerOfTwo : ∃ k, c.buckets.length = 2 ^ k) :
    c.findInternal key keyHash = Option.join <$>
      probe .diverges (c.findVisit key keyHash) c.buckets.length
        (keyHash.toNat &&& (c.buckets.length - 1)) c.buckets.length
        (keyHash.toNat &&& (c.buckets.length - 1)) := by
  have some : c.buckets.isEmpty = false := by
    obtain ⟨k, length⟩ := powerOfTwo
    have positive := Nat.two_pow_pos k
    rw [List.isEmpty_eq_false_iff, ← List.length_pos_iff, length]
    exact positive
  rw [findInternal, some]
  rfl

theorem join_map_none_iff {step : Except Fault (Option (Option Nat))} :
    Option.join <$> step = .ok none ↔ step = .ok none ∨ step = .ok (some none) := by
  cases step with
  | error fault => simp [Functor.map, Except.map]
  | ok found =>
      cases found with
      | none => simp [Functor.map, Except.map]
      | some found => cases found <;> simp [Functor.map, Except.map]

theorem findInternal_none_iff (powerOfTwo : ∃ k, c.buckets.length = 2 ^ k) :
    c.findInternal key keyHash = .ok none ↔
      (∃ j < c.buckets.length, c.EmptyAt keyHash j ∧ ∀ i < j, c.PassedAt key keyHash i) ∨
        ∀ j < c.buckets.length, c.PassedAt key keyHash j := by
  have inside : 0 < c.buckets.length := by
    obtain ⟨k, length⟩ := powerOfTwo
    rw [length]
    exact Nat.two_pow_pos k
  rw [findInternal_eq_probe powerOfTwo, join_map_none_iff, probe_eq_none_iff powerOfTwo,
    probe_eq_some_iff powerOfTwo, or_comm]
  simp only [emptyAt_iff key inside, passedAt_iff inside]

/-- Both loops end after at most as many steps as there are buckets, and give up
exactly when they have to. -/
theorem probing_examines_once (c : Collection) (dest : List KeyValue)
    (powerOfTwo : ∃ k, c.buckets.length = 2 ^ k) (destPowerOfTwo : ∃ k, dest.length = 2 ^ k)
    (key : Bytes) (keyHash : UInt64) :
    Probes (c.putVisit dest key keyHash) dest keyHash (c.putInternal dest key keyHash) ∧
    (c.putInternal dest key keyHash = .ok none ↔
      ∀ bucket ∈ dest, IsLive bucket ∧ c.Differs key keyHash bucket) ∧
    (∃ outcome, Probes (c.findVisit key keyHash) c.buckets keyHash outcome ∧
      c.findInternal key keyHash = Option.join <$> outcome) ∧
    (c.findInternal key keyHash = .ok none ↔
      (∃ j < c.buckets.length, c.EmptyAt keyHash j ∧ ∀ i < j, c.PassedAt key keyHash i) ∨
        ∀ j < c.buckets.length, c.PassedAt key keyHash j) :=
  ⟨probes_probe _ destPowerOfTwo keyHash, putInternal_none_iff destPowerOfTwo,
    ⟨_, probes_probe _ powerOfTwo keyHash, findInternal_eq_probe powerOfTwo⟩,
    findInternal_none_iff powerOfTwo⟩

/-- A collection with nothing but tombstones. -/
def buried : Collection :=
  { emptyLedger with buckets := List.replicate 4 { keyHash := tombstoneKeyHash } }

theorem probing_examines_once_buried :
    Probes (buried.putVisit buried.buckets [] 5) buried.buckets 5
        (buried.putInternal buried.buckets [] 5) ∧
      buried.findInternal [] 5 = .ok none := by
  obtain ⟨probes, _, _, gaveUp⟩ :=
    probing_examines_once buried buried.buckets ⟨2, rfl⟩ ⟨2, rfl⟩ [] 5
  refine ⟨probes, gaveUp.mpr (.inr fun j _ => ⟨{ keyHash := tombstoneKeyHash }, ?_, by decide,
    fun same => absurd same (by decide)⟩)⟩
  exact List.getElem?_replicate_of_lt (Nat.mod_lt _ (by decide))

end Boutique.Db.Collection
