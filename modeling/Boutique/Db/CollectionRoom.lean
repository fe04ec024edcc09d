import Boutique.Db.CollectionRuns

namespace Boutique.Db.Collection

open Boutique.Data

/-! ## `put` with a free bucket

What follows holds in any state, well formed or not: as long as a bucket is
free, `put` does not give up. -/

variable {c : Collection} {std : StdHash} {data key : Bytes} {dest : List KeyValue}
  {keyHash : UInt64} {idx : Nat}

def IsFree (bucket : KeyValue) : Prop :=
  bucket.keyHash = 0 ∨ bucket.keyHash = tombstoneKeyHash

/-- All buckets are free but those at the positions `used`. -/
def FreeOutside (buckets : List KeyValue) (used : Finset Nat) : Prop :=
  ∀ position bucket, buckets[position]? = some bucket → position ∉ used → IsFree bucket

theorem FreeOutside.exists_free {used : Finset Nat} (free : FreeOutside dest used)
    (room : used.card < dest.length) : ∃ bucket ∈ dest, IsFree bucket := by
  have more : used.card < (Finset.range dest.length).card := by rwa [Finset.card_range]
  obtain ⟨position, inside, unused⟩ := Finset.exists_mem_notMem_of_card_lt_card more
  have found := List.getElem?_eq_getElem (Finset.mem_range.mp inside)
  exact ⟨_, List.mem_of_getElem? found, free position _ found unused⟩

theorem FreeOutside.set {used : Finset Nat} (free : FreeOutside dest used) (idx : Nat)
    (bucket : KeyValue) : FreeOutside (dest.set idx bucket) (used ∪ {idx}) := by
  intro position other found unused
  rw [Finset.mem_union, Finset.mem_singleton, not_or] at unused
  rw [List.getElem?_set_ne (Ne.symm unused.2)] at found
  exact free position other found unused.1

theorem bucketAt_ok_iff {bucket : KeyValue} :
    bucketAt dest idx = .ok bucket ↔ dest[idx]? = some bucket := by
  rw [bucketAt]
  cases dest[idx]? <;> simp [pure, Except.pure]

theorem putVisit_free (free : ∃ bucket, dest[idx]? = some bucket ∧ IsFree bucket) :
    c.putVisit dest key keyHash idx =
      .ok (some (idx, dest.set idx { keyHash, valueIndex := c.count })) := by
  obtain ⟨bucket, found, free⟩ := free
  rw [putVisit, bucketAt, found]
  exact if_pos free

theorem putVisit_some {claimed : Nat × List KeyValue}
    (stopped : c.putVisit dest key keyHash idx = .ok (some claimed)) :
    (claimed.2 = dest ∧ ∃ bucket, dest[claimed.1]? = some bucket ∧ ¬ IsFree bucket) ∨
      claimed.2 = dest.set claimed.1 { keyHash, valueIndex := c.count } := by
  obtain ⟨bucket, found, stopped⟩ := bind_ok_iff.mp stopped
  split at stopped
  · cases stopped
    exact .inr rfl
  · rename_i used
    split at stopped
    · obtain ⟨same, _, stopped⟩ := bind_ok_iff.mp stopped
      cases same <;> cases stopped
      exact .inl ⟨rfl, bucket, bucketAt_ok_iff.mp found, used⟩
    · cases stopped

/-- `put_internal` claims the bucket it returns, or leaves the buckets alone and
returns one that is in use. -/
theorem putInternal_shape {idx : Nat} {buckets : List KeyValue}
    (returned : c.putInternal dest key keyHash = .ok (some (idx, buckets))) :
    (buckets = dest ∧ ∃ bucket, dest[idx]? = some bucket ∧ ¬ IsFree bucket) ∨
      buckets = dest.set idx { keyHash, valueIndex := c.count } := by
  obtain ⟨_, stopped⟩ := visited_of_probe returned
  exact putVisit_some stopped

theorem putInternal_length {buckets : List KeyValue}
    (returned : c.putInternal dest key keyHash = .ok (some (idx, buckets))) :
    buckets.length = dest.length := by
  rcases putInternal_shape returned with ⟨rfl, _⟩ | rfl
  · rfl
  · rw [List.length_set]

/-- Whatever `put_internal` did was done at the bucket it returns. -/
theorem putInternal_written {buckets : List KeyValue} {bucket : KeyValue}
    (returned : c.putInternal dest key keyHash = .ok (some (idx, buckets))) :
    buckets.set idx bucket = dest.set idx bucket := by
  rcases putInternal_shape returned with ⟨rfl, _⟩ | rfl
  · rfl
  · rw [List.set_set]

/-- Only a bucket that was in use already points elsewhere than behind the last
document. -/
theorem putInternal_known {buckets : List KeyValue} {res : KeyValue}
    (returned : c.putInternal dest key keyHash = .ok (some (idx, buckets)))
    (found : bucketAt buckets idx = .ok res) (known : res.valueIndex ≠ c.count) :
    buckets = dest ∧ dest[idx]? = some res ∧ ¬ IsFree res := by
  rw [bucketAt_ok_iff] at found
  rcases putInternal_shape returned with ⟨rfl, bucket, here, used⟩ | rfl
  · rw [here] at found
    cases found
    exact ⟨rfl, here, used⟩
  · rw [List.getElem?_set, if_pos rfl] at found
    split at found
    · cases found
      exact absurd rfl known
    · cases found

theorem putInternal_some (powerOfTwo : ∃ k, dest.length = 2 ^ k)
    (free : ∃ bucket ∈ dest, IsFree bucket) {result : Option (Nat × List KeyValue)}
    (returned : c.putInternal dest key keyHash = .ok result) :
    ∃ idx buckets, result = some (idx, buckets) := by
  cases result with
  | none =>
      rw [putInternal, probe_eq powerOfTwo] at returned
      obtain ⟨bucket, member, free⟩ := free
      obtain ⟨position, found⟩ := List.mem_iff_getElem?.mp member
      obtain ⟨distance, inside, rfl⟩ :=
        exists_probeAt_eq (List.getElem?_eq_some_iff.mp found).1 keyHash.toNat
      have passed := visited_of_findSomeM?_none returned distance (List.mem_range.mpr inside)
      rw [putVisit_free ⟨bucket, found, free⟩] at passed
      cases passed
  | some claimed => exact ⟨claimed.1, claimed.2, rfl⟩

theorem rehashFrom_some (powerOfTwo : ∃ k, dest.length = 2 ^ k) (remaining i : Nat)
    {used : Finset Nat} (free : FreeOutside dest used)
    (room : used.card + remaining < dest.length) {result : Option (List KeyValue)}
    (returned : c.rehashFrom std remaining i dest = .ok result) :
    ∃ buckets, result = some buckets ∧ buckets.length = dest.length ∧
      ∃ bucket ∈ buckets, IsFree bucket := by
  induction remaining generalizing i dest used with
  | zero =>
      cases returned
      exact ⟨dest, rfl, rfl, free.exists_free room⟩
  | succ remaining ih =>
      obtain ⟨key, _, returned⟩ := bind_ok_iff.mp returned
      obtain ⟨hash, _, returned⟩ := bind_ok_iff.mp returned
      obtain ⟨claimed, inserted, returned⟩ := bind_ok_iff.mp returned
      obtain ⟨idx, buckets, rfl⟩ :=
        putInternal_some powerOfTwo (free.exists_free (by omega)) inserted
      obtain ⟨res, _, returned⟩ := bind_ok_iff.mp returned
      obtain ⟨_, _, returned⟩ := bind_ok_iff.mp returned
      have card := Finset.card_union_le used {idx}
      rw [Finset.card_singleton] at card
      rw [putInternal_written inserted] at returned
      obtain ⟨after, same, length, spare⟩ := ih (by rwa [List.length_set]) (i + 1)
        (free.set idx { res with valueIndex := i }) (by rw [List.length_set]; omega) returned
      exact ⟨after, same, by rw [length, List.length_set], spare⟩

/-- `put` has a bucket for one more document, after growing if it grows. -/
structure HasRoom (c : Collection) : Prop where
  grown : c.grows = true → (∃ k, c.newBucketCount = 2 ^ k) ∧ c.count < c.newBucketCount
  kept : c.grows = false → (∃ k, c.buckets.length = 2 ^ k) ∧ ∃ bucket ∈ c.buckets, IsFree bucket

theorem growBuckets_some (room : c.HasRoom) {result : Option Collection}
    (returned : c.growBuckets std = .ok result) :
    ∃ buckets, result = some { c with buckets } ∧ (∃ k, buckets.length = 2 ^ k) ∧
      ∃ bucket ∈ buckets, IsFree bucket := by
  rw [growBuckets] at returned
  cases grows : c.grows with
  | false =>
      rw [grows] at returned
      cases returned
      exact ⟨c.buckets, rfl, room.kept grows⟩
  | true =>
      obtain ⟨powerOfTwo, enough⟩ := room.grown grows
      rw [grows] at returned
      obtain ⟨rehashed, looped, returned⟩ := bind_ok_iff.mp returned
      have free : FreeOutside (List.replicate c.newBucketCount ({} : KeyValue)) ∅ := by
        intro position bucket found _
        rw [List.eq_of_mem_replicate (List.mem_of_getElem? found)]
        exact .inl rfl
      obtain ⟨buckets, rfl, length, spare⟩ := rehashFrom_some (by rwa [List.length_replicate])
        c.count 0 free (by rwa [List.length_replicate, Finset.card_empty, Nat.zero_add]) looped
      cases returned
      rw [List.length_replicate] at length
      exact ⟨buckets, rfl, length ▸ powerOfTwo, spare⟩

theorem put_ne_none (room : c.HasRoom) (after : Collection) :
    c.put std data ≠ .ok (none, after) := by
  intro returned
  obtain ⟨grown, grew, inserted⟩ := bind_ok_iff.mp returned
  obtain ⟨buckets, rfl, powerOfTwo, free⟩ := growBuckets_some room grew
  cases insert_ok inserted with
  | none full =>
      obtain ⟨_, _, some⟩ := putInternal_some powerOfTwo free full
      cases some

/-- A well-formed collection has room. -/
theorem WellFormed.hasRoom {docSize : Nat} {docs old : List Bytes}
    (wellFormed : c.WellFormed std docSize docs old) : c.HasRoom where
  grown _ := by
    obtain ⟨powerOfTwo, room⟩ := newBucketCount_spec wellFormed
    rw [count, wellFormed.stored.count_eq]
    exact ⟨powerOfTwo, room⟩
  kept grows := by
    have roomy := count_lt_of_not_grows grows
    have some : 0 < c.buckets.length := by omega
    refine ⟨wellFormed.size.resolve_left fun none => ?_, ?_⟩
    · rw [none.1] at some
      cases some
    · have few : (c.keys docs).length < c.slots.length := by
        rw [keys, slots, List.length_map, List.length_map, ← wellFormed.stored.count_eq]
        change c.count < _
        omega
      obtain ⟨position, slot, found, free⟩ := wellFormed.indexes.exists_free few
      rw [slots, List.getElem?_map, Option.map_eq_some_iff] at found
      obtain ⟨bucket, here, rfl⟩ := found
      refine ⟨bucket, List.mem_of_getElem? here, ?_⟩
      by_contra live
      rw [IsFree, not_or] at live
      rw [KeyValue.slot, if_neg live.1, if_neg live.2] at free
      cases free

end Boutique.Db.Collection
