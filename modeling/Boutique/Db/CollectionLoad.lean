import Boutique.Db.CollectionFaults
import Boutique.Db.CollectionRoom

namespace Boutique.Db.Collection

open Boutique.Data

/-! # The load of the buckets

`put` counts documents where its loop needs free buckets. A live bucket comes
with a document and goes with one, whatever the buckets and the storage hold. -/

variable {c after : Collection} {std : StdHash} {data key : Bytes} {dest buckets : List KeyValue}
  {keyHash : UInt64} {idx : Nat} {old : KeyValue}

instance (bucket : KeyValue) : Decidable (IsFree bucket) := inferInstanceAs (Decidable (_ ∨ _))

/-- The number of buckets that are neither unused nor removed. -/
def liveCount (buckets : List KeyValue) : Nat := buckets.countP fun bucket => ¬ IsFree bucket

theorem liveCount_set (fresh : KeyValue) (found : dest[idx]? = some old) :
    liveCount (dest.set idx fresh) + (if IsFree old then 0 else 1) =
      liveCount dest + (if IsFree fresh then 0 else 1) := by
  obtain ⟨bound, rfl⟩ := List.getElem?_eq_some_iff.mp found
  have counted := List.boole_getElem_le_countP (p := fun bucket => decide ¬ IsFree bucket) bound
  rw [liveCount, List.countP_set bound]
  rw [liveCount]
  by_cases wasFree : IsFree dest[idx] <;> by_cases isFree : IsFree fresh <;>
    simp only [wasFree, isFree, not_true_eq_false, not_false_eq_true, decide_true, decide_false,
      Bool.false_eq_true, ↓reduceIte] at counted ⊢ <;> omega

theorem liveCount_set_le (dest : List KeyValue) (idx : Nat) (fresh : KeyValue) :
    liveCount (dest.set idx fresh) ≤ liveCount dest + 1 := by
  cases found : dest[idx]? with
  | none =>
      rw [List.set_eq_of_length_le (List.getElem?_eq_none_iff.mp found)]
      omega
  | some old =>
      have counted := liveCount_set fresh found
      split at counted <;> split at counted <;> omega

/-- Which buckets are live is up to their hashes. -/
theorem liveCount_congr (same : buckets.map KeyValue.keyHash = dest.map KeyValue.keyHash) :
    liveCount buckets = liveCount dest := by
  have counted : ∀ list : List KeyValue, liveCount list = (list.map KeyValue.keyHash).countP
      fun hash => ¬ (hash = 0 ∨ hash = tombstoneKeyHash) := by
    intro list
    rw [List.countP_map]
    rfl
  rw [counted, counted, same]

theorem exists_free_of_liveCount (room : liveCount dest < dest.length) :
    ∃ bucket ∈ dest, IsFree bucket := by
  by_contra full
  push Not at full
  have all := List.countP_eq_length.mpr fun bucket member => decide_eq_true (full bucket member)
  rw [liveCount] at room
  omega

/-- The bucket counts that occur, and how full they are. -/
structure Loaded (c : Collection) : Prop where
  bucketCount : c.buckets = [] ∧ c.count = 0 ∨ ∃ k, c.buckets.length = 32 * 2 ^ k
  live : liveCount c.buckets ≤ c.count
  load : c.buckets ≠ [] → c.count + 1 ≤ 5 * c.buckets.length / 7

theorem new_loaded {schema : Schema} (built : Collection.new schema = .ok c) : c.Loaded := by
  obtain ⟨_, _, _, _, none, storage, _⟩ := new_spec built
  have empty : c.count = 0 := by
    rw [count, storage]
  exact ⟨.inl ⟨none, empty⟩, by simp [none, liveCount], fun some => absurd none some⟩

theorem powerOfTwo_of_bucketCount {size : Nat} (bucketCount : ∃ k, size = 32 * 2 ^ k) :
    ∃ k, size = 2 ^ k := by
  obtain ⟨k, rfl⟩ := bucketCount
  exact ⟨5 + k, by rw [pow_add]; norm_num⟩

theorem Loaded.hasRoom (loaded : c.Loaded) : c.HasRoom where
  grown _ := by
    obtain ⟨⟨k, length⟩, room⟩ := newBucketCount_room loaded.bucketCount loaded.load
    exact ⟨powerOfTwo_of_bucketCount ⟨k, length⟩, by omega⟩
  kept grows := by
    have roomy := count_lt_of_not_grows grows
    have live := loaded.live
    refine ⟨?_, exists_free_of_liveCount (by omega)⟩
    rcases loaded.bucketCount with ⟨none, _⟩ | ⟨k, length⟩
    · rw [none] at roomy
      simp at roomy
    · exact powerOfTwo_of_bucketCount ⟨k, length⟩

/-! ## What the operations do to the load -/

theorem rehashFrom_live (remaining i : Nat)
    (returned : c.rehashFrom std remaining i dest = .ok (some buckets)) :
    buckets.length = dest.length ∧ liveCount buckets ≤ liveCount dest + remaining := by
  induction remaining generalizing i dest with
  | zero =>
      cases returned
      exact ⟨rfl, Nat.le_refl _⟩
  | succ remaining ih =>
      obtain ⟨key, _, returned⟩ := bind_ok_iff.mp returned
      obtain ⟨hash, _, returned⟩ := bind_ok_iff.mp returned
      obtain ⟨claimed, inserted, returned⟩ := bind_ok_iff.mp returned
      cases claimed with
      | none => cases returned
      | some claimed =>
          obtain ⟨idx, placed⟩ := claimed
          obtain ⟨res, _, returned⟩ := bind_ok_iff.mp returned
          obtain ⟨_, _, returned⟩ := bind_ok_iff.mp returned
          rw [putInternal_written inserted] at returned
          obtain ⟨length, live⟩ := ih (i + 1) returned
          have more := liveCount_set_le dest idx { res with valueIndex := i }
          rw [List.length_set] at length
          exact ⟨length, by omega⟩

theorem liveCount_replicate (size : Nat) : liveCount (List.replicate size {}) = 0 := by
  rw [liveCount, List.countP_eq_zero]
  intro bucket member
  rw [List.eq_of_mem_replicate member]
  decide

/-- After growing there is room for the document to put. -/
theorem Loaded.growBuckets (loaded : c.Loaded) {grown : Collection}
    (grew : c.growBuckets std = .ok (some grown)) :
    ∃ buckets, grown = { c with buckets } ∧ (∃ k, buckets.length = 32 * 2 ^ k) ∧
      liveCount buckets ≤ c.count ∧ c.count + 2 ≤ 5 * buckets.length / 7 := by
  rw [Collection.growBuckets] at grew
  cases grows : c.grows with
  | false =>
      rw [grows] at grew
      cases grew
      have roomy := count_lt_of_not_grows grows
      refine ⟨c.buckets, rfl, loaded.bucketCount.resolve_left ?_, loaded.live, by omega⟩
      intro unused
      rw [unused.1] at roomy
      simp at roomy
  | true =>
      rw [grows] at grew
      obtain ⟨rehashed, looped, grew⟩ := bind_ok_iff.mp grew
      cases rehashed with
      | none => cases grew
      | some buckets =>
          cases grew
          obtain ⟨length, live⟩ := rehashFrom_live c.count 0 looped
          rw [List.length_replicate] at length
          rw [liveCount_replicate, Nat.zero_add] at live
          obtain ⟨size, room⟩ := newBucketCount_room loaded.bucketCount loaded.load
          exact ⟨buckets, rfl, length ▸ size, live, length ▸ room⟩

theorem putInternal_live (claimed : c.putInternal dest key keyHash = .ok (some (idx, buckets))) :
    liveCount buckets ≤ liveCount dest + 1 := by
  rcases putInternal_shape claimed with ⟨rfl, _⟩ | rfl
  · exact Nat.le_succ _
  · exact liveCount_set_le _ _ _

theorem Loaded.insert {dest : Option Nat} (bucketCount : ∃ k, c.buckets.length = 32 * 2 ^ k)
    (live : liveCount c.buckets ≤ c.count) (room : c.count + 2 ≤ 5 * c.buckets.length / 7)
    (inserted : c.insert std data = .ok (dest, after)) : after.Loaded := by
  cases insert_ok inserted with
  | none => exact ⟨.inr bucketCount, live, fun _ => by omega⟩
  | append claimed found new stored =>
      have length := putInternal_length claimed
      have more := putInternal_live claimed
      have counted : Storage.count _ = _ := Storage.put_count stored
      refine ⟨.inr (length ▸ bucketCount), ?_, fun _ => ?_⟩
      · rw [count, counted]
        exact more.trans (Nat.add_le_add_right live 1)
      · rw [count, counted]
        dsimp only
        rw [length]
        exact room
  | replace claimed found known stored =>
      obtain ⟨rfl, _, _⟩ := putInternal_known claimed found known
      have counted : Storage.count _ = _ := Storage.replace_count stored
      refine ⟨.inr bucketCount, ?_, fun _ => ?_⟩
      · rw [count, counted]
        exact live
      · rw [count, counted]
        exact (Nat.le_succ _).trans room

theorem Loaded.put {dest : Option Nat} (loaded : c.Loaded)
    (put : c.put std data = .ok (dest, after)) : after.Loaded := by
  obtain ⟨grown, grew, inserted⟩ := bind_ok_iff.mp put
  cases grown with
  | none =>
      cases inserted
      exact loaded
  | some grown =>
      obtain ⟨buckets, rfl, bucketCount, live, room⟩ := loaded.growBuckets grew
      exact Loaded.insert bucketCount live room inserted

theorem findInternal_some (found : c.findInternal key keyHash = .ok (some idx)) :
    ∃ bucket, c.buckets[idx]? = some bucket ∧ bucket.keyHash = keyHash := by
  rw [findInternal] at found
  split at found
  · cases found
  · obtain ⟨result, probed, found⟩ := bind_ok_iff.mp found
    cases result with
    | none => cases found
    | some result =>
        cases found
        obtain ⟨position, stopped⟩ := visited_of_probe probed
        obtain ⟨bucket, here, stopped⟩ := bind_ok_iff.mp stopped
        split at stopped
        · cases stopped
        · split at stopped
          · rename_i same
            obtain ⟨matched, _, stopped⟩ := bind_ok_iff.mp stopped
            cases matched with
            | false => cases stopped
            | true =>
                cases stopped
                exact ⟨bucket, bucketAt_ok_iff.mp here, same⟩
          · cases stopped

/-- Redirecting a bucket leaves all hashes as they are. -/
theorem redirectLast_hashes {valueIndex : Nat}
    (redirected : c.redirectLast std valueIndex = .ok buckets) :
    buckets.map KeyValue.keyHash = c.buckets.map KeyValue.keyHash := by
  rw [redirectLast] at redirected
  split at redirected
  · obtain ⟨key, _, redirected⟩ := bind_ok_iff.mp redirected
    obtain ⟨hash, _, redirected⟩ := bind_ok_iff.mp redirected
    obtain ⟨last, _, redirected⟩ := bind_ok_iff.mp redirected
    cases last with
    | none => cases redirected
    | some last =>
        obtain ⟨bucket, found, redirected⟩ := bind_ok_iff.mp redirected
        cases redirected
        have same : (c.buckets.map KeyValue.keyHash)[last]? = some bucket.keyHash := by
          rw [List.getElem?_map, bucketAt_ok_iff.mp found, Option.map_some]
        obtain ⟨bound, here⟩ := List.getElem?_eq_some_iff.mp same
        rw [List.map_set]
        dsimp only
        rw [← here, List.set_getElem_self]
  · cases redirected
    rfl

/-- The bucket that `remove` comes to is live, and stays so until it is marked. -/
theorem found_not_free {found index : Nat} {bucket : KeyValue} (hashable : Hashable keyHash)
    (known : c.findInternal key keyHash = .ok (some found))
    (redirected : c.redirectLast std index = .ok buckets)
    (here : bucketAt buckets found = .ok bucket) : ¬ IsFree bucket := by
  obtain ⟨before, was, rfl⟩ := findInternal_some known
  have same : (buckets.map KeyValue.keyHash)[found]? = some before.keyHash := by
    rw [redirectLast_hashes redirected, List.getElem?_map, was, Option.map_some]
  rw [List.getElem?_map, bucketAt_ok_iff.mp here, Option.map_some, Option.some.injEq] at same
  rw [IsFree, same]
  exact not_or.mpr hashable

theorem Loaded.remove (loaded : c.Loaded)
    (hashable : c.key.IsKey key → Hashable (c.key.hash std key))
    (removed : c.remove std key = .ok after) : after.Loaded := by
  by_cases isKey : c.key.IsKey key
  · cases remove_ok removed with
    | absent => exact loaded
    | @removed _ _ _ _ bucket _ hashed known redirected here shrunk =>
        rw [KeyAccess.hashFn_eq isKey] at hashed
        cases hashed
        have used := found_not_free (hashable isKey) known redirected here
        have hashes := redirectLast_hashes redirected
        have length := congrArg List.length hashes
        rw [List.length_map, List.length_map] at length
        have counted : _ + 1 = c.count := Storage.remove_count shrunk
        have fewer := liveCount_set { bucket with keyHash := tombstoneKeyHash }
          (bucketAt_ok_iff.mp here)
        rw [if_neg used, if_pos (.inr rfl), liveCount_congr hashes] at fewer
        have before := loaded.live
        have some : c.buckets ≠ [] := by
          intro unused
          have empty : liveCount [] = 0 := rfl
          rw [unused, empty] at fewer
          omega
        have load := loaded.load some
        refine ⟨.inr ?_, ?_, fun _ => ?_⟩
        · rw [List.length_set, length]
          exact loaded.bucketCount.resolve_left fun none => some none.1
        · rw [count]
          dsimp only
          omega
        · rw [count]
          dsimp only
          rw [List.length_set, length]
          omega
  · rw [remove_error isKey] at removed
    cases removed

theorem Loaded.step {op : Op} (loaded : c.Loaded)
    (hashable : ∀ key, c.key.IsKey key → Hashable (c.key.hash std key))
    (stepped : c.step std op = .ok after) : after.Loaded := by
  cases op with
  | put data =>
      obtain ⟨_, put, stepped⟩ := bind_ok_iff.mp stepped
      cases stepped
      exact loaded.put put
  | remove key => exact loaded.remove (hashable key) stepped

theorem Loaded.run {ops : List Op} (loaded : c.Loaded)
    (hashable : ∀ key, c.key.IsKey key → Hashable (c.key.hash std key))
    (ran : run std c ops = .ok after) : after.Loaded := by
  induction ops generalizing c with
  | nil =>
      cases ran
      exact loaded
  | cons op ops ih =>
      obtain ⟨next, stepped, ran⟩ := bind_ok_iff.mp ran
      refine ih (loaded.step hashable stepped) ?_ ran
      rw [(step_sameKind stepped).key]
      exact hashable

/-- Neither half of `put` gives up. -/
theorem Loaded.put_ne_none (loaded : c.Loaded) : c.growBuckets std ≠ .ok none ∧
    ∀ data after, c.put std data ≠ .ok (none, after) := by
  refine ⟨fun returned => ?_, fun data after => Collection.put_ne_none loaded.hasRoom after⟩
  obtain ⟨buckets, grown, _⟩ := growBuckets_some loaded.hasRoom returned
  cases grown

end Boutique.Db.Collection
