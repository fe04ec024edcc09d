import Boutique.Db.CollectionContents

namespace Boutique.Db.Collection

open Boutique.Data

variable {c : Collection} {std : StdHash} {docSize index position idx bound : Nat}
  {docs old : List Bytes} {doc key : Bytes} {dest : List KeyValue} {hash : UInt64}
  {slot : Slot UInt64}

/-! ## Insertion into a bucket array -/

theorem claimed_of_free (found : (dest.map KeyValue.slot)[idx]? = some slot)
    (free : slot.isLive = false) :
    c.claimed dest hash idx = dest.set idx { keyHash := hash, valueIndex := c.count } := by
  obtain ⟨bucket, here, rfl⟩ := Option.map_eq_some_iff.mp (List.getElem?_map.symm.trans found)
  rw [claimed, here]
  dsimp only
  rw [if_pos]
  by_contra live
  rw [not_or] at live
  rw [KeyValue.slot, if_neg live.1, if_neg live.2] at free
  cases free

theorem claimed_of_live (found : (dest.map KeyValue.slot)[idx]? = some (.live hash index)) :
    c.claimed dest hash idx = dest := by
  obtain ⟨here, hashable⟩ := bucket_of_slot found
  rw [claimed, here]
  dsimp only
  rw [if_neg (not_or.mpr hashable)]

/-- Putting a new key into buckets that index the first documents. -/
theorem putInternal_absent {front : List Bytes} (keeps : c.Keeps docSize docs old)
    (hashable : Hashable (c.key.hash std key)) (powerOfTwo : ∃ k, dest.length = 2 ^ k)
    (indexes : Indexes UInt64.toNat (c.key.hash std) front (dest.map KeyValue.slot))
    (among : front <+: c.keys docs) (room : front.length < dest.length) (absent : key ∉ front) :
    ∃ idx < dest.length, c.putInternal dest key (c.key.hash std key) = .ok (some (idx,
        dest.set idx { keyHash := c.key.hash std key, valueIndex := c.count })) ∧
      Indexes UInt64.toNat (c.key.hash std) (front ++ [key])
        ((dest.set idx ⟨c.key.hash std key, front.length⟩).map KeyValue.slot) := by
  obtain ⟨later, whole⟩ := among
  have length : front.length + later.length = docs.length := by
    rw [← List.length_append, whole, keys, List.length_map]
  have inside : LivesBelow dest docs.length := by
    intro position index hash live
    have := indexes.index_lt live
    omega
  have same : search UInt64.toNat (c.key.hash std) (Slot.claim (c.key.hash std) (c.keys docs) key)
      (dest.map KeyValue.slot) key = search UInt64.toNat (c.key.hash std)
        (Slot.claim (c.key.hash std) front key) (dest.map KeyValue.slot) key := by
    apply search_claim_congr
    intro position index hash live
    rw [← whole, List.getElem?_append_left (indexes.index_lt live)]
  obtain ⟨distance, within, slot, found, free, clear, searched⟩ :=
    indexes.search_claim_absent (by rwa [List.length_map]) absent
  rw [List.length_map] at within
  refine ⟨probeAt dest.length (c.key.hash std key).toNat distance,
    probeAt_lt (Nat.zero_lt_of_lt within) _ _, ?_, ?_⟩
  · rw [putInternal_eq keeps hashable inside powerOfTwo, same, searched, Option.map_some]
    rw [claimed_of_free found free, List.length_map]
  · have appended := indexes.append (by rwa [List.length_map]) found free clear
    rw [List.map_set, KeyValue.slot_of_hashable hashable]
    rwa [List.length_map] at appended

theorem putInternal_stored (wellFormed : c.WellFormed std docSize docs old)
    (stored : (c.keys docs)[index]? = some key)
    (clear : ¬ Shadowed UInt64.toNat (c.key.hash std) (c.keys docs) c.slots key) :
    ∃ idx, c.putInternal c.buckets key (c.key.hash std key) = .ok (some (idx, c.buckets)) ∧
      c.buckets[idx]? = some ⟨c.key.hash std key, index⟩ := by
  obtain ⟨doc, found, rfl⟩ := keys_getElem?.mp stored
  have hashable := wellFormed.hashable doc (List.mem_of_getElem? found)
  have inside : LivesBelow c.buckets docs.length := fun live => wellFormed.index_lt live
  obtain ⟨idx, slot, searched⟩ :=
    wellFormed.indexes.search_claim_stored wellFormed.distinct stored clear
  have powerOfTwo := wellFormed.powerOfTwo (List.getElem?_eq_some_iff.mp found).1
  refine ⟨idx, ?_, (bucket_of_slot slot).1⟩
  rw [putInternal_eq wellFormed.toKeeps hashable inside powerOfTwo]
  rw [slots] at searched
  rw [searched, Option.map_some, claimed_of_live slot]

/-! ## Growing -/

/-- Buckets marked as removed point below `bound`. -/
def MarkersBelow (buckets : List KeyValue) (bound : Nat) : Prop :=
  ∀ bucket ∈ buckets, bucket.keyHash = tombstoneKeyHash → bucket.valueIndex < bound

theorem MarkersBelow.set (below : MarkersBelow dest bound) {bucket : KeyValue}
    (fresh : bucket.keyHash = tombstoneKeyHash → bucket.valueIndex < bound) :
    MarkersBelow (dest.set idx bucket) bound := by
  intro other member marker
  rcases List.mem_or_eq_of_mem_set member with old | rfl
  · exact below other old marker
  · exact fresh marker

theorem rehashFrom_spec (keeps : c.Keeps docSize docs old) (distinct : (c.keys docs).Nodup)
    (hashable : ∀ doc ∈ docs, Hashable (c.key.hash std (c.key.keyOf doc)))
    (powerOfTwo : ∃ k, dest.length = 2 ^ k) (room : docs.length < dest.length)
    (remaining i : Nat) (total : i + remaining = docs.length)
    (indexes : Indexes UInt64.toNat (c.key.hash std) ((c.keys docs).take i)
      (dest.map KeyValue.slot)) (unmarked : MarkersBelow dest 0) :
    ∃ buckets, c.rehashFrom std remaining i dest = .ok (some buckets) ∧
      buckets.length = dest.length ∧ MarkersBelow buckets 0 ∧
      Indexes UInt64.toNat (c.key.hash std) (c.keys docs) (buckets.map KeyValue.slot) := by
  induction remaining generalizing i dest with
  | zero =>
      refine ⟨dest, rfl, rfl, unmarked, ?_⟩
      rwa [List.take_of_length_le] at indexes
      rw [keys, List.length_map]
      omega
  | succ remaining ih =>
      have here : i < docs.length := by omega
      have found := List.getElem?_eq_getElem here
      have member := List.getElem_mem here
      have stored : (c.keys docs)[i]? = some (c.key.keyOf docs[i]) :=
        keys_getElem?.mpr ⟨_, found, rfl⟩
      have front : ((c.keys docs).take i).length = i := by
        rw [List.length_take, keys, List.length_map]
        omega
      have absent : c.key.keyOf docs[i] ∉ (c.keys docs).take i := by
        intro early
        obtain ⟨j, before, same⟩ := List.mem_take_iff_getElem.mp early
        have equal := (List.getElem?_inj (by omega) distinct).mp
          ((List.getElem?_eq_getElem _).trans (same ▸ stored.symm))
        omega
      have isKey := c.key.isKey_keyOf (keeps.stored.blocks.length_eq docs[i]
        (List.mem_append_left _ member)) (keeps.fits _ member)
      obtain ⟨idx, bound, inserted, indexed⟩ := putInternal_absent keeps (hashable _ member)
        powerOfTwo indexes (List.take_prefix i _) (by omega) absent
      rw [front] at indexed
      have taken : (c.keys docs).take (i + 1) = (c.keys docs).take i ++ [c.key.keyOf docs[i]] := by
        rw [List.take_add_one, stored, Option.toList_some]
      rw [← taken] at indexed
      obtain ⟨buckets, rehashed, length, markers, done⟩ := ih
        (by rwa [List.length_set]) (by rwa [List.length_set]) (i + 1) (by omega) indexed
        (unmarked.set fun marker => absurd marker (hashable _ member).2)
      refine ⟨buckets, ?_, by rw [length, List.length_set], markers, done⟩
      rw [rehashFrom, keeps.readKey_eq found, ok_bind, KeyAccess.hashFn_eq isKey, ok_bind, inserted,
        ok_bind]
      dsimp only
      rw [bucketAt, List.getElem?_set_self bound]
      simp only [pure, Except.pure, ok_bind, decide_true, check_true, List.set_set]
      exact rehashed

theorem newBucketCount_spec (wellFormed : c.WellFormed std docSize docs old) :
    (∃ k, c.newBucketCount = 2 ^ k) ∧ docs.length < c.newBucketCount := by
  have few := wellFormed.indexes.length_le
  rw [keys, slots, List.length_map, List.length_map] at few
  rw [newBucketCount]
  by_cases none : c.buckets.length * 2 = 0
  · rw [if_pos none]
    exact ⟨⟨5, rfl⟩, by omega⟩
  · rw [if_neg none]
    rcases wellFormed.size with ⟨empty, -⟩ | ⟨k, size⟩
    · exact absurd (by rw [empty]; rfl) none
    · exact ⟨⟨k + 1, by rw [size, pow_succ]⟩, by omega⟩

/-- Growing never fails, keeps the collection well formed and leaves no bucket
marked as removed. -/
theorem growBuckets_spec (wellFormed : c.WellFormed std docSize docs old) :
    ∃ buckets, c.growBuckets std = .ok (some { c with buckets }) ∧
      WellFormed { c with buckets } std docSize docs old ∧
      (c.grows = false → buckets = c.buckets) ∧
      (c.grows = true → buckets.length = c.newBucketCount ∧ MarkersBelow buckets 0) := by
  cases grows : c.grows with
  | false =>
      refine ⟨c.buckets, ?_, wellFormed, fun _ => rfl, nofun⟩
      rw [growBuckets, grows]
      rfl
  | true =>
      obtain ⟨powerOfTwo, room⟩ := newBucketCount_spec wellFormed
      have length : (List.replicate c.newBucketCount ({} : KeyValue)).length = c.newBucketCount :=
        List.length_replicate
      have fresh : Indexes UInt64.toNat (c.key.hash std) ((c.keys docs).take 0)
          ((List.replicate c.newBucketCount ({} : KeyValue)).map KeyValue.slot) := by
        rw [List.map_replicate]
        exact .empty _ _ _
      have unmarked : MarkersBelow (List.replicate c.newBucketCount ({} : KeyValue)) 0 := by
        intro bucket member marker
        rw [List.eq_of_mem_replicate member] at marker
        cases marker
      obtain ⟨buckets, rehashed, size, markers, indexes⟩ := rehashFrom_spec wellFormed.toKeeps
        wellFormed.distinct wellFormed.hashable (by rwa [length]) (by rwa [length]) docs.length 0
        (Nat.zero_add _) fresh unmarked
      rw [length] at size
      refine ⟨buckets, ?_, ?_, nofun, fun _ => ⟨size, markers⟩⟩
      · rw [growBuckets, grows, count, wellFormed.stored.count_eq, rehashed]
        rfl
      · exact ⟨⟨wellFormed.stored, wellFormed.fits⟩, wellFormed.distinct, wellFormed.hashable,
          .inr (size ▸ powerOfTwo), indexes⟩

/-! ## Inserting documents -/

theorem insert_absent (wellFormed : c.WellFormed std docSize docs old)
    (length : doc.length = docSize) (fits : c.key.keyEnd doc ≤ docSize)
    (hashable : Hashable (c.key.hash std (c.key.keyOf doc)))
    (room : docs.length < c.buckets.length) (absent : c.key.keyOf doc ∉ c.keys docs) :
    ∃ buckets storage, c.insert std doc =
        .ok (some (docSize * docs.length), { c with buckets, storage }) ∧
      WellFormed { c with buckets, storage } std docSize (docs ++ [doc]) old.tail ∧
      buckets.length = c.buckets.length ∧
      ∀ {bound}, MarkersBelow c.buckets bound → MarkersBelow buckets bound := by
  have powerOfTwo : ∃ k, c.buckets.length = 2 ^ k := by
    rcases wellFormed.size with ⟨empty, -⟩ | size
    · rw [empty] at room
      cases room
    · exact size
  have total : (c.keys docs).length = docs.length := List.length_map _
  obtain ⟨idx, bound, inserted, indexes⟩ := putInternal_absent wellFormed.toKeeps hashable
    powerOfTwo wellFormed.indexes (List.prefix_refl _) (by rwa [total]) absent
  obtain ⟨storage, put, stored⟩ := wellFormed.stored.put length
  have whole : slice doc 0 docSize = doc := by rw [← length, slice_all]
  have appended : (docs ++ [doc]).map c.key.keyOf = c.keys docs ++ [c.key.keyOf doc] :=
    List.map_append
  refine ⟨c.buckets.set idx ⟨c.key.hash std (c.key.keyOf doc), c.count⟩, storage, ?_,
    ⟨⟨stored, ?_⟩, ?_, ?_, .inr ?_, ?_⟩, List.length_set,
    fun below => below.set fun marker => absurd marker hashable.2⟩
  · rw [insert, c.key.readKey_eq (by omega) whole fits, ok_bind,
      KeyAccess.hashFn_eq (c.key.isKey_keyOf length fits), ok_bind, inserted, ok_bind]
    dsimp only
    rw [bucketAt, List.getElem?_set_self bound]
    simp only [pure, Except.pure, ok_bind, ↓reduceIte, put]
  · rw [List.forall_mem_append]
    exact ⟨wellFormed.fits, by simpa using fits⟩
  · change ((docs ++ [doc]).map c.key.keyOf).Nodup
    rw [appended, List.nodup_append_comm, List.singleton_append, List.nodup_cons]
    exact ⟨absent, wellFormed.distinct⟩
  · rw [List.forall_mem_append]
    exact ⟨wellFormed.hashable, by simpa using hashable⟩
  · rw [List.length_set]
    exact powerOfTwo
  · change Indexes _ _ ((docs ++ [doc]).map c.key.keyOf) (List.map _ _)
    rw [appended, count, wellFormed.stored.count_eq]
    rwa [total] at indexes

theorem insert_stored (wellFormed : c.WellFormed std docSize docs old)
    (length : doc.length = docSize) (fits : c.key.keyEnd doc ≤ docSize)
    (stored : (c.keys docs)[index]? = some (c.key.keyOf doc))
    (clear : ¬ Shadowed UInt64.toNat (c.key.hash std) (c.keys docs) c.slots (c.key.keyOf doc)) :
    ∃ storage, c.insert std doc = .ok (some (docSize * index), { c with storage }) ∧
      WellFormed { c with storage } std docSize (docs.set index doc) old := by
  obtain ⟨before, found, same⟩ := keys_getElem?.mp stored
  have bound := (List.getElem?_eq_some_iff.mp found).1
  obtain ⟨idx, inserted, bucket⟩ := putInternal_stored wellFormed stored clear
  obtain ⟨storage, replaced, holds⟩ := wellFormed.stored.replace bound length
  have whole : slice doc 0 docSize = doc := by rw [← length, slice_all]
  have unchanged : (docs.set index doc).map c.key.keyOf = c.keys docs := by
    rw [List.map_set, ← same]
    have here : (docs.map c.key.keyOf)[index]? = some (c.key.keyOf before) := by
      rw [List.getElem?_map, found, Option.map_some]
    obtain ⟨inside, same⟩ := List.getElem?_eq_some_iff.mp here
    rw [← same, List.set_getElem_self]
    rfl
  have old : index ≠ c.count := by
    rw [count, wellFormed.stored.count_eq]
    omega
  refine ⟨storage, ?_, ⟨⟨holds, ?_⟩, ?_, ?_, ?_, ?_⟩⟩
  · rw [insert, c.key.readKey_eq (by omega) whole fits, ok_bind,
      KeyAccess.hashFn_eq (c.key.isKey_keyOf length fits), ok_bind, inserted, ok_bind]
    dsimp only
    rw [bucketAt, bucket]
    simp only [pure, Except.pure, ok_bind, old, ↓reduceIte, Storage.elemAt,
      wellFormed.stored.docSize_eq]
    rw [Nat.mul_comm index, replaced, ok_bind]
  · intro other member
    rcases List.mem_or_eq_of_mem_set member with kept | rfl
    · exact wellFormed.fits other kept
    · exact fits
  · change ((docs.set index doc).map c.key.keyOf).Nodup
    rw [unchanged]
    exact wellFormed.distinct
  · intro other member
    rcases List.mem_or_eq_of_mem_set member with kept | rfl
    · exact wellFormed.hashable other kept
    · rw [← same]
      exact wellFormed.hashable before (List.mem_of_getElem? found)
  · exact .inr (wellFormed.powerOfTwo bound)
  · change Indexes _ _ ((docs.set index doc).map c.key.keyOf) _
    rw [unchanged]
    exact wellFormed.indexes

/-! ## Finding and removing documents -/

theorem findInternal_stored (wellFormed : c.WellFormed std docSize docs old)
    (stored : (c.keys docs)[index]? = some key) :
    ∃ idx, c.findInternal key (c.key.hash std key) = .ok (some idx) ∧
      c.slots[idx]? = some (.live (c.key.hash std key) index) := by
  obtain ⟨doc, found, rfl⟩ := keys_getElem?.mp stored
  have hashable := wellFormed.hashable doc (List.mem_of_getElem? found)
  obtain ⟨idx, slot, searched⟩ := wellFormed.indexes.search_lookup_stored wellFormed.distinct stored
  refine ⟨idx, ?_, slot⟩
  rw [findInternal_eq wellFormed (unlike_of_hashable hashable)
    (wellFormed.powerOfTwo (List.getElem?_eq_some_iff.mp found).1), searched]
  rfl

theorem findInternal_absent (wellFormed : c.WellFormed std docSize docs old)
    (unlike : c.Unlike std key) (absent : key ∉ c.keys docs) :
    c.findInternal key (c.key.hash std key) = .ok none := by
  rcases wellFormed.size with ⟨empty, -⟩ | powerOfTwo
  · rw [findInternal, empty]
    rfl
  · rw [findInternal_eq wellFormed unlike powerOfTwo, search_lookup_absent absent]

theorem find_stored (wellFormed : c.WellFormed std docSize docs old) (isKey : c.key.IsKey key)
    (stored : (c.keys docs)[index]? = some key) :
    c.find std key = .ok (some (docSize * index)) := by
  obtain ⟨idx, found, slot⟩ := findInternal_stored wellFormed stored
  rw [find, KeyAccess.hashFn_eq isKey, ok_bind, found, ok_bind]
  dsimp only
  rw [bucketAt, (bucket_of_slot slot).1]
  simp only [pure, Except.pure, ok_bind, Storage.elemAt, wellFormed.stored.docSize_eq]
  rw [Nat.mul_comm]

theorem find_absent (wellFormed : c.WellFormed std docSize docs old) (isKey : c.key.IsKey key)
    (unlike : c.Unlike std key) (absent : key ∉ c.keys docs) : c.find std key = .ok none := by
  rw [find, KeyAccess.hashFn_eq isKey, ok_bind, findInternal_absent wellFormed unlike absent]
  rfl

theorem findDocument_stored (wellFormed : c.WellFormed std docSize docs old)
    (isKey : c.key.IsKey (c.key.keyOf doc)) (found : docs[index]? = some doc) :
    c.findDocument std (c.key.keyOf doc) = .ok (some doc) := by
  have stored : (c.keys docs)[index]? = some (c.key.keyOf doc) :=
    keys_getElem?.mpr ⟨doc, found, rfl⟩
  have bound := (List.getElem?_eq_some_iff.mp found).1
  have block : (docs ++ old)[index]? = some doc := by
    rw [List.getElem?_append_left bound, found]
  have inside := wellFormed.stored.blocks.inside (List.getElem?_eq_some_iff.mp block).1
  rw [findDocument, find_stored wellFormed isKey stored, ok_bind]
  dsimp only
  rw [Collection.docSize, wellFormed.stored.docSize_eq, readBytes_eq inside,
    wellFormed.stored.blocks.content block]
  rfl

theorem findDocument_absent (wellFormed : c.WellFormed std docSize docs old)
    (isKey : c.key.IsKey key) (unlike : c.Unlike std key) (absent : key ∉ c.keys docs) :
    c.findDocument std key = .ok none := by
  rw [findDocument, find_absent wellFormed isKey unlike absent]
  rfl

/-- After the bucket of the last document has been redirected, if that is
another one. -/
theorem redirectLast_spec (wellFormed : c.WellFormed std docSize docs old)
    (found : c.slots[idx]? = some (.live hash index)) :
    ∃ last lastHash, c.slots[last]? = some (.live lastHash (docs.length - 1)) ∧
      c.redirectLast std index = .ok (c.buckets.set last ⟨lastHash, index⟩) ∧
      (c.buckets.set last ⟨lastHash, index⟩)[idx]? = some ⟨hash, index⟩ := by
  have bound := wellFormed.index_lt found
  obtain ⟨bucket, _⟩ := bucket_of_slot found
  rw [redirectLast, count, wellFormed.stored.count_eq]
  by_cases here : index = docs.length - 1
  · obtain ⟨inside, same⟩ := List.getElem?_eq_some_iff.mp bucket
    refine ⟨idx, hash, here ▸ found, ?_, ?_⟩
    · rw [if_neg (not_not.mpr here), ← same, List.set_getElem_self]
      rfl
    · rw [List.getElem?_set_self inside]
  · have lastBound : docs.length - 1 < docs.length := by omega
    have lastDoc := List.getElem?_eq_getElem lastBound
    have member := List.getElem_mem lastBound
    obtain ⟨last, lookup, slot⟩ :=
      findInternal_stored wellFormed (keys_getElem?.mpr ⟨_, lastDoc, rfl⟩)
    have isKey := c.key.isKey_keyOf (wellFormed.stored.blocks.length_eq _
      (List.mem_append_left _ member)) (wellFormed.fits _ member)
    refine ⟨last, _, slot, ?_, ?_⟩
    · rw [if_pos here, wellFormed.readKey_eq lastDoc, ok_bind, KeyAccess.hashFn_eq isKey, ok_bind,
        lookup, ok_bind]
      dsimp only
      rw [bucketAt, (bucket_of_slot slot).1]
      rfl
    · rw [List.getElem?_set_ne]
      · exact bucket
      · intro same
        subst same
        rw [found] at slot
        cases slot
        exact here rfl

theorem remove_absent (wellFormed : c.WellFormed std docSize docs old) (isKey : c.key.IsKey key)
    (unlike : c.Unlike std key) (absent : key ∉ c.keys docs) : c.remove std key = .ok c := by
  rw [remove, KeyAccess.hashFn_eq isKey, ok_bind, findInternal_absent wellFormed unlike absent]
  rfl

theorem remove_stored (wellFormed : c.WellFormed std docSize docs old) (isKey : c.key.IsKey key)
    (stored : (c.keys docs)[index]? = some key) (inside : index < docs.length) :
    ∃ buckets storage, ∃ lastDoc ∈ docs, c.remove std key = .ok { c with storage, buckets } ∧
      WellFormed { c with storage, buckets } std docSize (swapRemove docs index)
        (lastDoc :: old) ∧
      buckets.length = c.buckets.length ∧
      ∀ {bound}, docs.length ≤ bound →
        MarkersBelow c.buckets bound → MarkersBelow buckets bound := by
  obtain ⟨idx, found, slot⟩ := findInternal_stored wellFormed stored
  obtain ⟨last, lastHash, lastSlot, redirected, bucket⟩ := redirectLast_spec wellFormed slot
  obtain ⟨lastBucket, lastHashable⟩ := bucket_of_slot lastSlot
  obtain ⟨storage, removed, holds⟩ := wellFormed.stored.remove inside
  have some : c.count ≠ 0 := by
    rw [count, wellFormed.stored.count_eq]
    omega
  have keysAfter : (swapRemove docs index).map c.key.keyOf = swapRemove (c.keys docs) index :=
    swapRemove_map c.key.keyOf docs index
  have total : (c.keys docs).length = docs.length := List.length_map _
  refine ⟨(c.buckets.set last ⟨lastHash, index⟩).set idx ⟨tombstoneKeyHash, index⟩, storage, _,
    List.getElem_mem _, ?_, ⟨⟨holds, ?_⟩, ?_, ?_, .inr ?_, ?_⟩, ?_, ?_⟩
  · rw [remove, KeyAccess.hashFn_eq isKey, ok_bind, found, ok_bind]
    dsimp only
    rw [bucketAt, (bucket_of_slot slot).1]
    simp only [pure, Except.pure, ok_bind, some, ↓reduceIte]
    rw [redirected, ok_bind, bucketAt, bucket]
    simp only [pure, Except.pure, ok_bind, Storage.elemAt, wellFormed.stored.docSize_eq]
    rw [Nat.mul_comm index, removed, ok_bind]
  · exact fun doc member => wellFormed.fits doc (mem_of_mem_swapRemove inside member)
  · change ((swapRemove docs index).map c.key.keyOf).Nodup
    rw [keysAfter]
    exact swapRemove_nodup wellFormed.distinct (by rwa [total])
  · exact fun doc member => wellFormed.hashable doc (mem_of_mem_swapRemove inside member)
  · rw [List.length_set, List.length_set]
    exact wellFormed.powerOfTwo inside
  · change Indexes _ _ ((swapRemove docs index).map c.key.keyOf) (List.map _ _)
    rw [keysAfter, List.map_set, List.map_set, KeyValue.slot_tombstone,
      KeyValue.slot_of_hashable lastHashable]
    exact wellFormed.indexes.swapRemove slot (by rwa [total])
  · rw [List.length_set, List.length_set]
  · intro bound room below
    exact (below.set fun marker => absurd marker lastHashable.2).set fun _ =>
      Nat.lt_of_lt_of_le inside room

end Boutique.Db.Collection
