import Boutique.Data.ProbeIndex
import Boutique.Db.Collection

namespace Boutique.Db

open Boutique.Data

/-! ## Keys of documents -/

namespace KeyAccess

variable {access : KeyAccess} {std : StdHash} {region : Region} {memory doc key : Bytes}
  {base docSize : Nat}

/-- The key bytes of a document. -/
def keyOf (access : KeyAccess) (doc : Bytes) : Bytes :=
  match access.type with
  | .string => slice doc (access.offset + stringHeaderSize)
      (leValue (slice doc access.offset stringHeaderSize))
  | .primitive type => slice doc access.offset type.implSize

/-- Where the key of a document ends. -/
def keyEnd (access : KeyAccess) (doc : Bytes) : Nat :=
  match access.type with
  | .string => access.offset + stringHeaderSize +
      leValue (slice doc access.offset stringHeaderSize)
  | .primitive type => access.offset + type.implSize

def hash (access : KeyAccess) (std : StdHash) (key : Bytes) : UInt64 :=
  match access.type with
  | .string => std.stringView key
  | .primitive type => type.stdHash std key

/-- The keys that can be hashed: of a numeric type, those of its size. -/
def IsKey (access : KeyAccess) (key : Bytes) : Prop :=
  match access.type with
  | .string => True
  | .primitive type => key.length = type.implSize

theorem hashFn_eq (isKey : access.IsKey key) :
    access.hashFn std key = .ok (access.hash std key) := by
  obtain ⟨offset, type⟩ := access
  cases type with
  | string => rfl
  | primitive type =>
      have length : decide (key.length = type.implSize) = true := decide_eq_true isKey
      simp only [hashFn, length, check_true, ok_bind]
      rfl

theorem isKey_keyOf (length : doc.length = docSize) (fits : access.keyEnd doc ≤ docSize) :
    access.IsKey (access.keyOf doc) := by
  obtain ⟨offset, type⟩ := access
  cases type with
  | string => trivial
  | primitive type => exact slice_length (length ▸ fits)

theorem bufferFn_eq (region : Region) (inside : base + docSize ≤ memory.length)
    (block : slice memory base docSize = doc) (fits : access.keyEnd doc ≤ docSize) :
    ∃ buf, access.bufferFn region memory base = .ok buf ∧
      buf.len = (access.keyOf doc).length ∧
      readBytes region memory buf.data buf.len = .ok (access.keyOf doc) := by
  obtain ⟨offset, type⟩ := access
  have length : doc.length = docSize := by rw [← block, slice_length inside]
  cases type with
  | primitive type =>
      replace fits : offset + type.implSize ≤ docSize := fits
      refine ⟨{ data := base + offset, len := type.implSize }, rfl, ?_, ?_⟩
      · change type.implSize = (slice doc offset type.implSize).length
        rw [slice_length (by omega)]
      · rw [readBytes_eq (by dsimp only; omega)]
        simp only [keyOf, ← block, slice_slice fits]
  | string =>
      replace fits : offset + stringHeaderSize + leValue (slice doc offset stringHeaderSize) ≤
        docSize := fits
      have header : slice memory (base + offset) stringHeaderSize =
          slice doc offset stringHeaderSize := by
        rw [← block, slice_slice (by omega)]
      refine ⟨{ data := base + offset + stringHeaderSize,
                len := leValue (slice doc offset stringHeaderSize) }, ?_, ?_, ?_⟩
      · simp only [bufferFn]
        rw [readBytes_eq (by omega), ok_bind, header]
        rfl
      · change leValue (slice doc offset stringHeaderSize) = (slice doc
          (offset + stringHeaderSize) (leValue (slice doc offset stringHeaderSize))).length
        rw [slice_length (by omega)]
      · rw [readBytes_eq (by dsimp only; omega)]
        simp only [keyOf]
        rw [Nat.add_assoc base, ← slice_slice fits, block]

theorem readKey_eq (inside : base + docSize ≤ memory.length)
    (block : slice memory base docSize = doc) (fits : access.keyEnd doc ≤ docSize) :
    access.readKey region memory base = .ok (access.keyOf doc) := by
  obtain ⟨buf, buffer, _, read⟩ := access.bufferFn_eq region inside block fits
  rw [readKey, buffer, ok_bind, read]

end KeyAccess

/-! ## Buckets as slots -/

/-- A hash that a bucket can carry without being taken for an unused or a
removed one. -/
def Hashable (hash : UInt64) : Prop := hash ≠ 0 ∧ hash ≠ tombstoneKeyHash

instance (hash : UInt64) : Decidable (Hashable hash) := inferInstanceAs (Decidable (_ ∧ _))

def KeyValue.slot (bucket : KeyValue) : Slot UInt64 :=
  if bucket.keyHash = 0 then .empty
  else if bucket.keyHash = tombstoneKeyHash then .removed
  else .live bucket.keyHash bucket.valueIndex

theorem KeyValue.slot_of_hashable {hash : UInt64} (hashable : Hashable hash) (index : Nat) :
    KeyValue.slot ⟨hash, index⟩ = .live hash index := by
  rw [slot, if_neg hashable.1, if_neg hashable.2]

@[simp] theorem KeyValue.slot_tombstone (index : Nat) :
    KeyValue.slot ⟨tombstoneKeyHash, index⟩ = .removed := by
  have used : tombstoneKeyHash ≠ 0 := by decide
  rw [slot, if_neg used, if_pos rfl]

theorem KeyValue.slot_live {bucket : KeyValue} {hash : UInt64} {index : Nat}
    (live : bucket.slot = .live hash index) :
    bucket = ⟨hash, index⟩ ∧ Hashable hash := by
  rw [slot] at live
  split at live
  · cases live
  · split at live
    · cases live
    · rename_i some unmarked
      cases live
      exact ⟨rfl, some, unmarked⟩

namespace Collection

variable {c : Collection} {std : StdHash} {docSize index position : Nat} {docs old : List Bytes}
  {doc key : Bytes} {dest : List KeyValue} {hash : UInt64}

def keys (c : Collection) (docs : List Bytes) : List Bytes := docs.map c.key.keyOf

def slots (c : Collection) : List (Slot UInt64) := c.buckets.map KeyValue.slot

/-- The storage keeps `docs`, each with its key inside it. -/
structure Keeps (c : Collection) (docSize : Nat) (docs old : List Bytes) : Prop where
  stored : c.storage.Holds docSize docs old
  fits : ∀ doc ∈ docs, c.key.keyEnd doc ≤ docSize

/-- A well-formed collection of `docs`: the keys are distinct, none hashes to a
marker, and the buckets index them. -/
structure WellFormed (c : Collection) (std : StdHash) (docSize : Nat) (docs old : List Bytes) : Prop
    extends Keeps c docSize docs old where
  distinct : (c.keys docs).Nodup
  hashable : ∀ doc ∈ docs, Hashable (c.key.hash std (c.key.keyOf doc))
  size : c.buckets = [] ∧ docs = [] ∨ ∃ k, c.buckets.length = 2 ^ k
  indexes : Indexes UInt64.toNat (c.key.hash std) (c.keys docs) c.slots

theorem keys_getElem? : (c.keys docs)[index]? = some key ↔
    ∃ doc, docs[index]? = some doc ∧ c.key.keyOf doc = key := by
  rw [keys, List.getElem?_map, Option.map_eq_some_iff]

theorem hasKey_of_block (stored : c.storage.Holds docSize docs old)
    (block : (docs ++ old)[index]? = some doc) (fits : c.key.keyEnd doc ≤ docSize) :
    c.hasKey index key = .ok (c.key.keyOf doc == key) := by
  have inside := stored.blocks.inside (List.getElem?_eq_some_iff.mp block).1
  obtain ⟨buf, buffer, length, read⟩ :=
    c.key.bufferFn_eq .storage inside (stored.blocks.content block) fits
  rw [hasKey, Storage.elemAt, stored.docSize_eq, Nat.mul_comm, buffer, ok_bind]
  by_cases same : buf.len = key.length
  · rw [if_pos same, read]
    rfl
  · rw [if_neg same]
    have other : (c.key.keyOf doc == key) = false := by
      rw [beq_eq_false_iff_ne]
      intro equal
      subst equal
      exact same length
    rw [other]
    rfl

theorem Keeps.hasKey_eq (keeps : c.Keeps docSize docs old) (bound : index < docs.length) :
    c.hasKey index key = .ok (decide ((c.keys docs)[index]? = some key)) := by
  have found := List.getElem?_eq_getElem bound
  have block : (docs ++ old)[index]? = some docs[index] := by
    rw [List.getElem?_append_left bound, found]
  rw [hasKey_of_block keeps.stored block (keeps.fits _ (List.getElem_mem bound))]
  congr 1
  rw [Bool.eq_iff_iff, beq_iff_eq, decide_eq_true_eq, keys, List.getElem?_map, found,
    Option.map_some, Option.some.injEq]

theorem Keeps.readKey_eq (keeps : c.Keeps docSize docs old) (found : docs[index]? = some doc) :
    c.key.readKey .storage c.storage.data (c.storage.elemAt index) = .ok (c.key.keyOf doc) := by
  have bound := (List.getElem?_eq_some_iff.mp found).1
  have block : (docs ++ old)[index]? = some doc := by
    rw [List.getElem?_append_left bound, found]
  have inside := keeps.stored.blocks.inside (List.getElem?_eq_some_iff.mp block).1
  rw [Storage.elemAt, keeps.stored.docSize_eq, Nat.mul_comm]
  exact c.key.readKey_eq inside (keeps.stored.blocks.content block)
    (keeps.fits doc (List.mem_of_getElem? found))

/-! ## The two probing loops -/

/-- No removed bucket looks like the one of `key`, as it might if the key had
the hash that marks removed buckets. -/
def Unlike (c : Collection) (std : StdHash) (key : Bytes) : Prop :=
  c.key.hash std key = tombstoneKeyHash → ∀ bucket ∈ c.buckets, bucket.keyHash = tombstoneKeyHash →
    c.hasKey bucket.valueIndex key = .ok false

theorem unlike_of_hashable (hashable : Hashable (c.key.hash std key)) : c.Unlike std key :=
  fun marker => absurd marker hashable.2

theorem WellFormed.index_lt (wellFormed : c.WellFormed std docSize docs old)
    (live : c.slots[position]? = some (Slot.live hash index)) : index < docs.length := by
  have bound := wellFormed.indexes.index_lt live
  rwa [keys, List.length_map] at bound

theorem WellFormed.powerOfTwo (wellFormed : c.WellFormed std docSize docs old)
    (some : index < docs.length) : ∃ k, c.buckets.length = 2 ^ k := by
  rcases wellFormed.size with ⟨-, empty⟩ | size
  · rw [empty] at some
    cases some
  · exact size

theorem bucket_of_slot (live : (dest.map KeyValue.slot)[position]? = some (.live hash index)) :
    dest[position]? = some ⟨hash, index⟩ ∧ Hashable hash := by
  obtain ⟨bucket, found, shown⟩ := Option.map_eq_some_iff.mp (List.getElem?_map.symm.trans live)
  obtain ⟨rfl, hashable⟩ := KeyValue.slot_live shown
  exact ⟨found, hashable⟩

theorem findVisit_eq (wellFormed : c.WellFormed std docSize docs old) (unlike : c.Unlike std key)
    (bound : position < c.buckets.length) :
    c.findVisit key (c.key.hash std key) position = .ok (c.slots[position]?.bind
      (Slot.lookup (c.key.hash std) (c.keys docs) key position)) := by
  have found := List.getElem?_eq_getElem bound
  have slot : c.slots[position]? = some c.buckets[position].slot := by
    rw [slots, List.getElem?_map, found, Option.map_some]
  rw [findVisit, bucketAt, found, slot, Option.bind_some]
  generalize same : c.buckets[position] = bucket at found slot ⊢
  simp only [pure, Except.pure, ok_bind]
  by_cases unused : bucket.keyHash = 0
  · rw [if_pos unused, KeyValue.slot, if_pos unused, Slot.lookup_empty]
  · rw [if_neg unused]
    by_cases removed : bucket.keyHash = tombstoneKeyHash
    · rw [KeyValue.slot, if_neg unused, if_pos removed, Slot.lookup_removed]
      by_cases marker : bucket.keyHash = c.key.hash std key
      · rw [if_pos marker, unlike (marker.symm.trans removed) bucket (List.mem_of_getElem? found)
          removed]
        rfl
      · rw [if_neg marker]
    · have shown : bucket.slot = .live bucket.keyHash bucket.valueIndex := by
        rw [KeyValue.slot, if_neg unused, if_neg removed]
      rw [shown] at slot ⊢
      rw [Slot.lookup_live, wellFormed.hasKey_eq (wellFormed.index_lt slot), ok_bind]
      by_cases hashes : bucket.keyHash = c.key.hash std key
      · by_cases own : (c.keys docs)[bucket.valueIndex]? = some key <;> simp [hashes, own]
      · simp [hashes]

theorem findInternal_eq (wellFormed : c.WellFormed std docSize docs old)
    (unlike : c.Unlike std key) (powerOfTwo : ∃ k, c.buckets.length = 2 ^ k) :
    c.findInternal key (c.key.hash std key) =
      .ok (search UInt64.toNat (c.key.hash std) (Slot.lookup (c.key.hash std) (c.keys docs) key)
        c.slots key).join := by
  have length : c.slots.length = c.buckets.length := List.length_map _
  have some : 0 < c.buckets.length := by
    obtain ⟨k, same⟩ := powerOfTwo
    rw [same]
    exact Nat.two_pow_pos k
  have visits : (fun d => c.findVisit key (c.key.hash std key)
      (probeAt c.buckets.length (c.key.hash std key).toNat d)) = fun d => pure
        ((pathSlot UInt64.toNat c.slots (c.key.hash std key) d).bind (Slot.lookup (c.key.hash std)
          (c.keys docs) key (probeAt c.slots.length (c.key.hash std key).toNat d))) := by
    funext d
    rw [findVisit_eq wellFormed unlike (probeAt_lt some _ d), pathSlot, length]
    rfl
  have nonempty : c.buckets.isEmpty = false := by
    cases empty : c.buckets with
    | nil => rw [empty] at some; exact absurd some (Nat.lt_irrefl 0)
    | cons => rfl
  rw [findInternal, nonempty, if_neg Bool.false_ne_true]
  dsimp only
  rw [probe_eq powerOfTwo, visits, List.findSomeM?_pure, search, length]
  rfl

/-- Live buckets point to documents among the first `count`. -/
def LivesBelow (buckets : List KeyValue) (count : Nat) : Prop :=
  ∀ {position index : Nat} {hash : UInt64},
    (buckets.map KeyValue.slot)[position]? = some (Slot.live hash index) → index < count

/-- The buckets after `put_internal` has returned the one at `idx`. -/
def claimed (c : Collection) (dest : List KeyValue) (keyHash : UInt64) (idx : Nat) :
    List KeyValue :=
  match dest[idx]? with
  | none => dest
  | some bucket =>
      if bucket.keyHash = 0 ∨ bucket.keyHash = tombstoneKeyHash then
        dest.set idx { keyHash, valueIndex := c.count }
      else dest

theorem putVisit_eq (keeps : c.Keeps docSize docs old) (hashable : Hashable (c.key.hash std key))
    (inside : LivesBelow dest docs.length) (bound : position < dest.length) :
    c.putVisit dest key (c.key.hash std key) position =
      .ok (((dest.map KeyValue.slot)[position]?.bind
        (Slot.claim (c.key.hash std) (c.keys docs) key position)).map
          fun idx => (idx, c.claimed dest (c.key.hash std key) idx)) := by
  have found := List.getElem?_eq_getElem bound
  have slot : (dest.map KeyValue.slot)[position]? = some dest[position].slot := by
    rw [List.getElem?_map, found, Option.map_some]
  rw [putVisit, bucketAt, found, slot, Option.bind_some]
  generalize dest[position] = bucket at found slot ⊢
  simp only [pure, Except.pure, ok_bind]
  by_cases unused : bucket.keyHash = 0
  · rw [if_pos (.inl unused), KeyValue.slot, if_pos unused, Slot.claim_empty, Option.map_some,
      claimed, found]
    simp only [unused, true_or, ↓reduceIte]
  · by_cases removed : bucket.keyHash = tombstoneKeyHash
    · rw [if_pos (.inr removed), KeyValue.slot, if_neg unused, if_pos removed, Slot.claim_removed,
        Option.map_some, claimed, found]
      simp only [removed, or_true, ↓reduceIte]
    · have shown : bucket.slot = .live bucket.keyHash bucket.valueIndex := by
        rw [KeyValue.slot, if_neg unused, if_neg removed]
      rw [shown] at slot ⊢
      rw [if_neg (not_or.mpr ⟨unused, removed⟩), Slot.claim_live,
        keeps.hasKey_eq (inside slot), ok_bind]
      by_cases hashes : bucket.keyHash = c.key.hash std key
      · by_cases own : (c.keys docs)[bucket.valueIndex]? = some key
        · simp [hashes, own, claimed, found, hashable.1, hashable.2]
        · simp [own]
      · simp [hashes]

theorem putInternal_eq (keeps : c.Keeps docSize docs old) (hashable : Hashable (c.key.hash std key))
    (inside : LivesBelow dest docs.length)
    (powerOfTwo : ∃ k, dest.length = 2 ^ k) :
    c.putInternal dest key (c.key.hash std key) =
      .ok ((search UInt64.toNat (c.key.hash std) (Slot.claim (c.key.hash std) (c.keys docs) key)
        (dest.map KeyValue.slot) key).map
          fun idx => (idx, c.claimed dest (c.key.hash std key) idx)) := by
  have some : 0 < dest.length := by
    obtain ⟨k, same⟩ := powerOfTwo
    rw [same]
    exact Nat.two_pow_pos k
  have visits : (fun d => c.putVisit dest key (c.key.hash std key)
      (probeAt dest.length (c.key.hash std key).toNat d)) = fun d => pure
        (((pathSlot UInt64.toNat (dest.map KeyValue.slot) (c.key.hash std key) d).bind
          (Slot.claim (c.key.hash std) (c.keys docs) key (probeAt
            (dest.map KeyValue.slot).length (c.key.hash std key).toNat d))).map
              fun idx => (idx, c.claimed dest (c.key.hash std key) idx)) := by
    funext d
    rw [putVisit_eq keeps hashable inside (probeAt_lt some _ d), pathSlot, List.length_map]
    rfl
  rw [putInternal, probe_eq powerOfTwo, visits, List.findSomeM?_pure, search, List.map_findSome?,
    List.length_map]
  rfl

end Collection

end Boutique.Db
