import Boutique.Db.CollectionRuns

namespace Boutique.Db.Collection

open Boutique.Data

/-! # What removing and growing leave alone -/

variable {c : Collection} {std : StdHash} {docSize : Nat} {docs old : List Bytes}

/-- A collection that keeps documents with distinct keys, none of which hashes
to a mark, and whose buckets index them: a live bucket points to a document and
carries the hash of its key, no other bucket points there, and no unused bucket
lies between it and the home of the hash. -/
def IsWellFormed (c : Collection) (std : StdHash) : Prop :=
  ∃ old, c.WellFormed std c.docSize c.documents old

theorem WellFormed.isWellFormed (wellFormed : c.WellFormed std docSize docs old) :
    c.IsWellFormed std := by
  obtain rfl : c.docSize = docSize := wellFormed.stored.docSize_eq
  obtain rfl := wellFormed.documents_eq
  exact ⟨old, wellFormed⟩

/-- Removing a key loses the document stored under it, if there is one, and
nothing else. -/
theorem remove_frame (c : Collection) (std : StdHash) (wellFormed : c.IsWellFormed std)
    (key : Bytes) (isKey : c.key.IsKey key) (hashable : Hashable (c.key.hash std key)) :
    ∃ after, c.remove std key = .ok after ∧ after.IsWellFormed std ∧
      after.find std key = .ok none ∧
      (∀ other, other ≠ key → c.key.IsKey other → Hashable (c.key.hash std other) →
        ∃ document, c.findDocument std other = .ok document ∧
          after.findDocument std other = .ok document) ∧
      ((∃ found, c.find std key = .ok (some found)) ∧ after.count + 1 = c.count ∨
        c.find std key = .ok none ∧ after.count = c.count) := by
  obtain ⟨old, wellFormed⟩ := wellFormed
  obtain ⟨contents, lists⟩ := Lists.exists_of_nodup wellFormed.distinct
  by_cases stored : key ∈ c.keys c.documents
  · obtain ⟨index, found⟩ := List.mem_iff_getElem?.mp stored
    obtain ⟨doc, at_, rfl⟩ := keys_getElem?.mp found
    have inside := (List.getElem?_eq_some_iff.mp at_).1
    obtain ⟨buckets, storage, _, _, removed, kept, _⟩ :=
      remove_stored wellFormed isKey found inside
    have left := lists.swapRemove wellFormed.distinct at_
    have gone := left.eq_none_iff.mp (Function.update_self (c.key.keyOf doc) none contents)
    refine ⟨_, removed, kept.isWellFormed,
      find_absent kept isKey (unlike_of_hashable hashable) gone, ?_,
      .inl ⟨⟨_, find_stored wellFormed isKey found⟩, ?_⟩⟩
    · intro other different otherKey otherHashable
      refine ⟨contents other, wellFormed.findDocument_eq lists otherKey
        (unlike_of_hashable otherHashable), ?_⟩
      rw [kept.findDocument_eq left otherKey (unlike_of_hashable otherHashable),
        Function.update_of_ne different]
    · rw [count, count, kept.stored.count_eq, wellFormed.stored.count_eq, swapRemove_length]
      omega
  · have unlike := unlike_of_hashable hashable
    have absent := find_absent wellFormed isKey unlike stored
    refine ⟨c, remove_absent wellFormed isKey unlike stored, ⟨old, wellFormed⟩, absent, ?_,
      .inr ⟨absent, rfl⟩⟩
    intro other _ otherKey otherHashable
    have same := wellFormed.findDocument_eq lists otherKey (unlike_of_hashable otherHashable)
    exact ⟨_, same, same⟩

/-- The entry with id 33 takes the place of the removed one. -/
theorem remove_frame_ledger :
    ∃ c, run noHash emptyLedger [.put (ledgerEntry 1 5), .put (ledgerEntry 33 6)] = .ok c ∧
      ∃ after, c.remove noHash (leBytes 8 1) = .ok after ∧ after.IsWellFormed noHash ∧
        after.find noHash (leBytes 8 1) = .ok none ∧
        (∀ other, other ≠ leBytes 8 1 → c.key.IsKey other → Hashable (c.key.hash noHash other) →
          ∃ document, c.findDocument noHash other = .ok document ∧
            after.findDocument noHash other = .ok document) ∧
        ((∃ found, c.find noHash (leBytes 8 1) = .ok (some found)) ∧ after.count + 1 = c.count ∨
          c.find noHash (leBytes 8 1) = .ok none ∧ after.count = c.count) := by
  obtain ⟨c, docs, old, ran, sound, access, _⟩ := run_sound noHash new_ledger
    [.put (ledgerEntry 1 5), .put (ledgerEntry 33 6)] (by simp [takes_ledgerEntry])
    (by decide +kernel)
  refine ⟨c, ran, remove_frame c noHash sound.toWellFormed.isWellFormed (leBytes 8 1) ?_ ?_⟩
  · rw [access]
    exact leBytes_length 8 1
  · rw [access]
    decide +kernel

/-- Growing succeeds, leaves no removed buckets and finds every key where it was
found before. -/
theorem growBuckets_invisible (c : Collection) (std : StdHash) (wellFormed : c.IsWellFormed std)
    (grows : c.grows = true) :
    ∃ buckets, c.growBuckets std = .ok (some { c with buckets }) ∧
      buckets.length = c.newBucketCount ∧
      (∀ bucket ∈ buckets, bucket.keyHash ≠ tombstoneKeyHash) ∧
      IsWellFormed { c with buckets } std ∧
      ∀ key, c.key.IsKey key → Hashable (c.key.hash std key) →
        ∃ found, c.find std key = .ok found ∧ find { c with buckets } std key = .ok found := by
  obtain ⟨old, wellFormed⟩ := wellFormed
  obtain ⟨buckets, grew, kept, _, fresh⟩ := growBuckets_spec wellFormed
  obtain ⟨size, unmarked⟩ := fresh grows
  refine ⟨buckets, grew, size, ?_, kept.isWellFormed, ?_⟩
  · intro bucket member marker
    exact Nat.not_lt_zero _ (unmarked bucket member marker)
  · intro key isKey hashable
    by_cases stored : key ∈ c.keys c.documents
    · obtain ⟨index, found⟩ := List.mem_iff_getElem?.mp stored
      exact ⟨_, find_stored wellFormed isKey found, find_stored kept isKey found⟩
    · exact ⟨none, find_absent wellFormed isKey (unlike_of_hashable hashable) stored,
        find_absent kept isKey (unlike_of_hashable hashable) stored⟩

/-- With 21 entries in its 32 buckets the ledger grows. -/
theorem growBuckets_invisible_ledger :
    ∃ c, run noHash emptyLedger
        ((List.range 21).map fun id => .put (ledgerEntry (id + 1) 5)) = .ok c ∧
      ∃ buckets, c.growBuckets noHash = .ok (some { c with buckets }) ∧
        buckets.length = c.newBucketCount ∧
        (∀ bucket ∈ buckets, bucket.keyHash ≠ tombstoneKeyHash) ∧
        IsWellFormed { c with buckets } noHash ∧
        ∀ key, c.key.IsKey key → Hashable (c.key.hash noHash key) →
          ∃ found, c.find noHash key = .ok found ∧
            find { c with buckets } noHash key = .ok found := by
  have growing : grows <$> run noHash emptyLedger
      ((List.range 21).map fun id => .put (ledgerEntry (id + 1) 5)) = .ok true := by
    decide +kernel
  obtain ⟨c, ran, grows⟩ := exists_of_map_ok growing
  obtain ⟨after, docs, old, same, sound, _⟩ := run_sound noHash new_ledger
    ((List.range 21).map fun id => .put (ledgerEntry (id + 1) 5)) (by simp [takes_ledgerEntry])
    (by decide +kernel)
  rw [ran] at same
  cases same
  exact ⟨c, ran, growBuckets_invisible c noHash sound.toWellFormed.isWellFormed grows⟩

end Boutique.Db.Collection
