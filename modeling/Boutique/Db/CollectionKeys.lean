import Boutique.Db.CollectionRuns

namespace Boutique.Db.Collection

open Boutique.Data

/-! # One document for each key

As long as no `put` takes a removed bucket in front of the one of its key, a
stored key is recognised. The first that does stores it once more. -/

variable {c : Collection} {std : StdHash} {docSize : Nat} {docs old : List Bytes}
  {data key : Bytes}

/-- A `put` of a stored key overwrites its document where it lies. -/
def Overwrites (c : Collection) (std : StdHash) : Op → Prop
  | .put data => ∀ index, (c.keys c.documents)[index]? = some (c.key.keyOf data) →
      ∃ after, c.put std data = .ok (some (c.storage.elemAt index), after) ∧
        after.documents = c.documents.set index data ∧ after.count = c.count
  | .remove _ => True

/-- In every state of the run the keys are distinct, stored keys are overwritten
and no assertion fails. -/
def KeepsKeysDistinct (std : StdHash) : Collection → List Op → Prop
  | c, [] => (c.keys c.documents).Nodup
  | c, op :: ops => (c.keys c.documents).Nodup ∧ c.Overwrites std op ∧
      ∃ after, c.step std op = .ok after ∧ KeepsKeysDistinct std after ops

theorem KeepsKeysDistinct.nodup {ops : List Op} (keeps : KeepsKeysDistinct std c ops) :
    (c.keys c.documents).Nodup := by
  cases ops with
  | nil => exact keeps
  | cons op ops => exact keeps.1

theorem putInternal_shadowed (wellFormed : c.WellFormed std docSize docs old)
    (hashable : Hashable (c.key.hash std key))
    (shadowed : Shadowed UInt64.toNat (c.key.hash std) (c.keys docs) c.slots key) :
    ∃ idx < c.buckets.length, c.putInternal c.buckets key (c.key.hash std key) = .ok (some (idx,
      c.buckets.set idx { keyHash := c.key.hash std key, valueIndex := c.count })) := by
  have inside : LivesBelow c.buckets docs.length := fun live => wellFormed.index_lt live
  have powerOfTwo : ∃ k, c.buckets.length = 2 ^ k := by
    obtain ⟨distance, within, _⟩ := shadowed
    rcases wellFormed.size with ⟨empty, -⟩ | size
    · rw [slots, empty] at within
      cases within
    · exact size
  obtain ⟨idx, slot, found, free, searched⟩ :=
    wellFormed.indexes.search_claim_shadowed wellFormed.distinct shadowed
  have bound := (List.getElem?_eq_some_iff.mp found).1
  rw [slots, List.length_map] at bound
  refine ⟨idx, bound, ?_⟩
  rw [putInternal_eq wellFormed.toKeeps hashable inside powerOfTwo]
  rw [slots] at searched found
  rw [searched, Option.map_some, claimed_of_free found free]

/-- A `put` that takes a removed bucket appends a second document. -/
theorem Sound.put_shadowed (sound : c.Sound std docSize docs old) (length : data.length = docSize)
    (fits : c.key.keyEnd data ≤ docSize) (hashable : Hashable (c.key.hash std (c.key.keyOf data)))
    (reuses : c.ReusesMarker std (c.key.keyOf data)) :
    ∃ dest after, c.put std data = .ok (some dest, after) ∧ after.key = c.key ∧
      after.documents = docs ++ [data] ∧ c.key.keyOf data ∈ c.keys docs := by
  obtain ⟨keeps, shadowed⟩ := reuses
  rw [sound.documents_eq] at shadowed
  have stored : c.key.keyOf data ∈ c.keys docs := by
    obtain ⟨_, _, own, _⟩ := shadowed
    obtain ⟨_, _, holds⟩ := (Option.any_eq_true _ _).mp own
    obtain ⟨_, _, found⟩ := Slot.holds_iff.mp holds
    exact List.mem_of_getElem? found
  obtain ⟨idx, bound, inserted⟩ := putInternal_shadowed sound.toWellFormed hashable shadowed
  obtain ⟨storage, put, holds⟩ := sound.stored.put length
  have whole : slice data 0 docSize = data := by rw [← length, slice_all]
  refine ⟨docSize * docs.length, { c with
    storage, buckets := c.buckets.set idx ⟨c.key.hash std (c.key.keyOf data), c.count⟩ },
    ?_, rfl, documents_of_holds holds, stored⟩
  have grew : c.growBuckets std = .ok (some c) := by
    rw [growBuckets, keeps]
    rfl
  rw [Collection.put, grew, ok_bind]
  dsimp only
  rw [Collection.insert, c.key.readKey_eq (by omega) whole fits, ok_bind,
    KeyAccess.hashFn_eq (c.key.isKey_keyOf length fits), ok_bind, inserted, ok_bind]
  dsimp only
  rw [bucketAt, List.getElem?_set_self bound]
  simp only [pure, Except.pure, ok_bind, ↓reduceIte, put]

theorem Sound.put_overwrites (sound : c.Sound std docSize docs old) {op : Op}
    (fits : c.Fits docSize op) (clean : c.Clean std op) : c.Overwrites std op := by
  cases op with
  | remove key => trivial
  | put data =>
      intro index found
      rw [sound.documents_eq] at found ⊢
      obtain ⟨buckets, grew, grown, _, clear⟩ := sound.grown clean.2
      obtain ⟨storage, inserted, kept⟩ :=
        insert_stored grown.toWellFormed fits.1 fits.2 found clear
      refine ⟨_, ?_, documents_of_holds kept.stored, ?_⟩
      · rw [Collection.put, grew, ok_bind, Storage.elemAt, sound.stored.docSize_eq, Nat.mul_comm]
        exact inserted
      · rw [count, count, kept.stored.count_eq, sound.stored.count_eq, List.length_set]

/-- The next operation keeps the keys distinct exactly when it is clean. -/
theorem Sound.clean_of_distinct (sound : c.Sound std docSize docs old) {op : Op}
    {after : Collection} (fits : c.Fits docSize op)
    (hashable : ∀ key, c.key.IsKey key → Hashable (c.key.hash std key))
    (stepped : c.step std op = .ok after) (distinct : (after.keys after.documents).Nodup) :
    c.Clean std op := by
  cases op with
  | remove key => trivial
  | put data =>
      have hashed := hashable _ (c.key.isKey_keyOf fits.1 fits.2)
      refine ⟨hashed, fun reuses => ?_⟩
      obtain ⟨dest, next, put, access, documents, stored⟩ :=
        sound.put_shadowed fits.1 fits.2 hashed reuses
      rw [Collection.step, put] at stepped
      cases stepped
      rw [documents, keys, access, List.map_append, List.nodup_append] at distinct
      exact distinct.2.2 _ stored _ (by simp) rfl

theorem Sound.keepsKeysDistinct_iff {ops : List Op} (sound : c.Sound std docSize docs old)
    (hashable : ∀ key, c.key.IsKey key → Hashable (c.key.hash std key))
    (fits : ∀ op ∈ ops, c.Fits docSize op) : KeepsKeysDistinct std c ops ↔ CleanRun std c ops := by
  have distinct : (c.keys c.documents).Nodup := by
    rw [sound.documents_eq]
    exact sound.distinct
  induction ops generalizing c docs old with
  | nil => exact ⟨fun _ => trivial, fun _ => distinct⟩
  | cons op ops ih =>
      have here := fits op (by simp)
      have later : ∀ {after docs' old'}, Sound after std docSize docs' old' → after.key = c.key →
          (KeepsKeysDistinct std after ops ↔ CleanRun std after ops) := by
        intro after docs' old' kept access
        refine ih kept (by rwa [access])
          (fun op member => (fits_congr access).mpr (fits op (by simp [member]))) ?_
        rw [kept.documents_eq]
        exact kept.distinct
      rw [KeepsKeysDistinct, CleanRun]
      constructor
      · intro ⟨_, _, after, stepped, keeps⟩
        have clean := sound.clean_of_distinct here hashable stepped keeps.nodup
        obtain ⟨_, _, _, same, kept, access, _⟩ := sound.step here clean
        rw [stepped] at same ⊢
        cases same
        exact ⟨clean, (later kept access).mp keeps⟩
      · intro ⟨clean, rest⟩
        obtain ⟨after, _, _, stepped, kept, access, _⟩ := sound.step here clean
        rw [stepped] at rest
        exact ⟨distinct, sound.put_overwrites here clean, after, stepped,
          (later kept access).mpr rest⟩

/-- When no key hashes to a mark, a run keeps the keys distinct exactly when none
of its puts takes a removed bucket in front of its key's own. -/
theorem keepsKeysDistinct_iff_clean (std : StdHash) (schema : Schema) (fresh : Collection)
    (built : Collection.new schema = .ok fresh)
    (hashable : ∀ key, fresh.key.IsKey key → Hashable (fresh.key.hash std key)) (ops : List Op)
    (takes : ∀ op ∈ ops, fresh.Takes op) :
    KeepsKeysDistinct std fresh ops ↔ CleanRun std fresh ops :=
  (new_sound built std).keepsKeysDistinct_iff hashable
    fun op member => fits_of_takes built (takes op member)

def bounded (bytes : Bytes) : UInt64 := UInt64.ofNat (leValue bytes % 64 + 1)

/-- Everything hashes to a value from 1 to 64, so that no key hashes to a mark. -/
def boundedHash : StdHash :=
  { integral := fun _ => bounded, float32 := bounded, float64 := bounded, stringView := bounded }

theorem hashable_boundedHash (access : KeyAccess) (key : Bytes) :
    Hashable (access.hash boundedHash key) := by
  have same : access.hash boundedHash key = bounded key := by
    obtain ⟨offset, type⟩ := access
    cases type with
    | string => rfl
    | primitive type => cases type <;> rfl
  rw [same]
  have value : (bounded key).toNat = leValue key % 64 + 1 :=
    UInt64.toNat_ofNat_of_lt' (by rw [UInt64.size]; omega)
  constructor
  · intro unused
    rw [unused, UInt64.toNat_zero] at value
    omega
  · intro removed
    have mark : tombstoneKeyHash.toNat = 2 ^ 64 - 1 := by decide
    rw [removed, mark] at value
    omega

theorem keepsKeysDistinct_iff_clean_ledger :
    KeepsKeysDistinct boundedHash emptyLedger [.put (ledgerEntry 1 5), .put (ledgerEntry 33 6),
        .remove (leBytes 8 1), .put (ledgerEntry 65 7)] ↔
      CleanRun boundedHash emptyLedger [.put (ledgerEntry 1 5), .put (ledgerEntry 33 6),
        .remove (leBytes 8 1), .put (ledgerEntry 65 7)] := by
  apply keepsKeysDistinct_iff_clean boundedHash ledgerSchema emptyLedger new_ledger
    fun key _ => hashable_boundedHash _ key
  simp only [List.forall_mem_cons, takes_ledgerEntry, true_and]
  exact ⟨leBytes_length 8 1, nofun⟩

/-- The ids 1 and 33 share their bucket: putting 33 again after the removal of 1
stores it twice. -/
theorem ledger_stores_twice :
    Collection.new ledgerSchema = .ok emptyLedger ∧
    (∀ key, emptyLedger.key.IsKey key → Hashable (emptyLedger.key.hash boundedHash key)) ∧
    (∀ op ∈ [Op.put (ledgerEntry 1 5), .put (ledgerEntry 33 6), .remove (leBytes 8 1),
      .put (ledgerEntry 33 7)], emptyLedger.Takes op) ∧
    ∃ after, run boundedHash emptyLedger [.put (ledgerEntry 1 5), .put (ledgerEntry 33 6),
        .remove (leBytes 8 1), .put (ledgerEntry 33 7)] = .ok after ∧
      ¬ (after.keys after.documents).Nodup := by
  refine ⟨new_ledger, fun key _ => hashable_boundedHash _ key, ?_, ?_⟩
  · simp only [List.forall_mem_cons, takes_ledgerEntry, true_and]
    exact ⟨leBytes_length 8 1, nofun⟩
  · have twice : (fun c => c.keys c.documents) <$> run boundedHash emptyLedger
        [.put (ledgerEntry 1 5), .put (ledgerEntry 33 6), .remove (leBytes 8 1),
          .put (ledgerEntry 33 7)] = .ok [leBytes 8 33, leBytes 8 33] := by decide +kernel
    obtain ⟨after, ran, keys⟩ := exists_of_map_ok twice
    refine ⟨after, ran, ?_⟩
    rw [keys]
    decide

end Boutique.Db.Collection
