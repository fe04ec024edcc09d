import Boutique.Data.KeyedList
import Boutique.Db.CollectionOperations
import Boutique.Db.Database
import Boutique.Db.Layout

namespace Boutique.Db

open Boutique.Data

inductive Op where
  | put (data : Bytes)
  | remove (key : Bytes)
deriving DecidableEq, Repr

/-- What a collection is for: documents under their keys. -/
abbrev Contents := Bytes → Option Bytes

def Op.apply (keyOf : Bytes → Bytes) (contents : Contents) : Op → Contents
  | .put data => Function.update contents (keyOf data) (some data)
  | .remove key => Function.update contents key none

/-- Under each key the document last put with it, unless it was removed since. -/
def contentsAfter (keyOf : Bytes → Bytes) (ops : List Op) : Contents :=
  ops.foldl (Op.apply keyOf) fun _ => none

namespace Collection

variable {c after : Collection} {std : StdHash} {docSize index : Nat} {docs old : List Bytes}
  {data key : Bytes} {contents : Contents}

def step (c : Collection) (std : StdHash) : Op → Except Fault Collection
  | .put data => do
      let (_, c) ← c.put std data
      return c
  | .remove key => c.remove std key

def run (std : StdHash) : Collection → List Op → Except Fault Collection
  | c, [] => return c
  | c, op :: ops => do run std (← c.step std op) ops

theorem step_sameKind {op : Op} (stepped : c.step std op = .ok after) : c.SameKind after := by
  cases op with
  | put data =>
      obtain ⟨_, put, stepped⟩ := bind_ok_iff.mp stepped
      cases stepped
      exact put_sameKind put
  | remove key => exact remove_sameKind stepped

theorem run_sameKind {ops : List Op} (ran : run std c ops = .ok after) : c.SameKind after := by
  induction ops generalizing c with
  | nil =>
      cases ran
      exact .refl _
  | cons op ops ih =>
      obtain ⟨next, stepped, ran⟩ := bind_ok_iff.mp ran
      exact (step_sameKind stepped).trans (ih ran)

/-- `storage[0..count())`. -/
def documents (c : Collection) : List Bytes :=
  (List.range c.count).map fun i => slice c.storage.data (c.storage.elemAt i) c.docSize

/-! ## Runs that stay clear of the markers -/

/-- A `put` of a stored key would find a bucket marked as removed before the
one of the key, and take it. -/
def ReusesMarker (c : Collection) (std : StdHash) (key : Bytes) : Prop :=
  c.grows = false ∧ Shadowed UInt64.toNat (c.key.hash std) (c.keys c.documents) c.slots key

def Clean (c : Collection) (std : StdHash) : Op → Prop
  | .put data => Hashable (c.key.hash std (c.key.keyOf data)) ∧
      ¬ c.ReusesMarker std (c.key.keyOf data)
  | .remove _ => True

def CleanRun (std : StdHash) : Collection → List Op → Prop
  | _, [] => True
  | c, op :: ops => c.Clean std op ∧
      match c.step std op with
      | .ok after => CleanRun std after ops
      | .error _ => True

instance (c : Collection) (std : StdHash) (key : Bytes) : Decidable (c.ReusesMarker std key) :=
  inferInstanceAs (Decidable (_ ∧ _))

instance (c : Collection) (std : StdHash) : (op : Op) → Decidable (c.Clean std op)
  | .put _ => inferInstanceAs (Decidable (_ ∧ ¬ _))
  | .remove _ => .isTrue trivial

instance decidableCleanRun (std : StdHash) :
    (c : Collection) → (ops : List Op) → Decidable (CleanRun std c ops)
  | _, [] => .isTrue trivial
  | c, op :: ops =>
      haveI : Decidable (match c.step std op with
        | .ok after => CleanRun std after ops
        | .error _ => True) :=
        match c.step std op with
        | .ok after => decidableCleanRun std after ops
        | .error _ => .isTrue trivial
      inferInstanceAs (Decidable (_ ∧ _))

/-- A document of the collection's size whose key, if it is a string, is no
longer than its capacity. -/
def IsDocument (c : Collection) (data : Bytes) : Prop :=
  data.length = c.docSize ∧ ∀ field ∈ c.schema.fields[c.schema.keyFieldIndex]?, ∀ capacity,
    field.type = .string capacity → leValue (slice data c.key.offset stringHeaderSize) ≤ capacity

def Takes (c : Collection) : Op → Prop
  | .put data => c.IsDocument data
  | .remove key => c.key.IsKey key

/-! ## The invariant of such runs -/

/-- A well-formed collection with room to spare, in which even the removed
buckets and documents are those of keys that hash to no marker. -/
structure Sound (c : Collection) (std : StdHash) (docSize : Nat) (docs old : List Bytes) : Prop
    extends WellFormed c std docSize docs old where
  oldFits : ∀ doc ∈ old, c.key.keyEnd doc ≤ docSize
  oldHashable : ∀ doc ∈ old, Hashable (c.key.hash std (c.key.keyOf doc))
  markers : MarkersBelow c.buckets (docs.length + old.length)
  bucketCount : c.buckets = [] ∨ ∃ k, c.buckets.length = 32 * 2 ^ k
  load : c.buckets ≠ [] → docs.length + 1 ≤ 5 * c.buckets.length / 7

theorem documents_of_holds (stored : c.storage.Holds docSize docs old) : c.documents = docs := by
  have count : c.count = docs.length := stored.count_eq
  apply List.ext_getElem
  · rw [documents, List.length_map, List.length_range, count]
  · intro i inside bound
    have found : (docs ++ old)[i]? = some docs[i] := by
      rw [List.getElem?_append_left bound, List.getElem?_eq_getElem]
    simp only [documents, List.getElem_map, List.getElem_range, Storage.elemAt,
      Collection.docSize, stored.docSize_eq]
    rw [Nat.mul_comm, stored.blocks.content found]

theorem WellFormed.documents_eq (wellFormed : c.WellFormed std docSize docs old) :
    c.documents = docs :=
  documents_of_holds wellFormed.stored

theorem WellFormed.findDocument_eq (wellFormed : c.WellFormed std docSize docs old)
    (lists : Lists c.key.keyOf docs contents) (isKey : c.key.IsKey key)
    (unlike : c.Unlike std key) : c.findDocument std key = .ok (contents key) := by
  cases found : contents key with
  | none => exact findDocument_absent wellFormed isKey unlike (lists.eq_none_iff.mp found)
  | some doc =>
      obtain ⟨member, rfl⟩ := (lists key doc).mp found
      obtain ⟨index, at_⟩ := List.mem_iff_getElem?.mp member
      exact findDocument_stored wellFormed isKey at_

theorem Sound.unlike (sound : c.Sound std docSize docs old) (key : Bytes) : c.Unlike std key := by
  intro marker bucket member removed
  have below := sound.markers bucket member removed
  have block := List.getElem?_eq_getElem (l := docs ++ old) (by rwa [List.length_append])
  have among := List.mem_append.mp (List.mem_of_getElem? block)
  have fits := among.elim (sound.fits _) (sound.oldFits _)
  have hashable := among.elim (sound.hashable _) (sound.oldHashable _)
  rw [hasKey_of_block sound.stored block fits]
  congr 1
  rw [beq_eq_false_iff_ne]
  intro same
  subst same
  exact hashable.2 marker

theorem not_shadowed_of_unmarked {keys : List Bytes} (unmarked : MarkersBelow c.buckets 0) :
    ¬ Shadowed UInt64.toNat (c.key.hash std) keys c.slots key := by
  intro ⟨distance, _, _, earlier, _, removed⟩
  rw [pathSlot, slots, List.getElem?_map, Option.map_eq_some_iff] at removed
  obtain ⟨bucket, found, shown⟩ := removed
  have marked : bucket.keyHash = tombstoneKeyHash := by
    rw [KeyValue.slot] at shown
    split at shown
    · cases shown
    · split at shown
      · assumption
      · cases shown
  exact absurd (unmarked bucket (List.mem_of_getElem? found) marked) (Nat.not_lt_zero _)

/-- Growing makes room for one more document than before. -/
theorem newBucketCount_room
    (bucketCount : c.buckets = [] ∧ c.count = 0 ∨ ∃ k, c.buckets.length = 32 * 2 ^ k)
    (load : c.buckets ≠ [] → c.count + 1 ≤ 5 * c.buckets.length / 7) :
    (∃ k, c.newBucketCount = 32 * 2 ^ k) ∧ c.count + 2 ≤ 5 * c.newBucketCount / 7 := by
  rw [newBucketCount]
  rcases bucketCount with ⟨none, empty⟩ | ⟨k, length⟩
  · rw [none, empty]
    exact ⟨⟨0, rfl⟩, by decide⟩
  · have positive := Nat.two_pow_pos k
    have some : c.buckets ≠ [] := by
      intro none
      rw [none, List.length_nil] at length
      omega
    have enough := load some
    rw [if_neg (by omega)]
    exact ⟨⟨k + 1, by rw [length, pow_succ, Nat.mul_assoc]⟩, by omega⟩

/-- What `put` has done once it has grown: there is room for one more document
than before, and no marker in the way of the key. -/
theorem Sound.grown (sound : c.Sound std docSize docs old)
    (clear : ¬ c.ReusesMarker std key) :
    ∃ buckets, c.growBuckets std = .ok (some { c with buckets }) ∧
      Sound { c with buckets } std docSize docs old ∧
      docs.length + 2 ≤ 5 * buckets.length / 7 ∧
      ¬ Shadowed UInt64.toNat (c.key.hash std) (c.keys docs) (buckets.map KeyValue.slot) key := by
  obtain ⟨buckets, grew, wellFormed, kept, fresh⟩ := growBuckets_spec sound.toWellFormed
  have count : c.count = docs.length := sound.stored.count_eq
  cases grows : c.grows with
  | false =>
      obtain rfl := kept grows
      have room := count_lt_of_not_grows grows
      refine ⟨c.buckets, grew, sound, by omega, fun shadowed => clear ⟨grows, ?_⟩⟩
      rw [sound.documents_eq]
      exact shadowed
  | true =>
      obtain ⟨size, unmarked⟩ := fresh grows
      have bucketCount : c.buckets = [] ∧ c.count = 0 ∨ ∃ k, c.buckets.length = 32 * 2 ^ k := by
        refine sound.bucketCount.imp_left fun none => ⟨none, ?_⟩
        rcases sound.size with ⟨_, empty⟩ | ⟨k, length⟩
        · rw [count, empty]
          rfl
        · rw [none] at length
          exact absurd length.symm (Nat.two_pow_pos k).ne'
      have room := newBucketCount_room bucketCount (count ▸ sound.load)
      rw [← size, count] at room
      refine ⟨buckets, grew, ⟨wellFormed, sound.oldFits, sound.oldHashable, ?_, .inr room.1, ?_⟩,
        room.2, ?_⟩
      · intro bucket member marker
        exact absurd (unmarked bucket member marker) (Nat.not_lt_zero _)
      · intro _
        have := room.2
        dsimp only
        omega
      · have unmarkedHere : MarkersBelow { c with buckets }.buckets 0 := unmarked
        exact not_shadowed_of_unmarked unmarkedHere

theorem Sound.insert (sound : c.Sound std docSize docs old)
    (room : docs.length + 2 ≤ 5 * c.buckets.length / 7) (length : data.length = docSize)
    (fits : c.key.keyEnd data ≤ docSize) (hashable : Hashable (c.key.hash std (c.key.keyOf data)))
    (clear : ¬ Shadowed UInt64.toNat (c.key.hash std) (c.keys docs) c.slots (c.key.keyOf data)) :
    ∃ dest after docs' old', c.insert std data = .ok (some dest, after) ∧
      Sound after std docSize docs' old' ∧ after.key = c.key ∧
      ∀ {contents}, Lists c.key.keyOf docs contents → Lists c.key.keyOf docs'
        (Function.update contents (c.key.keyOf data) (some data)) := by
  by_cases stored : c.key.keyOf data ∈ c.keys docs
  · obtain ⟨index, found⟩ := List.mem_iff_getElem?.mp stored
    obtain ⟨before, at_, same⟩ := keys_getElem?.mp found
    obtain ⟨storage, inserted, wellFormed⟩ :=
      insert_stored sound.toWellFormed length fits found clear
    refine ⟨_, _, docs.set index data, old, inserted, ⟨wellFormed, sound.oldFits,
      sound.oldHashable, ?_, sound.bucketCount, ?_⟩, rfl,
      fun lists => lists.set sound.distinct at_ same⟩
    · rw [List.length_set]
      exact sound.markers
    · rw [List.length_set]
      exact sound.load
  · obtain ⟨buckets, storage, inserted, wellFormed, size, markers⟩ :=
      insert_absent sound.toWellFormed length fits hashable (by omega) stored
    refine ⟨_, _, docs ++ [data], old.tail, inserted, ⟨wellFormed,
      fun doc member => sound.oldFits doc (List.mem_of_mem_tail member),
      fun doc member => sound.oldHashable doc (List.mem_of_mem_tail member), ?_, ?_, ?_⟩, rfl,
      fun lists => lists.append stored⟩
    · intro bucket member marker
      have below := markers sound.markers bucket member marker
      rw [List.length_append, List.length_tail, List.length_singleton]
      omega
    · have some : c.buckets ≠ [] := by
        intro none
        rw [none] at room
        exact absurd room (by simp)
      right
      dsimp only
      rw [size]
      exact sound.bucketCount.resolve_left some
    · intro _
      dsimp only
      rw [size, List.length_append, List.length_singleton]
      exact room

theorem Sound.put (sound : c.Sound std docSize docs old) (length : data.length = docSize)
    (fits : c.key.keyEnd data ≤ docSize) (clean : c.Clean std (.put data)) :
    ∃ dest after docs' old', c.put std data = .ok (some dest, after) ∧
      Sound after std docSize docs' old' ∧ after.key = c.key ∧
      ∀ {contents}, Lists c.key.keyOf docs contents → Lists c.key.keyOf docs'
        (Function.update contents (c.key.keyOf data) (some data)) := by
  obtain ⟨hashable, clear⟩ := clean
  obtain ⟨buckets, grew, grown, room, unshadowed⟩ := sound.grown clear
  obtain ⟨dest, after, docs', old', inserted, result⟩ :=
    grown.insert room length fits hashable unshadowed
  refine ⟨dest, after, docs', old', ?_, result⟩
  rw [Collection.put, grew, ok_bind]
  exact inserted

theorem Sound.remove (sound : c.Sound std docSize docs old) (isKey : c.key.IsKey key) :
    ∃ after docs' old', c.remove std key = .ok after ∧ Sound after std docSize docs' old' ∧
      after.key = c.key ∧
      ∀ {contents}, Lists c.key.keyOf docs contents →
        Lists c.key.keyOf docs' (Function.update contents key none) := by
  by_cases stored : key ∈ c.keys docs
  · obtain ⟨index, found⟩ := List.mem_iff_getElem?.mp stored
    obtain ⟨doc, at_, rfl⟩ := keys_getElem?.mp found
    have inside := (List.getElem?_eq_some_iff.mp at_).1
    obtain ⟨buckets, storage, lastDoc, member, removed, wellFormed, size, markers⟩ :=
      remove_stored sound.toWellFormed isKey found inside
    refine ⟨_, _, _, removed, ⟨wellFormed, ?_, ?_, ?_, ?_, ?_⟩, rfl,
      fun lists => lists.swapRemove sound.distinct at_⟩
    · exact List.forall_mem_cons.mpr ⟨sound.fits lastDoc member, sound.oldFits⟩
    · exact List.forall_mem_cons.mpr ⟨sound.hashable lastDoc member, sound.oldHashable⟩
    · intro bucket present marker
      have below := markers (Nat.le_add_right docs.length old.length) sound.markers bucket present
        marker
      rw [swapRemove_length, List.length_cons]
      omega
    · rcases sound.bucketCount with none | count
      · obtain ⟨k, length⟩ := sound.powerOfTwo inside
        rw [none] at length
        exact absurd length.symm (Nat.two_pow_pos k).ne'
      · right
        dsimp only
        rwa [size]
    · intro some
      have load : docs.length + 1 ≤ 5 * c.buckets.length / 7 := by
        apply sound.load
        intro none
        rw [none] at size
        exact some (List.length_eq_zero_iff.mp size)
      dsimp only
      rw [size, swapRemove_length]
      omega
  · have unchanged := remove_absent sound.toWellFormed isKey (sound.unlike key) stored
    exact ⟨c, docs, old, unchanged, sound, rfl, fun lists => lists.remove_absent stored⟩

/-! ## From the schema -/

/-- How a key field is accessed; an aggregate is not. -/
def keyType : FieldType → Option KeyType
  | .primitive type => some (.primitive type)
  | .string _ => some .string
  | .aggregate _ => none

/-- What the constructor returns: an empty collection whose documents contain
the key field. -/
theorem new_spec {schema : Schema} (built : Collection.new schema = .ok c) :
    ∃ field, schema.fields[schema.keyFieldIndex]? = some field ∧ c.schema = schema ∧
      keyType field.type = some c.key.type ∧ c.buckets = [] ∧ c.storage = { docSize := c.docSize } ∧
      0 < c.docSize ∧ c.key.offset + extent pad field.type ≤ c.docSize := by
  rw [Collection.new] at built
  obtain ⟨keyOffset, placed, built⟩ := bind_ok_iff.mp built
  obtain ⟨docSize, sized, built⟩ := bind_ok_iff.mp built
  have solid := noEmptyAggregate_of_size sized
  have positive : 0 < docSize := by
    rw [size_eq solid] at sized
    cases sized
    exact Nat.lt_of_lt_of_le (alignOf_isAlignment solid).pos (alignOf_le_extent solid)
  split at built
  · cases built
  · rename_i field found
    have inside := (List.getElem?_eq_some_iff.mp found).1
    have contained : keyOffset + extent pad field.type ≤ docSize := by
      rw [offset_eq solid.2 inside] at placed
      rw [size_eq solid] at sized
      cases placed
      cases sized
      have shape : (shapes pad schema.fields)[schema.keyFieldIndex]? =
          some ⟨alignOf field.type, extent pad field.type⟩ := by
        rw [shapes_eq_map, List.getElem?_map, found, Option.map_some]
      exact fieldStart_add_size_le_recordEnd (endsAdvance solid.2) shape
    refine ⟨field, found, ?_⟩
    cases type : field.type with
    | primitive kind =>
        simp only [type] at built contained
        cases built
        exact ⟨rfl, rfl, rfl, rfl, positive, contained⟩
    | string capacity =>
        simp only [type] at built contained
        cases built
        exact ⟨rfl, rfl, rfl, rfl, positive, contained⟩
    | aggregate fields =>
        simp only [type] at built
        cases built

theorem new_sound {schema : Schema} (built : Collection.new schema = .ok c) (std : StdHash) :
    c.Sound std c.docSize [] [] := by
  obtain ⟨_, _, _, _, empty, storage, positive, _⟩ := new_spec built
  have noDocs {holds : Bytes → Prop} : ∀ doc ∈ ([] : List Bytes), holds doc :=
    List.forall_mem_nil holds
  refine ⟨⟨⟨?_, noDocs⟩, List.nodup_nil, noDocs, .inl ⟨empty, rfl⟩, ?_⟩, noDocs, noDocs, ?_,
    .inl empty, fun some => absurd empty some⟩
  · rw [storage]
    exact Storage.holds_empty positive
  · rw [slots, empty]
    exact .empty _ _ 0
  · rw [empty]
    exact List.forall_mem_nil _

theorem keyEnd_le_of_isDocument {schema : Schema} (built : Collection.new schema = .ok c)
    (document : c.IsDocument data) : c.key.keyEnd data ≤ c.docSize := by
  obtain ⟨field, found, same, type, _, _, _, contained⟩ := new_spec built
  rw [KeyAccess.keyEnd]
  cases kind : field.type with
  | primitive primitive =>
      rw [kind] at type contained
      rw [← Option.some.inj type]
      exact contained
  | string capacity =>
      rw [kind] at type contained
      have short := document.2 field (by rw [same]; exact found) capacity kind
      rw [← Option.some.inj type]
      dsimp only
      rw [extent] at contained
      omega
  | aggregate fields =>
      rw [kind] at type
      cases type

/-- What a sound collection needs of its arguments: documents of its size with
their key inside, and keys. -/
def Fits (c : Collection) (docSize : Nat) : Op → Prop
  | .put data => data.length = docSize ∧ c.key.keyEnd data ≤ docSize
  | .remove key => c.key.IsKey key

theorem fits_of_takes {schema : Schema} {op : Op} (built : Collection.new schema = .ok c)
    (takes : c.Takes op) : c.Fits c.docSize op := by
  cases op with
  | put data => exact ⟨takes.1, keyEnd_le_of_isDocument built takes⟩
  | remove key => exact takes

theorem fits_congr {after : Collection} {op : Op} (access : after.key = c.key) :
    after.Fits docSize op ↔ c.Fits docSize op := by
  cases op <;> simp only [Fits, access]

theorem Sound.step {op : Op} (sound : c.Sound std docSize docs old) (fits : c.Fits docSize op)
    (clean : c.Clean std op) :
    ∃ after docs' old', c.step std op = .ok after ∧ Sound after std docSize docs' old' ∧
      after.key = c.key ∧ ∀ {contents}, Lists c.key.keyOf docs contents →
        Lists c.key.keyOf docs' (Op.apply c.key.keyOf contents op) := by
  cases op with
  | put data =>
      obtain ⟨dest, after, docs', old', put, result⟩ := sound.put fits.1 fits.2 clean
      refine ⟨after, docs', old', ?_, result⟩
      rw [Collection.step, put]
      rfl
  | remove key => exact sound.remove fits

theorem Sound.run {ops : List Op} (sound : c.Sound std docSize docs old)
    (lists : Lists c.key.keyOf docs contents) (fits : ∀ op ∈ ops, c.Fits docSize op)
    (clean : CleanRun std c ops) :
    ∃ after docs' old', Collection.run std c ops = .ok after ∧ Sound after std docSize docs' old' ∧
      after.key = c.key ∧ Lists c.key.keyOf docs' (ops.foldl (Op.apply c.key.keyOf) contents) := by
  induction ops generalizing c docs old contents with
  | nil => exact ⟨c, docs, old, rfl, sound, rfl, lists⟩
  | cons op ops ih =>
      obtain ⟨here, later⟩ := clean
      obtain ⟨next, docs', old', stepped, kept, access, updated⟩ := sound.step (fits op (by simp))
        here
      have lists := updated lists
      rw [stepped] at later
      rw [← access] at lists ⊢
      obtain ⟨after, docs'', old'', run, result⟩ := ih kept lists
        (fun op member => (fits_congr access).mpr (fits op (by simp [member]))) later
      refine ⟨after, docs'', old'', ?_, result⟩
      rw [Collection.run, stepped, ok_bind, run]

/-- The collection that a clean run of a fresh one ends in. -/
theorem run_sound (std : StdHash) {schema : Schema} {fresh : Collection}
    (built : Collection.new schema = .ok fresh) (ops : List Op) (takes : ∀ op ∈ ops, fresh.Takes op)
    (clean : CleanRun std fresh ops) :
    ∃ after docs old, Collection.run std fresh ops = .ok after ∧
      Sound after std fresh.docSize docs old ∧ after.key = fresh.key ∧
      Lists fresh.key.keyOf docs (contentsAfter fresh.key.keyOf ops) :=
  (new_sound built std).run (.nil _)
    (fun op member => fits_of_takes built (takes op member)) clean

/-- A run in which no `put` has a key that hashes to a marker and none takes a
removed bucket in front of its key's own does what the finite map does. -/
theorem run_refines_contents (std : StdHash) (schema : Schema) (fresh : Collection)
    (built : Collection.new schema = .ok fresh) (ops : List Op) (takes : ∀ op ∈ ops, fresh.Takes op)
    (clean : CleanRun std fresh ops) :
    ∃ after, Collection.run std fresh ops = .ok after ∧
      (∀ key, fresh.key.IsKey key →
        after.findDocument std key = .ok (contentsAfter fresh.key.keyOf ops key)) ∧
      after.count = Set.ncard {key | contentsAfter fresh.key.keyOf ops key ≠ none} := by
  obtain ⟨after, docs, old, run, sound, access, lists⟩ := run_sound std built ops takes clean
  refine ⟨after, run, ?_, ?_⟩
  · intro key isKey
    rw [← access] at lists isKey ⊢
    exact sound.toWellFormed.findDocument_eq lists isKey (sound.unlike key)
  · rw [← access] at lists ⊢
    rw [count, sound.stored.count_eq]
    exact lists.ncard_eq sound.distinct

/-! A ledger under numeric keys, whose hashes are the keys themselves. -/

def ledgerSchema : Schema :=
  { fields := [⟨[105, 100], .primitive .uint64⟩, ⟨[115], .primitive .uint32⟩], keyFieldIndex := 0 }

def emptyLedger : Collection :=
  { schema := ledgerSchema, key := { offset := 0, type := .primitive .uint64 },
    storage := { docSize := 12 } }

def ledgerEntry (id sum : Nat) : Bytes := leBytes 8 id ++ leBytes 4 sum

theorem new_ledger : Collection.new ledgerSchema = .ok emptyLedger := by
  have placed : offset ledgerSchema.fields ledgerSchema.keyFieldIndex = .ok 0 := by decide +kernel
  have sized : size (.aggregate ledgerSchema.fields) = .ok 12 := by decide +kernel
  rw [Collection.new, placed, ok_bind, sized, ok_bind]
  rfl

theorem takes_ledgerEntry (id sum : Nat) : emptyLedger.Takes (.put (ledgerEntry id sum)) := by
  constructor
  · rw [ledgerEntry, List.length_append, leBytes_length, leBytes_length]
    rfl
  · intro field found capacity string
    cases found
    cases string

/-- The ids 1, 33 and 65 share their bucket; 1 is overwritten and removed. -/
theorem run_refines_contents_ledger :
    ∃ after, Collection.run noHash emptyLedger [.put (ledgerEntry 1 5), .put (ledgerEntry 33 6),
        .put (ledgerEntry 1 7), .remove (leBytes 8 1), .put (ledgerEntry 65 8)] = .ok after ∧
      (∀ key, emptyLedger.key.IsKey key → after.findDocument noHash key =
        .ok (contentsAfter emptyLedger.key.keyOf [.put (ledgerEntry 1 5), .put (ledgerEntry 33 6),
          .put (ledgerEntry 1 7), .remove (leBytes 8 1), .put (ledgerEntry 65 8)] key)) ∧
      after.count = Set.ncard {key | contentsAfter emptyLedger.key.keyOf [.put (ledgerEntry 1 5),
        .put (ledgerEntry 33 6), .put (ledgerEntry 1 7), .remove (leBytes 8 1),
        .put (ledgerEntry 65 8)] key ≠ none} := by
  apply run_refines_contents noHash ledgerSchema emptyLedger new_ledger
  · simp only [List.forall_mem_cons, takes_ledgerEntry, true_and]
    exact ⟨leBytes_length 8 1, nofun⟩
  · decide +kernel

theorem keyOf_ledgerEntry (id sum : Nat) :
    emptyLedger.key.keyOf (ledgerEntry id sum) = leBytes 8 id := by
  have front : (leBytes 8 id).length = 8 := leBytes_length 8 id
  change ((ledgerEntry id sum).drop 0).take 8 = leBytes 8 id
  rw [List.drop_zero, ledgerEntry, List.take_append_of_le_length (Nat.le_of_eq front.symm),
    List.take_of_length_le (Nat.le_of_eq front)]

/-- The id 0 hashes to the mark of an unused bucket and is never found; putting
33 again after the removal of 1 takes the freed bucket and stores it twice. -/
theorem ledger_loses_and_duplicates :
    Collection.new ledgerSchema = .ok emptyLedger ∧
    (Collection.run noHash emptyLedger [.put (ledgerEntry 0 5)] >>= fun after =>
      after.findDocument noHash (leBytes 8 0)) = .ok none ∧
    contentsAfter emptyLedger.key.keyOf [.put (ledgerEntry 0 5)] (leBytes 8 0) =
      some (ledgerEntry 0 5) ∧
    count <$> Collection.run noHash emptyLedger [.put (ledgerEntry 1 5), .put (ledgerEntry 33 6),
      .remove (leBytes 8 1), .put (ledgerEntry 33 7)] = .ok 2 ∧
    ∀ key, contentsAfter emptyLedger.key.keyOf [.put (ledgerEntry 1 5), .put (ledgerEntry 33 6),
      .remove (leBytes 8 1), .put (ledgerEntry 33 7)] key ≠ none → key = leBytes 8 33 := by
  refine ⟨new_ledger, by decide +kernel, ?_, by decide +kernel, ?_⟩
  · simp only [contentsAfter, List.foldl_cons, List.foldl_nil, Op.apply, keyOf_ledgerEntry,
      Function.update_self]
  · intro key stored
    by_contra other
    apply stored
    simp only [contentsAfter, List.foldl_cons, List.foldl_nil, Op.apply, keyOf_ledgerEntry,
      Function.update_apply, if_neg other]
    split <;> rfl

end Collection

end Boutique.Db
