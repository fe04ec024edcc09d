import Boutique.Db.Collection
import Mathlib.Logic.Function.Basic

namespace Boutique.Db

/-- `Database`. Its two hash maps are used by lookup and `insert_or_assign`
alone. -/
structure Database where
  schemas : Bytes → Option Schema := fun _ => none
  colls : Bytes → Option Collection := fun _ => none

namespace Database

def registerSchema (db : Database) (name : Bytes) (schema : Schema) : Database :=
  { db with schemas := Function.update db.schemas name (some schema) }

def createCollection (db : Database) (name : Bytes) (schema : Schema) : Except Fault Database := do
  let coll ← Collection.new schema
  return { db with colls := Function.update db.colls name (some coll) }

def schema (db : Database) (name : Bytes) : Option Schema := db.schemas name

def collection (db : Database) (name : Bytes) : Option Collection := db.colls name

/-- The database after the collection behind a pointer has become `coll`. -/
def setCollection (db : Database) (name : Bytes) (coll : Collection) : Database :=
  { db with colls := Function.update db.colls name (some coll) }

end Database

/-! ## What operations leave alone -/

namespace Storage

variable {s after : Storage} {dest : Nat} {data : Bytes}

theorem grow_docSize (s : Storage) : s.grow.docSize = s.docSize := by
  obtain ⟨more, grown, _⟩ := s.grow_spec
  rw [grown]

theorem grow_count (s : Storage) : s.grow.count = s.count := by
  obtain ⟨more, grown, _⟩ := s.grow_spec
  rw [grown]

theorem put_docSize (stored : s.put data = .ok (dest, after)) : after.docSize = s.docSize := by
  obtain ⟨_, _, stored⟩ := bind_ok_iff.mp stored
  obtain ⟨_, _, stored⟩ := bind_ok_iff.mp stored
  cases stored
  exact s.grow_docSize

theorem put_count (stored : s.put data = .ok (dest, after)) : after.count = s.count + 1 := by
  obtain ⟨_, _, stored⟩ := bind_ok_iff.mp stored
  obtain ⟨_, _, stored⟩ := bind_ok_iff.mp stored
  cases stored
  exact congrArg (· + 1) s.grow_count

theorem replace_docSize (stored : s.replace dest data = .ok after) : after.docSize = s.docSize := by
  obtain ⟨_, _, stored⟩ := bind_ok_iff.mp stored
  obtain ⟨_, _, stored⟩ := bind_ok_iff.mp stored
  cases stored
  rfl

theorem replace_count (stored : s.replace dest data = .ok after) : after.count = s.count := by
  obtain ⟨_, _, stored⟩ := bind_ok_iff.mp stored
  obtain ⟨_, _, stored⟩ := bind_ok_iff.mp stored
  cases stored
  rfl

theorem remove_docSize (removed : s.remove dest = .ok after) : after.docSize = s.docSize := by
  obtain ⟨_, _, removed⟩ := bind_ok_iff.mp removed
  obtain ⟨_, _, removed⟩ := bind_ok_iff.mp removed
  dsimp only at removed
  split at removed
  · cases removed
    rfl
  · obtain ⟨_, _, removed⟩ := bind_ok_iff.mp removed
    obtain ⟨_, _, removed⟩ := bind_ok_iff.mp removed
    cases removed
    rfl

theorem remove_count (removed : s.remove dest = .ok after) : after.count + 1 = s.count := by
  obtain ⟨_, some, removed⟩ := bind_ok_iff.mp removed
  obtain ⟨_, _, removed⟩ := bind_ok_iff.mp removed
  have positive : 0 < s.count := of_decide_eq_true (check_ok_iff.mp some)
  dsimp only at removed
  split at removed
  · cases removed
    exact Nat.sub_add_cancel positive
  · obtain ⟨_, _, removed⟩ := bind_ok_iff.mp removed
    obtain ⟨_, _, removed⟩ := bind_ok_iff.mp removed
    cases removed
    exact Nat.sub_add_cancel positive

end Storage

namespace Collection

variable {c after grown : Collection} {std : StdHash} {dest : Option Nat} {data key : Bytes}

theorem count_lt_of_not_grows (stays : c.grows = false) :
    c.count + 1 < 5 * c.buckets.length / 7 := by
  rw [grows, decide_eq_false_iff_not] at stays
  omega

/-- What `insert` can do, with what it returns and leaves behind. -/
inductive Insertion (c : Collection) (std : StdHash) (data : Bytes) :
    Option Nat → Collection → Prop where
  | none {key keyHash} (full : c.putInternal c.buckets key keyHash = .ok none) :
      Insertion c std data none c
  | append {key keyHash idx buckets res dest storage}
      (claimed : c.putInternal c.buckets key keyHash = .ok (some (idx, buckets)))
      (found : bucketAt buckets idx = .ok res) (new : res.valueIndex = c.count)
      (stored : c.storage.put data = .ok (dest, storage)) :
      Insertion c std data (some dest) { c with buckets, storage }
  | replace {key keyHash idx buckets res storage}
      (claimed : c.putInternal c.buckets key keyHash = .ok (some (idx, buckets)))
      (found : bucketAt buckets idx = .ok res) (known : res.valueIndex ≠ c.count)
      (stored : c.storage.replace (c.storage.elemAt res.valueIndex) data = .ok storage) :
      Insertion c std data (some (c.storage.elemAt res.valueIndex)) { c with buckets, storage }

theorem insert_ok (inserted : c.insert std data = .ok (dest, after)) :
    Insertion c std data dest after := by
  obtain ⟨key, _, inserted⟩ := bind_ok_iff.mp inserted
  obtain ⟨keyHash, _, inserted⟩ := bind_ok_iff.mp inserted
  obtain ⟨claimed, put, inserted⟩ := bind_ok_iff.mp inserted
  cases claimed with
  | none =>
      cases inserted
      exact .none put
  | some claimed =>
      obtain ⟨res, found, inserted⟩ := bind_ok_iff.mp inserted
      split at inserted
      · rename_i new
        obtain ⟨_, stored, inserted⟩ := bind_ok_iff.mp inserted
        cases inserted
        exact .append put found new stored
      · rename_i known
        obtain ⟨_, stored, inserted⟩ := bind_ok_iff.mp inserted
        cases inserted
        exact .replace put found known stored

/-- What `remove` can do. -/
inductive Removal (c : Collection) (std : StdHash) (key : Bytes) : Collection → Prop where
  | absent {keyHash} (hashed : c.key.hashFn std key = .ok keyHash)
      (unknown : c.findInternal key keyHash = .ok none) : Removal c std key c
  | removed {keyHash found index buckets bucket storage}
      (hashed : c.key.hashFn std key = .ok keyHash)
      (known : c.findInternal key keyHash = .ok (some found))
      (redirected : c.redirectLast std index = .ok buckets)
      (here : bucketAt buckets found = .ok bucket)
      (shrunk : c.storage.remove (c.storage.elemAt bucket.valueIndex) = .ok storage) :
      Removal c std key { c with
        storage, buckets := buckets.set found { bucket with keyHash := tombstoneKeyHash } }

theorem remove_ok (removed : c.remove std key = .ok after) : Removal c std key after := by
  obtain ⟨keyHash, hashed, removed⟩ := bind_ok_iff.mp removed
  obtain ⟨found, looked, removed⟩ := bind_ok_iff.mp removed
  cases found with
  | none =>
      cases removed
      exact .absent hashed looked
  | some found =>
      obtain ⟨first, _, removed⟩ := bind_ok_iff.mp removed
      split at removed
      · cases removed
      · obtain ⟨buckets, redirected, removed⟩ := bind_ok_iff.mp removed
        obtain ⟨bucket, here, removed⟩ := bind_ok_iff.mp removed
        obtain ⟨storage, shrunk, removed⟩ := bind_ok_iff.mp removed
        cases removed
        exact .removed hashed looked redirected here shrunk

/-- Everything the constructor fixes. -/
structure SameKind (c after : Collection) : Prop where
  schema : after.schema = c.schema
  key : after.key = c.key
  docSize : after.docSize = c.docSize

theorem SameKind.refl (c : Collection) : c.SameKind c := ⟨rfl, rfl, rfl⟩

theorem SameKind.trans (first : c.SameKind grown) (second : grown.SameKind after) :
    c.SameKind after :=
  ⟨second.schema.trans first.schema, second.key.trans first.key,
    second.docSize.trans first.docSize⟩

theorem growBuckets_sameKind (grew : c.growBuckets std = .ok (some grown)) : c.SameKind grown := by
  rw [growBuckets] at grew
  split at grew
  · obtain ⟨rehashed, _, grew⟩ := bind_ok_iff.mp grew
    cases rehashed <;> cases grew
    exact ⟨rfl, rfl, rfl⟩
  · cases grew
    exact .refl c

theorem insert_sameKind (inserted : c.insert std data = .ok (dest, after)) : c.SameKind after := by
  cases insert_ok inserted with
  | none => exact .refl c
  | append _ _ _ stored => exact ⟨rfl, rfl, Storage.put_docSize stored⟩
  | replace _ _ _ stored => exact ⟨rfl, rfl, Storage.replace_docSize stored⟩

theorem put_sameKind (put : c.put std data = .ok (dest, after)) : c.SameKind after := by
  obtain ⟨grown, grew, inserted⟩ := bind_ok_iff.mp put
  cases grown with
  | none =>
      cases inserted
      exact .refl c
  | some grown => exact (growBuckets_sameKind grew).trans (insert_sameKind inserted)

theorem remove_sameKind (removed : c.remove std key = .ok after) : c.SameKind after := by
  cases remove_ok removed with
  | absent => exact .refl c
  | removed _ _ _ _ shrunk => exact ⟨rfl, rfl, Storage.remove_docSize shrunk⟩

/-- The collection was made from its schema. -/
def Built (c : Collection) : Prop := ∃ fresh, Collection.new c.schema = .ok fresh ∧ fresh.SameKind c

theorem Built.of_new {schema : Schema} (made : Collection.new schema = .ok c) : c.Built := by
  have same : c.schema = schema := by
    rw [Collection.new] at made
    obtain ⟨_, _, made⟩ := bind_ok_iff.mp made
    obtain ⟨_, _, made⟩ := bind_ok_iff.mp made
    split at made
    · cases made
    · split at made <;> cases made <;> rfl
  exact ⟨c, same ▸ made, .refl c⟩

theorem Built.of_sameKind (built : c.Built) (same : c.SameKind after) : after.Built := by
  obtain ⟨fresh, made, kind⟩ := built
  exact ⟨fresh, same.schema ▸ made, kind.trans same⟩

end Collection

end Boutique.Db
