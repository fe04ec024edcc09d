import Boutique.Db.CollectionRuns

namespace Boutique.Db

open Boutique.Data

/-! # What a collection is for -/

/-- Documents of one schema under their keys. `pruned` says whether a document
has been removed since the shelf was new. -/
structure Shelf where
  schema : Schema
  key : KeyAccess
  docSize : Nat
  contents : Contents := fun _ => none
  pruned : Bool := false

instance (access : KeyAccess) (key : Bytes) : Decidable (access.IsKey key) :=
  match access with
  | ⟨_, .string⟩ => .isTrue trivial
  | ⟨_, .primitive type⟩ => inferInstanceAs (Decidable (key.length = type.implSize))

namespace Shelf

/-- A new shelf, unless the schema lays out no documents. -/
def new (schema : Schema) : Option Shelf :=
  match Collection.new schema with
  | .ok coll => some { schema, key := coll.key, docSize := coll.docSize }
  | .error _ => none

def put (shelf : Shelf) (doc : Bytes) : Shelf :=
  { shelf with contents := Function.update shelf.contents (shelf.key.keyOf doc) (some doc) }

def remove (shelf : Shelf) (key : Bytes) : Shelf :=
  { shelf with
    contents := Function.update shelf.contents key none
    pruned := shelf.pruned || (shelf.contents key).isSome }

/-- A document of the size that the schema lays out, whose key, if it is a
string, is no longer than its capacity. -/
def IsDocument (shelf : Shelf) (doc : Bytes) : Prop :=
  doc.length = shelf.docSize ∧ ∀ field ∈ shelf.schema.fields[shelf.schema.keyFieldIndex]?,
    ∀ capacity, field.type = .string capacity →
      leValue (slice doc shelf.key.offset stringHeaderSize) ≤ capacity

instance (type : FieldType) (p : Nat → Prop) [DecidablePred p] :
    Decidable (∀ capacity, type = .string capacity → p capacity) :=
  match type with
  | .string capacity => decidable_of_iff (p capacity) (by simp)
  | .primitive _ | .aggregate _ => .isTrue nofun

instance (shelf : Shelf) (doc : Bytes) : Decidable (shelf.IsDocument doc) :=
  inferInstanceAs (Decidable (_ ∧ _))

/-- The collection stores what is on the shelf. -/
structure Holds (std : StdHash) (coll : Collection) (shelf : Shelf) : Prop where
  schema : coll.schema = shelf.schema
  key : coll.key = shelf.key
  docSize : coll.docSize = shelf.docSize
  built : coll.Built
  sound : ∃ docs old, coll.Sound std coll.docSize docs old ∧
    Lists shelf.key.keyOf docs shelf.contents
  unpruned : shelf.pruned = false → Collection.MarkersBelow coll.buckets 0

end Shelf

namespace Collection

variable {c after : Collection} {std : StdHash} {docSize : Nat} {docs old : List Bytes}
  {data key : Bytes} {dest : Option Nat}

/-- Growing marks no bucket as removed, and neither does an insertion. -/
theorem Sound.put_unmarked (sound : c.Sound std docSize docs old) (length : data.length = docSize)
    (fits : c.key.keyEnd data ≤ docSize) (clean : c.Clean std (.put data))
    (unmarked : MarkersBelow c.buckets 0) (put : c.put std data = .ok (dest, after)) :
    MarkersBelow after.buckets 0 := by
  obtain ⟨hashable, clear⟩ := clean
  obtain ⟨buckets, grew, grown, room, unshadowed⟩ := sound.grown clear
  obtain ⟨_, same, _, kept, fresh⟩ := growBuckets_spec sound.toWellFormed
  have clean : MarkersBelow buckets 0 := by
    rw [same] at grew
    obtain rfl := congrArg Collection.buckets (Option.some.inj (Except.ok.inj grew))
    cases grows : c.grows with
    | false => exact kept grows ▸ unmarked
    | true => exact (fresh grows).2
  rw [Collection.put, grew, ok_bind] at put
  dsimp only at put
  by_cases stored : c.key.keyOf data ∈ c.keys docs
  · obtain ⟨index, found⟩ := List.mem_iff_getElem?.mp stored
    obtain ⟨_, inserted, _⟩ :=
      insert_stored grown.toWellFormed length fits found unshadowed
    cases inserted.symm.trans put
    exact clean
  · obtain ⟨_, _, inserted, _, _, markers⟩ :=
      insert_absent grown.toWellFormed length fits hashable (by dsimp only; omega) stored
    cases inserted.symm.trans put
    exact markers clean

/-- Only a stored key can have a removed bucket in front of its own. -/
theorem ReusesMarker.stored (reuses : c.ReusesMarker std key) : key ∈ c.keys c.documents := by
  obtain ⟨_, distance, _, here, _⟩ := reuses
  cases found : pathSlot UInt64.toNat c.slots (c.key.hash std key) distance with
  | none =>
      rw [found] at here
      cases here
  | some slot =>
      rw [found] at here
      obtain ⟨index, _, stored⟩ := Slot.holds_iff.mp here
      exact List.mem_of_getElem? stored

theorem ReusesMarker.not_unmarked (reuses : c.ReusesMarker std key) :
    ¬ MarkersBelow c.buckets 0 :=
  fun unmarked => not_shadowed_of_unmarked unmarked reuses.2

end Collection

namespace Shelf.Holds

variable {std : StdHash} {coll after : Collection} {shelf : Shelf} {doc key : Bytes}

theorem of_new {schema : Schema} (made : Collection.new schema = .ok coll) :
    ∃ shelf, Shelf.new schema = some shelf ∧ Holds std coll shelf := by
  refine ⟨{ schema, key := coll.key, docSize := coll.docSize }, ?_, ?_⟩
  · rw [Shelf.new, made]
  · obtain ⟨_, _, schema, _, buckets, _⟩ := Collection.new_spec made
    refine ⟨schema, rfl, rfl, .of_new made, ⟨[], [], Collection.new_sound made std, .nil _⟩, ?_⟩
    intro _
    rw [buckets]
    exact List.forall_mem_nil _

/-- What the constructor fixed has stayed the same. -/
theorem of_sameKind (holds : Holds std coll shelf) (same : coll.SameKind after) {shelf' : Shelf}
    (kind : shelf'.schema = shelf.schema ∧ shelf'.key = shelf.key ∧ shelf'.docSize = shelf.docSize)
    (sound : ∃ docs old, after.Sound std coll.docSize docs old ∧
      Lists shelf.key.keyOf docs shelf'.contents)
    (unpruned : shelf'.pruned = false → Collection.MarkersBelow after.buckets 0) :
    Holds std after shelf' where
  schema := by rw [same.schema, holds.schema, kind.1]
  key := by rw [same.key, holds.key, kind.2.1]
  docSize := by rw [same.docSize, holds.docSize, kind.2.2]
  built := holds.built.of_sameKind same
  sound := by
    rw [same.docSize, kind.2.1]
    exact sound
  unpruned := unpruned

theorem find (holds : Holds std coll shelf) (isKey : shelf.key.IsKey key) :
    coll.findDocument std key = .ok (shelf.contents key) := by
  obtain ⟨docs, old, sound, lists⟩ := holds.sound
  rw [← holds.key] at lists isKey
  exact sound.toWellFormed.findDocument_eq lists isKey (sound.unlike key)

theorem put (holds : Holds std coll shelf) (length : doc.length = coll.docSize)
    (fits : coll.key.keyEnd doc ≤ coll.docSize) (clean : coll.Clean std (.put doc)) :
    ∃ dest after, coll.put std doc = .ok (some dest, after) ∧ Holds std after (shelf.put doc) := by
  obtain ⟨docs, old, sound, lists⟩ := holds.sound
  obtain ⟨dest, after, docs', old', put, kept, access, updated⟩ := sound.put length fits clean
  rw [← holds.key] at lists
  refine ⟨dest, after, put, holds.of_sameKind (Collection.put_sameKind put) ⟨rfl, rfl, rfl⟩
    ⟨docs', old', kept, ?_⟩ ?_⟩
  · rw [Shelf.put, ← holds.key]
    exact updated lists
  · intro unpruned
    exact sound.put_unmarked length fits clean (holds.unpruned unpruned) put

theorem remove (holds : Holds std coll shelf) (isKey : shelf.key.IsKey key) :
    ∃ after, coll.remove std key = .ok after ∧ Holds std after (shelf.remove key) := by
  obtain ⟨docs, old, sound, lists⟩ := holds.sound
  rw [← holds.key] at lists isKey
  obtain ⟨after, docs', old', removed, kept, access, updated⟩ := sound.remove isKey
  refine ⟨after, removed, holds.of_sameKind (Collection.remove_sameKind removed) ⟨rfl, rfl, rfl⟩
    ⟨docs', old', kept, ?_⟩ ?_⟩
  · rw [← holds.key]
    exact updated lists
  · -- Removing an absent key leaves the collection as it is.
    intro unpruned
    obtain ⟨before, none⟩ := Bool.or_eq_false_iff.mp unpruned
    have absent := lists.eq_none_iff.mp
      (Option.isNone_iff_eq_none.mp (Option.isSome_eq_false_iff.mp none))
    have unchanged := Collection.remove_absent sound.toWellFormed isKey (sound.unlike key) absent
    cases unchanged.symm.trans removed
    exact holds.unpruned before

/-- Nothing stands in the way of a document whose key is not on the shelf, and
of none as long as the shelf has not been pruned. -/
theorem not_reusesMarker (holds : Holds std coll shelf)
    (clear : shelf.contents key = none ∨ shelf.pruned = false) : ¬ coll.ReusesMarker std key := by
  intro reuses
  rcases clear with absent | unpruned
  · obtain ⟨docs, old, sound, lists⟩ := holds.sound
    rw [← holds.key] at lists
    have stored := reuses.stored
    rw [sound.documents_eq] at stored
    exact lists.eq_none_iff.mp absent stored
  · exact reuses.not_unmarked (holds.unpruned unpruned)

end Shelf.Holds

end Boutique.Db
