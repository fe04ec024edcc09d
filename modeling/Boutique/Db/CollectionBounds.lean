import Boutique.Db.CollectionFaults
import Boutique.Db.CollectionRoom

namespace Boutique.Db.Collection

open Boutique.Data

/-! # Accesses to stored documents

The operations once more, each `m_storage[...]` checked against `count()`. -/

/-- The bucket `distance` steps along the probe path of a key. -/
def pathBucket (c : Collection) (std : StdHash) (key : Bytes) (distance : Nat) : Option KeyValue :=
  c.buckets[probeAt c.buckets.length (c.key.hash std key).toNat distance]?

namespace Checked

/-- `m_storage[index]`, where a document is stored. -/
def elemAt (c : Collection) (index : Nat) : Except Fault Nat :=
  if index < c.count then .ok (c.storage.elemAt index) else .error (.outOfBounds .storage)

def hasKey (c : Collection) (index : Nat) (key : Bytes) : Except Fault Bool := do
  let _ ← elemAt c index
  c.hasKey index key

def putVisit (c : Collection) (dest : List KeyValue) (key : Bytes) (keyHash : UInt64) (idx : Nat) :
    Except Fault (Option (Nat × List KeyValue)) := do
  let bucket ← bucketAt dest idx
  if bucket.keyHash = 0 ∨ bucket.keyHash = tombstoneKeyHash then
    return some (idx, dest.set idx { keyHash, valueIndex := c.count })
  else if bucket.keyHash = keyHash then
    if ← hasKey c bucket.valueIndex key then return some (idx, dest) else return none
  else
    return none

def putInternal (c : Collection) (dest : List KeyValue) (key : Bytes) (keyHash : UInt64) :
    Except Fault (Option (Nat × List KeyValue)) :=
  let origIdx := keyHash.toNat &&& (dest.length - 1)
  probe .diverges (putVisit c dest key keyHash) dest.length origIdx dest.length origIdx

def findVisit (c : Collection) (key : Bytes) (keyHash : UInt64) (idx : Nat) :
    Except Fault (Option (Option Nat)) := do
  let bucket ← bucketAt c.buckets idx
  if bucket.keyHash = 0 then
    return some none
  else if bucket.keyHash = keyHash then
    if ← hasKey c bucket.valueIndex key then return some (some idx) else return none
  else
    return none

def findInternal (c : Collection) (key : Bytes) (keyHash : UInt64) : Except Fault (Option Nat) :=
  if c.buckets.isEmpty then
    return none
  else do
    let origIdx := keyHash.toNat &&& (c.buckets.length - 1)
    let found ← probe .diverges (findVisit c key keyHash) c.buckets.length origIdx
      c.buckets.length origIdx
    return found.join

def rehashFrom (c : Collection) (std : StdHash) :
    Nat → Nat → List KeyValue → Except Fault (Option (List KeyValue))
  | 0, _, newBuckets => return some newBuckets
  | remaining + 1, i, newBuckets => do
      let elem ← elemAt c i
      let elemKey ← c.key.readKey .storage c.storage.data elem
      let elemKeyHash ← c.key.hashFn std elemKey
      match ← putInternal c newBuckets elemKey elemKeyHash with
      | none => return none
      | some (idx, newBuckets) => do
          let res ← bucketAt newBuckets idx
          check .rehashIndex (res.valueIndex = c.count)
          rehashFrom c std remaining (i + 1) (newBuckets.set idx { res with valueIndex := i })

def growBuckets (c : Collection) (std : StdHash) : Except Fault (Option Collection) :=
  if c.grows then do
    match ← rehashFrom c std c.count 0 (List.replicate c.newBucketCount {}) with
    | none => return none
    | some newBuckets => return some { c with buckets := newBuckets }
  else
    return some c

def insert (c : Collection) (std : StdHash) (data : Bytes) :
    Except Fault (Option Nat × Collection) := do
  let dataKey ← c.key.readKey .argument data 0
  let dataKeyHash ← c.key.hashFn std dataKey
  match ← putInternal c c.buckets dataKey dataKeyHash with
  | none => return (none, c)
  | some (idx, buckets) => do
      let res ← bucketAt buckets idx
      if res.valueIndex = c.count then
        let (dest, storage) ← c.storage.put data
        return (some dest, { c with buckets, storage })
      else
        let dest ← elemAt c res.valueIndex
        let storage ← c.storage.replace dest data
        return (some dest, { c with buckets, storage })

def put (c : Collection) (std : StdHash) (data : Bytes) :
    Except Fault (Option Nat × Collection) := do
  match ← growBuckets c std with
  | none => return (none, c)
  | some c => insert c std data

def redirectLast (c : Collection) (std : StdHash) (valueIndex : Nat) :
    Except Fault (List KeyValue) :=
  if valueIndex ≠ c.count - 1 then do
    let lastElemData ← elemAt c (c.count - 1)
    let lastElemDataKey ← c.key.readKey .storage c.storage.data lastElemData
    let lastElemDataKeyHash ← c.key.hashFn std lastElemDataKey
    match ← findInternal c lastElemDataKey lastElemDataKeyHash with
    | none => .error (.assertion .lastElement)
    | some lastElemFound => do
        let bucket ← bucketAt c.buckets lastElemFound
        return c.buckets.set lastElemFound { bucket with valueIndex }
  else
    return c.buckets

def remove (c : Collection) (std : StdHash) (key : Bytes) : Except Fault Collection := do
  let h ← c.key.hashFn std key
  match ← findInternal c key h with
  | none => return c
  | some found => do
      let bucket ← bucketAt c.buckets found
      if c.count = 0 then
        .error .underflow
      else
        let buckets ← redirectLast c std bucket.valueIndex
        let bucket ← bucketAt buckets found
        let elem ← elemAt c bucket.valueIndex
        let storage ← c.storage.remove elem
        return { c with
          storage, buckets := buckets.set found { bucket with keyHash := tombstoneKeyHash } }

def find (c : Collection) (std : StdHash) (key : Bytes) : Except Fault (Option Nat) := do
  let h ← c.key.hashFn std key
  match ← findInternal c key h with
  | none => return none
  | some found => do
      let bucket ← bucketAt c.buckets found
      let elem ← elemAt c bucket.valueIndex
      return some elem

end Checked

variable {c after : Collection} {std : StdHash} {docSize index idx bound : Nat}
  {docs old : List Bytes} {data key : Bytes} {dest : List KeyValue} {keyHash : UInt64}

/-! ## Where the checks pass -/

namespace Checked

theorem elemAt_eq (inside : index < c.count) : elemAt c index = .ok (c.storage.elemAt index) :=
  if_pos inside

theorem hasKey_eq (inside : index < c.count) : hasKey c index key = c.hasKey index key := by
  rw [hasKey, elemAt_eq inside, ok_bind]

end Checked

/-- Buckets in use point below `bound`. -/
theorem LivesBelow.index_lt (below : LivesBelow dest bound) {bucket : KeyValue}
    (found : dest[idx]? = some bucket) (used : ¬ IsFree bucket) : bucket.valueIndex < bound := by
  have live : (dest.map KeyValue.slot)[idx]? = some (.live bucket.keyHash bucket.valueIndex) := by
    rw [List.getElem?_map, found, Option.map_some, KeyValue.slot, if_neg (not_or.mp used).1,
      if_neg (not_or.mp used).2]
  exact below live

theorem LivesBelow.set (below : LivesBelow dest bound) {bucket : KeyValue}
    (inside : bucket.valueIndex < bound) : LivesBelow (dest.set idx bucket) bound := by
  intro position index hash live
  obtain ⟨found, _⟩ := bucket_of_slot live
  rw [List.getElem?_set] at found
  split at found
  · split at found
    · cases found
      exact inside
    · cases found
  · rename_i elsewhere
    rw [List.map_set, List.getElem?_set_ne elsewhere] at live
    exact below live

theorem WellFormed.livesBelow (wellFormed : c.WellFormed std docSize docs old) :
    LivesBelow c.buckets c.count := by
  intro position index hash live
  rw [count, wellFormed.stored.count_eq]
  exact wellFormed.index_lt live

namespace Checked

theorem putVisit_eq (below : LivesBelow dest c.count) :
    putVisit c dest key keyHash idx = c.putVisit dest key keyHash idx := by
  rw [putVisit, Collection.putVisit]
  cases here : bucketAt dest idx with
  | error fault => rfl
  | ok bucket =>
      rw [ok_bind, ok_bind]
      by_cases used : bucket.keyHash = 0 ∨ bucket.keyHash = tombstoneKeyHash
      · rw [if_pos used, if_pos used]
      · rw [if_neg used, if_neg used,
          hasKey_eq (below.index_lt (bucketAt_ok_iff.mp here) used)]

theorem putInternal_eq (below : LivesBelow dest c.count) :
    putInternal c dest key keyHash = c.putInternal dest key keyHash := by
  have visits : putVisit c dest key keyHash = c.putVisit dest key keyHash :=
    funext fun _ => putVisit_eq below
  rw [putInternal, Collection.putInternal, visits]

theorem rehashFrom_eq (below : LivesBelow dest c.count) (remaining i : Nat)
    (inside : i + remaining ≤ c.count) :
    rehashFrom c std remaining i dest = c.rehashFrom std remaining i dest := by
  induction remaining generalizing i dest with
  | zero => rfl
  | succ remaining ih =>
      rw [rehashFrom, Collection.rehashFrom, elemAt_eq (by omega), ok_bind]
      congr 1
      funext elemKey
      congr 1
      funext elemKeyHash
      rw [putInternal_eq below]
      cases inserted : c.putInternal dest elemKey elemKeyHash with
      | error fault => rfl
      | ok claimed =>
          cases claimed with
          | none => rfl
          | some claimed =>
              obtain ⟨idx, placed⟩ := claimed
              rw [ok_bind, ok_bind]
              dsimp only
              congr 1
              funext res
              congr 1
              funext _
              rw [putInternal_written inserted]
              exact ih (below.set (by dsimp only; omega)) (i + 1) (by omega)

theorem growBuckets_eq : growBuckets c std = c.growBuckets std := by
  have unused : LivesBelow (List.replicate c.newBucketCount ({} : KeyValue)) c.count := by
    intro position index hash live
    rw [List.map_replicate] at live
    cases List.eq_of_mem_replicate (List.mem_of_getElem? live)
  have rehashed : rehashFrom c std _ _ _ = _ := rehashFrom_eq unused c.count 0 (by omega)
  rw [growBuckets, Collection.growBuckets]
  exact ite_congr rfl (fun _ => congrArg (· >>= _) rehashed) fun _ => rfl

theorem insert_eq (below : LivesBelow c.buckets c.count) :
    insert c std data = c.insert std data := by
  rw [insert, Collection.insert]
  congr 1
  funext dataKey
  congr 1
  funext dataKeyHash
  rw [putInternal_eq below]
  cases inserted : c.putInternal c.buckets dataKey dataKeyHash with
  | error fault => rfl
  | ok claimed =>
      cases claimed with
      | none => rfl
      | some claimed =>
          obtain ⟨idx, buckets⟩ := claimed
          rw [ok_bind, ok_bind]
          dsimp only
          cases found : bucketAt buckets idx with
          | error fault => rfl
          | ok res =>
              rw [ok_bind, ok_bind]
              by_cases appends : res.valueIndex = c.count
              · rw [if_pos appends, if_pos appends]
              · obtain ⟨_, here, used⟩ := putInternal_known inserted found appends
                have inside := below.index_lt here used
                rw [if_neg appends, if_neg appends, elemAt_eq inside, ok_bind]

end Checked

/-- Looking for a key that hashes to the mark of removed buckets, one comes, up to
the first unused bucket, only to removed ones that point to a stored document. -/
def SparesMarkers (c : Collection) (std : StdHash) (key : Bytes) : Prop :=
  c.key.hash std key = tombstoneKeyHash → ∀ distance < c.buckets.length,
    (∀ earlier < distance, ∀ passed ∈ c.pathBucket std key earlier, passed.keyHash ≠ 0) →
      ∀ bucket ∈ c.pathBucket std key distance, bucket.keyHash = tombstoneKeyHash →
        bucket.valueIndex < c.count

theorem sparesMarkers_of_hashable (hashable : Hashable (c.key.hash std key)) :
    c.SparesMarkers std key :=
  fun marker => absurd marker hashable.2

namespace Checked

theorem findVisit_eq (inside : ∀ bucket, c.buckets[idx]? = some bucket → bucket.keyHash ≠ 0 →
      bucket.keyHash = keyHash → bucket.valueIndex < c.count) :
    findVisit c key keyHash idx = c.findVisit key keyHash idx := by
  rw [findVisit, Collection.findVisit]
  cases here : bucketAt c.buckets idx with
  | error fault => rfl
  | ok bucket =>
      rw [ok_bind, ok_bind]
      by_cases unused : bucket.keyHash = 0
      · rw [if_pos unused, if_pos unused]
      · rw [if_neg unused, if_neg unused]
        by_cases same : bucket.keyHash = keyHash
        · rw [if_pos same, if_pos same,
            hasKey_eq (inside bucket (bucketAt_ok_iff.mp here) unused same)]
        · rw [if_neg same, if_neg same]

theorem findInternal_eq (powerOfTwo : c.buckets = [] ∨ ∃ k, c.buckets.length = 2 ^ k)
    (below : LivesBelow c.buckets c.count) (spares : c.SparesMarkers std key) :
    findInternal c key (c.key.hash std key) = c.findInternal key (c.key.hash std key) := by
  rw [findInternal, Collection.findInternal]
  split
  · rfl
  · rename_i nonempty
    have powerOfTwo := powerOfTwo.resolve_left fun unused => nonempty (by rw [unused]; rfl)
    dsimp only
    rw [probe_congr powerOfTwo]
    intro distance inside passed
    apply findVisit_eq
    intro bucket found used same
    by_cases marker : bucket.keyHash = tombstoneKeyHash
    · refine spares (same.symm.trans marker) distance inside ?_ bucket found marker
      intro earlier before other here unused
      have stopped : c.findVisit key (c.key.hash std key)
          (probeAt c.buckets.length (c.key.hash std key).toNat earlier) = .ok (some none) := by
        rw [Collection.findVisit, bucketAt_ok_iff.mpr here, ok_bind, if_pos unused]
        rfl
      rw [passed earlier before] at stopped
      cases stopped
    · exact below.index_lt found (not_or.mpr ⟨used, marker⟩)

theorem findInternal_of_wellFormed (wellFormed : c.WellFormed std docSize docs old)
    (spares : c.SparesMarkers std key) :
    findInternal c key (c.key.hash std key) = c.findInternal key (c.key.hash std key) :=
  findInternal_eq (wellFormed.size.imp_left And.left) wellFormed.livesBelow spares

theorem redirectLast_eq (wellFormed : c.WellFormed std docSize docs old) (stored : docs ≠ []) :
    redirectLast c std index = c.redirectLast std index := by
  have count : c.count = docs.length := wellFormed.stored.count_eq
  have some : 0 < docs.length := List.length_pos_iff.mpr stored
  have lastBound : docs.length - 1 < docs.length := by omega
  have lastDoc := List.getElem?_eq_getElem lastBound
  have member := List.getElem_mem lastBound
  have isKey := c.key.isKey_keyOf (wellFormed.stored.blocks.length_eq _
    (List.mem_append_left _ member)) (wellFormed.fits _ member)
  have last := sparesMarkers_of_hashable (wellFormed.hashable _ member)
  rw [redirectLast, Collection.redirectLast, elemAt_eq (by omega), ok_bind, count,
    wellFormed.readKey_eq lastDoc, ok_bind, ok_bind, KeyAccess.hashFn_eq isKey, ok_bind, ok_bind]
  have found := findInternal_of_wellFormed wellFormed last
  exact ite_congr rfl (fun _ => congrArg (· >>= _) found) fun _ => rfl

theorem find_eq (sound : c.Sound std docSize docs old) (spares : c.SparesMarkers std key) :
    find c std key = c.find std key := by
  by_cases isKey : c.key.IsKey key
  · rw [find, Collection.find, KeyAccess.hashFn_eq isKey, ok_bind, ok_bind,
      findInternal_of_wellFormed sound.toWellFormed spares]
    by_cases stored : key ∈ c.keys docs
    · obtain ⟨index, at_⟩ := List.mem_iff_getElem?.mp stored
      obtain ⟨idx, found, slot⟩ := findInternal_stored sound.toWellFormed at_
      have inside : index < c.count := sound.livesBelow slot
      rw [found, ok_bind, ok_bind]
      dsimp only
      rw [bucketAt_ok_iff.mpr (bucket_of_slot slot).1, ok_bind, ok_bind, elemAt_eq inside]
      rfl
    · rw [findInternal_absent sound.toWellFormed (sound.unlike key) stored]
      rfl
  · rw [find, Collection.find, hashFn_error isKey]
    rfl

theorem remove_eq (sound : c.Sound std docSize docs old) (spares : c.SparesMarkers std key) :
    remove c std key = c.remove std key := by
  by_cases isKey : c.key.IsKey key
  · rw [remove, Collection.remove, KeyAccess.hashFn_eq isKey, ok_bind, ok_bind,
      findInternal_of_wellFormed sound.toWellFormed spares]
    by_cases stored : key ∈ c.keys docs
    · obtain ⟨index, at_⟩ := List.mem_iff_getElem?.mp stored
      obtain ⟨idx, found, slot⟩ := findInternal_stored sound.toWellFormed at_
      obtain ⟨last, lastHash, _, redirected, bucket⟩ := redirectLast_spec sound.toWellFormed slot
      have inside : index < c.count := sound.livesBelow slot
      have nonempty : docs ≠ [] := by
        intro empty
        rw [empty] at stored
        cases stored
      rw [found, ok_bind, ok_bind]
      dsimp only
      rw [bucketAt_ok_iff.mpr (bucket_of_slot slot).1, ok_bind, ok_bind]
      dsimp only
      rw [redirectLast_eq sound.toWellFormed nonempty, redirected, ok_bind, ok_bind,
        bucketAt_ok_iff.mpr bucket, ok_bind, ok_bind, elemAt_eq inside]
      rfl
    · rw [findInternal_absent sound.toWellFormed (sound.unlike key) stored]
      rfl
  · rw [remove, Collection.remove, hashFn_error isKey]
    rfl

theorem put_eq (sound : c.Sound std docSize docs old) (clean : c.Clean std (.put data)) :
    put c std data = c.put std data := by
  obtain ⟨buckets, grew, grown, _⟩ := sound.grown clean.2
  rw [put, Collection.put, growBuckets_eq, grew, ok_bind, ok_bind]
  exact insert_eq grown.livesBelow

end Checked

/-! ## Runs -/

/-- The calls of a collection. -/
inductive Call where
  | change (op : Op)
  | find (key : Bytes)
deriving DecidableEq, Repr

def call (c : Collection) (std : StdHash) : Call → Except Fault Collection
  | .change op => c.step std op
  | .find key => do
      let _ ← c.find std key
      return c

def runCalls (std : StdHash) : Collection → List Call → Except Fault Collection
  | c, [] => return c
  | c, next :: calls => do runCalls std (← c.call std next) calls

namespace Checked

def call (c : Collection) (std : StdHash) : Call → Except Fault Collection
  | .change (.put data) => do
      let (_, c) ← put c std data
      return c
  | .change (.remove key) => remove c std key
  | .find key => do
      let _ ← find c std key
      return c

def runCalls (std : StdHash) : Collection → List Call → Except Fault Collection
  | c, [] => return c
  | c, next :: calls => do runCalls std (← call c std next) calls

end Checked

/-- A put is clean, and a key to be removed or found meets no removed bucket that
it is compared with, unless that points to a stored document. -/
def CleanCall (c : Collection) (std : StdHash) : Call → Prop
  | .change (.put data) => c.Clean std (.put data)
  | .change (.remove key) | .find key => c.SparesMarkers std key

def CleanCalls (std : StdHash) : Collection → List Call → Prop
  | _, [] => True
  | c, next :: calls => c.CleanCall std next ∧
      match c.call std next with
      | .ok after => CleanCalls std after calls
      | .error _ => True

theorem Sound.call {next : Call} (sound : c.Sound std docSize docs old)
    (fits : ∀ data, next = .change (.put data) → c.Fits docSize (.put data))
    (clean : c.CleanCall std next) :
    (∃ after docs' old', c.call std next = .ok after ∧ Sound after std docSize docs' old' ∧
      after.key = c.key) ∨ c.call std next = .error (.assertion .keyLength) := by
  cases next with
  | change op =>
      cases op with
      | put data =>
          obtain ⟨after, docs', old', stepped, kept, access, _⟩ :=
            sound.step (fits data rfl) clean
          exact .inl ⟨after, docs', old', stepped, kept, access⟩
      | remove key =>
          by_cases isKey : c.key.IsKey key
          · obtain ⟨after, docs', old', removed, kept, access, _⟩ := sound.remove isKey
            exact .inl ⟨after, docs', old', removed, kept, access⟩
          · exact .inr (remove_error isKey)
  | find key =>
      by_cases isKey : c.key.IsKey key
      · refine .inl ⟨c, docs, old, ?_, sound, rfl⟩
        by_cases stored : key ∈ c.keys docs
        · obtain ⟨index, found⟩ := List.mem_iff_getElem?.mp stored
          rw [Collection.call, find_stored sound.toWellFormed isKey found]
          rfl
        · rw [Collection.call, find_absent sound.toWellFormed isKey (sound.unlike key) stored]
          rfl
      · right
        rw [Collection.call, Collection.find, hashFn_error isKey]
        rfl

/-- Only an assertion that a key has the size of its type ends a run. -/
theorem Sound.runCalls {calls : List Call} (sound : c.Sound std docSize docs old)
    (fits : ∀ data, Call.change (.put data) ∈ calls → c.Fits docSize (.put data))
    (clean : CleanCalls std c calls) :
    Checked.runCalls std c calls = Collection.runCalls std c calls ∧
      ((∃ after, Collection.runCalls std c calls = .ok after) ∨
        Collection.runCalls std c calls = .error (.assertion .keyLength)) := by
  induction calls generalizing c docs old with
  | nil => exact ⟨rfl, .inl ⟨c, rfl⟩⟩
  | cons next calls ih =>
      obtain ⟨here, later⟩ := clean
      have same : Checked.call c std next = c.call std next := by
        cases next with
        | change op =>
            cases op with
            | put data => rw [Checked.call, Checked.put_eq sound here]; rfl
            | remove key => exact Checked.remove_eq sound here
        | find key => rw [Checked.call, Checked.find_eq sound here]; rfl
      rw [Checked.runCalls, Collection.runCalls, same]
      rcases sound.call (fun data put => fits data (by simp [put])) here with
        ⟨after, docs', old', stepped, kept, access⟩ | failed
      · rw [stepped] at later ⊢
        exact ih kept (fun data member => (fits_congr access).mpr (fits data (by simp [member])))
          later
      · rw [failed]
        exact ⟨rfl, .inr rfl⟩

/-- In a clean run no check fails: the buckets used to index the storage point to
stored documents, no index is computed from a count of 0 and the bucket of the
last document is found. -/
theorem runCalls_touch_stored (std : StdHash) (schema : Schema) (fresh : Collection)
    (built : Collection.new schema = .ok fresh) (calls : List Call)
    (documents : ∀ data, Call.change (.put data) ∈ calls → fresh.IsDocument data)
    (clean : CleanCalls std fresh calls) :
    Checked.runCalls std fresh calls = runCalls std fresh calls ∧
      ((∃ after, runCalls std fresh calls = .ok after) ∨
        runCalls std fresh calls = .error (.assertion .keyLength)) :=
  (new_sound built std).runCalls (fun data member =>
    fits_of_takes built (show fresh.Takes (.put data) from documents data member)) clean

instance (c : Collection) (std : StdHash) (key : Bytes) : Decidable (c.SparesMarkers std key) :=
  inferInstanceAs (Decidable (_ → ∀ distance < _, (∀ earlier < _, ∀ passed ∈ _, _) →
    ∀ bucket ∈ _, _ → _))

instance (c : Collection) (std : StdHash) : (next : Call) → Decidable (c.CleanCall std next)
  | .change (.put data) => inferInstanceAs (Decidable (c.Clean std (.put data)))
  | .change (.remove key) | .find key => inferInstanceAs (Decidable (c.SparesMarkers std key))

instance decidableCleanCalls (std : StdHash) :
    (c : Collection) → (calls : List Call) → Decidable (CleanCalls std c calls)
  | _, [] => .isTrue trivial
  | c, next :: calls =>
      haveI : Decidable (match c.call std next with
        | .ok after => CleanCalls std after calls
        | .error _ => True) :=
        match c.call std next with
        | .ok after => decidableCleanCalls std after calls
        | .error _ => .isTrue trivial
      inferInstanceAs (Decidable (_ ∧ _))

/-- The entry is removed twice and put again; the id 0 hashes to the mark of
unused buckets. -/
theorem runCalls_touch_stored_ledger :
    Checked.runCalls noHash emptyLedger [.change (.put (ledgerEntry 31 5)),
        .change (.put (ledgerEntry 63 6)), .change (.remove (leBytes 8 31)),
        .change (.remove (leBytes 8 31)), .find (leBytes 8 0), .change (.put (ledgerEntry 31 7))] =
      runCalls noHash emptyLedger [.change (.put (ledgerEntry 31 5)),
        .change (.put (ledgerEntry 63 6)), .change (.remove (leBytes 8 31)),
        .change (.remove (leBytes 8 31)), .find (leBytes 8 0), .change (.put (ledgerEntry 31 7))] :=
  (runCalls_touch_stored noHash ledgerSchema emptyLedger new_ledger _
    (by
      simp only [List.mem_cons, Call.change.injEq, Op.put.injEq, reduceCtorEq, false_or,
        List.not_mem_nil, or_false]
      intro data put
      rcases put with rfl | rfl | rfl <;> exact takes_ledgerEntry _ _)
    (by decide +kernel)).1

/-- The id 2^64 - 1 hashes to the mark of removed buckets: to find it the bucket
that the id 31 has left is compared, though no document is stored. -/
theorem ledger_touches_removed :
    Collection.new ledgerSchema = .ok emptyLedger ∧
    emptyLedger.IsDocument (ledgerEntry 31 5) ∧
    count <$> Checked.runCalls noHash emptyLedger [.change (.put (ledgerEntry 31 5)),
      .change (.remove (leBytes 8 31)), .find (leBytes 8 (2 ^ 64 - 1))] =
        .error (.outOfBounds .storage) ∧
    (fun c => (c.count, c.buckets[31]?.map KeyValue.valueIndex)) <$> runCalls noHash emptyLedger
      [.change (.put (ledgerEntry 31 5)), .change (.remove (leBytes 8 31))] = .ok (0, some 0) :=
  ⟨new_ledger, takes_ledgerEntry 31 5, by decide +kernel, by decide +kernel⟩

end Boutique.Db.Collection
