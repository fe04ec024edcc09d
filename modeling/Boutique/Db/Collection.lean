import Boutique.Data.LittleEndian
import Boutique.Data.Probing
import Boutique.Db.Schema
import Boutique.Db.Storage

namespace Boutique.Db

open Boutique.Data

/-- `static_cast<std::size_t>` of the signed integer stored in `bytes`. -/
def signExtend (bytes : Bytes) : UInt64 :=
  if leValue bytes < 2 ^ (8 * bytes.length - 1) then UInt64.ofNat (leValue bytes)
  else UInt64.ofNat (leValue bytes) - UInt64.ofNat (2 ^ (8 * bytes.length))

/-- The value of an integer or a `bool`, cast to `std::size_t`. -/
def PrimitiveType.sizeValue : PrimitiveType → Bytes → UInt64
  | .int8 | .int16 | .int32 | .int64 => signExtend
  | _ => fun bytes => UInt64.ofNat (leValue bytes)

/-- The `std::hash` functions, which the program's text does not determine.
That of an integer or a `bool` is its value in libstdc++. -/
structure StdHash where
  integral : PrimitiveType → Bytes → UInt64 := PrimitiveType.sizeValue
  float32 : Bytes → UInt64
  float64 : Bytes → UInt64
  stringView : Bytes → UInt64

/-- Strings and floats that hash alike, and integers as in libstdc++. -/
def noHash : StdHash := { float32 := fun _ => 0, float64 := fun _ => 0, stringView := fun _ => 0 }

def PrimitiveType.stdHash (std : StdHash) : PrimitiveType → Bytes → UInt64
  | .float32 => std.float32
  | .float64 => std.float64
  | type => std.integral type

/-- The type of a key field, which is no aggregate. -/
inductive KeyType where
  | primitive (type : PrimitiveType)
  | string
deriving DecidableEq, Repr

/-- A `ConstBuffer` into some memory, by its offset there. -/
structure KeyBuffer where
  data : Nat
  len : Nat
deriving DecidableEq, Repr

/-- `m_key_offset` and, in `type`, what `m_key_buffer_fn` and `m_hash_fn` were
set to. -/
structure KeyAccess where
  offset : Nat
  type : KeyType
deriving DecidableEq, Repr

namespace KeyAccess

/-- `m_key_buffer_fn(data, m_key_offset)`. -/
def bufferFn (access : KeyAccess) (region : Region) (memory : Bytes) (data : Nat) :
    Except Fault KeyBuffer :=
  let key := data + access.offset
  match access.type with
  | .string => do
      let len ← readBytes region memory key stringHeaderSize
      return { data := key + stringHeaderSize, len := leValue len }
  | .primitive type => return { data := key, len := type.implSize }

/-- `m_hash_fn`. -/
def hashFn (access : KeyAccess) (std : StdHash) (key : Bytes) : Except Fault UInt64 :=
  match access.type with
  | .string => return std.stringView key
  | .primitive type => do
      check .keyLength (key.length = type.implSize)
      return type.stdHash std key

/-- The bytes of the key of the document at `data`, which hashing it reads. -/
def readKey (access : KeyAccess) (region : Region) (memory : Bytes) (data : Nat) :
    Except Fault Bytes := do
  let buf ← access.bufferFn region memory data
  readBytes region memory buf.data buf.len

end KeyAccess

structure KeyValue where
  keyHash : UInt64 := 0
  valueIndex : Nat := 0
deriving DecidableEq, Repr

def tombstoneKeyHash : UInt64 := ~~~0

structure Collection where
  schema : Schema
  key : KeyAccess
  storage : Storage
  buckets : List KeyValue := []

namespace Collection

/-- The constructor `Collection(Schema)`. -/
def new (schema : Schema) : Except Fault Collection := do
  let keyOffset ← offset schema.fields schema.keyFieldIndex
  let docSize ← size (.aggregate schema.fields)
  match schema.fields[schema.keyFieldIndex]? with
  | none => .error (.assertion .fieldIndex)
  | some field =>
      match field.type with
      | .string _ =>
          return { schema, key := { offset := keyOffset, type := .string }, storage := { docSize } }
      | .aggregate _ => .error (.assertion .aggregateKey)
      | .primitive type =>
          return { schema, key := { offset := keyOffset, type := .primitive type },
                   storage := { docSize } }

def count (c : Collection) : Nat := c.storage.count

def docSize (c : Collection) : Nat := c.storage.docSize

def bucketAt (buckets : List KeyValue) (idx : Nat) : Except Fault KeyValue :=
  match buckets[idx]? with
  | none => .error (.outOfBounds .buckets)
  | some bucket => return bucket

/-- Whether the document at `index` has the key `key`, as both probing loops
compare them: the lengths first. -/
def hasKey (c : Collection) (index : Nat) (key : Bytes) : Except Fault Bool := do
  let buf ← c.key.bufferFn .storage c.storage.data (c.storage.elemAt index)
  if buf.len = key.length then
    return (← readBytes .storage c.storage.data buf.data buf.len) == key
  else
    return false

/-- One round of the loop of `put_internal`: the bucket it ends with and the
buckets then, unless it goes on. -/
def putVisit (c : Collection) (dest : List KeyValue) (key : Bytes) (keyHash : UInt64) (idx : Nat) :
    Except Fault (Option (Nat × List KeyValue)) := do
  let bucket ← bucketAt dest idx
  if bucket.keyHash = 0 ∨ bucket.keyHash = tombstoneKeyHash then
    return some (idx, dest.set idx { keyHash, valueIndex := c.count })
  else if bucket.keyHash = keyHash then
    if ← c.hasKey bucket.valueIndex key then return some (idx, dest) else return none
  else
    return none

def putInternal (c : Collection) (dest : List KeyValue) (key : Bytes) (keyHash : UInt64) :
    Except Fault (Option (Nat × List KeyValue)) :=
  let origIdx := keyHash.toNat &&& (dest.length - 1)
  probe .diverges (c.putVisit dest key keyHash) dest.length origIdx dest.length origIdx

/-- One round of the loop of `find_internal`: the result it ends with, unless
it goes on. -/
def findVisit (c : Collection) (key : Bytes) (keyHash : UInt64) (idx : Nat) :
    Except Fault (Option (Option Nat)) := do
  let bucket ← bucketAt c.buckets idx
  if bucket.keyHash = 0 then
    return some none
  else if bucket.keyHash = keyHash then
    if ← c.hasKey bucket.valueIndex key then return some (some idx) else return none
  else
    return none

def findInternal (c : Collection) (key : Bytes) (keyHash : UInt64) : Except Fault (Option Nat) :=
  if c.buckets.isEmpty then
    return none
  else do
    let origIdx := keyHash.toNat &&& (c.buckets.length - 1)
    let found ← probe .diverges (c.findVisit key keyHash) c.buckets.length origIdx
      c.buckets.length origIdx
    return found.join

/-- The condition of `put` to grow. For the bucket counts that occur, 0 and
powers of two, `static_cast<std::size_t>(size / 1.4)` is `5 * size / 7`. -/
def grows (c : Collection) : Bool := c.count + 1 ≥ 5 * c.buckets.length / 7

/-- The loop of `put` that rehashes the `remaining` documents from `i` on. -/
def rehashFrom (c : Collection) (std : StdHash) :
    Nat → Nat → List KeyValue → Except Fault (Option (List KeyValue))
  | 0, _, newBuckets => return some newBuckets
  | remaining + 1, i, newBuckets => do
      let elemKey ← c.key.readKey .storage c.storage.data (c.storage.elemAt i)
      let elemKeyHash ← c.key.hashFn std elemKey
      match ← c.putInternal newBuckets elemKey elemKeyHash with
      | none => return none
      | some (idx, newBuckets) => do
          let res ← bucketAt newBuckets idx
          check .rehashIndex (res.valueIndex = c.count)
          c.rehashFrom std remaining (i + 1) (newBuckets.set idx { res with valueIndex := i })

def newBucketCount (c : Collection) : Nat :=
  if c.buckets.length * 2 = 0 then 32 else c.buckets.length * 2

/-- The first half of `put`; nothing when rehashing fails. -/
def growBuckets (c : Collection) (std : StdHash) : Except Fault (Option Collection) :=
  if c.grows then do
    match ← c.rehashFrom std c.count 0 (List.replicate c.newBucketCount {}) with
    | none => return none
    | some newBuckets => return some { c with buckets := newBuckets }
  else
    return some c

/-- The second half of `put`. -/
def insert (c : Collection) (std : StdHash) (data : Bytes) :
    Except Fault (Option Nat × Collection) := do
  let dataKey ← c.key.readKey .argument data 0
  let dataKeyHash ← c.key.hashFn std dataKey
  match ← c.putInternal c.buckets dataKey dataKeyHash with
  | none => return (none, c)
  | some (idx, buckets) => do
      let res ← bucketAt buckets idx
      if res.valueIndex = c.count then
        let (dest, storage) ← c.storage.put data
        return (some dest, { c with buckets, storage })
      else
        let dest := c.storage.elemAt res.valueIndex
        let storage ← c.storage.replace dest data
        return (some dest, { c with buckets, storage })

/-- `put`: the offset of the stored document in the storage, or null. -/
def put (c : Collection) (std : StdHash) (data : Bytes) :
    Except Fault (Option Nat × Collection) := do
  match ← c.growBuckets std with
  | none => return (none, c)
  | some c => c.insert std data

/-- The part of `remove` that points the bucket of the last document at
`valueIndex`, unless that is the last document itself. -/
def redirectLast (c : Collection) (std : StdHash) (valueIndex : Nat) :
    Except Fault (List KeyValue) :=
  if valueIndex ≠ c.count - 1 then do
    let lastElemDataKey ← c.key.readKey .storage c.storage.data (c.storage.elemAt (c.count - 1))
    let lastElemDataKeyHash ← c.key.hashFn std lastElemDataKey
    match ← c.findInternal lastElemDataKey lastElemDataKeyHash with
    | none => .error (.assertion .lastElement)
    | some lastElemFound => do
        let bucket ← bucketAt c.buckets lastElemFound
        return c.buckets.set lastElemFound { bucket with valueIndex }
  else
    return c.buckets

def remove (c : Collection) (std : StdHash) (key : Bytes) : Except Fault Collection := do
  let h ← c.key.hashFn std key
  match ← c.findInternal key h with
  | none => return c
  | some found => do
      let bucket ← bucketAt c.buckets found
      if c.count = 0 then
        .error .underflow
      else
        let buckets ← c.redirectLast std bucket.valueIndex
        let bucket ← bucketAt buckets found
        let storage ← c.storage.remove (c.storage.elemAt bucket.valueIndex)
        return { c with
          storage, buckets := buckets.set found { bucket with keyHash := tombstoneKeyHash } }

/-- `find`: the offset of the document in the storage, or null. -/
def find (c : Collection) (std : StdHash) (key : Bytes) : Except Fault (Option Nat) := do
  let h ← c.key.hashFn std key
  match ← c.findInternal key h with
  | none => return none
  | some found => do
      let bucket ← bucketAt c.buckets found
      return some (c.storage.elemAt bucket.valueIndex)

/-- The document that `find` returns, as its caller reads it. -/
def findDocument (c : Collection) (std : StdHash) (key : Bytes) : Except Fault (Option Bytes) := do
  match ← c.find std key with
  | none => return none
  | some found => return some (← readBytes .storage c.storage.data found c.docSize)

end Collection

end Boutique.Db
