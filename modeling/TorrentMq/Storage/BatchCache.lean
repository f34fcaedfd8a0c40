import TorrentMq.Arithmetic.Double
import TorrentMq.Collections.LruList
import TorrentMq.Runs.Basic
import TorrentMq.Storage.RecordBatch

/-!
# Batch cache

Batches kept by topic, partition and base offset, most recently put first, with
a count of their bytes that a capacity bounds.
-/

set_option autoImplicit false

namespace TorrentMq.Storage

def Record.approximateSize (record : Record) : Int64 :=
  record.headers.foldl (fun n header => n + Int64.ofNat (header.key.length + header.value.length))
    (Int64.ofNat (record.key.length + record.value.length))

def RecordBatch.approximateSize (batch : RecordBatch) : Int64 :=
  batch.records.foldl (fun n record => n + record.approximateSize) 0

def kEvictionTargetRatio : Arithmetic.Double := ⟨7656119366529843, 53⟩

def computeBatchSize (batch : RecordBatch) : Int64 :=
  let sz := batch.approximateSize
  let estimated := if sz = 0 ∧ 0 < batch.recordCount then 61 + batch.recordCount.toInt64 * 8 else sz
  if estimated < 1 then 1 else estimated

structure BatchCacheKey where
  topicId : UInt64 := 0
  partitionId : Int32 := 0
  baseOffset : Int := kInvalidOffset
deriving DecidableEq

structure BatchCacheEntry where
  batch : RecordBatch
  byteSize : Int64
  lastAccessMs : Int64
  accessCount : UInt64
deriving DecidableEq

/-- A node of the list; the map has its place by its key. -/
structure LruNode where
  key : BatchCacheKey
  entry : BatchCacheEntry
deriving DecidableEq

def LruNode.touch (nowMs : Int64) (node : LruNode) : LruNode :=
  { node with entry := { node.entry with lastAccessMs := nowMs, accessCount := node.entry.accessCount + 1 } }

def LruNode.update (batch : RecordBatch) (ts : Int64) (node : LruNode) : LruNode :=
  { node with entry := { batch, byteSize := computeBatchSize batch, lastAccessMs := ts, accessCount := 0 } }

/-- Entries in a list, from the last put to the first, and their places by key. -/
structure BatchCache where
  lruList : NodeList LruNode
  lruMap : AList fun _ : BatchCacheKey => Nat
  maxBytes : Int64
  totalBytes : Int64
  totalLookups : UInt64
  hits : UInt64
  misses : UInt64
  insertions : UInt64
  evictions : UInt64
  invalidations : UInt64
  batchInvalidations : UInt64

namespace BatchCache

def clamped (bytes : Int64) : Int64 := if bytes < 0 then 0 else bytes

def create (maxBytes : Int64) : BatchCache where
  lruList := .empty
  lruMap := ∅
  maxBytes := clamped maxBytes
  totalBytes := 0
  totalLookups := 0
  hits := 0
  misses := 0
  insertions := 0
  evictions := 0
  invalidations := 0
  batchInvalidations := 0

def find? (cache : BatchCache) (key : BatchCacheKey) : Option (Nat × LruNode) := do
  let iterator ← cache.lruMap.lookup key
  let node ← cache.lruList.find? iterator
  return (iterator, node)

def get (cache : BatchCache) (key : BatchCacheKey) (nowMs : Int64) : Option RecordBatch × BatchCache :=
  let counted := { cache with totalLookups := cache.totalLookups + 1 }
  match cache.find? key with
  | none => (none, { counted with misses := cache.misses + 1 })
  | some (iterator, node) =>
    (some node.entry.batch,
      { counted with hits := cache.hits + 1, lruList := cache.lruList.modify iterator (LruNode.touch nowMs) })

def evictBack (cache : BatchCache) (back : LruNode) : BatchCache :=
  { cache with
    lruMap := cache.lruMap.erase back.key
    lruList := cache.lruList.popBack
    totalBytes := cache.totalBytes - back.entry.byteSize
    evictions := cache.evictions + 1 }

def evictLruLoop (targetBytes : Int64) : Nat → BatchCache → BatchCache
  | 0, cache => cache
  | fuel + 1, cache =>
    if targetBytes < cache.totalBytes then
      match cache.lruList.back? with
      | none => cache
      | some back => evictLruLoop targetBytes fuel (cache.evictBack back)
    else cache

def evictLru (cache : BatchCache) (targetBytes : Int64) : BatchCache :=
  evictLruLoop targetBytes cache.lruList.nodes.length cache

def evictionTarget (max : Int64) : Int64 :=
  Int64.ofNat ((Arithmetic.Double.ofNat max.toInt.toNat).mul kEvictionTargetRatio).truncate

def replace (cache : BatchCache) (iterator : Nat) (old : LruNode) (batch : RecordBatch) (ts : Int64) : BatchCache :=
  { cache with
    lruList := (cache.lruList.modify iterator (LruNode.update batch ts)).splice iterator
    totalBytes := cache.totalBytes - old.entry.byteSize + computeBatchSize batch
    insertions := cache.insertions + 1 }

def insert (cache : BatchCache) (key : BatchCacheKey) (batch : RecordBatch) (ts : Int64) : BatchCache :=
  let newSize := computeBatchSize batch
  let entry : BatchCacheEntry := { batch, byteSize := newSize, lastAccessMs := ts, accessCount := 1 }
  { cache with
    lruList := cache.lruList.pushFront ⟨key, entry⟩
    lruMap := cache.lruMap.insert key cache.lruList.fresh
    totalBytes := cache.totalBytes + newSize
    insertions := cache.insertions + 1 }

def evictOver (stored : BatchCache) : BatchCache :=
  if 0 < stored.maxBytes ∧ stored.maxBytes < stored.totalBytes then
    stored.evictLru (evictionTarget stored.maxBytes)
  else stored

def put (cache : BatchCache) (key : BatchCacheKey) (batch : RecordBatch) (ts : Int64) : BatchCache :=
  match cache.find? key with
  | some (iterator, old) => (cache.replace iterator old batch ts).evictOver
  | none => (cache.insert key batch ts).evictOver

def contains (cache : BatchCache) (key : BatchCacheKey) : Bool := (cache.lruMap.lookup key).isSome

def remove (cache : BatchCache) (iterator : Nat) (node : LruNode) : BatchCache :=
  { cache with
    lruList := cache.lruList.erase iterator
    lruMap := cache.lruMap.erase node.key
    totalBytes := cache.totalBytes - node.entry.byteSize }

def erase (cache : BatchCache) (key : BatchCacheKey) : Bool × BatchCache :=
  match cache.find? key with
  | none => (false, cache)
  | some (iterator, node) =>
    (true, { cache.remove iterator node with invalidations := cache.invalidations + 1 })

def clear (cache : BatchCache) : BatchCache :=
  let removed := cache.lruList.nodes.length
  { cache with
    lruList := cache.lruList.clear
    lruMap := ∅
    totalBytes := 0
    batchInvalidations := if 0 < removed then cache.batchInvalidations + 1 else cache.batchInvalidations
    invalidations := if 0 < removed then cache.invalidations + UInt64.ofNat removed else cache.invalidations }

def resize (cache : BatchCache) (newMaxBytes : Int64) : BatchCache :=
  let sized := { cache with maxBytes := clamped newMaxBytes }
  if clamped newMaxBytes = 0 then sized.clear
  else if clamped newMaxBytes < sized.totalBytes then sized.evictLru (evictionTarget (clamped newMaxBytes))
  else sized

def invalidateLoop (goes : BatchCacheKey → Bool) : List (Nat × LruNode) → Nat × BatchCache → Nat × BatchCache
  | [], result => result
  | (iterator, node) :: rest, (removed, cache) =>
    if goes node.key then invalidateLoop goes rest (removed + 1, cache.remove iterator node)
    else invalidateLoop goes rest (removed, cache)

def invalidateIf (cache : BatchCache) (goes : BatchCacheKey → Bool) (asBatch : Bool) : Nat × BatchCache :=
  let (removed, cache) := invalidateLoop goes cache.lruList.nodes (0, cache)
  if 0 < removed then
    (removed, { cache with
      invalidations := cache.invalidations + UInt64.ofNat removed
      batchInvalidations := if asBatch then cache.batchInvalidations + 1 else cache.batchInvalidations })
  else (removed, cache)

def invalidatePartition (cache : BatchCache) (topicId : UInt64) (partitionId : Int32) : Nat × BatchCache :=
  cache.invalidateIf (fun key => key.topicId = topicId ∧ key.partitionId = partitionId) true

def invalidateTopic (cache : BatchCache) (topicId : UInt64) : Nat × BatchCache :=
  cache.invalidateIf (fun key => key.topicId = topicId) true

def invalidateOffsetRange (cache : BatchCache) (topicId : UInt64) (partitionId : Int32)
    (startOffset endOffset : Int) : Nat × BatchCache :=
  cache.invalidateIf
    (fun key => key.topicId = topicId ∧ key.partitionId = partitionId ∧
      startOffset ≤ key.baseOffset ∧ key.baseOffset < endOffset) false

inductive Call where
  | get (key : BatchCacheKey) (nowMs : Int64)
  | put (key : BatchCacheKey) (batch : RecordBatch) (nowMs : Int64)
  | erase (key : BatchCacheKey)
  | invalidatePartition (topicId : UInt64) (partitionId : Int32)
  | invalidateTopic (topicId : UInt64)
  | invalidateOffsetRange (topicId : UInt64) (partitionId : Int32) (startOffset endOffset : Int)
  | resize (newMaxBytes : Int64)
  | clear
deriving DecidableEq

def step (cache : BatchCache) : Call → BatchCache
  | .get key nowMs => (cache.get key nowMs).2
  | .put key batch nowMs => cache.put key batch nowMs
  | .erase key => (cache.erase key).2
  | .invalidatePartition topicId partitionId => (cache.invalidatePartition topicId partitionId).2
  | .invalidateTopic topicId => (cache.invalidateTopic topicId).2
  | .invalidateOffsetRange topicId partitionId startOffset endOffset =>
    (cache.invalidateOffsetRange topicId partitionId startOffset endOffset).2
  | .resize newMaxBytes => cache.resize newMaxBytes
  | .clear => cache.clear

end BatchCache

end TorrentMq.Storage
