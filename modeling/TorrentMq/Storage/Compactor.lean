import TorrentMq.Storage.BatchCache

/-!
# Compactor

Deduplication of records by key: a bounded index of the keys seen last, the
record that wins for each key, and the batches that the winners are packed into.
-/

set_option autoImplicit false

namespace TorrentMq.Storage

open Bytes

structure CompactorConfig where
  maxKeyIndexEntries : Nat := 1000000
  deleteRetentionMs : Int64 := 86400000
  maxRecordsPerBatch : Int32 := 50000
deriving DecidableEq

structure CompactionMetrics where
  bytesIn : Int64 := 0
  bytesOut : Int64 := 0
  recordsIn : Nat := 0
  recordsOut : Nat := 0
  tombstonesPurged : Nat := 0
  duplicatesRemoved : Nat := 0
  uniqueKeys : Nat := 0
  lruEvictions : Nat := 0
deriving DecidableEq

/-!
## Index of keys
-/

structure IndexEntry where
  key : Bytes
  latestOffset : Int := kInvalidOffset
  timestamp : Int64 := 0
  isTombstone : Bool := false
deriving DecidableEq

def IndexEntry.advance (offset : Int) (timestamp : Int64) (isTombstone : Bool) (entry : IndexEntry) : IndexEntry :=
  if entry.latestOffset < offset then { entry with latestOffset := offset, timestamp, isTombstone } else entry

/-- The latest offset of each key, for as many keys as there is room for. -/
structure KeyedRecordIndex where
  maxEntries : Nat
  lruList : NodeList IndexEntry := .empty
  map : AList fun _ : Bytes => Nat := ∅
  evictions : Nat := 0

namespace KeyedRecordIndex

def find (index : KeyedRecordIndex) (key : Bytes) : Option IndexEntry := do
  let iterator ← index.map.lookup key
  index.lruList.find? iterator

def makeRoom (index : KeyedRecordIndex) : KeyedRecordIndex :=
  match index.lruList.back? with
  | some back =>
    if index.maxEntries ≤ index.lruList.nodes.length then
      { index with
        map := index.map.erase back.key
        lruList := index.lruList.popBack
        evictions := index.evictions + 1 }
    else index
  | none => index

def insertOrUpdate (index : KeyedRecordIndex) (key : Bytes) (offset : Int) (timestamp : Int64)
    (isTombstone : Bool) : KeyedRecordIndex :=
  match index.map.lookup key with
  | some iterator =>
    { index with
      lruList := (index.lruList.modify iterator (IndexEntry.advance offset timestamp isTombstone)).splice iterator }
  | none =>
    let index := index.makeRoom
    { index with
      lruList := index.lruList.pushFront { key, latestOffset := offset, timestamp, isTombstone }
      map := index.map.insert key index.lruList.fresh }

def clear (index : KeyedRecordIndex) : KeyedRecordIndex :=
  { index with lruList := index.lruList.clear, map := ∅ }

end KeyedRecordIndex

/-!
## Scan
-/

structure WinningRecord where
  record : Record
  latestOffset : Int
  timestamp : Int64
  isTombstone : Bool
deriving DecidableEq

def Record.wins (record : Record) : WinningRecord where
  record := record
  latestOffset := record.offset
  timestamp := record.timestamp
  isTombstone := record.value.isEmpty

structure Compactor where
  config : CompactorConfig
  index : KeyedRecordIndex
  sized : index.maxEntries = config.maxKeyIndexEntries

abbrev CombinerFn := Record → Record → Bool

def keepNewcomer : CombinerFn := fun _ _ => false

namespace Compactor

def create (config : CompactorConfig) : Compactor := ⟨config, { maxEntries := config.maxKeyIndexEntries }, rfl⟩

def reset (compactor : Compactor) : Compactor := ⟨compactor.config, compactor.index.clear, compactor.sized⟩

def canPurgeTombstone (config : CompactorConfig) (ts now : Int64) : Bool :=
  if config.deleteRetentionMs ≤ 0 then false else config.deleteRetentionMs ≤ now - ts

/-- How far the first pass has got. -/
structure Scan where
  index : KeyedRecordIndex
  winners : AList fun _ : Bytes => WinningRecord := ∅
  metrics : CompactionMetrics

def scanRecord (config : CompactorConfig) (combiner : CombinerFn) (now : Int64) (scan : Scan) (rec : Record) : Scan :=
  let isTombstone := rec.value.isEmpty
  if isTombstone ∧ canPurgeTombstone config rec.timestamp now then
    { scan with metrics := { scan.metrics with tombstonesPurged := scan.metrics.tombstonesPurged + 1 } }
  else
    let updated := scan.index.insertOrUpdate rec.key rec.offset rec.timestamp isTombstone
    match scan.index.find rec.key with
    | none =>
      { scan with
        index := updated
        winners := if rec.key ∈ scan.winners then scan.winners else scan.winners.insert rec.key rec.wins }
    | some entry =>
      if rec.key ∉ scan.winners then scan
      else
        let existing : Record :=
          { key := rec.key, value := [], offset := entry.latestOffset, timestamp := entry.timestamp }
        let counted :=
          { scan with metrics := { scan.metrics with duplicatesRemoved := scan.metrics.duplicatesRemoved + 1 } }
        if combiner existing rec then counted
        else { counted with winners := scan.winners.insert rec.key rec.wins, index := updated }

def inputMetrics (batches : List RecordBatch) : CompactionMetrics where
  bytesIn := batches.foldl (fun n batch => n + batch.approximateSize) 0
  recordsIn := (batches.map fun batch => batch.records.length).sum

def scan (compactor : Compactor) (combiner : CombinerFn) (now : Int64) (batches : List RecordBatch) : Scan :=
  (batches.flatMap RecordBatch.records).foldl (scanRecord compactor.config combiner now)
    { index := compactor.reset.index, metrics := inputMetrics batches }

/-!
## Output
-/

def maxPerBatch (config : CompactorConfig) : Int32 :=
  if config.maxRecordsPerBatch ≤ 0 then 50000 else config.maxRecordsPerBatch

def batchSize (config : CompactorConfig) : Nat := (maxPerBatch config).toInt.toNat

/-- A batch that is being filled. -/
structure Packing where
  records : List Record := []
  minTs : Int64
  maxTs : Int64
  metrics : CompactionMetrics

def packRecord (config : CompactorConfig) (now : Int64) (baseOffset : Int) (packing : Packing)
    (winner : WinningRecord) : Packing :=
  if winner.isTombstone ∧ canPurgeTombstone config winner.timestamp now then
    { packing with metrics := { packing.metrics with tombstonesPurged := packing.metrics.tombstonesPurged + 1 } }
  else
    { records := packing.records ++ [{ winner.record with offset := baseOffset + packing.records.length }]
      minTs := if winner.timestamp < packing.minTs then winner.timestamp else packing.minTs
      maxTs := if packing.maxTs < winner.timestamp then winner.timestamp else packing.maxTs
      metrics := { packing.metrics with recordsOut := packing.metrics.recordsOut + 1 } }

def packBatch (config : CompactorConfig) (now : Int64) (metrics : CompactionMetrics) (first : WinningRecord)
    (chunk : List WinningRecord) : Packing :=
  chunk.foldl (packRecord config now first.latestOffset) { minTs := first.timestamp, maxTs := first.timestamp, metrics }

def Packing.finish (packing : Packing) (baseOffset : Int) : List RecordBatch × CompactionMetrics :=
  if packing.records = [] then ([], packing.metrics)
  else
    let batch : RecordBatch :=
      { baseOffset
        records := packing.records
        recordCount := Int32.ofNat packing.records.length
        baseTimestamp := packing.minTs
        maxTimestamp := packing.maxTs
        lastOffsetDelta := Int32.ofNat packing.records.length - 1
        compression := .none }
    ([batch], { packing.metrics with bytesOut := packing.metrics.bytesOut + batch.approximateSize })

def reservation (config : CompactorConfig) (remaining : Nat) : Int32 :=
  if Int32.ofNat remaining < maxPerBatch config then Int32.ofNat remaining else maxPerBatch config

def buildOutputBatches (config : CompactorConfig) (now : Int64) : Nat → List WinningRecord →
    CompactionMetrics → Option (List RecordBatch × CompactionMetrics)
  | 0, _, metrics | _ + 1, [], metrics => some ([], metrics)
  | fuel + 1, first :: rest, metrics =>
    if reservation config (first :: rest).length < 0 then none
    else
      let packing := packBatch config now metrics first ((first :: rest).take (batchSize config))
      let (batch, metrics) := packing.finish first.latestOffset
      match buildOutputBatches config now fuel ((first :: rest).drop (batchSize config)) metrics with
      | none => none
      | some (batches, metrics) => some (batch ++ batches, metrics)

structure CompactResult where
  compacted : List RecordBatch
  metrics : CompactionMetrics
deriving DecidableEq

def winners (compactor : Compactor) (combiner : CombinerFn) (now : Int64) (batches : List RecordBatch) :
    List WinningRecord :=
  (compactor.scan combiner now batches).winners.entries.map Sigma.snd

def pack (compactor : Compactor) (combiner : CombinerFn) (now : Int64) (batches : List RecordBatch)
    (sorted : List WinningRecord) : Option CompactResult :=
  if batches = [] then some { compacted := [], metrics := inputMetrics batches }
  else do
    let scan := compactor.scan combiner now batches
    let metrics := { scan.metrics with uniqueKeys := scan.winners.keys.length, lruEvictions := scan.index.evictions }
    let (compacted, metrics) ← buildOutputBatches compactor.config now sorted.length sorted metrics
    return { compacted, metrics }

/-- The outcomes of a compaction: the winners are taken out of a hash map and sorted by offset, which
leaves open how those of equal offset are ordered. -/
def Compacts (compactor : Compactor) (combiner : Option CombinerFn) (now : Int64) (batches : List RecordBatch)
    (outcome : Option CompactResult) : Prop :=
  ∃ sorted : List WinningRecord, sorted.Perm (compactor.winners (combiner.getD keepNewcomer) now batches) ∧
    (sorted.Pairwise fun left right => left.latestOffset ≤ right.latestOffset) ∧
    outcome = compactor.pack (combiner.getD keepNewcomer) now batches sorted

end Compactor

end TorrentMq.Storage
