import TorrentMq.Bytes.Basic
import TorrentMq.Collections.OrderedMap
import TorrentMq.Consensus.RaftLog
import TorrentMq.Runs.Basic

/-!
# The log on disk

A data file of framed batches, an index file with one record for every entry,
and a metadata file; in memory a map from log indices to the frames that hold
them. The index file is modelled by its records, the metadata file by its
fields. The background flush thread only repeats what a clean shutdown does.
-/

set_option autoImplicit false

namespace TorrentMq.Consensus

open Bytes

def kLogFrameMagic : Nat := 0x544C4146
def kMaxBatchEntries : Nat := 10000
def kMaxBatchBytes : Nat := 64 * 1024 * 1024

/-!
## Frames
-/

def RaftCommand.tag : RaftCommand → UInt8
  | .noOp => 0
  | .configChange _ => 1
  | .user _ => 2

def RaftCommand.serialize : RaftCommand → Bytes
  | .noOp => []
  | .configChange command =>
    (if command.jointConsensus then 1 else 0) ::
      (encode 4 command.oldMembers.length ++ (command.oldMembers.flatMap (encodeInt 8) ++
        (encode 4 command.newMembers.length ++ command.newMembers.flatMap (encodeInt 8))))
  | .user command => command.payload

def serializeEntry (entry : LogEntry) : Bytes :=
  encodeInt 8 entry.term ++ (encodeInt 8 entry.index ++ (entry.command.tag ::
    (encode 4 entry.command.serialize.length ++ entry.command.serialize)))

def serializeBatch (entries : List LogEntry) : Bytes := entries.flatMap serializeEntry

def frame (entries : List LogEntry) : Bytes :=
  encode 4 kLogFrameMagic ++ (encode 4 (crc32c (serializeBatch entries)).toNat ++
    (encode 4 entries.length ++ (encode 4 (serializeBatch entries).length ++ serializeBatch entries)))

def readMembers : Nat → Bytes → List RaftNodeId × Bytes
  | 0, bytes => ([], bytes)
  | count + 1, bytes =>
    let (member, bytes) := readInt 8 bytes
    let (members, bytes) := readMembers count bytes
    (member.bmod (256 ^ 4) :: members, bytes)

def readCommand (tag payloadSize : Nat) (bytes : Bytes) : RaftCommand :=
  if tag = 1 then
    let (joint, bytes) := readNat 1 bytes
    let (oldCount, bytes) := readNat 4 bytes
    let (oldMembers, bytes) := readMembers oldCount bytes
    let (newCount, bytes) := readNat 4 bytes
    let (newMembers, _) := readMembers newCount bytes
    .configChange {
      newMembers := newMembers
      jointConsensus := decide (joint ≠ 0)
      oldMembers := oldMembers }
  else if tag = 2 then .user { payload := bytes.take payloadSize }
  else .noOp

def readEntries : Nat → Bytes → List LogEntry
  | 0, _ => []
  | count + 1, bytes =>
    if bytes.isEmpty then []
    else
      let (term, bytes) := readInt 8 bytes
      let (index, bytes) := readInt 8 bytes
      let (tag, bytes) := readNat 1 bytes
      let (payloadSize, bytes) := readNat 4 bytes
      { term := term, index := index, command := readCommand tag payloadSize bytes } ::
        readEntries count (bytes.drop payloadSize)

def readBatch (data : Bytes) (offset : Nat) : List LogEntry :=
  let header := pread data offset 16
  if header.length ≠ 16 then []
  else
    let (magic, header) := readNat 4 header
    let (crc, header) := readNat 4 header
    let (count, header) := readNat 4 header
    let (total, _) := readNat 4 header
    if magic ≠ kLogFrameMagic then []
    else if count > kMaxBatchEntries ∨ total > kMaxBatchBytes then []
    else
      let bytes := pread data (offset + 16) total
      if bytes.length ≠ total then []
      else if (crc32c bytes).toNat ≠ crc then []
      else readEntries count bytes

/-!
## State
-/

/-- Where the batch of an entry is in the data file. -/
structure IndexEntry where
  index : Int := 0
  offset : Nat := 0
  term : Int := kNoTerm
  batchLength : Nat := 0
  deriving DecidableEq

structure IndexRecord where
  index : Int := 0
  offset : Nat := 0
  term : Int := kNoTerm
  deriving DecidableEq

structure LogMeta where
  firstIndex : Int
  lastIndex : Int
  snapshot : Option (Int × Int) := none
  deriving DecidableEq

/-- The files of a log, as they would be found after a crash. -/
structure LogFiles where
  data : Bytes := []
  records : List IndexRecord := []
  metadata : Option LogMeta := none
  deriving DecidableEq

/-- A log in memory, and its files. -/
structure DiskRaftLog where
  index : OrderedMap Int IndexEntry := .empty
  firstIndex : Int := 0
  lastIndex : Int := 0
  snapshot : Option RaftSnapshot := none
  dataFileSize : Nat := 0
  files : LogFiles := {}
  deriving DecidableEq

namespace DiskRaftLog

/-!
## Opening and closing
-/

def recoverIndex (records : List IndexRecord) : OrderedMap Int IndexEntry :=
  records.foldl (fun index record =>
    index.insert record.index
      { index := record.index, offset := record.offset, term := record.term }) .empty

def openOver (files : LogFiles) : DiskRaftLog :=
  let index := recoverIndex files.records
  let stored := files.metadata.getD { firstIndex := 1, lastIndex := 0 }
  { index := index
    firstIndex := (index.first?.map Prod.fst).getD stored.firstIndex
    lastIndex := (index.last?.map Prod.fst).getD stored.lastIndex
    dataFileSize := files.data.length
    files := files }

def writeMeta (log : DiskRaftLog) : DiskRaftLog :=
  { log with files := { log.files with metadata := some {
      firstIndex := log.firstIndex
      lastIndex := log.lastIndex
      snapshot := log.snapshot.map fun snapshot =>
        (snapshot.lastIncludedIndex, snapshot.lastIncludedTerm) } } }

def shutdown (log : DiskRaftLog) : LogFiles := log.writeMeta.files

/-!
## Reading
-/

def termAt (log : DiskRaftLog) (index : Int) : Int :=
  match log.snapshot with
  | some snapshot =>
    if index = snapshot.lastIncludedIndex then snapshot.lastIncludedTerm
    else ((log.index.find? index).map IndexEntry.term).getD kNoTerm
  | none => ((log.index.find? index).map IndexEntry.term).getD kNoTerm

def entryAt (log : DiskRaftLog) (index : Int) : Option LogEntry :=
  match log.index.find? index with
  | none => none
  | some stored => (readBatch log.files.data stored.offset).find? fun entry => decide (entry.index = index)

def getEntries (log : DiskRaftLog) (start stop : Int) : List LogEntry :=
  if start > stop ∨ start < log.firstIndex ∨ stop > log.lastIndex then []
  else if (log.index.find? start).isNone then []
  else
    (log.index.entries.filter fun indexed => decide (start ≤ indexed.1 ∧ indexed.1 ≤ stop)).flatMap
      fun indexed => (readBatch log.files.data indexed.2.offset).filter fun entry =>
        decide (start ≤ entry.index ∧ entry.index ≤ stop)

/-!
## Writing
-/

def truncateSuffixLocked (log : DiskRaftLog) (fromIndex : Int) : DiskRaftLog :=
  if fromIndex ≤ log.firstIndex then
    { log with
      index := .empty
      lastIndex := if fromIndex > 0 then fromIndex - 1 else 0
      firstIndex := fromIndex
      dataFileSize := 0
      files := { log.files with data := [], records := [] } }.writeMeta
  else
    let index := log.index.filter fun key => decide (key < fromIndex)
    let truncateOffset := (index.last?.map fun last => last.2.offset + last.2.batchLength).getD 0
    { log with
      index := index
      lastIndex := fromIndex - 1
      dataFileSize := truncateOffset
      files := { log.files with
        data := ftruncate log.files.data truncateOffset
        records := log.files.records.take index.size ++
          List.replicate (index.size - log.files.records.length) ({} : IndexRecord) } }.writeMeta

def truncateSuffix (log : DiskRaftLog) (fromIndex : Int) : DiskRaftLog :=
  log.truncateSuffixLocked fromIndex

def truncatePrefix (log : DiskRaftLog) (firstIndex : Int) : DiskRaftLog :=
  if firstIndex ≤ log.firstIndex then log
  else
    { log with
      index := log.index.filter fun key => decide (firstIndex ≤ key)
      firstIndex := firstIndex
      lastIndex := if firstIndex > log.lastIndex then firstIndex - 1 else log.lastIndex }.writeMeta

def applySnapshot (log : DiskRaftLog) (snapshot : RaftSnapshot) : DiskRaftLog :=
  if !snapshot.isValid then log
  else
    let index := log.index.filter fun key => decide (snapshot.lastIncludedIndex < key)
    let log := { log with
      index := index
      snapshot := some snapshot
      firstIndex := snapshot.lastIncludedIndex + 1
      lastIndex := if index.entries.isEmpty then snapshot.lastIncludedIndex else log.lastIndex }.writeMeta
    if index.entries.isEmpty then
      { log with dataFileSize := 0, files := { log.files with data := [] } }
    else log

def indexBatch (index : OrderedMap Int IndexEntry) (offset length : Nat) (entries : List LogEntry) :
    OrderedMap Int IndexEntry :=
  entries.foldl (fun index entry => index.insert entry.index {
    index := entry.index
    offset := offset
    term := entry.term
    batchLength := length }) index

/-- The log after a batch was written in full. The data file is opened for
appending, so the batch goes to its end. -/
def writeBatch (log : DiskRaftLog) (first : LogEntry) (rest : List LogEntry) : DiskRaftLog :=
  let bytes := frame (first :: rest)
  { log with
    index := indexBatch log.index log.dataFileSize bytes.length (first :: rest)
    firstIndex :=
      if log.firstIndex = 0 ∨ first.index < log.firstIndex then first.index else log.firstIndex
    lastIndex := ((first :: rest).getLast (List.cons_ne_nil first rest)).index
    dataFileSize := log.dataFileSize + bytes.length
    files := { log.files with
      data := log.files.data ++ bytes
      records := log.files.records ++ (first :: rest).map fun entry =>
        { index := entry.index, offset := log.dataFileSize, term := entry.term } } }

def cutBehind (log : DiskRaftLog) (prevLogIndex : Int) : DiskRaftLog :=
  if prevLogIndex < log.lastIndex then log.truncateSuffixLocked (prevLogIndex + 1) else log

/-- Appends behind a previous entry and returns the first new index. A short
write leaves so many bytes of the batch in the data file. -/
def append (log : DiskRaftLog) (shortWrite : Option Nat) (prevLogIndex prevLogTerm : Int)
    (entries : List LogEntry) : DiskRaftLog × Int :=
  match entries with
  | [] => (log, log.lastIndex)
  | first :: rest =>
    if prevLogIndex > 0 ∧
        (log.termAt prevLogIndex = kNoTerm ∨ log.termAt prevLogIndex ≠ prevLogTerm) then
      (log, kNoLogIndex)
    else
      let log := log.cutBehind prevLogIndex
      if (serializeBatch (first :: rest)).length > kMaxBatchBytes then (log, kNoLogIndex)
      else
        match shortWrite with
        | some written =>
          ({ log with files := { log.files with
            data := log.files.data ++ (frame (first :: rest)).take written } }, kNoLogIndex)
        | none => (log.writeBatch first rest, first.index)

end DiskRaftLog

instance : RaftLog DiskRaftLog where
  firstIndex := DiskRaftLog.firstIndex
  lastIndex := DiskRaftLog.lastIndex
  entryCount log := log.index.size
  termAt := DiskRaftLog.termAt
  getEntries := DiskRaftLog.getEntries
  entryAt := DiskRaftLog.entryAt
  append log prevLogIndex prevLogTerm entries := log.append none prevLogIndex prevLogTerm entries
  truncateSuffix := DiskRaftLog.truncateSuffix
  truncatePrefix := DiskRaftLog.truncatePrefix
  applySnapshot := DiskRaftLog.applySnapshot

/-!
## Sessions
-/

inductive DiskLogCall where
  | append (prevLogIndex prevLogTerm : Int) (entries : List LogEntry)
  | truncateSuffix (fromIndex : Int)
  | truncatePrefix (firstIndex : Int)
  | applySnapshot (snapshot : RaftSnapshot)
  deriving DecidableEq

namespace DiskRaftLog

def step (log : DiskRaftLog) : DiskLogCall → DiskRaftLog
  | .append prevLogIndex prevLogTerm entries => (log.append none prevLogIndex prevLogTerm entries).1
  | .truncateSuffix fromIndex => log.truncateSuffix fromIndex
  | .truncatePrefix firstIndex => log.truncatePrefix firstIndex
  | .applySnapshot snapshot => log.applySnapshot snapshot

def run (log : DiskRaftLog) (calls : List DiskLogCall) : DiskRaftLog := Runs.run step log calls

def fresh : DiskRaftLog := openOver {}

/-- Every call of a session meets a condition on the log before it. -/
abbrev CallsMeet (condition : DiskRaftLog → DiskLogCall → Prop) (log : DiskRaftLog)
    (calls : List DiskLogCall) : Prop := Runs.Meets step condition log calls

end DiskRaftLog

end TorrentMq.Consensus
