import TorrentMq.Consensus.RaftSnapshotFile

/-!
# Snapshot transfers

Snapshot files go to other nodes in chunks: what the leader keeps for every
peer, and how a follower puts the chunks together again.
-/

set_option autoImplicit false

namespace TorrentMq.Consensus

/-!
## Sending
-/

structure TransferProgress where
  peerId : RaftNodeId
  snapshotPath : String
  totalSize : Nat := 0
  bytesSent : Nat := 0
  chunksSent : Nat := 0
  chunksTotal : Nat := 0
  completed : Bool := false
  failed : Bool := false
  error : String := ""
  deriving DecidableEq

def TransferProgress.active (tp : TransferProgress) : Bool := !tp.completed && !tp.failed

inductive FileRead where
  | notOpened
  | notRead
  | contents (bytes : Bytes)
  deriving DecidableEq

structure ChunkHeader where
  term : Int
  leaderId : RaftNodeId
  lastIncludedIndex : Int
  lastIncludedTerm : Int
  deriving DecidableEq

structure SnapshotTransferManager where
  chunkSize : Nat := 1024 * 1024
  maxConcurrent : Nat := 4
  transfers : AList (fun _ : RaftNodeId => TransferProgress) := ∅
  snapshotFiles : AList (fun _ : RaftNodeId => Bytes) := ∅

namespace SnapshotTransferManager

def activeCount (manager : SnapshotTransferManager) : Nat :=
  (manager.transfers.entries.filter fun entry => entry.2.active).length

def markFailed (manager : SnapshotTransferManager) (peerId : RaftNodeId) (error : String) :
    SnapshotTransferManager :=
  match manager.transfers.lookup peerId with
  | none => manager
  | some tp => { manager with transfers := manager.transfers.insert peerId { tp with failed := true, error } }

def cleanup (manager : SnapshotTransferManager) (peerId : RaftNodeId) : SnapshotTransferManager :=
  { manager with
    transfers := manager.transfers.erase peerId
    snapshotFiles := manager.snapshotFiles.erase peerId }

def cleanupAll (manager : SnapshotTransferManager) : SnapshotTransferManager :=
  { manager with transfers := ∅, snapshotFiles := ∅ }

def loadSnapshotFile (manager : SnapshotTransferManager) (path : String) (peerId : RaftNodeId) (file : FileRead) :
    SnapshotTransferManager :=
  match file with
  | .notOpened => manager.markFailed peerId ("cannot open file: " ++ path)
  | .notRead =>
    { manager.markFailed peerId ("failed to read file: " ++ path) with
      snapshotFiles := manager.snapshotFiles.insert peerId [] }
  | .contents bytes => { manager with snapshotFiles := manager.snapshotFiles.insert peerId bytes }

def startTransfer (manager : SnapshotTransferManager) (peerId : RaftNodeId) (snapshot : RaftSnapshot)
    (file : FileRead) : SnapshotTransferManager × Bool :=
  if manager.maxConcurrent ≤ manager.activeCount then (manager, false)
  else if (manager.transfers.lookup peerId).any TransferProgress.active then (manager, false)
  else
    let tp : TransferProgress := {
      peerId
      snapshotPath := snapshot.filePath
      totalSize := snapshot.fileSizeBytes
      chunksTotal := (snapshot.fileSizeBytes + manager.chunkSize - 1) % 2 ^ 64 / manager.chunkSize }
    let registered := { manager with transfers := manager.transfers.insert peerId tp }
    (registered.loadSnapshotFile snapshot.filePath peerId file, true)

def fileData (manager : SnapshotTransferManager) (peerId : RaftNodeId) : Bytes :=
  (manager.snapshotFiles.lookup peerId).getD []

def chunkLen (manager : SnapshotTransferManager) (tp : TransferProgress) (offset : Nat) : Nat :=
  min (tp.totalSize - offset) manager.chunkSize

def request (manager : SnapshotTransferManager) (peerId : RaftNodeId) (tp : TransferProgress) (header : ChunkHeader)
    (offset : Nat) : InstallSnapshotRequest where
  term := header.term
  leaderId := header.leaderId
  lastIncludedIndex := header.lastIncludedIndex
  lastIncludedTerm := header.lastIncludedTerm
  offset := offset
  data := ((manager.fileData peerId).drop offset).take (manager.chunkLen tp offset)
  done := decide (tp.totalSize ≤ offset + manager.chunkLen tp offset)

def nextChunk (manager : SnapshotTransferManager) (peerId : RaftNodeId) (header : ChunkHeader) :
    SnapshotTransferManager × Option InstallSnapshotRequest :=
  match manager.transfers.lookup peerId with
  | none => (manager, none)
  | some tp =>
    if tp.completed || tp.failed then (manager, none)
    else if (manager.fileData peerId).isEmpty then
      (manager.markFailed peerId "snapshot file not loaded", none)
    else
      let offset := tp.bytesSent
      let req := manager.request peerId tp header offset
      let tp := {
        tp with
        bytesSent := tp.bytesSent + manager.chunkLen tp offset
        chunksSent := tp.chunksSent + 1
        completed := req.done }
      ({ manager with transfers := manager.transfers.insert peerId tp }, some req)

def resendLastChunk (manager : SnapshotTransferManager) (peerId : RaftNodeId) (header : ChunkHeader) :
    Option InstallSnapshotRequest :=
  match manager.transfers.lookup peerId with
  | none => none
  | some tp =>
    if tp.completed || tp.failed then none
    else if (manager.fileData peerId).isEmpty then none
    else
      let offset := if 0 < tp.chunksSent then tp.bytesSent - min manager.chunkSize tp.bytesSent else 0
      some (manager.request peerId tp header offset)

end SnapshotTransferManager

/-!
## Calls
-/

inductive TransferCall where
  | startTransfer (peerId : RaftNodeId) (snapshot : RaftSnapshot) (file : FileRead)
  | nextChunk (peerId : RaftNodeId) (header : ChunkHeader)
  | resendLastChunk (peerId : RaftNodeId) (header : ChunkHeader)
  | markFailed (peerId : RaftNodeId) (error : String)
  | cleanup (peerId : RaftNodeId)
  | cleanupAll
  deriving DecidableEq

def SnapshotTransferManager.step (manager : SnapshotTransferManager) : TransferCall → SnapshotTransferManager
  | .startTransfer peerId snapshot file => (manager.startTransfer peerId snapshot file).1
  | .nextChunk peerId header => (manager.nextChunk peerId header).1
  | .resendLastChunk _ _ => manager
  | .markFailed peerId error => manager.markFailed peerId error
  | .cleanup peerId => manager.cleanup peerId
  | .cleanupAll => manager.cleanupAll

/-!
## Receiving
-/

inductive AssemblerState where
  | idle
  | receiving
  | complete
  | failed
  deriving DecidableEq

structure SnapshotAssembler where
  snapshotDir : String
  state : AssemblerState := .idle
  buffer : Bytes := []
  bytesReceived : Nat := 0
  expectedLastIndex : Int := 0
  expectedLastTerm : Int := kNoTerm
  errorMsg : String := ""
  resultSnapshot : Option RaftSnapshot := none
  deriving DecidableEq

namespace SnapshotAssembler

/-- While it is receiving, it locks its own mutex a second time in order to reset itself, and does
not return. -/
def beginSnapshot (assembler : SnapshotAssembler) (lastIncludedIndex lastIncludedTerm : Int) :
    Option SnapshotAssembler :=
  if assembler.state = .receiving then none
  else
    some {
      assembler with
      state := .receiving
      expectedLastIndex := lastIncludedIndex
      expectedLastTerm := lastIncludedTerm
      buffer := []
      bytesReceived := 0 }

def validateAndPersist (assembler : SnapshotAssembler) (disk : SnapshotSerializer.DiskOutcome) :
    SnapshotAssembler × Bool :=
  let parsed := SnapshotDeserializer.parse assembler.buffer
  if !parsed.valid then
    ({ assembler with errorMsg := "snapshot validation failed (CRC or parse error)" }, false)
  else if parsed.lastIncludedIndex ≠ assembler.expectedLastIndex ∨
      parsed.lastIncludedTerm ≠ assembler.expectedLastTerm then
    ({ assembler with errorMsg := "parsed metadata doesn't match expected values" }, false)
  else
    match SnapshotSerializer.create assembler.snapshotDir parsed.lastIncludedIndex parsed.lastIncludedTerm
        parsed.membership parsed.stateData parsed.createdAtMs disk with
    | none => ({ assembler with errorMsg := "failed to persist snapshot to disk" }, false)
    | some snap => ({ assembler with resultSnapshot := some snap }, true)

def receiveChunk (assembler : SnapshotAssembler) (req : InstallSnapshotRequest)
    (disk : SnapshotSerializer.DiskOutcome) : SnapshotAssembler × Bool :=
  if assembler.state ≠ .receiving then (assembler, false)
  else if req.offset ≠ assembler.bytesReceived then
    ({ assembler with state := .failed, errorMsg := "offset mismatch" }, false)
  else if req.lastIncludedIndex ≠ assembler.expectedLastIndex ∨
      req.lastIncludedTerm ≠ assembler.expectedLastTerm then
    ({ assembler with state := .failed, errorMsg := "metadata mismatch" }, false)
  else
    let appended := {
      assembler with
      buffer := assembler.buffer ++ req.data
      bytesReceived := assembler.bytesReceived + req.data.length }
    if req.done then
      let (validated, ok) := appended.validateAndPersist disk
      ({ validated with state := if ok then .complete else .failed }, true)
    else (appended, true)

end SnapshotAssembler

end TorrentMq.Consensus
