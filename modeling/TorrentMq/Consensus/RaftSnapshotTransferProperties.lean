import TorrentMq.Collections.Pieces
import TorrentMq.Consensus.RaftSnapshotTransfer
import TorrentMq.Runs.Basic

/-!
# Chunks that make up a snapshot

The chunks that a peer is sent are the pieces of the file in their order,
whatever is sent to other peers in between, and a follower that is fed them
ends with the file.
-/

set_option autoImplicit false

namespace TorrentMq.Consensus

open Collections List Option SnapshotTransferManager Nat

def ChunkHeader.chunk (header : ChunkHeader) (file : Bytes) (chunkSize index : Nat) : InstallSnapshotRequest where
  term := header.term
  leaderId := header.leaderId
  lastIncludedIndex := header.lastIncludedIndex
  lastIncludedTerm := header.lastIncludedTerm
  offset := index * chunkSize
  data := piece file chunkSize index
  done := decide (file.length ≤ (index + 1) * chunkSize)

section Sending

variable {peer : RaftNodeId} {file : Bytes} {chunkSize sent : Nat} {manager : SnapshotTransferManager}

structure Serving (peer : RaftNodeId) (file : Bytes) (chunkSize sent : Nat)
    (manager : SnapshotTransferManager) : Prop where
  size : manager.chunkSize = chunkSize
  loaded : manager.snapshotFiles.lookup peer = some file
  progress : ∃ tp, manager.transfers.lookup peer = some tp ∧ tp.totalSize = file.length ∧
    tp.bytesSent = min (sent * chunkSize) file.length ∧ tp.chunksSent = sent ∧ tp.failed = false ∧
    tp.completed = decide (file.length ≤ sent * chunkSize)

section

variable (serving : Serving peer file chunkSize sent manager)
include serving

theorem Serving.fileData : manager.fileData peer = file := by
  rw [SnapshotTransferManager.fileData, serving.loaded, getD_some]

theorem Serving.request {tp : TransferProgress}
    (total : tp.totalSize = file.length) (header : ChunkHeader) {index : Nat} (inside : index * chunkSize < file.length) :
    manager.request peer tp header (index * chunkSize) = header.chunk file chunkSize index := by
  have ends : decide (file.length ≤ index * chunkSize + min (file.length - index * chunkSize) chunkSize) =
      decide (file.length ≤ (index + 1) * chunkSize) := by
    rw [decide_eq_decide, succ_mul]
    omega
  simp only [SnapshotTransferManager.request, SnapshotTransferManager.chunkLen, ChunkHeader.chunk, serving.fileData,
    serving.size, total, take_min_eq_piece, ends]

theorem Serving.nextChunk (header : ChunkHeader) (inside : sent * chunkSize < file.length) :
    (manager.nextChunk peer header).2 = some (header.chunk file chunkSize sent) ∧
      Serving peer file chunkSize (sent + 1) (manager.nextChunk peer header).1 := by
  obtain ⟨tp, found, total, bytes, chunks, failed, completed⟩ := serving.progress
  have filled : file ≠ [] := ne_nil_of_length_pos (by omega)
  have offset : tp.bytesSent = sent * chunkSize := by omega
  have open_ : tp.completed = false := by
    rw [completed]
    exact decide_eq_false (by omega)
  have request := serving.request total header inside
  unfold SnapshotTransferManager.nextChunk
  rw [found]
  dsimp only
  rw [open_, failed, if_neg (by decide), serving.fileData, if_neg (by rw [List.isEmpty_iff]; exact filled), offset,
    request]
  refine ⟨rfl, serving.size, serving.loaded, _, AList.lookup_insert _, total, ?_, ?_, rfl, rfl⟩
  · dsimp only
    rw [SnapshotTransferManager.chunkLen, serving.size, total, succ_mul]
    omega
  · dsimp only
    rw [chunks]

theorem Serving.nextChunk_none (header : ChunkHeader)
    (beyond : file.length ≤ sent * chunkSize) : manager.nextChunk peer header = (manager, none) := by
  obtain ⟨tp, found, -, -, -, -, completed⟩ := serving.progress
  have closed : tp.completed = true := by
    rw [completed]
    exact decide_eq_true beyond
  unfold SnapshotTransferManager.nextChunk
  rw [found]
  dsimp only
  rw [closed, Bool.true_or, if_pos rfl]

end

theorem Serving.resendLastChunk (serving : Serving peer file chunkSize (sent + 1) manager) (header : ChunkHeader)
    (inside : (sent + 1) * chunkSize < file.length) :
    manager.resendLastChunk peer header = some (header.chunk file chunkSize sent) := by
  obtain ⟨tp, found, total, bytes, chunks, failed, completed⟩ := serving.progress
  have filled : file ≠ [] := ne_nil_of_length_pos (by omega)
  rw [succ_mul] at bytes inside
  have open_ : tp.completed = false := by
    rw [completed, succ_mul]
    exact decide_eq_false (by omega)
  have offset : tp.bytesSent - min chunkSize tp.bytesSent = sent * chunkSize := by omega
  have request := serving.request total header (by omega : sent * chunkSize < file.length)
  unfold SnapshotTransferManager.resendLastChunk
  rw [found]
  dsimp only
  rw [open_, failed, if_neg (by decide), serving.fileData, if_neg (by rw [List.isEmpty_iff]; exact filled),
    serving.size, chunks, if_pos (succ_pos sent), offset, request]

structure SameFor (peer : RaftNodeId) (manager other : SnapshotTransferManager) : Prop where
  size : other.chunkSize = manager.chunkSize
  transfer : other.transfers.lookup peer = manager.transfers.lookup peer
  loaded : other.snapshotFiles.lookup peer = manager.snapshotFiles.lookup peer

theorem Serving.same {other : SnapshotTransferManager} (serving : Serving peer file chunkSize sent manager)
    (same : SameFor peer manager other) : Serving peer file chunkSize sent other where
  size := same.size.trans serving.size
  loaded := same.loaded.trans serving.loaded
  progress := by
    obtain ⟨tp, found, rest⟩ := serving.progress
    exact ⟨tp, same.transfer.trans found, rest⟩

variable {other : RaftNodeId}

section

variable (different : peer ≠ other)

include different

theorem sameFor_markFailed (error : String) :
    SameFor peer manager (manager.markFailed other error) := by
  unfold markFailed
  split
  · exact ⟨rfl, rfl, rfl⟩
  · exact ⟨rfl, AList.lookup_insert_ne different, rfl⟩

theorem sameFor_loadSnapshotFile (path : String) (read : FileRead) :
    SameFor peer manager (manager.loadSnapshotFile path other read) := by
  cases read with
  | notOpened => exact sameFor_markFailed different _
  | notRead =>
    have failed := @sameFor_markFailed peer manager other different ("failed to read file: " ++ path)
    exact ⟨failed.size, failed.transfer, AList.lookup_insert_ne different⟩
  | contents bytes => exact ⟨rfl, rfl, AList.lookup_insert_ne different⟩

theorem sameFor_startTransfer (snapshot : RaftSnapshot)
    (read : FileRead) : SameFor peer manager (manager.startTransfer other snapshot read).1 := by
  unfold startTransfer
  split
  · exact ⟨rfl, rfl, rfl⟩
  · split
    · exact ⟨rfl, rfl, rfl⟩
    · obtain ⟨size, transfer, stored⟩ := @sameFor_loadSnapshotFile peer _ other different snapshot.filePath read
      exact ⟨size, transfer.trans (AList.lookup_insert_ne different), stored⟩

theorem sameFor_nextChunk (header : ChunkHeader) :
    SameFor peer manager (manager.nextChunk other header).1 := by
  unfold nextChunk
  split
  · exact ⟨rfl, rfl, rfl⟩
  · split
    · exact ⟨rfl, rfl, rfl⟩
    · split
      · exact sameFor_markFailed different _
      · exact ⟨rfl, AList.lookup_insert_ne different, rfl⟩

end

def TransferCall.Serves (peer : RaftNodeId) (lastIncludedIndex lastIncludedTerm : Int) : TransferCall → Prop
  | .nextChunk other header =>
    peer = other → header.lastIncludedIndex = lastIncludedIndex ∧ header.lastIncludedTerm = lastIncludedTerm
  | .resendLastChunk _ _ => True
  | .startTransfer other _ _ | .markFailed other _ | .cleanup other => peer ≠ other
  | .cleanupAll => False

def TransferCall.headerFor (peer : RaftNodeId) : TransferCall → Option ChunkHeader
  | .nextChunk other header => if peer = other then some header else none
  | _ => none

def chunksTo (peer : RaftNodeId) (manager : SnapshotTransferManager) :
    List TransferCall → List (Option InstallSnapshotRequest)
  | [] => []
  | call :: calls =>
    match call.headerFor peer with
    | none => chunksTo peer (manager.step call) calls
    | some header => (manager.nextChunk peer header).2 :: chunksTo peer (manager.step call) calls

theorem headerFor_eq_some {call : TransferCall} {header : ChunkHeader} :
    call.headerFor peer = some header ↔ call = .nextChunk peer header := by
  cases call with
  | nextChunk other otherHeader =>
    by_cases same : peer = other
    · simp [TransferCall.headerFor, same]
    · simp [TransferCall.headerFor, same, Ne.symm same]
  | _ => simp [TransferCall.headerFor]

variable {lastIncludedIndex lastIncludedTerm : Int}

theorem sameFor_step {call : TransferCall} (serves : call.Serves peer lastIncludedIndex lastIncludedTerm)
    (other : call.headerFor peer = none) : SameFor peer manager (manager.step call) := by
  cases call with
  | startTransfer _ snapshot read => exact sameFor_startTransfer serves snapshot read
  | nextChunk receiver header =>
    refine sameFor_nextChunk ?_ header
    rintro rfl
    rw [headerFor_eq_some.mpr rfl] at other
    cases other
  | resendLastChunk _ _ => exact ⟨rfl, rfl, rfl⟩
  | markFailed _ error => exact sameFor_markFailed serves error
  | cleanup receiver => exact ⟨rfl, AList.lookup_erase_ne serves, AList.lookup_erase_ne serves⟩
  | cleanupAll => exact serves.elim

section

variable {calls : List TransferCall} (positive : 0 < chunkSize)
  (serves : ∀ call ∈ calls, call.Serves peer lastIncludedIndex lastIncludedTerm)
  (serving : Serving peer file chunkSize sent manager) (upper : sent ≤ pieces file chunkSize)
include positive serves serving upper

theorem Serving.run : Serving peer file chunkSize
      (min (sent + (calls.filterMap (TransferCall.headerFor peer)).length) (pieces file chunkSize))
      (Runs.run step manager calls) := by
  induction calls generalizing manager sent with
  | nil =>
    rw [filterMap_nil, length_nil, add_zero, min_eq_left upper]
    exact serving
  | cons call calls ih =>
    obtain ⟨first, rest⟩ := forall_mem_cons.mp serves
    rw [Runs.run_cons]
    cases found : call.headerFor peer with
    | none =>
      rw [filterMap_cons_none found]
      exact ih rest (serving.same (sameFor_step first found)) upper
    | some header =>
      rw [filterMap_cons_some found, length_cons]
      have same := headerFor_eq_some.mp found
      rw [same, step]
      rcases lt_or_ge sent (pieces file chunkSize) with inside | beyond
      · obtain ⟨-, after⟩ := serving.nextChunk header ((lt_pieces_iff file positive).mp inside)
        have further := ih rest after inside
        rwa [add_right_comm, add_assoc] at further
      · rw [serving.nextChunk_none header (not_lt.mp fun inside =>
          not_lt.mpr beyond ((lt_pieces_iff file positive).mpr inside))]
        have further := ih rest serving upper
        rw [min_eq_right (by omega)] at further ⊢
        exact further

theorem Serving.chunksTo :
    chunksTo peer manager calls = (calls.filterMap (TransferCall.headerFor peer)).mapIdx fun index header =>
      if index < pieces file chunkSize - sent then some (header.chunk file chunkSize (sent + index)) else none := by
  induction calls generalizing manager sent with
  | nil => rfl
  | cons call calls ih =>
    obtain ⟨first, rest⟩ := forall_mem_cons.mp serves
    cases found : call.headerFor peer with
    | none =>
      rw [filterMap_cons_none found, Consensus.chunksTo, found]
      exact ih rest (serving.same (sameFor_step first found)) upper
    | some header =>
      rw [filterMap_cons_some found, Consensus.chunksTo, found, mapIdx_cons]
      have same := headerFor_eq_some.mp found
      rw [same, step]
      dsimp only
      rcases lt_or_ge sent (pieces file chunkSize) with inside | beyond
      · obtain ⟨result, after⟩ := serving.nextChunk header ((lt_pieces_iff file positive).mp inside)
        rw [result, ih rest after inside, if_pos (by omega), add_zero]
        congr 1
        apply mapIdx_eq_mapIdx_iff.mpr
        intro index _
        rw [add_assoc, add_comm 1 index]
        exact if_congr (by omega) rfl rfl
      · rw [serving.nextChunk_none header (not_lt.mp fun inside =>
          not_lt.mpr beyond ((lt_pieces_iff file positive).mpr inside)), ih rest serving upper,
          if_neg (by omega)]
        congr 1
        apply mapIdx_eq_mapIdx_iff.mpr
        intro index _
        rw [if_neg (by omega), if_neg (by omega)]

end

theorem serving_startTransfer {started : SnapshotTransferManager} {snapshot : RaftSnapshot} (nonempty : file ≠ [])
    (size : snapshot.fileSizeBytes = file.length)
    (success : manager.startTransfer peer snapshot (.contents file) = (started, true)) :
    Serving peer file manager.chunkSize 0 started := by
  have filled := length_pos_iff.mpr nonempty
  unfold startTransfer at success
  split at success
  · cases success
  · split at success
    · cases success
    · cases success
      refine ⟨rfl, AList.lookup_insert _, _, AList.lookup_insert _, size, ?_, rfl, rfl, ?_⟩
      · rw [Nat.zero_mul, Nat.zero_min]
      · rw [Nat.zero_mul]
        exact (decide_eq_false (by omega)).symm

end Sending

section Receiving

variable {file : Bytes} {chunkSize received : Nat} {lastIncludedIndex lastIncludedTerm : Int}
  {assembler : SnapshotAssembler}

def feed (disk : SnapshotSerializer.DiskOutcome) (assembler : SnapshotAssembler)
    (requests : List InstallSnapshotRequest) : SnapshotAssembler :=
  requests.foldl (fun assembler request => (assembler.receiveChunk request disk).1) assembler

/-- So many chunks of a file have arrived, and the next one is waited for. -/
structure Receiving (file : Bytes) (chunkSize : Nat) (lastIncludedIndex lastIncludedTerm : Int) (received : Nat)
    (assembler : SnapshotAssembler) : Prop where
  state : assembler.state = .receiving
  buffer : assembler.buffer = file.take (received * chunkSize)
  bytes : assembler.bytesReceived = received * chunkSize
  index : assembler.expectedLastIndex = lastIncludedIndex
  term : assembler.expectedLastTerm = lastIncludedTerm

theorem receiving_beginSnapshot (file : Bytes) (chunkSize : Nat) (lastIncludedIndex lastIncludedTerm : Int)
    (vacant : assembler.state ≠ .receiving) :
    ∃ begun, assembler.beginSnapshot lastIncludedIndex lastIncludedTerm = some begun ∧
      Receiving file chunkSize lastIncludedIndex lastIncludedTerm 0 begun := by
  rw [SnapshotAssembler.beginSnapshot, if_neg vacant]
  refine ⟨_, rfl, rfl, ?_, (zero_mul chunkSize).symm, rfl, rfl⟩
  rw [zero_mul, take_zero]

theorem buffer_validateAndPersist (assembler : SnapshotAssembler) (disk : SnapshotSerializer.DiskOutcome) :
    (assembler.validateAndPersist disk).1.buffer = assembler.buffer := by
  unfold SnapshotAssembler.validateAndPersist
  dsimp only
  split
  · rfl
  · split
    · rfl
    · split <;> rfl

theorem Receiving.receiveChunk
    (receiving : Receiving file chunkSize lastIncludedIndex lastIncludedTerm received assembler) {header : ChunkHeader}
    (index : header.lastIncludedIndex = lastIncludedIndex) (term : header.lastIncludedTerm = lastIncludedTerm)
    (disk : SnapshotSerializer.DiskOutcome) :
    (assembler.receiveChunk (header.chunk file chunkSize received) disk).1.buffer =
        file.take ((received + 1) * chunkSize) ∧
      ((received + 1) * chunkSize < file.length →
        Receiving file chunkSize lastIncludedIndex lastIncludedTerm (received + 1)
          (assembler.receiveChunk (header.chunk file chunkSize received) disk).1) := by
  have appended : assembler.buffer ++ (header.chunk file chunkSize received).data =
      file.take ((received + 1) * chunkSize) := by
    rw [receiving.buffer, take_succ_mul, ChunkHeader.chunk]
  have offset : (header.chunk file chunkSize received).offset = assembler.bytesReceived := receiving.bytes.symm
  have metadata : ¬((header.chunk file chunkSize received).lastIncludedIndex ≠ assembler.expectedLastIndex ∨
      (header.chunk file chunkSize received).lastIncludedTerm ≠ assembler.expectedLastTerm) := by
    rw [receiving.index, receiving.term, not_or]
    exact ⟨not_not_intro index, not_not_intro term⟩
  unfold SnapshotAssembler.receiveChunk
  rw [if_neg (not_not_intro receiving.state), if_neg (not_not_intro offset), if_neg metadata]
  dsimp only
  rw [appended]
  by_cases done : (header.chunk file chunkSize received).done = true
  · rw [if_pos done]
    refine ⟨buffer_validateAndPersist _ disk, fun inside => ?_⟩
    exact absurd (of_decide_eq_true done) (not_le.mpr inside)
  · rw [if_neg done]
    refine ⟨rfl, fun inside => ⟨receiving.state, rfl, ?_, receiving.index, receiving.term⟩⟩
    have length : (header.chunk file chunkSize received).data.length = chunkSize := length_piece_of_lt inside
    dsimp only
    rw [receiving.bytes, length, succ_mul]

theorem Receiving.feed {headers : List ChunkHeader} (positive : 0 < chunkSize)
    (receiving : Receiving file chunkSize lastIncludedIndex lastIncludedTerm received assembler)
    (same : ∀ header ∈ headers,
      header.lastIncludedIndex = lastIncludedIndex ∧ header.lastIncludedTerm = lastIncludedTerm)
    (inside : received + headers.length ≤ pieces file chunkSize) (disk : SnapshotSerializer.DiskOutcome) :
    (feed disk assembler (headers.mapIdx fun i header => header.chunk file chunkSize (received + i))).buffer =
      file.take ((received + headers.length) * chunkSize) := by
  induction headers generalizing received assembler with
  | nil => exact receiving.buffer
  | cons header headers ih =>
    obtain ⟨first, rest⟩ := forall_mem_cons.mp same
    obtain ⟨buffer, next⟩ := receiving.receiveChunk first.1 first.2 disk
    rw [length_cons] at inside
    rw [mapIdx_cons, Consensus.feed, foldl_cons, add_zero, length_cons]
    cases headers with
    | nil => exact buffer
    | cons second headers =>
      rw [length_cons] at inside
      have more : (received + 1) * chunkSize < file.length :=
        (lt_pieces_iff file positive).mp (by omega)
      have further := ih (next more) rest (by rw [length_cons]; omega)
      rw [add_right_comm, add_assoc] at further
      rw [← further, Consensus.feed]
      congr 2
      apply mapIdx_eq_mapIdx_iff.mpr
      intro i _
      rw [add_assoc, add_comm 1 i]

end Receiving

/-- Chunks that follow on each other from the front of a file, only the last of them marked as done. All
together put the file in the buffer of any follower that is not receiving another one. -/
structure Streams (file : Bytes) (chunkSize : Nat) (lastIncludedIndex lastIncludedTerm : Int)
    (requests : List InstallSnapshotRequest) : Prop where
  starts : ∀ first ∈ requests.head?, first.offset = 0
  contiguous : ∀ i earlier later, requests[i]? = some earlier → requests[i + 1]? = some later →
    later.offset = earlier.offset + earlier.data.length
  last : ∀ i request, requests[i]? = some request → (request.done = true ↔ i + 1 = pieces file chunkSize)
  assembled : requests.length = pieces file chunkSize → ∀ (assembler : SnapshotAssembler) disk,
    assembler.state ≠ .receiving → ∃ begun, assembler.beginSnapshot lastIncludedIndex lastIncludedTerm = some begun ∧
      (feed disk begun requests).buffer = file

theorem streams_chunks {file : Bytes} {chunkSize : Nat} (positive : 0 < chunkSize)
    {lastIncludedIndex lastIncludedTerm : Int} {headers : List ChunkHeader}
    (same : ∀ header ∈ headers,
      header.lastIncludedIndex = lastIncludedIndex ∧ header.lastIncludedTerm = lastIncludedTerm)
    (inside : headers.length ≤ pieces file chunkSize) :
    Streams file chunkSize lastIncludedIndex lastIncludedTerm
      (headers.mapIdx fun i header => header.chunk file chunkSize i) where
  starts := by
    cases headers with
    | nil => exact fun first member => by cases member
    | cons header headers =>
      rw [mapIdx_cons, head?_cons]
      rintro first ⟨⟩
      exact zero_mul chunkSize
  contiguous := by
    intro i earlier later first second
    rw [getElem?_mapIdx, map_eq_some_iff] at first second
    obtain ⟨_, _, rfl⟩ := first
    obtain ⟨_, position, rfl⟩ := second
    have bound := (List.getElem?_eq_some_iff.mp position).1
    have full := (lt_pieces_iff file positive).mp (bound.trans_le inside)
    dsimp only [ChunkHeader.chunk]
    rw [length_piece_of_lt full, succ_mul]
  last := by
    intro i request found
    rw [getElem?_mapIdx, map_eq_some_iff] at found
    obtain ⟨_, position, rfl⟩ := found
    have bound := (List.getElem?_eq_some_iff.mp position).1
    have following := @lt_pieces_iff _ file chunkSize (i + 1) positive
    dsimp only [ChunkHeader.chunk]
    rw [decide_eq_true_iff]
    omega
  assembled := by
    intro whole assembler disk vacant
    obtain ⟨begun, begins, receiving⟩ :=
      receiving_beginSnapshot file chunkSize lastIncludedIndex lastIncludedTerm vacant
    rw [length_mapIdx] at whole
    refine ⟨begun, begins, ?_⟩
    have fed := receiving.feed positive same (by omega) disk
    simp only [zero_add] at fed
    rw [fed]
    refine take_of_length_le (not_lt.mp fun more => ?_)
    have := (lt_pieces_iff file positive).mpr more
    omega

/-- Whatever other peers are sent, a peer gets the pieces of its file, each once and in order, and
nothing behind them; until the last of them a chunk may be sent again. -/
theorem startTransfer_streams {manager started : SnapshotTransferManager} {peer : RaftNodeId}
    {snapshot : RaftSnapshot} {file : Bytes} {lastIncludedIndex lastIncludedTerm : Int} {calls : List TransferCall}
    (positive : 1 ≤ manager.chunkSize) (nonempty : file ≠ []) (size : snapshot.fileSizeBytes = file.length)
    (success : manager.startTransfer peer snapshot (.contents file) = (started, true))
    (serves : ∀ call ∈ calls, call.Serves peer lastIncludedIndex lastIncludedTerm) :
    (∃ requests count, chunksTo peer started calls = requests.map some ++ List.replicate count none ∧
      requests.length = min (chunksTo peer started calls).length
        ((file.length + manager.chunkSize - 1) / manager.chunkSize) ∧
      Streams file manager.chunkSize lastIncludedIndex lastIncludedTerm requests) ∧
    ∀ before header after request, calls = before ++ .nextChunk peer header :: after →
      ((Runs.run step started before).nextChunk peer header).2 = some request →
      request.done = false → ∀ meanwhile, meanwhile <+: after →
        meanwhile.filterMap (TransferCall.headerFor peer) = [] →
        (Runs.run step started
          (before ++ .nextChunk peer header :: meanwhile)).resendLastChunk peer header = some request := by
  have serving := serving_startTransfer nonempty size success
  constructor
  · have results := serving.chunksTo positive serves (Nat.zero_le _)
    simp only [Nat.sub_zero, Nat.zero_add] at results
    rw [mapIdx_if_lt] at results
    refine ⟨_, _, results, ?_, streams_chunks positive ?_ (length_take_le _ _)⟩
    · rw [results, length_append, length_map, length_replicate, length_mapIdx, length_take,
        ← pieces]
      omega
    · intro header member
      obtain ⟨call, called, found⟩ := mem_filterMap.mp (mem_of_mem_take member)
      have serves := serves call called
      rw [headerFor_eq_some.mp found] at serves
      exact serves rfl
  · rintro before header after request rfl answered unfinished meanwhile reached others
    obtain ⟨early, late⟩ := forall_mem_append.mp serves
    have stood := serving.run positive early (Nat.zero_le _)
    generalize min (0 + (before.filterMap (TransferCall.headerFor peer)).length)
      (pieces file manager.chunkSize) = sent at stood
    rcases Nat.lt_or_ge (sent * manager.chunkSize) file.length with inside | beyond
    · obtain ⟨result, next⟩ := stood.nextChunk header inside
      rw [result] at answered
      cases answered
      have more := Nat.lt_of_not_le (of_decide_eq_false unfinished)
      have still := next.run positive (fun call member => late call (mem_cons_of_mem _ (reached.subset member)))
        ((lt_pieces_iff file positive).mpr inside)
      rw [others, length_nil, Nat.add_zero, Nat.min_eq_left ((lt_pieces_iff file positive).mpr inside)] at still
      rw [Runs.run_append, Runs.run_cons]
      exact still.resendLastChunk header more
    · rw [stood.nextChunk_none header beyond] at answered
      cases answered

/-- A file of five bytes in chunks of two, with another peer served and a chunk sent again in between, is
fed to a new follower. -/
theorem startTransfer_streams_three :
    let manager : SnapshotTransferManager := { chunkSize := 2 }
    let header : ChunkHeader := ⟨3, 1, 10, 2⟩
    let calls : List TransferCall := [.nextChunk 7 header, .startTransfer 8 { fileSizeBytes := 1 } (.contents [9]),
      .nextChunk 7 header, .resendLastChunk 7 header, .nextChunk 8 header, .nextChunk 7 header, .nextChunk 7 header]
    let started := (manager.startTransfer 7 { fileSizeBytes := 5 } (.contents [1, 2, 3, 4, 5])).1
    (chunksTo 7 started calls).map (Option.map fun request => (request.offset, request.data, request.done)) =
        [some (0, [1, 2], false), some (2, [3, 4], false), some (4, [5], true), none] ∧
      ∃ requests count, chunksTo 7 started calls = requests.map some ++ List.replicate count none ∧
        requests.length = 3 ∧ Streams [1, 2, 3, 4, 5] 2 10 2 requests ∧
        ∃ begun, ({ snapshotDir := "" } : SnapshotAssembler).beginSnapshot 10 2 = some begun ∧
          (feed {} begun requests).buffer = [1, 2, 3, 4, 5] := by
  intro manager header calls started
  have success : manager.startTransfer 7 { fileSizeBytes := 5 } (.contents [1, 2, 3, 4, 5]) = (started, true) := rfl
  have serves : ∀ call ∈ calls, call.Serves 7 10 2 := by
    simp [calls, header, TransferCall.Serves]
  obtain ⟨⟨requests, count, results, length, streams⟩, -⟩ :=
    startTransfer_streams (by decide) (by decide) rfl success serves
  have three : requests.length = pieces [1, 2, 3, 4, 5] 2 := by
    rw [length]
    decide
  exact ⟨by decide, requests, count, results, three, streams,
    streams.assembled three { snapshotDir := "" } {} (by decide)⟩

end TorrentMq.Consensus
