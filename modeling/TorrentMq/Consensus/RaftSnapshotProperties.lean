import TorrentMq.Consensus.RaftNodeCases

/-! Transfer of a snapshot file from a leader to a follower, chunk by chunk, in
lockstep: each message is handled before the next one is built. -/

set_option autoImplicit false

namespace TorrentMq.Consensus

open List

namespace RaftNode

variable {L M : Type} [RaftLog L] [RaftLog M]

omit [RaftLog L] in
def snapshotSent (before after : RaftNode L) (target : RaftNodeId) : Option InstallSnapshotRequest :=
  match after.outbox.drop before.outbox.length with
  | .installSnapshot peer request :: _ => if peer = target then some request else none
  | _ => none

/-- The chunks that the follower handles, each with the buffer that it holds
when it has taken in the chunk. `none` when the rounds do not suffice. -/
def lockstep (env : Env) (target : RaftNodeId) :
    Nat → RaftNode L → RaftNode M → Option InstallSnapshotRequest →
      Option (List (InstallSnapshotRequest × List UInt8))
  | _, _, _, none => some []
  | 0, _, _, some _ => none
  | fuel + 1, leader, follower, some request =>
    let handled := follower.handleInstallSnapshot env request
    let next := leader.handleInstallSnapshotResponse env target handled.2
    (lockstep env target fuel next handled.1 (snapshotSent leader next target)).map
      ((request, (follower.chunkReceived request).1.snapshotBuffer) :: ·)

def transferSnapshot (env : Env) (target : RaftNodeId) (fuel : Nat) (leader : RaftNode L)
    (follower : RaftNode M) : Option (List (InstallSnapshotRequest × List UInt8)) :=
  lockstep env target fuel (leader.sendInstallSnapshotTo env target) follower
    (snapshotSent leader (leader.sendInstallSnapshotTo env target) target)

omit [RaftLog M] in
theorem chunkReceived_buffer (follower : RaftNode M) {request : InstallSnapshotRequest}
    (continues : request.offset = 0 ∨ request.offset = follower.snapshotBuffer.length) :
    (follower.chunkReceived request).1.snapshotBuffer =
      (if request.offset = 0 then [] else follower.snapshotBuffer) ++ request.data := by
  have same : (follower.adopt request.term).snapshotBuffer = follower.snapshotBuffer := by
    rcases adopt_cases follower request.term with ⟨_, shape⟩ | ⟨_, shape⟩
    · obtain ⟨_, _, _, _, _, lowered, _⟩ := becomeFollower_eq follower request.term
      rw [shape, lowered]
    · rw [shape]
  unfold chunkReceived receiveChunk
  dsimp only
  by_cases first : request.offset = 0
  · simp [first]
  · have aligned : request.offset = follower.snapshotBuffer.length := continues.resolve_left first
    rw [if_neg first, if_neg first]
    dsimp only
    rw [same, if_neg (by omega), if_neg first]

variable {request : InstallSnapshotRequest}

variable (env : Env)

section

variable (follower : RaftNode M) (current : follower.currentTerm ≤ request.term)

include current

theorem handleInstallSnapshot_term :
    (follower.handleInstallSnapshot env request).2.term = request.term ∧
      (follower.handleInstallSnapshot env request).1.currentTerm = request.term := by
  have adopted : (follower.adopt request.term).currentTerm = request.term := by
    rw [adopt_currentTerm]
    omega
  have chunk : ((follower.chunkReceived request).1).currentTerm = request.term := by
    unfold chunkReceived receiveChunk
    dsimp only
    repeat' split
    all_goals exact adopted
  refine ⟨?_, ?_⟩
  · unfold handleInstallSnapshot
    rw [if_neg (by omega)]
    dsimp only
    rw [apply_ite Prod.snd, ite_self]
    exact adopted
  · rw [handleInstallSnapshot_eq, if_neg (by omega)]
    split
    · unfold installReceivedSnapshot
      dsimp only
      split
      · exact chunk
      · exact chunk
    · exact chunk

theorem handleInstallSnapshot_unfinished (unfinished : request.done = false) :
    (follower.handleInstallSnapshot env request).1 = (follower.chunkReceived request).1 := by
  rw [handleInstallSnapshot_eq, if_neg (by omega), if_neg (by simp [unfinished])]

end

/-- A leader in the middle of a transfer, after it sent the chunk at an offset. -/
structure Sending (leader : RaftNode L) (target : RaftNodeId) (content : List UInt8)
    (offset : Nat) : Prop where
  leads : leader.state = .leader
  compacted : 1 < RaftLog.firstIndex leader.log
  pending : ∃ follower, leader.replication.followerStates.lookup target = some follower ∧
    follower.pendingSnapshot = some { leader.snapshotHeader with offset := offset }
  stored : leader.replication.chunkData target = content

def chunkAt (leader : RaftNode L) (content : List UInt8) (offset : Nat) : InstallSnapshotRequest :=
  { leader.snapshotHeader with
    offset := offset
    data := (content.take (min (offset + leader.config.snapshotChunkSize) content.length)).drop offset
    done := decide (offset + ((content.take
      (min (offset + leader.config.snapshotChunkSize) content.length)).drop offset).length ≥
        content.length) }

def emptyChunk (leader : RaftNode L) : InstallSnapshotRequest :=
  { leader.snapshotHeader with data := [], offset := 0, done := true }

variable (replication : Replication)

@[simp] theorem chunkData_setFollower (peer target : RaftNodeId)
    (follower : FollowerState) :
    (replication.setFollower peer follower).chunkData target = replication.chunkData target := rfl

section

variable (target : RaftNodeId)

@[simp] theorem chunkData_setChunkData
    (data : List UInt8) : (replication.setChunkData target data).chunkData target = data := by
  simp [Replication.chunkData, Replication.setChunkData]

@[simp] theorem chunkData_eraseChunkData :
    (replication.eraseChunkData target).chunkData target = [] := by
  simp [Replication.chunkData, Replication.eraseChunkData]

@[simp] theorem lookup_setFollower (follower : FollowerState) :
    (replication.setFollower target follower).followerStates.lookup target = some follower := by
  simp [Replication.setFollower]

end

variable {leader : RaftNode L} {target : RaftNodeId} {content : List UInt8} {offset : Nat}

section

variable (delivers : env.delivers target = true)

include delivers

theorem sendInstallSnapshotTo_continues
    (sending : Sending leader target content offset)
    (more : offset + leader.config.snapshotChunkSize < content.length) :
    ∃ replication, leader.sendInstallSnapshotTo env target = { leader with
        replication := replication
        outbox := leader.outbox ++ [.installSnapshot target
          (leader.chunkAt content (offset + leader.config.snapshotChunkSize))] } ∧
      Sending { leader with replication := replication } target content
        (offset + leader.config.snapshotChunkSize) := by
  obtain ⟨follower, tracked, pending⟩ := sending.pending
  have stop : min (offset + leader.config.snapshotChunkSize) content.length =
      offset + leader.config.snapshotChunkSize := by omega
  unfold sendInstallSnapshotTo
  rw [tracked]
  dsimp only
  rw [if_neg (by have := sending.compacted; omega), if_neg (by simp [pending])]
  unfold prepareSnapshot
  rw [pending]
  dsimp only
  rw [sending.stored, if_neg (by omega), stop]
  dsimp only
  rw [if_pos delivers]
  unfold snapshotMessage
  dsimp only
  rw [chunkData_setChunkData]
  refine ⟨_, rfl, sending.leads, sending.compacted, ⟨_, lookup_setFollower _ _ _, rfl⟩, ?_⟩
  simp

theorem sendInstallSnapshotTo_finishes
    (sending : Sending leader target content offset)
    (last : content.length ≤ offset + leader.config.snapshotChunkSize) :
    ∃ replication follower, leader.sendInstallSnapshotTo env target = { leader with
        replication := replication
        outbox := leader.outbox ++ [.installSnapshot target leader.emptyChunk] } ∧
      replication.followerStates.lookup target = some follower ∧
      follower.pendingSnapshot = none := by
  obtain ⟨follower, tracked, pending⟩ := sending.pending
  unfold sendInstallSnapshotTo
  rw [tracked]
  dsimp only
  rw [if_neg (by have := sending.compacted; omega), if_neg (by simp [pending])]
  unfold prepareSnapshot
  rw [pending]
  dsimp only
  rw [sending.stored, if_pos (by omega)]
  dsimp only
  rw [if_pos delivers]
  unfold snapshotMessage
  dsimp only
  rw [chunkData_eraseChunkData]
  exact ⟨_, _, rfl, lookup_setFollower _ _ _, rfl⟩

theorem sendInstallSnapshotTo_starts {tracked : FollowerState}
    (readable : env.readOk = true) (leads : leader.state = .leader) (compacted : 1 < RaftLog.firstIndex leader.log)
    (found : leader.replication.followerStates.lookup target = some tracked) (fresh : tracked.pendingSnapshot = none)
    (slots : leader.activeSnapshots < kMaxConcurrentSnapshots) (file : leader.findSnapshotFile = some content)
    (long : leader.config.snapshotChunkSize < content.length) :
    ∃ replication, leader.sendInstallSnapshotTo env target = { leader with
        replication := replication
        outbox := leader.outbox ++ [.installSnapshot target (leader.chunkAt content 0)] } ∧
      Sending { leader with replication := replication } target content 0 := by
  unfold sendInstallSnapshotTo
  rw [found]
  dsimp only
  rw [if_neg (by omega), if_neg (by omega)]
  unfold prepareSnapshot
  rw [fresh, file]
  dsimp only
  rw [if_neg (by simp [readable]), if_pos long]
  dsimp only
  rw [if_pos delivers]
  unfold snapshotMessage
  dsimp only
  rw [chunkData_setChunkData]
  refine ⟨_, rfl, leads, compacted, ⟨_, lookup_setFollower _ _ _, rfl⟩, ?_⟩
  simp

theorem sendInstallSnapshotTo_single {tracked : FollowerState}
    (readable : env.readOk = true) (compacted : 1 < RaftLog.firstIndex leader.log)
    (found : leader.replication.followerStates.lookup target = some tracked) (fresh : tracked.pendingSnapshot = none)
    (slots : leader.activeSnapshots < kMaxConcurrentSnapshots) (file : leader.findSnapshotFile = some content)
    (short : content.length ≤ leader.config.snapshotChunkSize) :
    ∃ replication follower, leader.sendInstallSnapshotTo env target = { leader with
        replication := replication
        outbox := leader.outbox ++ [.installSnapshot target
          { leader.emptyChunk with data := leader.replication.chunkData target }] } ∧
      replication.followerStates.lookup target = some follower ∧
      follower.pendingSnapshot = none := by
  unfold sendInstallSnapshotTo
  rw [found]
  dsimp only
  rw [if_neg (by omega), if_neg (by omega)]
  unfold prepareSnapshot
  rw [fresh, file]
  dsimp only
  rw [if_neg (by simp [readable]), if_neg (by omega)]
  dsimp only
  rw [if_pos delivers]
  unfold snapshotMessage
  rw [fresh]
  exact ⟨_, _, rfl, lookup_setFollower _ _ _, rfl⟩

end

theorem handleInstallSnapshotResponse_sending {response : InstallSnapshotResponse}
    (sending : Sending leader target content offset) (current : response.term ≤ leader.currentTerm) :
    ∃ replication, leader.handleInstallSnapshotResponse env target response =
        { leader with replication := replication }.sendInstallSnapshotTo env target ∧
      Sending { leader with replication := replication } target content offset := by
  obtain ⟨follower, tracked, pending⟩ := sending.pending
  unfold handleInstallSnapshotResponse
  rw [if_neg (by simp [sending.leads]), if_neg (by omega), tracked]
  dsimp only
  rw [pending]
  dsimp only
  rw [if_neg (by simp [snapshotHeader])]
  exact ⟨_, rfl, sending.leads, sending.compacted, ⟨_, lookup_setFollower _ _ _, rfl⟩, sending.stored⟩

theorem handleInstallSnapshotResponse_idle {follower : FollowerState} (response : InstallSnapshotResponse)
    (current : response.term ≤ leader.currentTerm)
    (tracked : leader.replication.followerStates.lookup target = some follower)
    (idle : follower.pendingSnapshot = none) :
    (leader.handleInstallSnapshotResponse env target response).outbox = leader.outbox := by
  unfold handleInstallSnapshotResponse
  split
  · rfl
  · rw [if_neg (by omega), tracked]
    dsimp only
    rw [idle]

omit [RaftLog L] in
theorem snapshotSent_some {before after : RaftNode L}
    (sent : after.outbox = before.outbox ++ [.installSnapshot target request]) :
    snapshotSent before after target = some request := by
  unfold snapshotSent
  rw [sent, drop_left]
  simp

omit [RaftLog L] in
theorem snapshotSent_none {before after : RaftNode L}
    (same : after.outbox = before.outbox) : snapshotSent before after target = none := by
  unfold snapshotSent
  rw [same, drop_length]

theorem lockstep_idle {leader : RaftNode L} {follower : RaftNode M}
    {target : RaftNodeId} {tracked : FollowerState} {request : InstallSnapshotRequest} (fuel : Nat)
    (term : follower.currentTerm ≤ request.term) (current : request.term ≤ leader.currentTerm)
    (found : leader.replication.followerStates.lookup target = some tracked)
    (idle : tracked.pendingSnapshot = none) (start : request.offset = 0) :
    lockstep env target (fuel + 1) leader follower (some request) = some [(request, request.data)] := by
  have answered := (follower.handleInstallSnapshot_term env term).1
  have silent : snapshotSent leader (leader.handleInstallSnapshotResponse env target
      (follower.handleInstallSnapshot env request).2) target = none :=
    snapshotSent_none (handleInstallSnapshotResponse_idle env _ (by omega) found idle)
  have buffer := follower.chunkReceived_buffer (Or.inl start)
  rw [if_pos start, nil_append] at buffer
  rw [lockstep, silent, buffer]
  simp [lockstep]

theorem chunkAt_done (leader : RaftNode L) (content : List UInt8) (offset : Nat) (inside : offset ≤ content.length) :
    (leader.chunkAt content offset).done = decide (content.length ≤ offset + leader.config.snapshotChunkSize) := by
  simp only [chunkAt, length_drop, length_take, ge_iff_le, decide_eq_decide]
  omega

omit [RaftLog M] in
theorem chunkReceived_chunkAt (leader : RaftNode L) (follower : RaftNode M) (inside : offset < content.length)
    (aligned : offset = 0 ∨ follower.snapshotBuffer = content.take offset) :
    (follower.chunkReceived (leader.chunkAt content offset)).1.snapshotBuffer =
      content.take (min (offset + leader.config.snapshotChunkSize) content.length) := by
  have held : (if offset = 0 then [] else follower.snapshotBuffer) = content.take offset := by
    split
    next first => rw [first, take_zero]
    next later => exact aligned.resolve_left later
  have continues : offset = 0 ∨ offset = follower.snapshotBuffer.length := by
    rcases aligned with first | same
    · exact .inl first
    · exact .inr (by rw [same, length_take_of_le inside.le])
  rw [@chunkReceived_buffer M follower (leader.chunkAt content offset) continues]
  change (if offset = 0 then [] else follower.snapshotBuffer) ++ (content.take
    (min (offset + leader.config.snapshotChunkSize) content.length)).drop offset = _
  have reach : offset ≤ min (offset + leader.config.snapshotChunkSize) content.length := by omega
  generalize min (offset + leader.config.snapshotChunkSize) content.length = stop at reach ⊢
  have split := take_append_drop offset (content.take stop)
  rwa [take_take, min_eq_left reach, ← held] at split

theorem lockstep_sending (delivers : env.delivers target = true) (fuel : Nat) (leader : RaftNode L)
    (follower : RaftNode M) (offset : Nat) (sending : Sending leader target content offset)
    (positive : 1 ≤ leader.config.snapshotChunkSize) (inside : offset < content.length)
    (term : follower.currentTerm ≤ leader.currentTerm)
    (aligned : offset = 0 ∨ follower.snapshotBuffer = content.take offset) (enough : content.length - offset < fuel) :
    ∃ earlier final,
      lockstep env target fuel leader follower (some (leader.chunkAt content offset)) =
        some (earlier ++ [(final, content), (leader.emptyChunk, [])]) ∧
      (∀ chunk ∈ earlier, chunk.1.done = false) ∧ final.done = true := by
  induction fuel generalizing leader follower offset with
  | zero => omega
  | succ fuel ih =>
    have request : (leader.chunkAt content offset).term = leader.currentTerm := rfl
    obtain ⟨answered, followerTerm⟩ :=
      follower.handleInstallSnapshot_term env (request.symm ▸ term)
    have buffer := chunkReceived_chunkAt leader follower inside aligned
    obtain ⟨acked, handled, waiting⟩ :=
      handleInstallSnapshotResponse_sending env sending (answered.trans request).le
    have done := leader.chunkAt_done content offset inside.le
    by_cases more : offset + leader.config.snapshotChunkSize < content.length
    · obtain ⟨replication, sent, next⟩ := sendInstallSnapshotTo_continues env delivers waiting more
      rw [min_eq_left more.le] at buffer
      have unfinished : (leader.chunkAt content offset).done = false := by
        rw [done]
        simpa using more
      have received := follower.handleInstallSnapshot_unfinished env (request.symm ▸ term) unfinished
      rw [sent] at handled
      have message : snapshotSent leader (leader.handleInstallSnapshotResponse env target
          (follower.handleInstallSnapshot env (leader.chunkAt content offset)).2) target = some _ :=
        snapshotSent_some (congrArg RaftNode.outbox handled)
      obtain ⟨earlier, final, rest, pending, finished⟩ := ih
        (leader.handleInstallSnapshotResponse env target
          (follower.handleInstallSnapshot env (leader.chunkAt content offset)).2)
        (follower.handleInstallSnapshot env (leader.chunkAt content offset)).1
        (offset + leader.config.snapshotChunkSize) (by rw [handled]; exact ⟨next.leads, next.compacted,
          next.pending, next.stored⟩) (by rw [handled]; exact positive) more
        (by rw [handled, followerTerm]; exact le_refl _) (.inr (by rw [received, buffer]))
        (by omega)
      refine ⟨(leader.chunkAt content offset, content.take (offset + leader.config.snapshotChunkSize)) ::
        earlier, final, ?_, ?_, finished⟩
      · rw [lockstep, message, buffer]
        rw [handled] at rest ⊢
        exact congrArg (Option.map _) rest
      · intro chunk member
        rcases mem_cons.mp member with rfl | old
        · exact unfinished
        · exact pending chunk old
    · obtain ⟨replication, idle, sent, found, none⟩ :=
        sendInstallSnapshotTo_finishes env delivers waiting (Nat.le_of_not_lt more)
      rw [min_eq_right (by omega), take_length] at buffer
      rw [sent] at handled
      have message : snapshotSent leader (leader.handleInstallSnapshotResponse env target
          (follower.handleInstallSnapshot env (leader.chunkAt content offset)).2) target = some _ :=
        snapshotSent_some (congrArg RaftNode.outbox handled)
      refine ⟨[], leader.chunkAt content offset, ?_, by simp, ?_⟩
      · rw [lockstep, message, buffer]
        obtain ⟨fuel, rfl⟩ : ∃ rest, fuel = rest + 1 := ⟨fuel - 1, by omega⟩
        have last := @lockstep_idle L M _ _ env (leader.handleInstallSnapshotResponse env target
          (follower.handleInstallSnapshot env (leader.chunkAt content offset)).2)
          (follower.handleInstallSnapshot env (leader.chunkAt content offset)).1 target idle
          leader.emptyChunk fuel followerTerm.le (by rw [handled]; exact le_refl _)
          (by rw [handled]; exact found) none rfl
        exact congrArg (Option.map _) last
      · rw [done]
        simpa using more

/-- The follower holds the whole file with every final chunk exactly when the
file fits one chunk and the peer's chunk buffer already equals it; with the
first final chunk also when the file is longer than a chunk. -/
theorem snapshot_transfer_delivers_iff (env : Env) (target : RaftNodeId) (leader : RaftNode L) (follower : RaftNode M)
    (tracked : FollowerState) (content : List UInt8) (fuel : Nat) (leads : leader.state = .leader)
    (compacted : 1 < RaftLog.firstIndex leader.log)
    (found : leader.replication.followerStates.lookup target = some tracked) (fresh : tracked.pendingSnapshot = none)
    (slots : leader.activeSnapshots < kMaxConcurrentSnapshots) (file : leader.findSnapshotFile = some content)
    (readable : env.readOk = true) (delivers : env.delivers target = true)
    (positive : 1 ≤ leader.config.snapshotChunkSize) (term : follower.currentTerm ≤ leader.currentTerm)
    (enough : content.length + 1 ≤ fuel) :
    ∃ chunks, transferSnapshot env target fuel leader follower = some chunks ∧
      ((∀ chunk ∈ chunks, chunk.1.done = true → chunk.2 = content) ↔
        content.length ≤ leader.config.snapshotChunkSize ∧ leader.replication.chunkData target = content) ∧
      ((∃ chunk, chunks.find? (·.1.done) = some chunk ∧ chunk.2 = content) ↔
        leader.config.snapshotChunkSize < content.length ∨ leader.replication.chunkData target = content) := by
  by_cases short : content.length ≤ leader.config.snapshotChunkSize
  · obtain ⟨replication, idle, sent, stored, none⟩ := sendInstallSnapshotTo_single env delivers
      readable compacted found fresh slots file short
    have message : snapshotSent leader (leader.sendInstallSnapshotTo env target) target = some _ :=
      snapshotSent_some (congrArg RaftNode.outbox sent)
    obtain ⟨rest, rfl⟩ : ∃ rest, fuel = rest + 1 := ⟨fuel - 1, by omega⟩
    have exchange := @lockstep_idle L M _ _ env (leader.sendInstallSnapshotTo env target) follower
      target idle { leader.emptyChunk with data := leader.replication.chunkData target } rest
      term (by rw [sent]; exact le_refl _) (by rw [sent]; exact stored) none rfl
    refine ⟨_, by rw [transferSnapshot, message]; exact exchange, ?_, ?_⟩
    · simp [emptyChunk, short]
    · simp [emptyChunk, Nat.not_lt.mpr short]
  · obtain ⟨replication, sent, sending⟩ := sendInstallSnapshotTo_starts env delivers readable leads
      compacted found fresh slots file (by omega)
    have message : snapshotSent leader (leader.sendInstallSnapshotTo env target) target = some _ :=
      snapshotSent_some (congrArg RaftNode.outbox sent)
    obtain ⟨earlier, final, exchange, pending, finished⟩ := lockstep_sending env delivers fuel
      (leader.sendInstallSnapshotTo env target) follower 0
      (by rw [sent]; exact ⟨sending.leads, sending.compacted, sending.pending, sending.stored⟩)
      (by rw [sent]; exact positive) (by omega) (by rw [sent]; exact term) (.inl rfl) (by omega)
    have start : (leader.sendInstallSnapshotTo env target).chunkAt content 0 = leader.chunkAt content 0 := by
      rw [sent]
      rfl
    have extra : (leader.sendInstallSnapshotTo env target).emptyChunk = leader.emptyChunk := by
      rw [sent]
      rfl
    rw [start, extra] at exchange
    have nonempty : content ≠ [] := by
      rintro rfl
      simp at short
    refine ⟨earlier ++ [(final, content), (leader.emptyChunk, [])], ?_, ?_, ?_⟩
    · rw [transferSnapshot, message]
      exact exchange
    · refine ⟨fun all => ?_, fun fits => absurd fits.1 short⟩
      have empty := all (leader.emptyChunk, []) (by simp) rfl
      exact absurd empty.symm nonempty
    · have skipped : earlier.find? (·.1.done) = none := by
        rw [List.find?_eq_none]
        intro chunk member
        simp [pending chunk member]
      refine ⟨fun _ => .inl (by omega), fun _ => ⟨(final, content), ?_, rfl⟩⟩
      rw [find?_append, skipped]
      simp [finished]

def snapshotLeader (content : List UInt8) : RaftNode LogView where
  nodeId := 1
  config := { snapshotChunkSize := 4 }
  log := {
    snapshotIndex := 9
    snapshotTerm := 1
    entries := []
    numbered := .nil 9 }
  currentTerm := 1
  state := .leader
  membership := { members := [1, 2, 3] }
  replication := { followerStates := (∅ : AList _).insert 2 {} }
  snapshotFiles := [("snapshot-1-9-0.snap", content)]

/-- An empty file is the only one that arrives with every final chunk. -/
theorem snapshot_transfer_empty_file :
    ∃ chunks, transferSnapshot {} 2 1 (snapshotLeader []) (start 2 {} LogView.empty [1, 2, 3]) =
        some chunks ∧ ∀ chunk ∈ chunks, chunk.1.done = true → chunk.2 = [] := by
  obtain ⟨chunks, exchange, delivered, _⟩ := snapshot_transfer_delivers_iff {} 2 (snapshotLeader [])
    (start 2 {} LogView.empty [1, 2, 3]) {} [] 1 rfl (by decide) (by decide +kernel) rfl
    (by decide +kernel) (by decide +kernel) rfl rfl (by decide) (by decide) (by decide)
  exact ⟨chunks, exchange, delivered.mpr ⟨by decide, by decide +kernel⟩⟩

/-- With chunks of four bytes, a file of three bytes is replaced by an empty
one, and a file of six bytes is followed by an empty one. -/
theorem snapshot_transfer_loses_file :
    (∃ chunks, transferSnapshot {} 2 4 (snapshotLeader [1, 2, 3]) (start 2 {} LogView.empty [1, 2, 3]) = some chunks ∧
      ¬∀ chunk ∈ chunks, chunk.1.done = true → chunk.2 = [1, 2, 3]) ∧
    ∃ chunks, transferSnapshot {} 2 7 (snapshotLeader [1, 2, 3, 4, 5, 6])
        (start 2 {} LogView.empty [1, 2, 3]) = some chunks ∧
      ¬∀ chunk ∈ chunks, chunk.1.done = true → chunk.2 = [1, 2, 3, 4, 5, 6] := by
  refine ⟨⟨[((snapshotLeader [1, 2, 3]).emptyChunk, [])], by decide +kernel, by decide +kernel⟩,
    ⟨[((snapshotLeader [1, 2, 3, 4, 5, 6]).chunkAt [1, 2, 3, 4, 5, 6] 0, [1, 2, 3, 4]),
      ((snapshotLeader [1, 2, 3, 4, 5, 6]).chunkAt [1, 2, 3, 4, 5, 6] 4, [1, 2, 3, 4, 5, 6]),
      ((snapshotLeader [1, 2, 3, 4, 5, 6]).emptyChunk, [])], by decide +kernel, by decide +kernel⟩⟩

end RaftNode

end TorrentMq.Consensus
