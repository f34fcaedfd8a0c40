import TorrentMq.Consensus.RaftNode

/-! What each operation of a node can touch. A sending operation changes only
the leader's bookkeeping and the outbox; applying entries leaves the log, the
term, the vote and the commit index alone. -/

set_option autoImplicit false

namespace TorrentMq.Consensus

open List

/-- A property of the next and match index of every tracked peer. -/
def Replication.Tracked (good : RaftNodeId → Int → Int → Prop) (replication : Replication) : Prop :=
  ∀ peer follower, replication.followerStates.lookup peer = some follower →
    good peer follower.nextIndex follower.matchIndex

namespace Replication

variable {good : RaftNodeId → Int → Int → Prop} {replication : Replication}

section

variable (tracked : replication.Tracked good)

include tracked

theorem Tracked.setFollower {peer : RaftNodeId}
    {follower : FollowerState} (next : good peer follower.nextIndex follower.matchIndex) :
    (replication.setFollower peer follower).Tracked good := by
  intro other stored found
  by_cases same : other = peer
  · subst other
    simp only [Replication.setFollower, AList.lookup_insert, Option.some.injEq] at found
    exact found ▸ next
  · simp only [Replication.setFollower, AList.lookup_insert_ne same] at found
    exact tracked other stored found

theorem Tracked.track {peer : RaftNodeId} {lastIndex : Int}
    (fresh : good peer (lastIndex + 1) 0) : (replication.track peer lastIndex).Tracked good := by
  unfold Replication.track
  split
  · exact tracked
  · exact tracked.setFollower fresh

theorem Tracked.congr {other : Replication}
    (same : other.followerStates = replication.followerStates) : other.Tracked good := by
  intro peer follower found
  rw [same] at found
  exact tracked peer follower found

theorem Tracked.setFailures (peer : RaftNodeId)
    (failures : Nat) : (replication.setFailures peer failures).Tracked good :=
  tracked.congr rfl

end

theorem Tracked.empty {chunks : AList (fun _ : RaftNodeId => List UInt8)} :
    Tracked good { snapshotChunkData := chunks } := by
  intro peer follower found
  simp at found

end Replication

namespace RaftNode

variable {L : Type}

section BecomeFollower

variable (node : RaftNode L) (newTerm : Int)

theorem becomeFollower_eq :
    ∃ replication transferring leaderId votesReceived preVotesReceived,
      node.becomeFollower newTerm = { node with
        currentTerm := max node.currentTerm newTerm
        votedFor := if newTerm > node.currentTerm then kNoLeader else node.votedFor
        state := .follower
        replication := replication
        transferring := transferring
        leaderId := leaderId
        votesReceived := votesReceived
        preVotesReceived := preVotesReceived } ∧
      (replication = node.replication ∨ replication.followerStates = ∅) := by
  have reset : ∀ stepping : RaftNode L, ∃ replication transferring,
      stepping.resetToFollower = { stepping with
        state := .follower
        replication := replication
        transferring := transferring
        leaderId := kNoLeader
        votesReceived := 0
        preVotesReceived := 0 } ∧
      (replication = stepping.replication ∨ replication.followerStates = ∅) := by
    intro stepping
    unfold resetToFollower
    split
    · exact ⟨_, _, rfl, .inr rfl⟩
    · exact ⟨stepping.replication, stepping.transferring, rfl, .inl rfl⟩
  unfold becomeFollower
  split
  next higher =>
    obtain ⟨replication, transferring, shape, kept⟩ :=
      reset { node with currentTerm := newTerm, votedFor := kNoLeader }
    refine ⟨replication, transferring, kNoLeader, 0, 0, ?_, kept⟩
    have term : max node.currentTerm newTerm = newTerm := by omega
    simp only [shape, term]
  next lower =>
    have sameTerm : max node.currentTerm newTerm = node.currentTerm := by omega
    split
    next already =>
      refine ⟨node.replication, node.transferring, node.leaderId, node.votesReceived,
        node.preVotesReceived, ?_, .inl rfl⟩
      simp only [sameTerm, ← already.2]
    · obtain ⟨replication, transferring, shape, kept⟩ := reset node
      refine ⟨replication, transferring, kNoLeader, 0, 0, ?_, kept⟩
      simp only [shape, sameTerm]

@[simp] theorem becomeFollower_nodeId : (node.becomeFollower newTerm).nodeId = node.nodeId := by
  obtain ⟨_, _, _, _, _, shape, _⟩ := becomeFollower_eq node newTerm
  rw [shape]

@[simp] theorem becomeFollower_config : (node.becomeFollower newTerm).config = node.config := by
  obtain ⟨_, _, _, _, _, shape, _⟩ := becomeFollower_eq node newTerm
  rw [shape]

@[simp] theorem becomeFollower_log : (node.becomeFollower newTerm).log = node.log := by
  obtain ⟨_, _, _, _, _, shape, _⟩ := becomeFollower_eq node newTerm
  rw [shape]

@[simp] theorem becomeFollower_commitIndex : (node.becomeFollower newTerm).commitIndex = node.commitIndex := by
  obtain ⟨_, _, _, _, _, shape, _⟩ := becomeFollower_eq node newTerm
  rw [shape]

@[simp] theorem becomeFollower_lastApplied : (node.becomeFollower newTerm).lastApplied = node.lastApplied := by
  obtain ⟨_, _, _, _, _, shape, _⟩ := becomeFollower_eq node newTerm
  rw [shape]

@[simp] theorem becomeFollower_membership : (node.becomeFollower newTerm).membership = node.membership := by
  obtain ⟨_, _, _, _, _, shape, _⟩ := becomeFollower_eq node newTerm
  rw [shape]

@[simp] theorem becomeFollower_pendingConfigIndex :
    (node.becomeFollower newTerm).pendingConfigIndex = node.pendingConfigIndex := by
  obtain ⟨_, _, _, _, _, shape, _⟩ := becomeFollower_eq node newTerm
  rw [shape]

@[simp] theorem becomeFollower_outbox : (node.becomeFollower newTerm).outbox = node.outbox := by
  obtain ⟨_, _, _, _, _, shape, _⟩ := becomeFollower_eq node newTerm
  rw [shape]

@[simp] theorem becomeFollower_applied : (node.becomeFollower newTerm).applied = node.applied := by
  obtain ⟨_, _, _, _, _, shape, _⟩ := becomeFollower_eq node newTerm
  rw [shape]

@[simp] theorem becomeFollower_state : (node.becomeFollower newTerm).state = .follower := by
  obtain ⟨_, _, _, _, _, shape, _⟩ := becomeFollower_eq node newTerm
  rw [shape]

@[simp] theorem becomeFollower_currentTerm :
    (node.becomeFollower newTerm).currentTerm = max node.currentTerm newTerm := by
  obtain ⟨_, _, _, _, _, shape, _⟩ := becomeFollower_eq node newTerm
  rw [shape]

theorem becomeFollower_votedFor :
    (node.becomeFollower newTerm).votedFor =
      if newTerm > node.currentTerm then kNoLeader else node.votedFor := by
  obtain ⟨_, _, _, _, _, shape, _⟩ := becomeFollower_eq node newTerm
  rw [shape]

end BecomeFollower

/-- What applying entries leaves alone. A configuration change may make the
node step down within its term; otherwise its role and votes stay. -/
structure Applies (before after : RaftNode L) : Prop where
  nodeId : after.nodeId = before.nodeId
  config : after.config = before.config
  log : after.log = before.log
  currentTerm : after.currentTerm = before.currentTerm
  votedFor : after.votedFor = before.votedFor
  commitIndex : after.commitIndex = before.commitIndex
  outbox : after.outbox = before.outbox
  role : after.state = .follower ∨ after.state = before.state ∧
    after.votesReceived = before.votesReceived

theorem Applies.refl (node : RaftNode L) : Applies node node where
  nodeId := rfl
  config := rfl
  log := rfl
  currentTerm := rfl
  votedFor := rfl
  commitIndex := rfl
  outbox := rfl
  role := .inr ⟨rfl, rfl⟩

theorem Applies.trans {first second third : RaftNode L} (left : Applies first second)
    (right : Applies second third) : Applies first third where
  nodeId := right.nodeId.trans left.nodeId
  config := right.config.trans left.config
  log := right.log.trans left.log
  currentTerm := right.currentTerm.trans left.currentTerm
  votedFor := right.votedFor.trans left.votedFor
  commitIndex := right.commitIndex.trans left.commitIndex
  outbox := right.outbox.trans left.outbox
  role := by
    rcases right.role with stepped | ⟨state, votes⟩
    · exact .inl stepped
    · rcases left.role with stepped | ⟨state', votes'⟩
      · exact .inl (state.trans stepped)
      · exact .inr ⟨state.trans state', votes.trans votes'⟩

theorem Applies.membership (node : RaftNode L) (membership : RaftMembership)
    (replication : Replication) (pendingConfigIndex : Int) :
    Applies node { node with
      membership := membership
      replication := replication
      pendingConfigIndex := pendingConfigIndex } where
  nodeId := rfl
  config := rfl
  log := rfl
  currentTerm := rfl
  votedFor := rfl
  commitIndex := rfl
  outbox := rfl
  role := .inr ⟨rfl, rfl⟩

theorem becomeFollower_applies (node : RaftNode L) :
    Applies node (node.becomeFollower node.currentTerm) where
  nodeId := by simp
  config := by simp
  log := by simp
  currentTerm := by simp
  votedFor := by simp [becomeFollower_votedFor]
  commitIndex := by simp
  outbox := by simp
  role := .inl (by simp)

variable [RaftLog L]

def Announces (node : RaftNode L) (good : RaftNodeId → Int → Int → Prop) : Outbound → Prop
  | .appendEntries peer request =>
    ∃ follower, good peer follower.nextIndex follower.matchIndex ∧
      (request = node.probe follower ∨
        follower.nextIndex ≤ node.lastLogIndex ∧ node.batchFor follower ≠ [] ∧
          request = { node.probe follower with entries := node.batchFor follower })
  | .requestVote _ _ => False
  | .installSnapshot _ _ => True

/-- The node after some messages went out: only its bookkeeping and its outbox
differ, properties of the tracked indices are kept, and each message is built
from them. -/
def Sends (before after : RaftNode L) : Prop :=
  ∃ replication messages,
    after = { before with replication := replication, outbox := before.outbox ++ messages } ∧
      ∀ good, (∀ peer ∈ before.peers, good peer (before.lastLogIndex + 1) 0) →
        before.replication.Tracked good →
        replication.Tracked good ∧ ∀ message ∈ messages, before.Announces good message

theorem Sends.refl (node : RaftNode L) : Sends node node :=
  ⟨node.replication, [], by simp, fun _ _ tracked => ⟨tracked, by simp⟩⟩

theorem Sends.trans {first second third : RaftNode L} (left : Sends first second)
    (right : Sends second third) : Sends first third := by
  obtain ⟨replication, messages, rfl, kept⟩ := left
  obtain ⟨replication', messages', rfl, kept'⟩ := right
  refine ⟨replication', messages ++ messages', by simp, ?_⟩
  intro good fresh tracked
  obtain ⟨middle, announced⟩ := kept good fresh tracked
  obtain ⟨final, announced'⟩ := kept' good fresh middle
  refine ⟨final, ?_⟩
  intro message member
  rcases mem_append.mp member with old | new
  · exact announced message old
  · exact announced' message new

theorem Sends.bookkeeping (node : RaftNode L) {replication : Replication}
    (kept : ∀ good, (∀ peer ∈ node.peers, good peer (node.lastLogIndex + 1) 0) →
      node.replication.Tracked good → replication.Tracked good) :
    Sends node { node with replication := replication } :=
  ⟨replication, [], by simp, fun good fresh tracked => ⟨kept good fresh tracked, by simp⟩⟩

variable (env : Env)

section

variable (node : RaftNode L)

include node

theorem sendAppendEntriesTo_sends (target : RaftNodeId) :
    Sends node (node.sendAppendEntriesTo env target) := by
  unfold sendAppendEntriesTo
  cases found : node.replication.followerStates.lookup target with
  | none => exact .refl node
  | some follower =>
    dsimp only
    split
    · exact .refl node
    · split
      · exact .refl node
      next behind =>
        split
        · exact .refl node
        next nonempty =>
          split
          · refine ⟨_, _, rfl, ?_⟩
            intro good _ tracked
            have next := tracked target follower found
            refine ⟨.setFailures (.setFollower tracked (by exact next)) target 0, ?_⟩
            intro message member
            rw [mem_singleton.mp member]
            exact ⟨follower, next, .inr ⟨by omega, by simpa using nonempty, rfl⟩⟩
          · exact .bookkeeping node fun _ _ tracked => tracked.setFailures _ _

private theorem heartbeatTo_kept (good : RaftNodeId → Int → Int → Prop)
    (sent : Replication × List Outbound) (peer : RaftNodeId) (fresh : good peer (node.lastLogIndex + 1) 0)
    (tracked : sent.1.Tracked good) (announced : ∀ message ∈ sent.2, node.Announces good message) :
    (node.heartbeatTo env sent peer).1.Tracked good ∧
      ∀ message ∈ (node.heartbeatTo env sent peer).2, node.Announces good message := by
  have next := tracked.track fresh
  unfold heartbeatTo
  dsimp only
  cases found : (sent.1.track peer node.lastLogIndex).followerStates.lookup peer with
  | none => exact ⟨next, announced⟩
  | some follower =>
    have current := next peer follower found
    dsimp only
    split
    · exact ⟨next, announced⟩
    · split
      · refine ⟨next, ?_⟩
        intro message member
        rcases mem_append.mp member with old | new
        · exact announced message old
        · rw [mem_singleton.mp new]
          exact ⟨follower, current, .inl rfl⟩
      · split
        · exact ⟨(next.setFailures _ _).setFollower current, announced⟩
        · exact ⟨next.setFailures _ _, announced⟩

theorem sendHeartbeats_sends : Sends node (node.sendHeartbeats env) := by
  unfold sendHeartbeats
  split
  · exact .refl node
  · split
    · exact .refl node
    · refine ⟨_, _, rfl, ?_⟩
      intro good fresh tracked
      have loop : ∀ (remaining : List RaftNodeId) (sent : Replication × List Outbound),
          (∀ peer ∈ remaining, good peer (node.lastLogIndex + 1) 0) → sent.1.Tracked good →
          (∀ message ∈ sent.2, node.Announces good message) →
          (remaining.foldl (node.heartbeatTo env) sent).1.Tracked good ∧
            ∀ message ∈ (remaining.foldl (node.heartbeatTo env) sent).2, node.Announces good message := by
        intro remaining
        induction remaining with
        | nil => exact fun _ _ tracked announced => ⟨tracked, announced⟩
        | cons peer remaining ih =>
          intro sent fresh tracked announced
          obtain ⟨next, announced⟩ := heartbeatTo_kept env node good sent peer
            (fresh peer (by simp)) tracked announced
          exact ih _ (fun other member => fresh other (by simp [member])) next announced
      exact loop node.peers (node.replication, []) fresh tracked (by simp)

section

variable (target : RaftNodeId) (good : RaftNodeId → Int → Int → Prop)

private theorem snapshotMessage_tracked (prepared : FollowerState × Replication)
    (tracked : prepared.2.Tracked good) :
    (node.snapshotMessage target prepared).2.Tracked good := by
  unfold snapshotMessage
  dsimp only
  split <;> exact tracked.congr rfl

private theorem prepareSnapshot_tracked (follower : FollowerState) (prepared : FollowerState × Replication)
    (result : node.prepareSnapshot env target follower = some prepared) (tracked : node.replication.Tracked good) :
    prepared.2.Tracked good ∧ prepared.1.nextIndex = follower.nextIndex ∧
      prepared.1.matchIndex = follower.matchIndex := by
  unfold prepareSnapshot at result
  dsimp only at result
  split at result
  · split at result
    · cases result
    · split at result
      · cases result
      · split at result <;> cases result
        · exact ⟨tracked.congr rfl, rfl, rfl⟩
        · exact ⟨tracked, rfl, rfl⟩
  · split at result <;> cases result
    · exact ⟨tracked.congr rfl, rfl, rfl⟩
    · exact ⟨tracked.congr rfl, rfl, rfl⟩

end

theorem sendInstallSnapshotTo_sends (target : RaftNodeId) :
    Sends node (node.sendInstallSnapshotTo env target) := by
  unfold sendInstallSnapshotTo
  cases found : node.replication.followerStates.lookup target with
  | none => exact .refl node
  | some follower =>
    dsimp only
    split
    · exact .refl node
    · split
      · exact .refl node
      · cases result : node.prepareSnapshot env target follower with
        | none => exact .refl node
        | some prepared =>
          have kept : ∀ good, node.replication.Tracked good →
              (node.snapshotMessage target prepared).2.Tracked good ∧
                good target prepared.1.nextIndex prepared.1.matchIndex := by
            intro good tracked
            obtain ⟨next, nextIndex, matchIndex⟩ :=
              prepareSnapshot_tracked env node target good follower prepared result tracked
            refine ⟨snapshotMessage_tracked node target good prepared next, ?_⟩
            rw [nextIndex, matchIndex]
            exact tracked target follower found
          dsimp only
          split
          · refine ⟨_, _, rfl, ?_⟩
            intro good _ tracked
            obtain ⟨next, current⟩ := kept good tracked
            refine ⟨next.setFollower current, ?_⟩
            intro message member
            rw [mem_singleton.mp member]
            trivial
          · refine .bookkeeping node fun good _ tracked => ?_
            obtain ⟨next, current⟩ := kept good tracked
            refine Replication.Tracked.congr ?_ rfl
            exact next.setFollower (by exact current)

theorem replicateTo_sends (peer : RaftNodeId) :
    Sends node (node.replicateTo env peer) := by
  unfold replicateTo
  cases found : node.replication.followerStates.lookup peer with
  | none => exact .refl node
  | some follower =>
    dsimp only
    split
    · exact .refl node
    · split
      · exact .refl node
      · split
        · exact .refl node
        · split
          · exact sendInstallSnapshotTo_sends env node peer
          · exact sendAppendEntriesTo_sends env node peer

end

private theorem replicate_loop_sends (remaining : List RaftNodeId) (node : RaftNode L) :
    Sends node (remaining.foldl (replicateTo env) node) := by
  induction remaining generalizing node with
  | nil => exact .refl node
  | cons peer remaining ih => exact (replicateTo_sends env node peer).trans (ih _)

theorem replicateToFollowers_sends (node : RaftNode L) : Sends node (node.replicateToFollowers env) := by
  unfold replicateToFollowers
  split
  · exact .refl node
  · split
    · exact .refl node
    · exact replicate_loop_sends env _ node

private theorem reactivate_loop_tracked (good : RaftNodeId → Int → Int → Prop)
    (remaining : List (Sigma fun _ : RaftNodeId => FollowerState)) (replication : Replication)
    (current : ∀ follower ∈ remaining, good follower.1 follower.2.nextIndex follower.2.matchIndex)
    (tracked : replication.Tracked good) :
    (remaining.foldl (reactivate env) replication).Tracked good := by
  induction remaining generalizing replication with
  | nil => exact tracked
  | cons follower remaining ih =>
    refine ih _ (fun other member => current other (by simp [member])) ?_
    unfold reactivate
    split
    · have next := current follower (by simp)
      exact .setFailures (.setFollower tracked (by exact next)) _ _
    · exact tracked

theorem tryReactivateFollowers_sends (node : RaftNode L) :
    Sends node (node.tryReactivateFollowers env) := by
  unfold tryReactivateFollowers
  split
  · exact .refl node
  · refine .bookkeeping node fun good _ tracked => ?_
    refine reactivate_loop_tracked env good _ _ (fun follower member => ?_) tracked
    exact tracked follower.1 follower.2 (AList.mem_lookup_iff.mpr member)

theorem applyDirectMembershipChange_applies (node : RaftNode L) (newMembers : List RaftNodeId) :
    Applies node (node.applyDirectMembershipChange newMembers) := by
  unfold applyDirectMembershipChange
  split
  · exact .refl node
  · dsimp only
    split
    · exact .membership node _ _ node.pendingConfigIndex
    · exact .membership node _ node.replication node.pendingConfigIndex

theorem applyJointConsensusEntry_applies (node : RaftNode L) (command : ConfigChangeCommand) :
    Applies node (node.applyJointConsensusEntry command) := by
  unfold applyJointConsensusEntry
  split
  · exact applyDirectMembershipChange_applies node command.newMembers
  · dsimp only
    split
    · exact .membership node _ _ node.pendingConfigIndex
    · exact .membership node _ node.replication node.pendingConfigIndex

omit [RaftLog L] in
theorem applyJointConsensusFinalization_applies (node : RaftNode L)
    (command : ConfigChangeCommand) : Applies node (node.applyJointConsensusFinalization command) := by
  unfold applyJointConsensusFinalization
  split
  · exact .refl node
  · split
    · exact .refl node
    · dsimp only
      have finalized : ∀ reached : RaftNode L, Applies node reached →
          Applies node (if !isMember reached.membership.members reached.nodeId then
            reached.becomeFollower reached.currentTerm else reached) := by
        intro reached applies
        split
        · exact applies.trans (becomeFollower_applies reached)
        · exact applies
      apply finalized
      split
      · exact .membership node _ _ node.pendingConfigIndex
      · exact .membership node _ node.replication node.pendingConfigIndex

section

variable (node : RaftNode L)

include node

theorem processConfigChange_applies (command : ConfigChangeCommand) :
    Applies node (node.processConfigChange command) := by
  unfold processConfigChange
  dsimp only
  have changed : Applies node (if !node.membership.inJointConsensus then
      if !command.jointConsensus then node.applyDirectMembershipChange command.newMembers
      else node.applyJointConsensusEntry command
    else node.applyJointConsensusFinalization command) := by
    split
    · split
      · exact applyDirectMembershipChange_applies node command.newMembers
      · exact applyJointConsensusEntry_applies node command
    · exact applyJointConsensusFinalization_applies node command
  exact changed.trans (.membership _ _ _ 0)

theorem applyEntry_applies (entry : LogEntry) : Applies node (node.applyEntry entry) := by
  unfold applyEntry
  have recorded : ∀ reached : RaftNode L, Applies node reached → Applies node
      { reached with applied := reached.applied ++ [entry], lastApplied := entry.index } := by
    intro reached applies
    exact ⟨applies.nodeId, applies.config, applies.log, applies.currentTerm, applies.votedFor,
      applies.commitIndex, applies.outbox, applies.role⟩
  apply recorded
  split
  · exact processConfigChange_applies node _
  · exact .refl node

theorem applyBatch_applies (entries : List LogEntry) :
    Applies node (node.applyBatch entries) := by
  unfold applyBatch
  induction entries generalizing node with
  | nil => exact .refl node
  | cons entry entries ih => exact (applyEntry_applies node entry).trans (ih _)

theorem applyCommitted_applies : Applies node node.applyCommitted := by
  unfold applyCommitted
  generalize (node.commitIndex - node.lastApplied).toNat = fuel
  induction fuel generalizing node with
  | zero => exact .refl node
  | succ fuel ih =>
    unfold applyRounds
    split
    · split
      · exact .refl node
      · exact (applyBatch_applies node _).trans (ih _)
    · exact .refl node

end

end RaftNode

end TorrentMq.Consensus
