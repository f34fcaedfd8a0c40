import TorrentMq.Consensus.RaftStateMachineSafety

/-! The commit index of one node. A follower takes the smaller of the leader's
commit index and the end of the request, which may lie below what it has
committed before. -/

set_option autoImplicit false

namespace TorrentMq.Consensus

namespace RaftNode

variable {L : Type} [RaftLog L]

def CommitsForward (node : RaftNode L) : Input → Prop
  | .appendEntries request =>
    node.currentTerm ≤ request.term → ¬(node.state = .leader ∧ request.term = node.currentTerm) →
      prevLogConflict node.log request = none → node.commitIndex < request.leaderCommit →
      node.commitIndex ≤ lastNew request
  | _ => True

instance (node : RaftNode L) : (input : Input) → Decidable (CommitsForward node input)
  | .appendEntries _ => inferInstanceAs (Decidable (_ → _ → _ → _ → _))
  | .requestVote _ | .installSnapshot _ _ | .appendEntriesResponse _ _ _ | .requestVoteResponse _ _ _
  | .installSnapshotResponse _ _ _ | .electionTimeout | .heartbeatTick _ | .propose _ | .createSnapshot _
  | .stepDown | .transferStart _ | .transferRound _ _ _ | .transferSignal _ | .transferFinish
  | .shutdown => .isTrue trivial

theorem handleAppendEntries_forward (node : RaftNode L) (request : AppendEntriesRequest)
    (forward : CommitsForward node (.appendEntries request)) :
    node.commitIndex ≤ (node.handleAppendEntries request).1.commitIndex := by
  generalize reply : node.handleAppendEntries request = result
  have outcome := node.handleAppendEntries_outcome request
  rw [reply] at outcome
  cases outcome with
  | stale | rival => exact le_refl _
  | refused => exact (stored_steady node request).commitIndex.ge
  | accepted current follows stored =>
    have follower : ¬(node.state = .leader ∧ request.term = node.currentTerm) := by
      rintro ⟨leads, same⟩
      rcases adopt_cases node request.term with ⟨higher, _⟩ | ⟨_, shape⟩
      · omega
      · exact follows (by rw [shape]; exact leads)
    have ends := forward current follower (appendEntriesToLog_conflict stored)
    have same := (stored_steady node request).commitIndex
    unfold advanceFollowerCommit
    split
    next ahead =>
      rw [(applyCommitted_applies _).commitIndex]
      dsimp only at same ahead ⊢
      have := ends (by omega)
      omega
    · exact same.ge

theorem advanceCommitIndex_forward (node : RaftNode L) : node.commitIndex ≤ node.advanceCommitIndex.commitIndex := by
  rcases advanceCommitIndex_cases node with same | ⟨index, commits, shape⟩
  · rw [same]
  · rw [shape, (applyCommitted_applies _).commitIndex]
    exact commits.above.le

section

variable (env : Env) (node : RaftNode L) (sender : RaftNodeId)

theorem handleAppendEntriesResponse_forward
    (response : AppendEntriesResponse) :
    node.commitIndex ≤ (node.handleAppendEntriesResponse env sender response).commitIndex := by
  generalize result : node.handleAppendEntriesResponse env sender response = after
  have outcome := handleAppendEntriesResponse_outcome env node sender response
  rw [result] at outcome
  cases outcome with
  | ignored => exact le_refl _
  | deposed => exact (Steady.becomeFollower node response.term).commitIndex.ge
  | advanced _ replication => exact advanceCommitIndex_forward { node with replication := replication }
  | retried _ replication _ _ _ _ _ sent => exact sent.steady.commitIndex.ge

theorem handleInstallSnapshotResponse_forward (response : InstallSnapshotResponse) :
    node.commitIndex ≤ (node.handleInstallSnapshotResponse env sender response).commitIndex := by
  rcases handleInstallSnapshotResponse_cases env node sender response with
    same | deposed | ⟨_, replication, recorded | advanced | sent⟩
  · rw [same]
  · rw [deposed]
    exact (Steady.becomeFollower node response.term).commitIndex.ge
  · rw [recorded]
  · rw [advanced]
    exact advanceCommitIndex_forward { node with replication := replication }
  · exact sent.steady.commitIndex.ge

end

theorem step_forward (node : RaftNode L) (input : Input) (forward : CommitsForward node input) :
    node.commitIndex ≤ (node.step input).commitIndex := by
  rcases step_cases node input with steady | ⟨request, rfl⟩ | ⟨env, request, rfl⟩ |
    ⟨env, sender, response, rfl⟩ | ⟨env, sender, response, rfl⟩
  · exact steady.commitIndex.ge
  · exact handleAppendEntries_forward node request forward
  · rcases handleInstallSnapshot_cases env node request with ⟨steady, _⟩ | ⟨snapshot, _, commit, _⟩
    · exact steady.commitIndex.ge
    · exact (le_max_left _ _).trans commit.ge
  · exact handleAppendEntriesResponse_forward env node sender response
  · exact handleInstallSnapshotResponse_forward env node sender response

theorem step_lastApplied_le [ExactReads L] (node : RaftNode L) (input : Input) :
    node.lastApplied ≤ (node.step input).lastApplied := by
  rcases step_advances node input with ⟨advances, _⟩ | ⟨_, _, index, last, _⟩
  · obtain ⟨entries, _, _, last⟩ := advances.entries
    omega
  · omega

theorem step_lastApplied_commitIndex [ExactReads L] (node : RaftNode L) (input : Input)
    (forward : CommitsForward node input) (bounded : node.lastApplied ≤ node.commitIndex) :
    (node.step input).lastApplied ≤ (node.step input).commitIndex := by
  have := step_forward node input forward
  rcases step_advances node input with ⟨advances, _⟩ | ⟨_, _, index, last, commit⟩
  · have := advances.bounded
    omega
  · omega

/-- In every run whose accepted requests never end below the commit index,
both indices only grow and the applied one stays at or below the committed one. -/
theorem commit_index_discipline [ExactReads L] (nodeId : RaftNodeId) (config : RaftConfig)
    (log : L) (members : List RaftNodeId) (inputs : List Input)
    (forward : StepsMeet CommitsForward (start nodeId config log members) inputs) :
    (∀ earlier later, inputs = earlier ++ later →
      ((start nodeId config log members).run earlier).commitIndex ≤
          ((start nodeId config log members).run inputs).commitIndex ∧
        ((start nodeId config log members).run earlier).lastApplied ≤
          ((start nodeId config log members).run inputs).lastApplied) ∧
      ((start nodeId config log members).run inputs).lastApplied ≤
        ((start nodeId config log members).run inputs).commitIndex := by
  refine ⟨?_, ?_⟩
  · rintro earlier later rfl
    rw [run_append]
    obtain ⟨_, rest⟩ := forward.of_append
    generalize (start nodeId config log members).run earlier = node at rest ⊢
    refine run_preserves (fun after => node.commitIndex ≤ after.commitIndex ∧
      node.lastApplied ≤ after.lastApplied) ?_ ⟨le_refl _, le_refl _⟩ rest
    intro reached input meets ⟨commit, applied⟩
    exact ⟨commit.trans (step_forward reached input meets), applied.trans (step_lastApplied_le reached input)⟩
  · exact run_preserves (fun node => node.lastApplied ≤ node.commitIndex)
      step_lastApplied_commitIndex (le_refl (0 : Int)) forward

/-- Two entries arrive with the commit index of the first, then a heartbeat
behind the second. -/
theorem commit_index_discipline_heartbeat :
    let inputs : List Input :=
      [.appendEntries {
          term := 1, leaderId := 2, leaderCommit := 1
          entries := [{ term := 1, index := 1 }, { term := 1, index := 2 }] },
        .appendEntries {
          term := 1, leaderId := 2, prevLogIndex := 2, prevLogTerm := 1, leaderCommit := 2 }]
    let started := start 1 {} LogView.empty [1, 2, 3]
    (started.run inputs).commitIndex = 2 ∧
      (∀ earlier later, inputs = earlier ++ later →
        (started.run earlier).commitIndex ≤ (started.run inputs).commitIndex ∧
          (started.run earlier).lastApplied ≤ (started.run inputs).lastApplied) ∧
      (started.run inputs).lastApplied ≤ (started.run inputs).commitIndex :=
  ⟨by decide +kernel, commit_index_discipline 1 {} LogView.empty [1, 2, 3] _ (by decide +kernel)⟩

end RaftNode

namespace Cluster

/-- Node 2 catches up with everything that is committed and answers with the
length its log had before. The leader still takes it for empty, commits another
entry with node 3, and sends node 2 a heartbeat from the start of the log. -/
def overtakenRun : List (ClusterEvent LogView) :=
  let probe : AppendEntriesRequest := { term := 2, leaderId := 1, prevLogIndex := 1, prevLogTerm := 1 }
  let heartbeat : AppendEntriesRequest :=
    { term := 2, leaderId := 1, prevLogIndex := 2, prevLogTerm := 2, leaderCommit := 2 }
  let log : LogView :=
    .ofEntries [⟨1, 1, .noOp⟩, ⟨2, 2, .noOp⟩, ⟨2, 3, .noOp⟩]
  appliedRun ++
    [.appendEntries 1 2 probe,
      .appendEntriesReply {} ⟨1, 2, probe, { term := 2, conflictIndex := 1 }, LogView.empty⟩,
      .appendEntries 1 2
        { term := 2, leaderId := 1, leaderCommit := 2, entries := [⟨1, 1, .noOp⟩, ⟨2, 2, .noOp⟩] },
      .propose 1 .noOp,
      .heartbeatTick 1 {},
      .appendEntries 1 3 { heartbeat with entries := [⟨2, 3, .noOp⟩] },
      .appendEntries 1 3 heartbeat,
      .appendEntriesReply {} ⟨1, 3, heartbeat, { term := 2, success := true, lastLogIndex := 3 }, log⟩,
      .heartbeatTick 1 {}]

/-- The heartbeat takes the commit index of node 2 back to zero, below what it
has applied. -/
theorem heartbeat_lowers_commit_index :
    StepsMeet (fun cluster event => Enabled [1, 2, 3] cluster event ∧ cluster.Ordinary event) trio
        (overtakenRun ++ [.appendEntries 1 2 { term := 2, leaderId := 1, leaderCommit := 3 }]) ∧
      ((trio.run overtakenRun).nodes 2).commitIndex = 2 ∧
      ((trio.run (overtakenRun ++
        [.appendEntries 1 2 { term := 2, leaderId := 1, leaderCommit := 3 }])).nodes 2).commitIndex = 0 ∧
      ((trio.run (overtakenRun ++
        [.appendEntries 1 2 { term := 2, leaderId := 1, leaderCommit := 3 }])).nodes 2).lastApplied = 2 := by
  decide +kernel

end Cluster

end TorrentMq.Consensus
