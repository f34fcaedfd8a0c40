import TorrentMq.Consensus.RaftCluster
import TorrentMq.Consensus.RaftNodeCases

/-! What an event of a cluster can do to the role of the node that acts: to its
term, its vote, its state, its count of votes and the votes it asks for. -/

set_option autoImplicit false

namespace TorrentMq.Consensus

open List

namespace RaftNode

variable {L : Type}

def Silent (before after : RaftNode L) : Prop :=
  ∀ target request, .requestVote target request ∈ after.outbox →
    .requestVote target request ∈ before.outbox

/-- Term and vote stay, and the node keeps its role or steps down. -/
structure Quiet (before after : RaftNode L) : Prop where
  currentTerm : after.currentTerm = before.currentTerm
  votedFor : after.votedFor = before.votedFor
  role : after.state = .follower ∨
    after.state = before.state ∧ after.votesReceived = before.votesReceived
  silent : Silent before after

namespace Quiet

theorem refl (node : RaftNode L) : Quiet node node := ⟨rfl, rfl, .inr ⟨rfl, rfl⟩, fun _ _ => id⟩

theorem trans {first second third : RaftNode L} (left : Quiet first second)
    (right : Quiet second third) : Quiet first third where
  currentTerm := right.currentTerm.trans left.currentTerm
  votedFor := right.votedFor.trans left.votedFor
  role := by
    rcases right.role with stepped | ⟨state, votes⟩
    · exact .inl stepped
    · rcases left.role with stepped | ⟨state', votes'⟩
      · exact .inl (state.trans stepped)
      · exact .inr ⟨state.trans state', votes.trans votes'⟩
  silent target request sent := left.silent target request (right.silent target request sent)

theorem of_applies {before after : RaftNode L} (applies : Applies before after) :
    Quiet before after where
  currentTerm := applies.currentTerm
  votedFor := applies.votedFor
  role := applies.role
  silent target request sent := by rwa [applies.outbox] at sent

theorem stepDown (node : RaftNode L) : Quiet node (node.becomeFollower node.currentTerm) :=
  of_applies (becomeFollower_applies node)

theorem leads {before after : RaftNode L} (quiet : Quiet before after)
    (leads : after.state = .leader) : before.state = .leader := by
  rcases quiet.role with stepped | ⟨state, _⟩
  · rw [stepped] at leads
    cases leads
  · exact state.symm.trans leads

end Quiet

variable [RaftLog L]

theorem Sends.quiet {before after : RaftNode L} (sends : Sends before after) :
    Quiet before after := by
  obtain ⟨replication, messages, rfl, kept⟩ := sends
  obtain ⟨_, announced⟩ := kept (fun _ _ _ => True) (fun _ _ => trivial) (fun _ _ _ => trivial)
  refine ⟨rfl, rfl, .inr ⟨rfl, rfl⟩, ?_⟩
  intro target request sent
  rcases mem_append.mp sent with old | new
  · exact old
  · exact (announced _ new).elim

variable (env : Env)

section

variable (node : RaftNode L)

include node

theorem createSnapshot_quiet : Quiet node (node.createSnapshot env).1 := by
  unfold createSnapshot
  split
  · exact .refl node
  · dsimp only
    split
    · exact .refl node
    · split
      · exact .refl node
      · exact ⟨rfl, rfl, .inr ⟨rfl, rfl⟩, fun _ _ => id⟩

theorem heartbeatTick_quiet : Quiet node (node.heartbeatTick env) := by
  unfold heartbeatTick
  split
  · exact .refl node
  · split
    · exact .stepDown node
    · refine .trans ?_ (tryReactivateFollowers_sends env _).quiet
      refine .trans ((sendHeartbeats_sends env node).trans (replicateToFollowers_sends env _)).quiet ?_
      unfold maybeCreateSnapshot
      split
      · exact .refl _
      · split
        · exact createSnapshot_quiet env _
        · exact .refl _

theorem propose_quiet (command : RaftCommand) : Quiet node (node.propose command).1 := by
  rcases propose_cases node command with same | proposes
  · rw [same]
    exact .refl node
  · obtain ⟨_, _, _, shape, _⟩ := proposes.appends
    rw [shape]
    exact ⟨rfl, rfl, .inr ⟨rfl, rfl⟩, fun _ _ => id⟩

theorem advanceCommitIndex_quiet : Quiet node node.advanceCommitIndex := by
  rcases advanceCommitIndex_cases node with same | ⟨index, _, shape⟩
  · rw [same]
    exact .refl node
  · rw [shape]
    refine .trans ?_ (.of_applies (applyCommitted_applies _))
    exact ⟨rfl, rfl, .inr ⟨rfl, rfl⟩, fun _ _ => id⟩

theorem advanceFollowerCommit_quiet (request : AppendEntriesRequest) :
    Quiet node (node.advanceFollowerCommit request) := by
  unfold advanceFollowerCommit
  split
  · refine .trans ?_ (.of_applies (applyCommitted_applies _))
    exact ⟨rfl, rfl, .inr ⟨rfl, rfl⟩, fun _ _ => id⟩
  · exact .refl node

end

inductive RoleStep (node : RaftNode L) : Input → RaftNode L → Prop
  | quiet (input : Input) (after : RaftNode L) (quiet : Quiet node after) : RoleStep node input after
  | adopted (input : Input) (after : RaftNode L) (higher : node.currentTerm < after.currentTerm)
      (unvoted : after.votedFor = kNoLeader) (follows : after.state = .follower)
      (silent : Silent node after) : RoleStep node input after
  | granted (request : RequestVoteRequest) (regular : request.preVote = false)
      (current : node.currentTerm ≤ request.term)
      (free : (node.adopt request.term).votedFor = kNoLeader ∨
        (node.adopt request.term).votedFor = request.candidateId)
      (upToDate : node.logIsUpToDate request.lastLogIndex request.lastLogTerm = true) :
      RoleStep node (.requestVote request)
        { node.adopt request.term with votedFor := request.candidateId }
  | preCandidate (input : Input) (after : RaftNode L) (currentTerm : after.currentTerm = node.currentTerm)
      (votedFor : after.votedFor = node.votedFor) (state : after.state = .preCandidate)
      (outbox : after.outbox = node.outbox ++
        node.peers.map (fun peer => .requestVote peer (after.voteRequest true))) :
      RoleStep node input after
  | candidate (input : Input) (after : RaftNode L)
      (currentTerm : after.currentTerm = node.currentTerm + 1) (votedFor : after.votedFor = node.nodeId)
      (state : after.state = .candidate) (votesReceived : after.votesReceived = 1)
      (outbox : after.outbox = node.outbox ++
        node.peers.map (fun peer => .requestVote peer (after.voteRequest false))) :
      RoleStep node input after
  | counted (env : Env) (sender : RaftNodeId) (response : RequestVoteResponse)
      (stands : node.state = .candidate) (current : response.term ≤ node.currentTerm) :
      RoleStep node (.requestVoteResponse env sender response) (node.countVote response)
  | won (env : Env) (sender : RaftNodeId) (response : RequestVoteResponse) (after : RaftNode L)
      (wins : node.Wins response) (currentTerm : after.currentTerm = node.currentTerm)
      (votedFor : after.votedFor = node.votedFor) (leads : after.state = .leader)
      (silent : Silent node after) :
      RoleStep node (.requestVoteResponse env sender response) after
  | signalled (target : RaftNodeId) : RoleStep node (.transferSignal target) (node.transferSignal target)

omit [RaftLog L] in
theorem stepDown_quiet (node : RaftNode L) : Quiet node node.stepDown := by
  unfold RaftNode.stepDown
  split
  · exact .refl node
  · exact .stepDown node

omit [RaftLog L] in
theorem transferStart_quiet (node : RaftNode L) (target : RaftNodeId) : Quiet node (node.transferStart target) := by
  unfold transferStart
  repeat' split
  all_goals exact ⟨rfl, rfl, .inr ⟨rfl, rfl⟩, fun _ _ => id⟩

theorem transferRound_quiet (node : RaftNode L) (target : RaftNodeId) (lastIndex : Int) :
    Quiet node (node.transferRound env target lastIndex) := by
  unfold transferRound
  repeat' split
  all_goals first
    | exact (sendAppendEntriesTo_sends env node target).quiet
    | exact ⟨rfl, rfl, .inr ⟨rfl, rfl⟩, fun _ _ => id⟩

omit [RaftLog L] in
theorem transferFinish_quiet (node : RaftNode L) : Quiet node node.transferFinish := by
  unfold transferFinish
  dsimp only
  split
  · refine .trans (.stepDown node) ?_
    exact ⟨rfl, rfl, .inr ⟨rfl, rfl⟩, fun _ _ => id⟩
  · exact ⟨rfl, rfl, .inr ⟨rfl, rfl⟩, fun _ _ => id⟩

omit [RaftLog L] in
theorem shutdown_quiet (node : RaftNode L) : Quiet node node.shutdown := by
  unfold shutdown
  split
  · exact .refl node
  · exact ⟨rfl, rfl, .inl rfl, fun _ _ => id⟩

theorem becomeCandidate_role (node : RaftNode L) (input : Input) : RoleStep node input node.becomeCandidate := by
  unfold becomeCandidate
  split
  · exact .quiet _ _ (.stepDown node)
  · split
    · exact .quiet _ _ (.refl node)
    · exact .candidate _ _ rfl rfl rfl rfl rfl

theorem onElectionTimeout_role (node : RaftNode L) (input : Input) : RoleStep node input node.onElectionTimeout := by
  unfold onElectionTimeout
  split
  · exact .quiet _ _ (.refl node)
  · split
    · unfold becomePreCandidate
      split
      · exact .quiet _ _ (.refl node)
      · split
        · exact .quiet _ _ (.refl node)
        · split
          · exact becomeCandidate_role node input
          · exact .preCandidate _ _ rfl rfl rfl rfl
    · exact becomeCandidate_role node input

omit [RaftLog L] in
theorem adopt_quiet_or (node : RaftNode L) (term : Int) :
    Quiet node (node.adopt term) ∨ node.currentTerm < (node.adopt term).currentTerm ∧
      (node.adopt term).votedFor = kNoLeader ∧ (node.adopt term).state = .follower ∧
      Silent node (node.adopt term) := by
  rcases adopt_cases node term with ⟨higher, shape⟩ | ⟨_, shape⟩
  · rw [shape]
    refine .inr ⟨by rw [becomeFollower_currentTerm]; omega, ?_, by simp, ?_⟩
    · rw [becomeFollower_votedFor, if_pos higher]
    · intro target request sent
      rwa [becomeFollower_outbox] at sent
  · rw [shape]
    exact .inl (.refl node)

theorem RoleStep.of_adopt {node after : RaftNode L} {term : Int} (input : Input)
    (quiet : Quiet (node.adopt term) after) : RoleStep node input after := by
  rcases adopt_quiet_or node term with same | ⟨higher, unvoted, follows, silent⟩
  · exact .quiet _ _ (same.trans quiet)
  · refine .adopted _ _ (by rwa [quiet.currentTerm]) (quiet.votedFor.trans unvoted) ?_ ?_
    · rcases quiet.role with stepped | ⟨state, _⟩
      · exact stepped
      · exact state.trans follows
    · exact fun target request sent => silent target request (quiet.silent target request sent)

section

variable (node : RaftNode L)

include node

theorem handleAppendEntries_role (request : AppendEntriesRequest) :
    RoleStep node (.appendEntries request) (node.handleAppendEntries request).1 := by
  generalize reply : node.handleAppendEntries request = result
  have outcome := node.handleAppendEntries_outcome request
  rw [reply] at outcome
  have stored : Quiet (node.adopt request.term)
      { node.adopt request.term with
        leaderId := request.leaderId
        log := (appendEntriesToLog node.log request).1 } :=
    ⟨rfl, rfl, .inr ⟨rfl, rfl⟩, fun _ _ => id⟩
  cases outcome with
  | stale => exact .quiet _ _ (.refl node)
  | rival => exact .quiet _ _ ⟨rfl, rfl, .inr ⟨rfl, rfl⟩, fun _ _ => id⟩
  | refused => exact .of_adopt _ stored
  | accepted => exact .of_adopt _ (stored.trans (advanceFollowerCommit_quiet _ request))

theorem handleRequestVote_role (request : RequestVoteRequest) :
    RoleStep node (.requestVote request) (node.handleRequestVote request).1 := by
  generalize reply : node.handleRequestVote request = result
  have outcome := node.handleRequestVote_outcome request
  rw [reply] at outcome
  cases outcome with
  | preVote | stale => exact .quiet _ _ (.refl node)
  | denied => exact .of_adopt _ (.refl _)
  | granted regular current free upToDate => exact .granted request regular current free upToDate

theorem handleAppendEntriesResponse_role (sender : RaftNodeId)
    (response : AppendEntriesResponse) (input : Input) :
    RoleStep node input (node.handleAppendEntriesResponse env sender response) := by
  generalize result : node.handleAppendEntriesResponse env sender response = after
  have outcome := handleAppendEntriesResponse_outcome env node sender response
  rw [result] at outcome
  have recorded : ∀ replication, Quiet node { node with replication := replication } :=
    fun _ => ⟨rfl, rfl, .inr ⟨rfl, rfl⟩, fun _ _ => id⟩
  cases outcome with
  | ignored => exact .quiet _ _ (.refl node)
  | deposed higher =>
    refine @RoleStep.of_adopt L _ node _ response.term input ?_
    rw [adopt, if_pos higher]
    exact .refl _
  | advanced _ replication =>
    exact .quiet _ _ ((recorded replication).trans (advanceCommitIndex_quiet _))
  | retried _ replication _ _ _ _ _ sent => exact .quiet _ _ ((recorded replication).trans sent.quiet)

section

variable (sender : RaftNodeId) (response : RequestVoteResponse)

theorem becomeLeader_role (wins : node.Wins response) :
    RoleStep node (.requestVoteResponse env sender response) ((node.countVote response).becomeLeader env) := by
  have counted : Quiet node ((node.countVote response).becomeFollower node.currentTerm) := by
    refine ⟨by simp [countVote], ?_, .inl (by simp), ?_⟩
    · rw [becomeFollower_votedFor, if_neg (by simp [countVote])]
      rfl
    · intro target request sent
      rwa [becomeFollower_outbox] at sent
  rcases becomeLeader_cases env (node.countVote response) with
    ⟨_, shape⟩ | ⟨_, shape⟩ | ⟨_, sends⟩
  · rw [shape]
    exact .quiet _ _ counted
  · rw [shape]
    refine .quiet _ _ ⟨by simp [countVote, elected], ?_, .inl (by simp), ?_⟩
    · rw [becomeFollower_votedFor, if_neg (by simp [countVote, elected])]
      rfl
    · intro target request sent
      rwa [becomeFollower_outbox] at sent
  · have quiet := sends.quiet
    refine .won env sender response _ wins quiet.currentTerm quiet.votedFor sends.state ?_
    exact fun target request sent => quiet.silent target request sent

theorem handleRequestVoteResponse_role :
    RoleStep node (.requestVoteResponse env sender response)
      (node.handleRequestVoteResponse env sender response) := by
  generalize result : node.handleRequestVoteResponse env sender response = after
  have outcome := handleRequestVoteResponse_outcome env node sender response
  rw [result] at outcome
  cases outcome with
  | ignored => exact .quiet _ _ (.refl node)
  | deposed higher =>
    refine @RoleStep.of_adopt L _ node _ response.term _ ?_
    rw [adopt, if_pos higher]
    exact .refl _
  | preCounted => exact .quiet _ _ ⟨rfl, rfl, .inr ⟨rfl, rfl⟩, fun _ _ => id⟩
  | nominated stands preVotes =>
    unfold becomeCandidate
    split
    · refine .quiet _ _ (.trans ?_ (.stepDown _))
      exact ⟨rfl, rfl, .inr ⟨rfl, rfl⟩, fun _ _ => id⟩
    · split
      · exact .quiet _ _ ⟨rfl, rfl, .inr ⟨rfl, rfl⟩, fun _ _ => id⟩
      · exact .candidate _ _ rfl rfl rfl rfl rfl
  | counted stands current => exact .counted env sender response stands current
  | won wins => exact becomeLeader_role env node sender response wins

end

theorem step_role (event : ClusterEvent L) :
    RoleStep node event.input (node.step event.input) := by
  cases event with
  | electionTimeout => exact onElectionTimeout_role node _
  | heartbeatTick _ env => exact .quiet _ _ (heartbeatTick_quiet env node)
  | propose _ command => exact .quiet _ _ (propose_quiet node command)
  | requestVote _ _ request => exact handleRequestVote_role node request
  | requestVoteReply env reply => exact handleRequestVoteResponse_role env node _ _
  | appendEntries _ _ request => exact handleAppendEntries_role node request
  | appendEntriesReply env reply => exact handleAppendEntriesResponse_role env node _ _ _
  | stepDown => exact .quiet _ _ (stepDown_quiet node)
  | transferStart _ target => exact .quiet _ _ (transferStart_quiet node target)
  | transferRound _ env target lastIndex => exact .quiet _ _ (transferRound_quiet env node target lastIndex)
  | transferSignal _ target => exact .signalled target
  | transferFinish => exact .quiet _ _ (transferFinish_quiet node)
  | shutdown => exact .quiet _ _ (shutdown_quiet node)

end

section

variable {node after : RaftNode L} {input : Input} (role : RoleStep node input after)
include role

theorem RoleStep.asks {target : RaftNodeId} {request : RequestVoteRequest}
    (sent : .requestVote target request ∈ after.outbox) :
    .requestVote target request ∈ node.outbox ∨
      target ∈ node.peers ∧ request = after.voteRequest request.preVote ∧
        (request.preVote = false → after.votedFor = node.nodeId) ∨
      input = .transferSignal target ∧ request.candidateId = target := by
  cases role with
  | quiet _ _ quiet => exact .inl (quiet.silent target request sent)
  | adopted _ _ _ _ _ silent | won _ _ _ _ _ _ _ _ silent => exact .inl (silent target request sent)
  | granted => exact .inl (by simpa using sent)
  | preCandidate _ _ _ _ _ outbox =>
    rw [outbox] at sent
    refine (mem_append.mp sent).imp_right ?_
    intro new
    obtain ⟨peer, inside, shape⟩ := mem_map.mp new
    cases shape
    exact .inl ⟨inside, rfl, nofun⟩
  | candidate _ _ _ votedFor _ _ outbox =>
    rw [outbox] at sent
    refine (mem_append.mp sent).imp_right ?_
    intro new
    obtain ⟨peer, inside, shape⟩ := mem_map.mp new
    cases shape
    exact .inl ⟨inside, rfl, fun _ => votedFor⟩
  | counted => exact .inl sent
  | signalled other =>
    refine (mem_append.mp sent).imp_right ?_
    intro new
    cases mem_singleton.mp new
    exact .inr ⟨rfl, rfl⟩

theorem RoleStep.stands (stands : after.state = .candidate) :
    node.state = .candidate ∧ after.currentTerm = node.currentTerm ∧ after.votesReceived = node.votesReceived ∨
      after.currentTerm = node.currentTerm + 1 ∧ after.votedFor = node.nodeId ∧ after.votesReceived = 1 ∨
      ∃ env sender response, input = .requestVoteResponse env sender response ∧
        node.state = .candidate ∧ response.term ≤ node.currentTerm ∧
        after = node.countVote response := by
  cases role with
  | quiet _ _ quiet =>
    rcases quiet.role with stepped | ⟨state, votes⟩
    · rw [stepped] at stands
      cases stands
    · exact .inl ⟨state.symm.trans stands, quiet.currentTerm, votes⟩
  | adopted _ _ _ _ follows =>
    rw [follows] at stands
    cases stands
  | granted request =>
    rcases adopt_cases node request.term with ⟨_, same⟩ | ⟨_, same⟩
    · rw [same] at stands
      simp at stands
    · rw [same] at stands ⊢
      exact .inl ⟨stands, rfl, rfl⟩
  | preCandidate _ _ _ _ state =>
    rw [state] at stands
    cases stands
  | candidate _ _ currentTerm votedFor _ votes => exact .inr (.inl ⟨currentTerm, votedFor, votes⟩)
  | counted env sender response stood current =>
    exact .inr (.inr ⟨env, sender, response, rfl, stood, current, rfl⟩)
  | won _ _ _ _ _ _ _ leads =>
    rw [leads] at stands
    cases stands
  | signalled => exact .inl ⟨stands, rfl, rfl⟩

theorem RoleStep.leads (leads : after.state = .leader) :
    after.currentTerm = node.currentTerm ∧ (node.state = .leader ∨
      ∃ env sender response, input = .requestVoteResponse env sender response ∧ node.Wins response) := by
  cases role with
  | quiet _ _ quiet =>
    rcases quiet.role with stepped | ⟨state, _⟩
    · rw [stepped] at leads
      cases leads
    · exact ⟨quiet.currentTerm, .inl (state.symm.trans leads)⟩
  | adopted _ _ _ _ follows =>
    rw [follows] at leads
    cases leads
  | granted request =>
    rcases adopt_cases node request.term with ⟨_, same⟩ | ⟨_, same⟩
    · rw [same] at leads
      simp at leads
    · rw [same] at leads ⊢
      exact ⟨rfl, .inl leads⟩
  | preCandidate _ _ _ _ state | candidate _ _ _ _ state =>
    rw [state] at leads
    cases leads
  | counted _ _ _ stands =>
    rw [countVote, stands] at leads
    cases leads
  | won env sender response _ wins currentTerm =>
    exact ⟨currentTerm, .inr ⟨env, sender, response, rfl, wins⟩⟩
  | signalled => exact ⟨rfl, .inl leads⟩

end

end RaftNode

end TorrentMq.Consensus
