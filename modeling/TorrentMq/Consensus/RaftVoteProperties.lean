import TorrentMq.Consensus.RaftNodeFrames
import TorrentMq.Consensus.RaftNodeRun

/-! One vote per term. Every operation of a node keeps its term from falling
and a vote of the current term from changing, so the ballots of a whole run
name at most one candidate for each term. -/

set_option autoImplicit false

namespace TorrentMq.Consensus

open List

namespace RaftNode

variable {L : Type}

def SelfVoted (node : RaftNode L) : Prop := node.state = .candidate → node.votedFor = node.nodeId

structure VoteStep (before after : RaftNode L) : Prop where
  nodeId : after.nodeId = before.nodeId
  term : before.currentTerm ≤ after.currentTerm
  vote : after.currentTerm = before.currentTerm → before.votedFor ≠ kNoLeader →
    after.votedFor = before.votedFor
  selfVoted : before.nodeId ≠ kNoLeader → before.SelfVoted → after.SelfVoted

namespace VoteStep

variable (node : RaftNode L)

theorem refl : VoteStep node node where
  nodeId := rfl
  term := le_refl _
  vote _ _ := rfl
  selfVoted _ voted := voted

theorem trans {first second third : RaftNode L} (left : VoteStep first second)
    (right : VoteStep second third) : VoteStep first third where
  nodeId := right.nodeId.trans left.nodeId
  term := left.term.trans right.term
  vote := by
    intro sameTerm cast
    have := left.term
    have := right.term
    have kept := left.vote (by omega) cast
    rw [right.vote (by omega) (kept ▸ cast), kept]
  selfVoted := by
    intro named voted
    exact right.selfVoted (left.nodeId ▸ named) (left.selfVoted named voted)

theorem quiet {before after : RaftNode L} (nodeId : after.nodeId = before.nodeId)
    (term : after.currentTerm = before.currentTerm) (vote : after.votedFor = before.votedFor)
    (candidate : after.state = .candidate → before.state = .candidate) : VoteStep before after where
  nodeId := nodeId
  term := term.ge
  vote _ _ := vote
  selfVoted := by
    intro _ voted stands
    rw [vote, nodeId]
    exact voted (candidate stands)

theorem becomeFollower (newTerm : Int) :
    VoteStep node (node.becomeFollower newTerm) where
  nodeId := by simp
  term := by
    rw [becomeFollower_currentTerm]
    exact le_max_left _ _
  vote := by
    intro sameTerm _
    rw [becomeFollower_currentTerm] at sameTerm
    rw [becomeFollower_votedFor, if_neg (by omega)]
  selfVoted := by
    intro _ _ stands
    simp at stands

theorem adopt (term : Int) :
    VoteStep node (if term > node.currentTerm then node.becomeFollower term else node) := by
  split
  · exact .becomeFollower node term
  · exact .refl node

end VoteStep

theorem Applies.voteStep {before after : RaftNode L} (applies : Applies before after) :
    VoteStep before after := by
  refine .quiet applies.nodeId applies.currentTerm applies.votedFor ?_
  intro stands
  rcases applies.role with stepped | ⟨state, _⟩
  · rw [stepped] at stands
    cases stands
  · exact state ▸ stands

section

variable (node : RaftNode L)

include node

theorem stepDown_voteStep : VoteStep node node.stepDown := by
  unfold stepDown
  split
  · exact .refl node
  · exact .becomeFollower node node.currentTerm

theorem shutdown_voteStep : VoteStep node node.shutdown := by
  unfold shutdown
  split
  · exact .refl node
  · refine .quiet rfl rfl rfl ?_
    intro stands
    cases stands

theorem transferStart_voteStep (target : RaftNodeId) :
    VoteStep node (node.transferStart target) := by
  unfold transferStart
  repeat' split
  all_goals first
    | exact .refl node
    | exact .quiet rfl rfl rfl id

theorem transferFinish_voteStep : VoteStep node node.transferFinish := by
  unfold transferFinish
  dsimp only
  split
  · exact (VoteStep.becomeFollower node node.currentTerm).trans (.quiet rfl rfl rfl id)
  · exact .quiet rfl rfl rfl id

end

variable [RaftLog L]

theorem Sends.voteStep {before after : RaftNode L} (sends : Sends before after) :
    VoteStep before after := by
  obtain ⟨_, _, rfl, _⟩ := sends
  exact .quiet rfl rfl rfl id

theorem becomeCandidate_voteStep (node : RaftNode L) : VoteStep node node.becomeCandidate := by
  unfold becomeCandidate
  split
  · exact .becomeFollower node node.currentTerm
  · split
    · exact .refl node
    · exact {
        nodeId := rfl
        term := by
          simp only [startVoteRound]
          omega
        vote := by
          intro sameTerm _
          simp only [startVoteRound] at sameTerm
          omega
        selfVoted := fun _ _ _ => rfl }

theorem becomePreCandidate_voteStep (node : RaftNode L) : VoteStep node node.becomePreCandidate := by
  unfold becomePreCandidate
  split
  · exact .refl node
  · split
    · exact .refl node
    · split
      · exact .refl node
      · split
        · exact becomeCandidate_voteStep node
        · refine .quiet rfl rfl rfl ?_
          intro stands
          cases stands

theorem onElectionTimeout_voteStep (node : RaftNode L) : VoteStep node node.onElectionTimeout := by
  unfold onElectionTimeout
  split
  · exact .refl node
  · split
    · exact becomePreCandidate_voteStep node
    · exact becomeCandidate_voteStep node

theorem becomeLeader_voteStep (env : Env) (node : RaftNode L) : VoteStep node (node.becomeLeader env) := by
  unfold becomeLeader
  split
  · exact .becomeFollower node node.currentTerm
  · dsimp only
    have elected : ∀ reached : RaftNode L, reached.nodeId = node.nodeId →
        reached.currentTerm = node.currentTerm → reached.votedFor = node.votedFor →
        reached.state = .leader → VoteStep node reached := by
      intro reached nodeId term vote leads
      refine .quiet nodeId term vote ?_
      intro stands
      rw [leads] at stands
      cases stands
    split
    · refine .trans ?_ (.becomeFollower _ _)
      exact elected _ rfl rfl rfl rfl
    · refine .trans ?_ (sendHeartbeats_sends env _).voteStep
      exact elected _ rfl rfl rfl rfl

theorem tallyVotes_voteStep (env : Env) (node : RaftNode L) (preVote : Bool) :
    VoteStep node (node.tallyVotes env preVote) := by
  unfold tallyVotes
  split
  · split
    · exact becomeCandidate_voteStep node
    · exact .refl node
  · split
    · exact becomeLeader_voteStep env node
    · exact .refl node

theorem advanceCommitIndex_voteStep (node : RaftNode L) : VoteStep node node.advanceCommitIndex := by
  have committed : ∀ index : Int, VoteStep node { node with commitIndex := index }.applyCommitted := by
    intro index
    refine .trans ?_ (applyCommitted_applies _).voteStep
    exact .quiet rfl rfl rfl id
  unfold advanceCommitIndex
  split
  · exact .refl node
  · split
    · exact .refl node
    · split
      · split
        · exact committed node.lastLogIndex
        · exact .refl node
      · split
        · exact committed _
        · exact .refl node

theorem createSnapshot_voteStep (env : Env) (node : RaftNode L) : VoteStep node (node.createSnapshot env).1 := by
  unfold createSnapshot
  split
  · exact .refl node
  · dsimp only
    split
    · exact .refl node
    · split
      · exact .refl node
      · exact .quiet rfl rfl rfl id

theorem maybeCreateSnapshot_voteStep (env : Env) (node : RaftNode L) :
    VoteStep node (node.maybeCreateSnapshot env) := by
  unfold maybeCreateSnapshot
  split
  · exact .refl node
  · split
    · exact createSnapshot_voteStep env node
    · exact .refl node

theorem propose_voteStep (node : RaftNode L) (command : RaftCommand) : VoteStep node (node.propose command).1 := by
  unfold propose
  -- The six refusals that stand before the append.
  iterate 6
    split
    · exact .refl node
  dsimp only
  repeat' split
  all_goals exact .quiet rfl rfl rfl id

theorem heartbeatTick_voteStep (env : Env) (node : RaftNode L) : VoteStep node (node.heartbeatTick env) := by
  unfold heartbeatTick
  split
  · exact .refl node
  · split
    · exact .becomeFollower node node.currentTerm
    · have beat := (sendHeartbeats_sends env node).voteStep
      have replicated := (replicateToFollowers_sends env (node.sendHeartbeats env)).voteStep
      exact ((beat.trans replicated).trans (maybeCreateSnapshot_voteStep env _)).trans
        (tryReactivateFollowers_sends env _).voteStep

theorem transferRound_voteStep (env : Env) (node : RaftNode L) (target : RaftNodeId)
    (lastIndex : Int) : VoteStep node (node.transferRound env target lastIndex) := by
  unfold transferRound
  split
  · exact .quiet rfl rfl rfl id
  · split
    · exact .quiet rfl rfl rfl id
    · split
      · exact .refl node
      · split
        · exact .refl node
        · exact (sendAppendEntriesTo_sends env node target).voteStep

section

variable (node : RaftNode L) (request : AppendEntriesRequest)

theorem advanceFollowerCommit_voteStep :
    VoteStep node (node.advanceFollowerCommit request) := by
  unfold advanceFollowerCommit
  split
  · refine .trans ?_ (applyCommitted_applies _).voteStep
    exact .quiet rfl rfl rfl id
  · exact .refl node

theorem handleAppendEntries_voteStep :
    VoteStep node (node.handleAppendEntries request).1 := by
  unfold handleAppendEntries
  dsimp only
  split
  · exact .refl node
  · have adopted := VoteStep.adopt node request.term
    revert adopted
    generalize (if request.term > node.currentTerm then node.becomeFollower request.term
      else node) = reached
    intro adopted
    split
    · exact adopted.trans (.quiet rfl rfl rfl id)
    · split
      · exact adopted.trans (.quiet rfl rfl rfl id)
      · refine adopted.trans (.trans ?_ (advanceFollowerCommit_voteStep _ request))
        exact .quiet rfl rfl rfl id

end

theorem handleRequestVote_voteStep (node : RaftNode L) (request : RequestVoteRequest) :
    VoteStep node (node.handleRequestVote request).1 := by
  unfold handleRequestVote
  split
  · repeat' split
    all_goals exact .refl node
  · split
    · exact .refl node
    · have adopted := VoteStep.adopt node request.term
      revert adopted
      dsimp only
      generalize (if request.term > node.currentTerm then node.becomeFollower request.term
        else node) = reached
      intro adopted
      split
      · exact adopted
      next free =>
        split
        · exact adopted
        · refine adopted.trans ⟨rfl, le_refl _, ?_, ?_⟩
          · intro _ cast
            by_contra differs
            exact free ⟨cast, fun same => differs same.symm⟩
          · intro named voted stands
            have own : reached.votedFor = reached.nodeId := voted stands
            by_contra differs
            refine free ⟨own ▸ named, fun same => differs ?_⟩
            exact same.symm.trans own

omit [RaftLog L] in
theorem receiveChunk_voteStep (node : RaftNode L) (request : InstallSnapshotRequest) :
    VoteStep node (node.receiveChunk request).1 := by
  unfold receiveChunk
  dsimp only
  repeat' split
  all_goals exact .quiet rfl rfl rfl id

section

variable (env : Env) (node : RaftNode L)
include env node

theorem installReceivedSnapshot_voteStep : VoteStep node (node.installReceivedSnapshot env) := by
  unfold installReceivedSnapshot
  dsimp only
  split
  all_goals exact .quiet rfl rfl rfl id

theorem handleInstallSnapshot_voteStep
    (request : InstallSnapshotRequest) : VoteStep node (node.handleInstallSnapshot env request).1 := by
  unfold handleInstallSnapshot
  split
  · exact .refl node
  · have adopted := VoteStep.adopt node request.term
    revert adopted
    dsimp only
    generalize (if request.term > node.currentTerm then node.becomeFollower request.term
      else node) = reached
    intro adopted
    have received : VoteStep node ({ reached with leaderId := request.leaderId }.receiveChunk request).1 := by
      refine adopted.trans (.trans ?_ (receiveChunk_voteStep _ request))
      exact .quiet rfl rfl rfl id
    split
    · exact received.trans (installReceivedSnapshot_voteStep env _)
    · exact received

variable (sender : RaftNodeId)

theorem handleAppendEntriesResponse_voteStep (response : AppendEntriesResponse) :
    VoteStep node (node.handleAppendEntriesResponse env sender response) := by
  have tracked : ∀ (replication : Replication) (after : RaftNode L),
      VoteStep { node with replication := replication } after → VoteStep node after := by
    intro replication after next
    refine .trans ?_ next
    exact .quiet rfl rfl rfl id
  unfold handleAppendEntriesResponse
  split
  · exact .refl node
  · split
    · exact .becomeFollower node response.term
    · split
      · exact .refl node
      · dsimp only
        split
        · exact tracked _ _ (advanceCommitIndex_voteStep _)
        · split
          · exact tracked _ _ (sendInstallSnapshotTo_sends env _ sender).voteStep
          · split
            · exact tracked _ _ (sendInstallSnapshotTo_sends env _ sender).voteStep
            · exact tracked _ _ (sendAppendEntriesTo_sends env _ sender).voteStep

theorem handleRequestVoteResponse_voteStep (response : RequestVoteResponse) :
    VoteStep node (node.handleRequestVoteResponse env sender response) := by
  unfold handleRequestVoteResponse
  split
  · exact .refl node
  · dsimp only
    split
    all_goals
      split
      · exact .becomeFollower node response.term
      · refine .trans ?_ (tallyVotes_voteStep env _ _)
        split
        · exact .quiet rfl rfl rfl id
        · exact .refl node

theorem handleInstallSnapshotResponse_voteStep (response : InstallSnapshotResponse) :
    VoteStep node (node.handleInstallSnapshotResponse env sender response) := by
  unfold handleInstallSnapshotResponse
  split
  · exact .refl node
  · split
    · exact .becomeFollower node response.term
    · split
      · exact .refl node
      · dsimp only
        split
        · exact .quiet rfl rfl rfl id
        · split
          · refine .trans ?_ (advanceCommitIndex_voteStep _)
            exact .quiet rfl rfl rfl id
          · refine .trans ?_ (sendInstallSnapshotTo_sends env _ sender).voteStep
            exact .quiet rfl rfl rfl id

end

theorem step_voteStep (node : RaftNode L) (input : Input) : VoteStep node (node.step input) := by
  cases input with
  | appendEntries request => exact handleAppendEntries_voteStep node request
  | requestVote request => exact handleRequestVote_voteStep node request
  | installSnapshot env request => exact handleInstallSnapshot_voteStep env node request
  | appendEntriesResponse env sender response =>
    exact handleAppendEntriesResponse_voteStep env node sender response
  | requestVoteResponse env sender response =>
    exact handleRequestVoteResponse_voteStep env node sender response
  | installSnapshotResponse env sender response =>
    exact handleInstallSnapshotResponse_voteStep env node sender response
  | electionTimeout => exact onElectionTimeout_voteStep node
  | heartbeatTick env => exact heartbeatTick_voteStep env node
  | propose command => exact propose_voteStep node command
  | createSnapshot env => exact createSnapshot_voteStep env node
  | stepDown => exact stepDown_voteStep node
  | transferStart target => exact transferStart_voteStep node target
  | transferRound env target lastIndex => exact transferRound_voteStep env node target lastIndex
  | transferSignal target => exact .quiet rfl rfl rfl id
  | transferFinish => exact transferFinish_voteStep node
  | shutdown => exact shutdown_voteStep node

theorem run_voteStep (node : RaftNode L) (inputs : List Input) : VoteStep node (node.run inputs) := by
  induction inputs generalizing node with
  | nil => exact .refl node
  | cons input inputs ih => exact (step_voteStep node input).trans (ih _)

/-- The term and candidate of every ballot that a step casts: a granted vote
request that is not a pre-vote, and the node's own vote while it is a candidate. -/
def ballots (node : RaftNode L) (input : Input) : List (Int × RaftNodeId) :=
  (match input with
    | .requestVote request =>
      if request.preVote = false ∧ (node.handleRequestVote request).2.voteGranted = true then
        [(request.term, request.candidateId)]
      else []
    | _ => []) ++
  if (node.step input).state = .candidate then [((node.step input).currentTerm, node.nodeId)] else []

def castBallots (node : RaftNode L) : List Input → List (Int × RaftNodeId)
  | [] => []
  | input :: inputs => node.ballots input ++ (node.step input).castBallots inputs

variable {request : RequestVoteRequest}

theorem handleRequestVote_preVote (node : RaftNode L)
    (preVote : request.preVote = true) : (node.handleRequestVote request).1 = node := by
  unfold handleRequestVote
  rw [if_pos preVote]
  repeat' split
  all_goals rfl

theorem handleRequestVote_granted (node : RaftNode L)
    (regular : request.preVote = false) (granted : (node.handleRequestVote request).2.voteGranted = true) :
    (node.handleRequestVote request).1.currentTerm = request.term ∧
      (node.handleRequestVote request).1.votedFor = request.candidateId := by
  unfold handleRequestVote at granted ⊢
  rw [if_neg (by simp [regular])] at granted ⊢
  split at granted
  · cases granted
  next current =>
    rw [if_neg current]
    have term : (if request.term > node.currentTerm then node.becomeFollower request.term
        else node).currentTerm = request.term := by
      split
      · rw [becomeFollower_currentTerm]
        omega
      · omega
    revert term granted
    dsimp only
    generalize (if request.term > node.currentTerm then node.becomeFollower request.term
      else node) = reached
    intro granted term
    split at granted
    · cases granted
    next free =>
      split at granted
      · cases granted
      next upToDate =>
        rw [if_neg free, if_neg upToDate]
        exact ⟨term, rfl⟩

theorem ballots_spec (node : RaftNode L) (input : Input) (named : node.nodeId ≠ kNoLeader) (voted : node.SelfVoted)
    {term : Int} {candidate : RaftNodeId} (cast : (term, candidate) ∈ node.ballots input) :
    term = (node.step input).currentTerm ∧ (node.step input).votedFor = candidate := by
  have stepped := step_voteStep node input
  unfold ballots at cast
  rcases mem_append.mp cast with granted | own
  · split at granted
    next request =>
      split at granted
      next accepted =>
        obtain ⟨sameTerm, vote⟩ := handleRequestVote_granted node accepted.1 accepted.2
        rw [mem_singleton, Prod.mk.injEq] at granted
        exact ⟨granted.1.trans sameTerm.symm, vote.trans granted.2.symm⟩
      · cases granted
    · cases granted
  · split at own
    next stands =>
      rw [mem_singleton, Prod.mk.injEq] at own
      have self := stepped.selfVoted named voted stands
      exact ⟨own.1, self.trans (stepped.nodeId.trans own.2.symm)⟩
    · cases own

structure Recorded (node : RaftNode L) (past : List (Int × RaftNodeId)) : Prop where
  named : node.nodeId ≠ kNoLeader
  selfVoted : node.SelfVoted
  bounded : ∀ ballot ∈ past, ballot.1 ≤ node.currentTerm
  current : ∀ ballot ∈ past, ballot.1 = node.currentTerm → node.votedFor = ballot.2
  real : ∀ ballot ∈ past, ballot.2 ≠ kNoLeader
  unique : ∀ first ∈ past, ∀ second ∈ past, first.1 = second.1 → first = second

section

variable {node : RaftNode L} {past : List (Int × RaftNodeId)} (recorded : Recorded node past)

include recorded

theorem Recorded.step
    {input : Input} (real : ∀ request, input = .requestVote request → request.candidateId ≠ kNoLeader) :
    Recorded (node.step input) (past ++ node.ballots input) := by
  have stepped := step_voteStep node input
  have added : ∀ ballot ∈ node.ballots input,
      ballot.1 = (node.step input).currentTerm ∧ (node.step input).votedFor = ballot.2 := by
    intro ballot member
    exact ballots_spec node input recorded.named recorded.selfVoted member
  have kept : ∀ ballot ∈ past, ballot.1 = (node.step input).currentTerm → (node.step input).votedFor = ballot.2 := by
    intro ballot member sameTerm
    have := recorded.bounded ballot member
    have := stepped.term
    have vote := recorded.current ballot member (by omega)
    rw [stepped.vote (by omega) (vote ▸ recorded.real ballot member), vote]
  have current : ∀ ballot ∈ past ++ node.ballots input,
      ballot.1 = (node.step input).currentTerm → (node.step input).votedFor = ballot.2 := by
    intro ballot member sameTerm
    rcases mem_append.mp member with old | new
    · exact kept ballot old sameTerm
    · exact (added ballot new).2
  refine ⟨stepped.nodeId ▸ recorded.named, stepped.selfVoted recorded.named recorded.selfVoted, ?_, current, ?_, ?_⟩
  · intro ballot member
    rcases mem_append.mp member with old | new
    · exact (recorded.bounded ballot old).trans stepped.term
    · exact (added ballot new).1.le
  · intro ballot member
    rcases mem_append.mp member with old | new
    · exact recorded.real ballot old
    · unfold ballots at new
      rcases mem_append.mp new with granted | own
      · split at granted
        next request =>
          split at granted
          · rw [mem_singleton.mp granted]
            exact real request rfl
          · cases granted
        · cases granted
      · split at own
        · rw [mem_singleton.mp own]
          exact recorded.named
        · cases own
  · intro first member second member' sameTerm
    rcases mem_append.mp member with old | new
    · rcases mem_append.mp member' with old' | new'
      · exact recorded.unique first old second old' sameTerm
      · have term := (added second new').1
        exact Prod.ext sameTerm ((current first member (sameTerm.trans term)).symm.trans
          (current second member' term))
    · have term := (added first new).1
      exact Prod.ext sameTerm ((current first member term).symm.trans
        (current second member' (sameTerm.symm.trans term)))

theorem Recorded.run
    {inputs : List Input} (real : ∀ request, .requestVote request ∈ inputs → request.candidateId ≠ kNoLeader) :
    Recorded (node.run inputs) (past ++ node.castBallots inputs) := by
  induction inputs generalizing node past with
  | nil => simpa [castBallots] using recorded
  | cons input inputs ih =>
    have first : Recorded (node.step input) (past ++ node.ballots input) := by
      refine recorded.step ?_
      rintro request rfl
      exact real request (by simp)
    have rest := ih first (fun request member => real request (by simp [member]))
    simpa [castBallots] using rest

end

/-- In every run of a started node the term never falls, the ballots cast in
one term name one candidate, and pre-votes touch neither term nor vote. -/
theorem single_vote_per_term (nodeId : RaftNodeId) (config : RaftConfig) (log : L)
    (members : List RaftNodeId) (inputs : List Input) (named : nodeId ≠ kNoLeader)
    (real : ∀ request, .requestVote request ∈ inputs → request.candidateId ≠ kNoLeader) :
    (∀ earlier later, inputs = earlier ++ later →
      ((start nodeId config log members).run earlier).currentTerm ≤
        ((start nodeId config log members).run inputs).currentTerm) ∧
    (∀ term first second, (term, first) ∈ (start nodeId config log members).castBallots inputs →
      (term, second) ∈ (start nodeId config log members).castBallots inputs → first = second) ∧
    (∀ earlier request later, inputs = earlier ++ .requestVote request :: later → request.preVote = true →
      ((start nodeId config log members).run (earlier ++ [.requestVote request])).currentTerm =
          ((start nodeId config log members).run earlier).currentTerm ∧
        ((start nodeId config log members).run (earlier ++ [.requestVote request])).votedFor =
          ((start nodeId config log members).run earlier).votedFor) := by
  refine ⟨?_, ?_, ?_⟩
  · rintro earlier later rfl
    rw [run_append]
    exact (run_voteStep _ later).term
  · intro term first second member member'
    have initial : Recorded (start nodeId config log members) [] :=
      ⟨named, (nomatch ·), by simp, by simp, by simp, by simp⟩
    have final := initial.run real
    rw [nil_append] at final
    exact congrArg Prod.snd (final.unique _ member _ member' rfl)
  · rintro earlier request later rfl preVote
    have same : ((start nodeId config log members).run (earlier ++ [.requestVote request])) =
        (start nodeId config log members).run earlier := by
      simp [RaftNode.step, handleRequestVote_preVote _ preVote]
    rw [same]
    exact ⟨rfl, rfl⟩

/-- Two candidates ask for the same term: only the first is granted. -/
theorem single_vote_two_candidates :
    (start 1 {} LogView.empty [1, 2, 3]).castBallots
        [.requestVote { term := 1, candidateId := 2 }, .requestVote { term := 1, candidateId := 3 }] =
      [(1, 2)] ∧
    ∀ first second,
      (1, first) ∈ (start 1 {} LogView.empty [1, 2, 3]).castBallots
        [.requestVote { term := 1, candidateId := 2 }, .requestVote { term := 1, candidateId := 3 }] →
      (1, second) ∈ (start 1 {} LogView.empty [1, 2, 3]).castBallots
        [.requestVote { term := 1, candidateId := 2 }, .requestVote { term := 1, candidateId := 3 }] →
      first = second := by
  refine ⟨by decide +kernel, (single_vote_per_term 1 {} LogView.empty [1, 2, 3] _ (by decide) ?_).2.1 1⟩
  intro request member
  simp only [mem_cons, Input.requestVote.injEq, not_mem_nil, or_false] at member
  rcases member with rfl | rfl
  · decide
  · decide

end RaftNode

end TorrentMq.Consensus
