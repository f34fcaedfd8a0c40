import TorrentMq.Consensus.RaftNodeFrames
import TorrentMq.Consensus.RaftNodeRun

/-! What an operation of a node can do, stated once for all later invariants:
which operations neither commit nor apply anything, and the outcomes of the
operations that do. -/

set_option autoImplicit false

namespace TorrentMq.Consensus

open RaftLog

namespace RaftNode

variable {L : Type}

structure Steady (before after : RaftNode L) : Prop where
  nodeId : after.nodeId = before.nodeId
  config : after.config = before.config
  membership : after.membership = before.membership
  commitIndex : after.commitIndex = before.commitIndex
  lastApplied : after.lastApplied = before.lastApplied
  applied : after.applied = before.applied

namespace Steady

theorem refl (node : RaftNode L) : Steady node node := ⟨rfl, rfl, rfl, rfl, rfl, rfl⟩

theorem trans {first second third : RaftNode L} (left : Steady first second)
    (right : Steady second third) : Steady first third where
  nodeId := right.nodeId.trans left.nodeId
  config := right.config.trans left.config
  membership := right.membership.trans left.membership
  commitIndex := right.commitIndex.trans left.commitIndex
  lastApplied := right.lastApplied.trans left.lastApplied
  applied := right.applied.trans left.applied

theorem becomeFollower (node : RaftNode L) (newTerm : Int) : Steady node (node.becomeFollower newTerm) :=
  ⟨by simp, by simp, by simp, by simp, by simp, by simp⟩

end Steady

structure Idle (before after : RaftNode L) : Prop extends Steady before after where
  log : after.log = before.log
  pendingConfigIndex : after.pendingConfigIndex = before.pendingConfigIndex

namespace Idle

theorem refl (node : RaftNode L) : Idle node node := ⟨.refl node, rfl, rfl⟩

theorem trans {first second third : RaftNode L} (left : Idle first second)
    (right : Idle second third) : Idle first third :=
  ⟨left.toSteady.trans right.toSteady, right.log.trans left.log,
    right.pendingConfigIndex.trans left.pendingConfigIndex⟩

theorem becomeFollower (node : RaftNode L) (newTerm : Int) : Idle node (node.becomeFollower newTerm) :=
  ⟨.becomeFollower node newTerm, by simp, by simp⟩

end Idle

section

variable (node : RaftNode L)

include node

theorem stepDown_idle : Idle node node.stepDown := by
  unfold stepDown
  split
  · exact .refl node
  · exact .becomeFollower node node.currentTerm

theorem shutdown_idle : Idle node node.shutdown := by
  unfold shutdown
  split
  · exact .refl node
  · exact ⟨⟨rfl, rfl, rfl, rfl, rfl, rfl⟩, rfl, rfl⟩

theorem transferStart_idle (target : RaftNodeId) : Idle node (node.transferStart target) := by
  unfold transferStart
  repeat' split
  all_goals exact ⟨⟨rfl, rfl, rfl, rfl, rfl, rfl⟩, rfl, rfl⟩

theorem transferFinish_idle : Idle node node.transferFinish := by
  unfold transferFinish
  dsimp only
  split
  · refine (Idle.becomeFollower node node.currentTerm).trans ?_
    exact ⟨⟨rfl, rfl, rfl, rfl, rfl, rfl⟩, rfl, rfl⟩
  · exact ⟨⟨rfl, rfl, rfl, rfl, rfl, rfl⟩, rfl, rfl⟩

end

variable [RaftLog L]

variable {before after : RaftNode L}

theorem Sends.idle (sends : Sends before after) :
    Idle before after := by
  obtain ⟨_, _, rfl, _⟩ := sends
  exact ⟨⟨rfl, rfl, rfl, rfl, rfl, rfl⟩, rfl, rfl⟩

theorem Sends.steady (sends : Sends before after) :
    Steady before after :=
  sends.idle.toSteady

theorem becomeCandidate_idle (node : RaftNode L) : Idle node node.becomeCandidate := by
  unfold becomeCandidate
  split
  · exact .becomeFollower node node.currentTerm
  · split
    · exact .refl node
    · exact ⟨⟨rfl, rfl, rfl, rfl, rfl, rfl⟩, rfl, rfl⟩

theorem becomePreCandidate_idle (node : RaftNode L) : Idle node node.becomePreCandidate := by
  unfold becomePreCandidate
  split
  · exact .refl node
  · split
    · exact .refl node
    · split
      · exact .refl node
      · split
        · exact becomeCandidate_idle node
        · exact ⟨⟨rfl, rfl, rfl, rfl, rfl, rfl⟩, rfl, rfl⟩

theorem onElectionTimeout_idle (node : RaftNode L) : Idle node node.onElectionTimeout := by
  unfold onElectionTimeout
  split
  · exact .refl node
  · split
    · exact becomePreCandidate_idle node
    · exact becomeCandidate_idle node

variable (env : Env)

theorem transferRound_idle (node : RaftNode L) (target : RaftNodeId)
    (lastIndex : Int) : Idle node (node.transferRound env target lastIndex) := by
  unfold transferRound
  split
  · exact ⟨⟨rfl, rfl, rfl, rfl, rfl, rfl⟩, rfl, rfl⟩
  · split
    · exact ⟨⟨rfl, rfl, rfl, rfl, rfl, rfl⟩, rfl, rfl⟩
    · split
      · exact .refl node
      · split
        · exact .refl node
        · exact (sendAppendEntriesTo_sends env node target).idle

/-!
## Elections
-/

def noop (node : RaftNode L) : LogEntry where
  term := node.currentTerm
  index := node.lastLogIndex + 1
  command := .noOp

def noopAppended (node : RaftNode L) : L × Int :=
  append node.log node.lastLogIndex (termAt node.log node.lastLogIndex) [node.noop]

def elected (node : RaftNode L) : RaftNode L :=
  { node with
    state := .leader
    leaderId := node.nodeId
    transferring := false
    replication :=
      { followerStates := node.peers.foldl
          (fun states peer => states.insert peer { nextIndex := node.lastLogIndex + 1 })
          (∅ : AList (fun _ : RaftNodeId => FollowerState))
        snapshotChunkData := node.replication.snapshotChunkData }
    log := node.noopAppended.1 }

theorem becomeLeader_cases (node : RaftNode L) :
    node.membership.members = [] ∧ node.becomeLeader env = node.becomeFollower node.currentTerm ∨
      node.noopAppended.2 = kNoLogIndex ∧ node.becomeLeader env = node.elected.becomeFollower node.currentTerm ∨
      node.noopAppended.2 ≠ kNoLogIndex ∧ Sends node.elected (node.becomeLeader env) := by
  unfold becomeLeader
  split
  next empty => exact .inl ⟨by simpa using empty, rfl⟩
  · dsimp only
    split
    next failed => exact .inr (.inl ⟨failed, rfl⟩)
    next appended => exact .inr (.inr ⟨appended, sendHeartbeats_sends env _⟩)

/-- The response completes a majority of votes for a candidate. -/
def Wins (node : RaftNode L) (response : RequestVoteResponse) : Prop :=
  node.state = .candidate ∧ response.term ≤ node.currentTerm ∧
    node.quorumSize ≤ node.votesReceived + if response.voteGranted then 1 else 0

def countVote (node : RaftNode L) (response : RequestVoteResponse) : RaftNode L :=
  { node with votesReceived := node.votesReceived + if response.voteGranted then 1 else 0 }

/-- What a vote response can do: step down, count, start the election after the
pre-vote round, or take office. -/
inductive BallotOutcome (env : Env) (node : RaftNode L) (response : RequestVoteResponse) :
    RaftNode L → Prop
  | ignored : BallotOutcome env node response node
  | deposed (higher : node.currentTerm < response.term) :
      BallotOutcome env node response (node.becomeFollower response.term)
  | preCounted (stands : node.state = .preCandidate) (preVotesReceived : Nat) :
      BallotOutcome env node response { node with preVotesReceived := preVotesReceived }
  | nominated (stands : node.state = .preCandidate) (preVotesReceived : Nat) :
      BallotOutcome env node response { node with preVotesReceived := preVotesReceived }.becomeCandidate
  | counted (stands : node.state = .candidate) (current : response.term ≤ node.currentTerm) :
      BallotOutcome env node response (node.countVote response)
  | won (wins : node.Wins response) :
      BallotOutcome env node response ((node.countVote response).becomeLeader env)

theorem handleRequestVoteResponse_outcome (node : RaftNode L) (sender : RaftNodeId)
    (response : RequestVoteResponse) :
    BallotOutcome env node response (node.handleRequestVoteResponse env sender response) := by
  unfold handleRequestVoteResponse
  split
  · exact .ignored
  next standing =>
    by_cases preVote : node.state = .preCandidate
    · have flag : decide (node.state = .preCandidate) = true := decide_eq_true preVote
      rw [flag]
      simp only [if_true]
      split
      next higher => exact .deposed (by omega)
      · unfold tallyVotes
        rw [if_pos rfl]
        have same : (if response.voteGranted = true then
            { node with preVotesReceived := node.preVotesReceived + 1 } else node) =
            { node with preVotesReceived :=
              node.preVotesReceived + if response.voteGranted then 1 else 0 } := by
          split <;> rfl
        rw [same]
        generalize (node.preVotesReceived + if response.voteGranted = true then 1 else 0) = preVotes
        split
        · exact .nominated preVote _
        · exact .preCounted preVote _
    · have stands : node.state = .candidate := by
        by_contra other
        exact standing ⟨other, preVote⟩
      have flag : decide (node.state = .preCandidate) = false := decide_eq_false preVote
      rw [flag]
      simp only [Bool.false_eq_true, if_false]
      split
      next higher => exact .deposed higher
      next current =>
        unfold tallyVotes
        rw [if_neg (by simp)]
        have same : (if response.voteGranted = true then
            { node with votesReceived := node.votesReceived + 1 } else node) =
            node.countVote response := by
          unfold countVote
          split <;> rfl
        rw [same]
        split
        next enough => exact .won ⟨stands, by omega, enough.1⟩
        · exact .counted stands (by omega)

/-!
## Proposals, snapshots and commits
-/

structure Proposes (before after : RaftNode L) (command : RaftCommand) : Prop where
  leads : before.state = .leader
  unfenced : command.isConfigChange = true → before.pendingConfigIndex = 0
  appends : ∃ prevTerm pending,
    (before.lastLogIndex = 0 ∨ prevTerm = termAt before.log before.lastLogIndex ∨
      before.lastLogIndex < 0) ∧
    after = { before with
      log := (append before.log before.lastLogIndex prevTerm
        [{ term := before.currentTerm, index := before.lastLogIndex + 1, command := command }]).1
      pendingConfigIndex := pending } ∧
    ((append before.log before.lastLogIndex prevTerm
        [{ term := before.currentTerm, index := before.lastLogIndex + 1, command := command }]).2 ≠
          kNoLogIndex →
      pending = if command.isConfigChange then before.lastLogIndex + 1
        else before.pendingConfigIndex)

theorem propose_cases (node : RaftNode L) (command : RaftCommand) :
    (node.propose command).1 = node ∨ Proposes node (node.propose command).1 command := by
  unfold propose
  split
  · exact .inl rfl
  · split
    · exact .inl rfl
    next leads =>
      split
      · exact .inl rfl
      · split
        · exact .inl rfl
        · split
          · exact .inl rfl
          next unfenced =>
            split
            · exact .inl rfl
            · right
              have term : node.lastLogIndex = 0 ∨
                  (if node.lastLogIndex > 0 then termAt node.log node.lastLogIndex
                    else kNoTerm) = termAt node.log node.lastLogIndex ∨
                  node.lastLogIndex < 0 := by
                rcases Int.lt_trichotomy node.lastLogIndex 0 with below | zero | above
                · exact .inr (.inr below)
                · exact .inl zero
                · exact .inr (.inl (if_pos above))
              have free : command.isConfigChange = true → node.pendingConfigIndex = 0 := by
                intro change
                by_contra fenced
                exact unfenced ⟨fenced, change⟩
              dsimp only
              revert term
              generalize (if node.lastLogIndex > 0 then termAt node.log node.lastLogIndex
                else kNoTerm) = prevTerm
              intro term
              split
              next failed =>
                exact ⟨by simpa using leads, free, _, node.pendingConfigIndex, term, rfl,
                  fun appended => absurd failed appended⟩
              · split
                next change =>
                  exact ⟨by simpa using leads, free, _, _, term, rfl, fun _ => (if_pos change).symm⟩
                next regular =>
                  exact ⟨by simpa using leads, free, _, node.pendingConfigIndex, term, rfl,
                    fun _ => (if_neg regular).symm⟩

structure Compacts (before after : RaftNode L) : Prop extends Steady before after where
  pendingConfigIndex : after.pendingConfigIndex = before.pendingConfigIndex
  state : after.state = before.state
  above : firstIndex before.log < before.commitIndex
  present : termAt before.log before.commitIndex ≠ kNoTerm ∨ before.commitIndex ≤ 0
  log : ∃ snapshot : RaftSnapshot, snapshot.lastIncludedIndex = before.commitIndex ∧
    after.log = applySnapshot (truncatePrefix before.log before.commitIndex) snapshot

theorem createSnapshot_cases (node : RaftNode L) :
    (node.createSnapshot env).1 = node ∨ Compacts node (node.createSnapshot env).1 := by
  unfold createSnapshot
  split
  · exact .inl rfl
  next above =>
    dsimp only
    split
    · exact .inl rfl
    next present =>
      split
      · exact .inl rfl
      · refine .inr ⟨⟨rfl, rfl, rfl, rfl, rfl, rfl⟩, rfl, rfl, by omega, ?_, _, rfl, rfl⟩
        by_contra neither
        push Not at neither
        exact present ⟨neither.1, by omega⟩

theorem Compacts.of_idle {first second third fourth : RaftNode L} (left : Idle first second)
    (sameState : second.state = first.state) (compacts : Compacts second third)
    (right : Idle third fourth) (sameState' : fourth.state = third.state) : Compacts first fourth where
  toSteady := (left.toSteady.trans compacts.toSteady).trans right.toSteady
  pendingConfigIndex := by
    rw [right.pendingConfigIndex, compacts.pendingConfigIndex, left.pendingConfigIndex]
  state := by rw [sameState', compacts.state, sameState]
  above := by
    have := compacts.above
    rwa [left.log, left.commitIndex] at this
  present := by
    have := compacts.present
    rwa [left.log, left.commitIndex] at this
  log := by
    obtain ⟨snapshot, index, log⟩ := compacts.log
    rw [left.commitIndex] at index
    rw [left.log, left.commitIndex] at log
    exact ⟨snapshot, index, right.log.trans log⟩

theorem Sends.state (sends : Sends before after) : after.state = before.state := by
  obtain ⟨_, _, rfl, _⟩ := sends
  rfl

theorem heartbeatTick_cases (node : RaftNode L) :
    Idle node (node.heartbeatTick env) ∨ Compacts node (node.heartbeatTick env) := by
  unfold heartbeatTick
  split
  · exact .inl (.refl node)
  · split
    · exact .inl (.becomeFollower node node.currentTerm)
    · have sends := (sendHeartbeats_sends env node).trans (replicateToFollowers_sends env _)
      revert sends
      generalize (node.sendHeartbeats env).replicateToFollowers env = sent
      intro sends
      have reactivated := tryReactivateFollowers_sends env (sent.maybeCreateSnapshot env)
      have compacted : sent.maybeCreateSnapshot env = sent ∨ Compacts sent (sent.maybeCreateSnapshot env) := by
        unfold maybeCreateSnapshot
        split
        · exact .inl rfl
        · split
          · exact createSnapshot_cases env sent
          · exact .inl rfl
      rcases compacted with same | compacts
      · rw [same] at reactivated ⊢
        exact .inl (sends.idle.trans reactivated.idle)
      · exact .inr (.of_idle sends.idle sends.state compacts reactivated.idle reactivated.state)

/-- A new commit index of the leader: matched by a quorum and of the current
term, or the end of the log of a single member without active followers. -/
structure Commits (node : RaftNode L) (index : Int) : Prop where
  leader : node.state = .leader
  above : node.commitIndex < index
  below : index ≤ node.lastLogIndex
  quorum : node.membership.members.length = 1 ∧ index = node.lastLogIndex ∨
    node.quorumSize ≤ node.sortedMatches.length ∧
      index ≤ node.sortedMatches.getD (node.quorumSize - 1) 0 ∧
      termAt node.log index = node.currentTerm

private theorem findCommit_spec (node : RaftNode L) (replicated : List Int) (distance : Nat)
    (index : Int) (found : node.findCommit replicated distance = some index) :
    node.commitIndex < index ∧ index ≤ node.commitIndex + distance ∧
      node.quorumSize ≤ replicated.length ∧ index ≤ replicated.getD (node.quorumSize - 1) 0 ∧
      termAt node.log index = node.currentTerm := by
  have recurse : ∀ distance : Nat, (node.findCommit replicated distance = some index →
      node.commitIndex < index ∧ index ≤ node.commitIndex + distance ∧
        node.quorumSize ≤ replicated.length ∧ index ≤ replicated.getD (node.quorumSize - 1) 0 ∧
        termAt node.log index = node.currentTerm) →
      node.findCommit replicated distance = some index →
      node.commitIndex < index ∧ index ≤ node.commitIndex + (distance + 1 : Nat) ∧
        node.quorumSize ≤ replicated.length ∧ index ≤ replicated.getD (node.quorumSize - 1) 0 ∧
        termAt node.log index = node.currentTerm := by
    intro distance below found
    obtain ⟨above, bound, rest⟩ := below found
    exact ⟨above, by omega, rest⟩
  induction distance with
  | zero => cases found
  | succ distance ih =>
    unfold findCommit at found
    dsimp only at found
    split at found
    · cases found
    next enough =>
      split at found
      · exact recurse distance ih found
      next reached =>
        split at found
        · exact recurse distance ih found
        next current =>
          split at found
          · exact recurse distance ih found
          · cases found
            exact ⟨by omega, le_refl _, by omega, by omega, by simpa using current⟩

theorem advanceCommitIndex_cases (node : RaftNode L) :
    node.advanceCommitIndex = node ∨ ∃ index, node.Commits index ∧
      node.advanceCommitIndex = { node with commitIndex := index }.applyCommitted := by
  unfold advanceCommitIndex
  split
  · exact .inl rfl
  next leads =>
    have leader : node.state = .leader := by simpa using leads
    split
    · exact .inl rfl
    next behind =>
      split
      · split
        next single =>
          exact .inr ⟨_, ⟨leader, by omega, le_refl _, .inl ⟨single, rfl⟩⟩, rfl⟩
        · exact .inl rfl
      · split
        next index found =>
          obtain ⟨above, bound, quorum⟩ := findCommit_spec node _ _ index found
          exact .inr ⟨index, ⟨leader, above, by omega, .inr quorum⟩, rfl⟩
        · exact .inl rfl

def adopt (node : RaftNode L) (term : Int) : RaftNode L :=
  if term > node.currentTerm then node.becomeFollower term else node

omit [RaftLog L] in
theorem adopt_cases (node : RaftNode L) (term : Int) :
    term > node.currentTerm ∧ node.adopt term = node.becomeFollower term ∨
      term ≤ node.currentTerm ∧ node.adopt term = node := by
  unfold adopt
  split
  next higher => exact .inl ⟨higher, rfl⟩
  next lower => exact .inr ⟨by omega, rfl⟩

section Adopt

omit [RaftLog L]

variable (node : RaftNode L) (term : Int)

@[simp] theorem adopt_nodeId : (node.adopt term).nodeId = node.nodeId := by
  rcases adopt_cases node term with ⟨_, shape⟩ | ⟨_, shape⟩ <;> simp [shape]

@[simp] theorem adopt_config : (node.adopt term).config = node.config := by
  rcases adopt_cases node term with ⟨_, shape⟩ | ⟨_, shape⟩ <;> simp [shape]

@[simp] theorem adopt_log : (node.adopt term).log = node.log := by
  rcases adopt_cases node term with ⟨_, shape⟩ | ⟨_, shape⟩ <;> simp [shape]

@[simp] theorem adopt_commitIndex : (node.adopt term).commitIndex = node.commitIndex := by
  rcases adopt_cases node term with ⟨_, shape⟩ | ⟨_, shape⟩ <;> simp [shape]

@[simp] theorem adopt_lastApplied : (node.adopt term).lastApplied = node.lastApplied := by
  rcases adopt_cases node term with ⟨_, shape⟩ | ⟨_, shape⟩ <;> simp [shape]

@[simp] theorem adopt_membership : (node.adopt term).membership = node.membership := by
  rcases adopt_cases node term with ⟨_, shape⟩ | ⟨_, shape⟩ <;> simp [shape]

@[simp] theorem adopt_outbox : (node.adopt term).outbox = node.outbox := by
  rcases adopt_cases node term with ⟨_, shape⟩ | ⟨_, shape⟩ <;> simp [shape]

@[simp] theorem adopt_applied : (node.adopt term).applied = node.applied := by
  rcases adopt_cases node term with ⟨_, shape⟩ | ⟨_, shape⟩ <;> simp [shape]

@[simp] theorem adopt_pendingConfigIndex : (node.adopt term).pendingConfigIndex = node.pendingConfigIndex := by
  rcases adopt_cases node term with ⟨_, shape⟩ | ⟨_, shape⟩ <;> simp [shape]

@[simp] theorem adopt_currentTerm : (node.adopt term).currentTerm = max node.currentTerm term := by
  rcases adopt_cases node term with ⟨_, shape⟩ | ⟨lower, shape⟩
  · simp [shape]
  · rw [shape, max_eq_left lower]

end Adopt

/-!
## Requests and responses
-/

/-- What a vote request can do: pre-votes change nothing, a stale or denied
request at most the term, and a granted one records the candidate. -/
inductive VoteOutcome (node : RaftNode L) (request : RequestVoteRequest) :
    RaftNode L × RequestVoteResponse → Prop
  | preVote (response : RequestVoteResponse) (preVote : request.preVote = true) :
      VoteOutcome node request (node, response)
  | stale (below : request.term < node.currentTerm) :
      VoteOutcome node request (node, { term := node.currentTerm })
  | denied (regular : request.preVote = false) (current : node.currentTerm ≤ request.term) :
      VoteOutcome node request (node.adopt request.term, { term := request.term })
  | granted (regular : request.preVote = false) (current : node.currentTerm ≤ request.term)
      (free : (node.adopt request.term).votedFor = kNoLeader ∨
        (node.adopt request.term).votedFor = request.candidateId)
      (upToDate : node.logIsUpToDate request.lastLogIndex request.lastLogTerm = true) :
      VoteOutcome node request
        ({ node.adopt request.term with votedFor := request.candidateId },
          { term := request.term, voteGranted := true })

section

variable (node : RaftNode L) (request : RequestVoteRequest)
include node request

private theorem handleRequestVote_eq : node.handleRequestVote request =
      if request.preVote then
        if request.term < node.currentTerm then (node, { term := node.currentTerm })
        else if !node.logIsUpToDate request.lastLogIndex request.lastLogTerm then
          (node, { term := node.currentTerm })
        else (node, { term := node.currentTerm, voteGranted := true })
      else if request.term < node.currentTerm then (node, { term := node.currentTerm })
      else if (node.adopt request.term).votedFor ≠ kNoLeader ∧
          (node.adopt request.term).votedFor ≠ request.candidateId then
        (node.adopt request.term, { term := (node.adopt request.term).currentTerm })
      else if !(node.adopt request.term).logIsUpToDate request.lastLogIndex request.lastLogTerm then
        (node.adopt request.term, { term := (node.adopt request.term).currentTerm })
      else
        ({ node.adopt request.term with votedFor := request.candidateId },
          { term := (node.adopt request.term).currentTerm, voteGranted := true }) := rfl

theorem handleRequestVote_outcome : VoteOutcome node request (node.handleRequestVote request) := by
  have sameLog : ∀ index term, (node.adopt request.term).logIsUpToDate index term =
      node.logIsUpToDate index term := by
    intro index term
    simp [logIsUpToDate, lastLogIndex]
  rw [handleRequestVote_eq]
  split
  next preVote =>
    repeat' split
    all_goals exact .preVote _ preVote
  next regular =>
    have regular : request.preVote = false := by simpa using regular
    split
    next below => exact .stale below
    next current =>
      have term : (node.adopt request.term).currentTerm = request.term := by
        rw [adopt_currentTerm]
        omega
      rw [term]
      split
      · exact .denied regular (by omega)
      next free =>
        split
        · exact .denied regular (by omega)
        next upToDate =>
          refine .granted regular (by omega) ?_ (by simpa [sameLog] using upToDate)
          by_contra neither
          push Not at neither
          exact free neither

theorem handleRequestVote_idle : Idle node (node.handleRequestVote request).1 := by
  have adopted : Idle node (node.adopt request.term) :=
    ⟨⟨by simp, by simp, by simp, by simp, by simp, by simp⟩, by simp, by simp⟩
  generalize reply : node.handleRequestVote request = result
  have outcome := node.handleRequestVote_outcome request
  rw [reply] at outcome
  cases outcome with
  | preVote | stale => exact .refl node
  | denied => exact adopted
  | granted => exact adopted.trans ⟨⟨rfl, rfl, rfl, rfl, rfl, rfl⟩, rfl, rfl⟩

theorem handleRequestVote_state
    (leads : (node.handleRequestVote request).1.state = .leader) : node.state = .leader := by
  have adopted : (node.adopt request.term).state = .leader → node.state = .leader := by
    rcases adopt_cases node request.term with ⟨_, shape⟩ | ⟨_, shape⟩ <;> simp [shape]
  revert leads
  generalize reply : node.handleRequestVote request = result
  have outcome := node.handleRequestVote_outcome request
  rw [reply] at outcome
  cases outcome with
  | preVote => exact id
  | stale => exact id
  | denied => exact adopted
  | granted => exact adopted

end

/-- What an AppendEntries request can do: it is stale, it meets the leader of
its own term, its entries are refused, or they are stored. -/
inductive AppendOutcome (node : RaftNode L) (request : AppendEntriesRequest) :
    RaftNode L × AppendEntriesResponse → Prop
  | stale (below : request.term < node.currentTerm) : AppendOutcome node request
      (node,
        { term := node.currentTerm
          lastLogIndex := node.lastLogIndex
          conflictIndex := node.lastLogIndex + 1 })
  | rival (current : request.term = node.currentTerm) (leads : node.state = .leader) :
      AppendOutcome node request
        ({ node with leaderId := request.leaderId },
          { term := node.currentTerm, lastLogIndex := node.lastLogIndex })
  | refused (conflict : Int) (current : node.currentTerm ≤ request.term)
      (follows : (node.adopt request.term).state ≠ .leader)
      (stored : (appendEntriesToLog node.log request).2 = some conflict) :
      AppendOutcome node request
        ({ node.adopt request.term with
            leaderId := request.leaderId
            log := (appendEntriesToLog node.log request).1 },
          { term := request.term, lastLogIndex := node.lastLogIndex, conflictIndex := conflict })
  | accepted (current : node.currentTerm ≤ request.term)
      (follows : (node.adopt request.term).state ≠ .leader)
      (stored : (appendEntriesToLog node.log request).2 = none) :
      AppendOutcome node request
        ({ node.adopt request.term with
            leaderId := request.leaderId
            log := (appendEntriesToLog node.log request).1 }.advanceFollowerCommit request,
          { term := request.term, success := true, lastLogIndex := node.lastLogIndex })

def answer (node : RaftNode L) (request : AppendEntriesRequest) (term lastLogIndex : Int) (stored : L × Option Int) :
    RaftNode L × AppendEntriesResponse :=
  match stored.2 with
  | some conflict =>
    ({ node with leaderId := request.leaderId, log := stored.1 },
      { term, lastLogIndex, conflictIndex := conflict })
  | none =>
    ({ node with leaderId := request.leaderId, log := stored.1 }.advanceFollowerCommit request,
      { term, lastLogIndex, success := true })

theorem handleAppendEntries_outcome (node : RaftNode L) (request : AppendEntriesRequest) :
    AppendOutcome node request (node.handleAppendEntries request) := by
  unfold handleAppendEntries
  dsimp only
  split
  next below => exact .stale below
  next current =>
    have term := adopt_currentTerm node request.term
    have same : (node.adopt request.term).log = node.log := adopt_log node request.term
    change AppendOutcome node request (if (node.adopt request.term).state = .leader ∧
      request.term = (node.adopt request.term).currentTerm then _ else _)
    have atTerm : (node.adopt request.term).currentTerm = request.term := by omega
    split
    next rival =>
      rcases adopt_cases node request.term with ⟨_, shape⟩ | ⟨lower, shape⟩
      · have leads := rival.1
        rw [shape, becomeFollower_state] at leads
        cases leads
      · have shape' : (if request.term > node.currentTerm then node.becomeFollower request.term
            else node) = node := shape
        rw [shape']
        exact .rival (by omega) (shape ▸ rival.1)
    next follows =>
      have role : (node.adopt request.term).state ≠ .leader := by
        intro leads
        exact follows ⟨leads, atTerm.symm⟩
      change AppendOutcome node request ((node.adopt request.term).answer request
        (node.adopt request.term).currentTerm node.lastLogIndex
        (appendEntriesToLog (node.adopt request.term).log request))
      rw [same, atTerm]
      unfold answer
      split
      next conflict stored => exact .refused conflict (by omega) role stored
      next stored => exact .accepted (by omega) role stored

def acknowledge (follower : FollowerState) (index : Int) : FollowerState :=
  if index > follower.matchIndex then
    { follower with matchIndex := index, nextIndex := index + 1 }
  else follower

inductive AckOutcome (node : RaftNode L) (sender : RaftNodeId) (response : AppendEntriesResponse) :
    RaftNode L → Prop
  | ignored : AckOutcome node sender response node
  | deposed (higher : node.currentTerm < response.term) :
      AckOutcome node sender response (node.becomeFollower response.term)
  | advanced (follower : FollowerState) (replication : Replication) (leads : node.state = .leader)
      (current : response.term ≤ node.currentTerm) (succeeded : response.success = true)
      (tracked : node.replication.followerStates.lookup sender = some follower)
      (recorded : replication.followerStates = node.replication.followerStates.insert sender
        (acknowledge { follower with inFlight := follower.inFlight - 1, isActive := true }
          response.lastLogIndex)) :
      AckOutcome node sender response { node with replication := replication }.advanceCommitIndex
  | retried (follower : FollowerState) (replication : Replication) (after : RaftNode L)
      (leads : node.state = .leader) (failed : response.success = false)
      (tracked : node.replication.followerStates.lookup sender = some follower)
      (recorded : replication.followerStates = node.replication.followerStates.insert sender
        (node.backtrack { follower with inFlight := follower.inFlight - 1, isActive := true } response))
      (sent : Sends { node with replication := replication } after) :
      AckOutcome node sender response after

theorem handleAppendEntriesResponse_outcome (node : RaftNode L) (sender : RaftNodeId)
    (response : AppendEntriesResponse) :
    AckOutcome node sender response (node.handleAppendEntriesResponse env sender response) := by
  unfold handleAppendEntriesResponse
  split
  · exact .ignored
  next leads =>
    have leader : node.state = .leader := by simpa using leads
    split
    next higher => exact .deposed higher
    next current =>
      cases tracked : node.replication.followerStates.lookup sender with
      | none => exact .ignored
      | some follower =>
        dsimp only
        split
        next succeeded =>
          exact .advanced follower _ leader (by omega) succeeded tracked rfl
        next failed =>
          have failure : response.success = false := by simpa using failed
          split
          · exact .retried follower _ _ leader failure tracked rfl (sendInstallSnapshotTo_sends env _ sender)
          · split
            · exact .retried follower _ _ leader failure tracked rfl (sendInstallSnapshotTo_sends env _ sender)
            · exact .retried follower _ _ leader failure tracked rfl (sendAppendEntriesTo_sends env _ sender)

theorem handleInstallSnapshotResponse_cases (env : Env) (node : RaftNode L) (sender : RaftNodeId)
    (response : InstallSnapshotResponse) :
    let after := node.handleInstallSnapshotResponse env sender response
    after = node ∨ after = node.becomeFollower response.term ∨
      node.state = .leader ∧ ∃ replication, after = { node with replication := replication } ∨
        after = { node with replication := replication }.advanceCommitIndex ∨
        Sends { node with replication := replication } after := by
  dsimp only
  unfold handleInstallSnapshotResponse
  split
  · exact .inl rfl
  next leads =>
    have leader : node.state = .leader := by simpa using leads
    split
    · exact .inr (.inl rfl)
    · split
      · exact .inl rfl
      · dsimp only
        split
        · exact .inr (.inr ⟨leader, _, .inl rfl⟩)
        · split
          · exact .inr (.inr ⟨leader, _, .inr (.inl rfl)⟩)
          · exact .inr (.inr ⟨leader, _, .inr (.inr (sendInstallSnapshotTo_sends env _ sender))⟩)

def chunkReceived (node : RaftNode L) (request : InstallSnapshotRequest) : RaftNode L × Bool :=
  { node.adopt request.term with leaderId := request.leaderId }.receiveChunk request

omit [RaftLog L] in
theorem chunkReceived_steady (node : RaftNode L) (request : InstallSnapshotRequest) :
    Steady node (node.chunkReceived request).1 ∧ (node.chunkReceived request).1.log = node.log := by
  have received : ∀ reached : RaftNode L, Steady reached (reached.receiveChunk request).1 ∧
      (reached.receiveChunk request).1.log = reached.log := by
    intro reached
    unfold receiveChunk
    dsimp only
    repeat' split
    all_goals exact ⟨⟨rfl, rfl, rfl, rfl, rfl, rfl⟩, rfl⟩
  have adopted : Steady node { node.adopt request.term with leaderId := request.leaderId } :=
    ⟨by simp, by simp, by simp, by simp, by simp, by simp⟩
  obtain ⟨steady, log⟩ := received { node.adopt request.term with leaderId := request.leaderId }
  exact ⟨adopted.trans steady, log.trans (adopt_log node request.term)⟩

theorem handleInstallSnapshot_eq (node : RaftNode L) (request : InstallSnapshotRequest) :
    (node.handleInstallSnapshot env request).1 =
      if request.term < node.currentTerm then node
      else if (node.chunkReceived request).2 && request.done then
        (node.chunkReceived request).1.installReceivedSnapshot env
      else (node.chunkReceived request).1 := by
  unfold handleInstallSnapshot
  rw [apply_ite Prod.fst]
  dsimp only
  rw [apply_ite Prod.fst]
  rfl

theorem handleInstallSnapshot_cases (env : Env) (node : RaftNode L) (request : InstallSnapshotRequest) :
    let after := (node.handleInstallSnapshot env request).1
    Steady node after ∧ after.log = node.log ∨
      ∃ snapshot, after.log = applySnapshot node.log snapshot ∧
        after.commitIndex = max node.commitIndex snapshot.lastIncludedIndex ∧
        after.lastApplied = max node.lastApplied snapshot.lastIncludedIndex ∧
        after.applied = node.applied := by
  dsimp only
  rw [handleInstallSnapshot_eq]
  obtain ⟨steady, log⟩ := chunkReceived_steady node request
  revert steady log
  generalize (node.chunkReceived request).2 = complete
  generalize (node.chunkReceived request).1 = received
  intro steady log
  split
  · exact .inl ⟨.refl node, rfl⟩
  · split
    · unfold installReceivedSnapshot
      dsimp only
      split
      · rw [← log, ← steady.commitIndex, ← steady.lastApplied, ← steady.applied]
        exact .inr ⟨_, rfl, rfl, rfl, rfl⟩
      · refine .inl ⟨steady.trans ?_, log⟩
        exact ⟨rfl, rfl, rfl, rfl, rfl, rfl⟩
    · exact .inl ⟨steady, log⟩

/-!
## Steps
-/

/-- What a step can do to log, commit index and state machine: nothing, extend
or compact the log of a leader, or what the four handlers do that commit or
store something. -/
inductive StepOutcome (node : RaftNode L) : Input → RaftNode L → Prop
  | idle (input : Input) (after : RaftNode L) (idle : Idle node after)
      (leads : after.state = .leader → node.state = .leader) : StepOutcome node input after
  | proposed (command : RaftCommand) (after : RaftNode L) (proposes : Proposes node after command) :
      StepOutcome node (.propose command) after
  | won (env : Env) (sender : RaftNodeId) (response : RequestVoteResponse)
      (wins : node.Wins response) :
      StepOutcome node (.requestVoteResponse env sender response)
        ((node.countVote response).becomeLeader env)
  | compacted (input : Input) (after : RaftNode L) (compacts : Compacts node after) :
      StepOutcome node input after
  | appendEntries (request : AppendEntriesRequest) :
      StepOutcome node (.appendEntries request) (node.handleAppendEntries request).1
  | installSnapshot (env : Env) (request : InstallSnapshotRequest) :
      StepOutcome node (.installSnapshot env request) (node.handleInstallSnapshot env request).1
  | appendEntriesResponse (env : Env) (sender : RaftNodeId) (response : AppendEntriesResponse) :
      StepOutcome node (.appendEntriesResponse env sender response)
        (node.handleAppendEntriesResponse env sender response)
  | installSnapshotResponse (env : Env) (sender : RaftNodeId) (response : InstallSnapshotResponse) :
      StepOutcome node (.installSnapshotResponse env sender response)
        (node.handleInstallSnapshotResponse env sender response)

section

variable (node : RaftNode L)

include node

theorem becomeCandidate_state (follows : node.state ≠ .leader) :
    node.becomeCandidate.state ≠ .leader := by
  unfold becomeCandidate
  rw [if_neg follows]
  split
  · simp
  · exact nofun

theorem becomePreCandidate_state (follows : node.state ≠ .leader) :
    node.becomePreCandidate.state ≠ .leader := by
  unfold becomePreCandidate
  rw [if_neg follows]
  split
  · exact follows
  · split
    · exact follows
    · split
      · exact becomeCandidate_state node follows
      · exact nofun

theorem onElectionTimeout_state
    (leads : node.onElectionTimeout.state = .leader) : node.state = .leader := by
  by_contra follows
  revert leads
  unfold onElectionTimeout
  rw [if_neg follows]
  split
  · exact becomePreCandidate_state node follows
  · exact becomeCandidate_state node follows

theorem heartbeatTick_state
    (leads : (node.heartbeatTick env).state = .leader) : node.state = .leader := by
  by_contra follows
  rw [heartbeatTick, if_pos follows] at leads
  exact follows leads

theorem transferRound_state (target : RaftNodeId) (lastIndex : Int) :
    (node.transferRound env target lastIndex).state = node.state := by
  unfold transferRound
  repeat' split
  all_goals first
    | rfl
    | exact (sendAppendEntriesTo_sends env node target).state

theorem step_outcome (input : Input) : StepOutcome node input (node.step input) := by
  cases input with
  | appendEntries request => exact .appendEntries request
  | requestVote request =>
    exact .idle _ _ (handleRequestVote_idle node request) (handleRequestVote_state node request)
  | installSnapshot env request => exact .installSnapshot env request
  | appendEntriesResponse env sender response => exact .appendEntriesResponse env sender response
  | requestVoteResponse env sender response =>
    change StepOutcome node _ (node.handleRequestVoteResponse env sender response)
    generalize result : node.handleRequestVoteResponse env sender response = after
    have outcome := handleRequestVoteResponse_outcome env node sender response
    rw [result] at outcome
    cases outcome with
    | ignored => exact .idle _ _ (.refl node) id
    | deposed => exact .idle _ _ (.becomeFollower node response.term) (by simp)
    | preCounted | counted => exact .idle _ _ ⟨⟨rfl, rfl, rfl, rfl, rfl, rfl⟩, rfl, rfl⟩ id
    | nominated stands preVotes =>
      refine .idle _ _ (.trans ?_ (becomeCandidate_idle _)) ?_
      · exact ⟨⟨rfl, rfl, rfl, rfl, rfl, rfl⟩, rfl, rfl⟩
      · intro leads
        refine absurd leads (becomeCandidate_state _ ?_)
        simp [stands]
    | won wins => exact .won env sender response wins
  | installSnapshotResponse env sender response => exact .installSnapshotResponse env sender response
  | electionTimeout => exact .idle _ _ (onElectionTimeout_idle node) (onElectionTimeout_state node)
  | heartbeatTick env =>
    rcases heartbeatTick_cases env node with idle | compacts
    · exact .idle _ _ idle (heartbeatTick_state env node)
    · exact .compacted _ _ compacts
  | propose command =>
    rcases propose_cases node command with same | proposes
    · exact .idle _ _ (by rw [step, same]; exact .refl node) (by rw [step, same]; exact id)
    · exact .proposed command _ proposes
  | createSnapshot env =>
    rcases createSnapshot_cases env node with same | compacts
    · exact .idle _ _ (by rw [step, same]; exact .refl node) (by rw [step, same]; exact id)
    · exact .compacted _ _ compacts
  | stepDown =>
    refine .idle _ _ (stepDown_idle node) ?_
    change node.stepDown.state = .leader → _
    unfold stepDown
    split
    · exact id
    · simp
  | transferStart target =>
    refine .idle _ _ (transferStart_idle node target) ?_
    change (node.transferStart target).state = .leader → _
    unfold transferStart
    repeat' split
    all_goals exact id
  | transferRound env target lastIndex =>
    exact .idle _ _ (transferRound_idle env node target lastIndex)
      (transferRound_state env node target lastIndex ▸ id)
  | transferSignal target => exact .idle _ _ ⟨⟨rfl, rfl, rfl, rfl, rfl, rfl⟩, rfl, rfl⟩ id
  | transferFinish =>
    refine .idle _ _ (transferFinish_idle node) ?_
    change node.transferFinish.state = .leader → _
    unfold transferFinish
    dsimp only
    split
    · simp
    · exact id
  | shutdown =>
    refine .idle _ _ (shutdown_idle node) ?_
    change node.shutdown.state = .leader → _
    unfold shutdown
    split
    · exact id
    · exact nofun

end

theorem Proposes.steady {command : RaftCommand}
    (proposes : Proposes before after command) : Steady before after := by
  obtain ⟨_, _, _, rfl, _⟩ := proposes.appends
  exact ⟨rfl, rfl, rfl, rfl, rfl, rfl⟩

theorem becomeLeader_steady (node : RaftNode L) : Steady node (node.becomeLeader env) := by
  have office : Steady node node.elected := ⟨rfl, rfl, rfl, rfl, rfl, rfl⟩
  rcases becomeLeader_cases env node with ⟨_, shape⟩ | ⟨_, shape⟩ | ⟨_, sends⟩
  · rw [shape]
    exact .becomeFollower node node.currentTerm
  · rw [shape]
    exact office.trans (.becomeFollower _ _)
  · exact office.trans sends.steady

theorem step_cases (node : RaftNode L) (input : Input) :
    Steady node (node.step input) ∨ (∃ request, input = .appendEntries request) ∨
      (∃ env request, input = .installSnapshot env request) ∨
      (∃ env sender response, input = .appendEntriesResponse env sender response) ∨
      ∃ env sender response, input = .installSnapshotResponse env sender response := by
  generalize result : node.step input = after
  have outcome := step_outcome node input
  rw [result] at outcome
  cases outcome with
  | idle _ _ idle => exact .inl idle.toSteady
  | proposed _ _ proposes => exact .inl proposes.steady
  | won env _ response =>
    refine .inl (.trans ?_ (becomeLeader_steady env _))
    exact ⟨rfl, rfl, rfl, rfl, rfl, rfl⟩
  | compacted _ _ compacts => exact .inl compacts.toSteady
  | appendEntries request => exact .inr (.inl ⟨request, rfl⟩)
  | installSnapshot env request => exact .inr (.inr (.inl ⟨env, request, rfl⟩))
  | appendEntriesResponse env sender response =>
    exact .inr (.inr (.inr (.inl ⟨env, sender, response, rfl⟩)))
  | installSnapshotResponse env sender response =>
    exact .inr (.inr (.inr (.inr ⟨env, sender, response, rfl⟩)))

end RaftNode

end TorrentMq.Consensus
