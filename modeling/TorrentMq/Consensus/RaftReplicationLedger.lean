import TorrentMq.Consensus.RaftNodeCases

/-! The bookkeeping of a leader: which operations leave it alone, and where the
requests in the outbox come from. -/

set_option autoImplicit false

namespace TorrentMq.Consensus

namespace RaftNode

variable {L : Type} [RaftLog L]

/-- Bookkeeping is kept or dropped, and no entries are sent. -/
structure Unsent (before after : RaftNode L) : Prop where
  replication : after.replication = before.replication ∨ after.replication.followerStates = ∅
  outbox : ∀ target request, .appendEntries target request ∈ after.outbox →
    .appendEntries target request ∈ before.outbox

/-- Every tracked index is good, and every request was sent before or is built
from the log and a tracked index. -/
structure Ledger (good : RaftNodeId → Int → Int → Prop) (before after : RaftNode L) : Prop where
  tracked : after.replication.Tracked good
  sent : ∀ target request, .appendEntries target request ∈ after.outbox →
    .appendEntries target request ∈ before.outbox ∨
      after.state = .leader ∧ after.Announces good (.appendEntries target request)

namespace Unsent

omit [RaftLog L]

theorem refl (node : RaftNode L) : Unsent node node := ⟨.inl rfl, fun _ _ => id⟩

theorem trans {first second third : RaftNode L} (left : Unsent first second)
    (right : Unsent second third) : Unsent first third where
  replication := by
    rcases right.replication with same | empty
    · rw [same]
      exact left.replication
    · exact .inr empty
  outbox target request sent := left.outbox target request (right.outbox target request sent)

theorem becomeFollower (node : RaftNode L) (newTerm : Int) : Unsent node (node.becomeFollower newTerm) := by
  obtain ⟨replication, _, _, _, _, shape, kept⟩ := becomeFollower_eq node newTerm
  rw [shape]
  exact ⟨kept, fun _ _ => id⟩

theorem adopt (node : RaftNode L) (term : Int) : Unsent node (node.adopt term) := by
  rcases adopt_cases node term with ⟨_, shape⟩ | ⟨_, shape⟩
  · rw [shape]
    exact .becomeFollower node term
  · rw [shape]
    exact .refl node

theorem ledger [RaftLog L] {good : RaftNodeId → Int → Int → Prop} {before after : RaftNode L}
    (unsent : Unsent before after) (tracked : before.replication.Tracked good) :
    Ledger good before after where
  tracked := by
    rcases unsent.replication with same | empty
    · rwa [same]
    · intro peer follower found
      rw [empty] at found
      simp at found
  sent target request sent := .inl (unsent.outbox target request sent)

end Unsent

variable {good : RaftNodeId → Int → Int → Prop}

theorem Sends.ledger {before after : RaftNode L}
    (sends : Sends before after) (leads : before.state = .leader)
    (fresh : ∀ peer ∈ before.peers, good peer (before.lastLogIndex + 1) 0)
    (tracked : before.replication.Tracked good) : Ledger good before after := by
  obtain ⟨replication, messages, rfl, kept⟩ := sends
  obtain ⟨tracked', announced⟩ := kept good fresh tracked
  refine ⟨tracked', fun target request sent => ?_⟩
  rcases List.mem_append.mp sent with old | new
  · exact .inl old
  · exact .inr ⟨leads, announced _ new⟩

/-- What tracking assumes of the indices of a peer: nothing is acknowledged at
first, and the next index is free to move. -/
structure Trackable (node : RaftNode L) (good : RaftNodeId → Int → Int → Prop) : Prop where
  fresh : ∀ peer ∈ node.peers, ∀ nextIndex, 1 ≤ nextIndex → good peer nextIndex 0
  moved : ∀ peer nextIndex matchIndex nextIndex', good peer nextIndex matchIndex → 1 ≤ nextIndex' →
    good peer nextIndex' matchIndex

omit [RaftLog L] in
theorem tracked_insert {replication recorded : Replication}
    (tracked : replication.Tracked good) {peer : RaftNodeId} {follower : FollowerState}
    (shape : recorded.followerStates = replication.followerStates.insert peer follower)
    (next : good peer follower.nextIndex follower.matchIndex) : recorded.Tracked good :=
  (tracked.setFollower next).congr shape

variable (node : RaftNode L)

theorem becomeCandidate_unsent : Unsent node node.becomeCandidate := by
  unfold becomeCandidate
  split
  · exact .becomeFollower node node.currentTerm
  · split
    · exact .refl node
    · refine ⟨.inl rfl, ?_⟩
      intro target request sent
      simpa [startVoteRound] using sent

theorem onElectionTimeout_unsent : Unsent node node.onElectionTimeout := by
  unfold onElectionTimeout
  split
  · exact .refl node
  · split
    · unfold becomePreCandidate
      split
      · exact .refl node
      · split
        · exact .refl node
        · split
          · exact becomeCandidate_unsent node
          · refine ⟨.inl rfl, ?_⟩
            intro target request sent
            simpa [startVoteRound] using sent
    · exact becomeCandidate_unsent node

theorem propose_unsent (command : RaftCommand) : Unsent node (node.propose command).1 := by
  rcases propose_cases node command with same | proposes
  · rw [same]
    exact .refl node
  · obtain ⟨_, _, _, shape, _⟩ := proposes.appends
    rw [shape]
    exact ⟨.inl rfl, fun _ _ => id⟩

theorem handleRequestVote_unsent (request : RequestVoteRequest) :
    Unsent node (node.handleRequestVote request).1 := by
  generalize reply : node.handleRequestVote request = result
  have outcome := node.handleRequestVote_outcome request
  rw [reply] at outcome
  cases outcome with
  | preVote | stale => exact .refl node
  | denied => exact .adopt node request.term
  | granted => exact .trans (.adopt node request.term) ⟨.inl rfl, fun _ _ => id⟩

omit [RaftLog L] in
theorem stepDown_unsent : Unsent node node.stepDown := by
  unfold stepDown
  split
  · exact .refl node
  · exact .becomeFollower node node.currentTerm

omit [RaftLog L] in
theorem transferStart_unsent (target : RaftNodeId) : Unsent node (node.transferStart target) := by
  unfold transferStart
  repeat' split
  all_goals exact ⟨.inl rfl, fun _ _ => id⟩

omit [RaftLog L] in
theorem transferFinish_unsent : Unsent node node.transferFinish := by
  unfold transferFinish
  dsimp only
  split
  · exact .trans (.becomeFollower node node.currentTerm) ⟨.inl rfl, fun _ _ => id⟩
  · exact ⟨.inl rfl, fun _ _ => id⟩

omit [RaftLog L] in
theorem shutdown_unsent : Unsent node node.shutdown := by
  unfold shutdown
  split
  · exact .refl node
  · refine ⟨?_, fun _ _ => id⟩
    dsimp only
    split
    · exact .inr rfl
    · exact .inl rfl

theorem transferRound_ledger (env : Env) (node : RaftNode L) (target : RaftNodeId) (lastIndex : Int)
    (trackable : Trackable node good)
    (nonneg : 0 ≤ node.lastLogIndex) (tracked : node.replication.Tracked good) :
    Ledger good node (node.transferRound env target lastIndex) := by
  have dropped : Unsent node { node with transferring := false } := ⟨.inl rfl, fun _ _ => id⟩
  unfold transferRound
  split
  · exact dropped.ledger tracked
  · split
    · exact dropped.ledger tracked
    next leads =>
      split
      · exact (Unsent.refl node).ledger tracked
      · split
        · exact (Unsent.refl node).ledger tracked
        · refine (sendAppendEntriesTo_sends env node target).ledger (by simpa using leads) ?_ tracked
          exact fun peer member => trackable.fresh peer member _ (by omega)

end RaftNode

end TorrentMq.Consensus
