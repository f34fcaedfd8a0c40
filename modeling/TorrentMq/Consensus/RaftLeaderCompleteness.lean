import TorrentMq.Consensus.RaftLogMatching
import TorrentMq.ReplicatedLog.LeaderCompleteness

/-! Votes, acknowledgements and commits of a cluster, as leader completeness
needs them: a vote is given to a log that is not behind, a log is not cut short,
and a leader commits what a majority has stored in its term. -/

set_option autoImplicit false

namespace TorrentMq.Consensus

open LawfulRaftLog List RaftNode
open ReplicatedLog (View History Quorum UpToDate EndsIn)

def lastTerm (log : List LogEntry) : Int := (log.getLast?.map LogEntry.term).getD kNoTerm

theorem LawfulRaftLog.Uncompacted.termAt_last {L : Type} [RaftLog L] [LawfulRaftLog L] {log : L}
    (whole : Uncompacted log) :
    RaftLog.termAt log (RaftLog.lastIndex log) = lastTerm (entriesOf log) := by
  have last := whole.lastIndex
  unfold lastTerm
  rw [getLast?_eq_getElem?]
  by_cases empty : (entriesOf log).length = 0
  · rw [whole.termAt_nonpos (by omega), getElem?_eq_none (by omega)]
    rfl
  · obtain ⟨entry, found, term⟩ :=
      whole.exists_entry (show 0 < RaftLog.lastIndex log by omega) (le_refl _)
    rw [last, Int.toNat_natCast] at found
    rw [term, found]
    rfl

namespace Cluster

variable {L : Type} [RaftLog L]

/-- A request that a follower accepts does not only cut its log short: it
reaches to the end of the log, or one of its entries conflicts with a stored one. -/
def Uncut (cluster : Cluster L) : ClusterEvent L → Prop
  | .appendEntries _ target request =>
    (cluster.nodes target).currentTerm ≤ request.term →
      prevLogConflict (cluster.nodes target).log request = none → request.entries ≠ [] →
      (cluster.nodes target).lastLogIndex ≤ verified request ∨
        ∃ entry ∈ request.entries, ∃ stored ∈ RaftLog.entryAt (cluster.nodes target).log entry.index,
          stored.term ≠ entry.term
  | _ => True

instance (cluster : Cluster L) : (event : ClusterEvent L) → Decidable (cluster.Uncut event)
  | .appendEntries _ _ _ => inferInstanceAs (Decidable (_ → _ → _ → _ ∨ _))
  | .electionTimeout _ | .heartbeatTick _ _ | .propose _ _ | .requestVote _ _ _ | .requestVoteReply _ _
  | .appendEntriesReply _ _ | .stepDown _ | .transferStart _ _ | .transferRound _ _ _ _ | .transferSignal _ _
  | .transferFinish _ | .shutdown _ => .isTrue trivial

/-- A response raises the match index only in the term that it answers, and only
to what the request covers or to an entry of this term. -/
def AcksVerified (cluster : Cluster L) : ClusterEvent L → Prop
  | .appendEntriesReply _ reply =>
    ∀ follower ∈ (cluster.nodes reply.leader).replication.followerStates.lookup reply.follower,
      (cluster.nodes reply.leader).state = .leader → reply.response.success = true →
      reply.response.term ≤ (cluster.nodes reply.leader).currentTerm →
      follower.matchIndex < reply.response.lastLogIndex →
      reply.response.term = (cluster.nodes reply.leader).currentTerm ∧
        (reply.response.lastLogIndex ≤ verified reply.request ∨
          RaftLog.termAt reply.log reply.response.lastLogIndex =
            (cluster.nodes reply.leader).currentTerm)
  | _ => True

instance (cluster : Cluster L) : (event : ClusterEvent L) → Decidable (cluster.AcksVerified event)
  | .appendEntriesReply _ _ => inferInstanceAs (Decidable (∀ follower ∈ _, _))
  | .electionTimeout _ | .heartbeatTick _ _ | .propose _ _ | .requestVote _ _ _ | .requestVoteReply _ _
  | .appendEntries _ _ _ | .stepDown _ | .transferStart _ _ | .transferRound _ _ _ _ | .transferSignal _ _
  | .transferFinish _ | .shutdown _ => .isTrue trivial

variable [LawfulRaftLog L] {members : List RaftNodeId} {cluster : Cluster L}
  {history : History RaftNodeId Int LogEntry} {event : ClusterEvent L}

def Describes (request : RequestVoteRequest) (log : List LogEntry) : Prop :=
  request.lastLogIndex = log.length ∧ request.lastLogTerm = lastTerm log

omit [LawfulRaftLog L] in
theorem logIsUpToDate_iff {node : RaftNode L} {lastIndex lastTerm : Int} :
    node.logIsUpToDate lastIndex lastTerm = true ↔
      RaftLog.termAt node.log node.lastLogIndex < lastTerm ∨
        lastTerm = RaftLog.termAt node.log node.lastLogIndex ∧ node.lastLogIndex ≤ lastIndex := by
  unfold RaftNode.logIsUpToDate
  dsimp only
  split <;> rw [decide_eq_true_iff] <;> omega

theorem upToDate_of_describes {node : RaftNode L} {request : RequestVoteRequest} {log : List LogEntry}
    (whole : Uncompacted node.log) (positive : ∀ entry ∈ entriesOf node.log, 0 < entry.term)
    (describes : Describes request log)
    (upToDate : node.logIsUpToDate request.lastLogIndex request.lastLogTerm = true) :
    UpToDate LogEntry.term log (entriesOf node.log) := by
  intro voterLast found
  obtain ⟨length, term⟩ := describes
  have above := positive voterLast (mem_of_getLast? found)
  have last : node.lastLogIndex = (entriesOf node.log).length := whole.lastIndex
  have localTerm : RaftLog.termAt node.log node.lastLogIndex = voterLast.term := by
    rw [lastLogIndex, whole.termAt_last, lastTerm, found]
    rfl
  rw [logIsUpToDate_iff, localTerm, length, term] at upToDate
  cases ending : log.getLast? with
  | none =>
    have unset : lastTerm log = 0 := by
      rw [lastTerm, ending]
      rfl
    omega
  | some candidateLast =>
    have known : lastTerm log = candidateLast.term := by
      rw [lastTerm, ending]
      rfl
    refine ⟨candidateLast, rfl, ?_⟩
    rw [known, last] at upToDate
    refine upToDate.imp id ?_
    rintro ⟨same, longer⟩
    exact ⟨same.symm, by omega⟩

/-- A vote request of a candidate was sent from the log that backs its own vote. -/
def Standing (history : History RaftNodeId Int LogEntry) (node : RaftNodeId)
    (request : RequestVoteRequest) : Prop :=
  request.preVote = false → request.candidateId = node → history.Led request.term ∨
    ∃ log, history.backed node request.term node log ∧ Describes request log

section

variable (logging : Logging members cluster history)

include logging

theorem Logging.positive_terms
    (voting : Voting members entriesOf cluster history) {node : RaftNodeId} {entry : LogEntry}
    (member : entry ∈ entriesOf (cluster.nodes node).log) : 0 < entry.term := by
  have view := logging.matching.views node
  rw [voting.view] at view
  obtain ⟨position, found⟩ := getElem?_of_mem member
  exact logging.positive _ (view.take_stored found).1

theorem Logging.uncut (enabled : Enabled members cluster event)
    (ordinary : cluster.Ordinary event) (uncut : cluster.Uncut event)
    (short : entriesOf (cluster.acted event).log <+: entriesOf (cluster.nodes event.target).log) :
    entriesOf (cluster.acted event).log = entriesOf (cluster.nodes event.target).log := by
  have step := logging.logStep enabled ordinary
  have delivers := logging.delivers enabled
  have node := logging.nodes event.target
  generalize shape : event.input = input at step
  generalize cluster.acted event = after at step short
  cases step with
  | kept _ _ idle => rw [idle.log]
  | proposed _ _ _ _ _ _ entries | elected _ _ _ _ _ _ _ _ entries =>
    rw [entries] at short
    exact absurd short.length_le (by simp)
  | followed request _ followed =>
    obtain ⟨nonneg, numbered, _⟩ := delivers request shape
    have reached := (prevLogConflict_none _ followed.matched (node.whole.le.trans nonneg)).1
    rw [← lastIndex_eq, node.whole.lastIndex] at reached
    have entries := followed.entries
    unfold overwrite at entries
    split at entries
    · exact entries
    next nonempty =>
      cases event with
      | appendEntries sender target sent =>
        cases shape
        rcases uncut followed.current followed.matched nonempty with covers | ⟨entry, member, stored, found, differs⟩
        · refine short.eq_of_length_le ?_
          have last : (cluster.nodes target).lastLogIndex = _ := node.whole.lastIndex
          rw [last, verified] at covers
          rw [entries, length_append, length_take_of_le (by omega)]
          omega
        · exfalso
          obtain ⟨positive, found⟩ := node.whole.entryAt.mp found
          obtain ⟨above, given⟩ := numbered.getElem?_eq_some_iff.mpr ⟨member, rfl⟩
          obtain ⟨rest, same⟩ := short
          have taken : (entriesOf after.log)[entry.index.toNat - 1]? = some entry := by
            rw [entries, getElem?_append_right (by rw [length_take]; omega),
              length_take_of_le (by omega), ← given]
            congr 1
            omega
          obtain ⟨inside, _⟩ := List.getElem?_eq_some_iff.mp taken
          rw [← same, getElem?_append_left inside, taken] at found
          exact differs (by rw [Option.some.inj found])
      | _ => cases shape
  | advanced _ _ _ _ _ _ _ same => rw [same]

theorem Logging.backsLegally
    (voting : Voting members entriesOf cluster history)
    (standing : ∀ node target request, .requestVote target request ∈ (cluster.nodes node).outbox →
      Standing history node request)
    (enabled : Enabled members cluster event) (ordinary : cluster.Ordinary event)
    (uncut : cluster.Uncut event) :
    history.BacksLegally LogEntry.term event.target ((cluster.acted event).shows entriesOf) where
  uncut := by
    rw [voting.view]
    exact logging.uncut enabled ordinary uncut
  upToDate := by
    intro candidate vote unled
    rw [voting.view]
    have node := logging.nodes event.target
    have cast : (cluster.acted event).votedFor = candidate := by
      simp only [shows] at vote
      split at vote
      · cases vote
      · exact Option.some.inj vote
    have kept : (cluster.acted event).currentTerm = (cluster.nodes event.target).currentTerm →
        (cluster.acted event).votedFor = (cluster.nodes event.target).votedFor →
        ((cluster.acted event).shows entriesOf).term = ((cluster.nodes event.target).shows entriesOf).term ∧
          ((cluster.nodes event.target).shows entriesOf).vote = some candidate := by
      intro term votedFor
      refine ⟨term, ?_⟩
      simp only [shows] at vote ⊢
      rwa [votedFor] at vote
    have role := step_role (cluster.nodes event.target) event
    generalize shape : event.input = input at role
    generalize result : (cluster.nodes event.target).step input = after at role
    have acted : cluster.acted event = after := by rw [acted, shape, result]
    rw [acted] at kept cast vote unled ⊢
    cases role with
    | quiet _ _ quiet => exact .inl (kept quiet.currentTerm quiet.votedFor)
    | adopted _ _ _ unvoted =>
      simp [shows, unvoted] at vote
    | granted request regular current _ upToDate =>
      cases event with
      | requestVote sender target sent =>
        cases shape
        obtain ⟨_, _, own | self⟩ := voting.requests sender target request enabled.2
        · refine .inr (.inr ?_)
          have term : ((cluster.nodes target).adopt request.term).currentTerm = request.term :=
            (adopt_currentTerm _ _).trans (max_eq_right current)
          change request.candidateId = candidate at cast
          change ¬history.Led ((cluster.nodes target).adopt request.term).currentTerm at unled
          change ∃ log, history.backed candidate
            ((cluster.nodes target).adopt request.term).currentTerm candidate log ∧
              UpToDate LogEntry.term log (entriesOf ((cluster.nodes target).adopt request.term).log)
          rw [term] at unled ⊢
          rw [← cast, own, adopt_log]
          obtain ⟨log, backed, describes⟩ :=
            (standing sender target request enabled.2 regular own).resolve_left unled
          refine ⟨log, backed, upToDate_of_describes node.whole ?_ describes upToDate⟩
          exact fun entry => logging.positive_terms voting
        · exact .inr (.inl (cast.symm.trans self))
      | _ => cases shape
    | preCandidate _ _ currentTerm votedFor | won _ _ _ _ _ currentTerm votedFor =>
      exact .inl (kept currentTerm votedFor)
    | candidate _ _ _ votedFor =>
      exact .inr (.inl (cast.symm.trans (votedFor.trans (voting.nodeId event.target))))
    | counted => exact .inl (kept rfl rfl)
    | signalled => exact .inl (kept rfl rfl)

end

theorem countP_of_descending {values : List Int} (descending : values.Pairwise (· ≥ ·)) {position : Nat}
    (short : position < values.length) {index : Int} (reached : index ≤ values.getD position 0) :
    position + 1 ≤ values.countP (fun value => decide (index ≤ value)) := by
  induction values generalizing position with
  | nil => simp at short
  | cons value values ih =>
    obtain ⟨above, descending⟩ := pairwise_cons.mp descending
    cases position with
    | zero =>
      rw [countP_cons_of_pos (by simpa using reached)]
      omega
    | succ position =>
      rw [getD_cons_succ] at reached
      have inside : position < values.length := by simpa using short
      have member : values.getD position 0 ∈ values := by
        rw [getD_eq_getElem?_getD, getElem?_eq_getElem inside]
        exact getElem_mem inside
      rw [countP_cons_of_pos (by simpa using reached.trans (above _ member))]
      have := ih descending inside reached
      omega

omit [LawfulRaftLog L] in
theorem sortedMatches_peers (node : RaftNode L) {index : Int} (short : node.quorumSize ≤ node.sortedMatches.length)
    (reached : index ≤ node.sortedMatches.getD (node.quorumSize - 1) 0) :
    ∃ peers : Finset RaftNodeId, node.quorumSize ≤ peers.card + 1 ∧ ∀ peer ∈ peers,
      ∃ follower, node.replication.followerStates.lookup peer = some follower ∧ index ≤ follower.matchIndex := by
  have positive : 0 < node.quorumSize := by
    simp only [quorumSize, RaftMembership.quorumSize]
    split <;> omega
  have descending : node.sortedMatches.Pairwise (· ≥ ·) := pairwise_insertionSort _ _
  have counted := countP_of_descending descending
    (show node.quorumSize - 1 < node.sortedMatches.length by omega) reached
  unfold sortedMatches at counted
  rw [(perm_insertionSort _ _).countP_eq, countP_cons, countP_map,
    countP_eq_length_filter] at counted
  generalize shape : List.filter _ (List.filter _ _) = reaching at counted
  have inside : reaching.Sublist node.replication.followerStates.entries :=
    shape ▸ filter_sublist.trans filter_sublist
  have distinct : reaching.keys.Nodup :=
    List.NodupKeys.sublist inside node.replication.followerStates.nodupKeys
  refine ⟨reaching.keys.toFinset, ?_, ?_⟩
  · rw [toFinset_card_of_nodup distinct, List.keys, length_map]
    split at counted <;> omega
  · intro peer member
    obtain ⟨⟨_, follower⟩, stored, rfl⟩ := mem_map.mp (mem_toFinset.mp member)
    refine ⟨follower, AList.mem_lookup_iff.mpr (inside.subset stored), ?_⟩
    rw [← shape] at stored
    simpa using (List.mem_filter.mp stored).2

/-- The match index of a peer stands for a part of the leader's log that the
peer has shown in the term. -/
def Acked (members : List RaftNodeId) (history : History RaftNodeId Int LogEntry) (id : RaftNodeId)
    (term : Int) (peer : RaftNodeId) (nextIndex matchIndex : Int) : Prop :=
  Tracks members id peer nextIndex matchIndex ∧
    (matchIndex = 0 ∨ history.Led term ∧ matchIndex ≤ (history.leaderLog term).length ∧
      ∃ log, history.seen peer term log ∧ (history.leaderLog term).take matchIndex.toNat <+: log)

omit [RaftLog L] [LawfulRaftLog L] in
theorem Acked.mono {after : History RaftNodeId Int LogEntry} {id peer : RaftNodeId} {term : Int}
    {nextIndex matchIndex : Int} (acked : Acked members history id term peer nextIndex matchIndex)
    (grown : history.Extends after) : Acked members after id term peer nextIndex matchIndex := by
  obtain ⟨tracks, none | ⟨led, reached, log, seen, stored⟩⟩ := acked
  · exact ⟨tracks, .inl none⟩
  · have longer := grown.leaderLog led
    refine ⟨tracks, .inr ⟨grown.Led led, ?_, log, grown.seen seen, ?_⟩⟩
    · have := longer.length_le
      omega
    · obtain ⟨rest, same⟩ := longer
      rwa [← same, take_append_of_le_length (by omega)]

section

variable (logging : Logging members cluster history) (voting : Voting members entriesOf cluster history)

include logging voting

theorem Logging.acked (enabled : Enabled members cluster event)
    (ordinary : cluster.Ordinary event) (acks : cluster.AcksVerified event)
    (tracked : (cluster.nodes event.target).state = .leader →
      (cluster.nodes event.target).replication.Tracked
        (Acked members history event.target (cluster.nodes event.target).currentTerm))
    (leads : (cluster.acted event).state = .leader) :
    (cluster.acted event).replication.Tracked
      (Acked members history event.target (cluster.acted event).currentTerm) := by
  have node := logging.nodes event.target
  obtain ⟨term, office⟩ := (step_role (cluster.nodes event.target) event).leads leads
  rw [show (cluster.acted event).currentTerm = _ from term]
  have trackable : RaftNode.Trackable (cluster.nodes event.target)
      (Acked members history event.target (cluster.nodes event.target).currentTerm) := by
    refine ⟨?_, ?_⟩
    · intro peer member nextIndex positive
      obtain ⟨inside, differs⟩ := voting.peers member
      exact ⟨⟨inside, differs, positive, le_refl _⟩, .inl rfl⟩
    · rintro peer _ matchIndex nextIndex ⟨⟨inside, differs, _, nonneg⟩, stored⟩ positive
      exact ⟨⟨inside, differs, positive, nonneg⟩, stored⟩
  rcases office with held | ⟨env, sender, response, shape, wins⟩
  · refine (step_ledger _ event node.whole node.regular node.applied
      (logging.delivers enabled) ordinary.untaken trackable (tracked held) ?_).tracked
    intro env sender response follower shape _ succeeded current found higher
    cases event with
    | appendEntriesReply _ reply =>
      cases shape
      obtain ⟨inside, differs, _, nonneg⟩ := node.tracked _ follower found
      obtain ⟨answered, within⟩ := acks follower found held succeeded current higher
      have sound := logging.replies reply enabled.2 succeeded
      have sameTerm : reply.request.term = (cluster.nodes reply.leader).currentTerm :=
        sound.term.symm.trans answered
      obtain ⟨reached, stored⟩ := sound.holds logging (sameTerm ▸ within)
      refine ⟨⟨inside, differs, by omega, by omega⟩, .inr ⟨⟨_, voting.led held⟩, ?_⟩⟩
      change _ ≤ ((history.leaderLog (cluster.nodes reply.leader).currentTerm).length : Int) ∧
        ∃ log, history.seen reply.follower (cluster.nodes reply.leader).currentTerm log ∧
          (history.leaderLog (cluster.nodes reply.leader).currentTerm).take _ <+: log
      rw [← sameTerm]
      exact ⟨reached, entriesOf reply.log, sound.seen, stored⟩
    | _ => cases shape
  · cases event with
    | requestVoteReply _ reply =>
      cases shape
      refine (handleRequestVoteResponse_office _ _ reply.voter _ node.whole trackable ?_ leads).tracked
      rw [wins.1]
      exact nofun
    | _ => cases shape

theorem Logging.committed
    (complete : history.Completeness members.toFinset LogEntry.term) (distinct : members.Nodup) {node : RaftNodeId}
    (member : node ∈ members) (nonneg : 0 ≤ (cluster.nodes node).commitIndex) {replication : Replication}
    (acked : replication.Tracked (Acked members history node (cluster.nodes node).currentTerm)) {index : Int}
    (commits : { cluster.nodes node with replication := replication }.Commits index) :
    history.Committed members.toFinset LogEntry.term (cluster.nodes node).currentTerm
      ((entriesOf (cluster.nodes node).log).take index.toNat) := by
  have whole := (logging.nodes node).whole
  have view := voting.view node
  have leads : (cluster.nodes node).state = .leader := commits.leader
  have led : history.Led (cluster.nodes node).currentTerm := ⟨node, voting.led leads⟩
  have shown : entriesOf (cluster.nodes node).log = history.leaderLog (cluster.nodes node).currentTerm := by
    have current := logging.matching.current node
    rw [view] at current
    exact current leads
  have above : (cluster.nodes node).commitIndex < index := commits.above
  have below : index ≤ RaftLog.lastIndex (cluster.nodes node).log := commits.below
  have own : ∃ log, history.seen node (cluster.nodes node).currentTerm log ∧
      (entriesOf (cluster.nodes node).log).take index.toNat <+: log := by
    have present := complete.present node
    rw [view] at present
    exact ⟨_, present, take_prefix _ _⟩
  obtain ⟨entry, found, stored⟩ := whole.exists_entry (show 0 < index by omega) below
  have ends : entry.term = (cluster.nodes node).currentTerm →
      EndsIn LogEntry.term (cluster.nodes node).currentTerm
        ((entriesOf (cluster.nodes node).log).take index.toNat) := by
    intro term
    refine ⟨(entriesOf (cluster.nodes node).log).take (index.toNat - 1), entry, ?_, term⟩
    rw [← ReplicatedLog.take_succ_eq_concat found, show index.toNat - 1 + 1 = index.toNat by omega]
  refine ⟨ends ?_, led, shown ▸ take_prefix _ _, ?_⟩
  · rcases commits.quorum with ⟨_, last⟩ | ⟨_, _, term⟩
    · -- A single member commits its whole log, which ends in its own term.
      refine logging.matching.last_term led ?_
      change index = RaftLog.lastIndex (cluster.nodes node).log at last
      rw [← shown, getLast?_eq_getElem?, ← found, last, whole.lastIndex, Int.toNat_natCast]
    · exact stored.symm.trans term
  · rcases commits.quorum with ⟨single, _⟩ | ⟨short, reached, _⟩
    · refine ⟨{node}, by simpa using member, ?_, by simpa using own⟩
      rw [toFinset_card_of_nodup distinct, Finset.card_singleton]
      change (cluster.nodes node).membership.members.length = 1 at single
      rw [voting.membership] at single
      rw [show members.length = 1 from single]
      exact Nat.one_lt_two
    · obtain ⟨peers, enough, matched⟩ := sortedMatches_peers _ short reached
      have tracked : ∀ peer ∈ peers, peer ∈ members ∧ peer ≠ node ∧
          ∃ log, history.seen peer (cluster.nodes node).currentTerm log ∧
            (entriesOf (cluster.nodes node).log).take index.toNat <+: log := by
        intro peer counted
        obtain ⟨follower, found, higher⟩ := matched peer counted
        obtain ⟨⟨inside, differs, _⟩, none | ⟨_, _, log, seen, held⟩⟩ := acked peer follower found
        · omega
        · refine ⟨inside, differs, log, seen, List.IsPrefix.trans ?_ held⟩
          rw [shown]
          exact take_prefix_take_left (by omega)
      refine ⟨insert node peers, ?_, ?_, ?_⟩
      · refine Finset.insert_subset (by simpa using member) ?_
        exact fun peer counted => mem_toFinset.mpr (tracked peer counted).1
      · have outside : node ∉ peers := fun counted => (tracked node counted).2.1 rfl
        rw [Finset.card_insert_of_notMem outside, toFinset_card_of_nodup distinct]
        change (cluster.nodes node).membership.quorumSize ≤ _ at enough
        rw [voting.membership] at enough
        change members.length / 2 + 1 ≤ _ at enough
        omega
      · intro voter counted
        rcases Finset.mem_insert.mp counted with rfl | peer
        · exact own
        · exact (tracked voter peer).2.2

end

end Cluster

end TorrentMq.Consensus
