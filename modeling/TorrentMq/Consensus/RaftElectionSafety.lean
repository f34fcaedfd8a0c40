import Mathlib.Data.Finset.Insert
import Mathlib.Data.Finset.Dedup
import TorrentMq.Consensus.RaftNodeRoles
import TorrentMq.Consensus.RaftVoteProperties
import TorrentMq.ReplicatedLog.Election

/-! Election safety of a cluster. The count of votes carries neither the voter
nor the term of a response, so office is earned by a majority only when each
response that a candidate counts is a grant of its own term by a voter that it
has not counted before. -/

set_option autoImplicit false

namespace TorrentMq.Consensus

open List RaftNode

open ReplicatedLog (View History Quorum)

def RaftNode.shows {L : Type} (project : L → List LogEntry) (node : RaftNode L) :
    View RaftNodeId Int LogEntry where
  term := node.currentTerm
  vote := if node.votedFor = kNoLeader then none else some node.votedFor
  leads := node.state = .leader
  log := project node.log

/-- The response grants a vote that the candidate asked for in a term, after
the pre-vote round. -/
def VoteReply.Grants (reply : VoteReply) (candidate voter : RaftNodeId) (term : Int) : Prop :=
  reply.candidate = candidate ∧ reply.request.candidateId = candidate ∧ reply.voter = voter ∧
    reply.request.term = term ∧ reply.request.preVote = false ∧ reply.response.voteGranted = true

instance (reply : VoteReply) (candidate voter : RaftNodeId) (term : Int) :
    Decidable (reply.Grants candidate voter term) :=
  inferInstanceAs (Decidable (_ ∧ _ ∧ _ ∧ _ ∧ _ ∧ _))

namespace Cluster

variable {L : Type}

/-- A response that a candidate counts is a grant of its own term, and the
first one of this voter that reached it. -/
def CountsOnce (cluster : Cluster L) : ClusterEvent L → Prop
  | .requestVoteReply _ reply =>
    (cluster.nodes reply.candidate).state = .candidate →
      reply.response.term ≤ (cluster.nodes reply.candidate).currentTerm →
      reply.response.voteGranted = true →
      reply.request.preVote = false ∧ reply.request.candidateId = reply.candidate ∧
        reply.request.term = (cluster.nodes reply.candidate).currentTerm ∧
        ∀ earlier ∈ cluster.deliveredVotes,
          ¬earlier.Grants reply.candidate reply.voter reply.request.term
  | _ => True

instance (cluster : Cluster L) : (event : ClusterEvent L) → Decidable (cluster.CountsOnce event)
  | .requestVoteReply _ _ => inferInstanceAs (Decidable (_ → _ → _ → _ ∧ _ ∧ _ ∧ _))
  | .electionTimeout _ | .heartbeatTick _ _ | .propose _ _ | .requestVote _ _ _ | .appendEntries _ _ _
  | .appendEntriesReply _ _ | .stepDown _ | .transferStart _ _ | .transferRound _ _ _ _ | .transferSignal _ _
  | .transferFinish _ | .shutdown _ => .isTrue trivial

/-- The votes that a candidate has counted come from as many members. -/
def Tallied (members : List RaftNodeId) (history : History RaftNodeId Int LogEntry)
    (delivered : List VoteReply) (candidate : RaftNodeId) (term : Int) (count : Nat) : Prop :=
  ∃ voters ⊆ members.toFinset, count ≤ voters.card ∧ ∀ voter ∈ voters,
    history.ballot voter term candidate ∧
      (voter = candidate ∨ ∃ reply ∈ delivered, reply.Grants candidate voter term)

structure Voting (members : List RaftNodeId) (project : L → List LogEntry) (cluster : Cluster L)
    (history : History RaftNodeId Int LogEntry) : Prop where
  view : ∀ node, history.view node = (cluster.nodes node).shows project
  elections : history.Elections members.toFinset
  nodeId : ∀ node, (cluster.nodes node).nodeId = node
  membership : ∀ node, (cluster.nodes node).membership = { members := members }
  requests : ∀ node target request, .requestVote target request ∈ (cluster.nodes node).outbox →
    node ∈ members ∧ target ≠ node ∧ (request.candidateId = node ∨ request.candidateId = target)
  replies : ∀ reply ∈ cluster.voteReplies, reply.request.preVote = false →
    reply.request.candidateId = reply.candidate → reply.response.voteGranted = true →
      reply.voter ∈ members ∧ reply.voter ≠ reply.candidate ∧
      history.ballot reply.voter reply.request.term reply.candidate
  tally : ∀ node, (cluster.nodes node).state = .candidate →
    Tallied members history cluster.deliveredVotes node (cluster.nodes node).currentTerm
      (cluster.nodes node).votesReceived

variable {candidate : RaftNodeId}

theorem Tallied.mono {members : List RaftNodeId} {history after : History RaftNodeId Int LogEntry}
    {delivered more : List VoteReply} {term : Int} {count : Nat}
    (tallied : Tallied members history delivered candidate term count)
    (grown : ∀ voter, history.ballot voter term candidate → after.ballot voter term candidate)
    (kept : delivered ⊆ more) : Tallied members after more candidate term count := by
  obtain ⟨voters, inside, enough, cast⟩ := tallied
  refine ⟨voters, inside, enough, fun voter member => ?_⟩
  obtain ⟨ballot, origin⟩ := cast voter member
  refine ⟨grown voter ballot, origin.imp_right ?_⟩
  rintro ⟨reply, found, grants⟩
  exact ⟨reply, kept found, grants⟩

variable {members : List RaftNodeId} {project : L → List LogEntry} {cluster : Cluster L}
  {history : History RaftNodeId Int LogEntry}

theorem Voting.counts (voting : Voting members project cluster history) {env : Env} {reply : VoteReply}
    (sent : reply ∈ cluster.voteReplies) (once : cluster.CountsOnce (.requestVoteReply env reply))
    (stands : (cluster.nodes reply.candidate).state = .candidate)
    (current : reply.response.term ≤ (cluster.nodes reply.candidate).currentTerm) :
    Tallied members history (cluster.deliveredVotes ++ [reply]) reply.candidate
      (cluster.nodes reply.candidate).currentTerm
      ((cluster.nodes reply.candidate).countVote reply.response).votesReceived := by
  unfold countVote
  by_cases granted : reply.response.voteGranted = true
  · obtain ⟨regular, own, sameTerm, first⟩ := once stands current granted
    obtain ⟨member, differs, ballot⟩ := voting.replies reply sent regular own granted
    obtain ⟨voters, inside, enough, cast⟩ := voting.tally reply.candidate stands
    have uncounted : reply.voter ∉ voters := by
      intro counted
      rcases (cast reply.voter counted).2 with own | ⟨earlier, found, grants⟩
      · exact differs own
      · exact first earlier found (sameTerm ▸ grants)
    refine ⟨insert reply.voter voters, ?_, ?_, ?_⟩
    · exact Finset.insert_subset (mem_toFinset.mpr member) inside
    · rw [Finset.card_insert_of_notMem uncounted]
      simp only [granted, if_true]
      omega
    · intro voter counted
      rcases Finset.mem_insert.mp counted with rfl | old
      · refine ⟨sameTerm ▸ ballot, .inr ⟨reply, by simp, rfl, own, rfl, sameTerm, regular, granted⟩⟩
      · obtain ⟨ballot, origin⟩ := cast voter old
        refine ⟨ballot, origin.imp_right ?_⟩
        rintro ⟨earlier, found, grants⟩
        exact ⟨earlier, mem_append_left _ found, grants⟩
  · simp only [granted]
    exact (voting.tally reply.candidate stands).mono (fun _ => id) (subset_append_left _ _)

theorem Tallied.quorum {delivered : List VoteReply} {term : Int} {count : Nat}
    (tallied : Tallied members history delivered candidate term count) (distinct : members.Nodup)
    (enough : members.length / 2 + 1 ≤ count) :
    Quorum members.toFinset (history.ballot · term candidate) := by
  obtain ⟨voters, inside, counted, cast⟩ := tallied
  refine ⟨voters, inside, ?_, fun voter member => (cast voter member).1⟩
  rw [toFinset_card_of_nodup distinct]
  omega

theorem shows_vote {node : RaftNode L} (voted : node.votedFor = candidate)
    (real : candidate ≠ kNoLeader) : (node.shows project).vote = some candidate := by
  simp [shows, voted, real]

variable [RaftLog L] {event : ClusterEvent L}

noncomputable abbrev observed (cluster : Cluster L) (project : L → List LogEntry)
    (history : History RaftNodeId Int LogEntry) (event : ClusterEvent L) :
    History RaftNodeId Int LogEntry :=
  history.observe event.target ((cluster.acted event).shows project)

section

variable (voting : Voting members project cluster history) (distinct : members.Nodup)

include voting distinct

theorem Voting.legal
    (enabled : Enabled members cluster event) (once : cluster.CountsOnce event) :
    history.VotesLegally members.toFinset event.target ((cluster.acted event).shows project) where
  term := by
    rw [voting.view]
    exact (step_voteStep _ event.input).term
  vote := by
    intro candidate sameTerm vote
    rw [voting.view] at sameTerm vote
    simp only [shows] at sameTerm vote ⊢
    split at vote
    · cases vote
    next cast =>
      have kept := (step_voteStep _ event.input).vote sameTerm cast
      rw [show (cluster.acted event).votedFor = _ from kept, if_neg cast]
      exact vote
  office := by
    intro leads
    rw [voting.view]
    obtain ⟨sameTerm, held | ⟨env, sender, response, shape, wins⟩⟩ :=
      (step_role (cluster.nodes event.target) event).leads leads
    · exact ⟨sameTerm, .inl held⟩
    · refine ⟨sameTerm, .inr ?_⟩
      cases event with
      | requestVoteReply env reply =>
        cases shape
        change Quorum members.toFinset
          (history.ballot · (cluster.acted (.requestVoteReply env reply)).currentTerm reply.candidate)
        rw [show (cluster.acted (.requestVoteReply env reply)).currentTerm = _ from sameTerm]
        refine (voting.counts enabled.2 once wins.1 wins.2.1).quorum distinct ?_
        have enough := wins.2.2
        rw [quorumSize, voting.membership] at enough
        exact enough
      | _ => cases shape

theorem Voting.apply
    (named : kNoLeader ∉ members) (enabled : Enabled members cluster event) (once : cluster.CountsOnce event)
    (fixed : (cluster.acted event).membership = { members := members }) :
    Voting members project (cluster.apply event) (cluster.observed project history event) := by
  have elections := voting.elections.observe (voting.legal distinct enabled once)
  have nodeId : (cluster.acted event).nodeId = event.target :=
    (step_voteStep _ event.input).nodeId.trans (voting.nodeId event.target)
  have real : event.target ≠ kNoLeader := fun same => named (same ▸ enabled.1)
  refine ⟨?_, elections, ?_, ?_, ?_, ?_, ?_⟩
  · refine forall_apply_nodes cluster event
      (fun node state => (cluster.observed project history event).view node = state.shows project) ?_ ?_
    · rw [History.observe_view_self]
    · intro other differs
      rw [History.observe_view_of_ne _ _ _ differs]
      exact voting.view other
  · exact forall_apply_nodes cluster event (fun node state => state.nodeId = node) nodeId
      (fun other _ => voting.nodeId other)
  · exact forall_apply_nodes cluster event (fun _ state => state.membership = { members := members })
      fixed (fun other _ => voting.membership other)
  · refine forall_apply_nodes cluster event (fun node state => ∀ target request,
      .requestVote target request ∈ state.outbox →
        node ∈ members ∧ target ≠ node ∧ (request.candidateId = node ∨ request.candidateId = target)) ?_
      (fun other _ => voting.requests other)
    intro target request sent
    rcases (step_role _ event).asks sent with old | ⟨inside, shape, _⟩ | ⟨shape, self⟩
    · exact voting.requests event.target target request old
    · refine ⟨enabled.1, ?_, .inl ?_⟩
      · have differs := of_decide_eq_true (List.mem_filter.mp inside).2
        rwa [voting.nodeId] at differs
      · rw [shape]
        exact nodeId
    · refine ⟨enabled.1, ?_, .inr self⟩
      cases event with
      | transferSignal =>
        cases shape
        exact enabled.2
      | _ => cases shape
  · intro reply member regular own granted
    rcases mem_append.mp member with old | new
    · obtain ⟨voter, differs, ballot⟩ := voting.replies reply old regular own granted
      exact ⟨voter, differs, .inl ballot⟩
    · cases event with
      | requestVote sender target request =>
        cases mem_singleton.mp new
        obtain ⟨standing, differs, _⟩ := voting.requests sender target request enabled.2
        obtain ⟨term, vote⟩ :=
          handleRequestVote_granted (cluster.nodes target) regular granted
        refine ⟨enabled.1, differs, .inr ⟨rfl, term.symm, ?_⟩⟩
        refine shows_vote (vote.trans own) ?_
        rintro rfl
        exact named standing
      | _ => cases new
  · refine forall_apply_nodes cluster event (fun node state => state.state = .candidate →
      Tallied members _ _ node state.currentTerm state.votesReceived) ?_ ?_
    · intro stands
      rcases (step_role _ event).stands stands with ⟨stood, term, votes⟩ | ⟨_, vote, votes⟩ |
        ⟨env, sender, response, shape, stood, current, counted⟩
      · have tallied := voting.tally event.target stood
        rw [← votes, ← term] at tallied
        exact tallied.mono (fun _ => .inl) (subset_append_left _ _)
      · refine ⟨{event.target}, ?_, ?_, ?_⟩
        · rw [Finset.singleton_subset_iff, mem_toFinset]
          exact enabled.1
        · rw [show (cluster.acted event).votesReceived = 1 from votes, Finset.card_singleton]
        · intro voter member
          rw [Finset.mem_singleton.mp member]
          refine ⟨.inr ⟨rfl, rfl, ?_⟩, .inl rfl⟩
          exact shows_vote (vote.trans (voting.nodeId event.target)) real
      · cases event with
        | requestVoteReply env reply =>
          cases shape
          rw [show cluster.acted (.requestVoteReply env reply) = _ from counted]
          exact (voting.counts enabled.2 once stood current).mono (fun _ => .inl) (List.Subset.refl _)
        | _ => cases shape
    · intro other _ stands
      exact (voting.tally other stands).mono (fun _ => .inl) (subset_append_left _ _)

end

omit [RaftLog L] in
theorem Voting.start (members : List RaftNodeId) (config : RaftNodeId → RaftConfig)
    (log : RaftNodeId → L) : Voting members project (start members config log)
      (.initial fun node => ((start members config log).nodes node).shows project) where
  view _ := rfl
  elections := .initial (fun _ => rfl) (fun _ => nofun)
  nodeId _ := rfl
  membership _ := rfl
  requests _ _ _ := nofun
  replies _ := nofun
  tally _ := nofun

omit [RaftLog L] in
theorem Voting.led (voting : Voting members project cluster history) {node : RaftNodeId}
    (leads : (cluster.nodes node).state = .leader) :
    history.led (cluster.nodes node).currentTerm node := by
  have held := voting.elections.leads node
  rw [voting.view] at held
  exact held leads

theorem acted_membership_of_votes (votes : event.Votes) :
    (cluster.acted event).membership = (cluster.nodes event.target).membership := by
  rcases step_cases (cluster.nodes event.target) event.input with steady |
    ⟨_, shape⟩ | ⟨_, _, shape⟩ | ⟨_, _, _, shape⟩ | ⟨_, _, _, shape⟩
  · exact steady.membership
  all_goals
    cases event with
    | electionTimeout | requestVote | requestVoteReply => cases shape
    | _ => exact votes.elim

/-- In every run of elections in which candidates count each grant of their
term once, no two nodes ever lead the same term. -/
theorem election_safety (members : List RaftNodeId) (config : RaftNodeId → RaftConfig)
    (log : RaftNodeId → L) (events : List (ClusterEvent L)) (distinct : members.Nodup)
    (named : kNoLeader ∉ members)
    (meets : StepsMeet (fun cluster event =>
      event.Votes ∧ Enabled members cluster event ∧ cluster.CountsOnce event)
      (start members config log) events)
    (earlier later : List (ClusterEvent L)) (split : events = earlier ++ later)
    (first second : RaftNodeId)
    (leads : (((start members config log).run earlier).nodes first).state = .leader)
    (leads' : (((start members config log).run events).nodes second).state = .leader)
    (sameTerm : (((start members config log).run earlier).nodes first).currentTerm =
      (((start members config log).run events).nodes second).currentTerm) : first = second := by
  subst split
  rw [run_append] at leads' sameTerm
  obtain ⟨before, after⟩ := meets.of_append
  have step : ∀ (led : History RaftNodeId Int LogEntry → Prop),
      (∀ history node next, led history → led (history.observe node next)) →
      ∀ (cluster : Cluster L) (event : ClusterEvent L),
      event.Votes ∧ Enabled members cluster event ∧ cluster.CountsOnce event →
      (∃ history, Voting members (fun _ => []) cluster history ∧ led history) →
      ∃ history, Voting members (fun _ => []) (cluster.apply event) history ∧ led history := by
    rintro led grown cluster event ⟨votes, enabled, once⟩ ⟨history, voting, held⟩
    refine ⟨_, voting.apply distinct named enabled once ?_, grown history _ _ held⟩
    rw [acted_membership_of_votes votes]
    exact voting.membership event.target
  obtain ⟨history, voting, _⟩ := run_preserves _ (step (fun _ => True) (fun _ _ _ => id))
    ⟨_, .start members config log, trivial⟩ before
  obtain ⟨history', voting', held⟩ := run_preserves _
    (step (fun history => history.led _ first) (fun _ _ _ => .inl)) ⟨history, voting, voting.led leads⟩ after
  exact voting'.elections.leader_unique held (sameTerm ▸ voting'.led leads')

def electionRun (voter : RaftNodeId) (request : RequestVoteRequest) : List (ClusterEvent LogView) :=
  [.electionTimeout request.candidateId,
    .requestVote request.candidateId voter request,
    .requestVoteReply {} ⟨request.candidateId, voter, request, ⟨request.term, true⟩⟩]

def trio : Cluster LogView :=
  start [1, 2, 3] (fun _ => { enablePreVote := false }) fun _ => LogView.empty

/-- One node stands, is granted a vote, and alone leads its term. -/
theorem election_safety_single_leader :
    ((trio.run (electionRun 2 { term := 1, candidateId := 1 })).nodes 1).state = .leader ∧
      ∀ second, ((trio.run (electionRun 2 { term := 1, candidateId := 1 })).nodes second).state = .leader →
        1 = ((trio.run (electionRun 2 { term := 1, candidateId := 1 })).nodes second).currentTerm →
        1 = second := by
  refine ⟨by decide +kernel, ?_⟩
  intro second leads sameTerm
  refine election_safety [1, 2, 3] (fun _ => { enablePreVote := false }) (fun _ => LogView.empty) _
    (by decide) (by decide) ?_ _ [] (append_nil _).symm 1 second ?_ leads ?_
  · decide +kernel
  · decide +kernel
  · refine Eq.trans ?_ sameTerm
    decide +kernel

/-- Nodes 1 and 2 ask both other nodes for a pre-vote. The second grant reaches
each of them when it stands for election already, and is counted as a vote. -/
def preVoteRun : List (ClusterEvent LogView) :=
  let ask (node : RaftNodeId) : RequestVoteRequest := { term := 1, candidateId := node, preVote := true }
  let grant (candidate voter : RaftNodeId) : VoteReply := ⟨candidate, voter, ask candidate, ⟨0, true⟩⟩
  [.electionTimeout 1, .electionTimeout 2,
    .requestVote 1 2 (ask 1), .requestVote 1 3 (ask 1),
    .requestVote 2 1 (ask 2), .requestVote 2 3 (ask 2),
    .requestVoteReply {} (grant 1 2), .requestVoteReply {} (grant 1 3),
    .requestVoteReply {} (grant 2 1), .requestVoteReply {} (grant 2 3)]

theorem preVote_grants_elect_two_leaders :
    StepsMeet (fun cluster event => event.Votes ∧ Enabled [1, 2, 3] cluster event)
        (start [1, 2, 3] (fun _ => {}) fun _ => LogView.empty) preVoteRun ∧
      (((start [1, 2, 3] (fun _ => {}) fun _ => LogView.empty).run preVoteRun).nodes 1).state = .leader ∧
      (((start [1, 2, 3] (fun _ => {}) fun _ => LogView.empty).run preVoteRun).nodes 2).state = .leader ∧
      (((start [1, 2, 3] (fun _ => {}) fun _ => LogView.empty).run preVoteRun).nodes 1).currentTerm =
        (((start [1, 2, 3] (fun _ => {}) fun _ => LogView.empty).run preVoteRun).nodes 2).currentTerm := by
  decide +kernel

end Cluster

end TorrentMq.Consensus
