import Mathlib.Data.Int.Interval
import TorrentMq.Consensus.RaftLeaderCompleteness

/-! State machine safety: what the nodes of a cluster apply are prefixes of one
sequence of entries. -/

set_option autoImplicit false

namespace TorrentMq.Consensus

open LawfulRaftLog List LogEntry
open ReplicatedLog (View History Quorum)

namespace Cluster

variable {L : Type} [RaftLog L] [LawfulRaftLog L]

/-- What one node has committed and applied is safe in its term. -/
structure NodeCommit (members : List RaftNodeId) (history : History RaftNodeId Int LogEntry)
    (node : RaftNode L) : Prop where
  nonneg : 0 ≤ node.commitIndex
  reached : node.commitIndex ≤ (entriesOf node.log).length
  committed : history.Safe members.toFinset term node.currentTerm
    ((entriesOf node.log).take node.commitIndex.toNat)
  applied : history.Safe members.toFinset term node.currentTerm node.applied
  lastApplied : node.lastApplied = node.applied.length
  numbered : Numbered 0 node.applied

/-- The commit index of a request stands for a safe part of its leader's log. -/
def Announced (members : List RaftNodeId) (history : History RaftNodeId Int LogEntry)
    (request : AppendEntriesRequest) : Prop :=
  request.leaderCommit ≤ (history.leaderLog request.term).length ∧
    history.Safe members.toFinset term request.term
      ((history.leaderLog request.term).take request.leaderCommit.toNat)

/-- What committing keeps true of a cluster and its history. -/
structure Committing (members : List RaftNodeId) (cluster : Cluster L)
    (history : History RaftNodeId Int LogEntry) : Prop where
  complete : history.Completeness members.toFinset term
  standing : ∀ node target request, .requestVote target request ∈ (cluster.nodes node).outbox →
    Standing history node request
  acked : ∀ node, (cluster.nodes node).state = .leader → (cluster.nodes node).replication.Tracked
    (Acked members history node (cluster.nodes node).currentTerm)
  nodes : ∀ node, NodeCommit members history (cluster.nodes node)
  announced : ∀ node target request, .appendEntries target request ∈ (cluster.nodes node).outbox →
    Announced members history request

variable {members : List RaftNodeId} {cluster : Cluster L}
  {history : History RaftNodeId Int LogEntry} {event : ClusterEvent L}

variable {after : History RaftNodeId Int LogEntry}

theorem Standing.mono {node : RaftNodeId}
    {request : RequestVoteRequest} (standing : Standing history node request)
    (grown : history.Extends after) : Standing after node request := by
  intro regular own
  rcases standing regular own with led | ⟨log, backed, describes⟩
  · exact .inl (grown.Led led)
  · exact .inr ⟨log, grown.backed backed, describes⟩

omit [RaftLog L] [LawfulRaftLog L] in
theorem Announced.mono {request : AppendEntriesRequest}
    (announced : Announced members history request) (grown : history.Extends after)
    (led : history.Led request.term) : Announced members after request := by
  obtain ⟨reached, safe⟩ := announced
  have longer := grown.leaderLog led
  refine ⟨reached.trans (Int.ofNat_le.mpr longer.length_le), ?_⟩
  obtain ⟨rest, same⟩ := longer
  rw [← same, take_append_of_le_length (by omega)]
  exact safe.mono grown (le_refl _)

theorem NodeCommit.mono {node : RaftNode L}
    (commit : NodeCommit members history node) (grown : history.Extends after) :
    NodeCommit members after node where
  nonneg := commit.nonneg
  reached := commit.reached
  committed := commit.committed.mono grown (le_refl _)
  applied := commit.applied.mono grown (le_refl _)
  lastApplied := commit.lastApplied
  numbered := commit.numbered

theorem NodeCommit.catches {before after : RaftNode L} (commit : NodeCommit members history before)
    (complete : history.Completeness members.toFinset term)
    (matching : history.Matching term) (whole : Uncompacted after.log)
    (catches : RaftNode.Catches before after) (below : before.currentTerm ≤ after.currentTerm)
    (nonneg : 0 ≤ after.commitIndex) (reached : after.commitIndex ≤ (entriesOf after.log).length)
    (committed : history.Safe members.toFinset term after.currentTerm
      ((entriesOf after.log).take after.commitIndex.toNat)) :
    NodeCommit members history after := by
  have length : ((entriesOf after.log).take after.commitIndex.toNat).length =
      after.commitIndex.toNat := length_take_of_le (by omega)
  have lastApplied := commit.lastApplied
  have applied := catches.applied
  have last := catches.lastApplied
  by_cases ahead : after.commitIndex ≤ before.lastApplied
  · rw [drop_eq_nil_of_le (by omega), append_nil] at applied
    refine ⟨nonneg, reached, committed, ?_, ?_, ?_⟩
    · rw [applied]
      exact commit.applied.mono (.refl history) below
    · rw [applied]
      omega
    · rw [applied]
      exact commit.numbered
  · have front : before.applied <+: (entriesOf after.log).take after.commitIndex.toNat := by
      rcases commit.applied.comparable complete matching committed with inside | outside
      · exact inside
      · have := outside.length_le
        omega
    obtain ⟨rest, split⟩ := front
    rw [← split, show before.lastApplied.toNat = before.applied.length by omega, drop_left, split] at applied
    refine ⟨nonneg, reached, committed, applied ▸ committed, ?_, ?_⟩
    · rw [applied]
      omega
    · rw [applied]
      exact whole.numbered.take _

theorem NodeCommit.kept {before node : RaftNode L}
    (commit : NodeCommit members history before) (grown : history.Extends after)
    (below : before.currentTerm ≤ node.currentTerm)
    (stays : (entriesOf before.log).take before.commitIndex.toNat <+: entriesOf node.log)
    (commitIndex : node.commitIndex = before.commitIndex)
    (lastApplied : node.lastApplied = before.lastApplied) (applied : node.applied = before.applied) :
    NodeCommit members after node := by
  have nonneg := commit.nonneg
  have reached := commit.reached
  have length : ((entriesOf before.log).take before.commitIndex.toNat).length =
      before.commitIndex.toNat := length_take_of_le (by omega)
  have longer := stays.length_le
  refine ⟨by omega, by omega, ?_, ?_, ?_, ?_⟩
  · have same := prefix_iff_eq_take.mp stays
    rw [length, ← commitIndex] at same
    rw [← same, commitIndex]
    exact commit.committed.mono grown below
  · rw [applied]
    exact commit.applied.mono grown below
  · rw [applied, lastApplied]
    exact commit.lastApplied
  · rw [applied]
    exact commit.numbered

section

variable (committing : Committing members cluster history) (logging : Logging members cluster history)
  (voting : Voting members entriesOf cluster history)
include committing logging voting

theorem Committing.follows {sender target : RaftNodeId} {request : AppendEntriesRequest} {after : RaftNode L}
    (sent : .appendEntries target request ∈ (cluster.nodes sender).outbox)
    (followed : (cluster.nodes target).Follows request after)
    (commitIndex : after.commitIndex = min request.leaderCommit (RaftNode.lastNew request))
    (raised : (cluster.nodes target).commitIndex < request.leaderCommit) :
    0 ≤ after.commitIndex ∧ after.commitIndex ≤ (entriesOf after.log).length ∧
      history.Safe members.toFinset term after.currentTerm
        ((entriesOf after.log).take after.commitIndex.toNat) := by
  obtain ⟨_, _, _, nonneg, numbered, -⟩ := logging.requests sender target request sent
  obtain ⟨inside, reached, -⟩ := logging.accepts voting sent followed.matched
  obtain ⟨stored, _⟩ := logging.overwrites voting sent followed.matched
  obtain ⟨announced, safe⟩ := committing.announced sender target request sent
  obtain ⟨last, covered⟩ := RaftNode.lastNew_le request numbered nonneg inside
  have := (committing.nodes target).nonneg
  have positive : 0 ≤ verified request := by
    unfold verified
    omega
  rw [← followed.entries] at stored covered
  change RaftNode.lastNew request = verified request at last
  refine ⟨by omega, by omega, ?_⟩
  have taken : (entriesOf after.log).take after.commitIndex.toNat =
      (history.leaderLog request.term).take after.commitIndex.toNat := by
    obtain ⟨rest, same⟩ := stored
    rw [← same, take_append_of_le_length (by rw [length_take]; omega), take_take,
      min_eq_left (by omega)]
  rw [taken, followed.term]
  exact safe.of_isPrefix (take_prefix_take_left (by omega))

theorem Committing.nodeCommit (distinct : members.Nodup) (enabled : Enabled members cluster event)
    (ordinary : cluster.Ordinary event) (once : cluster.CountsOnce event) (uncut : cluster.Uncut event)
    (acks : cluster.AcksVerified event) :
    NodeCommit members (history.observe event.target ((cluster.acted event).shows entriesOf))
      (cluster.acted event) := by
  have legal := voting.legal distinct enabled once
  have move := logging.move voting enabled ordinary
  have backs := logging.backsLegally voting committing.standing enabled ordinary uncut
  have grown := History.observe_extends move voting.elections legal logging.matching
  have complete := committing.complete.observe logging.matching voting.elections legal move backs
  have matching := logging.matching.observe voting.elections legal move
  have commit := committing.nodes event.target
  have below : (cluster.nodes event.target).currentTerm ≤ (cluster.acted event).currentTerm :=
    (RaftNode.step_voteStep _ event.input).term
  have whole := (logging.regular_acted enabled ordinary).1
  have stays : (entriesOf (cluster.nodes event.target).log).take
      (cluster.nodes event.target).commitIndex.toNat <+: entriesOf (cluster.acted event).log := by
    refine History.Safe.survives committing.complete logging.matching move backs
      (commit.committed.mono (.refl history) below) ?_
    rw [voting.view]
    exact take_prefix _ _
  have step := logging.logStep enabled ordinary
  have acked := logging.acked voting enabled ordinary acks (committing.acked event.target)
  generalize shape : event.input = input at step
  generalize cluster.acted event = after at *
  cases step with
  | kept _ _ idle => exact commit.kept grown below stays idle.commitIndex idle.lastApplied idle.applied
  | proposed _ _ steady | elected _ _ _ _ _ steady =>
    exact commit.kept grown below stays steady.commitIndex steady.lastApplied steady.applied
  | followed request _ followed =>
    rcases followed.commit with ⟨commitIndex, lastApplied, applied⟩ | ⟨commitIndex, raised, catches⟩
    · exact commit.kept grown below stays commitIndex lastApplied applied
    · cases event with
      | appendEntries sender target sent =>
        cases shape
        obtain ⟨nonneg, reached, safe⟩ :=
          committing.follows logging voting enabled.2 followed commitIndex raised
        exact (commit.mono grown).catches complete matching whole catches below nonneg reached
          (safe.mono grown (le_refl _))
      | _ => cases shape
  | advanced env sender response _ replication index commits same catches =>
    have leads : after.state = .leader := by
      rw [same]
      exact commits.leader
    have term : after.currentTerm = (cluster.nodes event.target).currentTerm := by rw [same]
    have tracked := acked leads
    rw [term, show after.replication = replication by rw [same]] at tracked
    have committed := logging.committed voting committing.complete distinct enabled.1 commit.nonneg tracked commits
    have above : (cluster.nodes event.target).commitIndex < index := commits.above
    have nonneg := commit.nonneg
    refine (commit.mono grown).catches complete matching whole catches below ?_ ?_ ?_
    · rw [same]
      dsimp only
      omega
    · rw [same]
      exact commits.below.trans_eq (logging.nodes event.target).whole.lastIndex
    · refine History.Safe.mono (.inr ⟨_, term.ge, _, committed, ?_⟩) grown (le_refl _)
      rw [same]

theorem Committing.apply (distinct : members.Nodup) (named : kNoLeader ∉ members)
    (enabled : Enabled members cluster event) (ordinary : cluster.Ordinary event) (once : cluster.CountsOnce event)
    (uncut : cluster.Uncut event) (acks : cluster.AcksVerified event) :
    Committing members (cluster.apply event) (cluster.observed entriesOf history event) := by
  have legal := voting.legal distinct enabled once
  have move := logging.move voting enabled ordinary
  have backs := logging.backsLegally voting committing.standing enabled ordinary uncut
  have grown := History.observe_extends move voting.elections legal logging.matching
  have complete := committing.complete.observe logging.matching voting.elections legal move backs
  have commit := committing.nodeCommit logging voting distinct enabled ordinary once uncut acks
  obtain ⟨whole, _⟩ := logging.regular_acted enabled ordinary
  have nodeId : (cluster.acted event).nodeId = event.target :=
    (RaftNode.step_voteStep _ event.input).nodeId.trans (voting.nodeId event.target)
  refine ⟨complete, ?_, ?_, ?_, ?_⟩
  · refine forall_apply_nodes cluster event (fun id state => ∀ target request,
      .requestVote target request ∈ state.outbox →
        Standing (cluster.observed entriesOf history event) id request) ?_ ?_
    · intro target request sent
      rcases (RaftNode.step_role _ event).asks sent with old | ⟨_, shape, voted⟩ | ⟨shape, self⟩
      · exact (committing.standing event.target target request old).mono grown
      · intro regular _
        have vote : (cluster.acted event).votedFor = event.target :=
          (voted regular).trans (voting.nodeId event.target)
        have held := complete.held event.target event.target
        rw [History.observe_view_self] at held
        rw [regular] at shape
        change request = (cluster.acted event).voteRequest false at shape
        subst shape
        change (cluster.observed entriesOf history event).Led (cluster.acted event).currentTerm ∨ _
        refine Classical.or_iff_not_imp_left.mpr fun unled => ⟨_, held (shows_vote vote ?_) unled, ?_⟩
        · intro same
          exact named (same ▸ enabled.1)
        · exact ⟨whole.lastIndex, whole.termAt_last⟩
      · intro _ own
        cases event with
        | transferSignal node other =>
          cases shape
          exact absurd (self.symm.trans own) enabled.2
        | _ => cases shape
    · intro other _ target request sent
      exact (committing.standing other target request sent).mono grown
  · refine forall_apply_nodes cluster event (fun id state => state.state = .leader →
      state.replication.Tracked (Acked members (cluster.observed entriesOf history event) id state.currentTerm)) ?_ ?_
    · intro leads peer follower found
      exact (logging.acked voting enabled ordinary acks (committing.acked event.target) leads peer
        follower found).mono grown
    · intro other _ leads peer follower found
      exact (committing.acked other leads peer follower found).mono grown
  · exact forall_apply_nodes cluster event
      (fun _ state => NodeCommit members (cluster.observed entriesOf history event) state) commit
      (fun other _ => (committing.nodes other).mono grown)
  · refine forall_apply_nodes cluster event (fun _ state => ∀ target request,
      .appendEntries target request ∈ state.outbox →
        Announced members (cluster.observed entriesOf history event) request) ?_ ?_
    · intro target request sent
      rcases (logging.ledger voting enabled ordinary).sent target request sent with old | ⟨leads, announces⟩
      · obtain ⟨_, _, led, _⟩ := logging.requests _ target request old
        exact (committing.announced _ target request old).mono grown ⟨_, led⟩
      · obtain ⟨_, _, term, commitIndex, _⟩ := announces_slices whole announces (fun _ _ _ => id)
        have shown : (cluster.observed entriesOf history event).leaderLog
            (cluster.acted event).currentTerm = entriesOf (cluster.acted event).log :=
          History.observe_leaderLog_of_leads leads
        unfold Announced
        rw [term, commitIndex, shown]
        exact ⟨commit.reached, commit.committed⟩
    · intro other _ target request sent
      obtain ⟨_, _, led, _⟩ := logging.requests other target request sent
      exact (committing.announced other target request sent).mono grown ⟨_, led⟩

end

theorem Committing.start {members : List RaftNodeId} {config : RaftNodeId → RaftConfig}
    {log : RaftNodeId → L} : Committing members (start members config log)
      (.initial fun node => ((start members config log).nodes node).shows entriesOf) where
  complete := .initial (fun _ => rfl)
  standing _ _ _ := nofun
  acked _ := nofun
  nodes _ := ⟨le_refl _, Int.natCast_nonneg _, .inl rfl, .inl rfl, rfl, .nil _⟩
  announced _ _ _ := nofun

/-- In every run in which grants are counted once, no log is only cut short, and
no response raises a match index above what was verified in its term, nodes that
apply an entry at one index apply the same one. -/
theorem state_machine_safety (members : List RaftNodeId) (config : RaftNodeId → RaftConfig)
    (log : RaftNodeId → L) (events : List (ClusterEvent L))
    (empty : ∀ node, Uncompacted (log node) ∧ entriesOf (log node) = []) (distinct : members.Nodup)
    (named : kNoLeader ∉ members)
    (meets : StepsMeet (fun cluster event => Enabled members cluster event ∧ cluster.Ordinary event ∧
      cluster.CountsOnce event ∧ cluster.Uncut event ∧ cluster.AcksVerified event)
      (start members config log) events)
    (first second : RaftNodeId) (entry other : LogEntry)
    (applied : entry ∈ (((start members config log).run events).nodes first).applied)
    (applied' : other ∈ (((start members config log).run events).nodes second).applied)
    (sameIndex : entry.index = other.index) :
    entry.term = other.term ∧ entry.command = other.command := by
  obtain ⟨history, voting, logging, committing⟩ := run_preserves (fun cluster => ∃ history,
    Voting members entriesOf cluster history ∧ Logging members cluster history ∧
      Committing members cluster history) (by
    rintro cluster event ⟨enabled, ordinary, once, uncut, acks⟩ ⟨history, voting, logging, committing⟩
    refine ⟨_, voting.apply distinct named enabled once ?_, logging.apply voting distinct enabled ordinary once,
      committing.apply logging voting distinct named enabled ordinary once uncut acks⟩
    rw [(logging.logStep enabled ordinary).membership]
    exact voting.membership event.target) ⟨_, .start members config log, .start empty, .start⟩ meets
  have left := committing.nodes first
  have right := committing.nodes second
  have same : entry = other := by
    rcases left.applied.comparable committing.complete logging.matching right.applied with inside | inside
    · exact right.numbered.eq_of_index_eq (inside.subset applied) applied' sameIndex
    · exact left.numbered.eq_of_index_eq applied (inside.subset applied') sameIndex
  exact ⟨by rw [same], by rw [same]⟩

def appliedRun : List (ClusterEvent LogView) :=
  catchUpRun ++ [.appendEntriesReply {} catchUpReply, .heartbeatTick 1 {},
    .appendEntries 1 3
      { term := 2, leaderId := 1, prevLogIndex := 2, prevLogTerm := 2, leaderCommit := 2 }]

theorem state_machine_safety_two_nodes :
    ((trio.run appliedRun).nodes 1).applied = [⟨1, 1, .noOp⟩, ⟨2, 2, .noOp⟩] ∧
      ((trio.run appliedRun).nodes 3).applied = [⟨1, 1, .noOp⟩, ⟨2, 2, .noOp⟩] ∧
      ∀ entry ∈ ((trio.run appliedRun).nodes 1).applied,
        ∀ other ∈ ((trio.run appliedRun).nodes 3).applied, entry.index = other.index →
          entry.term = other.term ∧ entry.command = other.command := by
  refine ⟨by decide +kernel, by decide +kernel, ?_⟩
  intro entry applied other applied' sameIndex
  refine state_machine_safety [1, 2, 3] (fun _ => { enablePreVote := false })
    (fun _ => LogView.empty) appliedRun (fun _ => ⟨rfl, rfl⟩) (by decide) (by decide) ?_ 1 3 entry other
    applied applied' sameIndex
  decide +kernel

/-- Node 2 has applied its entry on the length that node 1 reported. Node 1,
which holds another one there, is then elected by node 3 and commits its own. -/
def rewrittenRun : List (ClusterEvent LogView) :=
  let probe : AppendEntriesRequest := { term := 3, leaderId := 1, prevLogIndex := 1, prevLogTerm := 1 }
  let batch : AppendEntriesRequest := { term := 3, leaderId := 1, entries := [⟨1, 1, .noOp⟩, ⟨3, 2, .noOp⟩] }
  let heartbeat : AppendEntriesRequest := { term := 3, leaderId := 1 }
  let log : LogView := .ofEntries [⟨1, 1, .noOp⟩, ⟨3, 2, .noOp⟩]
  divergentRun ++ .appendEntriesReply {} divergentReply ::
    electionRun 3 { term := 3, candidateId := 1, lastLogIndex := 1, lastLogTerm := 1 } ++
    [.appendEntries 1 3 probe,
      .appendEntriesReply {} ⟨1, 3, probe, { term := 3, conflictIndex := 1 }, LogView.empty⟩,
      .appendEntries 1 3 batch,
      .appendEntriesReply {} ⟨1, 3, batch, { term := 3, success := true }, log⟩,
      .heartbeatTick 1 {},
      .appendEntries 1 3 heartbeat,
      .appendEntriesReply {} ⟨1, 3, heartbeat, { term := 3, success := true, lastLogIndex := 2 }, log⟩]

/-- Two nodes apply entries of different terms at the first index. -/
theorem two_nodes_apply_different_entries :
    StepsMeet (fun cluster event => Enabled [1, 2, 3] cluster event ∧ cluster.Ordinary event) trio rewrittenRun ∧
      ⟨1, 1, .noOp⟩ ∈ ((trio.run rewrittenRun).nodes 1).applied ∧
      ⟨2, 1, .noOp⟩ ∈ ((trio.run rewrittenRun).nodes 2).applied := by
  decide +kernel

theorem committing_run (distinct : members.Nodup) (named : kNoLeader ∉ members)
    (voting : Voting members entriesOf cluster history)
    (logging : Logging members cluster history) (committing : Committing members cluster history)
    {events : List (ClusterEvent L)} (meets : StepsMeet (fun cluster event => Enabled members cluster event ∧
      cluster.Ordinary event ∧ cluster.CountsOnce event ∧ cluster.Uncut event ∧ cluster.AcksVerified event)
      cluster events) :
    ∃ after, Voting members entriesOf (cluster.run events) after ∧ Logging members (cluster.run events) after ∧
      Committing members (cluster.run events) after ∧ ∀ {bound stored},
        history.Safe members.toFinset term bound stored →
          after.Safe members.toFinset term bound stored := by
  induction events generalizing cluster history with
  | nil => exact ⟨history, voting, logging, committing, id⟩
  | cons event events ih =>
    obtain ⟨⟨enabled, ordinary, once, uncut, acks⟩, rest⟩ := meets
    have grown := History.observe_extends (logging.move voting enabled ordinary) voting.elections
      (voting.legal distinct enabled once) logging.matching
    obtain ⟨after, elected, logged, committed, kept⟩ := ih (voting.apply distinct named enabled once (by
      rw [(logging.logStep enabled ordinary).membership]
      exact voting.membership event.target)) (logging.apply voting distinct enabled ordinary once)
      (committing.apply logging voting distinct named enabled ordinary once uncut acks) rest
    exact ⟨after, elected, logged, committed, fun safe => kept (safe.mono grown (le_refl _))⟩

/-- Leader completeness: what a node has committed is in the log of every later leader. -/
theorem leader_completeness (members : List RaftNodeId) (config : RaftNodeId → RaftConfig) (log : RaftNodeId → L)
    (earlier later : List (ClusterEvent L)) (empty : ∀ node, Uncompacted (log node) ∧ entriesOf (log node) = [])
    (distinct : members.Nodup) (named : kNoLeader ∉ members)
    (meets : StepsMeet (fun cluster event => Enabled members cluster event ∧ cluster.Ordinary event ∧
      cluster.CountsOnce event ∧ cluster.Uncut event ∧ cluster.AcksVerified event)
      (start members config log) (earlier ++ later))
    (node leader : RaftNodeId)
    (leads : (((start members config log).run (earlier ++ later)).nodes leader).state = .leader)
    (newer : (((start members config log).run earlier).nodes node).currentTerm ≤
      (((start members config log).run (earlier ++ later)).nodes leader).currentTerm) :
    (entriesOf (((start members config log).run earlier).nodes node).log).take
        (((start members config log).run earlier).nodes node).commitIndex.toNat <+:
      entriesOf (((start members config log).run (earlier ++ later)).nodes leader).log := by
  obtain ⟨before, rest⟩ := meets.of_append
  obtain ⟨_, voting, logging, committing, -⟩ :=
    committing_run distinct named (.start members config log) (.start empty) .start before
  have committed := (committing.nodes node).committed
  rw [run_append] at leads newer ⊢
  obtain ⟨_, voting, logging, committing, kept⟩ := committing_run distinct named voting logging committing rest
  have stored := logging.matching.current leader
  have led := voting.elections.leads leader
  rw [voting.view] at stored led
  have inside := (kept committed).leaderLog committing.complete logging.matching newer ⟨leader, led leads⟩
  exact inside.trans ⟨[], (append_nil _).trans (stored leads).symm⟩

def succession : List (ClusterEvent LogView) :=
  electionRun 2 { term := 3, candidateId := 3, lastLogIndex := 2, lastLogTerm := 2 }

/-- Node 2 elects node 3 after nodes 1 and 3 have committed without it. -/
theorem leader_completeness_succession :
    (entriesOf ((trio.run appliedRun).nodes 1).log).take ((trio.run appliedRun).nodes 1).commitIndex.toNat <+:
      entriesOf ((trio.run (appliedRun ++ succession)).nodes 3).log := by
  refine leader_completeness [1, 2, 3] (fun _ => { enablePreVote := false }) (fun _ => LogView.empty) appliedRun
    succession (fun _ => ⟨rfl, rfl⟩) (by decide) (by decide) ?_ 1 3 ?_ ?_
  · decide +kernel
  · decide +kernel
  · decide +kernel

end Cluster

end TorrentMq.Consensus
