import TorrentMq.Consensus.RaftElectionSafety
import TorrentMq.Consensus.RaftReplicationSteps
import TorrentMq.ReplicatedLog.LogMatching

/-! Log matching of a cluster whose logs are never compacted and whose
membership never changes: what leaders send are slices of their logs, and what
a follower confirms agrees with the log of the leader. -/

set_option autoImplicit false

namespace TorrentMq.Consensus

open LawfulRaftLog List RaftLog RaftNode
open ReplicatedLog (View History Quorum)

namespace Cluster

variable {L : Type} [RaftLog L]

def Ordinary (cluster : Cluster L) : ClusterEvent L → Prop
  | .propose _ command => command.isConfigChange = false
  | .heartbeatTick node env => ¬(cluster.nodes node).TakesSnapshot env
  | _ => True

instance (cluster : Cluster L) : (event : ClusterEvent L) → Decidable (cluster.Ordinary event)
  | .propose _ _ => inferInstanceAs (Decidable (_ = _))
  | .heartbeatTick _ _ => inferInstanceAs (Decidable (¬_))
  | .electionTimeout _ | .requestVote _ _ _ | .requestVoteReply _ _ | .appendEntries _ _ _ | .appendEntriesReply _ _
  | .stepDown _ | .transferStart _ _ | .transferRound _ _ _ _ | .transferSignal _ _ | .transferFinish _
  | .shutdown _ => .isTrue trivial

variable [LawfulRaftLog L]

/-- The indices that a leader tracks are those of other members. -/
def Tracks (members : List RaftNodeId) (id peer : RaftNodeId) (nextIndex matchIndex : Int) : Prop :=
  peer ∈ members ∧ peer ≠ id ∧ 1 ≤ nextIndex ∧ 0 ≤ matchIndex

structure NodeLog (members : List RaftNodeId) (id : RaftNodeId) (node : RaftNode L) : Prop where
  whole : Uncompacted node.log
  regular : RaftNode.Regular (entriesOf node.log)
  applied : 0 ≤ node.lastApplied
  term : 0 ≤ node.currentTerm
  standing : node.state = .candidate → 0 < node.currentTerm
  tracked : node.replication.Tracked (Tracks members id)

def verified (request : AppendEntriesRequest) : Int :=
  request.prevLogIndex + request.entries.length

/-- A successful response comes from a log that holds everything the request covers. -/
structure SoundReply (members : List RaftNodeId) (history : History RaftNodeId Int LogEntry)
    (reply : AppendReply L) : Prop where
  term : reply.response.term = reply.request.term
  led : history.led reply.request.term reply.leader
  member : reply.follower ∈ members
  differs : reply.follower ≠ reply.leader
  nonneg : 0 ≤ reply.request.prevLogIndex
  reached : verified reply.request ≤ (history.leaderLog reply.request.term).length
  stored : (history.leaderLog reply.request.term).take (verified reply.request).toNat <+:
    entriesOf reply.log
  whole : Uncompacted reply.log
  canonical : history.Canonical LogEntry.term (entriesOf reply.log)
  seen : history.seen reply.follower reply.request.term (entriesOf reply.log)

/-- What replication keeps true of a cluster and its history. -/
structure Logging (members : List RaftNodeId) (cluster : Cluster L)
    (history : History RaftNodeId Int LogEntry) : Prop where
  matching : history.Matching LogEntry.term
  positive : ∀ term, history.Led term → 0 < term
  office : ∀ term node, history.led term node → term ≤ (cluster.nodes node).currentTerm ∧
    (term = (cluster.nodes node).currentTerm → (cluster.nodes node).state ≠ .candidate)
  regular : ∀ term, history.Led term → RaftNode.Regular (history.leaderLog term)
  nodes : ∀ node, NodeLog members node (cluster.nodes node)
  requests : ∀ node target request, .appendEntries target request ∈ (cluster.nodes node).outbox →
    target ∈ members ∧ target ≠ node ∧ history.led request.term node ∧
      request.Slices (history.leaderLog request.term)
  replies : ∀ reply ∈ cluster.appendReplies, reply.response.success = true →
    SoundReply members history reply

variable {members : List RaftNodeId} {reply : AppendReply L}

theorem SoundReply.mono {history after : History RaftNodeId Int LogEntry}
    (sound : SoundReply members history reply) (grown : history.Extends after) :
    SoundReply members after reply := by
  have longer := grown.leaderLog ⟨_, sound.led⟩
  refine ⟨sound.term, grown.led sound.led, sound.member, sound.differs, sound.nonneg, ?_, ?_,
    sound.whole, sound.canonical.mono grown, grown.seen sound.seen⟩
  · have := longer.length_le
    have := sound.reached
    omega
  · have reached := sound.reached
    obtain ⟨rest, same⟩ := longer
    rw [← same, take_append_of_le_length (by omega)]
    exact sound.stored

variable {members : List RaftNodeId} {cluster : Cluster L}
  {history : History RaftNodeId Int LogEntry} {event : ClusterEvent L}

variable {request : AppendEntriesRequest}

section

variable (logging : Logging members cluster history) (voting : Voting members entriesOf cluster history)
  {sender target node : RaftNodeId} (sent : .appendEntries target request ∈ (cluster.nodes sender).outbox)
  (matched : prevLogConflict (cluster.nodes node).log request = none)
include logging voting sent matched

theorem Logging.accepts : request.prevLogIndex ≤ (entriesOf (cluster.nodes node).log).length ∧
      verified request ≤ (history.leaderLog request.term).length ∧
      (entriesOf (cluster.nodes node).log).take request.prevLogIndex.toNat =
        (history.leaderLog request.term).take request.prevLogIndex.toNat ∧
      (history.leaderLog request.term).take request.prevLogIndex.toNat ++ request.entries <+:
        history.leaderLog request.term := by
  have whole := (logging.nodes node).whole
  have canonical : history.Canonical LogEntry.term (entriesOf (cluster.nodes node).log) := by
    have view := logging.matching.views node
    rwa [voting.view] at view
  obtain ⟨_, _, led, nonneg, numbered, slice⟩ := logging.requests sender target request sent
  obtain ⟨reached, term⟩ := prevLogConflict_none (cluster.nodes node).log matched (whole.le.trans nonneg)
  rw [← lastIndex_eq, ← termAt_eq] at *
  have inside : request.prevLogIndex ≤ (entriesOf (cluster.nodes node).log).length := by
    rwa [← whole.lastIndex]
  have previous : 0 < request.prevLogIndex → ∃ entry,
      (entriesOf (cluster.nodes node).log)[request.prevLogIndex.toNat - 1]? = some entry ∧
        entry.term = request.prevLogTerm := by
    intro positive
    obtain ⟨entry, found, same⟩ := whole.exists_entry positive reached
    exact ⟨entry, found, same.symm.trans (term.resolve_left (by omega))⟩
  rcases slice with ⟨positive, unknown, _⟩ | ⟨length, continues, stored⟩
  · -- Behind the end of its log the leader names no term, but every stored entry has one.
    obtain ⟨entry, found, same⟩ := previous positive
    have above := logging.positive entry.term (canonical.take_stored found).1
    rw [same, unknown, kNoTerm] at above
    omega
  · refine ⟨inside, ?_, ?_, continues⟩
    · have whole := continues.length_le
      rw [length_append, length_take_of_le (by omega)] at whole
      simp only [verified]
      omega
    · by_cases positive : 0 < request.prevLogIndex
      · obtain ⟨entry, found, same⟩ := previous positive
        obtain ⟨other, found', same'⟩ := stored positive
        have agree := canonical.take_eq (logging.matching.leaders _ ⟨_, led⟩) found found' (same.trans same'.symm)
        rwa [show request.prevLogIndex.toNat - 1 + 1 = request.prevLogIndex.toNat by omega] at agree
      · rw [show request.prevLogIndex.toNat = 0 by omega, take_zero, take_zero]

theorem Logging.overwrites : (history.leaderLog request.term).take (verified request).toNat <+:
        overwrite (entriesOf (cluster.nodes node).log) request ∧
      (request.entries ≠ [] →
        overwrite (entriesOf (cluster.nodes node).log) request <+: history.leaderLog request.term) := by
  obtain ⟨inside, reached, agree, continues⟩ := logging.accepts voting sent matched
  obtain ⟨_, _, _, nonneg, _⟩ := logging.requests sender target request sent
  unfold overwrite
  split
  next empty =>
    refine ⟨?_, fun nonempty => absurd empty nonempty⟩
    rw [verified, empty, length_nil, Int.natCast_zero, Int.add_zero, ← agree]
    exact take_prefix _ _
  · rw [agree]
    refine ⟨?_, fun _ => continues⟩
    have length : ((history.leaderLog request.term).take request.prevLogIndex.toNat ++
        request.entries).length = (verified request).toNat := by
      simp only [verified] at *
      rw [length_append, length_take_of_le (by omega)]
      omega
    rw [prefix_iff_eq_take.mp continues, length]

end

theorem Logging.delivers (logging : Logging members cluster history)
    (enabled : Enabled members cluster event) : RaftNode.Delivers event := by
  intro request shape
  cases event with
  | appendEntries sender target sent =>
    cases shape
    obtain ⟨_, _, led, nonneg, numbered, slice⟩ := logging.requests sender target request enabled.2
    refine ⟨nonneg, numbered, ?_⟩
    rcases slice with ⟨_, _, empty⟩ | ⟨_, continues, _⟩
    · rw [empty]
      exact nofun
    · exact (logging.regular _ ⟨_, led⟩).of_subset (List.Subset.trans (subset_append_right _ _) continues.subset)
  | _ => cases shape

omit [LawfulRaftLog L] in
theorem Ordinary.untaken (ordinary : cluster.Ordinary event) (env : Env) (shape : event.input = .heartbeatTick env) :
    ¬(cluster.nodes event.target).TakesSnapshot env := by
  cases event with
  | heartbeatTick =>
    cases shape
    exact ordinary
  | _ => cases shape

section

variable (logging : Logging members cluster history)

include logging

theorem Logging.logStep
    (enabled : Enabled members cluster event) (ordinary : cluster.Ordinary event) :
    (cluster.nodes event.target).LogStep event.input (cluster.acted event) :=
  step_log _ event (logging.nodes event.target).whole (logging.nodes event.target).regular
    (logging.nodes event.target).applied (logging.delivers enabled) ordinary.untaken

theorem Logging.move (voting : Voting members entriesOf cluster history)
    (enabled : Enabled members cluster event) (ordinary : cluster.Ordinary event) :
    history.LogMove LogEntry.term event.target ((cluster.acted event).shows entriesOf) := by
  have step := logging.logStep enabled ordinary
  have view := voting.view event.target
  have sameTerm : (cluster.acted event).state = .leader →
      (cluster.acted event).currentTerm = (history.view event.target).term := by
    intro leads
    rw [view]
    exact ((step_role (cluster.nodes event.target) event).leads leads).1
  have log : (history.view event.target).log = entriesOf (cluster.nodes event.target).log := by
    rw [view]
    rfl
  have role : (history.view event.target).leads ↔ (cluster.nodes event.target).state = .leader := by
    rw [view]
    rfl
  generalize shape : event.input = input at step
  generalize result : cluster.acted event = after at step sameTerm
  cases step with
  | kept _ _ idle leads =>
    refine .kept ?_ (fun leads' => role.mpr (leads leads'))
    rw [log, shows, idle.log]
  | proposed command _ steady leads leads' whole entries =>
    refine .extended (role.mpr leads) leads' (sameTerm leads') _ (entries.trans (by rw [log])) ?_
    intro entry member
    rw [mem_singleton.mp member]
    exact ((sameTerm leads').trans (by rw [view]; rfl)).symm
  | elected env sender response _ wins steady leads whole entries =>
    have stands := wins.1
    refine .elected (fun held => ?_) leads (sameTerm leads) ?_ _ (cons_ne_nil _ _)
      (entries.trans (by rw [log])) ?_
    · rw [role, stands] at held
      cases held
    · intro led
      have current : after.currentTerm = (cluster.nodes event.target).currentTerm :=
        (sameTerm leads).trans (by rw [view]; rfl)
      exact (logging.office _ _ led).2 current stands
    · intro entry member
      rw [mem_singleton.mp member]
      exact ((sameTerm leads).trans (by rw [view]; rfl)).symm
  | followed request _ followed =>
    cases event with
    | appendEntries sender target sent =>
      cases shape
      obtain ⟨_, _, led, _⟩ := logging.requests sender target request enabled.2
      by_cases empty : request.entries = []
      · refine .kept ?_ (fun leads => absurd leads followed.follows)
        have same := followed.entries
        rw [overwrite, if_pos empty] at same
        exact same.trans log.symm
      · refine .overwritten followed.follows ?_ ?_
        · refine ⟨sender, ?_⟩
          change history.led after.currentTerm sender
          rwa [followed.term]
        · change entriesOf after.log <+: history.leaderLog after.currentTerm
          rw [followed.entries, followed.term]
          exact (logging.overwrites voting enabled.2 followed.matched).2 empty
    | _ => cases shape
  | advanced env sender response _ replication index commits same =>
    rw [same]
    exact .kept log.symm (fun leads => role.mpr leads)

theorem Logging.regular_acted
    (enabled : Enabled members cluster event) (ordinary : cluster.Ordinary event) :
    Uncompacted (cluster.acted event).log ∧ RaftNode.Regular (entriesOf (cluster.acted event).log) ∧
      0 ≤ (cluster.acted event).lastApplied := by
  have node := logging.nodes event.target
  have step := logging.logStep enabled ordinary
  have delivers := logging.delivers enabled
  have appended : ∀ entry : LogEntry, entry.isConfigChange = false →
      RaftNode.Regular (entriesOf (cluster.nodes event.target).log ++ [entry]) := by
    intro entry ordinary other member
    rcases mem_append.mp member with old | new
    · exact node.regular other old
    · rwa [mem_singleton.mp new]
  generalize shape : event.input = input at step
  generalize cluster.acted event = after at step
  cases step with
  | kept _ _ idle =>
    rw [idle.log, idle.lastApplied]
    exact ⟨node.whole, node.regular, node.applied⟩
  | proposed command _ steady _ _ whole entries =>
    refine ⟨whole, ?_, steady.lastApplied ▸ node.applied⟩
    rw [entries]
    refine appended _ ?_
    cases event with
    | propose =>
      cases shape
      exact ordinary
    | _ => cases shape
  | elected _ _ _ _ _ steady _ whole entries =>
    refine ⟨whole, ?_, steady.lastApplied ▸ node.applied⟩
    rw [entries]
    exact appended _ rfl
  | followed request _ followed =>
    obtain ⟨_, _, ordinary⟩ := delivers request shape
    refine ⟨followed.whole, ?_, ?_⟩
    · rw [followed.entries, overwrite]
      split
      · exact node.regular
      · intro entry member
        rcases mem_append.mp member with old | new
        · exact node.regular entry (mem_of_mem_take old)
        · exact ordinary entry new
    · have := node.applied
      rcases followed.commit with ⟨_, same, _⟩ | ⟨_, _, catches⟩
      · rwa [same]
      · rw [catches.lastApplied]
        omega
  | advanced _ _ _ _ _ _ _ same catches =>
    have := node.applied
    refine ⟨?_, ?_, ?_⟩
    · rw [same]
      exact node.whole
    · rw [same]
      exact node.regular
    · rw [catches.lastApplied]
      omega

end

theorem Voting.peers (voting : Voting members entriesOf cluster history) {node peer : RaftNodeId}
    (member : peer ∈ (cluster.nodes node).peers) : peer ∈ members ∧ peer ≠ node := by
  unfold RaftNode.peers RaftMembership.quorumSet RaftMembership.inJointConsensus at member
  rw [voting.membership, voting.nodeId] at member
  simpa using member

theorem Logging.ledger (logging : Logging members cluster history) (voting : Voting members entriesOf cluster history)
    (enabled : Enabled members cluster event) (ordinary : cluster.Ordinary event) :
    RaftNode.Ledger (Tracks members event.target) (cluster.nodes event.target) (cluster.acted event) := by
  have node := logging.nodes event.target
  refine step_ledger _ event node.whole node.regular node.applied
    (logging.delivers enabled) ordinary.untaken ⟨?_, ?_⟩ node.tracked ?_
  · intro peer member nextIndex positive
    obtain ⟨inside, differs⟩ := voting.peers member
    exact ⟨inside, differs, positive, le_refl _⟩
  · rintro peer _ matchIndex nextIndex ⟨inside, differs, _, nonneg⟩ positive
    exact ⟨inside, differs, positive, nonneg⟩
  · intro env sender response follower _ _ _ _ found higher
    obtain ⟨inside, differs, _, nonneg⟩ := node.tracked sender follower found
    exact ⟨inside, differs, by omega, by omega⟩

theorem announces_slices {node : RaftNode L} {id target : RaftNodeId}
    {good : RaftNodeId → Int → Int → Prop} (whole : Uncompacted node.log)
    (announces : node.Announces good (.appendEntries target request))
    (tracks : ∀ peer nextIndex matchIndex, good peer nextIndex matchIndex →
      Tracks members id peer nextIndex matchIndex) :
    target ∈ members ∧ target ≠ id ∧ request.term = node.currentTerm ∧
      request.leaderCommit = node.commitIndex ∧ request.Slices (entriesOf node.log) := by
  obtain ⟨follower, tracked, shape⟩ := announces
  obtain ⟨member, differs, positive, _⟩ := tracks _ _ _ tracked
  rcases shape with rfl | ⟨behind, _, rfl⟩
  · exact ⟨member, differs, rfl, rfl, node.probe_slices whole positive⟩
  · exact ⟨member, differs, rfl, rfl, node.batch_slices whole positive behind⟩

section

variable (logging : Logging members cluster history) (voting : Voting members entriesOf cluster history)

include logging voting

theorem Logging.soundReply (enabled : Enabled members cluster event)
    (ordinary : cluster.Ordinary event) (legal : history.VotesLegally members.toFinset event.target
      ((cluster.acted event).shows entriesOf))
    (new : reply ∈ cluster.newAppendReplies event)
    (succeeded : reply.response.success = true) :
    SoundReply members (cluster.observed entriesOf history event) reply := by
  have move := logging.move voting enabled ordinary
  have grown := History.observe_extends move voting.elections legal logging.matching
  have delivers := logging.delivers enabled
  have matching := logging.matching.observe voting.elections legal move
  cases event with
  | appendEntries sender target request =>
    cases mem_singleton.mp new
    have node := logging.nodes target
    obtain ⟨member, differs, led, nonneg, _⟩ := logging.requests sender target request enabled.2
    obtain ⟨_, numbered, plain⟩ := delivers request rfl
    rcases (cluster.nodes target).handleAppendEntries_lawful node.whole node.regular node.applied
      nonneg numbered plain with ⟨_, _, _, failed⟩ | ⟨followed, answer⟩
    · rw [failed] at succeeded
      cases succeeded
    · obtain ⟨_, reached, _, _⟩ := logging.accepts voting enabled.2 followed.matched
      obtain ⟨stored, _⟩ := logging.overwrites voting enabled.2 followed.matched
      have longer := grown.leaderLog ⟨sender, led⟩
      refine ⟨by rw [answer], grown.led led, member, differs, nonneg, ?_, ?_, followed.whole, ?_, ?_⟩
      · exact reached.trans (Int.ofNat_le.mpr longer.length_le)
      · obtain ⟨rest, same⟩ := longer
        dsimp only
        rw [← same, take_append_of_le_length (by omega), followed.entries]
        exact stored
      · have view := matching.views target
        rwa [show (ClusterEvent.appendEntries sender target request : ClusterEvent L).target = target
          from rfl, History.observe_view_self] at view
      · exact .inr ⟨rfl, followed.term.symm, rfl⟩
  | _ => cases new

theorem Logging.apply
    (distinct : members.Nodup) (enabled : Enabled members cluster event) (ordinary : cluster.Ordinary event)
    (once : cluster.CountsOnce event) :
    Logging members (cluster.apply event) (cluster.observed entriesOf history event) := by
  have legal := voting.legal distinct enabled once
  have move := logging.move voting enabled ordinary
  have elections := voting.elections.observe legal
  have matching := logging.matching.observe voting.elections legal move
  have grown := History.observe_extends move voting.elections legal logging.matching
  have role := step_role (cluster.nodes event.target) event
  have stepped := step_voteStep (cluster.nodes event.target) event.input
  have ledger := logging.ledger voting enabled ordinary
  have node := logging.nodes event.target
  obtain ⟨whole, regular, applied⟩ := logging.regular_acted enabled ordinary
  have standing : (cluster.acted event).state = .candidate → 0 < (cluster.acted event).currentTerm := by
    intro stands
    have := node.term
    rcases role.stands stands with ⟨stood, term, _⟩ | ⟨term, _⟩ | ⟨_, _, _, _, stood, _, counted⟩
    · exact term ▸ node.standing stood
    · rw [show (cluster.acted event).currentTerm = _ from term]
      omega
    · rw [show cluster.acted event = _ from counted]
      exact node.standing stood
  refine ⟨matching, ?_, ?_, ?_, ?_, ?_, ?_⟩
  · rintro term ⟨leader, old | ⟨_, rfl, leads⟩⟩
    · exact logging.positive term ⟨leader, old⟩
    · obtain ⟨sameTerm, held | ⟨_, _, _, _, wins⟩⟩ := role.leads leads
      · exact (logging.positive _ ⟨_, voting.led held⟩).trans_eq sameTerm.symm
      · exact (node.standing wins.1).trans_eq sameTerm.symm
  · rintro term leader led
    refine forall_apply_nodes cluster event (fun id state =>
      (cluster.observed entriesOf history event).led term id → term ≤ state.currentTerm ∧
        (term = state.currentTerm → state.state ≠ .candidate)) ?_ ?_ leader led
    · rintro (old | ⟨_, rfl, leads⟩)
      · obtain ⟨below, unstanding⟩ := logging.office term event.target old
        refine ⟨below.trans stepped.term, ?_⟩
        rintro same stands
        rcases role.stands stands with ⟨stood, term', _⟩ | ⟨term', _⟩ | ⟨_, _, _, _, stood, _, counted⟩
        · exact unstanding (same.trans term') stood
        · rw [show (cluster.acted event).currentTerm = _ from term'] at same
          omega
        · rw [show cluster.acted event = _ from counted] at same
          exact unstanding same stood
      · refine ⟨le_refl _, fun _ stands => ?_⟩
        rw [show (cluster.acted event).state = .leader from leads] at stands
        cases stands
    · rintro other differs (old | ⟨same, _⟩)
      · exact logging.office term other old
      · exact absurd same differs
  · intro term led
    rcases History.observe_leaderLog_cases led with ⟨_, _, shown⟩ | ⟨before, same⟩
    · rw [shown]
      exact regular
    · rw [same]
      exact logging.regular term before
  · refine forall_apply_nodes cluster event (fun id state => NodeLog members id state) ?_
      (fun other _ => logging.nodes other)
    exact ⟨whole, regular, applied, node.term.trans stepped.term, standing, ledger.tracked⟩
  · refine forall_apply_nodes cluster event (fun id state => ∀ target request,
      .appendEntries target request ∈ state.outbox → target ∈ members ∧ target ≠ id ∧
        (cluster.observed entriesOf history event).led request.term id ∧
        request.Slices ((cluster.observed entriesOf history event).leaderLog request.term)) ?_ ?_
    · intro target request sent
      rcases ledger.sent target request sent with old | ⟨leads, announces⟩
      · obtain ⟨member, differs, led, slices⟩ := logging.requests _ target request old
        exact ⟨member, differs, grown.led led, slices.mono (grown.leaderLog ⟨_, led⟩)⟩
      · obtain ⟨member, differs, term, _, slices⟩ :=
          announces_slices whole announces (fun _ _ _ => id)
        refine ⟨member, differs, ?_, ?_⟩
        · exact .inr ⟨rfl, term, leads⟩
        · rw [term]
          have shown : (cluster.observed entriesOf history event).leaderLog
              (cluster.acted event).currentTerm = entriesOf (cluster.acted event).log :=
            History.observe_leaderLog_of_leads leads
          rwa [shown]
    · intro other _ target request sent
      obtain ⟨member, differs, led, slices⟩ := logging.requests other target request sent
      exact ⟨member, differs, grown.led led, slices.mono (grown.leaderLog ⟨_, led⟩)⟩
  · intro reply member succeeded
    rcases mem_append.mp member with old | new
    · exact (logging.replies reply old succeeded).mono grown
    · exact logging.soundReply voting enabled ordinary legal new succeeded

end

variable {config : RaftNodeId → RaftConfig} {log : RaftNodeId → L}

theorem Logging.start (empty : ∀ node, Uncompacted (log node) ∧ entriesOf (log node) = []) :
    Logging members (start members config log)
      (.initial fun node => ((start members config log).nodes node).shows entriesOf) where
  matching := .initial (fun node => (empty node).2) (fun _ => nofun)
  positive _ led := led.choose_spec.elim
  office _ _ := False.elim
  regular _ led := led.choose_spec.elim
  nodes node :=
    { whole := (empty node).1
      regular := by
        intro entry member
        change entry ∈ entriesOf (log node) at member
        rw [(empty node).2] at member
        cases member
      applied := le_refl _
      term := le_refl _
      standing := nofun
      tracked := fun _ _ => nofun }
  requests _ _ _ := nofun
  replies _ := nofun

theorem SoundReply.holds (sound : SoundReply members history reply) (logging : Logging members cluster history)
    {index : Int} (within : index ≤ verified reply.request ∨ termAt reply.log index = reply.request.term) :
    index ≤ (history.leaderLog reply.request.term).length ∧
      (history.leaderLog reply.request.term).take index.toNat <+: entriesOf reply.log := by
  have reached := sound.reached
  have nonneg := sound.nonneg
  by_cases inside : index ≤ verified reply.request
  · refine ⟨by omega, List.IsPrefix.trans ?_ sound.stored⟩
    rw [prefix_take_iff]
    constructor
    · exact take_prefix _ _
    · rw [length_take]
      omega
  · have term := within.resolve_left inside
    have above := logging.positive _ ⟨_, sound.led⟩
    have positive : 0 < index := by
      by_contra nonpos
      rw [sound.whole.termAt_nonpos (by omega), kNoTerm] at term
      omega
    have below : index ≤ lastIndex reply.log := by
      by_contra beyond
      rw [sound.whole.termAt_beyond (by omega), kNoTerm] at term
      omega
    obtain ⟨entry, found, same⟩ := sound.whole.exists_entry positive below
    obtain ⟨_, stored⟩ := sound.canonical.take_stored found
    have length := ReplicatedLog.length_take_of_getElem? found
    rw [show index.toNat - 1 + 1 = index.toNat by omega] at stored length
    rw [← same, term] at stored
    have whole := stored.length_le
    refine ⟨by omega, ?_⟩
    have agree := prefix_iff_eq_take.mp stored
    rw [length] at agree
    rw [← agree]
    exact take_prefix _ _

/-- A response of the current term does not raise the match index above what the
request covers, unless the log that answered has an entry of this term there. -/
def MatchVerified (cluster : Cluster L) : ClusterEvent L → Prop
  | .appendEntriesReply _ reply =>
    ∀ follower, (cluster.nodes reply.leader).state = .leader → reply.response.success = true →
      reply.response.term = (cluster.nodes reply.leader).currentTerm →
      (cluster.nodes reply.leader).replication.followerStates.lookup reply.follower = some follower →
      max follower.matchIndex reply.response.lastLogIndex ≤ verified reply.request ∨
        termAt reply.log (max follower.matchIndex reply.response.lastLogIndex) =
          (cluster.nodes reply.leader).currentTerm
  | _ => True

instance (cluster : Cluster L) : (event : ClusterEvent L) → Decidable (cluster.MatchVerified event)
  | .appendEntriesReply _ reply =>
    match tracked : (cluster.nodes reply.leader).replication.followerStates.lookup reply.follower with
    | none => .isTrue fun _ _ _ _ found => nomatch tracked.symm.trans found
    | some follower =>
      decidable_of_iff
        ((cluster.nodes reply.leader).state = .leader → reply.response.success = true →
          reply.response.term = (cluster.nodes reply.leader).currentTerm →
          max follower.matchIndex reply.response.lastLogIndex ≤ verified reply.request ∨
            termAt reply.log (max follower.matchIndex reply.response.lastLogIndex) =
              (cluster.nodes reply.leader).currentTerm)
        ⟨fun holds _ leads succeeded current found =>
          Option.some.inj (tracked.symm.trans found) ▸ holds leads succeeded current,
          fun holds leads succeeded current => holds follower leads succeeded current tracked⟩
  | .electionTimeout _ | .heartbeatTick _ _ | .propose _ _ | .requestVote _ _ _ | .requestVoteReply _ _
  | .appendEntries _ _ _ | .stepDown _ | .transferStart _ _ | .transferRound _ _ _ _ | .transferSignal _ _
  | .transferFinish _ | .shutdown _ => .isTrue trivial

theorem logging_of_run {condition : Cluster L → ClusterEvent L → Prop}
    (empty : ∀ node, Uncompacted (log node) ∧ entriesOf (log node) = []) (distinct : members.Nodup)
    (named : kNoLeader ∉ members)
    (sufficient : ∀ cluster event, condition cluster event → Enabled members cluster event ∧
      cluster.Ordinary event ∧ cluster.CountsOnce event) {events : List (ClusterEvent L)}
    (meets : StepsMeet condition (start members config log) events) :
    ∃ history, Voting members entriesOf ((start members config log).run events) history ∧
      Logging members ((start members config log).run events) history := by
  refine run_preserves (fun cluster => ∃ history, Voting members entriesOf cluster history ∧
    Logging members cluster history) ?_ ⟨_, .start members config log, .start empty⟩ meets
  rintro cluster event condition ⟨history, voting, logging⟩
  obtain ⟨enabled, ordinary, once⟩ := sufficient cluster event condition
  refine ⟨_, voting.apply distinct named enabled once ?_, logging.apply voting distinct enabled ordinary once⟩
  rw [(logging.logStep enabled ordinary).membership]
  exact voting.membership event.target

/-- In every run in which grants are counted once and no response of the
current term raises the match index above what was verified, the log of the
follower that answered agrees with the leader's up to the match index. -/
theorem match_index_sound (members : List RaftNodeId) (config : RaftNodeId → RaftConfig)
    (log : RaftNodeId → L) (events : List (ClusterEvent L))
    (empty : ∀ node, Uncompacted (log node) ∧ entriesOf (log node) = []) (distinct : members.Nodup)
    (named : kNoLeader ∉ members)
    (meets : StepsMeet (fun cluster event => Enabled members cluster event ∧ cluster.Ordinary event ∧
      cluster.CountsOnce event ∧ cluster.MatchVerified event) (start members config log) events)
    (earlier later : List (ClusterEvent L)) (env : Env) (reply : AppendReply L)
    (split : events = earlier ++ .appendEntriesReply env reply :: later)
    (leads : (((start members config log).run earlier).nodes reply.leader).state = .leader)
    (succeeded : reply.response.success = true)
    (current : reply.response.term = (((start members config log).run earlier).nodes reply.leader).currentTerm)
    (follower : FollowerState)
    (found : (((start members config log).run (earlier ++ [.appendEntriesReply env reply])).nodes
      reply.leader).replication.followerStates.lookup reply.follower = some follower)
    (index : Int) (lower : 1 ≤ index) (upper : index ≤ follower.matchIndex) :
    termAt reply.log index = termAt
      (((start members config log).run (earlier ++ [.appendEntriesReply env reply])).nodes
        reply.leader).log index := by
  subst split
  obtain ⟨before, ⟨enabled, _, _, matched⟩, _⟩ := meets.of_append
  obtain ⟨history, voting, logging⟩ := logging_of_run empty distinct named
    (fun _ _ condition => ⟨condition.1, condition.2.1, condition.2.2.1⟩) before
  rw [run_append] at found ⊢
  generalize (start members config log).run earlier = cluster at *
  have acted : (cluster.run [.appendEntriesReply env reply]).nodes reply.leader =
      (cluster.nodes reply.leader).handleAppendEntriesResponse env reply.follower reply.response :=
    cluster.apply_nodes_target (.appendEntriesReply env reply)
  rw [acted] at found ⊢
  have node := logging.nodes reply.leader
  obtain ⟨sameLog, old, tracked, raised⟩ := handleAppendEntriesResponse_match env _ _ _
    node.whole node.regular node.applied leads current.le succeeded found
  have sound := logging.replies reply enabled.2 succeeded
  have term : reply.request.term = (cluster.nodes reply.leader).currentTerm :=
    sound.term.symm.trans current
  have leaderLog : entriesOf (cluster.nodes reply.leader).log = history.leaderLog reply.request.term := by
    have stored := logging.matching.current reply.leader
    rw [voting.view] at stored
    rw [term]
    exact stored leads
  obtain ⟨reached, holds⟩ := sound.holds logging (term ▸ matched old leads succeeded current tracked)
  rw [← raised] at reached holds
  rw [sameLog]
  obtain ⟨entry, stored, same⟩ := node.whole.exists_entry (by omega : 0 < index)
    (by rw [node.whole.lastIndex, leaderLog]; omega)
  rw [same]
  rw [leaderLog] at stored
  have answered : (entriesOf reply.log)[index.toNat - 1]? = some entry := by
    obtain ⟨rest, shape⟩ := holds
    rw [← shape, getElem?_append_left (by rw [length_take]; omega), getElem?_take_of_lt (by omega)]
    exact stored
  have answeredTerm := sound.whole.termAt_of_getElem? answered
  rwa [show ((index.toNat - 1 : Nat) : Int) + 1 = index by omega] at answeredTerm

/-- Node 1 leads the first term, is isolated, and is elected once more by node 3,
whose log it then brings up to date. -/
def catchUpRun : List (ClusterEvent LogView) :=
  let probe : AppendEntriesRequest := { term := 2, leaderId := 1, prevLogIndex := 1, prevLogTerm := 1 }
  let batch : AppendEntriesRequest := { term := 2, leaderId := 1, entries := [⟨1, 1, .noOp⟩, ⟨2, 2, .noOp⟩] }
  let log : LogView := .ofEntries [⟨1, 1, .noOp⟩, ⟨2, 2, .noOp⟩]
  electionRun 3 { term := 1, candidateId := 1 } ++
    .heartbeatTick 1 { partitioned := true } ::
    electionRun 3 { term := 2, candidateId := 1, lastLogIndex := 1, lastLogTerm := 1 } ++
    [.appendEntries 1 3 probe,
      .appendEntriesReply {} ⟨1, 3, probe, { term := 2, conflictIndex := 1 }, LogView.empty⟩,
      .appendEntries 1 3 batch,
      .appendEntriesReply {} ⟨1, 3, batch, { term := 2, success := true }, log⟩,
      .heartbeatTick 1 {},
      .appendEntries 1 3 { term := 2, leaderId := 1 }]

/-- Log matching: logs with an entry of one term at one position agree up to it. -/
theorem log_matching (members : List RaftNodeId) (config : RaftNodeId → RaftConfig) (log : RaftNodeId → L)
    (events : List (ClusterEvent L)) (empty : ∀ node, Uncompacted (log node) ∧ entriesOf (log node) = [])
    (distinct : members.Nodup) (named : kNoLeader ∉ members)
    (meets : StepsMeet (fun cluster event => Enabled members cluster event ∧ cluster.Ordinary event ∧
      cluster.CountsOnce event) (start members config log) events)
    (first second : RaftNodeId) (position : Nat) (entry other : LogEntry)
    (found : (entriesOf (((start members config log).run events).nodes first).log)[position]? = some entry)
    (found' : (entriesOf (((start members config log).run events).nodes second).log)[position]? = some other)
    (sameTerm : entry.term = other.term) :
    (entriesOf (((start members config log).run events).nodes first).log).take (position + 1) =
      (entriesOf (((start members config log).run events).nodes second).log).take (position + 1) := by
  obtain ⟨_, voting, logging⟩ := logging_of_run empty distinct named (fun _ _ met => met) meets
  have left := logging.matching.views first
  have right := logging.matching.views second
  rw [voting.view] at left right
  exact left.take_eq right found found' sameTerm

/-- Nodes 1 and 3 hold an entry of the second term at the second position. -/
theorem log_matching_caught_up : (entriesOf ((trio.run catchUpRun).nodes 1).log).take 2 =
    (entriesOf ((trio.run catchUpRun).nodes 3).log).take 2 := by
  refine log_matching [1, 2, 3] (fun _ => { enablePreVote := false }) (fun _ => LogView.empty) catchUpRun
    (fun _ => ⟨rfl, rfl⟩) (by decide) (by decide) ?_ 1 3 1 ⟨2, 2, .noOp⟩ ⟨2, 2, .noOp⟩ ?_ ?_ rfl
  · decide +kernel
  · decide +kernel
  · decide +kernel

def catchUpReply : AppendReply LogView where
  leader := 1
  follower := 3
  request := { term := 2, leaderId := 1 }
  response := { term := 2, success := true, lastLogIndex := 2 }
  log := .ofEntries [⟨1, 1, .noOp⟩, ⟨2, 2, .noOp⟩]

def catchUpLeader : RaftNode LogView :=
  (trio.run (catchUpRun ++ [.appendEntriesReply {} catchUpReply])).nodes 1

/-- The heartbeat is answered by a log that ends in an entry of the term. -/
theorem match_index_sound_heartbeat :
    (catchUpLeader.replication.followerStates.lookup 3).map (·.matchIndex) = some 2 ∧
      ∀ follower, catchUpLeader.replication.followerStates.lookup 3 = some follower →
        ∀ index : Int, 1 ≤ index → index ≤ follower.matchIndex →
          termAt catchUpReply.log index = termAt catchUpLeader.log index := by
  refine ⟨by decide +kernel, ?_⟩
  refine match_index_sound [1, 2, 3] (fun _ => { enablePreVote := false }) (fun _ => LogView.empty)
    (catchUpRun ++ [.appendEntriesReply {} catchUpReply]) (fun _ => ⟨rfl, rfl⟩) (by decide) (by decide)
    ?_ catchUpRun [] {} catchUpReply rfl ?_ rfl ?_
  · decide +kernel
  · decide +kernel
  · decide +kernel

/-- Node 2 is elected in the second term while node 1 still holds an entry of the
first, and hears from it with the length of that log. -/
def divergentRun : List (ClusterEvent LogView) :=
  electionRun 3 { term := 1, candidateId := 1 } ++
    .electionTimeout 2 :: electionRun 3 { term := 2, candidateId := 2 } ++
    [.appendEntries 2 1 { term := 2, leaderId := 2 }]

def divergentReply : AppendReply LogView where
  leader := 2
  follower := 1
  request := { term := 2, leaderId := 2 }
  response := { term := 2, success := true, lastLogIndex := 1 }
  log := .ofEntries [⟨1, 1, .noOp⟩]

def divergentLeader : RaftNode LogView :=
  (trio.run (divergentRun ++ [.appendEntriesReply {} divergentReply])).nodes 2

/-- The leader takes the length that the follower reports for a match, although
the only entry there is of another term. -/
theorem match_index_beyond_verified :
    StepsMeet (fun cluster event => Enabled [1, 2, 3] cluster event ∧ cluster.Ordinary event)
        trio (divergentRun ++ [.appendEntriesReply {} divergentReply]) ∧
      ((trio.run divergentRun).nodes 2).state = .leader ∧
      ((trio.run divergentRun).nodes 2).currentTerm = divergentReply.response.term ∧
      (divergentLeader.replication.followerStates.lookup 1).map (·.matchIndex) = some 1 ∧
      termAt divergentReply.log 1 ≠ termAt divergentLeader.log 1 := by
  decide +kernel

end Cluster

end TorrentMq.Consensus
