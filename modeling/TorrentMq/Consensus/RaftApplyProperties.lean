import TorrentMq.Consensus.RaftLogProperties
import TorrentMq.Consensus.RaftNodeCases

/-! The apply loop and the commit index. Entries reach the state machine in
index order and once each; the commit index moves forward as long as no
accepted request ends below it. -/

set_option autoImplicit false

namespace TorrentMq.Consensus

open List

def ReadsExactly {L : Type} [RaftLog L] (log : L) (low high : Int) : Prop :=
  ∀ start stop, low < start → start ≤ stop → stop ≤ high →
    RaftLog.getEntries log start stop = [] ∨
      Numbered (start - 1) (RaftLog.getEntries log start stop) ∧
        ((RaftLog.getEntries log start stop).length : Int) = stop - start + 1

/-- A log whose reads are all or nothing, whatever the range. -/
class ExactReads (L : Type) [RaftLog L] : Prop where
  readsExactly : ∀ (log : L) (low high : Int), ReadsExactly log low high

instance : ExactReads LogView where
  readsExactly view _ _ start stop _ _ _ := by
    by_cases inside : start > stop ∨ start < view.firstIndex ∨ stop > view.lastIndex
    · exact .inl (if_pos inside)
    · exact .inr ⟨view.numbered_getEntries start stop,
        view.length_getEntries (by omega) (by omega) (by omega)⟩

namespace RaftNode

variable {L : Type} [RaftLog L]

variable (node : RaftNode L)

theorem processConfigChange_progress (command : ConfigChangeCommand) :
    (node.processConfigChange command).applied = node.applied ∧
      (node.processConfigChange command).lastApplied = node.lastApplied := by
  have direct : ∀ members, (node.applyDirectMembershipChange members).applied = node.applied ∧
      (node.applyDirectMembershipChange members).lastApplied = node.lastApplied := by
    intro members
    unfold applyDirectMembershipChange reconcileFollowerStates
    dsimp only
    repeat' split
    all_goals exact ⟨rfl, rfl⟩
  have joint : (node.applyJointConsensusEntry command).applied = node.applied ∧
      (node.applyJointConsensusEntry command).lastApplied = node.lastApplied := by
    unfold applyJointConsensusEntry
    dsimp only
    split
    · exact direct _
    · split <;> exact ⟨rfl, rfl⟩
  have final : (node.applyJointConsensusFinalization command).applied = node.applied ∧
      (node.applyJointConsensusFinalization command).lastApplied = node.lastApplied := by
    unfold applyJointConsensusFinalization
    dsimp only
    repeat' split
    all_goals simp
  unfold processConfigChange
  dsimp only
  split
  · split
    · exact direct _
    · exact joint
  · exact final

@[simp] theorem applyEntry_applied (entry : LogEntry) :
    (node.applyEntry entry).applied = node.applied ++ [entry] := by
  unfold applyEntry
  dsimp only
  split
  · rw [(processConfigChange_progress node _).1]
  · rfl

theorem applyBatch_applied (entries : List LogEntry) :
    (node.applyBatch entries).applied = node.applied ++ entries := by
  unfold applyBatch
  induction entries generalizing node with
  | nil => simp
  | cons entry entries ih => simp [ih]

variable {entries : List LogEntry}

theorem applyBatch_lastApplied
    (numbered : Numbered node.lastApplied entries) :
    (node.applyBatch entries).lastApplied = node.lastApplied + entries.length := by
  unfold applyBatch
  induction entries generalizing node with
  | nil => simp
  | cons entry entries ih =>
    obtain ⟨head, tail⟩ := Numbered.cons_iff.mp numbered
    have next : (node.applyEntry entry).lastApplied = node.lastApplied + 1 := head
    rw [foldl_cons, ih _ (next ▸ tail), next, length_cons]
    push_cast
    omega

theorem applyBatch_pendingConfigIndex (entries : List LogEntry) :
    (node.applyBatch entries).pendingConfigIndex =
      if entries.any (·.isConfigChange) then 0 else node.pendingConfigIndex := by
  have single : ∀ (reached : RaftNode L) (entry : LogEntry), (reached.applyEntry entry).pendingConfigIndex =
      if entry.isConfigChange then 0 else reached.pendingConfigIndex := by
    intro reached entry
    unfold applyEntry LogEntry.isConfigChange RaftCommand.isConfigChange
    cases entry.command <;> rfl
  unfold applyBatch
  induction entries generalizing node with
  | nil => simp
  | cons entry entries ih =>
    rw [foldl_cons, ih, single, any_cons]
    cases entry.isConfigChange <;> simp

/-- The entries that one run of the apply loop hands to the state machine. -/
structure AppliesEntries (before after : RaftNode L) (entries : List LogEntry) : Prop where
  applied : after.applied = before.applied ++ entries
  numbered : Numbered before.lastApplied entries
  lastApplied : after.lastApplied = before.lastApplied + entries.length
  bounded : after.lastApplied ≤ max before.lastApplied before.commitIndex
  stored : ∀ entry ∈ entries, ∃ start stop, before.lastApplied < start ∧ start ≤ stop ∧
    stop ≤ before.commitIndex ∧ entry ∈ RaftLog.getEntries before.log start stop
  pendingConfigIndex : after.pendingConfigIndex =
    if entries.any (·.isConfigChange) then 0 else before.pendingConfigIndex

theorem AppliesEntries.nil : AppliesEntries node node [] where
  applied := by simp
  numbered := .nil _
  lastApplied := by simp
  bounded := le_max_left _ _
  stored := by simp
  pendingConfigIndex := by simp

theorem AppliesEntries.trans {first second third : RaftNode L} {more : List LogEntry}
    (left : AppliesEntries first second entries) (applies : Applies first second)
    (right : AppliesEntries second third more) : AppliesEntries first third (entries ++ more) where
  applied := by rw [right.applied, left.applied, append_assoc]
  numbered := left.numbered.append (left.lastApplied ▸ right.numbered)
  lastApplied := by
    rw [right.lastApplied, left.lastApplied, length_append]
    push_cast
    omega
  bounded := by
    have := left.bounded
    have := right.bounded
    rw [applies.commitIndex] at this
    omega
  stored := by
    intro entry member
    rcases mem_append.mp member with old | new
    · exact left.stored entry old
    · obtain ⟨start, stop, lower, range, upper, read⟩ := right.stored entry new
      rw [applies.log] at read
      rw [applies.commitIndex] at upper
      have := left.lastApplied
      exact ⟨start, stop, by omega, range, upper, read⟩
  pendingConfigIndex := by
    rw [right.pendingConfigIndex, left.pendingConfigIndex, any_append]
    cases entries.any (·.isConfigChange) <;> simp

theorem nextBatch_spec (pending : node.commitIndex > node.lastApplied)
    (reads : ReadsExactly node.log node.lastApplied node.commitIndex) (nonempty : node.nextBatch ≠ []) :
    0 < node.nextBatch.length ∧ AppliesEntries node (node.applyBatch node.nextBatch) node.nextBatch := by
  obtain ⟨numbered, length⟩ := (reads _ _ (by omega) (by unfold kMaxApplyBatch; omega) (by omega)).resolve_left nonempty
  have numbered : Numbered node.lastApplied node.nextBatch := by
    simpa [nextBatch] using numbered
  have length : (node.nextBatch.length : Int) = min (node.commitIndex - node.lastApplied).toNat kMaxApplyBatch := by
    rw [nextBatch, length]
    omega
  have last := node.applyBatch_lastApplied numbered
  refine ⟨length_pos_of_ne_nil nonempty, node.applyBatch_applied _, numbered, last, ?_, ?_,
    node.applyBatch_pendingConfigIndex _⟩
  · rw [last]
    omega
  · intro entry member
    exact ⟨_, _, by omega, by unfold kMaxApplyBatch; omega, by omega, member⟩

variable {after : RaftNode L}

theorem ReadsExactly.of_applied {node : RaftNode L}
    (reads : ReadsExactly node.log node.lastApplied node.commitIndex) (applies : Applies node after)
    (applied : AppliesEntries node after entries) :
    ReadsExactly after.log after.lastApplied after.commitIndex := by
  rw [applies.log, applies.commitIndex]
  intro start stop lower range upper
  have := applied.lastApplied
  exact reads start stop (by omega) range upper

theorem applyRounds_spec (fuel : Nat) (node : RaftNode L)
    (reads : ReadsExactly node.log node.lastApplied node.commitIndex)
    (enough : (node.commitIndex - node.lastApplied).toNat ≤ fuel) :
    (∃ entries, AppliesEntries node (applyRounds fuel node) entries) ∧
      ((applyRounds fuel node).commitIndex ≤ (applyRounds fuel node).lastApplied ∨
        (applyRounds fuel node).nextBatch = []) := by
  induction fuel generalizing node with
  | zero => exact ⟨⟨[], .nil node⟩, .inl (by simp only [applyRounds]; omega)⟩
  | succ fuel ih =>
    unfold applyRounds
    split
    next pending =>
      split
      next none => exact ⟨⟨[], .nil node⟩, .inr (by simpa using none)⟩
      next some =>
        obtain ⟨positive, batch⟩ := node.nextBatch_spec pending reads (by simpa using some)
        have applies := applyBatch_applies node node.nextBatch
        have closer := batch.lastApplied
        have sameCommit := applies.commitIndex
        obtain ⟨⟨entries, rest⟩, finished⟩ :=
          ih _ (ReadsExactly.of_applied reads applies batch) (by omega)
        exact ⟨⟨_, batch.trans applies rest⟩, finished⟩
    next done => exact ⟨⟨[], .nil node⟩, .inl (by omega)⟩

theorem applyCommitted_spec (reads : ReadsExactly node.log node.lastApplied node.commitIndex) :
    (∃ entries, AppliesEntries node node.applyCommitted entries) ∧
      (node.applyCommitted.commitIndex ≤ node.applyCommitted.lastApplied ∨ node.applyCommitted.nextBatch = []) :=
  applyRounds_spec _ node reads (le_refl _)

section Lawful

variable [LawfulRaftLog L]

open LawfulRaftLog

theorem readsExactly_of_inside (log : L) {low high : Int} (lower : (view log).snapshotIndex ≤ low)
    (upper : high ≤ (view log).lastIndex) : ReadsExactly log low high := by
  intro start stop above range below
  have first : (view log).firstIndex = (view log).snapshotIndex + 1 := rfl
  rw [getEntries_eq log start stop (by omega) (by omega) (by omega)]
  exact .inr ⟨(view log).numbered_getEntries start stop, (view log).length_getEntries (by omega) range (by omega)⟩

theorem applyCommitted_complete (node : RaftNode L) (lower : (view node.log).snapshotIndex ≤ node.lastApplied)
    (upper : node.commitIndex ≤ (view node.log).lastIndex) :
    ∃ entries, AppliesEntries node node.applyCommitted entries ∧
      node.applyCommitted.lastApplied = max node.lastApplied node.commitIndex := by
  obtain ⟨⟨entries, applied⟩, finished⟩ :=
    node.applyCommitted_spec (readsExactly_of_inside node.log lower upper)
  refine ⟨entries, applied, ?_⟩
  have applies := applyCommitted_applies node
  have bounded := applied.bounded
  have reached := applied.lastApplied
  rcases finished with done | empty
  · rw [applies.commitIndex] at done
    omega
  · by_contra short
    have pending : node.applyCommitted.lastApplied < node.commitIndex := by omega
    have inside : (view node.log).firstIndex ≤ node.applyCommitted.lastApplied + 1 := by
      simp only [LogView.firstIndex]
      omega
    unfold nextBatch at empty
    rw [applies.log, applies.commitIndex, getEntries_eq node.log _ _ inside
      (by unfold kMaxApplyBatch; omega) (by omega)] at empty
    have length := (view node.log).length_getEntries inside
      (show node.applyCommitted.lastApplied + 1 ≤ node.applyCommitted.lastApplied +
        (min (node.commitIndex - node.applyCommitted.lastApplied).toNat kMaxApplyBatch : Nat) by
          unfold kMaxApplyBatch; omega) (by omega)
    rw [empty] at length
    simp only [length_nil, kMaxApplyBatch] at length
    omega

end Lawful

/-- A step that hands the next entries in order to the state machine. -/
structure Advances (before after : RaftNode L) : Prop where
  entries : ∃ entries, after.applied = before.applied ++ entries ∧
    Numbered before.lastApplied entries ∧ after.lastApplied = before.lastApplied + entries.length
  bounded : after.lastApplied ≤ max before.lastApplied after.commitIndex

omit [RaftLog L] in
theorem Steady.advances {before : RaftNode L} (steady : Steady before after) :
    Advances before after where
  entries := ⟨[], by simp [steady.applied], .nil _, by simp [steady.lastApplied]⟩
  bounded := steady.lastApplied ▸ le_max_left _ _

omit [RaftLog L] in
theorem Advances.of_steady {before middle : RaftNode L} (steady : Steady before middle)
    (advances : Advances middle after) : Advances before after := by
  obtain ⟨entries, bounded⟩ := advances
  rw [steady.applied, steady.lastApplied] at entries
  rw [steady.lastApplied] at bounded
  exact ⟨entries, bounded⟩

section ExactReads

variable [ExactReads L]

theorem commit_advances (node : RaftNode L) (index : Int) :
    Advances node { node with commitIndex := index }.applyCommitted := by
  obtain ⟨⟨entries, applied⟩, _⟩ :=
    { node with commitIndex := index }.applyCommitted_spec (ExactReads.readsExactly _ _ _)
  have bounded := applied.bounded
  have same := (applyCommitted_applies { node with commitIndex := index }).commitIndex
  exact ⟨⟨entries, applied.applied, applied.numbered, applied.lastApplied⟩, same ▸ bounded⟩

theorem advanceCommitIndex_advances (node : RaftNode L) : Advances node node.advanceCommitIndex := by
  rcases advanceCommitIndex_cases node with same | ⟨index, _, shape⟩
  · rw [same]
    exact (Steady.refl node).advances
  · rw [shape]
    exact commit_advances node index

theorem advanceFollowerCommit_advances (node : RaftNode L) (request : AppendEntriesRequest) :
    Advances node (node.advanceFollowerCommit request) := by
  unfold advanceFollowerCommit
  split
  · exact commit_advances node _
  · exact (Steady.refl node).advances

omit [ExactReads L] in
theorem stored_steady (node : RaftNode L) (request : AppendEntriesRequest) :
    Steady node { node.adopt request.term with
      leaderId := request.leaderId
      log := (appendEntriesToLog node.log request).1 } :=
  ⟨by simp, by simp, by simp, by simp, by simp, by simp⟩

theorem handleAppendEntries_advances (node : RaftNode L) (request : AppendEntriesRequest) :
    Advances node (node.handleAppendEntries request).1 := by
  generalize reply : node.handleAppendEntries request = result
  have outcome := node.handleAppendEntries_outcome request
  rw [reply] at outcome
  cases outcome with
  | stale => exact (Steady.refl node).advances
  | rival => exact Steady.advances ⟨rfl, rfl, rfl, rfl, rfl, rfl⟩
  | refused => exact (stored_steady node request).advances
  | accepted =>
    exact .of_steady (stored_steady node request) (advanceFollowerCommit_advances _ request)

section

variable (env : Env) (node : RaftNode L) (sender : RaftNodeId)

theorem handleAppendEntriesResponse_advances
    (response : AppendEntriesResponse) :
    Advances node (node.handleAppendEntriesResponse env sender response) := by
  generalize result : node.handleAppendEntriesResponse env sender response = after
  have outcome := handleAppendEntriesResponse_outcome env node sender response
  rw [result] at outcome
  cases outcome with
  | ignored => exact (Steady.refl node).advances
  | deposed => exact (Steady.becomeFollower node response.term).advances
  | advanced _ replication =>
    refine .of_steady ?_ (advanceCommitIndex_advances _)
    exact ⟨rfl, rfl, rfl, rfl, rfl, rfl⟩
  | retried _ replication _ _ _ _ _ sent =>
    refine .of_steady ?_ sent.steady.advances
    exact ⟨rfl, rfl, rfl, rfl, rfl, rfl⟩

theorem handleInstallSnapshotResponse_advances (response : InstallSnapshotResponse) :
    Advances node (node.handleInstallSnapshotResponse env sender response) := by
  rcases handleInstallSnapshotResponse_cases env node sender response with
    same | deposed | ⟨_, replication, recorded | advanced | sent⟩
  · rw [same]
    exact (Steady.refl node).advances
  · rw [deposed]
    exact (Steady.becomeFollower node response.term).advances
  · rw [recorded]
    exact Steady.advances ⟨rfl, rfl, rfl, rfl, rfl, rfl⟩
  · rw [advanced]
    refine .of_steady ?_ (advanceCommitIndex_advances _)
    exact ⟨rfl, rfl, rfl, rfl, rfl, rfl⟩
  · refine .of_steady ?_ sent.steady.advances
    exact ⟨rfl, rfl, rfl, rfl, rfl, rfl⟩

end

theorem step_advances (node : RaftNode L) (input : Input) :
    Advances node (node.step input) ∧ (∀ env request, input ≠ .installSnapshot env request) ∨
      (∃ env request, input = .installSnapshot env request) ∧ (node.step input).applied = node.applied ∧
        ∃ index, (node.step input).lastApplied = max node.lastApplied index ∧
          (node.step input).commitIndex = max node.commitIndex index := by
  by_cases install : ∃ env request, input = .installSnapshot env request
  · obtain ⟨env, request, rfl⟩ := install
    refine .inr ⟨⟨env, request, rfl⟩, ?_⟩
    rcases handleInstallSnapshot_cases env node request with ⟨steady, _⟩ | ⟨snapshot, _, commit, last, applied⟩
    · refine ⟨steady.applied, min node.lastApplied node.commitIndex, ?_, ?_⟩
      · exact steady.lastApplied.trans (max_eq_left (min_le_left _ _)).symm
      · exact steady.commitIndex.trans (max_eq_left (min_le_right _ _)).symm
    · exact ⟨applied, _, last, commit⟩
  · refine .inl ⟨?_, fun env request same => install ⟨env, request, same⟩⟩
    rcases step_cases node input with steady | ⟨request, rfl⟩ | installed |
      ⟨env, sender, response, rfl⟩ | ⟨env, sender, response, rfl⟩
    · exact steady.advances
    · exact handleAppendEntries_advances node request
    · exact absurd installed install
    · exact handleAppendEntriesResponse_advances env node sender response
    · exact handleInstallSnapshotResponse_advances env node sender response

inductive ApplyEvent where
  | applied (entry : LogEntry)
  | jumped (index : Int)
  deriving DecidableEq

def ApplyEvent.entry? : ApplyEvent → Option LogEntry
  | .applied entry => some entry
  | .jumped _ => none

omit [ExactReads L]

def applyEvents (node : RaftNode L) (input : Input) : List ApplyEvent :=
  ((node.step input).applied.drop node.applied.length).map .applied ++
    match input with
    | .installSnapshot _ _ =>
      if node.lastApplied < (node.step input).lastApplied then
        [.jumped (node.step input).lastApplied]
      else []
    | _ => []

def applyTrace (node : RaftNode L) : List Input → List ApplyEvent
  | [] => []
  | input :: inputs => node.applyEvents input ++ (node.step input).applyTrace inputs

def InOrder : Int → List ApplyEvent → Prop
  | _, [] => True
  | last, .applied entry :: events => entry.index = last + 1 ∧ InOrder entry.index events
  | last, .jumped index :: events => last < index ∧ InOrder index events

def lastIndexAfter (last : Int) : List ApplyEvent → Int
  | [] => last
  | .applied entry :: events => lastIndexAfter entry.index events
  | .jumped index :: events => lastIndexAfter index events

variable {last : Int} {events : List ApplyEvent}

theorem InOrder.append {more : List ApplyEvent} (first : InOrder last events)
    (second : InOrder (lastIndexAfter last events) more) : InOrder last (events ++ more) := by
  induction events generalizing last with
  | nil => exact second
  | cons event events ih =>
    cases event with
    | applied entry | jumped index => exact ⟨first.1, ih first.2 second⟩

theorem InOrder.of_numbered {entries : List LogEntry} (numbered : Numbered last entries) :
    InOrder last (entries.map .applied) ∧ lastIndexAfter last (entries.map .applied) = last + entries.length := by
  induction entries generalizing last with
  | nil => exact ⟨trivial, by simp [lastIndexAfter]⟩
  | cons entry entries ih =>
    obtain ⟨head, tail⟩ := Numbered.cons_iff.mp numbered
    obtain ⟨ordered, reached⟩ := ih tail
    rw [← head] at ordered reached
    refine ⟨⟨head, ordered⟩, ?_⟩
    simp only [map_cons, lastIndexAfter, reached, length_cons]
    push_cast
    omega

theorem InOrder.increasing (ordered : InOrder last events) :
    (∀ entry ∈ events.filterMap ApplyEvent.entry?, last < entry.index) ∧
      ((events.filterMap ApplyEvent.entry?).map (·.index)).Pairwise (· < ·) := by
  induction events generalizing last with
  | nil => simp
  | cons event events ih =>
    cases event with
    | applied entry =>
      obtain ⟨above, increasing⟩ := ih ordered.2
      have next := ordered.1
      simp only [filterMap_cons, ApplyEvent.entry?, mem_cons, map_cons,
        pairwise_cons, mem_map]
      refine ⟨?_, ?_, increasing⟩
      · rintro other (rfl | member)
        · omega
        · have := above other member
          omega
      · rintro _ ⟨other, member, rfl⟩
        exact above other member
    | jumped index =>
      obtain ⟨above, increasing⟩ := ih ordered.2
      have next := ordered.1
      simp only [filterMap_cons, ApplyEvent.entry?]
      refine ⟨?_, increasing⟩
      intro other member
      have := above other member
      omega

theorem applyEvents_spec [ExactReads L] (node : RaftNode L) (input : Input) :
    InOrder node.lastApplied (node.applyEvents input) ∧
      lastIndexAfter node.lastApplied (node.applyEvents input) = (node.step input).lastApplied ∧
      (node.step input).applied = node.applied ++ (node.applyEvents input).filterMap ApplyEvent.entry? := by
  rcases step_advances node input with ⟨advances, regular⟩ | ⟨⟨env, request, rfl⟩, applied, index, last, _⟩
  · obtain ⟨entries, applied, numbered, last⟩ := advances.entries
    have events : node.applyEvents input = entries.map .applied := by
      unfold applyEvents
      rw [applied, drop_left]
      cases input with
      | installSnapshot env request => exact absurd rfl (regular env request)
      | _ => exact append_nil _
    obtain ⟨ordered, reached⟩ := InOrder.of_numbered numbered
    rw [events]
    refine ⟨ordered, reached.trans last.symm, ?_⟩
    rw [applied, filterMap_map]
    congr 1
    exact (filterMap_some).symm
  · have events : node.applyEvents (.installSnapshot env request) =
        if node.lastApplied < (node.step (.installSnapshot env request)).lastApplied then
          [.jumped (node.step (.installSnapshot env request)).lastApplied] else [] := by
      unfold applyEvents
      rw [applied, drop_length]
      rfl
    rw [events]
    split
    next lifted =>
      exact ⟨⟨lifted, trivial⟩, rfl, by simp [ApplyEvent.entry?, applied]⟩
    next kept =>
      refine ⟨trivial, ?_, by simp [applied]⟩
      simp only [lastIndexAfter]
      omega

theorem applyTrace_spec [ExactReads L] (node : RaftNode L) (inputs : List Input) :
    InOrder node.lastApplied (node.applyTrace inputs) ∧
      (node.run inputs).applied = node.applied ++ (node.applyTrace inputs).filterMap ApplyEvent.entry? := by
  induction inputs generalizing node with
  | nil => exact ⟨trivial, by simp [applyTrace]⟩
  | cons input inputs ih =>
    obtain ⟨first, reached, applied⟩ := node.applyEvents_spec input
    obtain ⟨rest, final⟩ := ih (node.step input)
    refine ⟨first.append (reached ▸ rest), ?_⟩
    rw [run_cons, final, applied, applyTrace, filterMap_append, append_assoc]

/-- In every run the state machine receives consecutive indices from 1 on,
interrupted only by forward jumps of installed snapshots, and none twice. -/
theorem in_order_exactly_once_apply [ExactReads L] (nodeId : RaftNodeId) (config : RaftConfig)
    (log : L) (members : List RaftNodeId) (inputs : List Input) :
    InOrder 0 ((start nodeId config log members).applyTrace inputs) ∧
      ((start nodeId config log members).run inputs).applied =
        ((start nodeId config log members).applyTrace inputs).filterMap ApplyEvent.entry? ∧
      (((start nodeId config log members).run inputs).applied.map (·.index)).Pairwise (· < ·) := by
  obtain ⟨ordered, applied⟩ := (start nodeId config log members).applyTrace_spec inputs
  have applied : ((start nodeId config log members).run inputs).applied =
      ((start nodeId config log members).applyTrace inputs).filterMap ApplyEvent.entry? := by
    simpa [start] using applied
  refine ⟨ordered, applied, ?_⟩
  rw [applied]
  exact ordered.increasing.2

/-- Two entries arrive committed, then a snapshot up to index 5, then entry 6. -/
theorem in_order_around_snapshot :
    ((start 1 {} LogView.empty [1, 2, 3]).run
        [.appendEntries {
            term := 1, leaderId := 2, leaderCommit := 2
            entries := [{ term := 1, index := 1 }, { term := 1, index := 2 }] },
          .installSnapshot {} { term := 1, leaderId := 2, lastIncludedIndex := 5, done := true },
          .appendEntries {
            term := 1, leaderId := 2, prevLogIndex := 5, leaderCommit := 6
            entries := [{ term := 1, index := 6 }] }]).applied.map (·.index) = [1, 2, 6] ∧
    InOrder 0 ((start 1 {} LogView.empty [1, 2, 3]).applyTrace
        [.appendEntries {
            term := 1, leaderId := 2, leaderCommit := 2
            entries := [{ term := 1, index := 1 }, { term := 1, index := 2 }] },
          .installSnapshot {} { term := 1, leaderId := 2, lastIncludedIndex := 5, done := true },
          .appendEntries {
            term := 1, leaderId := 2, prevLogIndex := 5, leaderCommit := 6
            entries := [{ term := 1, index := 6 }] }]) :=
  ⟨by decide +kernel, (in_order_exactly_once_apply 1 {} LogView.empty [1, 2, 3] _).1⟩

end ExactReads

end RaftNode

end TorrentMq.Consensus
