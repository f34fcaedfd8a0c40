import TorrentMq.Consensus.RaftApplyProperties
import TorrentMq.Consensus.RaftFollowerLogProperties
import TorrentMq.Consensus.RaftNodeRoles
import TorrentMq.Consensus.RaftReplicationLedger

/-! Replication as the log of one node sees it, as long as nothing is compacted
and no configuration change is in the log: what is sent, what is stored, and
which indices the leader tracks. -/

set_option autoImplicit false

namespace TorrentMq.Consensus

open List RaftLog

namespace LawfulRaftLog

variable {L : Type} [RaftLog L] [LawfulRaftLog L]

def entriesOf (log : L) : List LogEntry := (view log).entries

def Uncompacted (log : L) : Prop := (view log).snapshotIndex = 0

section Uncompacted

variable {log : L}

theorem Uncompacted.lastIndex (whole : Uncompacted log) : lastIndex log = (entriesOf log).length := by
  rw [lastIndex_eq, LogView.lastIndex, whole, Int.zero_add]
  rfl

theorem Uncompacted.firstIndex (whole : Uncompacted log) : firstIndex log = 1 := by
  rw [firstIndex_eq, LogView.firstIndex, whole, Int.zero_add]

variable {index : Int}

section

variable (whole : Uncompacted log)
include whole

theorem Uncompacted.entryAt {entry : LogEntry} : entryAt log index = some entry ↔
      0 < index ∧ (entriesOf log)[index.toNat - 1]? = some entry := by
  have same : (index - 0 - 1).toNat = index.toNat - 1 := by omega
  rw [entryAt_eq, LogView.entryAt_eq_some_iff, whole, same]
  rfl

theorem Uncompacted.termAt_zero : termAt log 0 = kNoTerm := by
  rw [termAt_eq, LogView.termAt, if_pos whole.symm]
  exact (view log).snapshotTerm_unset whole

theorem Uncompacted.termAt_nonpos (nonpos : index ≤ 0) : termAt log index = kNoTerm := by
  rcases lt_or_eq_of_le nonpos with negative | rfl
  · rw [termAt_eq, LogView.termAt, if_neg (by rw [whole]; omega), LogView.entryAt, if_pos (by rw [whole]; omega)]
    rfl
  · exact whole.termAt_zero

theorem Uncompacted.termAt_of_getElem? {position : Nat} {entry : LogEntry}
    (found : (entriesOf log)[position]? = some entry) :
    termAt log (position + 1) = entry.term := by
  have stored : (view log).entryAt (position + 1) = some entry := by
    rw [← entryAt_eq, whole.entryAt]
    exact ⟨by omega, by simpa using found⟩
  rw [termAt_eq, LogView.termAt, if_neg (by rw [whole]; omega), stored]
  rfl

theorem Uncompacted.exists_entry (positive : 0 < index) (inside : index ≤ RaftLog.lastIndex log) :
    ∃ entry, (entriesOf log)[index.toNat - 1]? = some entry ∧ RaftLog.termAt log index = entry.term := by
  rw [whole.lastIndex] at inside
  have short : index.toNat - 1 < (entriesOf log).length := by omega
  have found : (entriesOf log)[index.toNat - 1]? = some _ := getElem?_eq_getElem short
  refine ⟨_, found, ?_⟩
  rw [← whole.termAt_of_getElem? found, show ((index.toNat - 1 : Nat) : Int) + 1 = index by omega]

theorem Uncompacted.termAt_beyond (beyond : RaftLog.lastIndex log < index) : RaftLog.termAt log index = kNoTerm := by
  rw [whole.lastIndex] at beyond
  have missing : (view log).entryAt index = none := by
    by_contra present
    obtain ⟨entry, found⟩ := Option.ne_none_iff_exists'.mp present
    rw [← entryAt_eq, whole.entryAt] at found
    obtain ⟨short, _⟩ := List.getElem?_eq_some_iff.mp found.2
    omega
  rw [termAt_eq, LogView.termAt, if_neg (by rw [whole]; omega), missing]
  rfl

theorem Uncompacted.numbered : Numbered 0 (entriesOf log) :=
  whole ▸ (view log).numbered

theorem Uncompacted.getEntries {start stop : Int} (lower : 1 ≤ start)
    (range : start ≤ stop + 1) (upper : stop ≤ RaftLog.lastIndex log) :
    RaftLog.getEntries log start stop = ((entriesOf log).take stop.toNat).drop (start.toNat - 1) := by
  have first : (view log).firstIndex = 1 := by rw [LogView.firstIndex, whole, Int.zero_add]
  have read := getEntries_eq log start stop (by omega) range (by rwa [lastIndex_eq] at upper)
  rw [lastIndex_eq] at upper
  rw [read, LogView.getEntries]
  simp only [LogView.position, show (view log).snapshotIndex = 0 from whole, Int.sub_zero]
  by_cases empty : start > stop
  · rw [if_pos (.inl empty), drop_eq_nil_of_le]
    rw [length_take]
    omega
  · rw [if_neg (by omega)]
    rfl

end

end Uncompacted

end LawfulRaftLog

open LawfulRaftLog

/-- The request continues the log behind its previous entry, or probes behind
the end of the log, where no term is known. -/
def AppendEntriesRequest.Slices (request : AppendEntriesRequest) (log : List LogEntry) : Prop :=
  0 ≤ request.prevLogIndex ∧ Numbered request.prevLogIndex request.entries ∧
    (0 < request.prevLogIndex ∧ request.prevLogTerm = kNoTerm ∧ request.entries = [] ∨
      request.prevLogIndex ≤ log.length ∧
        log.take request.prevLogIndex.toNat ++ request.entries <+: log ∧
        (0 < request.prevLogIndex → ∃ entry, log[request.prevLogIndex.toNat - 1]? = some entry ∧
          entry.term = request.prevLogTerm))

theorem AppendEntriesRequest.Slices.mono {request : AppendEntriesRequest} {log longer : List LogEntry}
    (slices : request.Slices log) (inside : log <+: longer) : request.Slices longer := by
  obtain ⟨nonneg, numbered, beyond | ⟨reached, stored, found⟩⟩ := slices
  · exact ⟨nonneg, numbered, .inl beyond⟩
  · refine ⟨nonneg, numbered, .inr ⟨?_, ?_, ?_⟩⟩
    · have := inside.length_le
      omega
    · obtain ⟨rest, rfl⟩ := inside
      rw [take_append_of_le_length (by omega)]
      exact stored.trans (prefix_append log rest)
    · intro positive
      obtain ⟨entry, at', term⟩ := found positive
      refine ⟨entry, ?_, term⟩
      obtain ⟨rest, rfl⟩ := inside
      obtain ⟨short, _⟩ := List.getElem?_eq_some_iff.mp at'
      rwa [getElem?_append_left short]

/-!
## What a leader sends
-/

namespace RaftNode

variable {L : Type} [RaftLog L]

omit [RaftLog L] in
theorem fitBytes_prefix (limit total : Nat) (isFirst : Bool) (entries : List LogEntry) :
    fitBytes limit total isFirst entries <+: entries := by
  induction entries generalizing total isFirst with
  | nil => exact prefix_refl []
  | cons entry entries ih =>
    unfold fitBytes
    split
    · exact nil_prefix
    · exact (prefix_cons_inj entry).mpr (ih _ false)

variable {follower : FollowerState}

theorem batchFor_prefix (node : RaftNode L) (behind : follower.nextIndex ≤ node.lastLogIndex) :
    ∃ stop, follower.nextIndex ≤ stop + 1 ∧ stop ≤ node.lastLogIndex ∧
      node.batchFor follower <+: getEntries node.log follower.nextIndex stop := by
  refine ⟨_, ?_, ?_, fitBytes_prefix _ _ _ _⟩
  · omega
  · omega

theorem probe_prevLogIndex (node : RaftNode L) (tracked : 1 ≤ follower.nextIndex) :
    (node.probe follower).prevLogIndex = follower.nextIndex - 1 := by
  simp only [probe]
  split <;> omega

variable [LawfulRaftLog L]

section

variable (node : RaftNode L) (whole : Uncompacted node.log) (tracked : 1 ≤ follower.nextIndex)
include node whole tracked

theorem probe_previous (inside : follower.nextIndex - 1 ≤ node.lastLogIndex)
    (positive : 0 < (node.probe follower).prevLogIndex) :
    ∃ entry, (entriesOf node.log)[(node.probe follower).prevLogIndex.toNat - 1]? = some entry ∧
      entry.term = (node.probe follower).prevLogTerm := by
  rw [node.probe_prevLogIndex tracked] at positive ⊢
  obtain ⟨entry, found, term⟩ := whole.exists_entry positive inside
  refine ⟨entry, found, ?_⟩
  simp only [probe]
  rw [if_pos (by omega), term]

theorem probe_slices : (node.probe follower).Slices (entriesOf node.log) := by
  have previous := node.probe_prevLogIndex tracked
  have last : node.lastLogIndex = (entriesOf node.log).length := whole.lastIndex
  refine ⟨by omega, .nil _, ?_⟩
  by_cases beyond : node.lastLogIndex < follower.nextIndex - 1
  · refine .inl ⟨by omega, ?_, rfl⟩
    simp only [probe]
    rw [if_pos (by omega)]
    exact whole.termAt_beyond beyond
  · refine .inr ⟨by omega, ?_, node.probe_previous whole tracked (by omega)⟩
    simpa [probe] using take_prefix _ _

theorem batch_slices (behind : follower.nextIndex ≤ node.lastLogIndex) :
    { node.probe follower with entries := node.batchFor follower }.Slices (entriesOf node.log) := by
  have previous := node.probe_prevLogIndex tracked
  have last : node.lastLogIndex = (entriesOf node.log).length := whole.lastIndex
  have read : ∃ count, node.batchFor follower <+:
      ((entriesOf node.log).take count).drop (node.probe follower).prevLogIndex.toNat := by
    obtain ⟨stop, range, upper, inside⟩ := node.batchFor_prefix behind
    rw [whole.getEntries tracked range upper] at inside
    refine ⟨stop.toNat, ?_⟩
    rwa [previous, show (follower.nextIndex - 1).toNat = follower.nextIndex.toNat - 1 by omega]
  obtain ⟨count, inside⟩ := read
  have numbered := (whole.numbered.take count).drop (node.probe follower).prevLogIndex.toNat
  refine ⟨by dsimp only; omega, ?_, .inr ⟨by dsimp only; omega, ?_, ?_⟩⟩
  · obtain ⟨rest, split⟩ := inside
    rw [← split] at numbered
    intro position entry found
    obtain ⟨short, _⟩ := List.getElem?_eq_some_iff.mp found
    have number := numbered position entry (by rw [getElem?_append_left short]; exact found)
    dsimp only
    omega
  · refine ((prefix_append_right_inj _).mpr inside).trans ?_
    by_cases short : (node.probe follower).prevLogIndex.toNat ≤ count
    · have front : (entriesOf node.log).take (node.probe follower).prevLogIndex.toNat =
          ((entriesOf node.log).take count).take (node.probe follower).prevLogIndex.toNat := by
        rw [take_take, min_eq_left short]
      rw [front, take_append_drop]
      exact take_prefix _ _
    · rw [drop_eq_nil_of_le (by rw [length_take]; omega), append_nil]
      exact take_prefix _ _
  · exact node.probe_previous whole tracked (by omega)

end

/-!
## What is applied
-/

def Regular (entries : List LogEntry) : Prop := ∀ entry ∈ entries, entry.isConfigChange = false

omit [RaftLog L] [LawfulRaftLog L] in
theorem Regular.of_subset {entries fewer : List LogEntry} (regular : Regular entries)
    (inside : fewer ⊆ entries) : Regular fewer :=
  fun entry member => regular entry (inside member)

omit [LawfulRaftLog L] in
theorem applyBatch_regular (node : RaftNode L) {entries : List LogEntry} (regular : Regular entries) :
    ∃ lastApplied, node.applyBatch entries =
      { node with applied := node.applied ++ entries, lastApplied := lastApplied } := by
  unfold applyBatch
  induction entries generalizing node with
  | nil => exact ⟨node.lastApplied, by simp⟩
  | cons entry entries ih =>
    have head : node.applyEntry entry =
        { node with applied := node.applied ++ [entry], lastApplied := entry.index } := by
      have ordinary := regular entry (by simp)
      unfold LogEntry.isConfigChange at ordinary
      unfold applyEntry
      cases command : entry.command with
      | configChange change =>
        rw [command] at ordinary
        cases ordinary
      | noOp => rfl
      | user change => rfl
    obtain ⟨lastApplied, shape⟩ := ih (node.applyEntry entry) (regular.of_subset (by simp))
    refine ⟨lastApplied, ?_⟩
    rw [foldl_cons, shape, head]
    simp

omit [LawfulRaftLog L] in
theorem applyRounds_regular (fuel : Nat) (node : RaftNode L)
    (reads : ReadsExactly node.log node.lastApplied node.commitIndex)
    (regular : ∀ start stop, node.lastApplied < start → start ≤ stop → stop ≤ node.commitIndex →
      Regular (getEntries node.log start stop)) :
    ∃ applied lastApplied, applyRounds fuel node = { node with applied := applied, lastApplied := lastApplied } := by
  induction fuel generalizing node with
  | zero => exact ⟨node.applied, node.lastApplied, rfl⟩
  | succ fuel ih =>
    unfold applyRounds
    split
    next pending =>
      split
      · exact ⟨node.applied, node.lastApplied, rfl⟩
      next some =>
        obtain ⟨_, batch⟩ := node.nextBatch_spec pending reads (by simpa using some)
        have ordinary : Regular node.nextBatch :=
          regular _ _ (by omega) (by unfold kMaxApplyBatch; omega) (by omega)
        have reads' := ReadsExactly.of_applied reads (applyBatch_applies node _) batch
        have closer := batch.lastApplied
        obtain ⟨last, shape⟩ := node.applyBatch_regular ordinary
        rw [shape] at reads' closer ⊢
        obtain ⟨applied, lastApplied, rest⟩ := ih _ reads' (by
          intro start stop lower range upper
          dsimp only at lower closer
          exact regular start stop (by omega) range upper)
        exact ⟨applied, lastApplied, rest⟩
    · exact ⟨node.applied, node.lastApplied, rfl⟩

theorem applyCommitted_eq (node : RaftNode L) (whole : Uncompacted node.log) (regular : Regular (entriesOf node.log))
    (nonneg : 0 ≤ node.lastApplied) (upper : node.commitIndex ≤ node.lastLogIndex) :
    node.applyCommitted = { node with
      applied := node.applied ++ ((entriesOf node.log).take node.commitIndex.toNat).drop node.lastApplied.toNat
      lastApplied := max node.lastApplied node.commitIndex } := by
  have last : node.lastLogIndex = (entriesOf node.log).length := whole.lastIndex
  have read : ∀ start stop, node.lastApplied < start → start ≤ stop → stop ≤ node.commitIndex →
      RaftLog.getEntries node.log start stop ⊆ entriesOf node.log := by
    intro start stop lower range below
    rw [whole.getEntries (by omega) (by omega) (by rw [← lastLogIndex]; omega)]
    exact List.Subset.trans (drop_subset _ _) (take_subset _ _)
  have below : node.commitIndex ≤ (LawfulRaftLog.view node.log).lastIndex := by
    rw [← lastIndex_eq]
    exact upper
  have base : (LawfulRaftLog.view node.log).snapshotIndex ≤ node.lastApplied := whole.le.trans nonneg
  obtain ⟨entries, applied, reached⟩ := node.applyCommitted_complete base below
  have missing : entries = ((entriesOf node.log).take node.commitIndex.toNat).drop node.lastApplied.toNat := by
    have length := applied.lastApplied
    rw [reached] at length
    apply ext_getElem?
    intro position
    rw [getElem?_drop]
    by_cases short : position < entries.length
    · have found : entries[position]? = some _ := getElem?_eq_getElem short
      have number := applied.numbered position _ found
      obtain ⟨start, stop, lower, range, above, member⟩ :=
        applied.stored _ (mem_of_getElem? found)
      obtain ⟨_, stored⟩ := whole.numbered.getElem?_eq_some_iff.mpr ⟨read start stop lower range above member, rfl⟩
      rw [found, getElem?_take_of_lt (by omega), ← stored]
      congr 1
      omega
    · rw [getElem?_eq_none (by omega), getElem?_eq_none]
      rw [length_take]
      omega
  obtain ⟨_, _, shape⟩ := applyRounds_regular (node.commitIndex - node.lastApplied).toNat node
    (readsExactly_of_inside node.log base below)
    (fun start stop lower range above => regular.of_subset (read start stop lower range above))
  have frame : node.applyCommitted = _ := shape
  have listed := applied.applied
  rw [frame] at listed reached ⊢
  dsimp only at listed reached
  rw [listed, reached, missing]

def TakesSnapshot (env : Env) (node : RaftNode L) : Prop :=
  node.state = .leader ∧ node.config.snapshotThresholdEntries ≤ entryCount node.log ∧
    firstIndex node.log < node.commitIndex ∧ env.writeOk = true

omit [LawfulRaftLog L] in
instance (env : Env) (node : RaftNode L) : Decidable (node.TakesSnapshot env) :=
  inferInstanceAs (Decidable (_ ∧ _ ∧ _ ∧ _))

omit [LawfulRaftLog L] in
theorem heartbeatTick_sends (env : Env) (node : RaftNode L) (none : ¬node.TakesSnapshot env) :
    node.heartbeatTick env = node.becomeFollower node.currentTerm ∨ Sends node (node.heartbeatTick env) := by
  unfold heartbeatTick
  split
  · exact .inr (.refl node)
  next leads =>
    split
    · exact .inl rfl
    · refine .inr (.trans ?_ (tryReactivateFollowers_sends env _))
      have sends := (sendHeartbeats_sends env node).trans (replicateToFollowers_sends env _)
      have idle := sends.idle
      revert sends idle
      generalize (node.sendHeartbeats env).replicateToFollowers env = sent
      intro sends idle
      have same : sent.maybeCreateSnapshot env = sent := by
        unfold maybeCreateSnapshot
        split
        · rfl
        · split
          next large =>
            unfold createSnapshot
            rw [idle.log, idle.config] at large
            rw [idle.log, idle.commitIndex]
            split
            · rfl
            next above =>
              dsimp only
              split
              · rfl
              · split
                · rfl
                next writes =>
                  refine absurd ⟨by simpa using leads, large, by omega, ?_⟩ none
                  simpa using writes
          · rfl
      rw [same]
      exact sends

theorem becomeLeader_lawful (env : Env) (node : RaftNode L) (whole : Uncompacted node.log) :
    node.becomeLeader env = node.becomeFollower node.currentTerm ∨
      Sends node.elected (node.becomeLeader env) ∧ Uncompacted node.elected.log ∧
        entriesOf node.elected.log = entriesOf node.log ++ [node.noop] := by
  have nonneg : 0 ≤ node.lastLogIndex := by
    rw [lastLogIndex, whole.lastIndex]
    omega
  obtain ⟨returned, snapshot, entries⟩ :=
    append_last node.log (show node.noop.index = lastIndex node.log + 1 from rfl) (.inr rfl)
  rcases becomeLeader_cases env node with ⟨_, shape⟩ | ⟨failed, _⟩ | ⟨_, sends⟩
  · exact .inl shape
  · rw [noopAppended, lastLogIndex, returned, kNoLogIndex] at failed
    rw [lastLogIndex] at nonneg
    omega
  · exact .inr ⟨sends, snapshot.trans whole, entries⟩

theorem Proposes.entries {before after : RaftNode L} {command : RaftCommand}
    (proposes : Proposes before after command) (whole : Uncompacted before.log) :
    Uncompacted after.log ∧ entriesOf after.log = entriesOf before.log ++
      [{ term := before.currentTerm, index := before.lastLogIndex + 1, command := command }] := by
  obtain ⟨prevTerm, pending, term, shape, _⟩ := proposes.appends
  have nonneg : 0 ≤ before.lastLogIndex := by
    rw [lastLogIndex, whole.lastIndex]
    omega
  have matched : lastIndex before.log = 0 ∨
      prevTerm = termAt before.log (lastIndex before.log) := by
    rcases term with zero | same | negative
    · exact .inl zero
    · exact .inr same
    · omega
  obtain ⟨_, snapshot, entries⟩ := append_last before.log
    (show LogEntry.index ⟨before.currentTerm, before.lastLogIndex + 1, command⟩ =
      lastIndex before.log + 1 from rfl) matched
  rw [shape]
  exact ⟨snapshot.trans whole, entries⟩

/-!
## What a step does to the log
-/

def overwrite (entries : List LogEntry) (request : AppendEntriesRequest) : List LogEntry :=
  if request.entries = [] then entries
  else entries.take request.prevLogIndex.toNat ++ request.entries

variable {request : AppendEntriesRequest}

theorem appendEntriesToLog_cases {log : L} (whole : Uncompacted log)
    (nonneg : 0 ≤ request.prevLogIndex) (numbered : Numbered request.prevLogIndex request.entries) :
    prevLogConflict log request = none ∧ (appendEntriesToLog log request).2 = none ∧
        Uncompacted (appendEntriesToLog log request).1 ∧
        entriesOf (appendEntriesToLog log request).1 = overwrite (entriesOf log) request ∨
      (appendEntriesToLog log request).2 ≠ none ∧ (appendEntriesToLog log request).1 = log := by
  cases matched : prevLogConflict log request with
  | some conflict =>
    right
    unfold appendEntriesToLog
    split
    · exact ⟨by rw [matched]; exact nofun, rfl⟩
    · rw [matched]
      exact ⟨nofun, rfl⟩
  | none =>
    left
    unfold overwrite
    by_cases empty : request.entries = []
    · have same : appendEntriesToLog log request = (log, none) := by
        unfold appendEntriesToLog
        split
        · rw [matched]
        next shape => simp [shape] at empty
      rw [same, if_pos empty]
      exact ⟨rfl, rfl, whole, rfl⟩
    · obtain ⟨stored, snapshot, entries⟩ := appendEntriesToLog_stores log empty numbered matched
        (whole.le.trans nonneg)
      refine ⟨rfl, stored, snapshot.trans whole, ?_⟩
      rw [if_neg empty]
      refine entries.trans ?_
      rw [LogView.position, show (LawfulRaftLog.view log).snapshotIndex = 0 from whole, Int.sub_zero]
      rfl

structure Catches (before after : RaftNode L) : Prop where
  applied : after.applied = before.applied ++
    ((entriesOf after.log).take after.commitIndex.toNat).drop before.lastApplied.toNat
  lastApplied : after.lastApplied = max before.lastApplied after.commitIndex

structure Follows (node : RaftNode L) (request : AppendEntriesRequest) (after : RaftNode L) : Prop where
  matched : prevLogConflict node.log request = none
  current : node.currentTerm ≤ request.term
  term : after.currentTerm = request.term
  follows : after.state ≠ .leader
  nodeId : after.nodeId = node.nodeId
  membership : after.membership = node.membership
  unsent : Unsent node after
  whole : Uncompacted after.log
  entries : entriesOf after.log = overwrite (entriesOf node.log) request
  commit : after.commitIndex = node.commitIndex ∧ after.lastApplied = node.lastApplied ∧
      after.applied = node.applied ∨
    after.commitIndex = min request.leaderCommit (lastNew request) ∧
      node.commitIndex < request.leaderCommit ∧ Catches node after

inductive LogStep (node : RaftNode L) : Input → RaftNode L → Prop
  | kept (input : Input) (after : RaftNode L) (idle : Idle node after)
      (leads : after.state = .leader → node.state = .leader) : LogStep node input after
  | proposed (command : RaftCommand) (after : RaftNode L) (steady : Steady node after)
      (leads : node.state = .leader) (leads' : after.state = .leader) (whole : Uncompacted after.log)
      (entries : entriesOf after.log = entriesOf node.log ++
        [{ term := node.currentTerm, index := node.lastLogIndex + 1, command := command }]) :
      LogStep node (.propose command) after
  | elected (env : Env) (sender : RaftNodeId) (response : RequestVoteResponse) (after : RaftNode L)
      (wins : node.Wins response) (steady : Steady node after) (leads : after.state = .leader)
      (whole : Uncompacted after.log)
      (entries : entriesOf after.log = entriesOf node.log ++ [node.noop]) :
      LogStep node (.requestVoteResponse env sender response) after
  | followed (request : AppendEntriesRequest) (after : RaftNode L)
      (followed : Follows node request after) : LogStep node (.appendEntries request) after
  | advanced (env : Env) (sender : RaftNodeId) (response : AppendEntriesResponse) (after : RaftNode L)
      (replication : Replication) (index : Int)
      (commits : Commits { node with replication := replication } index)
      (shape : after = { node with
        replication := replication
        commitIndex := index
        applied := after.applied
        lastApplied := after.lastApplied })
      (catches : Catches node after) :
      LogStep node (.appendEntriesResponse env sender response) after

theorem LogStep.membership {node after : RaftNode L} {input : Input}
    (step : node.LogStep input after) : after.membership = node.membership := by
  cases step with
  | kept _ _ idle => exact idle.membership
  | proposed _ _ steady | elected _ _ _ _ _ steady => exact steady.membership
  | followed _ _ followed => exact followed.membership
  | advanced _ _ _ _ _ _ _ shape => rw [shape]

theorem advanceCommitIndex_regular (node : RaftNode L) (whole : Uncompacted node.log)
    (regular : Regular (entriesOf node.log)) (nonneg : 0 ≤ node.lastApplied) :
    node.advanceCommitIndex = node ∨ ∃ index, node.Commits index ∧
      node.advanceCommitIndex = { node with
        commitIndex := index
        applied := node.advanceCommitIndex.applied
        lastApplied := node.advanceCommitIndex.lastApplied } ∧
      Catches node node.advanceCommitIndex := by
  rcases advanceCommitIndex_cases node with same | ⟨index, commits, shape⟩
  · exact .inl same
  · refine .inr ⟨index, commits, ?_⟩
    have reached := applyCommitted_eq { node with commitIndex := index } whole regular nonneg commits.below
    rw [shape, reached]
    exact ⟨rfl, rfl, rfl⟩

theorem handleAppendEntriesResponse_log (env : Env) (node : RaftNode L) (sender : RaftNodeId)
    (response : AppendEntriesResponse) (whole : Uncompacted node.log)
    (regular : Regular (entriesOf node.log)) (nonneg : 0 ≤ node.lastApplied) :
    LogStep node (.appendEntriesResponse env sender response)
      (node.handleAppendEntriesResponse env sender response) := by
  generalize result : node.handleAppendEntriesResponse env sender response = after
  have outcome := handleAppendEntriesResponse_outcome env node sender response
  rw [result] at outcome
  have recorded : ∀ replication, Idle node { node with replication := replication } :=
    fun _ => ⟨⟨rfl, rfl, rfl, rfl, rfl, rfl⟩, rfl, rfl⟩
  cases outcome with
  | ignored => exact .kept _ _ (.refl node) id
  | deposed => exact .kept _ _ (.becomeFollower node response.term) (by simp)
  | advanced _ replication =>
    rcases advanceCommitIndex_regular { node with replication := replication } whole regular nonneg
      with same | ⟨index, commits, shape, catches⟩
    · rw [same]
      exact .kept _ _ (recorded replication) id
    · exact .advanced env sender response _ replication index commits shape ⟨catches.applied, catches.lastApplied⟩
  | retried _ replication _ _ _ _ _ sent =>
    refine .kept _ _ ((recorded replication).trans sent.idle) ?_
    rw [sent.state]
    exact id

theorem lastNew_le (request : AppendEntriesRequest) {entries : List LogEntry}
    (numbered : Numbered request.prevLogIndex request.entries) (nonneg : 0 ≤ request.prevLogIndex)
    (reached : request.prevLogIndex ≤ entries.length) :
    lastNew request = request.prevLogIndex + request.entries.length ∧
      lastNew request ≤ (overwrite entries request).length := by
  have last := lastNew_eq numbered
  refine ⟨last, ?_⟩
  unfold overwrite
  split
  next empty =>
    rw [last, empty]
    simpa using reached
  · rw [last, length_append, length_take]
    push_cast
    omega

theorem handleAppendEntries_lawful (node : RaftNode L) (whole : Uncompacted node.log)
    (regular : Regular (entriesOf node.log)) (nonneg : 0 ≤ node.lastApplied) (previous : 0 ≤ request.prevLogIndex)
    (numbered : Numbered request.prevLogIndex request.entries) (ordinary : Regular request.entries) :
    Idle node (node.handleAppendEntries request).1 ∧ Unsent node (node.handleAppendEntries request).1 ∧
        ((node.handleAppendEntries request).1.state = .leader → node.state = .leader) ∧
        (node.handleAppendEntries request).2.success = false ∨
      Follows node request (node.handleAppendEntries request).1 ∧
        (node.handleAppendEntries request).2 =
          { term := request.term, success := true, lastLogIndex := node.lastLogIndex } := by
  generalize reply : node.handleAppendEntries request = result
  have outcome := node.handleAppendEntries_outcome request
  rw [reply] at outcome
  cases outcome with
  | stale => exact .inl ⟨.refl node, .refl node, id, rfl⟩
  | rival =>
    exact .inl ⟨⟨⟨rfl, rfl, rfl, rfl, rfl, rfl⟩, rfl, rfl⟩, ⟨.inl rfl, fun _ _ => id⟩, id, rfl⟩
  | refused conflict _ follows stored =>
    rcases appendEntriesToLog_cases whole previous numbered with ⟨_, accepted, _⟩ | ⟨_, same⟩
    · rw [stored] at accepted
      cases accepted
    · rw [same]
      have unsent : Unsent node (node.adopt request.term) := .adopt node request.term
      refine .inl ⟨⟨⟨?_, ?_, ?_, ?_, ?_, ?_⟩, rfl, ?_⟩, ⟨unsent.replication, unsent.outbox⟩,
        fun leads => absurd leads follows, rfl⟩
      all_goals simp
  | accepted current follows stored =>
    rcases appendEntriesToLog_cases whole previous numbered with ⟨matched, _, kept, entries⟩ | ⟨failed, _⟩
    · refine .inr ⟨?_, rfl⟩
      have term : (node.adopt request.term).currentTerm = request.term := by
        rw [adopt_currentTerm]
        omega
      have reached : request.prevLogIndex ≤ (entriesOf node.log).length := by
        rw [← whole.lastIndex, lastIndex_eq]
        exact (prevLogConflict_none node.log matched (whole.le.trans previous)).1
      have last := (lastNew_le request numbered previous reached).2
      rw [← entries, ← kept.lastIndex] at last
      have allRegular : Regular (entriesOf (appendEntriesToLog node.log request).1) := by
        rw [entries, overwrite]
        split
        · exact regular
        · intro entry member
          rcases mem_append.mp member with old | new
          · exact regular entry (mem_of_mem_take old)
          · exact ordinary entry new
      have unsent : Unsent node (node.adopt request.term) := .adopt node request.term
      unfold advanceFollowerCommit
      split
      next ahead =>
        rw [applyCommitted_eq _ kept allRegular (by simpa using nonneg) ((min_le_right _ _).trans last)]
        refine ⟨matched, current, term, follows, by simp, by simp, ⟨unsent.replication, unsent.outbox⟩,
          kept, entries, .inr ⟨rfl, ?_, ?_, ?_⟩⟩
        · simpa using ahead
        · simp
        · simp
      · exact ⟨matched, current, term, follows, by simp, by simp, ⟨unsent.replication, unsent.outbox⟩,
          kept, entries, .inl ⟨by simp, by simp, by simp⟩⟩
    · exact absurd stored failed

theorem handleRequestVoteResponse_log (env : Env) (node : RaftNode L) (sender : RaftNodeId)
    (response : RequestVoteResponse) (whole : Uncompacted node.log) :
    LogStep node (.requestVoteResponse env sender response) (node.handleRequestVoteResponse env sender response) := by
  generalize result : node.handleRequestVoteResponse env sender response = after
  have outcome := handleRequestVoteResponse_outcome env node sender response
  rw [result] at outcome
  cases outcome with
  | ignored => exact .kept _ _ (.refl node) id
  | deposed => exact .kept _ _ (.becomeFollower node response.term) (by simp)
  | preCounted | counted => exact .kept _ _ ⟨⟨rfl, rfl, rfl, rfl, rfl, rfl⟩, rfl, rfl⟩ id
  | nominated stands preVotes =>
    refine .kept _ _ (.trans ?_ (becomeCandidate_idle _)) ?_
    · exact ⟨⟨rfl, rfl, rfl, rfl, rfl, rfl⟩, rfl, rfl⟩
    · intro leads
      exact absurd leads (becomeCandidate_state _ (by simp [stands]))
  | won wins =>
    have counted : Idle node (node.countVote response) :=
      ⟨⟨rfl, rfl, rfl, rfl, rfl, rfl⟩, rfl, rfl⟩
    rcases becomeLeader_lawful env (node.countVote response) whole with shape | ⟨sends, kept, entries⟩
    · rw [shape]
      exact .kept _ _ (counted.trans (.becomeFollower _ _)) (by simp)
    · have office : Steady node (node.countVote response).elected :=
        ⟨rfl, rfl, rfl, rfl, rfl, rfl⟩
      have log : ((node.countVote response).becomeLeader env).log =
          (node.countVote response).elected.log := sends.idle.log
      refine .elected env sender response _ wins (office.trans sends.steady) sends.state ?_ ?_
      · rw [log]
        exact kept
      · rw [log]
        exact entries

/-- The request of an event is numbered and holds no configuration change. -/
def Delivers (event : ClusterEvent L) : Prop :=
  ∀ request, event.input = .appendEntries request → 0 ≤ request.prevLogIndex ∧
    Numbered request.prevLogIndex request.entries ∧ Regular request.entries

theorem step_log (node : RaftNode L) (event : ClusterEvent L) (whole : Uncompacted node.log)
    (regular : Regular (entriesOf node.log)) (nonneg : 0 ≤ node.lastApplied) (delivers : Delivers event)
    (untaken : ∀ env, event.input = .heartbeatTick env → ¬node.TakesSnapshot env) :
    LogStep node event.input (node.step event.input) := by
  cases event with
  | electionTimeout => exact .kept _ _ (onElectionTimeout_idle node) (onElectionTimeout_state node)
  | heartbeatTick _ env =>
    refine .kept _ _ ?_ (heartbeatTick_state env node)
    rcases heartbeatTick_sends env node (untaken env rfl) with stepped | sends
    · exact show Idle node (node.heartbeatTick env) from stepped ▸ Idle.becomeFollower node node.currentTerm
    · exact sends.idle
  | propose _ command =>
    rcases propose_cases node command with same | proposes
    · change LogStep node (.propose command) (node.propose command).1
      rw [same]
      exact .kept _ _ (.refl node) id
    · obtain ⟨kept, entries⟩ := proposes.entries whole
      refine .proposed command _ proposes.steady proposes.leads ?_ kept entries
      obtain ⟨_, _, _, shape, _⟩ := proposes.appends
      change (node.propose command).1.state = .leader
      rw [shape]
      exact proposes.leads
  | requestVote _ _ request =>
    exact .kept _ _ (handleRequestVote_idle node request) (handleRequestVote_state node request)
  | requestVoteReply env reply => exact handleRequestVoteResponse_log env node _ _ whole
  | appendEntries _ _ request =>
    obtain ⟨previous, numbered, ordinary⟩ := delivers request rfl
    rcases node.handleAppendEntries_lawful whole regular nonneg previous numbered ordinary with
      ⟨idle, _, leads, _⟩ | ⟨followed, _⟩
    · exact .kept _ _ idle leads
    · exact .followed request _ followed
  | appendEntriesReply env reply =>
    exact handleAppendEntriesResponse_log env node _ _ whole regular nonneg
  | stepDown =>
    exact .kept _ _ (stepDown_idle node) (stepDown_quiet node).leads
  | transferStart _ target =>
    exact .kept _ _ (transferStart_idle node target) (transferStart_quiet node target).leads
  | transferRound _ env target lastIndex =>
    exact .kept _ _ (transferRound_idle env node target lastIndex)
      (transferRound_quiet env node target lastIndex).leads
  | transferSignal => exact .kept _ _ ⟨⟨rfl, rfl, rfl, rfl, rfl, rfl⟩, rfl, rfl⟩ id
  | transferFinish => exact .kept _ _ (transferFinish_idle node) (transferFinish_quiet node).leads
  | shutdown => exact .kept _ _ (shutdown_idle node) (shutdown_quiet node).leads

theorem handleAppendEntriesResponse_match (env : Env) (node : RaftNode L) (sender : RaftNodeId)
    (response : AppendEntriesResponse) (whole : Uncompacted node.log)
    (regular : Regular (entriesOf node.log)) (nonneg : 0 ≤ node.lastApplied)
    (leads : node.state = .leader) (current : response.term ≤ node.currentTerm)
    (succeeded : response.success = true)
    (found : (node.handleAppendEntriesResponse env sender response).replication.followerStates.lookup
      sender = some follower) :
    (node.handleAppendEntriesResponse env sender response).log = node.log ∧
      ∃ earlier, node.replication.followerStates.lookup sender = some earlier ∧
        follower.matchIndex = max earlier.matchIndex response.lastLogIndex := by
  revert found
  unfold handleAppendEntriesResponse
  rw [if_neg (by simp [leads]), if_neg (by omega)]
  cases tracked : node.replication.followerStates.lookup sender with
  | none =>
    intro found
    rw [show node.replication.followerStates.lookup sender = some follower from found] at tracked
    cases tracked
  | some earlier =>
    dsimp only
    rw [if_pos succeeded]
    generalize record : (if response.lastLogIndex > earlier.matchIndex then _ else _) = recorded
    have raised : recorded.matchIndex = max earlier.matchIndex response.lastLogIndex := by
      rw [← record]
      split
      · dsimp only
        omega
      · dsimp only
        omega
    intro found
    rcases advanceCommitIndex_regular { node with
      replication := (node.replication.setFailures sender 0).setFollower sender recorded }
      whole regular nonneg with same | ⟨index, _, shape, _⟩
    · rw [same] at found ⊢
      refine ⟨rfl, earlier, rfl, ?_⟩
      simp only [Replication.setFollower, AList.lookup_insert, Option.some.injEq] at found
      rw [← found, raised]
    · rw [shape] at found ⊢
      refine ⟨rfl, earlier, rfl, ?_⟩
      simp only [Replication.setFollower, AList.lookup_insert, Option.some.injEq] at found
      rw [← found, raised]

omit [LawfulRaftLog L] in
theorem elected_tracked (node : RaftNode L) {good : RaftNodeId → Int → Int → Prop}
    (fresh : ∀ peer ∈ node.peers, good peer (node.lastLogIndex + 1) 0) :
    node.elected.replication.Tracked good := by
  have loop : ∀ (peers : List RaftNodeId) (states : AList fun _ : RaftNodeId => FollowerState),
      (∀ peer ∈ peers, good peer (node.lastLogIndex + 1) 0) →
      Replication.Tracked good { followerStates := states } →
      Replication.Tracked good ⟨peers.foldl
        (fun states peer => states.insert peer { nextIndex := node.lastLogIndex + 1 }) states, ∅, ∅, ∅⟩ := by
    intro peers
    induction peers with
    | nil => exact fun _ _ tracked => tracked
    | cons peer peers ih =>
      intro states each tracked
      refine ih _ (fun other member => each other (by simp [member])) ?_
      exact tracked_insert tracked rfl (each peer (by simp))
  exact (loop node.peers ∅ fresh .empty).congr rfl

/-!
## Ledgers
-/

section Ledger

variable {good : RaftNodeId → Int → Int → Prop}

theorem becomeLeader_ledger (env : Env) (node : RaftNode L) (response : RequestVoteResponse)
    (whole : Uncompacted node.log) (trackable : Trackable node good)
    (leads : ((node.countVote response).becomeLeader env).state = .leader) :
    Ledger good node ((node.countVote response).becomeLeader env) := by
  have last : node.lastLogIndex = (entriesOf node.log).length := whole.lastIndex
  rcases becomeLeader_lawful env (node.countVote response) whole with shape | ⟨sends, kept, entries⟩
  · rw [shape] at leads
    simp at leads
  · have ledger := sends.ledger rfl
      (fun peer member => trackable.fresh peer member _ (by
        have longer : (node.countVote response).elected.lastLogIndex = _ := kept.lastIndex
        omega))
      (elected_tracked _ (fun peer member => trackable.fresh peer member _ (by
        have same : (node.countVote response).lastLogIndex = node.lastLogIndex := rfl
        omega)))
    exact ⟨ledger.tracked, ledger.sent⟩

section

variable (env : Env) (node : RaftNode L) (sender : RaftNodeId) (response : RequestVoteResponse)
  (whole : Uncompacted node.log) (trackable : Trackable node good)
include env node sender response whole trackable

theorem handleRequestVoteResponse_ledger (tracked : node.replication.Tracked good) :
    Ledger good node (node.handleRequestVoteResponse env sender response) := by
  generalize result : node.handleRequestVoteResponse env sender response = after
  have outcome := handleRequestVoteResponse_outcome env node sender response
  rw [result] at outcome
  cases outcome with
  | ignored => exact (Unsent.refl node).ledger tracked
  | deposed => exact (Unsent.becomeFollower node response.term).ledger tracked
  | preCounted | counted => exact Unsent.ledger ⟨.inl rfl, fun _ _ => id⟩ tracked
  | nominated =>
    refine Unsent.ledger ?_ tracked
    refine .trans ?_ (becomeCandidate_unsent _)
    exact ⟨.inl rfl, fun _ _ => id⟩
  | won =>
    by_cases leads : ((node.countVote response).becomeLeader env).state = .leader
    · exact becomeLeader_ledger env node response whole trackable leads
    · rcases becomeLeader_lawful env (node.countVote response) whole with shape | ⟨sends, _⟩
      · rw [shape]
        refine Unsent.ledger (.trans ?_ (.becomeFollower _ _)) tracked
        exact ⟨.inl rfl, fun _ _ => id⟩
      · exact absurd sends.state leads

theorem handleRequestVoteResponse_office (follows : node.state ≠ .leader)
    (leads : (node.handleRequestVoteResponse env sender response).state = .leader) :
    Ledger good node (node.handleRequestVoteResponse env sender response) := by
  revert leads
  generalize result : node.handleRequestVoteResponse env sender response = after
  have outcome := handleRequestVoteResponse_outcome env node sender response
  rw [result] at outcome
  intro leads
  cases outcome with
  | ignored | preCounted | counted => exact absurd leads follows
  | deposed => simp at leads
  | nominated => exact absurd leads (becomeCandidate_state _ follows)
  | won => exact becomeLeader_ledger env node response whole trackable leads

end

theorem handleAppendEntriesResponse_ledger (env : Env) (node : RaftNode L) (sender : RaftNodeId)
    (response : AppendEntriesResponse) (whole : Uncompacted node.log)
    (regular : Regular (entriesOf node.log)) (nonneg : 0 ≤ node.lastApplied)
    (trackable : Trackable node good) (tracked : node.replication.Tracked good)
    (acked : ∀ follower, node.state = .leader → response.success = true →
      response.term ≤ node.currentTerm → node.replication.followerStates.lookup sender = some follower →
      follower.matchIndex < response.lastLogIndex →
      good sender (response.lastLogIndex + 1) response.lastLogIndex) :
    Ledger good node (node.handleAppendEntriesResponse env sender response) := by
  generalize result : node.handleAppendEntriesResponse env sender response = after
  have outcome := handleAppendEntriesResponse_outcome env node sender response
  rw [result] at outcome
  have last : node.lastLogIndex = (entriesOf node.log).length := whole.lastIndex
  cases outcome with
  | ignored => exact (Unsent.refl node).ledger tracked
  | deposed => exact (Unsent.becomeFollower node response.term).ledger tracked
  | advanced follower replication leads current succeeded found recorded =>
    have tracked' : replication.Tracked good := by
      refine tracked_insert tracked recorded ?_
      unfold acknowledge
      split
      next higher => exact acked follower leads succeeded current found higher
      · exact tracked sender follower found
    rcases advanceCommitIndex_regular { node with replication := replication } whole regular nonneg
      with same | ⟨index, _, shape, _⟩
    · rw [same]
      exact ⟨tracked', fun _ _ sent => .inl sent⟩
    · rw [shape]
      exact ⟨tracked', fun _ _ sent => .inl sent⟩
  | retried follower replication _ leads _ found recorded sends =>
    have tracked' : replication.Tracked good := by
      refine tracked_insert tracked recorded ?_
      refine trackable.moved sender follower.nextIndex _ _ (tracked sender follower found) ?_
      exact (le_max_right _ _).trans' (whole.firstIndex.ge)
    have ledger := sends.ledger leads (fun peer member => trackable.fresh peer member _ (by
      have same : lastLogIndex { node with replication := replication } = node.lastLogIndex := rfl
      omega)) tracked'
    exact ⟨ledger.tracked, ledger.sent⟩

theorem step_ledger (node : RaftNode L) (event : ClusterEvent L) (whole : Uncompacted node.log)
    (regular : Regular (entriesOf node.log)) (nonneg : 0 ≤ node.lastApplied)
    (delivers : Delivers event)
    (untaken : ∀ env, event.input = .heartbeatTick env → ¬node.TakesSnapshot env)
    (trackable : Trackable node good) (tracked : node.replication.Tracked good)
    (acked : ∀ env sender response follower,
      event.input = .appendEntriesResponse env sender response → node.state = .leader →
      response.success = true → response.term ≤ node.currentTerm →
      node.replication.followerStates.lookup sender = some follower →
      follower.matchIndex < response.lastLogIndex →
      good sender (response.lastLogIndex + 1) response.lastLogIndex) :
    Ledger good node (node.step event.input) := by
  cases event with
  | electionTimeout => exact (onElectionTimeout_unsent node).ledger tracked
  | heartbeatTick _ env =>
    change Ledger good node (node.heartbeatTick env)
    by_cases leads : node.state = .leader
    · rcases heartbeatTick_sends env node (untaken env rfl) with stepped | sends
      · rw [stepped]
        exact (Unsent.becomeFollower node node.currentTerm).ledger tracked
      · have last : node.lastLogIndex = (entriesOf node.log).length := whole.lastIndex
        exact sends.ledger leads (fun peer member => trackable.fresh peer member _ (by omega)) tracked
    · rw [heartbeatTick, if_pos leads]
      exact (Unsent.refl node).ledger tracked
  | propose _ command => exact (propose_unsent node command).ledger tracked
  | requestVote _ _ request => exact (handleRequestVote_unsent node request).ledger tracked
  | requestVoteReply env reply =>
    exact handleRequestVoteResponse_ledger env node reply.voter reply.response whole trackable tracked
  | appendEntries _ _ request =>
    obtain ⟨previous, numbered, ordinary⟩ := delivers request rfl
    rcases node.handleAppendEntries_lawful whole regular nonneg previous numbered ordinary with
      ⟨_, unsent, _⟩ | ⟨followed, _⟩
    · exact unsent.ledger tracked
    · exact followed.unsent.ledger tracked
  | appendEntriesReply env reply =>
    exact handleAppendEntriesResponse_ledger env node reply.follower reply.response whole regular
      nonneg trackable tracked (fun follower => acked env reply.follower reply.response follower rfl)
  | stepDown => exact (stepDown_unsent node).ledger tracked
  | transferStart _ target => exact (transferStart_unsent node target).ledger tracked
  | transferRound _ env target lastIndex =>
    exact transferRound_ledger env node target lastIndex trackable
      (by rw [lastLogIndex, whole.lastIndex]; omega) tracked
  | transferSignal _ target =>
    refine Unsent.ledger ⟨.inl rfl, ?_⟩ tracked
    intro other request sent
    simpa [ClusterEvent.input, step, transferSignal] using sent
  | transferFinish => exact (transferFinish_unsent node).ledger tracked
  | shutdown => exact (shutdown_unsent node).ledger tracked

end Ledger

end RaftNode

end TorrentMq.Consensus
