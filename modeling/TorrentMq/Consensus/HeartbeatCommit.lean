import Mathlib.Order.Bounds.Defs
import TorrentMq.Consensus.HeartbeatEngine
import TorrentMq.Runs.Basic

/-!
# What a heartbeat engine commits

Runs of the heartbeat engine: which commit indices it notifies, and which ones
its requests carry.
-/

set_option autoImplicit false

namespace TorrentMq.Consensus

open List Option

inductive LeaderCall where
  | initForLeader (now : Int)
  | clearForFollower
  | sendHeartbeats (now : Int)
  | replicateToFollowers (firstLogIndex : Int)
  | response (now : Int) (sender : RaftNodeId) (resp : AppendEntriesResponse)
  | tryAdvanceCommit
  | maybeExtendLease (now : Int)
  | revokeLease
  | tryReactivateFollowers (now : Int)
  | removeFollower (peer : RaftNodeId)
  | addFollower (now : Int) (peer : RaftNodeId)
  | provide (context : LeaderContext)

namespace Leading

def step (leading : Leading) : LeaderCall → Leading
  | .initForLeader now => leading.initForLeader now
  | .clearForFollower => leading.clearForFollower
  | .sendHeartbeats now => (leading.sendHeartbeats now).1
  | .replicateToFollowers firstLogIndex => leading.replicateToFollowers firstLogIndex
  | .response now sender resp => (leading.handleAppendEntriesResponse now sender resp).1
  | .tryAdvanceCommit => leading.tryAdvanceCommit.1
  | .maybeExtendLease now => leading.maybeExtendLease now
  | .revokeLease => leading.revokeLease
  | .tryReactivateFollowers now => leading.tryReactivateFollowers now
  | .removeFollower peer => leading.removeFollower peer
  | .addFollower now peer => leading.addFollower now peer
  | .provide context =>
    { leading with context := { context with commitIndex := max leading.context.commitIndex context.commitIndex } }

/-- An index of the log above the commit index that holds an entry of the current term, which a
quorum has. -/
structure Committable (leading : Leading) (index : Int) : Prop where
  above : leading.context.commitIndex < index
  logged : 0 < index ∧ index ≤ leading.context.lastLogIndex
  current : leading.context.termAt index = leading.context.term
  quorum : leading.context.quorum ≤ leading.replicated index

/-- The greatest index that can be committed has been notified, and nothing where there is none. -/
def Advances (before after : Leading) : Prop :=
  (∃ index, IsGreatest {index | before.Committable index} index ∧ after.committed = before.committed ++ [index]) ∨
    ((∀ index, ¬before.Committable index) ∧ after.committed = before.committed)

def advancing (leading : Leading) : LeaderCall → Option Leading
  | .tryAdvanceCommit => some leading
  | .response now sender resp =>
    if leading.context.term < resp.term then none
    else
      match leading.engine.followers.find? sender with
      | none => none
      | some ft =>
        if resp.success then some (leading.setFollower sender (acknowledge ft now resp.lastLogIndex)) else none
  | _ => none

/-- All requests that a call sends carry a commit index that is no higher than the notified one. -/
def Advertises (leading : Leading) (call : LeaderCall) : Prop :=
  ∃ requests, (leading.step call).sent = leading.sent ++ requests ∧
    ∀ request ∈ requests, request.2.leaderCommit ≤ leading.context.commitIndex

def Keeps (leading : Leading) (call : LeaderCall) : Prop :=
  (∀ before ∈ leading.advancing call, before.Advances (leading.step call)) ∧ leading.Advertises call

def Reached (now : Int) (leading : Leading) (peer : RaftNodeId) : Prop :=
  peer ≠ leading.engine.nodeId ∧
    ∀ ft ∈ leading.engine.followers.find? peer, ft.isActive = true ∨ ft.shouldReactivate now = true

def Replicates (firstLogIndex commitIdx : Int) (leading : Leading) (peer : RaftNodeId) : Prop :=
  peer ≠ leading.engine.nodeId ∧ ∃ ft ∈ leading.engine.followers.find? peer,
    ft.isActive = true ∧ ft.inFlight < leading.engine.pipelineDepth ∧ firstLogIndex < ft.nextIndex ∧
      ft.nextIndex ≤ commitIdx ∧ leading.context.getEntries ft.nextIndex
        (min (ft.nextIndex + leading.engine.maxEntriesPerAppend - 1) commitIdx) ≠ []

def Sends (leading : Leading) (peer : RaftNodeId) : LeaderCall → Prop
  | .sendHeartbeats now => leading.Reached now peer
  | .replicateToFollowers firstLogIndex => leading.Replicates firstLogIndex leading.context.lastLogIndex peer
  | _ => False

/-- Nothing can be committed where the call would commit it, and the whole log is committed
where the call sends a request. -/
def Settled (leading : Leading) (call : LeaderCall) : Prop :=
  (∀ before ∈ leading.advancing call, ∀ index, ¬before.Committable index) ∧
    ((∃ peer ∈ leading.context.members, leading.Sends peer call) →
      leading.context.lastLogIndex ≤ leading.context.commitIndex)

variable (leading : Leading)

theorem advanceFrom_eq (currentTerm : Int) (qsize index : Nat)
    (logged : (index : Int) ≤ max leading.context.lastLogIndex 0) :
    leading.advanceFrom currentTerm qsize index = (leading, false) := by
  induction index with
  | zero => rfl
  | succ lower ih =>
    have below := ih (by omega)
    unfold advanceFrom
    dsimp only
    split
    · exact below
    · split
      · exact if_neg (by omega)
      · exact below

theorem tryAdvanceCommit_eq : leading.tryAdvanceCommit = (leading, false) :=
  leading.advanceFrom_eq _ _ _ (Int.toNat_eq_max _).le

theorem advances_iff {before after : Leading} (same : after.committed = before.committed) :
    before.Advances after ↔ ∀ index, ¬before.Committable index := by
  constructor
  · intro advances
    cases advances with
    | inl notified =>
      obtain ⟨index, -, appended⟩ := notified
      rw [same, self_eq_append_right] at appended
      cases appended
    | inr none => exact none.1
  · exact fun none => .inr ⟨none, same⟩

section Rounds

variable {act : Leading → RaftNodeId → Leading} {sends : Leading → RaftNodeId → Prop} {commitIdx : Int}

theorem foldl_sent
    (silent : ∀ leading peer, ¬sends leading peer →
      (act leading peer).sent = leading.sent ∧ ∀ other, sends (act leading peer) other ↔ sends leading other)
    (sent : ∀ leading peer, sends leading peer →
      ∃ req : AppendEntriesRequest, (act leading peer).sent = leading.sent ++ [(peer, req)] ∧
        req.leaderCommit = commitIdx)
    (peers : List RaftNodeId) (leading : Leading) :
    ∃ requests, (peers.foldl act leading).sent = leading.sent ++ requests ∧
      (∀ request ∈ requests, request.2.leaderCommit = commitIdx) ∧
      (requests = [] ↔ ∀ peer ∈ peers, ¬sends leading peer) := by
  induction peers generalizing leading with
  | nil => exact ⟨[], (append_nil _).symm, forall_mem_nil _, by simp⟩
  | cons peer peers ih =>
    obtain ⟨requests, appended, carried, none⟩ := ih (act leading peer)
    by_cases here : sends leading peer
    · obtain ⟨req, first, carries⟩ := sent leading peer here
      refine ⟨(peer, req) :: requests, ?_, forall_mem_cons.mpr ⟨carries, carried⟩, ?_⟩
      · rw [foldl_cons, appended, first, append_assoc, singleton_append]
      · simp [here]
    · obtain ⟨kept, others⟩ := silent leading peer here
      refine ⟨requests, ?_, carried, ?_⟩
      · rw [foldl_cons, appended, kept]
      · simpa [here, others] using none

end Rounds

theorem sendHeartbeat_silent {now commitIdx : Int} {leading : Leading} {peer : RaftNodeId}
    (silent : ¬leading.Reached now peer) : sendHeartbeat now commitIdx leading peer = leading := by
  unfold sendHeartbeat
  split
  · rfl
  next other =>
    dsimp only
    cases found : leading.engine.followers.find? peer with
    | none =>
      refine absurd ⟨other, ?_⟩ silent
      rw [found]
      exact fun ft member => by cases member
    | some ft =>
      refine if_pos ?_
      by_contra reached
      refine silent ⟨other, ?_⟩
      rw [found]
      intro same member
      cases member
      rw [getD_some] at reached
      cases active : ft.isActive with
      | true => exact .inl rfl
      | false =>
        rw [active] at reached
        exact .inr (by simpa using reached)

variable (now : Int)

theorem sendHeartbeat_cases (commitIdx : Int) (leading : Leading) (peer : RaftNodeId) :
    (¬leading.Reached now peer ∧ sendHeartbeat now commitIdx leading peer = leading) ∨
      (leading.Reached now peer ∧ ∃ ft, sendHeartbeat now commitIdx leading peer =
        (leading.send peer (leading.appendRequest ft commitIdx [])).setFollower peer
          { ft with inFlight := ft.inFlight + 1 }) := by
  by_cases reached : leading.Reached now peer
  · refine .inr ⟨reached, ?_⟩
    unfold sendHeartbeat
    rw [if_neg reached.1]
    dsimp only
    rw [if_neg]
    · exact ⟨_, rfl⟩
    · cases found : leading.engine.followers.find? peer with
      | none => exact fun inactive => by cases inactive.1
      | some ft =>
        intro inactive
        cases reached.2 ft found with
        | inl active => cases active.symm.trans inactive.1
        | inr again => cases again.symm.trans inactive.2
  · exact .inl ⟨reached, sendHeartbeat_silent reached⟩

theorem fillBatch_eq_nil_iff (maxAppendBytes batchBytes : Nat) (batch entries : List LogEntry) :
    fillBatch maxAppendBytes batchBytes batch entries = [] ↔ batch = [] ∧ entries = [] := by
  induction entries generalizing batchBytes batch with
  | nil => simp [fillBatch]
  | cons entry entries ih =>
    unfold fillBatch
    split
    next full => simp [full.2]
    next => simp [ih]

theorem replicate_silent {firstLogIndex commitIdx : Int} {leading : Leading} {peer : RaftNodeId}
    (silent : ¬leading.Replicates firstLogIndex commitIdx peer) :
    ∃ snapshotNeeded, replicate firstLogIndex commitIdx leading peer = { leading with snapshotNeeded } := by
  unfold replicate
  split
  · exact ⟨_, rfl⟩
  next other =>
    cases found : leading.engine.followers.find? peer with
    | none => exact ⟨_, rfl⟩
    | some ft =>
      dsimp only
      split
      · exact ⟨_, rfl⟩
      next active =>
        split
        · exact ⟨_, rfl⟩
        next room =>
          split
          · exact ⟨_, rfl⟩
          next behind =>
            split
            · exact ⟨_, rfl⟩
            next inLog =>
              split
              · exact ⟨_, rfl⟩
              next filled =>
                refine absurd ⟨other, ft, found, Bool.eq_true_of_not_eq_false active, not_le.mp room,
                  not_le.mp inLog, not_lt.mp behind, ?_⟩ silent
                intro empty
                rw [empty] at filled
                exact filled rfl

theorem replicate_cases (firstLogIndex commitIdx : Int) (leading : Leading) (peer : RaftNodeId) :
    (¬leading.Replicates firstLogIndex commitIdx peer ∧
        ∃ snapshotNeeded, replicate firstLogIndex commitIdx leading peer = { leading with snapshotNeeded }) ∨
      (leading.Replicates firstLogIndex commitIdx peer ∧ ∃ ft batch,
        replicate firstLogIndex commitIdx leading peer =
          (leading.send peer (leading.appendRequest ft commitIdx batch)).setFollower peer
            { ft with inFlight := ft.inFlight + 1 }) := by
  by_cases replicates : leading.Replicates firstLogIndex commitIdx peer
  · refine .inr ⟨replicates, ?_⟩
    obtain ⟨other, ft, found, active, room, inLog, behind, filled⟩ := replicates
    rw [mem_def] at found
    unfold replicate
    rw [if_neg other, found]
    dsimp only
    rw [if_neg (fun inactive => by cases active.symm.trans inactive), if_neg (not_le.mpr room),
      if_neg (not_lt.mpr behind), if_neg (not_le.mpr inLog), if_neg]
    · exact ⟨_, _, rfl⟩
    · rw [List.isEmpty_iff, fillBatch_eq_nil_iff]
      exact fun none => filled none.2
  · exact .inl ⟨replicates, replicate_silent replicates⟩

theorem sent_sendHeartbeats (commitIdx : Int) (peers : List RaftNodeId) (leading : Leading) :
    ∃ requests, (peers.foldl (sendHeartbeat now commitIdx) leading).sent = leading.sent ++ requests ∧
      (∀ request ∈ requests, request.2.leaderCommit = commitIdx) ∧
      (requests = [] ↔ ∀ peer ∈ peers, ¬leading.Reached now peer) := by
  refine foldl_sent ?_ ?_ peers leading
  · intro leading peer silent
    rw [sendHeartbeat_silent silent]
    exact ⟨rfl, fun _ => Iff.rfl⟩
  · intro leading peer reached
    cases sendHeartbeat_cases now commitIdx leading peer with
    | inl silent => exact absurd reached silent.1
    | inr sends =>
      obtain ⟨-, ft, after⟩ := sends
      rw [after]
      exact ⟨_, rfl, rfl⟩

theorem sent_replicate (firstLogIndex commitIdx : Int) (peers : List RaftNodeId) (leading : Leading) :
    ∃ requests, (peers.foldl (replicate firstLogIndex commitIdx) leading).sent = leading.sent ++ requests ∧
      (∀ request ∈ requests, request.2.leaderCommit = commitIdx) ∧
      (requests = [] ↔ ∀ peer ∈ peers, ¬leading.Replicates firstLogIndex commitIdx peer) := by
  refine foldl_sent ?_ ?_ peers leading
  · intro leading peer silent
    obtain ⟨needed, after⟩ := replicate_silent silent
    rw [after]
    exact ⟨rfl, fun _ => Iff.rfl⟩
  · intro leading peer replicates
    cases replicate_cases firstLogIndex commitIdx leading peer with
    | inl silent => exact absurd replicates silent.1
    | inr sends =>
      obtain ⟨-, ft, batch, after⟩ := sends
      rw [after]
      exact ⟨_, rfl, rfl⟩

theorem maybeExtendLease_frame :
    (leading.maybeExtendLease now).sent = leading.sent ∧
      (leading.maybeExtendLease now).committed = leading.committed := by
  unfold maybeExtendLease
  split
  · exact ⟨rfl, rfl⟩
  · split <;> exact ⟨rfl, rfl⟩

theorem handleAppendEntriesResponse_frame (sender : RaftNodeId)
    (resp : AppendEntriesResponse) :
    (leading.handleAppendEntriesResponse now sender resp).1.sent = leading.sent ∧
      (leading.handleAppendEntriesResponse now sender resp).1.committed = leading.committed := by
  unfold handleAppendEntriesResponse
  split
  · exact ⟨rfl, rfl⟩
  · split
    · exact ⟨rfl, rfl⟩
    next ft _ =>
      split
      · rw [tryAdvanceCommit_eq]
        exact maybeExtendLease_frame (leading.setFollower sender (acknowledge ft now resp.lastLogIndex)) now
      · exact ⟨rfl, rfl⟩

theorem initForLeader_frame :
    (leading.initForLeader now).sent = leading.sent ∧ (leading.initForLeader now).committed = leading.committed := by
  unfold initForLeader
  exact foldlRecOn (motive := fun reset : Leading =>
      reset.sent = leading.sent ∧ reset.committed = leading.committed) _ _ ⟨rfl, rfl⟩ fun _ kept _ _ => kept

theorem addFollower_frame (peer : RaftNodeId) :
    (leading.addFollower now peer).sent = leading.sent ∧
      (leading.addFollower now peer).committed = leading.committed := by
  unfold addFollower
  split
  · exact ⟨rfl, rfl⟩
  · split <;> exact ⟨rfl, rfl⟩

theorem committed_sendHeartbeat (commitIdx : Int) (leading : Leading) (peer : RaftNodeId) :
    (sendHeartbeat now commitIdx leading peer).committed = leading.committed := by
  cases sendHeartbeat_cases now commitIdx leading peer with
  | inl silent => rw [silent.2]
  | inr sends =>
    obtain ⟨-, ft, after⟩ := sends
    rw [after]
    rfl

theorem committed_replicate (firstLogIndex commitIdx : Int) (leading : Leading) (peer : RaftNodeId) :
    (replicate firstLogIndex commitIdx leading peer).committed = leading.committed := by
  cases replicate_cases firstLogIndex commitIdx leading peer with
  | inl silent =>
    obtain ⟨-, needed, after⟩ := silent
    rw [after]
  | inr sends =>
    obtain ⟨-, ft, batch, after⟩ := sends
    rw [after]
    rfl

theorem committed_foldl {act : Leading → RaftNodeId → Leading}
    (kept : ∀ leading peer, (act leading peer).committed = leading.committed) (peers : List RaftNodeId)
    (leading : Leading) : (peers.foldl act leading).committed = leading.committed := by
  induction peers generalizing leading with
  | nil => rfl
  | cons peer peers ih => exact (ih (act leading peer)).trans (kept leading peer)

theorem sendHeartbeats_frame :
    (leading.sendHeartbeats now).1.sent =
        (leading.context.members.foldl (sendHeartbeat now leading.context.lastLogIndex) leading).sent ∧
      (leading.sendHeartbeats now).1.committed =
        (leading.context.members.foldl (sendHeartbeat now leading.context.lastLogIndex) leading).committed := by
  unfold sendHeartbeats
  dsimp only
  split
  · dsimp only
    split <;> exact ⟨rfl, rfl⟩
  · exact ⟨rfl, rfl⟩

variable (call : LeaderCall)

theorem committed_step : (leading.step call).committed = leading.committed := by
  cases call with
  | initForLeader now => exact (initForLeader_frame leading now).2
  | sendHeartbeats now =>
    exact (sendHeartbeats_frame leading now).2.trans (committed_foldl (committed_sendHeartbeat now _) _ _)
  | replicateToFollowers firstLogIndex => exact committed_foldl (committed_replicate firstLogIndex _) _ _
  | response now sender resp => exact (handleAppendEntriesResponse_frame leading now sender resp).2
  | tryAdvanceCommit =>
    rw [step, tryAdvanceCommit_eq]
  | maybeExtendLease now => exact (maybeExtendLease_frame leading now).2
  | addFollower now peer => exact (addFollower_frame leading now peer).2
  | clearForFollower | revokeLease | tryReactivateFollowers now | removeFollower peer | provide context => rfl

theorem step_sent :
    ∃ requests, (leading.step call).sent = leading.sent ++ requests ∧
      (∀ request ∈ requests, request.2.leaderCommit = leading.context.lastLogIndex) ∧
      (requests = [] ↔ ∀ peer ∈ leading.context.members, ¬leading.Sends peer call) := by
  have silent : (leading.step call).sent = leading.sent → (∀ peer, ¬leading.Sends peer call) →
      ∃ requests, (leading.step call).sent = leading.sent ++ requests ∧
        (∀ request ∈ requests, request.2.leaderCommit = leading.context.lastLogIndex) ∧
        (requests = [] ↔ ∀ peer ∈ leading.context.members, ¬leading.Sends peer call) := by
    intro same none
    exact ⟨[], same.trans (append_nil _).symm, forall_mem_nil _, iff_of_true rfl fun peer _ => none peer⟩
  cases call with
  | sendHeartbeats now =>
    obtain ⟨requests, appended, carried, none⟩ :=
      sent_sendHeartbeats now leading.context.lastLogIndex leading.context.members leading
    exact ⟨requests, (sendHeartbeats_frame leading now).1.trans appended, carried, none⟩
  | replicateToFollowers firstLogIndex =>
    exact sent_replicate firstLogIndex leading.context.lastLogIndex leading.context.members leading
  | initForLeader now => exact silent (initForLeader_frame leading now).1 fun _ => id
  | response now sender resp => exact silent (handleAppendEntriesResponse_frame leading now sender resp).1 fun _ => id
  | tryAdvanceCommit =>
    refine silent ?_ fun _ => id
    rw [step, tryAdvanceCommit_eq]
  | maybeExtendLease now => exact silent (maybeExtendLease_frame leading now).1 fun _ => id
  | addFollower now peer => exact silent (addFollower_frame leading now peer).1 fun _ => id
  | clearForFollower | revokeLease | tryReactivateFollowers now | removeFollower peer | provide context =>
    exact silent rfl fun _ => id

theorem advertises_iff :
    leading.Advertises call ↔ ((∃ peer ∈ leading.context.members, leading.Sends peer call) →
      leading.context.lastLogIndex ≤ leading.context.commitIndex) := by
  obtain ⟨requests, appended, carried, none⟩ := step_sent leading call
  constructor
  · intro advertises sends
    obtain ⟨others, written, bounded⟩ := advertises
    have same := append_cancel_left (written.symm.trans appended)
    cases requests with
    | nil =>
      obtain ⟨peer, member, sent⟩ := sends
      exact absurd sent (none.mp rfl peer member)
    | cons request requests =>
      rw [← carried request mem_cons_self]
      exact bounded request (same ▸ mem_cons_self)
  · intro whole
    refine ⟨requests, appended, ?_⟩
    intro request member
    rw [carried request member]
    refine whole ?_
    by_contra nobody
    rw [none.mpr fun peer listed sent => nobody ⟨peer, listed, sent⟩] at member
    cases member

theorem committed_advancing {leading before : Leading} {call : LeaderCall} (reached : before ∈ leading.advancing call) :
    before.committed = leading.committed := by
  cases call with
  | tryAdvanceCommit =>
    cases reached
    rfl
  | response now sender resp =>
    rw [advancing, mem_def] at reached
    split at reached
    · cases reached
    · split at reached
      · cases reached
      · split at reached
        · cases reached
          rfl
        · cases reached
  | _ => cases reached

/-- The engine does what it is for in exactly those runs in which it never has anything to commit,
and sends requests only while the whole log is committed. -/
theorem keeps_iff_settled (start : Leading) (calls : List LeaderCall) :
    Runs.Meets step Keeps start calls ↔ Runs.Meets step Settled start calls := by
  refine Runs.meets_iff_meets (fun _ => True) ?_ (fun _ _ _ _ => trivial) trivial calls
  intro leading call _
  refine and_congr (forall₂_congr fun before reached => advances_iff ?_) (advertises_iff leading call)
  rw [committed_step, committed_advancing reached]

def firstEntry : Leading where
  engine := HeartbeatEngine.new 1 150 100 4194304 8 true 10
  context := {
    term := 1
    lastLogIndex := 1
    termAt := fun index => if index = 1 then 1 else 0
    members := [1, 2, 3]
    quorum := 2 }

theorem not_keeps : ¬∀ (start : Leading) (calls : List LeaderCall), Runs.Meets step Keeps start calls := by
  intro claim
  have keeps := (claim firstEntry
    [.initForLeader 0, .response 1 2 { term := 1, success := true, lastLogIndex := 1 }]).2.1.1
  have advances := keeps _ rfl
  rcases advances with ⟨index, -, notified⟩ | ⟨none, -⟩
  · rw [committed_step] at notified
    cases notified
  · exact none 1 ⟨by decide, by decide, rfl, by decide⟩

end Leading

end TorrentMq.Consensus
