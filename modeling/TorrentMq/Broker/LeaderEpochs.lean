import Mathlib.Data.Int.ConditionallyCompleteOrder
import TorrentMq.Arithmetic.Counters
import TorrentMq.Broker.ControllerProperties
import TorrentMq.Broker.LeaderAnnouncements

/-! When the epochs of a controller let partition managers tell the latest leader of a partition. -/

set_option autoImplicit false

namespace TorrentMq.Broker.Controllers

open Bytes Partitions Runs List Option Controller

/-- None leads a partition in an epoch, or the broker that was announced last, or the epoch
is above the one that was announced last. -/
def Announced.Fresh (announced : Announced) (topic : Bytes) (partition : Int32) (leader : BrokerId)
    (epoch : Int64) : Prop :=
  leader ≠ kNoBroker → ∀ last, latest announced.sent topic partition = some last →
    last.leader = leader ∨ last.leaderEpoch < epoch

/-- New partitions are led in the epoch of the controller by the first of their replicas. -/
def Announced.AllFresh (announced : Announced) (name : Bytes) (first count : Int32)
    (assignments : List (List BrokerId)) : Prop :=
  ∀ assigned ∈ (assignments.take count.toNatClampNeg).zipIdx,
    announced.Fresh name (first + Int32.ofNat assigned.2) (preferredLeader assigned.1)
      announced.controller.controllerEpoch

/-- A broker that comes to lead a partition is the last one that has been announced, or the
epoch has been raised since. -/
def RaisesEpoch (announced : Announced) : Event → Prop
  | .arrange (.createTopic name numPartitions replicationFactor) =>
    announced.controller.refuseTopic name numPartitions replicationFactor = none →
      ∀ assignments,
        assignReplicas announced.controller.brokers numPartitions replicationFactor.toInt32 = some assignments →
          announced.AllFresh name 0 numPartitions assignments
  | .arrange (.createPartitions order name newTotalCount) =>
    ∀ parts first assignments, announced.controller.AddsPartitions name newTotalCount parts →
      ((order.visit parts.keys).head?.bind fun pid => parts.find? pid) = some first →
        assignReplicas announced.controller.brokers (newTotalCount - Int32.ofNat parts.size)
            (Int32.ofNat first.replicas.length) = some assignments →
          announced.AllFresh name (Int32.ofNat parts.size) (newTotalCount - Int32.ofNat parts.size) assignments
  | .arrange (.reassignPartitions partitions newAssignments) =>
    announced.controller.isController = true → partitions.length = newAssignments.length →
      ∀ topic pid entry newReplicas, announced.controller.findEntry topic pid = some entry →
        lastAssignment (partitions.zip newAssignments) topic pid = some newReplicas →
          announced.Fresh topic pid (preferredLeader newReplicas) entry.leaderEpoch
  | .arrange (.triggerLeaderElection topic partition) =>
    announced.controller.isController = true →
      announced.Fresh topic partition (announced.controller.electPreferredLeader topic partition)
        announced.controller.controllerEpoch
  | .arrange (.handleBrokerFailure failedBroker) =>
    announced.controller.isController = true →
      ∀ topic pid entry, announced.controller.findEntry topic pid = some entry → entry.leader = failedBroker →
        announced.Fresh topic pid
          ((announced.controller.setAlive failedBroker false).brokers.elect
            { entry with isr := entry.isr.filter (· ≠ failedBroker) })
          announced.controller.controllerEpoch
  | .onBecomeController | .incrementEpoch => announced.controller.controllerEpoch ≠ Int64.maxValue
  | _ => True

/-- An earlier message about the same partition is of an earlier epoch, or tells the same leader. -/
def Ordered (newer older : LeaderAndIsr) : Prop :=
  older.About newer.topic newer.partition →
    older.leaderEpoch < newer.leaderEpoch ∨ older.offer = newer.offer

theorem Ordered.refl (message : LeaderAndIsr) : Ordered message message := fun _ => .inr rfl

/-- An entry that may be announced in what has been sent so far. -/
structure Announceable (sent : List LeaderAndIsr) (controllerEpoch : Int64) (topic : Bytes) (partition : Int32)
    (entry : PartitionAssignmentEntry) : Prop where
  low : 0 ≤ entry.leaderEpoch
  high : entry.leaderEpoch ≤ controllerEpoch
  above : ∀ message ∈ sent, message.About topic partition → message.leaderEpoch ≤ entry.leaderEpoch
  fresh : entry.leader ≠ kNoBroker → ∀ last, latest sent topic partition = some last →
    last.leader = entry.leader ∨ last.leaderEpoch < entry.leaderEpoch

/-- The epochs of what has been sent are in order, and every leader has been announced in its epoch. -/
structure Tracked (announced : Announced) : Prop where
  positive : 0 ≤ announced.controller.controllerEpoch
  ordered : announced.sent.Pairwise Ordered
  bounded : ∀ message ∈ announced.sent,
    0 ≤ message.leaderEpoch ∧ message.leaderEpoch ≤ announced.controller.controllerEpoch
  announceable : ∀ topic partition entry, announced.controller.findEntry topic partition = some entry →
    Announceable announced.sent announced.controller.controllerEpoch topic partition entry
  told : ∀ topic partition entry, announced.controller.findEntry topic partition = some entry →
    entry.leader ≠ kNoBroker → ∃ last, latest announced.sent topic partition = some last ∧
      last.leader = entry.leader ∧ last.leaderEpoch = entry.leaderEpoch

section Ledger

variable {announced : Announced} {before after : Controller} {sent : List LeaderAndIsr} {message : LeaderAndIsr}
  {topic : Bytes} {partition : Int32} {entry : PartitionAssignmentEntry} {epoch : Int64}

theorem Announceable.ordered (announceable : Announceable sent epoch message.topic message.partition entry)
    (tells : Tells after message entry) (chain : sent.Pairwise Ordered) {older : LeaderAndIsr} (member : older ∈ sent) :
    Ordered message older := by
  intro about
  obtain ⟨last, found⟩ := latest_of_mem member about
  have not_above := announceable.above last (about_of_latest found).1 (about_of_latest found).2
  have last_about := (about_of_latest found).2
  have within : older.About last.topic last.partition := by
    rw [last_about.1, last_about.2]
    exact about
  rw [tells.epoch]
  rcases announceable.fresh tells.led last found with same_leader | below
  · rcases rel_of_latest chain Ordered.refl found member about within with earlier | equal
    · exact .inl (earlier.trans_le not_above)
    · rcases not_above.lt_or_eq with below | same_epoch
      · exact .inl ((congrArg Prod.fst equal).trans_lt below)
      · refine .inr (equal.trans (Prod.ext ?_ ?_))
        · exact same_epoch.trans tells.epoch.symm
        · exact same_leader.trans tells.leader.symm
  · rcases rel_of_latest chain Ordered.refl found member about within with earlier | equal
    · exact .inl (earlier.trans below)
    · exact .inl ((congrArg Prod.fst equal).trans_lt below)

theorem Tracked.announce (tracked : Tracked ⟨before, sent⟩) (rises : before.controllerEpoch ≤ after.controllerEpoch)
    (announceable : ∀ topic partition entry, after.findEntry topic partition = some entry →
      Announceable sent after.controllerEpoch topic partition entry) :
    Tracked ⟨after, Controllers.announce before after ++ sent⟩ := by
  have new : ∀ message ∈ Controllers.announce before after, ∃ entry, Tells after message entry ∧
      Announceable sent after.controllerEpoch message.topic message.partition entry := by
    intro message member
    obtain ⟨entry, tells⟩ := tells_of_mem_announce member
    exact ⟨entry, tells, announceable _ _ entry tells.found⟩
  have told : ∀ topic partition entry, after.findEntry topic partition = some entry → entry.leader ≠ kNoBroker →
      ∃ last, latest (Controllers.announce before after ++ sent) topic partition = some last ∧
        last.leader = entry.leader ∧ last.leaderEpoch = entry.leaderEpoch := by
    intro topic partition entry found led
    have split : latest (Controllers.announce before after ++ sent) topic partition =
        (latest (Controllers.announce before after) topic partition).or (latest sent topic partition) :=
      find?_append
    cases newest : latest (Controllers.announce before after) topic partition with
    | some message =>
      obtain ⟨member, same_topic, same_partition⟩ := about_of_latest newest
      obtain ⟨other, tells, -⟩ := new message member
      have own := tells.found
      rw [same_topic, same_partition, found] at own
      obtain rfl := Option.some.inj own
      exact ⟨message, by rw [split, newest, some_or], tells.leader, tells.epoch⟩
    | none =>
      rw [newest, none_or] at split
      rw [split]
      rcases @announced_or_same before after topic partition entry found led with ⟨message, member, about⟩ |
        ⟨stored, present, same_leader, same_epoch⟩
      · obtain ⟨last, present⟩ := latest_of_mem member about
        exact nomatch newest.symm.trans present
      · rw [← same_leader, ← same_epoch]
        exact tracked.told topic partition stored present (same_leader.trans_ne led)
  refine ⟨tracked.positive.trans rises, ?_, ?_, ?_, told⟩
  · refine pairwise_append.mpr ⟨pairwise_of_forall_mem_list ?_, tracked.ordered, ?_⟩
    · intro newer member older also about
      obtain ⟨entry, tells, -⟩ := new newer member
      obtain ⟨other, tells_other, -⟩ := new older also
      have own := tells_other.found
      rw [about.1, about.2, tells.found] at own
      obtain rfl := Option.some.inj own
      exact .inr (Prod.ext (tells_other.epoch.trans tells.epoch.symm) (tells_other.leader.trans tells.leader.symm))
    · intro message member older sooner
      obtain ⟨entry, tells, may_tell⟩ := new message member
      exact may_tell.ordered tells tracked.ordered sooner
  · intro message member
    rcases mem_append.mp member with here | sooner
    · obtain ⟨entry, tells, may_tell⟩ := new message here
      rw [tells.epoch]
      exact ⟨may_tell.low, may_tell.high⟩
    · exact ⟨(tracked.bounded message sooner).1, (tracked.bounded message sooner).2.trans rises⟩
  · intro topic partition entry found
    have may_tell := announceable topic partition entry found
    refine ⟨may_tell.low, may_tell.high, ?_, ?_⟩
    · intro message member about
      rcases mem_append.mp member with here | sooner
      · obtain ⟨other, tells, -⟩ := new message here
        have own := tells.found
        rw [about.1, about.2, found] at own
        obtain rfl := Option.some.inj own
        exact tells.epoch.le
      · exact may_tell.above message sooner about
    · intro led last newest
      obtain ⟨own, present, same_leader, -⟩ := told topic partition entry found led
      obtain rfl := Option.some.inj (newest.symm.trans present)
      exact .inl same_leader

end Ledger

structure Succeeds (announced : Announced) (after : Controller) : Prop where
  rises : announced.controller.controllerEpoch ≤ after.controllerEpoch
  announceable : ∀ topic partition entry, after.findEntry topic partition = some entry →
    Announceable announced.sent after.controllerEpoch topic partition entry

section Steps

variable {announced : Announced} {topic : Bytes} {partition : Int32} {stored entry : PartitionAssignmentEntry}
  {epoch : Int64}

section

variable (announceable : Announceable announced.sent epoch topic partition stored)
  (same_epoch : entry.leaderEpoch = stored.leaderEpoch)
include announceable same_epoch

theorem Announceable.keep (leader : entry.leader = stored.leader ∨ entry.leader = kNoBroker) :
    Announceable announced.sent epoch topic partition entry where
  low := same_epoch ▸ announceable.low
  high := same_epoch ▸ announceable.high
  above := same_epoch ▸ announceable.above
  fresh := by
    intro led
    rw [leader.resolve_right led, same_epoch]
    exact announceable.fresh (leader.resolve_right led ▸ led)

theorem Announceable.relead (fresh : announced.Fresh topic partition entry.leader stored.leaderEpoch) :
    Announceable announced.sent epoch topic partition entry where
  low := same_epoch ▸ announceable.low
  high := same_epoch ▸ announceable.high
  above := same_epoch ▸ announceable.above
  fresh := same_epoch.symm ▸ fresh

end

section

variable (tracked : Tracked announced)
include tracked

theorem Tracked.elected (at_epoch : entry.leaderEpoch = announced.controller.controllerEpoch)
    (fresh : announced.Fresh topic partition entry.leader announced.controller.controllerEpoch) :
    Announceable announced.sent announced.controller.controllerEpoch topic partition entry where
  low := at_epoch ▸ tracked.positive
  high := at_epoch.le
  above := fun message member _ => at_epoch ▸ (tracked.bounded message member).2
  fresh := at_epoch.symm ▸ fresh

theorem Tracked.succeeds : Succeeds announced announced.controller where
  rises := le_refl _
  announceable := tracked.announceable

theorem Tracked.succeeds_of_entries {after : Controller}
    (rises : announced.controller.controllerEpoch ≤ after.controllerEpoch)
    (old : ∀ topic partition entry, after.findEntry topic partition = some entry →
      announced.controller.findEntry topic partition = some entry) : Succeeds announced after where
  rises := rises
  announceable := by
    intro topic partition entry found
    have announceable := tracked.announceable topic partition entry (old topic partition entry found)
    exact ⟨announceable.low, announceable.high.trans rises, announceable.above, announceable.fresh⟩

variable {name : Bytes}

theorem Tracked.succeeds_store {first count : Int32}
    {assignments : List (List BrokerId)} {parts : Parts} (fresh : announced.AllFresh name first count assignments)
    (old : ∀ pid entry, parts.find? pid = some entry → announced.controller.findEntry name pid = some entry) :
    Succeeds announced (announced.controller.setParts name
      (announced.controller.storeAssignments first count assignments parts)) where
  rises := le_refl _
  announceable := by
    intro topic partition entry found
    rw [findEntry_setParts] at found
    split at found
    next same =>
      subst same
      rcases find?_storeAssignments found with ⟨assigned, member, rfl, rfl⟩ | before
      · exact tracked.elected rfl (fresh assigned member)
      · exact tracked.announceable topic partition entry (old partition entry before)
    next => exact tracked.announceable topic partition entry found

theorem Tracked.succeeds_createTopic {numPartitions : Int32} {replicationFactor : Int16}
    (raises : RaisesEpoch announced (.arrange (.createTopic name numPartitions replicationFactor))) :
    Succeeds announced (announced.controller.createTopic name numPartitions replicationFactor).1 := by
  rcases @createTopic_cases announced.controller name numPartitions replicationFactor with
    ⟨assignments, admitted, assigned, result⟩ | result
  · rw [result]
    refine tracked.succeeds_store (raises admitted assignments assigned) fun pid entry found => ?_
    unfold findEntry
    cases listed : announced.controller.assignments.find? name with
    | none =>
      rw [listed] at found
      cases found
    | some parts =>
      rw [listed] at found
      exact found
  · rw [result]
    exact tracked.succeeds

theorem Tracked.succeeds_createPartitions {order : IterationOrder Int32} {newTotalCount : Int32}
    (raises : RaisesEpoch announced (.arrange (.createPartitions order name newTotalCount))) :
    Succeeds announced (announced.controller.createPartitions order name newTotalCount).1 := by
  rcases @createPartitions_cases announced.controller name newTotalCount order with
    ⟨parts, -, -, result⟩ | ⟨parts, first, assignments, adds, -, head, assigned, result⟩ | ⟨-, result⟩
  · rw [result]
    exact tracked.succeeds_of_entries (le_refl _) fun _ _ _ found => found
  · rw [result]
    refine tracked.succeeds_store (raises parts first assignments adds head assigned) fun pid entry found => ?_
    unfold findEntry
    rw [adds.2.1]
    exact found
  · rw [result]
    exact tracked.succeeds

theorem Tracked.succeeds_reassignPartitions
    {partitions : List (Bytes × Int32)} {newAssignments : List (List BrokerId)}
    (raises : RaisesEpoch announced (.arrange (.reassignPartitions partitions newAssignments))) :
    Succeeds announced (announced.controller.reassignPartitions partitions newAssignments).1 := by
  unfold reassignPartitions
  split
  next => exact tracked.succeeds
  next privileged =>
    split
    next => exact tracked.succeeds
    next same =>
      have epochs := @foldl_modifyEntry_keeps announced.controller Int64 controllerEpoch
        (fun _ _ _ _ => epoch_modifyEntry) (partitions.zip newAssignments)
      refine ⟨epochs.ge, fun topic partition entry found => ?_⟩
      rw [epochs]
      rw [findEntry_reassign] at found
      obtain ⟨stored, present, rfl⟩ := map_eq_some_iff.mp found
      have announceable := tracked.announceable topic partition stored present
      cases given : lastAssignment (partitions.zip newAssignments) topic partition with
      | none => exact announceable
      | some newReplicas =>
        exact announceable.relead rfl
          (raises (by simpa using privileged) (not_not.mp same) topic partition stored newReplicas present given)

theorem Tracked.succeeds_triggerLeaderElection
    (raises : RaisesEpoch announced (.arrange (.triggerLeaderElection topic partition))) :
    Succeeds announced (announced.controller.triggerLeaderElection topic partition).1 := by
  unfold triggerLeaderElection
  split
  next => exact tracked.succeeds
  next privileged =>
    dsimp only
    split
    next => exact tracked.succeeds
    next =>
      refine ⟨epoch_modifyEntry.ge, fun name pid entry found => ?_⟩
      rw [epoch_modifyEntry]
      rw [findEntry_modifyEntry] at found
      split at found
      next same =>
        obtain ⟨rfl, rfl⟩ := same
        obtain ⟨stored, -, rfl⟩ := map_eq_some_iff.mp found
        exact tracked.elected rfl (raises (by simpa using privileged))
      next => exact tracked.announceable name pid entry found

theorem Tracked.succeeds_handleBrokerFailure {failedBroker : BrokerId}
    (raises : RaisesEpoch announced (.arrange (.handleBrokerFailure failedBroker))) :
    Succeeds announced (announced.controller.handleBrokerFailure failedBroker).1 := by
  unfold handleBrokerFailure
  split
  next => exact tracked.succeeds
  next privileged =>
    refine ⟨le_refl _, fun topic partition entry found => ?_⟩
    change Announceable announced.sent announced.controller.controllerEpoch topic partition entry
    rw [findEntry_mapEntries] at found
    obtain ⟨stored, present, rfl⟩ := map_eq_some_iff.mp found
    have announceable := tracked.announceable topic partition stored present
    unfold failOver
    split
    next =>
      dsimp only
      split
      next led =>
        split
        next => exact tracked.elected rfl (raises (by simpa using privileged) topic partition stored present led)
        next => exact announceable.keep rfl (.inr rfl)
      next => exact announceable.keep rfl (.inl rfl)
    next => exact announceable

theorem Tracked.succeeds_handleBrokerRecovery (recoveredBroker : BrokerId) :
    Succeeds announced (announced.controller.handleBrokerRecovery recoveredBroker).1 := by
  unfold handleBrokerRecovery
  split
  next => exact tracked.succeeds
  next =>
    refine ⟨le_refl _, fun topic partition entry found => ?_⟩
    change Announceable announced.sent announced.controller.controllerEpoch topic partition entry
    rw [findEntry_mapEntries] at found
    obtain ⟨stored, present, rfl⟩ := map_eq_some_iff.mp found
    have announceable := tracked.announceable topic partition stored present
    unfold restore
    split
    next => exact announceable.keep rfl (.inl rfl)
    next => exact announceable

theorem Tracked.succeeds_deleteTopic (name : Bytes) :
    Succeeds announced (announced.controller.deleteTopic name).1 := by
  unfold deleteTopic
  split
  next => exact tracked.succeeds
  next =>
    split
    next => exact tracked.succeeds
    next =>
      refine tracked.succeeds_of_entries (le_refl _) fun topic partition entry found => ?_
      unfold findEntry at found ⊢
      rw [OrderedMap.find?_erase] at found
      split at found
      next => cases found
      next => exact found

end

theorem le_succ_epoch {epoch : Int64} (room : epoch ≠ Int64.maxValue) : epoch ≤ epoch + 1 :=
  Int64.le_iff_toInt_le.mpr (Counters.toInt_lt_succ_long room).le

theorem Tracked.succeeds_onResignController (tracked : Tracked announced) :
    Succeeds announced announced.controller.onResignController := by
  unfold onResignController
  split
  next => exact tracked.succeeds_of_entries (le_refl _) fun _ _ _ found => found
  next => exact tracked.succeeds

theorem Tracked.step (tracked : Tracked announced) {event : Event} (raises : RaisesEpoch announced event)
    (server : BrokerServer) (rack : Bytes) : Tracked (Controllers.step server rack announced event) := by
  have succeeds : Succeeds announced (next server rack announced.controller event) := by
    unfold next
    split
    next => exact tracked.succeeds
    next defined =>
      cases event with
      | arrange operation =>
        dsimp only
        unfold Controllers.arrange
        rw [if_neg defined]
        cases operation with
        | createTopic name numPartitions replicationFactor => exact tracked.succeeds_createTopic raises
        | createPartitions order name newTotalCount => exact tracked.succeeds_createPartitions raises
        | reassignPartitions partitions newAssignments => exact tracked.succeeds_reassignPartitions raises
        | triggerLeaderElection topic partition => exact tracked.succeeds_triggerLeaderElection raises
        | handleBrokerFailure failedBroker => exact tracked.succeeds_handleBrokerFailure raises
        | handleBrokerRecovery recoveredBroker => exact tracked.succeeds_handleBrokerRecovery recoveredBroker
      | deleteTopic name => exact tracked.succeeds_deleteTopic name
      | onBecomeController | incrementEpoch =>
        exact tracked.succeeds_of_entries (le_succ_epoch raises) fun _ _ _ found => found
      | onResignController => exact tracked.succeeds_onResignController
  exact tracked.announce succeeds.rises succeeds.announceable

end Steps

section Runs

variable {announced : Announced}

def registered (brokers : List (BrokerServer × Bytes)) : Announced := { controller := registerAll brokers }

theorem tracked_registered (brokers : List (BrokerServer × Bytes)) : Tracked (registered brokers) := by
  have initial : (registerAll brokers).assignments = .empty ∧ (registerAll brokers).controllerEpoch = 0 := by
    induction brokers using List.reverseRecOn with
    | nil => exact ⟨rfl, rfl⟩
    | append_singleton earlier broker ih =>
      rw [registerAll, foldl_concat]
      exact ih
  have no_entry : ∀ topic partition, (registered brokers).controller.findEntry topic partition = none := by
    intro topic partition
    change ((registerAll brokers).assignments.find? topic).bind _ = none
    rw [initial.1]
    rfl
  refine ⟨initial.2.ge, .nil, nofun, ?_, ?_⟩ <;>
  · intro topic partition entry found
    exact nomatch (no_entry topic partition).symm.trans found

theorem Tracked.fences (tracked : Tracked announced) : Fences announced where
  rises := by
    intro later message earlier split previous found differs old member about
    have ordered := tracked.ordered
    rw [split] at ordered
    have behind := pairwise_cons.mp (pairwise_append.mp ordered).2.1
    obtain ⟨before, about_previous⟩ := about_of_latest found
    have below : previous.leaderEpoch < message.leaderEpoch :=
      (behind.1 previous before about_previous).resolve_right fun same => differs (congrArg Prod.snd same)
    have within : old.About previous.topic previous.partition := by
      rw [about_previous.1, about_previous.2]
      exact about
    rcases rel_of_latest behind.2 Ordered.refl found member about within with earlier | same
    · exact earlier.trans below
    · exact (congrArg Prod.fst same).trans_lt below
  accepted := fun message member => (tracked.bounded message member).1
  delivered := by
    intro order perm topic partition last found host manager replica present accepts
    obtain ⟨sent, about_last⟩ := about_of_latest found
    have newest : FencedRegister.Newest last.offer
        ((order.filter fun message => message.About topic partition).map LeaderAndIsr.offer) := by
      intro offer member
      obtain ⟨message, listed, rfl⟩ := mem_map.mp member
      obtain ⟨taken, about⟩ := List.mem_filter.mp listed
      have about := of_decide_eq_true about
      refine rel_of_latest tracked.ordered Ordered.refl found (perm.mem_iff.mp taken) about ?_
      rw [about_last.1, about_last.2]
      exact about
    have taken : last.offer ∈ (order.filter fun message => message.About topic partition).map LeaderAndIsr.offer :=
      mem_map_of_mem (List.mem_filter.mpr ⟨perm.mem_iff.mpr sent, decide_eq_true about_last⟩)
    have final := @register_run_deliver host manager topic partition order
    have low : (registerOf replica).fence ≤ last.offer.1 := accepts
    rw [present, map_some, map_some, FencedRegister.run_write low newest taken] at final
    obtain ⟨replica, stays, same⟩ := map_eq_some_iff.mp final
    rw [stays, map_some]
    exact congrArg (fun register => some register.value) same

end Runs

/-- In every run that raises the epoch wherever a broker other than the one announced last comes to
lead a partition, the epochs tell the leaders apart. -/
theorem fences_of_raisesEpoch (server : BrokerServer) (rack : Bytes) (brokers : List (BrokerServer × Bytes))
    (events : List Event) (raises : Meets (step server rack) RaisesEpoch (registered brokers) events) :
    ∀ reached, reached <+: events → Fences (run (step server rack) (registered brokers) reached) := by
  intro reached before
  have tracked : Tracked (run (step server rack) (registered brokers) reached) :=
    (raises.of_prefix before).preserves Tracked (fun announced event raises tracked => tracked.step raises server rack)
      (tracked_registered brokers)
  exact tracked.fences

def twoBrokers : List (BrokerServer × Bytes) := [(⟨0, le_refl 0⟩, []), (⟨1, Int.one_nonneg⟩, [])]

/-- The first replica is taken away, and the second one elected in the next epoch. -/
def raisedElection : List Event :=
  [ .onBecomeController
  , .arrange (.createTopic [116] 1 2)
  , .arrange (.reassignPartitions [([116], 0)] [[kNoBroker, 1]])
  , .incrementEpoch
  , .arrange (.triggerLeaderElection [116] 0) ]

theorem fences_raisedElection :
    (run (step ⟨0, le_refl 0⟩ []) (registered twoBrokers) raisedElection).sent.map
        (fun message => (message.leader, message.leaderEpoch)) = [(1, 2), (0, 1)] ∧
      ∀ reached, reached <+: raisedElection →
        Fences (run (step ⟨0, le_refl 0⟩ []) (registered twoBrokers) reached) := by
  have first : (0 : Int64) ≠ Int64.maxValue := by decide
  have second : (1 : Int64) ≠ Int64.maxValue := by decide
  refine ⟨rfl, fences_of_raisesEpoch ⟨0, le_refl 0⟩ [] twoBrokers raisedElection
    ⟨first, ?_, ?_, second, ?_, trivial⟩⟩
  · intro _ assignments _ assigned _ _ last found
    cases found
  · intro _ _ topic pid entry newReplicas _ assigned some_leader
    obtain ⟨assignment, found, rfl⟩ := map_eq_some_iff.mp assigned
    obtain rfl := mem_singleton.mp (mem_of_find?_eq_some found)
    exact absurd rfl some_leader
  · intro _ _ last found
    refine .inr ?_
    have sent := (about_of_latest found).1
    have only : last = ⟨[116], 0, 0, [0, 1], 1⟩ := mem_singleton.mp sent
    rw [only]
    decide

def reassignedLeader : List Event :=
  [.onBecomeController, .arrange (.createTopic [116] 1 1), .arrange (.reassignPartitions [([116], 0)] [[7]])]

theorem reassignedLeader_not_fences : ¬∀ reached, reached <+: reassignedLeader →
    Fences (run (step ⟨0, le_refl 0⟩ []) (registered []) reached) := by
  intro all
  have rises := (all reassignedLeader (prefix_refl _)).rises [] ⟨[116], 0, 7, [7], 1⟩ [⟨[116], 0, 0, [0], 1⟩] rfl
    ⟨[116], 0, 0, [0], 1⟩ rfl (by decide) ⟨[116], 0, 0, [0], 1⟩ (by simp) ⟨rfl, rfl⟩
  exact absurd rises (by decide)

end TorrentMq.Broker.Controllers
