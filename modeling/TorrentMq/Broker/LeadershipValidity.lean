import Mathlib.Data.Int.ConditionallyCompleteOrder
import TorrentMq.Broker.ControllerProperties

/-! When the partitions of a controller have the leaders that they can have. -/

set_option autoImplicit false

namespace TorrentMq.Broker.Controllers

open Bytes Partitions Runs List OrderedMap Option Controller

/-- The brokers in sync are distinct replicas, one of them that is alive leads, and none
leads only if none is alive. -/
structure PartitionAssignmentEntry.Valid (brokers : Brokers) (entry : PartitionAssignmentEntry) : Prop where
  distinct : entry.isr.Nodup
  assigned : entry.isr ⊆ entry.replicas
  led : entry.leader ≠ kNoBroker → entry.leader ∈ entry.isr ∧ brokers.isAlive entry.leader = true
  leaderless : entry.leader = kNoBroker → ∀ broker ∈ entry.isr, brokers.isAlive broker = false

structure LeadershipValid (controller : Controller) : Prop where
  defined : controller.undefined = false
  entries : ∀ topic pid entry, controller.findEntry topic pid = some entry → entry.Valid controller.brokers

/-- Replicas without repetition. The first of them is alive, unless it is none and no other is either. -/
structure Reassignable (brokers : Brokers) (newReplicas : List BrokerId) : Prop where
  distinct : newReplicas.Nodup
  led : preferredLeader newReplicas ≠ kNoBroker → brokers.isAlive (preferredLeader newReplicas) = true
  leaderless : preferredLeader newReplicas = kNoBroker → ∀ broker ∈ newReplicas, brokers.isAlive broker = false

/-- Partitions are added only where replicas can be assigned, existing ones are given only
replicas that are led at once, and no broker is back that a partition without a leader has. -/
def KeepsLeadership (controller : Controller) : Operation → Prop
  | .createPartitions _ name newTotalCount =>
    ∀ parts, controller.AddsPartitions name newTotalCount parts → ¬controller.LacksReplicas newTotalCount parts
  | .reassignPartitions partitions newAssignments =>
    controller.isController = true → partitions.length = newAssignments.length →
      ∀ topic pid entry newReplicas, controller.findEntry topic pid = some entry →
        lastAssignment (partitions.zip newAssignments) topic pid = some newReplicas →
        Reassignable controller.brokers newReplicas
  | .handleBrokerRecovery recoveredBroker =>
    controller.isController = true → recoveredBroker ∈ controller.brokers.keys →
      ∀ topic pid entry, controller.findEntry topic pid = some entry → recoveredBroker ∈ entry.replicas →
        entry.leader ≠ kNoBroker
  | _ => True

section Entries

variable {controller : Controller} {brokers : Brokers} {entry : PartitionAssignmentEntry} {replicas : List BrokerId}

theorem preferredLeader_mem (some_leader : preferredLeader replicas ≠ kNoBroker) :
    preferredLeader replicas ∈ replicas := by
  cases replicas with
  | nil => exact absurd rfl some_leader
  | cons first others => exact mem_cons_self

theorem valid_newEntry (placed : Placed controller.brokers replicas) :
    (controller.newEntry replicas).Valid controller.brokers where
  distinct := placed.distinct
  assigned := List.Subset.refl replicas
  led some_leader := ⟨preferredLeader_mem some_leader, placed.alive _ (preferredLeader_mem some_leader)⟩
  leaderless := by
    intro no_leader broker member
    cases replicas with
    | nil => cases member
    | cons first others =>
      obtain rfl : first = kNoBroker := no_leader
      have alive := placed.alive kNoBroker mem_cons_self
      exact absurd (controller.registered kNoBroker (Brokers.mem_keys_of_isAlive alive)) (by decide)

theorem valid_reassign_iff : (reassign replicas entry).Valid brokers ↔ Reassignable brokers replicas := by
  constructor
  · intro valid
    exact ⟨valid.distinct, fun some_leader => (valid.led some_leader).2, valid.leaderless⟩
  · intro reassignable
    exact ⟨reassignable.distinct, List.Subset.refl replicas,
      fun some_leader => ⟨preferredLeader_mem some_leader, reassignable.led some_leader⟩, reassignable.leaderless⟩

theorem valid_lead {elected : PartitionAssignmentEntry} (valid : entry.Valid brokers)
    (some_leader : brokers.elect entry ≠ kNoBroker) (same : elected = controller.lead (brokers.elect entry) entry) :
    elected.Valid brokers := by
  subst same
  exact ⟨valid.distinct, valid.assigned, fun _ => Brokers.elect_mem some_leader,
    fun no_leader => absurd no_leader some_leader⟩

section Marking

variable {broker other : BrokerId}

theorem isAlive_failed :
    (controller.setAlive broker false).brokers.isAlive other = true ↔
      other ≠ broker ∧ controller.brokers.isAlive other = true := by
  rw [isAlive_setAlive]
  split
  next same => simp [same]
  next differs => simp [differs]

theorem isAlive_recovered :
    (controller.setAlive broker true).brokers.isAlive other = true ↔
      other = broker ∧ broker ∈ controller.brokers.keys ∨ controller.brokers.isAlive other = true := by
  rw [isAlive_setAlive, mem_keys_iff_isSome]
  split
  next same =>
    subst same
    rw [Bool.and_true]
    constructor
    · exact fun found => .inl ⟨rfl, found⟩
    · rintro (⟨-, found⟩ | alive)
      · exact found
      · exact mem_keys_iff_isSome.mp (Brokers.mem_keys_of_isAlive alive)
  next differs => simp [differs]

section

variable (valid : entry.Valid controller.brokers)

include valid

theorem valid_failOver :
    ((controller.setAlive broker false).failOver broker entry).Valid (controller.setAlive broker false).brokers := by
  have remain : (entry.isr.filter (· ≠ broker)).Nodup := valid.distinct.filter _
  have among : entry.isr.filter (· ≠ broker) ⊆ entry.replicas :=
    List.Subset.trans (filter_subset_self _) valid.assigned
  unfold failOver
  dsimp only
  split
  next leads =>
    split
    next elected => exact ⟨remain, among, fun _ => Brokers.elect_mem elected, fun none_leads => absurd none_leads elected⟩
    next none_elected =>
      refine ⟨remain, among, fun some_leader => absurd rfl some_leader, fun _ other member => ?_⟩
      exact Brokers.not_alive_of_elect (not_not.mp none_elected) (controller.setAlive broker false).registered member
  next differs =>
    refine ⟨remain, among, fun some_leader => ?_, fun no_leader other member => ?_⟩
    · obtain ⟨in_sync, alive⟩ := valid.led some_leader
      exact ⟨List.mem_filter.mpr ⟨in_sync, by simpa using differs⟩, isAlive_failed.mpr ⟨differs, alive⟩⟩
    · rw [Bool.eq_false_iff]
      intro alive
      exact nomatch (isAlive_failed.mp alive).2.symm.trans
        (valid.leaderless no_leader other (mem_of_mem_filter member))

theorem valid_unaffected
    (unaffected : ¬(entry.leader = broker ∨ broker ∈ entry.isr)) :
    entry.Valid (controller.setAlive broker false).brokers := by
  obtain ⟨differs, apart⟩ := not_or.mp unaffected
  refine ⟨valid.distinct, valid.assigned, fun some_leader => ?_, fun no_leader other member => ?_⟩
  · obtain ⟨in_sync, alive⟩ := valid.led some_leader
    exact ⟨in_sync, isAlive_failed.mpr ⟨differs, alive⟩⟩
  · rw [Bool.eq_false_iff]
    intro alive
    exact nomatch (isAlive_failed.mp alive).2.symm.trans (valid.leaderless no_leader other member)

theorem valid_restore_iff :
    (restore broker entry).Valid (controller.setAlive broker true).brokers ↔
      (broker ∈ controller.brokers.keys → broker ∈ entry.replicas → entry.leader ≠ kNoBroker) := by
  have in_sync : ∀ other, other ∈ (restore broker entry).isr ↔
      other ∈ entry.isr ∨ other = broker ∧ broker ∈ entry.replicas := by
    intro other
    unfold restore
    split
    next added => simp [added.1]
    next kept =>
      constructor
      · exact .inl
      · rintro (member | ⟨rfl, replica⟩)
        · exact member
        · exact not_not.mp fun apart => kept ⟨replica, apart⟩
  have same_leader : (restore broker entry).leader = entry.leader := by
    unfold restore
    split <;> rfl
  have same_replicas : (restore broker entry).replicas = entry.replicas := by
    unfold restore
    split <;> rfl
  constructor
  · intro restored known replica no_leader
    have member := (in_sync broker).mpr (.inr ⟨rfl, replica⟩)
    have dead := restored.leaderless (same_leader.trans no_leader) broker member
    rw [isAlive_recovered.mpr (.inl ⟨rfl, known⟩)] at dead
    cases dead
  · intro led
    refine ⟨?_, ?_, ?_, ?_⟩
    · unfold restore
      split
      next added =>
        have longer := valid.distinct.concat added.2
        rwa [concat_eq_append] at longer
      next => exact valid.distinct
    · intro other member
      rw [same_replicas]
      rcases (in_sync other).mp member with before | ⟨rfl, replica⟩
      · exact valid.assigned before
      · exact replica
    · rw [same_leader]
      intro some_leader
      obtain ⟨member, alive⟩ := valid.led some_leader
      exact ⟨(in_sync _).mpr (.inl member), isAlive_recovered.mpr (.inr alive)⟩
    · rw [same_leader]
      intro no_leader other member
      rw [Bool.eq_false_iff]
      intro alive
      have replica : other ∈ entry.replicas := by
        rcases (in_sync other).mp member with before | ⟨rfl, replica⟩
        · exact valid.assigned before
        · exact replica
      rcases isAlive_recovered.mp alive with ⟨rfl, known⟩ | before
      · exact led known replica no_leader
      · rcases (in_sync other).mp member with in_sync | ⟨rfl, -⟩
        · exact nomatch before.symm.trans (valid.leaderless no_leader other in_sync)
        · exact led (Brokers.mem_keys_of_isAlive before) replica no_leader

end

end Marking

end Entries

section Operations

variable {controller : Controller}

theorem LeadershipValid.store {name : Bytes} {first count : Int32} {assignments : List (List BrokerId)}
    {parts : Parts} (valid : LeadershipValid controller)
    (placed : ∀ replicas ∈ assignments, Placed controller.brokers replicas)
    (old : ∀ pid entry, parts.find? pid = some entry → controller.findEntry name pid = some entry) :
    LeadershipValid (controller.setParts name (controller.storeAssignments first count assignments parts)) where
  defined := valid.defined
  entries := by
    intro topic pid entry found
    rw [findEntry_setParts] at found
    split at found
    next same =>
      rcases find?_storeAssignments found with ⟨assigned, member, -, rfl⟩ | before
      · obtain ⟨-, -, at_index⟩ := mem_zipIdx member
        refine valid_newEntry (placed assigned.1 ?_)
        rw [at_index]
        exact mem_of_mem_take (getElem_mem _)
      · exact valid.entries name pid entry (old pid entry before)
    next => exact valid.entries topic pid entry found

theorem leadershipValid_iff_of_map {after : Controller}
    {change : Bytes → Int32 → PartitionAssignmentEntry → PartitionAssignmentEntry}
    (defined : after.undefined = false)
    (changed : ∀ topic pid, after.findEntry topic pid = (controller.findEntry topic pid).map (change topic pid)) :
    LeadershipValid after ↔ ∀ topic pid entry, controller.findEntry topic pid = some entry →
      (change topic pid entry).Valid after.brokers := by
  constructor
  · intro valid topic pid entry found
    exact valid.entries topic pid _ (by rw [changed, found, map_some])
  · refine fun all => ⟨defined, fun topic pid entry found => ?_⟩
    rw [changed] at found
    obtain ⟨stored, present, rfl⟩ := map_eq_some_iff.mp found
    exact all topic pid stored present

theorem leadershipValid_mapEntries_iff {broker : BrokerId} {isAlive : Bool}
    {change : PartitionAssignmentEntry → PartitionAssignmentEntry} (valid : LeadershipValid controller) :
    LeadershipValid ((controller.setAlive broker isAlive).mapEntries change) ↔
      ∀ topic pid entry, controller.findEntry topic pid = some entry →
        (change entry).Valid (controller.setAlive broker isAlive).brokers :=
  @leadershipValid_iff_of_map controller _ (fun _ _ => change) valid.defined fun _ _ => findEntry_mapEntries

section

variable (valid : LeadershipValid controller)
include valid

theorem LeadershipValid.createTopic (name : Bytes) (numPartitions : Int32)
    (replicationFactor : Int16) : LeadershipValid (controller.createTopic name numPartitions replicationFactor).1 := by
  rcases @createTopic_cases controller name numPartitions replicationFactor with
    ⟨assignments, -, assigned, result⟩ | result
  · rw [result]
    refine valid.store (fun replicas listed => placed_assignReplicas assigned listed) ?_
    intro pid entry found
    unfold findEntry
    cases listed : controller.assignments.find? name with
    | none =>
      rw [listed] at found
      cases found
    | some parts =>
      rw [listed] at found
      exact found
  · rw [result]
    exact valid

theorem LeadershipValid.createPartitions_iff {order : IterationOrder Int32}
    {name : Bytes} {newTotalCount : Int32} :
    LeadershipValid (controller.createPartitions order name newTotalCount).1 ↔
      ∀ parts, controller.AddsPartitions name newTotalCount parts →
        ¬controller.LacksReplicas newTotalCount parts := by
  rcases @createPartitions_cases controller name newTotalCount order with
    ⟨parts, adds, lacks, result⟩ | ⟨parts, first, assignments, adds, enough, -, assigned, result⟩ |
    ⟨enough, result⟩
  · rw [result]
    exact ⟨fun after => (nomatch after.defined), fun all => absurd lacks (all parts adds)⟩
  · rw [result]
    refine ⟨fun _ other also => ?_, fun _ => ?_⟩
    · rw [Option.some.inj (also.2.1.symm.trans adds.2.1)]
      exact enough
    · refine valid.store (fun replicas listed => placed_assignReplicas assigned listed) fun pid entry found => ?_
      unfold findEntry
      rw [adds.2.1]
      exact found
  · rw [result]
    exact ⟨fun _ => enough, fun _ => valid⟩

theorem LeadershipValid.reassignPartitions_iff
    {partitions : List (Bytes × Int32)} {newAssignments : List (List BrokerId)} :
    LeadershipValid (controller.reassignPartitions partitions newAssignments).1 ↔
      (controller.isController = true → partitions.length = newAssignments.length →
        ∀ topic pid entry newReplicas, controller.findEntry topic pid = some entry →
          lastAssignment (partitions.zip newAssignments) topic pid = some newReplicas →
          Reassignable controller.brokers newReplicas) := by
  unfold reassignPartitions
  split
  next unprivileged => exact ⟨fun _ privileged => absurd privileged unprivileged, fun _ => valid⟩
  next privileged =>
    split
    next mismatch => exact ⟨fun _ _ same => absurd same mismatch, fun _ => valid⟩
    next same =>
      have brokers := @foldl_modifyEntry_keeps controller Brokers brokers
        (fun _ _ _ _ => brokers_modifyEntry) (partitions.zip newAssignments)
      have defined := @foldl_modifyEntry_keeps controller Bool undefined
        (fun _ _ _ _ => undefined_modifyEntry) (partitions.zip newAssignments)
      rw [leadershipValid_iff_of_map (defined.trans valid.defined) fun _ _ => findEntry_reassign _, brokers]
      constructor
      · intro all _ _ topic pid entry newReplicas found given
        have changed := all topic pid entry found
        rw [given] at changed
        exact valid_reassign_iff.mp changed
      · intro all topic pid entry found
        cases given : lastAssignment (partitions.zip newAssignments) topic pid with
        | none => exact valid.entries topic pid entry found
        | some newReplicas =>
          exact valid_reassign_iff.mpr
            (all (by simpa using privileged) (not_not.mp same) topic pid entry newReplicas found given)

theorem LeadershipValid.triggerLeaderElection (topic : Bytes)
    (partition : Int32) : LeadershipValid (controller.triggerLeaderElection topic partition).1 := by
  unfold Controller.triggerLeaderElection
  split
  next => exact valid
  next =>
    dsimp only
    split
    next => exact valid
    next elected =>
      refine ⟨by simpa using valid.defined, fun name pid entry found => ?_⟩
      rw [Controller.findEntry_modifyEntry] at found
      rw [Controller.brokers_modifyEntry]
      split at found
      next same =>
        obtain ⟨rfl, rfl⟩ := same
        obtain ⟨stored, present, rfl⟩ := map_eq_some_iff.mp found
        unfold Controller.electPreferredLeader at elected ⊢
        rw [present] at elected ⊢
        exact valid_lead (valid.entries name pid stored present) elected rfl
      next => exact valid.entries name pid entry found

theorem LeadershipValid.handleBrokerFailure (failedBroker : BrokerId) :
    LeadershipValid (controller.handleBrokerFailure failedBroker).1 := by
  unfold Controller.handleBrokerFailure
  split
  next => exact valid
  next =>
    refine (leadershipValid_mapEntries_iff valid).mpr fun topic pid entry found => ?_
    split
    next => exact valid_failOver (valid.entries topic pid entry found)
    next unaffected => exact valid_unaffected (valid.entries topic pid entry found) unaffected

theorem LeadershipValid.handleBrokerRecovery_iff {recoveredBroker : BrokerId} :
    LeadershipValid (controller.handleBrokerRecovery recoveredBroker).1 ↔
      (controller.isController = true → recoveredBroker ∈ controller.brokers.keys →
        ∀ topic pid entry, controller.findEntry topic pid = some entry → recoveredBroker ∈ entry.replicas →
          entry.leader ≠ kNoBroker) := by
  unfold handleBrokerRecovery
  split
  next unprivileged => exact ⟨fun _ privileged => absurd privileged unprivileged, fun _ => valid⟩
  next privileged =>
    refine (leadershipValid_mapEntries_iff valid).trans ?_
    constructor
    · intro all _ known topic pid entry found
      exact (valid_restore_iff (valid.entries topic pid entry found)).mp (all topic pid entry found) known
    · intro all topic pid entry found
      exact (valid_restore_iff (valid.entries topic pid entry found)).mpr fun known =>
        all (by simpa using privileged) known topic pid entry found

theorem leadershipValid_arrange_iff (operation : Operation) :
    LeadershipValid (arrange controller operation) ↔ KeepsLeadership controller operation := by
  unfold arrange
  rw [if_neg (by simp [valid.defined])]
  cases operation with
  | createTopic name numPartitions replicationFactor =>
    exact iff_of_true (valid.createTopic name numPartitions replicationFactor) trivial
  | createPartitions order name newTotalCount => exact valid.createPartitions_iff
  | reassignPartitions partitions newAssignments => exact valid.reassignPartitions_iff
  | triggerLeaderElection topic partition => exact iff_of_true (valid.triggerLeaderElection topic partition) trivial
  | handleBrokerFailure failedBroker => exact iff_of_true (valid.handleBrokerFailure failedBroker) trivial
  | handleBrokerRecovery recoveredBroker => exact valid.handleBrokerRecovery_iff

end

end Operations

def elected (brokers : List (BrokerServer × Bytes)) (server : BrokerServer) (rack : Bytes) : Controller :=
  (registerAll brokers).onBecomeController server rack

section

variable (brokers : List (BrokerServer × Bytes))

theorem assignments_registerAll :
    (registerAll brokers).assignments = .empty ∧ (registerAll brokers).undefined = false := by
  induction brokers using List.reverseRecOn with
  | nil => exact ⟨rfl, rfl⟩
  | append_singleton earlier broker ih =>
    rw [registerAll, foldl_concat]
    exact ih

theorem leadershipValid_elected (server : BrokerServer)
    (rack : Bytes) : LeadershipValid (elected brokers server rack) := by
  obtain ⟨no_topics, defined⟩ := assignments_registerAll brokers
  refine ⟨defined, fun topic pid entry found => ?_⟩
  change ((registerAll brokers).assignments.find? topic).bind _ = some entry at found
  rw [no_topics] at found
  cases found

end

/-- Every partition has a valid leader all through a run exactly when partitions are added only
where replicas can be assigned, existing ones are given only replicas that are led at once, and
no broker is back that a partition without a leader has. -/
theorem leadershipValid_iff_keeps (brokers : List (BrokerServer × Bytes)) (server : BrokerServer)
    (rack : Bytes) (operations : List Operation) :
    (∀ reached, reached <+: operations → LeadershipValid (run arrange (elected brokers server rack) reached)) ↔
      Meets arrange KeepsLeadership (elected brokers server rack) operations :=
  (meets_iff_prefixes LeadershipValid (fun _ operation valid => leadershipValid_arrange_iff valid operation)
    (leadershipValid_elected brokers server rack) operations).symm

def recoveredAlone : List Operation :=
  [.createTopic [116] 1 1, .handleBrokerFailure 0, .handleBrokerRecovery 0]

theorem recoveredAlone_not_valid : ¬∀ reached, reached <+: recoveredAlone →
    LeadershipValid (run arrange (elected [] ⟨0, le_refl 0⟩ []) reached) := by
  intro all
  have valid := (all recoveredAlone (prefix_refl _)).entries [116] 0 _ rfl
  exact absurd (valid.leaderless rfl 0 (by decide)) (by decide)

end TorrentMq.Broker.Controllers
