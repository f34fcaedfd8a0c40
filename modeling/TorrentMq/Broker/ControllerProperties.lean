import TorrentMq.Broker.Controller

/-! What each call of a controller does with the entries of the partitions. -/

set_option autoImplicit false

namespace TorrentMq.Broker.Controllers

open Bytes Partitions List OrderedMap Int32

namespace Brokers

variable {brokers : Brokers} {broker other : BrokerId} {entry : PartitionAssignmentEntry}

theorem mem_keys_of_isAlive (alive : brokers.isAlive broker = true) : broker ∈ brokers.keys := by
  rw [mem_keys_iff_isSome]
  unfold isAlive at alive
  cases found : brokers.find? broker with
  | none =>
    rw [found] at alive
    cases alive
  | some state => rfl

theorem isAlive_modify (value : Bool) :
    isAlive (brokers.modify broker fun state => { state with isAlive := value }) other =
      if other = broker then (brokers.find? broker).isSome && value else brokers.isAlive other := by
  unfold isAlive
  rw [find?_modify]
  split
  next => cases brokers.find? broker <;> rfl
  next => rfl

theorem elect_mem (elected : brokers.elect entry ≠ kNoBroker) :
    brokers.elect entry ∈ entry.isr ∧ brokers.isAlive (brokers.elect entry) = true := by
  unfold elect at elected ⊢
  dsimp only at elected ⊢
  split
  next preferred => exact ⟨preferred.2.2, preferred.2.1⟩
  next refused =>
    rw [if_neg refused] at elected
    cases found : entry.isr.find? fun broker => brokers.isAlive broker with
    | none =>
      rw [found] at elected
      exact absurd rfl elected
    | some first => exact ⟨mem_of_find?_eq_some found, find?_some found⟩

theorem not_alive_of_elect (none_elected : brokers.elect entry = kNoBroker)
    (registered : ∀ broker ∈ brokers.keys, 0 ≤ broker) (member : broker ∈ entry.isr) :
    brokers.isAlive broker = false := by
  rw [Bool.eq_false_iff]
  intro alive
  unfold elect at none_elected
  dsimp only at none_elected
  split at none_elected
  next preferred => exact preferred.1 none_elected
  next =>
    cases found : entry.isr.find? fun broker => brokers.isAlive broker with
    | none => exact absurd alive (List.find?_eq_none.mp found broker member)
    | some first =>
      rw [found, Option.getD_some] at none_elected
      have own := registered first (mem_keys_of_isAlive (find?_some found))
      rw [none_elected] at own
      exact absurd own (by decide)

end Brokers

namespace Controller

variable {controller : Controller} {topic name : Bytes} {partition pid : Int32}
  {entry stored : PartitionAssignmentEntry} {change : PartitionAssignmentEntry → PartitionAssignmentEntry}

theorem findEntry_setParts (parts : Parts) :
    (controller.setParts name parts).findEntry topic pid =
      if topic = name then parts.find? pid else controller.findEntry topic pid := by
  unfold findEntry setParts
  rw [find?_insert]
  split
  next => rfl
  next => rfl

theorem findEntry_modifyEntry :
    (controller.modifyEntry name partition change).findEntry topic pid =
      if topic = name ∧ pid = partition then (controller.findEntry topic pid).map change
      else controller.findEntry topic pid := by
  cases listed : controller.assignments.find? name with
  | none =>
    simp only [modifyEntry, listed]
    split
    next same => simp [findEntry, same.1, listed]
    next => rfl
  | some parts =>
    cases found : parts.find? partition with
    | none =>
      simp only [modifyEntry, listed, found]
      split
      next same => simp [findEntry, same.1, same.2, listed, found]
      next => rfl
    | some entry =>
      simp only [modifyEntry, listed, found]
      rw [findEntry_setParts, find?_insert]
      by_cases same_topic : topic = name
      · by_cases same_partition : pid = partition
        · simp [findEntry, same_topic, same_partition, listed, found]
        · simp [findEntry, same_topic, same_partition, listed]
      · simp [same_topic]

@[simp] theorem brokers_modifyEntry : (controller.modifyEntry name partition change).brokers = controller.brokers := by
  unfold modifyEntry
  split
  next => rfl
  next => split <;> rfl

@[simp] theorem epoch_modifyEntry :
    (controller.modifyEntry name partition change).controllerEpoch = controller.controllerEpoch := by
  unfold modifyEntry
  split
  next => rfl
  next => split <;> rfl

@[simp] theorem undefined_modifyEntry :
    (controller.modifyEntry name partition change).undefined = controller.undefined := by
  unfold modifyEntry
  split
  next => rfl
  next => split <;> rfl

theorem findEntry_mapEntries :
    (controller.mapEntries change).findEntry topic pid = (controller.findEntry topic pid).map change := by
  unfold findEntry mapEntries
  rw [find?_mapValues]
  cases controller.assignments.find? topic with
  | none => rfl
  | some parts => exact find?_mapValues _ pid

theorem isAlive_setAlive (broker other : BrokerId) (value : Bool) :
    (controller.setAlive broker value).brokers.isAlive other =
      if other = broker then (controller.brokers.find? broker).isSome && value
      else controller.brokers.isAlive other :=
  Brokers.isAlive_modify value

theorem find?_storeAssignments {first count : Int32} {assignments : List (List BrokerId)} {parts : Parts}
    (found : (controller.storeAssignments first count assignments parts).find? pid = some entry) :
    (∃ assigned ∈ (assignments.take count.toNatClampNeg).zipIdx, first + ofNat assigned.2 = pid ∧
        entry = controller.newEntry assigned.1) ∨
      parts.find? pid = some entry := by
  rcases find?_foldl_insert (fun assigned : List BrokerId × Nat => first + ofNat assigned.2)
      (fun assigned : List BrokerId × Nat => controller.newEntry assigned.1)
      (assignments.take count.toNatClampNeg).zipIdx parts pid with ⟨assigned, member, same, new⟩ | ⟨-, old⟩
  · exact .inl ⟨assigned, member, same, Option.some.inj (found.symm.trans new)⟩
  · exact .inr (old.symm.trans found)

section Calls

variable {numPartitions newTotalCount : Int32} {replicationFactor : Int16} {order : IterationOrder Int32}

theorem createTopic_cases :
    (∃ assignments, controller.refuseTopic name numPartitions replicationFactor = none ∧
        assignReplicas controller.brokers numPartitions replicationFactor.toInt32 = some assignments ∧
        (controller.createTopic name numPartitions replicationFactor).1 =
          controller.setParts name (controller.storeAssignments 0 numPartitions assignments
            ((controller.assignments.find? name).getD .empty))) ∨
      (controller.createTopic name numPartitions replicationFactor).1 = controller := by
  cases refused : controller.refuseTopic name numPartitions replicationFactor with
  | some error => exact .inr (by simp only [createTopic, refused])
  | none =>
    cases assigned : assignReplicas controller.brokers numPartitions replicationFactor.toInt32 with
    | none => exact .inr (by simp only [createTopic, refused, assigned])
    | some assignments => exact .inl ⟨assignments, rfl, rfl, by simp only [createTopic, refused, assigned]⟩

/-- A call that is to add partitions to a topic, and which partitions the topic has. -/
def AddsPartitions (controller : Controller) (name : Bytes) (newTotalCount : Int32) (parts : Parts) : Prop :=
  controller.isController = true ∧ controller.assignments.find? name = some parts ∧
    ofNat parts.size < newTotalCount

/-- The topic has no partition to take the replication factor from, or no broker is alive
that the new partitions could be assigned to. -/
def LacksReplicas (controller : Controller) (newTotalCount : Int32) (parts : Parts) : Prop :=
  parts.keys = [] ∨ 0 < newTotalCount - ofNat parts.size ∧ controller.brokers.aliveBrokers = []

theorem first_eq_none_iff {parts : Parts} :
    ((order.visit parts.keys).head?.bind fun pid => parts.find? pid) = none ↔ parts.keys = [] := by
  constructor
  · intro no_first
    cases visited : order.visit parts.keys with
    | nil =>
      have perm := order.perm parts.keys
      rw [visited] at perm
      exact perm.nil_eq.symm
    | cons pid others =>
      have listed : pid ∈ parts.keys := (order.perm parts.keys).mem_iff.mp (by simp [visited])
      rw [visited, head?_cons, Option.bind_some] at no_first
      exact absurd listed (find?_eq_none_iff_not_mem_keys.mp no_first)
  · intro no_key
    have visited : order.visit parts.keys = [] := perm_nil.mp (no_key ▸ order.perm parts.keys)
    rw [visited]
    rfl

theorem some_alive_of_throws {replicationFactor : Int32}
    (throws : assignReplicas controller.brokers numPartitions replicationFactor = none) :
    ¬(0 < numPartitions ∧ controller.brokers.aliveBrokers = []) := by
  rintro ⟨-, none_alive⟩
  unfold assignReplicas at throws
  rw [none_alive] at throws
  split at throws <;> cases throws

theorem missing_iff {replicationFactor : Int32} {assignments : List (List BrokerId)}
    (assigned : assignReplicas controller.brokers numPartitions replicationFactor = some assignments) :
    assignments.length < numPartitions.toNatClampNeg ↔ 0 < numPartitions ∧ controller.brokers.aliveBrokers = [] := by
  by_cases some_partition : 0 < numPartitions
  · have positive : 0 < numPartitions.toNatClampNeg := by
      rw [lt_iff_toInt_lt] at some_partition
      change 0 < numPartitions.toInt at some_partition
      rw [toNatClampNeg]
      omega
    rw [length_assignReplicas assigned some_partition]
    split
    next none_alive => exact ⟨fun _ => ⟨some_partition, List.isEmpty_iff.mp none_alive⟩, fun _ => positive⟩
    next some_alive =>
      exact ⟨fun missing => absurd missing (lt_irrefl _), fun missing => absurd (by simp [missing.2]) some_alive⟩
  · have none_needed : numPartitions.toNatClampNeg = 0 := by
      rw [lt_iff_toInt_lt] at some_partition
      change ¬0 < numPartitions.toInt at some_partition
      rw [toNatClampNeg]
      omega
    rw [none_needed]
    exact ⟨fun fewer => absurd fewer (Nat.not_lt_zero _), fun both => absurd both.1 some_partition⟩

theorem createPartitions_cases :
    (∃ parts, controller.AddsPartitions name newTotalCount parts ∧ controller.LacksReplicas newTotalCount parts ∧
        (controller.createPartitions order name newTotalCount).1 = controller.undefine) ∨
      (∃ parts first assignments, controller.AddsPartitions name newTotalCount parts ∧
        ¬controller.LacksReplicas newTotalCount parts ∧
        ((order.visit parts.keys).head?.bind fun pid => parts.find? pid) = some first ∧
        assignReplicas controller.brokers (newTotalCount - ofNat parts.size)
          (ofNat first.replicas.length) = some assignments ∧
        (controller.createPartitions order name newTotalCount).1 =
          controller.setParts name (controller.storeAssignments (ofNat parts.size)
            (newTotalCount - ofNat parts.size) assignments parts)) ∨
      (∀ parts, controller.AddsPartitions name newTotalCount parts → ¬controller.LacksReplicas newTotalCount parts) ∧
        (controller.createPartitions order name newTotalCount).1 = controller := by
  unfold createPartitions
  split
  next unprivileged => exact .inr (.inr ⟨fun parts adds => absurd adds.1 unprivileged, rfl⟩)
  next privileged =>
    cases listed : controller.assignments.find? name with
    | none => exact .inr (.inr ⟨fun parts adds => (nomatch listed.symm.trans adds.2.1), rfl⟩)
    | some parts =>
      have own : ∀ other, controller.AddsPartitions name newTotalCount other → other = parts :=
        fun other adds => Option.some.inj (adds.2.1.symm.trans listed)
      dsimp only
      split
      next fewer =>
        refine .inr (.inr ⟨fun other adds => ?_, rfl⟩)
        rw [own other adds] at adds
        exact absurd fewer (not_le.mpr adds.2.2)
      next more =>
        have adds : controller.AddsPartitions name newTotalCount parts :=
          ⟨by simpa using privileged, listed, not_le.mp more⟩
        cases head : (order.visit parts.keys).head?.bind fun pid => parts.find? pid with
        | none => exact .inl ⟨parts, adds, .inl (first_eq_none_iff.mp head), rfl⟩
        | some first =>
          have some_key : parts.keys ≠ [] := fun no_key => nomatch head.symm.trans (first_eq_none_iff.mpr no_key)
          dsimp only
          cases assigned : assignReplicas controller.brokers (newTotalCount - ofNat parts.size)
              (ofNat first.replicas.length) with
          | none =>
            refine .inr (.inr ⟨fun other adds => ?_, rfl⟩)
            rw [own other adds]
            exact fun lacks => some_alive_of_throws assigned (lacks.resolve_left some_key)
          | some assignments =>
            dsimp only
            split
            next missing => exact .inl ⟨parts, adds, .inr ((missing_iff assigned).mp missing), rfl⟩
            next enough =>
              refine .inr (.inl ⟨parts, first, assignments, adds, ?_, head, assigned, rfl⟩)
              exact fun lacks => enough ((missing_iff assigned).mpr (lacks.resolve_left some_key))

def lastAssignment (assignments : List ((Bytes × Int32) × List BrokerId)) (topic : Bytes) (pid : Int32) :
    Option (List BrokerId) :=
  (assignments.reverse.find? fun assignment => assignment.1 = (topic, pid)).map Prod.snd

theorem findEntry_reassign (assignments : List ((Bytes × Int32) × List BrokerId)) :
    (assignments.foldl
        (fun controller assignment => controller.modifyEntry assignment.1.1 assignment.1.2 (reassign assignment.2))
        controller).findEntry topic pid =
      (controller.findEntry topic pid).map fun entry =>
        match lastAssignment assignments topic pid with
        | some newReplicas => reassign newReplicas entry
        | none => entry := by
  induction assignments using List.reverseRecOn with
  | nil => exact Option.map_id'.symm
  | append_singleton earlier assignment ih =>
    rw [foldl_concat, findEntry_modifyEntry, ih]
    by_cases same : assignment.1 = (topic, pid)
    · have last : lastAssignment (earlier ++ [assignment]) topic pid = some assignment.2 := by
        simp [lastAssignment, same]
      rw [last, if_pos (by simp [same]), Option.map_map]
      refine congrArg (Option.map · (controller.findEntry topic pid)) (funext fun entry => ?_)
      rw [Function.comp_apply]
      split <;> rfl
    · have last : lastAssignment (earlier ++ [assignment]) topic pid = lastAssignment earlier topic pid := by
        simp [lastAssignment, same]
      rw [last, if_neg]
      rintro ⟨rfl, rfl⟩
      exact same rfl

theorem foldl_modifyEntry_keeps {Value : Type} (kept : Controller → Value)
    (keeps : ∀ controller name partition change, kept (modifyEntry controller name partition change) = kept controller)
    (assignments : List ((Bytes × Int32) × List BrokerId)) :
    kept (assignments.foldl
        (fun controller assignment => controller.modifyEntry assignment.1.1 assignment.1.2 (reassign assignment.2))
        controller) = kept controller := by
  induction assignments generalizing controller with
  | nil => rfl
  | cons assignment assignments ih => rw [foldl_cons, ih, keeps]

end Calls

end Controller

end TorrentMq.Broker.Controllers
