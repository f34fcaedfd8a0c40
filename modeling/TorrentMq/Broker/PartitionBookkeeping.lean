import TorrentMq.Arithmetic.Counters
import TorrentMq.Broker.PartitionManager

/-! Runs of the partition manager after which its counters and leaders are right. -/

set_option autoImplicit false

namespace TorrentMq.Broker.Partitions

open Bytes Runs OrderedMap Counters

namespace PartitionManager

variable {server : BrokerServer} {manager : PartitionManager} {key topic : Bytes} {partition : Int32}
  {replica changed : PartitionReplica} {count : Int32}

/-- The counters tell how many replicas there are, and how many of them are led here. -/
structure Books (server : BrokerServer) (manager : PartitionManager) : Prop where
  total : manager.totalPartitionCount.toInt = manager.partitions.size
  leaders : manager.leaderPartitionCount.toInt = manager.partitions.count (·.isLeaderLocal)
  leadsHere : ∀ key, ∀ replica ∈ manager.partitions.find? key, replica.isActive = true →
    (replica.isLeaderLocal = true ↔ replica.leader = server.brokerId)

def Fits (manager : PartitionManager) : Prop := (manager.partitions.size : Int) ≤ kMaxPartitionsPerBroker.toInt

/-- A call that brings no replica back, that can look at what it removes, and that does not make the broker
succeed itself. -/
def Keeps (server : BrokerServer) (manager : PartitionManager) : Event → Prop
  | .createPartition topic partition opening =>
    ∀ replica ∈ manager.partitions.find? (makePartitionKey topic partition),
      replica.isActive = true ∨ topic.isEmpty = true ∨ partition < 0 ∨
        kMaxPartitionsPerBroker ≤ manager.totalPartitionCount ∨ ∃ error, opening = .error error
  | .deletePartition topic partition statusKnown =>
    makePartitionKey topic partition ∈ manager.partitions.keys → statusKnown = true
  | .stepDownLeader topic partition =>
    ∀ replica ∈ manager.partitions.find? (makePartitionKey topic partition),
      replica.isActive = true → replica.isLeaderLocal = true → server.brokerId ∈ replica.isr →
        server.brokerId ∈ replica.offlineReplicas
  | .handleStopReplica topic partition deleteData statusKnown =>
    deleteData = true → makePartitionKey topic partition ∈ manager.partitions.keys → statusKnown = true
  | .becomeLeader _ _ => True
  | .handleLeaderAndIsr _ _ _ _ _ => True

theorem Books.initial : Books server {} where
  total := rfl
  leaders := rfl
  leadsHere := by
    intro key replica found
    cases found

theorem Fits.initial : Fits {} := show (0 : Int) ≤ 100000 by decide

section

variable (books : Books server manager)

include books

theorem Books.few (fits : manager.Fits) :
    manager.leaderPartitionCount.toInt ≤ 100000 ∧ manager.totalPartitionCount.toInt ≤ 100000 := by
  have fewer : (manager.partitions.count (·.isLeaderLocal) : Int) ≤ manager.partitions.size :=
    Int.ofNat_le.mpr count_le_size
  rw [books.leaders, books.total]
  exact ⟨fewer.trans fits, fits⟩

theorem Books.leader_counted (found : manager.partitions.find? key = some replica)
    (led : replica.isLeaderLocal = true) : 0 < manager.leaderPartitionCount.toInt := by
  rw [books.leaders, ← @count_erase _ _ _ manager.partitions key, countAt_of_some found, if_pos led]
  omega

theorem Books.replica_counted (found : manager.partitions.find? key = some replica) :
    0 < manager.totalPartitionCount.toInt := by
  rw [books.total, ← @size_erase _ _ _ manager.partitions key, found]
  exact Int.natCast_pos.mpr (Nat.succ_pos _)

end

theorem selectNewLeader_eq_self_iff {isr offline : List BrokerId} {localBrokerId : BrokerId} (valid : 0 ≤ localBrokerId) :
    selectNewLeader isr offline localBrokerId = localBrokerId ↔ localBrokerId ∈ isr ∧ localBrokerId ∉ offline := by
  unfold selectNewLeader
  split
  next online => exact iff_of_true rfl online
  next absent =>
    refine iff_of_false (fun same => ?_) absent
    cases first : isr.find? fun broker => broker ∉ offline with
    | none =>
      rw [first] at same
      rw [← same] at valid
      exact absurd valid (by decide)
    | some broker =>
      rw [first] at same
      obtain rfl : broker = localBrokerId := same
      exact absent ⟨List.mem_of_find?_eq_some first, by simpa using List.find?_some first⟩

theorem adjustLeaderCount_spec {was now : Bool} (room : count.toInt ≤ 100000) (counted : was = true → 0 < count.toInt) :
    (adjustLeaderCount was now count).toInt + (if was then 1 else 0) = count.toInt + if now then 1 else 0 := by
  cases was with
  | true =>
    cases now with
    | true => rfl
    | false =>
      have fewer := toInt_pred_of_pos (counted rfl)
      change (count - 1).toInt + 1 = count.toInt + 0
      omega
  | false =>
    cases now with
    | true =>
      have more := @toInt_succ_of_lt count (by omega)
      change (count + 1).toInt + 0 = count.toInt + 1
      omega
    | false => rfl

theorem Books.replace_iff (books : Books server manager) (found : manager.partitions.find? key = some replica)
    (counted : count.toInt + (if replica.isLeaderLocal then 1 else 0) =
      manager.leaderPartitionCount.toInt + if changed.isLeaderLocal then 1 else 0) :
    Books server { manager.setReplica key changed with leaderPartitionCount := count } ↔
      (changed.isActive = true → (changed.isLeaderLocal = true ↔ changed.leader = server.brokerId)) := by
  constructor
  · intro after
    exact after.leadsHere key changed ((find?_insert key).trans (if_pos rfl))
  · intro here
    have size : (manager.partitions.insert key changed).size = manager.partitions.size := by
      have inserted := @size_insert _ _ _ manager.partitions key changed
      rw [found] at inserted
      exact Nat.add_right_cancel inserted
    refine ⟨?_, ?_, fun other stored present => ?_⟩
    · exact books.total.trans (congrArg Int.ofNat size).symm
    · have inserted := @count_insert _ _ _ manager.partitions key changed (·.isLeaderLocal)
      rw [countAt_of_some found] at inserted
      have leaders := books.leaders
      change count.toInt = (manager.partitions.insert key changed).count (·.isLeaderLocal)
      split at counted
      next led =>
        rw [if_pos led] at inserted
        split at counted
        next now => rw [if_pos now] at inserted; omega
        next now => rw [if_neg now] at inserted; omega
      next led =>
        rw [if_neg led] at inserted
        split at counted
        next now => rw [if_pos now] at inserted; omega
        next now => rw [if_neg now] at inserted; omega
    · have present := (find?_insert other).symm.trans present
      split at present
      next => rw [← Option.some.inj present]; exact here
      next => exact books.leadsHere other stored present

theorem size_setReplica (found : manager.partitions.find? key = some replica) :
    (manager.partitions.insert key changed).size = manager.partitions.size := by
  have inserted := @size_insert _ _ _ manager.partitions key changed
  rw [found] at inserted
  exact Nat.add_right_cancel inserted

/-- A call after which there are as many replicas has kept within the bound. -/
def Within (manager after : PartitionManager) : Prop := manager.Fits → after.Fits

theorem within_of_same : Within manager manager := fun fits => fits

theorem within_setReplica (found : manager.partitions.find? key = some replica) :
    Within manager { manager.setReplica key changed with leaderPartitionCount := count } := by
  intro fits
  exact (Int.ofNat_le.mpr (size_setReplica found).le).trans fits

/-- What is exactly asked of a call for the books to stay right. -/
def Exact (server : BrokerServer) (manager after : PartitionManager) (condition : Prop) : Prop :=
  Books server manager → manager.Fits → (Books server after ↔ condition) ∧ Within manager after

theorem exact_of_same {condition : Prop} (met : condition) : Exact server manager manager condition :=
  fun books _ => ⟨iff_of_true books met, within_of_same⟩

section

variable (topic : Bytes) (partition : Int32)

theorem exact_becomeLeader :
    Exact server manager (manager.becomeLeader server topic partition).1 True := by
  unfold becomeLeader
  dsimp only
  cases found : manager.partitions.find? (makePartitionKey topic partition) with
  | none => exact exact_of_same trivial
  | some replica =>
    dsimp only
    split
    next => exact exact_of_same trivial
    next follows =>
      intro books fits
      have room := (books.few fits).1
      refine ⟨iff_of_true ((books.replace_iff found ?_).mpr fun _ => ⟨fun _ => rfl, fun _ => rfl⟩) trivial,
        within_setReplica found⟩
      rw [if_neg follows]
      have more := @toInt_succ_of_lt manager.leaderPartitionCount (by omega)
      change (manager.leaderPartitionCount + 1).toInt + 0 = manager.leaderPartitionCount.toInt + 1
      omega

theorem exact_stepDownLeader :
    Exact server manager (manager.stepDownLeader server topic partition).1
      (Keeps server manager (.stepDownLeader topic partition)) := by
  unfold stepDownLeader
  dsimp only
  cases found : manager.partitions.find? (makePartitionKey topic partition) with
  | none =>
    refine exact_of_same fun replica present => ?_
    cases found.symm.trans present
  | some replica =>
    dsimp only
    split
    next led =>
      intro books fits
      refine ⟨(books.replace_iff found ?_).trans ?_, within_setReplica found⟩
      · rw [if_pos led]
        have counted := toInt_pred_of_pos (books.leader_counted found led)
        change (manager.leaderPartitionCount - 1).toInt + 1 = manager.leaderPartitionCount.toInt + 0
        omega
      · rw [Keeps, found]
        have successor : (stepDown server replica).leader = server.brokerId ↔
            server.brokerId ∈ replica.isr ∧ server.brokerId ∉ replica.offlineReplicas :=
          selectNewLeader_eq_self_iff server.valid
        constructor
        · rintro here _ ⟨⟩ active - listed
          by_contra online
          exact absurd ((here active).mpr (successor.mpr ⟨listed, online⟩)) nofun
        · intro kept active
          refine iff_of_false nofun fun same => ?_
          obtain ⟨listed, online⟩ := successor.mp same
          exact online (kept replica rfl active led listed)
    next follows =>
      refine exact_of_same fun other present _ led => ?_
      obtain rfl := Option.some.inj (found.symm.trans present)
      exact absurd led follows

theorem exact_handleLeaderAndIsr (newLeader : BrokerId)
    (newIsr : List BrokerId) (leaderEpoch : Int64) :
    Exact server manager (manager.handleLeaderAndIsr server topic partition newLeader newIsr leaderEpoch).1 True := by
  unfold handleLeaderAndIsr
  dsimp only
  cases found : manager.partitions.find? (makePartitionKey topic partition) with
  | none => exact exact_of_same trivial
  | some replica =>
    dsimp only
    split
    next => exact exact_of_same trivial
    next =>
      intro books fits
      refine ⟨iff_of_true ((books.replace_iff found ?_).mpr fun _ => ?_) trivial, within_setReplica found⟩
      · exact adjustLeaderCount_spec ((books.few fits).1) (books.leader_counted found)
      · exact decide_eq_true_iff

theorem exact_deletePartition (statusKnown : Bool) :
    Exact server manager (manager.deletePartition topic partition statusKnown).1
      (Keeps server manager (.deletePartition topic partition statusKnown)) := by
  unfold deletePartition
  dsimp only
  cases found : manager.partitions.find? (makePartitionKey topic partition) with
  | none =>
    refine exact_of_same fun present => ?_
    exact absurd present (find?_eq_none_iff_not_mem_keys.mp found)
  | some replica =>
    intro books fits
    have present : makePartitionKey topic partition ∈ manager.partitions.keys :=
      mem_keys_iff_isSome.mpr (by rw [found]; rfl)
    have size := @size_erase _ _ _ manager.partitions (makePartitionKey topic partition)
    rw [found] at size
    change _ + 1 = _ at size
    have total := books.total
    have counted := books.replica_counted found
    dsimp only
    split
    next known =>
      refine ⟨iff_of_true ?_ fun _ => known, fun fits => ?_⟩
      · refine ⟨?_, ?_, fun other stored listed => ?_⟩
        · have fewer := toInt_pred_of_pos counted
          change (manager.totalPartitionCount - 1).toInt = ((manager.partitions.erase _).size : Int)
          omega
        · have leaders := books.leaders
          have erased := @count_erase _ _ _ manager.partitions (makePartitionKey topic partition)
            (·.isLeaderLocal)
          rw [countAt_of_some found] at erased
          change (if replica.isLeaderLocal then manager.leaderPartitionCount - 1
            else manager.leaderPartitionCount).toInt = ((manager.partitions.erase _).count (·.isLeaderLocal) : Int)
          split
          next led =>
            have fewer := toInt_pred_of_pos (books.leader_counted found led)
            rw [if_pos led] at erased
            omega
          next led =>
            rw [if_neg led] at erased
            omega
        · have listed := (find?_erase other).symm.trans listed
          split at listed
          next => cases listed
          next => exact books.leadsHere other stored listed
      · change ((manager.partitions.erase _).size : Int) ≤ _
        have bound : (manager.partitions.size : Int) ≤ _ := fits
        omega
    next unknown =>
      refine ⟨iff_of_false (fun after => ?_) fun kept => unknown (kept present), fun fits => ?_⟩
      · have wrong : manager.totalPartitionCount.toInt = ((manager.partitions.erase _).size : Int) := after.total
        omega
      · change ((manager.partitions.erase _).size : Int) ≤ _
        have bound : (manager.partitions.size : Int) ≤ _ := fits
        omega

theorem exact_handleStopReplica (deleteData statusKnown : Bool) :
    Exact server manager (manager.handleStopReplica topic partition deleteData statusKnown).1
      (Keeps server manager (.handleStopReplica topic partition deleteData statusKnown)) := by
  unfold handleStopReplica
  split
  next deletes =>
    intro books fits
    obtain ⟨exactly, within⟩ := exact_deletePartition topic partition statusKnown books fits
    exact ⟨exactly.trans ⟨fun kept _ => kept, fun kept => kept deletes⟩, within⟩
  next keeps =>
    dsimp only
    cases found : manager.partitions.find? (makePartitionKey topic partition) with
    | none => exact exact_of_same fun deletes => absurd deletes keeps
    | some replica =>
      intro books fits
      refine ⟨iff_of_true ((books.replace_iff found ?_).mpr nofun) fun deletes => absurd deletes keeps,
        within_setReplica found⟩
      dsimp only [setReplica]
      split
      next led =>
        have fewer := toInt_pred_of_pos (books.leader_counted found led)
        change (manager.leaderPartitionCount - 1).toInt + 1 = manager.leaderPartitionCount.toInt + 0
        omega
      next => rfl

end

theorem Books.create_iff (books : Books server manager) (room : manager.totalPartitionCount < kMaxPartitionsPerBroker) :
    Books server
        { manager.setReplica key { topic := topic, partitionId := partition, isActive := true } with
          totalPartitionCount := manager.totalPartitionCount + 1 } ↔
      manager.partitions.find? key = none := by
  have below : manager.totalPartitionCount.toInt < 100000 := Int32.lt_iff_toInt_lt.mp room
  have more := @toInt_succ_of_lt manager.totalPartitionCount (by omega)
  have total := books.total
  constructor
  · intro after
    cases found : manager.partitions.find? key with
    | none => rfl
    | some replica =>
      have wrong : (manager.totalPartitionCount + 1).toInt = ((manager.partitions.insert key _).size : Int) := after.total
      rw [size_setReplica found] at wrong
      omega
  · intro absent
    have size := @size_insert _ _ _ manager.partitions key
      { topic := topic, partitionId := partition, isActive := true }
    rw [absent] at size
    change _ + 0 = _ at size
    refine ⟨?_, ?_, fun other stored present => ?_⟩
    · change (manager.totalPartitionCount + 1).toInt = ((manager.partitions.insert key _).size : Int)
      omega
    · have inserted := @count_insert _ _ _ manager.partitions key
        { topic := topic, partitionId := partition, isActive := true } (·.isLeaderLocal)
      rw [countAt_of_none absent] at inserted
      exact books.leaders.trans (congrArg Int.ofNat inserted.symm)
    · have present := (find?_insert other).symm.trans present
      split at present
      next =>
        rw [← Option.some.inj present]
        refine fun _ => iff_of_false nofun fun (same : kNoBroker = server.brokerId) => ?_
        exact absurd (same ▸ server.valid) (by decide)
      next => exact books.leadsHere other stored present

theorem within_create {created : PartitionReplica} (room : manager.totalPartitionCount < kMaxPartitionsPerBroker)
    (books : Books server manager) :
    Within manager { manager.setReplica key created with totalPartitionCount := manager.totalPartitionCount + 1 } := by
  intro _
  have below : manager.totalPartitionCount.toInt < 100000 := Int32.lt_iff_toInt_lt.mp room
  have size : (manager.partitions.insert key created).size ≤ manager.partitions.size + 1 := size_insert_le
  have total := books.total
  change ((manager.partitions.insert key created).size : Int) ≤ 100000
  omega

theorem exact_createPartition (topic : Bytes) (partition : Int32) (opening : Except PartitionError Unit) :
    Exact server manager (manager.createPartition topic partition opening).1
      (Keeps server manager (.createPartition topic partition opening)) := by
  unfold createPartition
  split
  next unnamed => exact exact_of_same fun _ _ => .inr (.inl unnamed)
  next named =>
    split
    next negative => exact exact_of_same fun _ _ => .inr (.inr (.inl negative))
    next numbered =>
      split
      next full => exact exact_of_same fun _ _ => .inr (.inr (.inr (.inl full)))
      next room =>
        dsimp only
        split
        next active =>
          refine exact_of_same fun replica present => .inl ?_
          rwa [Option.mem_def.mp present] at active
        next inactive =>
          cases opening with
          | error error => exact exact_of_same fun _ _ => .inr (.inr (.inr (.inr ⟨error, rfl⟩)))
          | ok opened =>
            intro books fits
            refine ⟨(books.create_iff (Int32.not_le.mp room)).trans ?_, within_create (Int32.not_le.mp room) books⟩
            constructor
            · intro absent replica present
              cases absent.symm.trans present
            · intro kept
              cases found : manager.partitions.find? (makePartitionKey topic partition) with
              | none => rfl
              | some replica =>
                rcases kept replica found with active | unnamed | negative | full | ⟨error, ⟨⟩⟩
                · rw [found] at inactive
                  exact absurd active inactive
                · exact absurd unnamed named
                · exact absurd negative numbered
                · exact absurd full room

theorem exact_step (server : BrokerServer) (manager : PartitionManager) (event : Event) :
    Exact server manager (step server manager event) (Keeps server manager event) := by
  cases event with
  | createPartition topic partition opening => exact exact_createPartition topic partition opening
  | deletePartition topic partition statusKnown => exact exact_deletePartition topic partition statusKnown
  | becomeLeader topic partition => exact exact_becomeLeader topic partition
  | stepDownLeader topic partition => exact exact_stepDownLeader topic partition
  | handleLeaderAndIsr topic partition newLeader newIsr leaderEpoch =>
    exact exact_handleLeaderAndIsr topic partition newLeader newIsr leaderEpoch
  | handleStopReplica topic partition deleteData statusKnown =>
    exact exact_handleStopReplica topic partition deleteData statusKnown

/-- The books are right all through those runs whose calls keep them. -/
theorem books_iff_keeps (server : BrokerServer) (events : List Event) :
    (∀ reached, reached <+: events → Books server (run (step server) {} reached)) ↔
      Meets (step server) (Keeps server) {} events := by
  refine (meets_iff_prefixes_of Fits (Books server) ?_ ?_ ⟨.initial, .initial⟩ events).symm
  · exact fun manager event fits books => (exact_step server manager event books fits).1
  · exact fun manager event fits books _ => (exact_step server manager event books fits).2 fits

/-- A stopped replica that is created again counts twice, and who steps down while in sync succeeds itself. -/
theorem recreated_not_books :
    (¬Books ⟨0, by decide⟩ (run (step ⟨0, by decide⟩) {}
      [.createPartition [116] 0 (.ok ()), .handleStopReplica [116] 0 false true,
        .createPartition [116] 0 (.ok ())])) ∧
    ¬Books ⟨0, by decide⟩ (run (step ⟨0, by decide⟩) {}
      [.createPartition [116] 0 (.ok ()), .becomeLeader [116] 0, .stepDownLeader [116] 0]) := by
  constructor
  · intro books
    exact absurd books.total (by decide)
  · intro books
    have here := books.leadsHere (makePartitionKey [116] 0) _ rfl rfl
    exact absurd (here.mpr rfl) (by decide)

end PartitionManager

end TorrentMq.Broker.Partitions
