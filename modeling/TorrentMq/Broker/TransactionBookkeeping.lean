import TorrentMq.Broker.TransactionCoordinatorProperties
import TorrentMq.Collections.Counting

/-! Sequences of complete calls after which the counter and the maps of a transaction coordinator agree. -/

set_option autoImplicit false

namespace TorrentMq.Broker.Transactions

open Bytes Runs Interleaving TransactionCoordinator List OrderedMap Option TransactionIdState

def TransactionIdState.isOngoing (state : TransactionIdState) : Bool := decide (state.txnState = .ongoing)

/-- No producer id is given to two producers: whoever is given one again asks for the same transactional id. -/
def DistinctProducers (handed : List Handout) : Prop :=
  handed.Pairwise fun later earlier =>
    later.producerId = earlier.producerId →
      later.transactionalId = earlier.transactionalId ∧ later.transactionalId ≠ []

/-- The counter tells how many transactions are going on, and producer ids and transactional ids are as one. -/
structure Books (coordinator : TransactionCoordinator) : Prop where
  active : coordinator.activeTransactions = coordinator.txnStates.count (·.isOngoing)
  distinct : DistinctProducers coordinator.history.handed
  mapped : ∀ pid txnId, coordinator.pidToTransactionalId.find? pid = some txnId ↔
    ∃ state ∈ coordinator.txnStates.find? txnId, state.producerId = pid

/-- An initialization finds no transaction of its id going on, and a producer id that is not the last one if it needs
one; a shutdown finds no transaction going on. -/
def Orderly (coordinator : TransactionCoordinator) : Happening → Prop
  | .call (.initProducerId txnId timeoutMs) _ =>
    (txnId = [] ∨ coordinator.txnStates.find? txnId = none ∧ 0 < timeoutMs →
      coordinator.pidAllocator.nextPid ≠ Int64.maxValue) ∧
    (0 < timeoutMs → ∀ state ∈ coordinator.txnStates.find? txnId, state.isOngoing = false)
  | .shutdown =>
    coordinator.running = true →
      ∀ txnId, ∀ state ∈ coordinator.txnStates.find? txnId, state.isOngoing = false
  | _ => True

section Producers

variable {coordinator after : TransactionCoordinator} {input : Input} {txnId other : Bytes}
  {state : TransactionIdState} {pid : Int64} {epoch : Int16}

/-- Producer ids are below the next one, and lead to the transactional ids whose states have them. -/
structure Producers (coordinator : TransactionCoordinator) : Prop where
  next : 0 ≤ coordinator.pidAllocator.nextPid
  handed : ∀ handout ∈ coordinator.history.handed, handout.producerId < coordinator.pidAllocator.nextPid
  distinct : DistinctProducers coordinator.history.handed
  known : ∀ txnId pid epoch, coordinator.identity txnId = some (pid, epoch) →
    txnId ≠ [] ∧ 0 ≤ pid ∧ pid < coordinator.pidAllocator.nextPid ∧
      ∀ handout ∈ coordinator.history.handed, handout.producerId = pid → handout.transactionalId = txnId
  mapped : ∀ pid txnId, coordinator.pidToTransactionalId.find? pid = some txnId ↔
    ∃ epoch, coordinator.identity txnId = some (pid, epoch)

theorem producers_start (enableTransactions : Bool) : Producers (.start enableTransactions) := by
  cases enableTransactions with
  | false | true => exact ⟨by decide, nofun, .nil, nofun, fun _ _ => ⟨nofun, nofun⟩⟩

theorem Producers.of_same (producers : Producers coordinator) (same : SameProducers after coordinator) :
    Producers after where
  next := same.allocator ▸ producers.next
  handed := by
    rw [same.handed, same.allocator]
    exact producers.handed
  distinct := same.handed ▸ producers.distinct
  known := by
    intro txnId pid epoch found
    rw [same.handed, same.allocator]
    exact producers.known txnId pid epoch (same.identity txnId ▸ found)
  mapped := by
    intro pid txnId
    rw [same.mapped, same.identity]
    exact producers.mapped pid txnId

structure Unused (coordinator : TransactionCoordinator) (pid : Int64) : Prop where
  nonneg : 0 ≤ pid
  below : pid < coordinator.pidAllocator.nextPid
  unhanded : ∀ handout ∈ coordinator.history.handed, handout.producerId ≠ pid
  unknown : ∀ txnId epoch, coordinator.identity txnId ≠ some (pid, epoch)

/-!
## Producers
-/

section

variable (producers : Producers coordinator)

include producers

theorem Producers.allocatePid
    (room : coordinator.pidAllocator.nextPid ≠ Int64.maxValue) :
    Producers coordinator.allocatePid.1 ∧ Unused coordinator.allocatePid.1 coordinator.pidAllocator.nextPid := by
  have above := lt_succ_pid room
  refine ⟨⟨producers.next.trans above.le, ?_, producers.distinct, ?_, producers.mapped⟩, ⟨producers.next, above, ?_, ?_⟩⟩
  · exact fun handout member => (producers.handed handout member).trans above
  · intro txnId pid epoch found
    obtain ⟨named, nonneg, below, owned⟩ := producers.known txnId pid epoch found
    exact ⟨named, nonneg, below.trans above, owned⟩
  · exact fun handout member => (producers.handed handout member).ne
  · intro txnId epoch found
    exact absurd (producers.known txnId _ epoch found).2.2.1 (lt_irrefl _)

theorem Producers.handOut (unused : Unused coordinator pid) :
    Producers (coordinator.handOut txnId pid epoch) where
  next := producers.next
  handed := by
    intro handout member
    rcases mem_cons.mp member with rfl | old
    · exact unused.below
    · exact producers.handed handout old
  distinct := pairwise_cons.mpr
    ⟨fun handout member same => absurd same.symm (unused.unhanded handout member), producers.distinct⟩
  known := by
    intro named own epoch found
    obtain ⟨not_empty, nonneg, below, owned⟩ := producers.known named own epoch found
    refine ⟨not_empty, nonneg, below, fun handout member same => ?_⟩
    rcases mem_cons.mp member with rfl | old
    · obtain rfl : pid = own := same
      exact absurd found (unused.unknown named epoch)
    · exact owned handout old same
  mapped := producers.mapped

theorem Producers.reinitialize
    (found : coordinator.txnStates.find? txnId = some state) :
    Producers ((coordinator.setState txnId (state.reinitialize coordinator.now)).handOut txnId
      state.producerId epoch) := by
  obtain ⟨named, nonneg, below, owned⟩ := producers.known txnId _ _ (identity_of_some found)
  have identity_after : ∀ other, (coordinator.setState txnId (state.reinitialize coordinator.now)).identity other =
      if other = txnId then some (state.producerId, nextEpoch state.producerEpoch)
      else coordinator.identity other := by
    intro other
    rw [identity_setState, reinitialize_producerId, reinitialize_producerEpoch]
  refine ⟨producers.next, fun handout member => ?_, ?_, fun other own epoch known => ?_, fun own other => ?_⟩
  · rcases mem_cons.mp member with rfl | old
    · exact below
    · exact producers.handed handout old
  · refine pairwise_cons.mpr ⟨fun handout member same => ?_, producers.distinct⟩
    exact ⟨(owned handout member same.symm).symm, named⟩
  · have known := (identity_after other).symm.trans known
    have sooner : ∃ before, coordinator.identity other = some (own, before) := by
      split at known
      next same =>
        rw [same, ← (Prod.mk.inj (Option.some.inj known)).1]
        exact ⟨_, identity_of_some found⟩
      next => exact ⟨epoch, known⟩
    obtain ⟨before, sooner⟩ := sooner
    obtain ⟨not_empty, positive, less, own_only⟩ := producers.known other own before sooner
    refine ⟨not_empty, positive, less, fun handout member same => ?_⟩
    rcases mem_cons.mp member with rfl | old
    · obtain rfl : state.producerId = own := same
      have first := (producers.mapped _ txnId).mpr ⟨_, identity_of_some found⟩
      exact Option.some.inj (first.symm.trans ((producers.mapped _ other).mpr ⟨before, sooner⟩))
    · exact own_only handout old same
  · refine (producers.mapped own other).trans ?_
    change _ ↔ ∃ epoch, (coordinator.setState txnId (state.reinitialize coordinator.now)).identity other = _
    rw [identity_after]
    split
    next same =>
      rw [same, identity_of_some found]
      simp
    next => exact Iff.rfl

theorem Producers.insert (named : txnId ≠ [])
    (absent : coordinator.txnStates.find? txnId = none) (unused : Unused coordinator pid) :
    Producers (coordinator.insert txnId pid).1 := by
  let made : TransactionIdState :=
    { address := coordinator.nextAddress, producerId := pid, producerEpoch := 0, lastActivity := coordinator.now }
  have identity_after : ∀ other, (coordinator.setState txnId made).identity other =
      if other = txnId then some (pid, 0) else coordinator.identity other := fun other => identity_setState
  have unmapped : ∀ other epoch, coordinator.identity other = some (pid, epoch) → False := unused.unknown
  refine ⟨producers.next, fun handout member => ?_, ?_, fun other own epoch known => ?_, fun own other => ?_⟩
  · rcases mem_cons.mp member with rfl | old
    · exact unused.below
    · exact producers.handed handout old
  · refine pairwise_cons.mpr ⟨fun handout member same => ?_, producers.distinct⟩
    exact absurd same.symm (unused.unhanded handout member)
  · have known := (identity_after other).symm.trans known
    split at known
    next same =>
      cases known
      refine ⟨same ▸ named, unused.nonneg, unused.below, fun handout member own => ?_⟩
      rcases mem_cons.mp member with rfl | old
      · exact same.symm
      · exact absurd own (unused.unhanded handout old)
    next =>
      obtain ⟨not_empty, positive, less, own_only⟩ := producers.known other own epoch known
      refine ⟨not_empty, positive, less, fun handout member same => ?_⟩
      rcases mem_cons.mp member with rfl | old
      · obtain rfl : pid = own := same
        exact (unmapped other epoch known).elim
      · exact own_only handout old same
  · change (coordinator.pidToTransactionalId.insert pid txnId).find? own = some other ↔
      ∃ epoch, (coordinator.setState txnId made).identity other = _
    rw [find?_insert, identity_after]
    by_cases same : own = pid
    · rw [if_pos same, same]
      constructor
      · intro own_name
        rw [if_pos (Option.some.inj own_name).symm]
        exact ⟨0, rfl⟩
      · rintro ⟨epoch, known⟩
        split at known
        next own_name => rw [own_name]
        next => exact (unmapped other epoch known).elim
    · rw [if_neg same]
      refine (producers.mapped own other).trans ?_
      split
      next own_name =>
        rw [own_name, identity, absent]
        refine iff_of_false (by rintro ⟨epoch, known⟩; cases known) ?_
        rintro ⟨epoch, known⟩
        exact same (Prod.mk.inj (Option.some.inj known)).1.symm
      next => exact Iff.rfl

end

theorem identity_erase (key : Bytes) :
    ({ coordinator with txnStates := coordinator.txnStates.erase txnId } : TransactionCoordinator).identity key =
      if key = txnId then none else coordinator.identity key := by
  unfold identity
  dsimp only
  rw [find?_erase]
  split <;> rfl

theorem Producers.expire (producers : Producers coordinator) : Producers (coordinator.expire txnId) := by
  unfold TransactionCoordinator.expire
  split
  next => exact producers
  next state found =>
    have own := identity_of_some found
    obtain ⟨-, nonneg, -⟩ := producers.known txnId _ _ own
    have valid : state.producerId ≠ kInvalidProducerId := by
      intro invalid
      rw [invalid] at nonneg
      exact absurd nonneg (by decide)
    rw [if_neg valid]
    refine ⟨producers.next, producers.handed, producers.distinct, fun other pid epoch known => ?_, fun pid other => ?_⟩
    · have known := (identity_erase other).symm.trans known
      split at known
      next => cases known
      next => exact producers.known other pid epoch known
    · change (coordinator.pidToTransactionalId.erase state.producerId).find? pid = some other ↔
        ∃ epoch, ({ coordinator with txnStates := coordinator.txnStates.erase txnId } :
          TransactionCoordinator).identity other = some (pid, epoch)
      rw [find?_erase, identity_erase]
      by_cases same : pid = state.producerId
      · rw [if_pos same]
        refine iff_of_false nofun ?_
        rintro ⟨epoch, known⟩
        split at known
        next => cases known
        next differs =>
          have first := (producers.mapped pid txnId).mpr ⟨_, same ▸ own⟩
          exact differs (Option.some.inj (((producers.mapped pid other).mpr ⟨epoch, known⟩).symm.trans first))
      · rw [if_neg same]
        refine (producers.mapped pid other).trans ?_
        split
        next own_name =>
          rw [own_name, own]
          refine iff_of_false ?_ nofun
          rintro ⟨epoch, known⟩
          exact same (Prod.mk.inj (Option.some.inj known)).1.symm
        next => exact Iff.rfl

end Producers

/-!
## Counts
-/

section Counts

variable {coordinator : TransactionCoordinator} {input : Input} {txnId other : Bytes}
  {state written : TransactionIdState} {extra : Nat} {request : Request} {partitions : List Partition}

/-- The counter tells how many transactions are going on, and how many more have been reset. -/
structure Counted (extra : Nat) (coordinator : TransactionCoordinator) : Prop where
  active : coordinator.activeTransactions = coordinator.txnStates.count (·.isOngoing) + extra
  phases : ∀ txnId state, coordinator.txnStates.find? txnId = some state →
    state.txnState = .empty ∨ state.txnState = .ongoing

theorem counted_start (enableTransactions : Bool) : Counted 0 (.start enableTransactions) := by
  cases enableTransactions with
  | false | true => exact ⟨rfl, nofun⟩

theorem count_setState (found : coordinator.txnStates.find? txnId = some state) :
    (coordinator.txnStates.insert txnId written).count (·.isOngoing) + (if state.isOngoing then 1 else 0) =
      coordinator.txnStates.count (·.isOngoing) + if written.isOngoing then 1 else 0 := by
  rw [← countAt_of_some found]
  exact count_insert

theorem phases_insert (phases : ∀ txnId state, coordinator.txnStates.find? txnId = some state →
      state.txnState = .empty ∨ state.txnState = .ongoing)
    (phase : written.txnState = .empty ∨ written.txnState = .ongoing) (key : Bytes) (stored : TransactionIdState)
    (found : (coordinator.txnStates.insert txnId written).find? key = some stored) :
    stored.txnState = .empty ∨ stored.txnState = .ongoing := by
  rw [find?_insert] at found
  split at found
  next =>
    cases found
    exact phase
  next => exact phases key stored found

theorem Counted.setState (counted : Counted extra coordinator)
    (found : coordinator.txnStates.find? txnId = some state) (same : written.txnState = state.txnState) :
    Counted extra (coordinator.setState txnId written) where
  active := by
    have count := @count_setState coordinator txnId state written found
    have ongoing : written.isOngoing = state.isOngoing := by rw [isOngoing, same]; rfl
    rw [ongoing] at count
    change coordinator.activeTransactions = _
    rw [counted.active]
    exact congrArg (· + extra) (Nat.add_right_cancel count).symm
  phases := phases_insert counted.phases (same ▸ counted.phases txnId state found)

section

variable (counted : Counted 0 coordinator) (found : coordinator.txnStates.find? txnId = some state)

include counted found

theorem Counted.begin (empty : state.txnState = .empty) :
    Counted 0 (coordinator.beginTransaction txnId state) where
  active := by
    have count := @count_setState coordinator txnId state
      (state.begin coordinator.now coordinator.history.begun) found
    have before : state.isOngoing = false := by rw [isOngoing, empty]; rfl
    rw [before, if_neg Bool.false_ne_true] at count
    change coordinator.activeTransactions + 1 = _
    rw [counted.active]
    exact count.symm
  phases := phases_insert counted.phases (.inr rfl)

theorem Counted.reset (ongoing : state.txnState = .ongoing)
    (phase : written.txnState = .empty) : Counted 1 (coordinator.setState txnId written) where
  active := by
    have count := @count_setState coordinator txnId state written found
    have before : state.isOngoing = true := by rw [isOngoing, ongoing]; rfl
    have later : written.isOngoing = false := by rw [isOngoing, phase]; rfl
    rw [before, later, if_pos rfl, if_neg Bool.false_ne_true] at count
    change coordinator.activeTransactions = _
    rw [counted.active]
    exact count.symm
  phases := phases_insert counted.phases (.inl phase)

end

theorem Counted.endActive (counted : Counted 1 coordinator) : Counted 0 coordinator.endActive where
  active := by
    change coordinator.activeTransactions - 1 = _
    rw [counted.active]
    rfl
  phases := counted.phases

section

variable (counted : Counted 0 coordinator)

include counted

section

variable (found : coordinator.txnStates.find? txnId = some state)

include found

theorem Counted.enroll :
    Counted 0 (coordinator.enroll input txnId state partitions).1 := by
  unfold TransactionCoordinator.enroll
  dsimp only
  split
  next => exact counted.setState found rfl
  next => exact counted.setState found rfl

theorem Counted.addPartitions :
    Counted 0 (coordinator.addPartitions input txnId state partitions).1 := by
  unfold TransactionCoordinator.addPartitions
  split
  next empty =>
    refine (counted.begin found empty).enroll ?_
    exact (find?_insert txnId).trans (if_pos rfl)
  next => exact counted.enroll found
  next => exact counted

theorem Counted.endTxn {committed : Bool} :
    Counted 0 (coordinator.endTxn input request txnId state committed).1 := by
  by_cases ongoing : state.txnState = .ongoing
  · obtain ⟨states, active⟩ := @endTxn_ongoing coordinator input request txnId state committed ongoing
    have ended : Counted 0 (coordinator.setState txnId (state.resetTransaction coordinator.now)).endActive :=
      (counted.reset found ongoing rfl).endActive
    refine ⟨active.trans (ended.active.trans ?_), fun key stored present => ?_⟩
    · rw [states]
      rfl
    · rw [states] at present
      exact ended.phases key stored present
  · unfold TransactionCoordinator.endTxn
    rw [if_neg ongoing]
    exact counted

theorem Counted.serve :
    Counted 0 (coordinator.serve input request txnId state).1 := by
  unfold TransactionCoordinator.serve
  split
  next => exact counted
  next =>
    split
    next => exact counted.addPartitions found
    next =>
      unfold addOffsets
      split
      next => exact counted.setState found rfl
      next => exact counted
    next => exact counted.endTxn found

end

end

end Counts

/-- Ids with a transaction that is going on, each of them once. -/
def AllOngoing (coordinator : TransactionCoordinator) (ids : List Bytes) : Prop :=
  ids.Nodup ∧ ∀ txnId ∈ ids, ∃ state, coordinator.txnStates.find? txnId = some state ∧
    state.txnState = .ongoing

/-!
## Calls on their own
-/

/-- What holds of the transactions where a call that is alone has got to. -/
def Solo (stage : Stage) (coordinator : TransactionCoordinator) : Prop :=
  match stage with
  | .returned _ => Counted 0 coordinator
  | .running (.init txnId timeoutMs) =>
    Counted 0 coordinator ∧ ∀ inputs, Orderly coordinator (.call (.initProducerId txnId timeoutMs) inputs)
  | .running (.allocate txnId) =>
    Counted 0 coordinator ∧ txnId ≠ [] ∧ coordinator.txnStates.find? txnId = none ∧
      coordinator.pidAllocator.nextPid ≠ Int64.maxValue
  | .running (.insert txnId pid) =>
    Counted 0 coordinator ∧ txnId ≠ [] ∧ coordinator.txnStates.find? txnId = none ∧
      Unused coordinator pid
  | .running (.passLookup ids) => Counted 0 coordinator ∧ AllOngoing coordinator ids
  | .running (.markerLookup abort) => Counted 0 coordinator ∧ AllOngoing coordinator (abort.transactionalId :: abort.rest)
  | .running (.markerSnapshot abort _) =>
    Counted 0 coordinator ∧ AllOngoing coordinator (abort.transactionalId :: abort.rest)
  | .running (.markerWrite abort _ _) =>
    Counted 0 coordinator ∧ AllOngoing coordinator (abort.transactionalId :: abort.rest)
  | .running (.passReset abort) => Counted 0 coordinator ∧ AllOngoing coordinator (abort.transactionalId :: abort.rest)
  | .running (.passDecrement rest) => Counted 1 coordinator ∧ AllOngoing coordinator rest
  | .running _ => Counted 0 coordinator

section Alone

variable {coordinator : TransactionCoordinator} {input : Input} {txnId : Bytes} {stage : Stage}
  {point : Point}

theorem Solo.elapse (solo : Solo stage coordinator) : Solo stage (coordinator.elapse input) := by
  cases stage with
  | returned outcome => exact ⟨solo.active, solo.phases⟩
  | running point =>
    cases point with
    | init txnId timeoutMs => exact ⟨⟨solo.1.active, solo.1.phases⟩, solo.2⟩
    | insert txnId pid =>
      exact ⟨⟨solo.1.active, solo.1.phases⟩, solo.2.1, solo.2.2.1,
        ⟨solo.2.2.2.nonneg, solo.2.2.2.below, solo.2.2.2.unhanded, solo.2.2.2.unknown⟩⟩
    | resolve | findState | locked | collect => exact ⟨solo.active, solo.phases⟩
    | _ => exact ⟨⟨solo.1.active, solo.1.phases⟩, solo.2⟩

theorem allOngoing_timedOutIds : AllOngoing coordinator (coordinator.timedOutIds input) := by
  refine ⟨?_, fun txnId member => ?_⟩
  · exact ((input.order.perm _).nodup_iff.mpr nodup_keys).filter _
  · obtain ⟨-, timed_out⟩ := List.mem_filter.mp member
    unfold isTimedOut at timed_out
    cases found : coordinator.txnStates.find? txnId with
    | none =>
      rw [found] at timed_out
      cases timed_out
    | some state =>
      rw [found, any_some, Bool.and_eq_true, decide_eq_true_eq] at timed_out
      exact ⟨state, rfl, timed_out.1⟩

variable {state : TransactionIdState}

theorem txnState_of_not_ongoing {extra : Nat} (counted : Counted extra coordinator)
    (found : coordinator.txnStates.find? txnId = some state) (idle : state.isOngoing = false) :
    state.txnState = .empty := by
  rcases counted.phases txnId state found with empty | ongoing
  · exact empty
  · rw [isOngoing, ongoing] at idle
    cases idle

theorem Counted.reinitialize (counted : Counted 0 coordinator)
    (found : coordinator.txnStates.find? txnId = some state) (idle : state.isOngoing = false) :
    Counted 0 (coordinator.setState txnId (state.reinitialize coordinator.now)) := by
  have empty := txnState_of_not_ongoing counted found idle
  refine counted.setState found ?_
  unfold TransactionIdState.reinitialize
  dsimp only
  rw [if_pos empty]

theorem Counted.insert (counted : Counted 0 coordinator)
    (absent : coordinator.txnStates.find? txnId = none) (empty : state.txnState = .empty) :
    Counted 0 (coordinator.setState txnId state) where
  active := by
    have count := @count_insert Bytes TransactionIdState _ coordinator.txnStates txnId state
      (·.isOngoing)
    have idle : state.isOngoing = false := by rw [isOngoing, empty]; rfl
    rw [countAt_of_none absent, idle] at count
    exact counted.active.trans count.symm
  phases := phases_insert counted.phases (.inl empty)

theorem Solo.passLookup {ids : List Bytes} (solo : Solo (.running (.passLookup ids)) coordinator) :
    Solo (coordinator.passLookup ids).2 (coordinator.passLookup ids).1 := by
  obtain ⟨counted, unique, ongoing⟩ := solo
  cases ids with
  | nil => exact counted
  | cons txnId rest =>
    obtain ⟨state, found, -⟩ := ongoing txnId mem_cons_self
    simp only [TransactionCoordinator.passLookup, found]
    exact ⟨counted, unique, ongoing⟩

theorem Solo.passReset {abort : Abort} (solo : Solo (.running (.passReset abort)) coordinator) :
    Solo (coordinator.passReset abort).2 (coordinator.passReset abort).1 := by
  obtain ⟨counted, unique, ongoing⟩ := solo
  unfold TransactionCoordinator.passReset
  split
  next => exact counted
  next state found =>
    have present := (find?_of_stateAt found).1
    obtain ⟨stored, stored_found, going_on⟩ := ongoing abort.transactionalId mem_cons_self
    obtain rfl := Option.some.inj (present.symm.trans stored_found)
    refine ⟨counted.reset present going_on rfl, (nodup_cons.mp unique).2, fun other member => ?_⟩
    obtain ⟨kept, kept_found, kept_ongoing⟩ := ongoing other (mem_cons_of_mem _ member)
    refine ⟨kept, (find?_insert other).trans ?_, kept_ongoing⟩
    rw [if_neg]
    · exact kept_found
    · rintro rfl
      exact (nodup_cons.mp unique).1 member

theorem Solo.perform (producers : Producers coordinator) (solo : Solo (.running point) coordinator) :
    Producers (coordinator.perform input point).1 ∧
      Solo (coordinator.perform input point).2 (coordinator.perform input point).1 := by
  cases point with
  | init txnId timeoutMs =>
    obtain ⟨counted, orderly⟩ := solo
    obtain ⟨room, idle⟩ := orderly []
    change Producers (coordinator.init txnId timeoutMs).1 ∧
      Solo (coordinator.init txnId timeoutMs).2 (coordinator.init txnId timeoutMs).1
    rcases @init_cases coordinator txnId timeoutMs with ⟨error, result⟩ | ⟨empty, result⟩ |
      ⟨named, positive, ⟨state, found, result⟩ | ⟨absent, result⟩⟩
    · rw [result]
      exact ⟨producers, counted⟩
    · obtain ⟨allocated, unused⟩ := producers.allocatePid (room (.inl empty))
      rw [result]
      exact ⟨allocated.handOut unused, counted.active, counted.phases⟩
    · have reset := counted.reinitialize found (idle positive state found)
      rw [result]
      exact ⟨producers.reinitialize found, reset.active, reset.phases⟩
    · rw [result]
      exact ⟨producers, counted, named, absent, room (.inr ⟨absent, positive⟩)⟩
  | allocate txnId =>
    obtain ⟨counted, named, absent, room⟩ := solo
    obtain ⟨allocated, unused⟩ := producers.allocatePid room
    exact ⟨allocated, ⟨counted.active, counted.phases⟩, named, absent, unused⟩
  | insert txnId pid =>
    obtain ⟨counted, named, absent, unused⟩ := solo
    have added : Counted 0 (coordinator.setState txnId
        { address := coordinator.nextAddress, producerId := pid, producerEpoch := 0, lastActivity := coordinator.now }) :=
      counted.insert absent rfl
    exact ⟨producers.insert named absent unused, added.active, added.phases⟩
  | resolve request =>
    refine ⟨producers.of_same (sameProducers_perform rfl), ?_⟩
    change Solo (coordinator.resolve request).2 (coordinator.resolve request).1
    unfold resolve
    split
    next => exact solo
    next => split <;> exact solo
  | findState request txnId =>
    refine ⟨producers.of_same (sameProducers_perform rfl), ?_⟩
    change Solo (coordinator.findState request txnId).2 (coordinator.findState request txnId).1
    unfold findState
    split <;> exact solo
  | locked request txnId address =>
    refine ⟨producers.of_same (sameProducers_perform rfl), ?_⟩
    change Solo (coordinator.locked input request txnId address).2
      (coordinator.locked input request txnId address).1
    unfold locked
    split
    next => exact solo
    next state found => exact Counted.serve solo (find?_of_stateAt found).1
  | collect => exact ⟨producers, solo, allOngoing_timedOutIds⟩
  | passLookup ids => exact ⟨producers.of_same (sameProducers_perform rfl), Solo.passLookup solo⟩
  | markerLookup abort =>
    refine ⟨producers.of_same (sameProducers_perform rfl), ?_⟩
    change Solo (coordinator.markerLookup abort).2 (coordinator.markerLookup abort).1
    unfold markerLookup
    split <;> exact solo
  | markerSnapshot abort address =>
    refine ⟨producers.of_same (sameProducers_perform rfl), ?_⟩
    change Solo (coordinator.markerSnapshot abort address).2 (coordinator.markerSnapshot abort address).1
    unfold markerSnapshot
    split
    next => exact solo.1
    next =>
      split
      next => exact solo
      next => exact ⟨⟨solo.1.active, solo.1.phases⟩, solo.2⟩
  | markerWrite abort partitions transaction =>
    exact ⟨producers.of_same (sameProducers_perform rfl), ⟨solo.1.active, solo.1.phases⟩, solo.2⟩
  | passReset abort => exact ⟨producers.of_same (sameProducers_perform rfl), Solo.passReset solo⟩
  | passDecrement rest => exact ⟨producers.of_same (sameProducers_perform rfl), solo.1.endActive, solo.2⟩

end Alone

structure Kept (coordinator : TransactionCoordinator) : Prop where
  producers : Producers coordinator
  counted : Counted 0 coordinator

/-!
## Sequences of calls
-/

section Sequences

variable {coordinator after : TransactionCoordinator} {input : Input} {txnId : Bytes} {call : Call}
  {outcome : Outcome} {inputs : List Input}

theorem Kept.books (kept : Kept coordinator) : Books coordinator where
  active := kept.counted.active
  distinct := kept.producers.distinct
  mapped := by
    intro pid txnId
    rw [kept.producers.mapped, identity]
    cases coordinator.txnStates.find? txnId with
    | none => simp
    | some state => simp

section

variable (kept : Kept coordinator) (orderly : ∀ inputs, Orderly coordinator (.call call inputs))

include kept orderly

theorem solo_first :
    Solo (.running call.first) coordinator := by
  cases call with
  | initProducerId txnId timeoutMs => exact ⟨kept.counted, orderly⟩
  | request request | timeoutPass => exact kept.counted

theorem Kept.complete
    (completed : Interleaving.complete act inputs call.first coordinator = some (after, outcome)) :
    Kept after := by
  have both : Producers after ∧ Solo (.returned outcome) after := by
    have preserved : ∀ point input shared, Producers shared ∧ Solo (.running point) shared →
        Producers (act point input shared).1 ∧
          Solo (act point input shared).2 (act point input shared).1 := by
      rintro point input shared ⟨producers, solo⟩
      exact solo.elapse.perform (producers.of_same ⟨rfl, rfl, rfl, fun _ => rfl⟩)
    exact @complete_induction _ _ _ _ _ _ inputs coordinator after outcome
      (fun stage coordinator => Producers coordinator ∧ Solo stage coordinator) preserved
      ⟨kept.producers, solo_first kept orderly⟩ completed
  exact ⟨both.1, both.2⟩

end

theorem Counted.expire (counted : Counted 0 coordinator)
    (idle : ∀ state, coordinator.txnStates.find? txnId = some state → state.isOngoing = false) :
    Counted 0 (coordinator.expire txnId) := by
  unfold TransactionCoordinator.expire
  split
  next => exact counted
  next state found =>
    refine ⟨?_, fun other stored present => ?_⟩
    · have count := @count_erase Bytes TransactionIdState _ coordinator.txnStates txnId
        (·.isOngoing)
      rw [countAt_of_some found, idle state found] at count
      exact counted.active.trans count.symm
    · change (coordinator.txnStates.erase txnId).find? other = some stored at present
      rw [find?_erase] at present
      split at present
      next => cases present
      next => exact counted.phases other stored present

theorem find?_expire {other : Bytes} {state : TransactionIdState}
    (found : (coordinator.expire txnId).txnStates.find? other = some state) :
    coordinator.txnStates.find? other = some state := by
  unfold expire at found
  split at found
  next => exact found
  next =>
    change (coordinator.txnStates.erase txnId).find? other = some state at found
    rw [find?_erase] at found
    split at found
    next => cases found
    next => exact found

section

variable (kept : Kept coordinator)

include kept

theorem Kept.expire_all (ids : List Bytes)
    (idle : ∀ txnId ∈ ids, ∀ state, coordinator.txnStates.find? txnId = some state →
      state.isOngoing = false) : Kept (ids.foldl expire coordinator) := by
  induction ids generalizing coordinator with
  | nil => exact kept
  | cons txnId ids ih =>
    have own := idle txnId mem_cons_self
    refine ih ⟨kept.producers.expire, kept.counted.expire own⟩ fun other member state found => ?_
    exact idle other (mem_cons_of_mem _ member) state (find?_expire found)

theorem Kept.expiryPass : Kept (coordinator.expiryPass input) := by
  refine kept.expire_all _ fun txnId member state found => ?_
  have idle := (List.mem_filter.mp member).2
  rw [isIdle, found, any_some, Bool.and_eq_true, Bool.or_eq_true, decide_eq_true_eq, decide_eq_true_eq] at idle
  rw [isOngoing]
  rcases idle.1 with empty | dead
  · rw [empty]
    rfl
  · rw [dead]
    rfl

theorem Kept.shutdown (orderly : Orderly coordinator .shutdown) : Kept coordinator.shutdown := by
  unfold TransactionCoordinator.shutdown
  split
  next running =>
    have same : (coordinator.txnStates.mapValues fun _ state =>
        if state.txnState ≠ .empty ∧ state.txnState ≠ .dead then state.resetTransaction coordinator.now else state) =
        coordinator.txnStates := by
      refine ext_find? fun txnId => ?_
      rw [find?_mapValues]
      cases found : coordinator.txnStates.find? txnId with
      | none => rfl
      | some state =>
        have empty := txnState_of_not_ongoing kept.counted found (orderly running txnId state found)
        rw [map_some, if_neg fun busy => busy.1 empty]
    rw [same]
    exact ⟨kept.producers.of_same ⟨rfl, rfl, rfl, fun _ => rfl⟩, kept.counted.active, kept.counted.phases⟩
  next => exact kept

theorem Kept.happen {happening : Happening} (orderly : Orderly coordinator happening) :
    Kept (Transactions.happen coordinator happening) := by
  cases happening with
  | call call inputs =>
    unfold Transactions.happen
    dsimp only
    split
    next => exact kept
    next =>
      have always : ∀ inputs, Orderly coordinator (.call call inputs) := by
        intro other
        cases call <;> exact orderly
      cases completed : Interleaving.complete act inputs call.first coordinator with
      | none => exact kept
      | some result => exact kept.complete always completed
  | expiryPass input =>
    unfold Transactions.happen
    dsimp only
    split
    next =>
      have elapsed : Kept (coordinator.elapse input) :=
        ⟨kept.producers.of_same ⟨rfl, rfl, rfl, fun _ => rfl⟩, kept.counted.active, kept.counted.phases⟩
      exact elapsed.expiryPass
    next => exact kept
  | shutdown => exact kept.shutdown orderly

end

end Sequences

/-- All through an orderly sequence of complete calls the books are kept. -/
theorem books_of_orderly (enableTransactions : Bool) (happenings : List Happening)
    (orderly : Meets happen Orderly (.start enableTransactions) happenings) :
    ∀ reached, reached <+: happenings → Books (run happen (.start enableTransactions) reached) := by
  intro reached before
  have kept : Kept (run happen (.start enableTransactions) reached) :=
    (orderly.of_prefix before).preserves Kept (fun _ _ met kept => kept.happen met)
      ⟨producers_start enableTransactions, counted_start enableTransactions⟩
  exact kept.books

def timedOutAndShutDown : List Happening :=
  [.call (.initProducerId [116] 1) [{}, {}, {}],
    .call (.request ⟨1, 0, .addPartitions [([97], 0)]⟩) [{}, {}, {}],
    .call .timeoutPass [{ elapsed := 60001 }, {}, {}, {}, {}, {}, {}, {}],
    .shutdown]

theorem books_timedOutAndShutDown : Books (run happen (.start true) timedOutAndShutDown) := by
  refine books_of_orderly true timedOutAndShutDown ⟨⟨fun _ => by decide, ?_⟩, trivial, trivial, ?_, trivial⟩ _
    (prefix_refl _)
  · exact fun _ state found => nomatch (found : none = some state)
  · intro _ txnId state found
    have idle : ∀ entry ∈ (run happen (.start true) (timedOutAndShutDown.take 3)).txnStates.entries,
        entry.2.isOngoing = false := by decide
    exact idle _ (find?_eq_some_iff.mp found)

/-- An initialization that fences a transaction leaves it in the counter. -/
theorem not_books : ¬∀ happenings, Books (run happen (.start true) happenings) := by
  intro books
  have active := (books
    [.call (.initProducerId [116] 1) [{}, {}, {}], .call (.request ⟨1, 0, .addPartitions [([97], 0)]⟩) [{}, {}, {}],
      .call (.initProducerId [116] 1) [{}]]).active
  exact absurd active (by decide)

end TorrentMq.Broker.Transactions
