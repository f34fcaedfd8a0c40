import TorrentMq.Arithmetic.Counters
import TorrentMq.Broker.TransactionCoordinator

/-! What the sections of a transaction coordinator leave as it is. -/

set_option autoImplicit false

namespace TorrentMq.Broker.Transactions

open Bytes OrderedMap

def Point.ofInit : Point → Bool
  | .init _ _ | .allocate _ | .insert _ _ => true
  | _ => false

def Point.ofPass : Point → Bool
  | .collect | .passLookup _ | .markerLookup _ | .markerSnapshot _ _ | .markerWrite _ _ _ | .passReset _
  | .passDecrement _ => true
  | _ => false

theorem lt_succ_pid {pid : Int64} (room : pid ≠ Int64.maxValue) : pid < pid + 1 :=
  Int64.lt_iff_toInt_lt.mpr (Counters.toInt_lt_succ_long room)

theorem eq_of_checkProducerEpoch {current presented : Int16} (admitted : checkProducerEpoch current presented = .ok ()) :
    current = presented := by
  unfold checkProducerEpoch at admitted
  split at admitted
  next => cases admitted
  next not_below =>
    split at admitted
    next => cases admitted
    next not_above => exact Int16.le_antisymm (Int16.not_lt.mp not_below) (Int16.not_lt.mp not_above)

namespace TransactionCoordinator

variable {coordinator after middle before : TransactionCoordinator} {input : Input} {point : Point} {request : Request}
  {txnId other : Bytes} {state : TransactionIdState} {address : Nat}

def identity (coordinator : TransactionCoordinator) (txnId : Bytes) : Option (Int64 × Int16) :=
  (coordinator.txnStates.find? txnId).map fun state => (state.producerId, state.producerEpoch)

def handedTo (coordinator : TransactionCoordinator) (txnId : Bytes) : List (Int64 × Int16) :=
  (coordinator.history.handed.filter fun handout => handout.transactionalId = txnId).map fun handout =>
    (handout.producerId, handout.producerEpoch)

theorem identity_of_some (found : coordinator.txnStates.find? txnId = some state) :
    coordinator.identity txnId = some (state.producerId, state.producerEpoch) := by
  rw [identity, found, Option.map_some]

theorem identity_setState : (coordinator.setState txnId state).identity other =
    if other = txnId then some (state.producerId, state.producerEpoch) else coordinator.identity other := by
  unfold identity setState
  dsimp only
  rw [find?_insert]
  split <;> rfl

theorem find?_of_stateAt (found : coordinator.stateAt txnId address = some state) :
    coordinator.txnStates.find? txnId = some state ∧ state.address = address := by
  obtain ⟨present, same⟩ := Option.filter_eq_some_iff.mp found
  exact ⟨present, of_decide_eq_true same⟩

theorem mem_handedTo {pair : Int64 × Int16} :
    pair ∈ coordinator.handedTo txnId ↔ ⟨txnId, pair.1, pair.2⟩ ∈ coordinator.history.handed := by
  unfold handedTo
  simp only [List.mem_map, List.mem_filter, decide_eq_true_eq]
  constructor
  · rintro ⟨handout, ⟨member, rfl⟩, rfl⟩
    exact member
  · intro member
    exact ⟨_, ⟨member, rfl⟩, rfl⟩

@[simp] theorem reinitialize_producerId {now : Int} : (state.reinitialize now).producerId = state.producerId := by
  unfold TransactionIdState.reinitialize
  dsimp only
  split <;> rfl

@[simp] theorem reinitialize_producerEpoch {now : Int} :
    (state.reinitialize now).producerEpoch = TransactionIdState.nextEpoch state.producerEpoch := rfl

/-- The ids and the epochs of the producers are as before. -/
structure SameProducers (after before : TransactionCoordinator) : Prop where
  allocator : after.pidAllocator = before.pidAllocator
  mapped : after.pidToTransactionalId = before.pidToTransactionalId
  handed : after.history.handed = before.history.handed
  identity : ∀ txnId, after.identity txnId = before.identity txnId

theorem SameProducers.refl (coordinator : TransactionCoordinator) : SameProducers coordinator coordinator :=
  ⟨rfl, rfl, rfl, fun _ => rfl⟩

theorem SameProducers.trans (later : SameProducers after middle) (sooner : SameProducers middle before) :
    SameProducers after before where
  allocator := later.allocator.trans sooner.allocator
  mapped := later.mapped.trans sooner.mapped
  handed := later.handed.trans sooner.handed
  identity txnId := (later.identity txnId).trans (sooner.identity txnId)

section

variable (known : coordinator.identity txnId = some (state.producerId, state.producerEpoch))

include known

theorem sameProducers_setState :
    SameProducers (coordinator.setState txnId state) coordinator where
  allocator := rfl
  mapped := rfl
  handed := rfl
  identity := by
    intro other
    rw [identity_setState]
    split
    next same => rw [same, known]
    next => rfl

theorem sameProducers_beginTransaction :
    SameProducers (coordinator.beginTransaction txnId state) coordinator :=
  have written := @sameProducers_setState coordinator txnId
    (state.begin coordinator.now coordinator.history.begun) known
  ⟨rfl, rfl, rfl, written.identity⟩

end

theorem enroll_eq {partitions : List Partition} :
    ∃ enrolled activity, (coordinator.enroll input txnId state partitions).1 =
      coordinator.setState txnId { state with txnPartitions := enrolled, lastActivity := activity } := by
  unfold enroll
  dsimp only
  split
  next => exact ⟨_, _, rfl⟩
  next => exact ⟨_, _, rfl⟩

section

variable {partitions : List Partition}
  (known : coordinator.identity txnId = some (state.producerId, state.producerEpoch))
include known

theorem sameProducers_enroll :
    SameProducers (coordinator.enroll input txnId state partitions).1 coordinator := by
  obtain ⟨enrolled, activity, result⟩ := @enroll_eq coordinator input txnId state partitions
  rw [result]
  exact sameProducers_setState known

theorem sameProducers_addPartitions :
    SameProducers (coordinator.addPartitions input txnId state partitions).1 coordinator := by
  unfold addPartitions
  split
  next =>
    have begun := @sameProducers_beginTransaction coordinator txnId state known
    refine (sameProducers_enroll ?_).trans begun
    exact (begun.identity txnId).trans known
  next => exact sameProducers_enroll known
  next => exact .refl coordinator

end

theorem sameProducers_addOffsets
    (known : coordinator.identity txnId = some (state.producerId, state.producerEpoch)) :
    SameProducers (coordinator.addOffsets txnId state).1 coordinator := by
  unfold addOffsets
  split
  next => exact sameProducers_setState known
  next => exact .refl coordinator

variable {pid : Int64} {epoch : Int16} {type : ControlRecordType}

theorem sameProducers_writeTxnMarkers :
    SameProducers (coordinator.writeTxnMarkers input txnId pid epoch type) coordinator := by
  unfold writeTxnMarkers
  split
  next => exact .refl coordinator
  next => exact ⟨rfl, rfl, rfl, fun _ => rfl⟩

theorem sameProducers_endActive : SameProducers coordinator.endActive coordinator := ⟨rfl, rfl, rfl, fun _ => rfl⟩

theorem activeTransactions_writeTxnMarkers :
    (coordinator.writeTxnMarkers input txnId pid epoch type).activeTransactions =
      coordinator.activeTransactions := by
  unfold writeTxnMarkers
  split <;> rfl

theorem txnStates_writeTxnMarkers :
    (coordinator.writeTxnMarkers input txnId pid epoch type).txnStates = coordinator.txnStates := by
  unfold writeTxnMarkers
  split <;> rfl

theorem endTxn_ongoing {committed : Bool} (ongoing : state.txnState = .ongoing) :
    (coordinator.endTxn input request txnId state committed).1.txnStates =
        coordinator.txnStates.insert txnId (state.resetTransaction coordinator.now) ∧
      (coordinator.endTxn input request txnId state committed).1.activeTransactions =
        coordinator.activeTransactions - 1 := by
  unfold endTxn
  rw [if_pos ongoing]
  refine ⟨?_, congrArg (· - 1) activeTransactions_writeTxnMarkers⟩
  refine (congrArg (fun states => OrderedMap.insert states txnId _) txnStates_writeTxnMarkers).trans ?_
  exact insert_insert

theorem sameProducers_endTxn {committed : Bool}
    (known : coordinator.identity txnId = some (state.producerId, state.producerEpoch)) :
    SameProducers (coordinator.endTxn input request txnId state committed).1 coordinator := by
  unfold endTxn
  split
  next =>
    have prepared := @sameProducers_setState coordinator txnId (state.prepare committed) known
    have marked := (sameProducers_endActive.trans (@sameProducers_writeTxnMarkers _ input txnId
      request.producerId request.producerEpoch (if committed then .commit else .abort))).trans prepared
    refine (sameProducers_setState ?_).trans marked
    exact (marked.identity txnId).trans known
  next => exact .refl coordinator

theorem sameProducers_serve (found : coordinator.txnStates.find? txnId = some state) :
    SameProducers (coordinator.serve input request txnId state).1 coordinator := by
  have known := identity_of_some found
  unfold serve
  split
  next => exact .refl coordinator
  next =>
    split
    next => exact sameProducers_addPartitions known
    next => exact sameProducers_addOffsets known
    next => exact sameProducers_endTxn known

theorem sameProducers_locked :
    SameProducers (coordinator.locked input request txnId address).1 coordinator := by
  unfold locked
  split
  next => exact .refl coordinator
  next state found => exact sameProducers_serve (find?_of_stateAt found).1

theorem sameProducers_passReset {abort : Abort} : SameProducers (coordinator.passReset abort).1 coordinator := by
  unfold passReset
  split
  next => exact .refl coordinator
  next state found =>
    have known := identity_of_some (find?_of_stateAt found).1
    exact sameProducers_setState known

theorem sameProducers_perform (other : point.ofInit = false) :
    SameProducers (coordinator.perform input point).1 coordinator := by
  cases point with
  | init txnId timeoutMs | allocate txnId | insert txnId pid => cases other
  | resolve request =>
    change SameProducers (coordinator.resolve request).1 coordinator
    unfold resolve
    split
    next => exact .refl coordinator
    next => split <;> exact .refl coordinator
  | findState request txnId =>
    change SameProducers (coordinator.findState request txnId).1 coordinator
    unfold findState
    split <;> exact .refl coordinator
  | locked request txnId address => exact sameProducers_locked
  | collect => exact .refl coordinator
  | passLookup ids =>
    change SameProducers (coordinator.passLookup ids).1 coordinator
    cases ids with
    | nil => exact .refl coordinator
    | cons txnId rest =>
      simp only [passLookup]
      split <;> exact .refl coordinator
  | markerLookup abort =>
    change SameProducers (coordinator.markerLookup abort).1 coordinator
    unfold markerLookup
    split <;> exact .refl coordinator
  | markerSnapshot abort address =>
    change SameProducers (coordinator.markerSnapshot abort address).1 coordinator
    unfold markerSnapshot
    split
    next => exact .refl coordinator
    next =>
      split
      next => exact .refl coordinator
      next => exact ⟨rfl, rfl, rfl, fun _ => rfl⟩
  | markerWrite abort partitions transaction => exact ⟨rfl, rfl, rfl, fun _ => rfl⟩
  | passReset abort => exact sameProducers_passReset
  | passDecrement rest => exact sameProducers_endActive

theorem init_cases {timeoutMs : Int} :
    (∃ error, coordinator.init txnId timeoutMs = (coordinator, .returned (.failure error))) ∨
      (txnId = [] ∧ coordinator.init txnId timeoutMs =
        (coordinator.allocatePid.1.handOut [] coordinator.pidAllocator.nextPid (-1),
          .returned (.producer coordinator.pidAllocator.nextPid))) ∨
      txnId ≠ [] ∧ 0 < timeoutMs ∧
        ((∃ state, coordinator.txnStates.find? txnId = some state ∧
          coordinator.init txnId timeoutMs =
            ((coordinator.setState txnId (state.reinitialize coordinator.now)).handOut txnId
              state.producerId (TransactionIdState.nextEpoch state.producerEpoch),
              .returned (.producer state.producerId))) ∨
          coordinator.txnStates.find? txnId = none ∧
            coordinator.init txnId timeoutMs = (coordinator, .running (.allocate txnId))) := by
  unfold init
  split
  next => exact .inl ⟨_, rfl⟩
  next =>
    split
    next empty => exact .inr (.inl ⟨List.isEmpty_iff.mp empty, rfl⟩)
    next named =>
      split
      next => exact .inl ⟨_, rfl⟩
      next positive =>
        refine .inr (.inr ⟨fun empty => named (List.isEmpty_iff.mpr empty), Int.not_le.mp positive, ?_⟩)
        split
        next state found =>
          refine .inl ⟨state, found, ?_⟩
          dsimp only
          rw [reinitialize_producerId, reinitialize_producerEpoch]
        next absent => exact .inr ⟨absent, rfl⟩

theorem running_cases {next : Point} (moved : (coordinator.perform input point).2 = .running next) :
    (∃ txnId timeoutMs, point = .init txnId timeoutMs ∧ next = .allocate txnId ∧
      txnId ≠ []) ∨
    (∃ txnId, point = .allocate txnId ∧
      next = .insert txnId coordinator.pidAllocator.nextPid) ∨
    (∃ request txnId, point = .resolve request ∧ next = .findState request txnId ∧
      coordinator.pidToTransactionalId.find? request.producerId = some txnId) ∨
    (∃ request txnId state, point = .findState request txnId ∧
      next = .locked request txnId state.address ∧
      coordinator.txnStates.find? txnId = some state) ∨
    point.ofPass = true ∧ next.ofPass = true := by
  cases point with
  | init txnId timeoutMs =>
    change (coordinator.init txnId timeoutMs).2 = _ at moved
    rcases @init_cases coordinator txnId timeoutMs with ⟨error, result⟩ | ⟨-, result⟩ |
      ⟨named, -, ⟨state, -, result⟩ | ⟨-, result⟩⟩
    · rw [result] at moved
      cases moved
    · rw [result] at moved
      cases moved
    · rw [result] at moved
      cases moved
    · rw [result] at moved
      cases moved
      exact .inl ⟨txnId, timeoutMs, rfl, rfl, named⟩
  | allocate txnId =>
    cases moved
    exact .inr (.inl ⟨txnId, rfl, rfl⟩)
  | insert txnId pid => cases moved
  | resolve request =>
    change (coordinator.resolve request).2 = _ at moved
    unfold resolve at moved
    split at moved
    next => cases moved
    next =>
      split at moved
      next => cases moved
      next txnId mapped =>
        cases moved
        exact .inr (.inr (.inl ⟨request, txnId, rfl, rfl, mapped⟩))
  | findState request txnId =>
    change (coordinator.findState request txnId).2 = _ at moved
    unfold findState at moved
    split at moved
    next => cases moved
    next state found =>
      cases moved
      exact .inr (.inr (.inr (.inl ⟨request, txnId, state, rfl, rfl, found⟩)))
  | locked request txnId address =>
    change (coordinator.locked input request txnId address).2 = _ at moved
    unfold locked at moved
    split at moved <;> cases moved
  | collect | markerWrite abort partitions transaction | passDecrement rest =>
    cases moved
    simp [Point.ofPass]
  | passLookup ids =>
    change (coordinator.passLookup ids).2 = _ at moved
    cases ids with
    | nil => cases moved
    | cons txnId rest =>
      simp only [passLookup] at moved
      split at moved <;> cases moved <;> simp [Point.ofPass]
  | markerLookup abort =>
    change (coordinator.markerLookup abort).2 = _ at moved
    unfold markerLookup at moved
    split at moved <;> cases moved <;> simp [Point.ofPass]
  | markerSnapshot abort address =>
    change (coordinator.markerSnapshot abort address).2 = _ at moved
    unfold markerSnapshot at moved
    split at moved
    next => cases moved
    next => split at moved <;> cases moved <;> simp [Point.ofPass]
  | passReset abort =>
    change (coordinator.passReset abort).2 = _ at moved
    unfold passReset at moved
    split at moved <;> cases moved
    simp [Point.ofPass]

end TransactionCoordinator

end TorrentMq.Broker.Transactions
