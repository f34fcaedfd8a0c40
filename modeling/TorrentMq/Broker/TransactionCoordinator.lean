import Mathlib.Data.List.Sort
import TorrentMq.Bytes.Reader
import TorrentMq.Collections.OrderedMap
import TorrentMq.Runs.Interleaving

/-!
# Transaction coordinator

Producer ids, epochs and transactions, with one state for each transactional
id. Calls hold the mutexes in sections, and know a state that they have found
by its address in between.
-/

set_option autoImplicit false

namespace TorrentMq.Broker.Transactions

open Bytes

abbrev Partition := Bytes × Int32

def kDefaultTransactionTimeoutMs : Int := 60000

def kDefaultTransactionalIdExpirationMs : Int := 604800000

def kMaxPartitionsPerTxn : Nat := 5000

def kMinProducerId : Int64 := 0

def kInvalidProducerId : Int64 := -1

def kProducerIdBlockSize : Int64 := 1000

inductive TxnState where
  | empty
  | ongoing
  | prepareCommit
  | prepareAbort
  | completeCommit
  | completeAbort
  | dead
deriving DecidableEq

inductive ControlRecordType where
  | abort
  | commit
deriving DecidableEq

/-- The state of one transactional id. `address` tells it from a state that replaces it. -/
structure TransactionIdState where
  address : Nat
  producerId : Int64
  producerEpoch : Int16
  txnState : TxnState := .empty
  txnPartitions : List Partition := []
  txnStartTime : Int := 0
  lastActivity : Int
  transaction : Nat := 0
deriving DecidableEq

namespace TransactionIdState

variable (state : TransactionIdState) (now : Int)

def isExpired (expirationMs : Int) : Bool := decide (expirationMs < now - state.lastActivity)

def hasTimedOut (timeoutMs : Int) : Bool := decide (timeoutMs < now - state.txnStartTime)

def touchActivity : TransactionIdState := { state with lastActivity := now }

def resetTransaction : TransactionIdState := { state with txnPartitions := [], txnState := .empty, lastActivity := now }

def begin (number : Nat) : TransactionIdState :=
  { state with txnState := .ongoing, txnStartTime := now, transaction := number }

def prepare (committed : Bool) : TransactionIdState :=
  { state with txnState := if committed then .prepareCommit else .prepareAbort }

def complete (committed : Bool) : TransactionIdState :=
  { state with txnState := if committed then .completeCommit else .completeAbort }

def nextEpoch (epoch : Int16) : Int16 := if epoch + 1 < 0 then 0 else epoch + 1

def reinitialize : TransactionIdState :=
  let fenced := if state.txnState = .empty then state else state.resetTransaction now
  { fenced with producerEpoch := nextEpoch state.producerEpoch, lastActivity := now }

end TransactionIdState

structure ProducerIdAllocator where
  nextPid : Int64 := kMinProducerId
  blockEnd : Int64 := kMinProducerId

namespace ProducerIdAllocator

def allocate (allocator : ProducerIdAllocator) : ProducerIdAllocator × Int64 :=
  ({ nextPid := allocator.nextPid + 1
     blockEnd :=
      if allocator.blockEnd ≤ allocator.nextPid then allocator.nextPid + kProducerIdBlockSize else allocator.blockEnd },
    allocator.nextPid)

def initializeFrom (lastAssignedPid : Int64) : ProducerIdAllocator :=
  let start := max (lastAssignedPid + 1) kMinProducerId
  { nextPid := start, blockEnd := start + kProducerIdBlockSize }

end ProducerIdAllocator

/-!
## What is handed out and written
-/

/-- A producer id and epoch that an init has handed out. -/
structure Handout where
  transactionalId : Bytes
  producerId : Int64
  producerEpoch : Int16
deriving DecidableEq

/-- A marker in the log of a partition, with the transaction that it ends. -/
structure Marker where
  partition : Partition
  producerId : Int64
  producerEpoch : Int16
  type : ControlRecordType
  transaction : Nat
deriving DecidableEq

/-- What has happened: what producers were given, the latest first, how many transactions have begun, those of
which a timeout pass has read the partitions, and the markers that were written. -/
structure History where
  handed : List Handout := []
  begun : Nat := 0
  read : List Nat := []
  markers : List Marker := []

/-!
## Calls and their sections
-/

inductive TxnError where
  | transactionsDisabled
  | invalidTimeout
  | tooManyPartitions (count : Nat)
  | emptyGroupId
  | unknownProducerId (producerId : Int64)
  | transactionalIdNotFound (transactionalId : Bytes)
  | producerFenced (presented current : Int16)
  | invalidProducerEpoch (presented current : Int16)
  | invalidTxnState (state : TxnState)
  | notLeader (partition : Partition)
deriving DecidableEq

inductive Outcome where
  | producer (producerId : Int64)
  | done
  | failure (error : TxnError)
  | undefined
deriving DecidableEq

inductive Body where
  | addPartitions (partitions : List Partition)
  | addOffsets (groupId : Bytes)
  | endTxn (committed : Bool)
deriving DecidableEq

structure Request where
  producerId : Int64
  producerEpoch : Int16
  body : Body
deriving DecidableEq

/-- What a timeout pass holds while it aborts one transaction; `rest` are the ids still to come. -/
structure Abort where
  transactionalId : Bytes
  address : Nat
  producerId : Int64
  producerEpoch : Int16
  rest : List Bytes
deriving DecidableEq

/-- The locked sections that a call consists of, each with what the call carries into it. -/
inductive Point where
  | init (transactionalId : Bytes) (timeoutMs : Int)
  | allocate (transactionalId : Bytes)
  | insert (transactionalId : Bytes) (producerId : Int64)
  | resolve (request : Request)
  | findState (request : Request) (transactionalId : Bytes)
  | locked (request : Request) (transactionalId : Bytes) (address : Nat)
  | collect
  | passLookup (ids : List Bytes)
  | markerLookup (abort : Abort)
  | markerSnapshot (abort : Abort) (address : Nat)
  | markerWrite (abort : Abort) (partitions : List Partition) (transaction : Nat)
  | passReset (abort : Abort)
  | passDecrement (rest : List Bytes)
deriving DecidableEq

abbrev Stage := Interleaving.Stage Point Outcome

inductive Call where
  | initProducerId (transactionalId : Bytes) (timeoutMs : Int)
  | request (request : Request)
  | timeoutPass
deriving DecidableEq

def Call.first : Call → Point
  | .initProducerId transactionalId timeoutMs => .init transactionalId timeoutMs
  | .request asked => .resolve asked
  | .timeoutPass => .collect

/-- What a section finds: the time since the last one, which partitions the broker leads, and an order of the ids. -/
structure Input where
  elapsed : Nat := 0
  isLeader : Partition → Bool := fun _ => true
  order : IterationOrder Bytes := .ascending Bytes

def checkProducerEpoch (currentEpoch presentedEpoch : Int16) : Except TxnError Unit :=
  if presentedEpoch < currentEpoch then .error (.producerFenced presentedEpoch currentEpoch)
  else if currentEpoch < presentedEpoch then .error (.invalidProducerEpoch presentedEpoch currentEpoch)
  else .ok ()

def dedupe (partitions : List Partition) : List Partition :=
  (partitions.insertionSort fun left right => left.1 < right.1 ∨ left.1 = right.1 ∧ left.2 ≤ right.2).eraseReps

/-!
## The coordinator
-/

structure TransactionCoordinator where
  pidAllocator : ProducerIdAllocator := {}
  txnStates : OrderedMap Bytes TransactionIdState := .empty
  pidToTransactionalId : OrderedMap Int64 Bytes := .empty
  running : Bool := false
  transactionTimeoutMs : Int := kDefaultTransactionTimeoutMs
  transactionalIdExpirationMs : Int := kDefaultTransactionalIdExpirationMs
  transactionsEnabled : Bool := true
  activeTransactions : Nat := 0
  now : Int := 0
  nextAddress : Nat := 0
  history : History := {}

namespace TransactionCoordinator

def start (enableTransactions : Bool) : TransactionCoordinator :=
  if enableTransactions then { pidAllocator := .initializeFrom 0, running := true }
  else { transactionsEnabled := false, running := true }

variable (coordinator : TransactionCoordinator) (input : Input)

def elapse : TransactionCoordinator := { coordinator with now := coordinator.now + input.elapsed }

def setState (transactionalId : Bytes) (state : TransactionIdState) : TransactionCoordinator :=
  { coordinator with txnStates := coordinator.txnStates.insert transactionalId state }

/-- What a pointer that a call has kept leads to; nothing, once the state is gone. -/
def stateAt (transactionalId : Bytes) (address : Nat) : Option TransactionIdState :=
  (coordinator.txnStates.find? transactionalId).filter fun state => state.address = address

def handOut (transactionalId : Bytes) (producerId : Int64) (producerEpoch : Int16) : TransactionCoordinator :=
  { coordinator with
    history :=
      { coordinator.history with
        handed := ⟨transactionalId, producerId, producerEpoch⟩ :: coordinator.history.handed } }

def allocatePid : TransactionCoordinator × Int64 :=
  ({ coordinator with pidAllocator := coordinator.pidAllocator.allocate.1 }, coordinator.pidAllocator.allocate.2)

/-!
### Producer ids
-/

def init (transactionalId : Bytes) (timeoutMs : Int) : TransactionCoordinator × Stage :=
  if !coordinator.transactionsEnabled then (coordinator, .returned (.failure .transactionsDisabled))
  else if transactionalId.isEmpty then
    let (allocated, pid) := coordinator.allocatePid
    (allocated.handOut [] pid (-1), .returned (.producer pid))
  else if timeoutMs ≤ 0 then (coordinator, .returned (.failure .invalidTimeout))
  else
    match coordinator.txnStates.find? transactionalId with
    | some state =>
      let bumped := state.reinitialize coordinator.now
      ((coordinator.setState transactionalId bumped).handOut transactionalId bumped.producerId bumped.producerEpoch,
        .returned (.producer bumped.producerId))
    | none => (coordinator, .running (.allocate transactionalId))

def allocate (transactionalId : Bytes) : TransactionCoordinator × Stage :=
  let (allocated, pid) := coordinator.allocatePid
  (allocated, .running (.insert transactionalId pid))

def insert (transactionalId : Bytes) (pid : Int64) : TransactionCoordinator × Stage :=
  let state : TransactionIdState :=
    { address := coordinator.nextAddress
      producerId := pid
      producerEpoch := 0
      lastActivity := coordinator.now }
  ({ (coordinator.setState transactionalId state).handOut transactionalId pid 0 with
      nextAddress := coordinator.nextAddress + 1
      pidToTransactionalId := coordinator.pidToTransactionalId.insert pid transactionalId },
    .returned (.producer pid))

/-!
### Requests of producers
-/

def checkBody : Body → Option Outcome
  | .addPartitions partitions =>
    if !coordinator.transactionsEnabled then some (.failure .transactionsDisabled)
    else if partitions.isEmpty then some .done
    else if kMaxPartitionsPerTxn < partitions.length then some (.failure (.tooManyPartitions partitions.length))
    else none
  | .addOffsets groupId =>
    if !coordinator.transactionsEnabled then some (.failure .transactionsDisabled)
    else if groupId.isEmpty then some (.failure .emptyGroupId)
    else none
  | .endTxn _ => if !coordinator.transactionsEnabled then some (.failure .transactionsDisabled) else none

def resolve (request : Request) : TransactionCoordinator × Stage :=
  match coordinator.checkBody request.body with
  | some outcome => (coordinator, .returned outcome)
  | none =>
    match coordinator.pidToTransactionalId.find? request.producerId with
    | none => (coordinator, .returned (.failure (.unknownProducerId request.producerId)))
    | some transactionalId => (coordinator, .running (.findState request transactionalId))

def findState (request : Request) (transactionalId : Bytes) : TransactionCoordinator × Stage :=
  match coordinator.txnStates.find? transactionalId with
  | none => (coordinator, .returned (.failure (.transactionalIdNotFound transactionalId)))
  | some state => (coordinator, .running (.locked request transactionalId state.address))

def beginTransaction (transactionalId : Bytes) (state : TransactionIdState) : TransactionCoordinator :=
  { coordinator.setState transactionalId (state.begin coordinator.now coordinator.history.begun) with
    activeTransactions := coordinator.activeTransactions + 1
    history := { coordinator.history with begun := coordinator.history.begun + 1 } }

def enroll (transactionalId : Bytes) (state : TransactionIdState) (partitions : List Partition) :
    TransactionCoordinator × Outcome :=
  let enrolled := state.txnPartitions ++ partitions.takeWhile input.isLeader
  match partitions.find? fun partition => !input.isLeader partition with
  | some partition =>
    (coordinator.setState transactionalId { state with txnPartitions := enrolled }, .failure (.notLeader partition))
  | none =>
    (coordinator.setState transactionalId
      ({ state with txnPartitions := dedupe enrolled }.touchActivity coordinator.now), .done)

def addPartitions (transactionalId : Bytes) (state : TransactionIdState) (partitions : List Partition) :
    TransactionCoordinator × Outcome :=
  match state.txnState with
  | .empty =>
    (coordinator.beginTransaction transactionalId state).enroll input transactionalId
      (state.begin coordinator.now coordinator.history.begun) partitions
  | .ongoing => coordinator.enroll input transactionalId state partitions
  | other => (coordinator, .failure (.invalidTxnState other))

def addOffsets (transactionalId : Bytes) (state : TransactionIdState) : TransactionCoordinator × Outcome :=
  if state.txnState = .ongoing then
    (coordinator.setState transactionalId (state.touchActivity coordinator.now), .done)
  else (coordinator, .failure (.invalidTxnState state.txnState))

def appendMarkers (partitions : List Partition) (transaction : Nat) (pid : Int64) (epoch : Int16)
    (type : ControlRecordType) : TransactionCoordinator :=
  { coordinator with
    history :=
      { coordinator.history with
        markers := (partitions.filter input.isLeader).map (fun partition => ⟨partition, pid, epoch, type, transaction⟩) ++
          coordinator.history.markers } }

def writeTxnMarkers (transactionalId : Bytes) (pid : Int64) (epoch : Int16) (type : ControlRecordType) :
    TransactionCoordinator :=
  match coordinator.txnStates.find? transactionalId with
  | none => coordinator
  | some state => coordinator.appendMarkers input state.txnPartitions state.transaction pid epoch type

def endActive : TransactionCoordinator :=
  { coordinator with activeTransactions := coordinator.activeTransactions - 1 }

/-- With a mutex of the state that may be locked again by its owner, as the markers need it. -/
def endTxn (request : Request) (transactionalId : Bytes) (state : TransactionIdState) (committed : Bool) :
    TransactionCoordinator × Outcome :=
  if state.txnState = .ongoing then
    let prepared := coordinator.setState transactionalId (state.prepare committed)
    let marked := prepared.writeTxnMarkers input transactionalId request.producerId request.producerEpoch
      (if committed then .commit else .abort)
    let completed := (state.prepare committed).complete committed
    (marked.endActive.setState transactionalId (completed.resetTransaction coordinator.now), .done)
  else (coordinator, .failure (.invalidTxnState state.txnState))

def serve (request : Request) (transactionalId : Bytes) (state : TransactionIdState) :
    TransactionCoordinator × Outcome :=
  match checkProducerEpoch state.producerEpoch request.producerEpoch with
  | .error error => (coordinator, .failure error)
  | .ok _ =>
    match request.body with
    | .addPartitions partitions => coordinator.addPartitions input transactionalId state partitions
    | .addOffsets _ => coordinator.addOffsets transactionalId state
    | .endTxn committed => coordinator.endTxn input request transactionalId state committed

def locked (request : Request) (transactionalId : Bytes) (address : Nat) : TransactionCoordinator × Stage :=
  match coordinator.stateAt transactionalId address with
  | none => (coordinator, .returned .undefined)
  | some state =>
    let (after, outcome) := coordinator.serve input request transactionalId state
    (after, .returned outcome)

/-!
### Timeout passes
-/

def isTimedOut (transactionalId : Bytes) : Bool :=
  (coordinator.txnStates.find? transactionalId).any fun state =>
    decide (state.txnState = .ongoing) && state.hasTimedOut coordinator.now coordinator.transactionTimeoutMs

def timedOutIds : List Bytes := (input.order.visit coordinator.txnStates.keys).filter coordinator.isTimedOut

def passLookup : List Bytes → TransactionCoordinator × Stage
  | [] => (coordinator, .returned .done)
  | transactionalId :: rest =>
    match coordinator.txnStates.find? transactionalId with
    | none => (coordinator, .running (.passLookup rest))
    | some state =>
      (coordinator, .running (.markerLookup
        { transactionalId := transactionalId
          address := state.address
          producerId := state.producerId
          producerEpoch := state.producerEpoch
          rest := rest }))

def markerLookup (abort : Abort) : TransactionCoordinator × Stage :=
  match coordinator.txnStates.find? abort.transactionalId with
  | none => (coordinator, .running (.passReset abort))
  | some state => (coordinator, .running (.markerSnapshot abort state.address))

def markerSnapshot (abort : Abort) (address : Nat) : TransactionCoordinator × Stage :=
  match coordinator.stateAt abort.transactionalId address with
  | none => (coordinator, .returned .undefined)
  | some state =>
    if state.txnPartitions.isEmpty then (coordinator, .running (.passReset abort))
    else
      ({ coordinator with
          history := { coordinator.history with read := state.transaction :: coordinator.history.read } },
        .running (.markerWrite abort state.txnPartitions state.transaction))

def markerWrite (abort : Abort) (partitions : List Partition) (transaction : Nat) : TransactionCoordinator × Stage :=
  (coordinator.appendMarkers input partitions transaction abort.producerId abort.producerEpoch .abort,
    .running (.passReset abort))

def passReset (abort : Abort) : TransactionCoordinator × Stage :=
  match coordinator.stateAt abort.transactionalId abort.address with
  | none => (coordinator, .returned .undefined)
  | some state =>
    (coordinator.setState abort.transactionalId (state.resetTransaction coordinator.now),
      .running (.passDecrement abort.rest))

/-!
### Expiry passes and the end
-/

def isIdle (transactionalId : Bytes) : Bool :=
  (coordinator.txnStates.find? transactionalId).any fun state =>
    (decide (state.txnState = .empty) || decide (state.txnState = .dead)) &&
      state.isExpired coordinator.now coordinator.transactionalIdExpirationMs

def expire (transactionalId : Bytes) : TransactionCoordinator :=
  match coordinator.txnStates.find? transactionalId with
  | none => coordinator
  | some state =>
    { coordinator with
      txnStates := coordinator.txnStates.erase transactionalId
      pidToTransactionalId :=
        if state.producerId = kInvalidProducerId then coordinator.pidToTransactionalId
        else coordinator.pidToTransactionalId.erase state.producerId }

def expiryPass : TransactionCoordinator :=
  ((input.order.visit coordinator.txnStates.keys).filter coordinator.isIdle).foldl expire coordinator

def shutdown : TransactionCoordinator :=
  if coordinator.running then
    { coordinator with
      txnStates := coordinator.txnStates.mapValues fun _ state =>
        if state.txnState ≠ .empty ∧ state.txnState ≠ .dead then state.resetTransaction coordinator.now else state
      running := false }
  else coordinator

/-- One locked section. -/
def perform (point : Point) : TransactionCoordinator × Stage :=
  match point with
  | .init transactionalId timeoutMs => coordinator.init transactionalId timeoutMs
  | .allocate transactionalId => coordinator.allocate transactionalId
  | .insert transactionalId producerId => coordinator.insert transactionalId producerId
  | .resolve request => coordinator.resolve request
  | .findState request transactionalId => coordinator.findState request transactionalId
  | .locked request transactionalId address => coordinator.locked input request transactionalId address
  | .collect => (coordinator, .running (.passLookup (coordinator.timedOutIds input)))
  | .passLookup ids => coordinator.passLookup ids
  | .markerLookup abort => coordinator.markerLookup abort
  | .markerSnapshot abort address => coordinator.markerSnapshot abort address
  | .markerWrite abort partitions transaction => coordinator.markerWrite input abort partitions transaction
  | .passReset abort => coordinator.passReset abort
  | .passDecrement rest => (coordinator.endActive, .running (.passLookup rest))

def act (point : Point) (input : Input) (coordinator : TransactionCoordinator) : TransactionCoordinator × Stage :=
  (coordinator.elapse input).perform input point

end TransactionCoordinator

abbrev Pool := Interleaving.Pool TransactionCoordinator Point Outcome

abbrev Event := Interleaving.Event Call Input

def step (pool : Pool) (event : Event) : Pool :=
  Interleaving.step TransactionCoordinator.act pool (event.enter Call.first)

def started (enableTransactions : Bool) : Pool := { shared := .start enableTransactions }

inductive Happening where
  | call (call : Call) (inputs : List Input)
  | expiryPass (input : Input)
  | shutdown

/-- A complete call, an expiry pass or a shutdown, with nothing in between. -/
def happen (coordinator : TransactionCoordinator) : Happening → TransactionCoordinator
  | .call call inputs =>
    if call = .timeoutPass && !coordinator.running then coordinator
    else ((Interleaving.complete TransactionCoordinator.act inputs call.first coordinator).map Prod.fst).getD coordinator
  | .expiryPass input => if coordinator.running then (coordinator.elapse input).expiryPass input else coordinator
  | .shutdown => coordinator.shutdown

end TorrentMq.Broker.Transactions
