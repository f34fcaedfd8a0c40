import TorrentMq.Broker.TransactionCoordinatorProperties

/-!
# Timeout passes

Passes that abort what has timed out, among the other calls. The mutex of a
state is not recursive here: a thread that locks it twice never goes on.
-/

set_option autoImplicit false

namespace TorrentMq.Broker.Transactions

open Bytes Runs Interleaving TransactionCoordinator List OrderedMap

/-!
## Mutexes of states
-/

/-- A coordinator, and the addresses of the states whose mutex is never released. -/
structure Contended where
  coordinator : TransactionCoordinator
  held : List Nat := []

/-- The state that the end of its transaction leaves behind: the mutex is held, and is locked again when the
markers are written. -/
def TransactionCoordinator.relocks (coordinator : TransactionCoordinator) : Point → Option (Bytes × TransactionIdState)
  | .locked request txnId address =>
    match coordinator.stateAt txnId address, request.body with
    | some state, .endTxn committed =>
      if state.producerEpoch = request.producerEpoch ∧ state.txnState = .ongoing then
        some (txnId, state.prepare committed)
      else none
    | _, _ => none
  | _ => none

namespace Contended

variable (contended : Contended)

def isHeld (txnId : Bytes) : Bool :=
  (contended.coordinator.txnStates.find? txnId).any fun state => decide (state.address ∈ contended.held)

/-- A section that needs a mutex that is never released. What its thread holds meanwhile keeps others
waiting at most. -/
def waits : Point → Bool
  | .init txnId timeoutMs =>
    contended.coordinator.transactionsEnabled && !txnId.isEmpty && decide (0 < timeoutMs) &&
      contended.isHeld txnId
  | .locked _ _ address | .markerSnapshot _ address => decide (address ∈ contended.held)
  | .passReset abort => decide (abort.address ∈ contended.held)
  | .collect => contended.coordinator.txnStates.keys.any contended.isHeld
  | _ => false

def act (point : Point) (input : Input) : Contended × Stage :=
  if contended.waits point then (contended, .running point)
  else
    let elapsed := contended.coordinator.elapse input
    match elapsed.relocks point with
    | some (txnId, prepared) =>
      ({ coordinator := elapsed.setState txnId prepared, held := prepared.address :: contended.held },
        .running point)
    | none =>
      let (after, stage) := elapsed.perform input point
      ({ contended with coordinator := after }, stage)

abbrev Pool := Interleaving.Pool Contended Point Outcome

def step (pool : Pool) (event : Event) : Pool :=
  Interleaving.step (fun point input contended => act contended point input) pool (event.enter Call.first)

def started (enableTransactions : Bool) : Pool := { shared := { coordinator := .start enableTransactions } }

end Contended

/-!
## What is expected of a pass
-/

def Point.pending : Point → List Bytes
  | .passLookup ids => ids
  | .markerLookup abort | .markerSnapshot abort _ | .markerWrite abort _ _
  | .passReset abort => abort.transactionalId :: abort.rest
  | .passDecrement rest => rest
  | _ => []

def ResetsTimedOut (pool : Contended.Pool) : Event → Prop
  | .start _ => True
  | .advance index input =>
    ∀ abort, pool.At index (.passReset abort) →
      let elapsed := pool.shared.coordinator.elapse input
      ∀ state, elapsed.stateAt abort.transactionalId abort.address = some state → state.txnState = .ongoing →
        state.hasTimedOut elapsed.now elapsed.transactionTimeoutMs = true

/-- No partition has a marker of either kind for one transaction, and no call has followed a pointer to a state that
is gone. -/
structure OneOutcome (pool : Contended.Pool) : Prop where
  markers : ∀ marker ∈ pool.shared.coordinator.history.markers, ∀ other ∈ pool.shared.coordinator.history.markers,
    marker.partition = other.partition → marker.transaction = other.transaction → marker.type = other.type
  defined : ∀ index : Nat, pool.calls[index]? ≠ some (.returned .undefined : Transactions.Stage)

/-- No transaction begins under an id that a pass has collected and not reset yet, and no state is replaced. -/
def Spares (pool : Contended.Pool) : Event → Prop
  | .start _ => True
  | .advance index _ =>
    ∀ point, pool.At index point →
      match point with
      | .insert txnId _ => pool.shared.coordinator.txnStates.find? txnId = none
      | .locked request txnId address =>
        ∀ state, pool.shared.coordinator.stateAt txnId address = some state →
          state.producerEpoch = request.producerEpoch →
            match request.body with
            | .addPartitions _ =>
              state.txnState = .empty →
                ∀ other pass, pool.At other pass → txnId ∉ pass.pending
            | _ => True
      | _ => True

/-!
## What a section does
-/

section Effects

variable {coordinator after : TransactionCoordinator} {input : Input} {point : Point} {request : Request}
  {txnId : Bytes} {state written : TransactionIdState} {address : Nat}

def Lives (coordinator : TransactionCoordinator) (txnId : Bytes) (address : Nat) : Prop :=
  ∃ state, coordinator.txnStates.find? txnId = some state ∧ state.address = address

/-- A section that begins a transaction. -/
def Begins (point : Point) (before : TransactionCoordinator) (txnId : Bytes) : Prop :=
  ∃ request address state partitions, point = .locked request txnId address ∧
    before.stateAt txnId address = some state ∧ request.body = .addPartitions partitions ∧
      state.producerEpoch = request.producerEpoch ∧ state.txnState = .empty

/-- Markers are those of aborts, no state goes away, and a transaction that goes on has gone on before, unless
the section begins it. -/
structure Effect (point : Point) (after before : TransactionCoordinator) : Prop where
  markers : ∀ marker ∈ after.history.markers, marker ∈ before.history.markers ∨ marker.type = .abort
  now : after.now = before.now
  timeout : after.transactionTimeoutMs = before.transactionTimeoutMs
  lives : ∀ txnId address, Lives before txnId address → Lives after txnId address
  ongoing : ∀ txnId state, after.txnStates.find? txnId = some state → state.txnState = .ongoing →
    Begins point before txnId ∨ ∃ earlier, before.txnStates.find? txnId = some earlier ∧
      earlier.txnState = .ongoing ∧ earlier.txnStartTime = state.txnStartTime

theorem effect_of_same (states : after.txnStates = coordinator.txnStates)
    (markers : ∀ marker ∈ after.history.markers, marker ∈ coordinator.history.markers ∨ marker.type = .abort)
    (now : after.now = coordinator.now) (timeout : after.transactionTimeoutMs = coordinator.transactionTimeoutMs) :
    Effect point after coordinator where
  markers := markers
  now := now
  timeout := timeout
  lives := by
    unfold Lives
    rw [states]
    exact fun _ _ alive => alive
  ongoing := by
    rw [states]
    exact fun _ state found ongoing => .inr ⟨state, found, ongoing, rfl⟩

theorem Effect.refl (coordinator : TransactionCoordinator) : Effect point coordinator coordinator :=
  effect_of_same rfl (fun _ => .inl) rfl rfl

theorem effect_insert (states : after.txnStates = coordinator.txnStates.insert txnId written)
    (markers : after.history.markers = coordinator.history.markers) (now : after.now = coordinator.now)
    (timeout : after.transactionTimeoutMs = coordinator.transactionTimeoutMs)
    (same : ∀ state, coordinator.txnStates.find? txnId = some state → written.address = state.address)
    (goes : written.txnState = .ongoing → Begins point coordinator txnId ∨
      ∃ state, coordinator.txnStates.find? txnId = some state ∧ state.txnState = .ongoing ∧
        state.txnStartTime = written.txnStartTime) : Effect point after coordinator where
  markers := by
    rw [markers]
    exact fun _ => .inl
  now := now
  timeout := timeout
  lives := by
    rintro other address ⟨stored, present, there⟩
    rw [Lives, states]
    simp only [find?_insert]
    split
    next own => exact ⟨written, rfl, (same stored (own ▸ present)).trans there⟩
    next => exact ⟨stored, present, there⟩
  ongoing := by
    intro other stored present ongoing
    rw [states, find?_insert] at present
    split at present
    next own =>
      cases present
      rw [own]
      exact goes ongoing
    next => exact .inr ⟨stored, present, ongoing, rfl⟩

section

variable (found : coordinator.txnStates.find? txnId = some state)

include found

theorem effect_setState (same : written.address = state.address)
    (goes : written.txnState = .ongoing → state.txnState = .ongoing ∧ state.txnStartTime = written.txnStartTime) :
    Effect point (coordinator.setState txnId written) coordinator :=
  effect_insert rfl rfl rfl rfl (fun stored present => by rw [same, Option.some.inj (found.symm.trans present)])
    fun ongoing => .inr ⟨state, found, goes ongoing⟩

theorem effect_addPartitions {partitions : List Partition} (here : point = .locked request txnId address)
    (there : coordinator.stateAt txnId address = some state) (body : request.body = .addPartitions partitions)
    (epoch : state.producerEpoch = request.producerEpoch) :
    Effect point (coordinator.addPartitions input txnId state partitions).1 coordinator := by
  unfold addPartitions
  split
  next empty =>
    obtain ⟨enrolled, activity, result⟩ := @enroll_eq (coordinator.beginTransaction txnId state) input
      txnId (state.begin coordinator.now coordinator.history.begun) partitions
    rw [result]
    refine effect_insert insert_insert rfl rfl rfl ?_ fun _ =>
      .inl ⟨request, address, state, partitions, here, there, body, epoch, empty⟩
    intro stored present
    cases found.symm.trans present
    rfl
  next ongoing =>
    obtain ⟨enrolled, activity, result⟩ := @enroll_eq coordinator input txnId state partitions
    rw [result]
    exact effect_setState found rfl fun _ => ⟨ongoing, rfl⟩
  next => exact .refl coordinator

end

theorem effect_locked (alone : coordinator.relocks (.locked request txnId address) = none) :
    Effect (.locked request txnId address)
      (coordinator.locked input request txnId address).1 coordinator := by
  unfold locked
  split
  next => exact .refl coordinator
  next state there =>
    have found := (find?_of_stateAt there).1
    unfold serve
    dsimp only
    split
    next => exact .refl coordinator
    next admitted =>
      have epoch := eq_of_checkProducerEpoch admitted
      split
      next partitions body => exact effect_addPartitions found rfl there body epoch
      next =>
        unfold addOffsets
        split
        next => exact effect_setState found rfl fun ongoing => ⟨ongoing, rfl⟩
        next => exact .refl coordinator
      next committed body =>
        unfold relocks at alone
        simp only [there, body] at alone
        unfold endTxn
        rw [if_neg fun ongoing => by rw [if_pos ⟨epoch, ongoing⟩] at alone; cases alone]
        exact .refl coordinator

theorem effect_relocks {prepared : TransactionIdState}
    (again : coordinator.relocks point = some (txnId, prepared)) :
    Effect point (coordinator.setState txnId prepared) coordinator := by
  unfold relocks at again
  split at again
  next =>
    split at again
    next state committed there _ =>
      split at again
      next =>
        cases again
        refine effect_setState (find?_of_stateAt there).1 rfl fun ongoing => ?_
        cases committed <;> cases ongoing
      next => cases again
    next => cases again
  next => cases again

theorem effect_init {timeoutMs : Int} : Effect point (coordinator.init txnId timeoutMs).1 coordinator := by
  rcases @init_cases coordinator txnId timeoutMs with ⟨error, result⟩ | ⟨-, result⟩ |
    ⟨-, -, ⟨state, found, result⟩ | ⟨-, result⟩⟩
  · rw [result]
    exact .refl coordinator
  · rw [result]
    exact effect_of_same rfl (fun _ => .inl) rfl rfl
  · have kept : (state.reinitialize coordinator.now).address = state.address ∧
        ((state.reinitialize coordinator.now).txnState = .ongoing → state.txnState = .ongoing ∧
          state.txnStartTime = (state.reinitialize coordinator.now).txnStartTime) := by
      unfold TransactionIdState.reinitialize
      dsimp only
      split
      next => exact ⟨rfl, fun ongoing => ⟨ongoing, rfl⟩⟩
      next => exact ⟨rfl, nofun⟩
    rw [result]
    exact effect_insert rfl rfl rfl rfl
      (fun stored present => by rw [kept.1, Option.some.inj (found.symm.trans present)])
      fun ongoing => .inr ⟨state, found, kept.2 ongoing⟩
  · rw [result]
    exact .refl coordinator

theorem effect_perform
    (fresh : ∀ txnId pid, point = .insert txnId pid →
      coordinator.txnStates.find? txnId = none) (alone : coordinator.relocks point = none) :
    Effect point (coordinator.perform input point).1 coordinator := by
  cases point with
  | init txnId timeoutMs => exact effect_init
  | allocate txnId | passDecrement rest => exact effect_of_same rfl (fun _ => .inl) rfl rfl
  | insert txnId pid =>
    have absent := fresh txnId pid rfl
    refine effect_insert rfl rfl rfl rfl (fun stored present => ?_) fun gone => by cases gone
    cases absent.symm.trans present
  | resolve request =>
    change Effect _ (coordinator.resolve request).1 coordinator
    unfold resolve
    split
    next => exact .refl coordinator
    next => split <;> exact .refl coordinator
  | findState request txnId =>
    change Effect _ (coordinator.findState request txnId).1 coordinator
    unfold findState
    split <;> exact .refl coordinator
  | locked request txnId address => exact effect_locked alone
  | collect => exact .refl coordinator
  | passLookup ids =>
    change Effect _ (coordinator.passLookup ids).1 coordinator
    cases ids with
    | nil => exact .refl coordinator
    | cons txnId rest =>
      simp only [passLookup]
      split <;> exact .refl coordinator
  | markerLookup abort =>
    change Effect _ (coordinator.markerLookup abort).1 coordinator
    unfold markerLookup
    split <;> exact .refl coordinator
  | markerSnapshot abort address =>
    change Effect _ (coordinator.markerSnapshot abort address).1 coordinator
    unfold markerSnapshot
    split
    next => exact .refl coordinator
    next =>
      split
      next => exact .refl coordinator
      next => exact effect_of_same rfl (fun _ => .inl) rfl rfl
  | markerWrite abort partitions transaction =>
    refine effect_of_same rfl (fun marker member => ?_) rfl rfl
    rcases mem_append.mp member with new | old
    · obtain ⟨partition, -, rfl⟩ := mem_map.mp new
      exact .inr rfl
    · exact .inl old
  | passReset abort =>
    change Effect _ (coordinator.passReset abort).1 coordinator
    unfold passReset
    split
    next => exact .refl coordinator
    next state found => exact effect_setState (find?_of_stateAt found).1 rfl fun gone => by cases gone

end Effects

/-!
## What calls know
-/

/-- The transaction of an id has timed out, if it is going on. -/
def Settled (coordinator : TransactionCoordinator) (txnId : Bytes) : Prop :=
  ∀ state, coordinator.txnStates.find? txnId = some state → state.txnState = .ongoing →
    state.hasTimedOut coordinator.now coordinator.transactionTimeoutMs = true

def Point.pointers : Point → List (Bytes × Nat)
  | .locked _ txnId address => [(txnId, address)]
  | .markerLookup abort | .markerWrite abort _ _ | .passReset abort => [(abort.transactionalId, abort.address)]
  | .markerSnapshot abort address => [(abort.transactionalId, address), (abort.transactionalId, abort.address)]
  | _ => []

structure Point.Sees (point : Point) (coordinator : TransactionCoordinator) : Prop where
  settled : ∀ txnId ∈ point.pending, Settled coordinator txnId
  pointers : ∀ pointer ∈ point.pointers, Lives coordinator pointer.1 pointer.2

section Calls

variable {coordinator after : TransactionCoordinator} {input : Input} {point other next : Point} {pool : Contended.Pool}
  {txnId : Bytes} {address index : Nat}

theorem Point.Sees.elapse (sees : point.Sees coordinator) : point.Sees (coordinator.elapse input) where
  settled := by
    intro txnId member state found ongoing
    have timed_out := of_decide_eq_true (sees.settled txnId member state found ongoing)
    refine decide_eq_true ?_
    change coordinator.transactionTimeoutMs < coordinator.now + input.elapsed - state.txnStartTime
    omega
  pointers := sees.pointers

theorem Point.Sees.effect (sees : other.Sees coordinator) (effect : Effect point after coordinator)
    (not_begun : ∀ txnId ∈ other.pending, ¬Begins point coordinator txnId) : other.Sees after where
  settled := by
    intro txnId member state found ongoing
    obtain ⟨earlier, present, before, start⟩ :=
      (effect.ongoing txnId state found ongoing).resolve_left (not_begun txnId member)
    have timed_out := sees.settled txnId member earlier present before
    rw [TransactionIdState.hasTimedOut, effect.now, effect.timeout, ← start]
    exact timed_out
  pointers := fun pointer member => effect.lives _ _ (sees.pointers pointer member)

theorem sees_nothing (pending : next.pending = []) (pointers : next.pointers = []) : next.Sees coordinator where
  settled := by
    rw [pending]
    exact nofun
  pointers := by
    rw [pointers]
    exact nofun

theorem settled_timedOutIds {id : Bytes} (member : id ∈ coordinator.timedOutIds input) : Settled coordinator id := by
  intro state found _
  have timed_out := (List.mem_filter.mp member).2
  rw [isTimedOut, found, Option.any_some, Bool.and_eq_true] at timed_out
  exact timed_out.2

theorem sees_next (sees : point.Sees coordinator)
    (effect : Effect point (coordinator.perform input point).1 coordinator)
    (moved : (coordinator.perform input point).2 = .running next) : next.Sees (coordinator.perform input point).1 := by
  rcases running_cases moved with ⟨_, _, rfl, rfl, -⟩ | ⟨_, rfl, rfl⟩ | ⟨_, _, rfl, rfl, -⟩ |
    ⟨request, txnId, state, rfl, rfl, found⟩ | ⟨pass, -⟩
  · exact sees_nothing rfl rfl
  · exact sees_nothing rfl rfl
  · exact sees_nothing rfl rfl
  · have alive : Lives coordinator txnId state.address := ⟨state, found, rfl⟩
    refine ⟨forall_mem_nil _, fun pointer member => ?_⟩
    obtain rfl := mem_singleton.mp member
    exact effect.lives _ _ alive
  · have kept : point.Sees (coordinator.perform input point).1 := by
      refine sees.effect effect ?_
      rintro _ _ ⟨_, _, _, _, rfl, -⟩
      cases pass
    cases point with
    | collect =>
      cases moved
      exact ⟨fun id member => settled_timedOutIds member, forall_mem_nil _⟩
    | passLookup ids =>
      change (coordinator.passLookup ids).2 = _ at moved
      cases ids with
      | nil => cases moved
      | cons txnId rest =>
        simp only [passLookup] at moved
        split at moved
        next =>
          cases moved
          exact ⟨fun id member => kept.settled id (mem_cons_of_mem _ member), forall_mem_nil _⟩
        next state found =>
          cases moved
          have alive : Lives coordinator txnId state.address := ⟨state, found, rfl⟩
          refine ⟨kept.settled, fun pointer member => ?_⟩
          obtain rfl := mem_singleton.mp member
          exact effect.lives _ _ alive
    | markerLookup abort =>
      change (coordinator.markerLookup abort).2 = _ at moved
      unfold markerLookup at moved
      split at moved
      next =>
        cases moved
        exact ⟨kept.settled, kept.pointers⟩
      next state found =>
        cases moved
        have alive : Lives coordinator abort.transactionalId state.address := ⟨state, found, rfl⟩
        refine ⟨kept.settled, fun pointer member => ?_⟩
        rcases mem_cons.mp member with rfl | own
        · exact effect.lives _ _ alive
        · exact kept.pointers pointer own
    | markerSnapshot abort address =>
      have own : ∀ pointer ∈ [(abort.transactionalId, abort.address)],
          Lives (coordinator.perform input (.markerSnapshot abort address)).1 pointer.1 pointer.2 :=
        fun pointer member => kept.pointers pointer (mem_cons_of_mem _ member)
      change (coordinator.markerSnapshot abort address).2 = _ at moved
      cases found : coordinator.stateAt abort.transactionalId address with
      | none =>
        simp only [markerSnapshot, found] at moved
        cases moved
      | some state =>
        by_cases none : state.txnPartitions.isEmpty = true
        · simp only [markerSnapshot, found, none, if_true] at moved
          cases moved
          exact ⟨kept.settled, own⟩
        · simp only [markerSnapshot, found, none] at moved
          cases moved
          exact ⟨kept.settled, own⟩
    | markerWrite abort partitions transaction =>
      cases moved
      exact ⟨kept.settled, kept.pointers⟩
    | passReset abort =>
      change (coordinator.passReset abort).2 = _ at moved
      unfold passReset at moved
      split at moved
      next => cases moved
      next =>
        cases moved
        exact ⟨fun id member => kept.settled id (mem_cons_of_mem _ member), forall_mem_nil _⟩
    | passDecrement rest =>
      cases moved
      exact ⟨kept.settled, forall_mem_nil _⟩
    | _ => cases pass

theorem stateAt_of_lives (alive : Lives coordinator txnId address) :
    ∃ state, coordinator.stateAt txnId address = some state := by
  obtain ⟨state, found, same⟩ := alive
  exact ⟨state, Option.filter_eq_some_iff.mpr ⟨found, decide_eq_true same⟩⟩

variable {state : TransactionIdState}

theorem serve_ne_undefined {request : Request} :
    (coordinator.serve input request txnId state).2 ≠ .undefined := by
  unfold serve
  split
  next => exact nofun
  next =>
    split
    next =>
      unfold addPartitions enroll
      split
      next => split <;> exact nofun
      next => split <;> exact nofun
      next => exact nofun
    next =>
      unfold addOffsets
      split <;> exact nofun
    next =>
      unfold endTxn
      split <;> exact nofun

theorem defined_perform (sees : point.Sees coordinator) :
    (coordinator.perform input point).2 ≠ (.returned .undefined : Transactions.Stage) := by
  cases point with
  | init txnId timeoutMs =>
    change (coordinator.init txnId timeoutMs).2 ≠ _
    rcases @init_cases coordinator txnId timeoutMs with ⟨error, result⟩ | ⟨-, result⟩ |
      ⟨-, -, ⟨state, found, result⟩ | ⟨-, result⟩⟩ <;> rw [result] <;> rintro ⟨⟩
  | allocate txnId => rintro ⟨⟩
  | insert txnId pid => rintro ⟨⟩
  | resolve request =>
    change (coordinator.resolve request).2 ≠ _
    unfold resolve
    split
    next outcome checked =>
      intro undefined
      cases undefined
      revert checked
      unfold checkBody
      cases request.body with
      | addPartitions partitions | addOffsets groupId | endTxn committed => dsimp only; split_ifs <;> rintro ⟨⟩
    next => split <;> rintro ⟨⟩
  | findState request txnId =>
    change (coordinator.findState request txnId).2 ≠ _
    unfold findState
    split <;> rintro ⟨⟩
  | locked request txnId address =>
    obtain ⟨state, found⟩ := stateAt_of_lives (sees.pointers _ mem_cons_self)
    change (coordinator.locked input request txnId address).2 ≠ _
    simp only [locked, found]
    exact fun undefined => serve_ne_undefined (Stage.returned.inj undefined)
  | collect => rintro ⟨⟩
  | passLookup ids =>
    change (coordinator.passLookup ids).2 ≠ _
    cases ids with
    | nil => rintro ⟨⟩
    | cons txnId rest =>
      simp only [passLookup]
      split <;> rintro ⟨⟩
  | markerLookup abort =>
    change (coordinator.markerLookup abort).2 ≠ _
    unfold markerLookup
    split <;> rintro ⟨⟩
  | markerSnapshot abort address =>
    obtain ⟨state, found⟩ := stateAt_of_lives (sees.pointers _ mem_cons_self)
    change (coordinator.markerSnapshot abort address).2 ≠ _
    simp only [markerSnapshot, found]
    split <;> rintro ⟨⟩
  | markerWrite abort partitions transaction => rintro ⟨⟩
  | passReset abort =>
    obtain ⟨state, found⟩ := stateAt_of_lives (sees.pointers _ mem_cons_self)
    change (coordinator.passReset abort).2 ≠ _
    simp only [passReset, found]
    rintro ⟨⟩
  | passDecrement rest => rintro ⟨⟩

/-- An advance leaves the call where it is, or is a section of its own. -/
theorem act_cases (contended : Contended) (point : Point) (input : Input) :
    (contended.act point input).1.coordinator = contended.coordinator ∧ (contended.act point input).2 = .running point ∨
      (∃ txnId prepared,
        (contended.coordinator.elapse input).relocks point = some (txnId, prepared) ∧
        (contended.act point input).1.coordinator =
          (contended.coordinator.elapse input).setState txnId prepared ∧
            (contended.act point input).2 = .running point) ∨
      (contended.coordinator.elapse input).relocks point = none ∧
        (contended.act point input).1.coordinator = ((contended.coordinator.elapse input).perform input point).1 ∧
        (contended.act point input).2 = ((contended.coordinator.elapse input).perform input point).2 := by
  unfold Contended.act
  split
  next => exact .inl ⟨rfl, rfl⟩
  next =>
    dsimp only
    cases again : (contended.coordinator.elapse input).relocks point with
    | some relocked => exact .inr (.inl ⟨relocked.1, relocked.2, rfl, rfl, rfl⟩)
    | none => exact .inr (.inr ⟨rfl, rfl, rfl⟩)

def AdmitsSpared (pool : Contended.Pool) (event : Interleaving.Event Point Input) : Prop :=
  ∃ outer : Event, outer.enter Call.first = event ∧ Spares pool outer

theorem spares_of_admits (admitted : AdmitsSpared pool (.advance index input)) :
    Spares pool (.advance index input) := by
  obtain ⟨outer, same, spares⟩ := admitted
  cases outer with
  | start call => cases same
  | advance other elsewhere =>
    cases same
    exact spares

section

variable (running : pool.At index point) (spares : Spares pool (.advance index input))

include running spares

theorem not_begun_of_spares {elsewhere : Nat} (pending : pool.At elsewhere other) :
    ∀ txnId ∈ other.pending, ¬Begins point (pool.shared.coordinator.elapse input) txnId := by
  rintro txnId member ⟨request, address, state, partitions, rfl, found, body, epoch, empty⟩
  have spared := spares _ running state found epoch
  rw [body] at spared
  exact spared empty elsewhere other pending member

/-- What a call knows, other than one whose own section this is, it knows afterwards too. -/
theorem sees_act {elsewhere : Nat} (pending : pool.At elsewhere other) (sees : other.Sees pool.shared.coordinator) :
    other.Sees (pool.shared.act point input).1.coordinator := by
  have not_begun := @not_begun_of_spares input point other pool index running spares elsewhere pending
  rcases act_cases pool.shared point input with ⟨same, -⟩ | ⟨txnId, prepared, again, same, -⟩ |
    ⟨alone, same, -⟩
  · rw [same]
    exact sees
  · rw [same]
    exact sees.elapse.effect (effect_relocks again) not_begun
  · rw [same]
    refine sees.elapse.effect (effect_perform (fun id pid here => ?_) alone) not_begun
    subst here
    exact spares _ running

end

def Aborts (coordinator : TransactionCoordinator) : Prop := ∀ marker ∈ coordinator.history.markers, marker.type = .abort

theorem Aborts.elapse (aborts : Aborts coordinator) : Aborts (coordinator.elapse input) := aborts

theorem Aborts.effect (aborts : Aborts coordinator) (effect : Effect point after coordinator) : Aborts after :=
  fun marker member => (effect.markers marker member).elim (aborts marker) id

theorem outline_spared : Outline (fun point input contended => Contended.act contended point input) AdmitsSpared
    (fun contended => Aborts contended.coordinator) (fun point contended => point.Sees contended.coordinator)
    fun _ _ => True where
  starts := by
    rintro pool point ⟨outer, same, -⟩ -
    cases outer with
    | advance index input => cases same
    | start call =>
      cases same
      refine ⟨?_, fun _ _ _ => ⟨trivial, trivial⟩⟩
      cases call <;> exact sees_nothing rfl rfl
  keeps := by
    intro pool index point input running admitted aborts sees
    have spares := spares_of_admits admitted
    rcases act_cases pool.shared point input with ⟨same, -⟩ | ⟨txnId, prepared, again, same, -⟩ |
      ⟨alone, same, -⟩
    · rw [same]
      exact aborts
    · rw [same]
      exact aborts.elapse.effect (effect_relocks again)
    · rw [same]
      refine aborts.elapse.effect (effect_perform (fun id pid here => ?_) alone)
      subst here
      exact spares _ running
  moves := by
    intro pool index point input next running admitted _ sees moved
    have spares := spares_of_admits admitted
    have kept := sees_act running spares running sees
    rcases act_cases pool.shared point input with ⟨-, stays⟩ | ⟨_, _, -, -, stays⟩ | ⟨alone, same, performed⟩
    · cases stays.symm.trans moved
      exact kept
    · cases stays.symm.trans moved
      exact kept
    · rw [same]
      refine sees_next sees.elapse (effect_perform (fun id pid here => ?_) alone) (performed.symm.trans moved)
      subst here
      exact spares _ running
  stable := by
    intro pool index point input elsewhere other running pending _ admitted _ _ others _
    exact sees_act running (spares_of_admits admitted) pending others
  separates := fun _ _ _ _ _ _ _ _ _ _ _ _ _ _ _ _ => ⟨trivial, trivial⟩

structure Sound (pool : Contended.Pool) : Prop where
  holds : Holds (fun contended => Aborts contended.coordinator)
    (fun point contended => point.Sees contended.coordinator) (fun _ _ => True) pool
  defined : ∀ index : Nat, pool.calls[index]? ≠ some (.returned .undefined : Transactions.Stage)

theorem Sound.step (sound : Sound pool) {event : Event} (spares : Spares pool event) :
    Sound (Contended.step pool event) where
  holds := outline_spared.step sound.holds ⟨event, rfl, spares⟩
  defined := by
    intro index undefined
    rcases returned_cases undefined with before | ⟨point, input, -, running, returns⟩
    · exact sound.defined index before
    · rcases act_cases pool.shared point input with ⟨-, stays⟩ | ⟨_, _, -, -, stays⟩ | ⟨-, -, performed⟩
      · cases stays.symm.trans returns
      · cases stays.symm.trans returns
      · exact defined_perform (sound.holds.knows index point running).elapse (performed.symm.trans returns)

theorem Sound.resetsTimedOut (sound : Sound pool) (event : Event) : ResetsTimedOut pool event := by
  cases event with
  | start call => trivial
  | advance index input =>
    intro abort resetting elapsed state found ongoing
    have sees : Point.Sees _ elapsed := (sound.holds.knows index _ resetting).elapse
    exact sees.settled abort.transactionalId mem_cons_self state (find?_of_stateAt found).1 ongoing

theorem Sound.oneOutcome (sound : Sound pool) : OneOutcome pool where
  markers := fun marker member other member' _ _ =>
    (sound.holds.shared marker member).trans (sound.holds.shared other member').symm
  defined := sound.defined

end Calls

/-- Among calls that spare it, a pass resets nothing but what has timed out, and no partition gets markers of both
kinds for one transaction. -/
theorem timeoutAborts_of_spares (enableTransactions : Bool) (events : List Event)
    (spares : Meets Contended.step Spares (Contended.started enableTransactions) events) :
    Meets Contended.step ResetsTimedOut (Contended.started enableTransactions) events ∧
      ∀ reached, reached <+: events →
        OneOutcome (run Contended.step (Contended.started enableTransactions) reached) := by
  have initial : Sound (Contended.started enableTransactions) := by
    refine ⟨.initial ?_, fun index undefined => by cases undefined⟩
    cases enableTransactions <;> exact nofun
  have sound : ∀ reached, reached <+: events →
      Sound (run Contended.step (Contended.started enableTransactions) reached) :=
    fun reached before => (spares.of_prefix before).preserves Sound (fun _ _ met sound => sound.step met) initial
  refine ⟨meets_of_prefixes fun before event reached _ => ?_, fun reached before => (sound reached before).oneOutcome⟩
  exact (sound before ((prefix_append before [event]).trans reached)).resetsTimedOut event

def inTurn (index : Nat) (call : Call) (inputs : List Input) : List Event :=
  .start call :: inputs.map (.advance index)

theorem timeoutAborts_alone :
    let events := inTurn 0 (.initProducerId [116] 1) [{}, {}, {}] ++
      inTurn 1 (.request ⟨1, 0, .addPartitions [([97], 0)]⟩) [{}, {}, {}] ++
        inTurn 2 .timeoutPass [{ elapsed := 60001 }, {}, {}, {}, {}, {}, {}, {}]
    Meets Contended.step ResetsTimedOut (Contended.started true) events ∧
      ∀ reached, reached <+: events → OneOutcome (run Contended.step (Contended.started true) reached) := by
  refine timeoutAborts_of_spares true _
    ⟨trivial, ?_, ?_, ?_, trivial, ?_, ?_, ?_, trivial, ?_, ?_, ?_, ?_, ?_, ?_, ?_, ?_, trivial⟩
  all_goals
    intro point running
    cases running
  case refine_3 => rfl
  case refine_6 =>
    intro state found epoch empty other pass pending
    match other, pending with
    | 0, pending => cases pending
    | 1, pending => cases pending; exact nofun
    | other + 2, pending => cases pending
  all_goals trivial

def overtakenPass : List Event :=
  inTurn 0 (.initProducerId [116] 1) [{}, {}, {}] ++
    inTurn 1 (.request ⟨1, 0, .addPartitions [([97], 0)]⟩) [{}, {}, {}] ++
      inTurn 2 .timeoutPass [{ elapsed := 60001 }] ++
        inTurn 3 (.initProducerId [116] 1) [{}] ++
          inTurn 4 (.request ⟨1, 1, .addPartitions [([97], 0)]⟩) [{}, {}, {}] ++
            [.advance 2 {}, .advance 2 {}, .advance 2 {}, .advance 2 {}, .advance 2 {}]

/-- The transaction that has timed out is fenced, and the next one is reset as it begins. -/
theorem overtakenPass_not_sound :
    ¬Meets Contended.step ResetsTimedOut (Contended.started true) overtakenPass := by
  intro resets
  have last := @Meets.last _ _ Contended.step ResetsTimedOut (Contended.started true) (overtakenPass.take 20)
    (.advance 2 {}) resets
  have timed_out := last _ rfl _ rfl rfl
  exact absurd timed_out (by decide)

end TorrentMq.Broker.Transactions
