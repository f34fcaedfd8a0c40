import TorrentMq.Broker.TransactionCoordinatorProperties

/-! Zombie producers in every interleaving. -/

set_option autoImplicit false

namespace TorrentMq.Broker.Transactions

open Bytes Runs Interleaving TransactionCoordinator List OrderedMap Int16

def Point.presented : Point → Option Request
  | .resolve request | .findState request _ | .locked request _ _ => some request
  | _ => none

/-- No call that starts after an initialization has returned succeeds with what an earlier one of the same id has
handed out. -/
def FencesZombies (enableTransactions : Bool) (events : List Event) : Prop :=
  ∀ before after index input, before ++ after ++ [.advance index input] <+: events →
    (run step (started enableTransactions) before).calls.length ≤ index →
      ∀ point request, (run step (started enableTransactions) (before ++ after)).At index point →
        point.presented = some request →
          (act point input (run step (started enableTransactions) (before ++ after)).shared).2 = .returned .done →
            ∀ txnId newer older,
              (run step (started enableTransactions) before).shared.handedTo txnId =
                newer ++ (request.producerId, request.producerEpoch) :: older → newer = []

/-- A state is only made for an id that has none, epochs and producer ids do not wrap, and a request to add no
partitions at all is not made. -/
def Point.Guarded (point : Point) (coordinator : TransactionCoordinator) : Prop :=
  match point with
  | .init txnId _ =>
    if txnId = [] then coordinator.pidAllocator.nextPid ≠ Int64.maxValue
    else ∀ state ∈ coordinator.txnStates.find? txnId, state.producerEpoch ≠ maxValue
  | .allocate _ => coordinator.pidAllocator.nextPid ≠ Int64.maxValue
  | .insert txnId _ => coordinator.txnStates.find? txnId = none
  | .resolve request => request.body ≠ .addPartitions []
  | _ => True

def Guarded (pool : Pool) : Event → Prop
  | .start _ => True
  | .advance index _ => ∀ point, pool.At index point → point.Guarded pool.shared

section Handouts

variable {coordinator after : TransactionCoordinator} {input : Input} {point : Point} {request : Request}
  {txnId other : Bytes} {state : TransactionIdState} {pid : Int64} {epoch : Int16} {address : Nat}

theorem lt_nextEpoch (room : epoch ≠ maxValue) : epoch < TransactionIdState.nextEpoch epoch := by
  have below : epoch.toInt ≠ 2 ^ 15 - 1 := by
    rw [← toInt_maxValue, Ne, toInt_inj]
    exact room
  have upper := epoch.toInt_lt
  have lower := epoch.le_toInt
  have next : (epoch + 1).toInt = epoch.toInt + 1 := by
    rw [toInt_add, toInt_one]
    exact Int.bmod_eq_of_le (by omega) (by omega)
  unfold TransactionIdState.nextEpoch
  split
  next negative =>
    rw [lt_iff_toInt_lt, next, toInt_zero] at negative
    rw [lt_iff_toInt_lt, toInt_zero]
    omega
  next =>
    rw [lt_iff_toInt_lt, next]
    exact Int.lt_succ _

/-- What a producer has been given is known by its id, and the epochs of an id ascend to the current one. -/
structure Fencing (coordinator : TransactionCoordinator) : Prop where
  handed : ∀ handout ∈ coordinator.history.handed, handout.producerId < coordinator.pidAllocator.nextPid ∧
    coordinator.pidToTransactionalId.find? handout.producerId =
      if handout.transactionalId = [] then none else some handout.transactionalId
  mapped : ∀ pid txnId, coordinator.pidToTransactionalId.find? pid = some txnId →
    ∃ epoch, coordinator.identity txnId = some (pid, epoch)
  latest : ∀ txnId pid epoch, coordinator.identity txnId = some (pid, epoch) →
    txnId ≠ [] ∧ ∃ older, coordinator.handedTo txnId = (pid, epoch) :: older ∧
      ∀ pair ∈ older, pair.2 < epoch

theorem fencing_start (enableTransactions : Bool) : Fencing (.start enableTransactions) := by
  cases enableTransactions with
  | false | true => exact ⟨nofun, nofun, nofun⟩

theorem Fencing.of_same (fencing : Fencing coordinator) (same : SameProducers after coordinator) : Fencing after where
  handed := by
    rw [same.handed, same.allocator, same.mapped]
    exact fencing.handed
  mapped := by
    intro pid txnId found
    rw [same.identity]
    exact fencing.mapped pid txnId (same.mapped ▸ found)
  latest := by
    intro txnId pid epoch found
    rw [same.identity] at found
    rw [handedTo, same.handed]
    exact fencing.latest txnId pid epoch found

theorem handedTo_handOut : (coordinator.handOut txnId pid epoch).handedTo other =
    if txnId = other then (pid, epoch) :: coordinator.handedTo other else coordinator.handedTo other := by
  unfold handedTo handOut
  dsimp only
  rw [filter_cons]
  by_cases same : txnId = other
  · simp [same]
  · simp [same]

section

variable (fencing : Fencing coordinator)

include fencing

theorem Fencing.of_identity
    (known : coordinator.identity txnId = some (pid, epoch)) :
    pid < coordinator.pidAllocator.nextPid ∧ coordinator.pidToTransactionalId.find? pid = some txnId := by
  obtain ⟨named, older, handed, -⟩ := fencing.latest txnId pid epoch known
  have member : (pid, epoch) ∈ coordinator.handedTo txnId := by
    rw [handed]
    exact mem_cons_self
  obtain ⟨below, mapped⟩ := fencing.handed _ (mem_handedTo.mp member)
  rw [if_neg named] at mapped
  exact ⟨below, mapped⟩

theorem Fencing.handedTo_absent (named : txnId ≠ [])
    (absent : coordinator.txnStates.find? txnId = none) : coordinator.handedTo txnId = [] := by
  rw [eq_nil_iff_forall_not_mem]
  intro pair member
  obtain ⟨-, mapped⟩ := fencing.handed _ (mem_handedTo.mp member)
  rw [if_neg named] at mapped
  obtain ⟨epoch, known⟩ := fencing.mapped pair.1 txnId mapped
  rw [identity, absent] at known
  cases known

theorem Fencing.newest
    (mapped : coordinator.pidToTransactionalId.find? pid = some txnId)
    (known : coordinator.identity txnId = some (pid, epoch)) {newer older : List (Int64 × Int16)}
    (handed : coordinator.handedTo other = newer ++ (pid, epoch) :: older) : newer = [] := by
  have member : (pid, epoch) ∈ coordinator.handedTo other := by
    rw [handed]
    simp
  obtain ⟨-, of_other⟩ := fencing.handed _ (mem_handedTo.mp member)
  obtain rfl : txnId = other := by
    rw [mapped] at of_other
    split at of_other
    next => cases of_other
    next => exact Option.some.inj of_other
  obtain ⟨-, ago, latest, below⟩ := fencing.latest txnId pid epoch known
  rw [latest] at handed
  cases newer with
  | nil => rfl
  | cons pair newer =>
    have later : (pid, epoch) ∈ ago := by
      rw [(List.cons.inj handed).2]
      simp
    exact absurd (below (pid, epoch) later) (Int16.lt_irrefl)

theorem Fencing.allocatePid
    (room : coordinator.pidAllocator.nextPid ≠ Int64.maxValue) : Fencing coordinator.allocatePid.1 where
  handed := fun handout member =>
    ⟨(fencing.handed handout member).1.trans (lt_succ_pid room), (fencing.handed handout member).2⟩
  mapped := fencing.mapped
  latest := fencing.latest

end

structure Fresh (coordinator : TransactionCoordinator) (pid : Int64) : Prop where
  below : pid < coordinator.pidAllocator.nextPid
  unmapped : coordinator.pidToTransactionalId.find? pid = none
  unhanded : ∀ handout ∈ coordinator.history.handed, handout.producerId ≠ pid

section

variable (fencing : Fencing coordinator)

include fencing

theorem Fencing.fresh_nextPid
    (room : coordinator.pidAllocator.nextPid ≠ Int64.maxValue) :
    Fresh coordinator.allocatePid.1 coordinator.pidAllocator.nextPid where
  below := lt_succ_pid room
  unmapped := by
    change coordinator.pidToTransactionalId.find? coordinator.pidAllocator.nextPid = none
    cases mapped : coordinator.pidToTransactionalId.find? coordinator.pidAllocator.nextPid with
    | none => rfl
    | some txnId =>
      obtain ⟨epoch, known⟩ := fencing.mapped _ txnId mapped
      exact absurd (fencing.of_identity known).1 (lt_irrefl _)
  unhanded := fun handout member => (fencing.handed handout member).1.ne

theorem Fencing.handOut_fresh (fresh : Fresh coordinator pid) :
    Fencing (coordinator.handOut [] pid epoch) where
  handed := by
    intro handout member
    rcases mem_cons.mp member with rfl | old
    · exact ⟨fresh.below, fresh.unmapped⟩
    · exact fencing.handed handout old
  mapped := fencing.mapped
  latest := by
    intro txnId pid epoch known
    obtain ⟨named, latest⟩ := fencing.latest txnId pid epoch known
    refine ⟨named, ?_⟩
    rw [handedTo_handOut, if_neg (Ne.symm named)]
    exact latest

theorem Fencing.reinitialize
    (found : coordinator.txnStates.find? txnId = some state) (room : state.producerEpoch ≠ Int16.maxValue) :
    Fencing ((coordinator.setState txnId (state.reinitialize coordinator.now)).handOut txnId
      state.producerId (TransactionIdState.nextEpoch state.producerEpoch)) := by
  obtain ⟨named, ago, latest, below⟩ := fencing.latest txnId _ _ (identity_of_some found)
  refine ⟨fun handout member => ?_, fun pid other mapped => ?_, fun other pid epoch known => ?_⟩
  · rcases mem_cons.mp member with rfl | old
    · rw [if_neg named]
      exact fencing.of_identity (identity_of_some found)
    · exact fencing.handed handout old
  · change ∃ epoch, (coordinator.setState txnId (state.reinitialize coordinator.now)).identity other = _
    rw [identity_setState]
    obtain ⟨epoch, known⟩ := fencing.mapped pid other mapped
    split
    next same =>
      rw [same, identity_of_some found] at known
      rw [reinitialize_producerId, (Prod.mk.inj (Option.some.inj known)).1]
      exact ⟨_, rfl⟩
    next => exact ⟨epoch, known⟩
  · change (coordinator.setState txnId (state.reinitialize coordinator.now)).identity other = _ at known
    rw [identity_setState] at known
    rw [handedTo_handOut]
    split at known
    next same =>
      rw [reinitialize_producerId, reinitialize_producerEpoch] at known
      cases known
      rw [if_pos same.symm, same]
      refine ⟨named, _, rfl, fun pair member => ?_⟩
      change pair ∈ coordinator.handedTo txnId at member
      rw [latest] at member
      rcases mem_cons.mp member with rfl | older
      · exact lt_nextEpoch room
      · exact Int16.lt_trans (below pair older) (lt_nextEpoch room)
    next differs =>
      rw [if_neg (Ne.symm differs)]
      exact fencing.latest other pid epoch known

theorem Fencing.insert (named : txnId ≠ []) (fresh : Fresh coordinator pid)
    (absent : coordinator.txnStates.find? txnId = none) :
    Fencing (coordinator.insert txnId pid).1 := by
  let made : TransactionIdState :=
    { address := coordinator.nextAddress, producerId := pid, producerEpoch := 0, lastActivity := coordinator.now }
  refine ⟨fun handout member => ?_, fun other_pid other mapped => ?_, fun other other_pid epoch known => ?_⟩
  · change _ ∧ (coordinator.pidToTransactionalId.insert pid txnId).find? handout.producerId = _
    rw [find?_insert]
    rcases mem_cons.mp member with rfl | old
    · rw [if_pos rfl, if_neg named]
      exact ⟨fresh.below, rfl⟩
    · rw [if_neg (fresh.unhanded handout old)]
      exact fencing.handed handout old
  · change (coordinator.pidToTransactionalId.insert pid txnId).find? other_pid = _ at mapped
    change ∃ epoch, (coordinator.setState txnId made).identity other = _
    rw [find?_insert] at mapped
    rw [identity_setState]
    split at mapped
    next same =>
      rw [if_pos (Option.some.inj mapped).symm, same]
      exact ⟨0, rfl⟩
    next =>
      obtain ⟨epoch, known⟩ := fencing.mapped other_pid other mapped
      rw [if_neg]
      · exact ⟨epoch, known⟩
      · rintro rfl
        rw [identity, absent] at known
        cases known
  · change (coordinator.setState txnId made).identity other = _ at known
    change other ≠ [] ∧ ∃ older, (coordinator.handOut txnId pid 0).handedTo other = _ ∧ _
    rw [identity_setState] at known
    rw [handedTo_handOut]
    split at known
    next same =>
      cases known
      rw [if_pos same.symm, same, fencing.handedTo_absent named absent]
      exact ⟨named, [], rfl, forall_mem_nil _⟩
    next differs =>
      rw [if_neg (Ne.symm differs)]
      exact fencing.latest other other_pid epoch known

theorem Fencing.perform (guarded : point.Guarded coordinator)
    (known : ∀ txnId pid, point = .insert txnId pid → txnId ≠ [] ∧ Fresh coordinator pid) :
    Fencing (coordinator.perform input point).1 := by
  cases point with
  | init txnId timeoutMs =>
    change Fencing (coordinator.init txnId timeoutMs).1
    rcases @init_cases coordinator txnId timeoutMs with ⟨error, result⟩ | ⟨rfl, result⟩ |
      ⟨named, -, ⟨state, found, result⟩ | ⟨-, result⟩⟩
    · rw [result]
      exact fencing
    · have room : coordinator.pidAllocator.nextPid ≠ Int64.maxValue := guarded
      rw [result]
      exact (fencing.allocatePid room).handOut_fresh (fencing.fresh_nextPid room)
    · rw [Point.Guarded, if_neg named] at guarded
      rw [result]
      exact fencing.reinitialize found (guarded state found)
    · rw [result]
      exact fencing
  | allocate txnId => exact fencing.allocatePid guarded
  | insert txnId pid =>
    obtain ⟨named, fresh⟩ := known txnId pid rfl
    exact fencing.insert named fresh guarded
  | _ => exact fencing.of_same (sameProducers_perform rfl)

end

end Handouts

def Point.Knows (point : Point) (coordinator : TransactionCoordinator) : Prop :=
  match point with
  | .allocate txnId => txnId ≠ []
  | .insert txnId pid => txnId ≠ [] ∧ Fresh coordinator pid
  | .findState request txnId | .locked request txnId _ =>
    coordinator.pidToTransactionalId.find? request.producerId = some txnId
  | _ => True

def Point.Apart (point other : Point) : Prop :=
  ∀ txnId pid another pid', point = .insert txnId pid → other = .insert another pid' → pid ≠ pid'

section Calls

variable {coordinator after : TransactionCoordinator} {input : Input} {point other next : Point} {pool : Pool}
  {pid : Int64} {txnId : Bytes}

theorem knows_of_ofPass (pass : point.ofPass = true) : point.Knows coordinator := by
  cases point with
  | allocate | insert | findState | locked => cases pass
  | _ => trivial

theorem Fresh.of_same (fresh : Fresh coordinator pid) (same : SameProducers after coordinator) : Fresh after pid where
  below := by
    rw [same.allocator]
    exact fresh.below
  unmapped := by
    rw [same.mapped]
    exact fresh.unmapped
  unhanded := by
    rw [same.handed]
    exact fresh.unhanded

/-- Ids stay with their transactional ids, and those that are set apart stay fresh. -/
structure Extends (after before : TransactionCoordinator) (except : Int64 → Prop) : Prop where
  mapped : ∀ pid txnId, before.pidToTransactionalId.find? pid = some txnId →
    after.pidToTransactionalId.find? pid = some txnId
  fresh : ∀ pid, ¬except pid → Fresh before pid → Fresh after pid

theorem extends_of_same (same : SameProducers after coordinator) (except : Int64 → Prop) :
    Extends after coordinator except where
  mapped := by
    rw [same.mapped]
    exact fun _ _ found => found
  fresh := fun _ _ fresh => fresh.of_same same

theorem Point.Knows.extend (knows : other.Knows coordinator) {except : Int64 → Prop}
    (extends_ : Extends after coordinator except)
    (apart : ∀ txnId pid, other = .insert txnId pid → ¬except pid) : other.Knows after := by
  cases other with
  | allocate txnId => exact knows
  | insert txnId pid => exact ⟨knows.1, extends_.fresh pid (apart txnId pid rfl) knows.2⟩
  | findState request txnId | locked request txnId address => exact extends_.mapped _ _ knows
  | _ => trivial

section

variable (fencing : Fencing coordinator) (guarded : point.Guarded coordinator) (knows : point.Knows coordinator)

include fencing guarded knows

theorem extends_perform :
    Extends (coordinator.perform input point).1 coordinator fun pid => ∃ txnId,
      point = .insert txnId pid := by
  cases point with
  | init txnId timeoutMs =>
    change Extends (coordinator.init txnId timeoutMs).1 coordinator _
    rcases @init_cases coordinator txnId timeoutMs with ⟨error, result⟩ | ⟨rfl, result⟩ |
      ⟨named, -, ⟨state, found, result⟩ | ⟨-, result⟩⟩
    · rw [result]
      exact extends_of_same (.refl coordinator) _
    · have room : coordinator.pidAllocator.nextPid ≠ Int64.maxValue := guarded
      rw [result]
      refine ⟨fun _ _ found => found, fun pid _ fresh => ?_⟩
      refine ⟨fresh.below.trans (lt_succ_pid room), fresh.unmapped, fun handout member => ?_⟩
      rcases mem_cons.mp member with rfl | old
      · exact fresh.below.ne'
      · exact fresh.unhanded handout old
    · rw [result]
      refine ⟨fun _ _ found => found, fun pid _ fresh => ⟨fresh.below, fresh.unmapped, fun handout member => ?_⟩⟩
      rcases mem_cons.mp member with rfl | old
      · rintro rfl
        cases fresh.unmapped.symm.trans (fencing.of_identity (identity_of_some found)).2
      · exact fresh.unhanded handout old
    · rw [result]
      exact extends_of_same (.refl coordinator) _
  | allocate txnId =>
    refine ⟨fun _ _ found => found, fun pid _ fresh => ?_⟩
    exact ⟨fresh.below.trans (lt_succ_pid guarded), fresh.unmapped, fresh.unhanded⟩
  | insert txnId pid =>
    have own : Fresh coordinator pid := knows.2
    refine ⟨fun other named found => ?_, fun other differs fresh => ?_⟩
    · change (coordinator.pidToTransactionalId.insert pid txnId).find? other = some named
      rw [find?_insert, if_neg]
      · exact found
      · rintro rfl
        cases own.unmapped.symm.trans found
    · have other_id : other ≠ pid := by
        rintro rfl
        exact differs ⟨txnId, rfl⟩
      refine ⟨fresh.below, ?_, fun handout member => ?_⟩
      · change (coordinator.pidToTransactionalId.insert pid txnId).find? other = none
        rw [find?_insert, if_neg other_id]
        exact fresh.unmapped
      · rcases mem_cons.mp member with rfl | old
        · exact other_id.symm
        · exact fresh.unhanded handout old
  | _ => exact extends_of_same (sameProducers_perform rfl) _

theorem knows_next
    (moved : (coordinator.perform input point).2 = .running next) :
    next.Knows (coordinator.perform input point).1 := by
  rcases running_cases moved with ⟨txnId, timeoutMs, rfl, rfl, named⟩ | ⟨txnId, rfl, rfl⟩ |
    ⟨request, txnId, rfl, rfl, mapped⟩ | ⟨request, txnId, state, rfl, rfl, -⟩ | ⟨-, pass⟩
  · exact named
  · exact ⟨knows, fencing.fresh_nextPid guarded⟩
  · exact (extends_perform fencing guarded knows).mapped _ _ mapped
  · exact (extends_perform fencing guarded knows).mapped _ _ knows
  · exact knows_of_ofPass pass

end

theorem sameProducers_elapse : SameProducers (coordinator.elapse input) coordinator := ⟨rfl, rfl, rfl, fun _ => rfl⟩

theorem guarded_elapse : point.Guarded (coordinator.elapse input) ↔ point.Guarded coordinator := by
  cases point <;> exact Iff.rfl

def Admits (pool : Pool) (event : Interleaving.Event Point Input) : Prop :=
  ∃ outer : Event, outer.enter Call.first = event ∧ Guarded pool outer

theorem guarded_of_admits {index : Nat} (running : pool.At index point) (admitted : Admits pool (.advance index input)) :
    point.Guarded (pool.shared.elapse input) := by
  obtain ⟨outer, same, guarded⟩ := admitted
  cases outer with
  | start call => cases same
  | advance other elsewhere =>
    cases same
    exact guarded_elapse.mpr (guarded point running)

theorem knows_first (call : Call) : call.first.Knows coordinator := by
  cases call <;> trivial

theorem apart_first (call : Call) : call.first.Apart other ∧ other.Apart call.first := by
  constructor
  · intro txnId pid another pid' first
    cases call <;> cases first
  · intro txnId pid another pid' _ first
    cases call <;> cases first

theorem Fencing.elapse (fencing : Fencing coordinator) : Fencing (coordinator.elapse input) :=
  fencing.of_same sameProducers_elapse

theorem Point.Knows.elapse (knows : point.Knows coordinator) : point.Knows (coordinator.elapse input) :=
  knows.extend (extends_of_same sameProducers_elapse fun _ => False) fun _ _ _ => id

theorem outline : Outline TransactionCoordinator.act Admits Fencing Point.Knows Point.Apart where
  starts := by
    rintro pool point ⟨outer, same, -⟩ -
    cases outer with
    | advance index input => cases same
    | start call =>
      cases same
      exact ⟨knows_first call, fun _ _ _ => apart_first call⟩
  keeps := by
    intro pool index point input running admitted fencing knows
    refine fencing.elapse.perform (guarded_of_admits running admitted) fun txnId pid same => ?_
    have known : point.Knows (pool.shared.elapse input) := knows.elapse
    rw [same] at known
    exact known
  moves := by
    intro pool index point input next running admitted fencing knows moved
    exact knows_next fencing.elapse (guarded_of_admits running admitted) knows.elapse moved
  stable := by
    intro pool index point input other at_other running _ _ admitted fencing knows others apart
    have extended : Extends (act point input pool.shared).1 (pool.shared.elapse input) _ :=
      extends_perform fencing.elapse (guarded_of_admits running admitted) knows.elapse
    refine others.elapse.extend extended fun named pid own set_apart => ?_
    obtain ⟨txnId, same⟩ := set_apart
    exact apart txnId pid named pid same own rfl
  separates := by
    intro pool index point input next other at_other running _ _ admitted fencing knows others _ moved
    rcases running_cases moved with ⟨_, _, -, rfl, -⟩ | ⟨allocated, rfl, rfl⟩ | ⟨_, _, -, rfl, -⟩ |
      ⟨_, _, _, -, rfl, -⟩ | ⟨-, pass⟩
    · exact ⟨nofun, nofun⟩
    · have less : ∀ named pid, at_other = .insert named pid → pid < pool.shared.pidAllocator.nextPid := by
        rintro named pid rfl
        exact others.2.below
      constructor
      · intro txnId pid named pid' own set_apart
        cases own
        exact (less named pid' set_apart).ne'
      · intro named pid' txnId pid set_apart own
        cases own
        exact (less named pid' set_apart).ne
    · exact ⟨nofun, nofun⟩
    · exact ⟨nofun, nofun⟩
    · constructor
      · rintro _ _ _ _ rfl
        cases pass
      · rintro _ _ _ _ _ rfl
        cases pass

theorem holds_of_guarded {enableTransactions : Bool} {events : List Event}
    (guarded : Meets step Guarded (started enableTransactions) events) :
    Holds Fencing Point.Knows Point.Apart (run step (started enableTransactions) events) :=
  guarded.preserves (Holds Fencing Point.Knows Point.Apart)
    (fun _ event met holds => outline.step holds ⟨event, rfl, met⟩) (.initial (fencing_start enableTransactions))

theorem epoch_of_done {request : Request} {state : TransactionIdState}
    (succeeded : (coordinator.serve input request txnId state).2 = .done) :
    state.producerEpoch = request.producerEpoch := by
  unfold serve at succeeded
  split at succeeded
  next => cases succeeded
  next admitted => exact eq_of_checkProducerEpoch admitted

theorem checkBody_ne_done {body : Body} (some_partitions : body ≠ .addPartitions []) :
    coordinator.checkBody body ≠ some .done := by
  unfold checkBody
  cases body with
  | addPartitions partitions =>
    have not_empty : partitions.isEmpty = false := by
      cases partitions with
      | nil => exact absurd rfl some_partitions
      | cons => rfl
    simp only [not_empty, Bool.false_eq_true, if_false]
    split_ifs <;> simp
  | addOffsets groupId | endTxn committed => split_ifs <;> simp

theorem identity_of_done {request : Request} (presents : point.presented = some request)
    (guarded : point.Guarded coordinator) (fencing : Fencing coordinator) (knows : point.Knows coordinator)
    (succeeded : (coordinator.perform input point).2 = .returned .done) :
    ∃ txnId, coordinator.pidToTransactionalId.find? request.producerId = some txnId ∧
      coordinator.identity txnId = some (request.producerId, request.producerEpoch) := by
  cases point with
  | resolve asked =>
    change (coordinator.resolve asked).2 = _ at succeeded
    unfold resolve at succeeded
    split at succeeded
    next outcome checked =>
      cases succeeded
      exact absurd checked (checkBody_ne_done guarded)
    next => split at succeeded <;> cases succeeded
  | findState asked txnId =>
    change (coordinator.findState asked txnId).2 = _ at succeeded
    unfold findState at succeeded
    split at succeeded <;> cases succeeded
  | locked asked txnId address =>
    cases presents
    change (coordinator.locked input request txnId address).2 = _ at succeeded
    unfold locked at succeeded
    split at succeeded
    next => cases succeeded
    next state found =>
      have known := identity_of_some (find?_of_stateAt found).1
      obtain ⟨epoch, own⟩ := fencing.mapped request.producerId txnId knows
      have same_epoch := epoch_of_done (Stage.returned.inj succeeded)
      have same_id : state.producerId = request.producerId := (Prod.mk.inj (Option.some.inj (known.symm.trans own))).1
      refine ⟨txnId, knows, ?_⟩
      rw [known, same_id, same_epoch]
  | _ => cases presents

theorem handed_perform : ∃ more, (coordinator.perform input point).1.history.handed =
    more ++ coordinator.history.handed := by
  cases point with
  | init txnId timeoutMs =>
    change ∃ more, (coordinator.init txnId timeoutMs).1.history.handed = _
    rcases @init_cases coordinator txnId timeoutMs with ⟨error, result⟩ | ⟨-, result⟩ |
      ⟨-, -, ⟨state, -, result⟩ | ⟨-, result⟩⟩
    · exact ⟨[], by rw [result]; rfl⟩
    · exact ⟨[_], by rw [result]; rfl⟩
    · exact ⟨[_], by rw [result]; rfl⟩
    · exact ⟨[], by rw [result]; rfl⟩
  | allocate txnId => exact ⟨[], rfl⟩
  | insert txnId pid => exact ⟨[_], rfl⟩
  | _ => exact ⟨[], (sameProducers_perform rfl).handed⟩

theorem handed_step (event : Event) : ∃ more, (step pool event).shared.history.handed = more ++ pool.shared.history.handed := by
  cases event with
  | start call => exact ⟨[], rfl⟩
  | advance index input =>
    by_cases running : ∃ point, pool.At index point
    · obtain ⟨point, running⟩ := running
      have stepped : step pool (.advance index input) = _ := step_advance running
      rw [stepped]
      exact handed_perform
    · have idle : step pool (.advance index input) = pool := step_idle (not_exists.mp running)
      exact ⟨[], by rw [idle]; rfl⟩

theorem handed_run (events : List Event) :
    ∃ more, (run step pool events).shared.history.handed = more ++ pool.shared.history.handed := by
  induction events generalizing pool with
  | nil => exact ⟨[], rfl⟩
  | cons event events ih =>
    obtain ⟨more, later⟩ := @ih (step pool event)
    obtain ⟨first, sooner⟩ := @handed_step pool event
    exact ⟨more ++ first, by rw [run_cons, later, sooner, append_assoc]⟩

end Calls

/-- In a guarded run no zombie producer succeeds. -/
theorem fencesZombies_of_guarded (enableTransactions : Bool) (events : List Event)
    (guarded : Meets step Guarded (started enableTransactions) events) : FencesZombies enableTransactions events := by
  intro before after index input reached _ point request running presents succeeded txnId newer older handed
  have all : Meets step Guarded (started enableTransactions) (before ++ after ++ [.advance index input]) :=
    guarded.of_prefix reached
  have holds := holds_of_guarded (all.of_prefix (prefix_append _ _))
  have met : point.Guarded (run step (started enableTransactions) (before ++ after)).shared := all.last point running
  obtain ⟨owner, mapped, known⟩ := identity_of_done presents (guarded_elapse.mpr met) holds.shared.elapse
    (holds.knows index point running).elapse succeeded
  obtain ⟨more, grown⟩ := @handed_run (run step (started enableTransactions) before) after
  have later : (run step (started enableTransactions) (before ++ after)).shared.handedTo txnId =
      (more.filter (fun handout => handout.transactionalId = txnId)).map
        (fun handout => (handout.producerId, handout.producerEpoch)) ++ newer ++
          (request.producerId, request.producerEpoch) :: older := by
    rw [run_append, handedTo, grown, filter_append, map_append, append_assoc]
    exact congrArg _ handed
  exact (append_eq_nil_iff.mp (holds.shared.elapse.newest mapped known later)).2

theorem fencesZombies_reinitialized : FencesZombies true
    [.start (.initProducerId [116] 1), .advance 0 {}, .advance 0 {}, .advance 0 {},
      .start (.initProducerId [116] 1), .advance 1 {},
      .start (.request ⟨1, 0, .endTxn true⟩), .advance 2 {}, .advance 2 {}, .advance 2 {}] := by
  refine fencesZombies_of_guarded true _ ⟨trivial, ?_, ?_, ?_, trivial, ?_, trivial, ?_, ?_, ?_, trivial⟩
  all_goals
    intro point running
    cases running
  · exact fun state found => nomatch (found : none = some state)
  · exact (by decide : (1 : Int64) ≠ Int64.maxValue)
  · rfl
  · intro state found
    obtain rfl := Option.some.inj found
    exact (by decide : (0 : Int16) ≠ maxValue)
  · exact (by decide : Body.endTxn true ≠ .addPartitions [])
  · trivial
  · trivial

def racingInitializations : List Event :=
  [.start (.initProducerId [116] 1), .start (.initProducerId [116] 1), .advance 0 {}, .advance 1 {},
    .advance 0 {}, .advance 1 {}, .advance 0 {}, .advance 1 {}]

/-- The first id still leads to the state of the second one. -/
theorem not_fencesZombies : ¬∀ events, FencesZombies true events := by
  intro fences
  let request : Request := ⟨1, 0, .addPartitions [([97], 0)]⟩
  have later := fences (racingInitializations ++ [.start (.request request), .advance 2 {}, .advance 2 {}] ++ [.advance 2 {}])
    racingInitializations [.start (.request request), .advance 2 {}, .advance 2 {}] 2 {} (prefix_refl _) (by decide)
    _ request rfl rfl rfl [116] [(2, 0)] [] rfl
  cases later

end TorrentMq.Broker.Transactions
