import Mathlib.Data.List.TakeWhile
import TorrentMq.Broker.TransactionCoordinatorProperties

/-! When partitions join a transaction all or none, and not too many of them. -/

set_option autoImplicit false

namespace TorrentMq.Broker.Transactions

open Bytes Runs Interleaving TransactionCoordinator List OrderedMap Option

/-- State and partitions of a transaction. -/
def TransactionCoordinator.standing (coordinator : TransactionCoordinator) (txnId : Bytes) :
    Option (TxnState × List Partition) :=
  (coordinator.txnStates.find? txnId).map fun state => (state.txnState, state.txnPartitions)

/-- A section of a request that adds partitions to a transaction. -/
def Point.Enrolls : Point → Prop
  | .resolve request | .findState request _ | .locked request _ _ =>
    ∃ partitions, request.body = .addPartitions partitions
  | _ => False

/-- Where such a section fails, the transactions and their count are as before. -/
def Atomic (coordinator : TransactionCoordinator) (input : Input) (point : Point) : Prop :=
  point.Enrolls → ∀ error, (coordinator.perform input point).2 = .returned (.failure error) →
    (coordinator.perform input point).1.activeTransactions = coordinator.activeTransactions ∧
      ∀ txnId, (coordinator.perform input point).1.standing txnId =
        coordinator.standing txnId

/-- Where the broker does not lead all partitions, the transaction has begun before, and it does not lead the
first one. -/
def FailsFirst (coordinator : TransactionCoordinator) (input : Input) : Point → Prop
  | .locked request txnId address =>
    ∀ state ∈ coordinator.stateAt txnId address, state.producerEpoch = request.producerEpoch →
      ∀ partitions, request.body = .addPartitions partitions → partitions.all input.isLeader = false →
        state.txnState ≠ .empty ∧
          (state.txnState = .ongoing → ∀ first ∈ partitions.head?, input.isLeader first = false)
  | _ => True

/-- What is enrolled once the request is done stays within the limit, repetitions aside. -/
def Fits (coordinator : TransactionCoordinator) (input : Input) : Point → Prop
  | .locked request txnId address =>
    ∀ state ∈ coordinator.stateAt txnId address, state.producerEpoch = request.producerEpoch →
      state.txnState = .empty ∨ state.txnState = .ongoing →
        ∀ partitions, request.body = .addPartitions partitions → partitions.all input.isLeader = true →
          (dedupe (state.txnPartitions ++ partitions)).length ≤ kMaxPartitionsPerTxn
  | _ => True

/-- Each partition is enrolled once, and there are not too many. -/
def Enrolled (partitions : List Partition) : Prop :=
  partitions.Nodup ∧ partitions.length ≤ kMaxPartitionsPerTxn

/-- What a transaction has enrolled is within its bound, for all transactions. -/
def Bounded (coordinator : TransactionCoordinator) : Prop :=
  ∀ txnId, ∀ state ∈ coordinator.txnStates.find? txnId, Enrolled state.txnPartitions

/-- What may happen next: a section of a call in flight, an expiry pass, or the shutdown. -/
inductive Moment where
  | call (event : Event)
  | expiryPass (input : Input)
  | shutdown

def pass (pool : Pool) : Moment → Pool
  | .call event => step pool event
  | .expiryPass input => { pool with shared := happen pool.shared (.expiryPass input) }
  | .shutdown => { pool with shared := happen pool.shared .shutdown }

/-- The condition holds of the section that runs next. -/
def Moment.Met (condition : TransactionCoordinator → Input → Point → Prop) (pool : Pool) : Moment → Prop
  | .call (.advance index input) => ∀ point, pool.At index point → condition (pool.shared.elapse input) input point
  | _ => True

section Lists

variable {Item : Type} [BEq Item] [LawfulBEq Item] {below : Item → Item → Prop}

theorem nodup_eraseReps (trans : ∀ first second third, below first second → below second third → below first third)
    (antisymm : ∀ first second, below first second → below second first → first = second) {items : List Item}
    (sorted : items.Pairwise below) : items.eraseReps.Nodup := by
  have passing : ∀ (items : List Item) (item : Item) (passed : List Item), (item :: items).Pairwise below →
      (item :: passed).Pairwise (fun later earlier => below earlier later ∧ later ≠ earlier) →
      (eraseRepsBy.loop (· == ·) item items passed).Nodup := by
    intro items
    induction items with
    | nil =>
      intro item passed _ apart
      rw [eraseRepsBy.loop, nodup_reverse]
      exact apart.imp fun both => both.2
    | cons next items ih =>
      intro item passed sorted apart
      obtain ⟨lowest, rest⟩ := pairwise_cons.mp sorted
      rw [eraseRepsBy.loop]
      cases same : item == next with
      | true =>
        obtain rfl := eq_of_beq same
        exact ih item passed rest apart
      | false =>
        have lower := lowest next mem_cons_self
        have differs : next ≠ item := fun equal => ne_of_beq_false same equal.symm
        refine ih next (item :: passed) rest (pairwise_cons.mpr ⟨?_, apart⟩)
        refine forall_mem_cons.mpr ⟨⟨lower, differs⟩, fun earlier old => ?_⟩
        have above := (pairwise_cons.mp apart).1 earlier old
        refine ⟨trans _ _ _ above.1 lower, ?_⟩
        rintro rfl
        exact differs (antisymm _ _ above.1 lower)
  cases items with
  | nil => exact .nil
  | cons item items => exact passing items item [] sorted (pairwise_singleton _ _)

end Lists

def Partition.Below (left right : Partition) : Prop := left.1 < right.1 ∨ left.1 = right.1 ∧ left.2 ≤ right.2

instance : DecidableRel Partition.Below := fun _ _ => inferInstanceAs (Decidable (_ ∨ _))

theorem Partition.below_trans {first second third : Partition} (lower : first.Below second)
    (upper : second.Below third) : first.Below third := by
  rcases lower with lower | ⟨same, lower⟩
  · rcases upper with upper | ⟨equal, -⟩
    · exact .inl (lower.trans upper)
    · exact .inl (equal ▸ lower)
  · rcases upper with upper | ⟨equal, upper⟩
    · exact .inl (same ▸ upper)
    · exact .inr ⟨same.trans equal, Int32.le_trans lower upper⟩

theorem Partition.below_antisymm {first second : Partition} (lower : first.Below second)
    (upper : second.Below first) : first = second := by
  rcases lower with lower | ⟨same, lower⟩
  · rcases upper with upper | ⟨equal, -⟩
    · exact absurd upper (lt_asymm lower)
    · exact absurd lower (equal ▸ lt_irrefl _)
  · rcases upper with upper | ⟨-, upper⟩
    · exact absurd upper (same ▸ lt_irrefl _)
    · exact Prod.ext same (Int32.le_antisymm lower upper)

theorem Partition.below_total (first second : Partition) : first.Below second ∨ second.Below first := by
  rcases lt_trichotomy first.1 second.1 with lower | same | upper
  · exact .inl (.inl lower)
  · exact (Int32.le_total first.2 second.2).imp (fun lower => .inr ⟨same, lower⟩) fun upper => .inr ⟨same.symm, upper⟩
  · exact .inr (.inl upper)

theorem nodup_dedupe (partitions : List Partition) : (dedupe partitions).Nodup := by
  have : IsTrans Partition Partition.Below := ⟨fun _ _ _ => Partition.below_trans⟩
  have : Std.Total Partition.Below := ⟨Partition.below_total⟩
  exact @nodup_eraseReps Partition _ _ Partition.Below (fun _ _ _ => Partition.below_trans)
    (fun _ _ => Partition.below_antisymm) _ (pairwise_insertionSort Partition.Below partitions)

section Requests

variable {coordinator : TransactionCoordinator} {input : Input} {point : Point} {request : Request}
  {txnId other : Bytes} {state written : TransactionIdState} {partitions : List Partition}

theorem standing_setState : (coordinator.setState txnId state).standing other =
    if other = txnId then some (state.txnState, state.txnPartitions) else coordinator.standing other := by
  unfold standing setState
  dsimp only
  rw [find?_insert]
  split <;> rfl

theorem enroll_of_not_led (refused : partitions.all input.isLeader = false) :
    ∃ error, coordinator.enroll input txnId state partitions =
      (coordinator.setState txnId
        { state with txnPartitions := state.txnPartitions ++ partitions.takeWhile input.isLeader }, .failure error) := by
  unfold enroll
  cases found : partitions.find? fun partition => !input.isLeader partition with
  | none =>
    rw [find?_eq_none] at found
    refine absurd (all_eq_true.mpr fun partition listed => ?_) (Bool.eq_false_iff.mp refused)
    simpa using found partition listed
  | some partition => exact ⟨_, rfl⟩

theorem enroll_of_led (led : partitions.all input.isLeader = true) :
    coordinator.enroll input txnId state partitions =
      (coordinator.setState txnId
        ({ state with txnPartitions := dedupe (state.txnPartitions ++ partitions) }.touchActivity coordinator.now),
        .done) := by
  have none : partitions.find? (fun partition => !input.isLeader partition) = none :=
    find?_eq_none.mpr fun partition listed => by simp [all_eq_true.mp led partition listed]
  have all : partitions.takeWhile input.isLeader = partitions := takeWhile_eq_self_iff.mpr (all_eq_true.mp led)
  unfold enroll
  rw [none, all]

theorem takeWhile_eq_nil : partitions.takeWhile input.isLeader = [] ↔
    ∀ first ∈ partitions.head?, input.isLeader first = false := by
  cases partitions with
  | nil => simp
  | cons first partitions => cases led : input.isLeader first <;> simp [led]

theorem atomic_addPartitions (found : coordinator.txnStates.find? txnId = some state) :
    (∀ error, (coordinator.addPartitions input txnId state partitions).2 = .failure error →
      (coordinator.addPartitions input txnId state partitions).1.activeTransactions =
          coordinator.activeTransactions ∧
        ∀ other, (coordinator.addPartitions input txnId state partitions).1.standing other =
          coordinator.standing other) ↔
    (partitions.all input.isLeader = false →
      state.txnState ≠ .empty ∧
        (state.txnState = .ongoing → ∀ first ∈ partitions.head?, input.isLeader first = false)) := by
  have own : coordinator.standing txnId = some (state.txnState, state.txnPartitions) := by
    rw [standing, found, map_some]
  unfold TransactionCoordinator.addPartitions
  cases led : partitions.all input.isLeader with
  | true =>
    cases phase : state.txnState with
    | empty | ongoing =>
      dsimp only
      rw [enroll_of_led led]
      exact iff_of_true nofun nofun
    | _ => exact iff_of_true (fun _ _ => ⟨rfl, fun _ => rfl⟩) nofun
  | false =>
    cases phase : state.txnState with
    | empty =>
      dsimp only
      obtain ⟨error, refused⟩ := @enroll_of_not_led (coordinator.beginTransaction txnId state) input
        txnId (state.begin coordinator.now coordinator.history.begun) partitions led
      rw [refused]
      refine iff_of_false (fun same => ?_) fun fails => (fails rfl).1 rfl
      exact Nat.succ_ne_self _ (same error rfl).1
    | ongoing =>
      dsimp only
      obtain ⟨error, refused⟩ := @enroll_of_not_led coordinator input txnId state partitions led
      rw [refused, ← takeWhile_eq_nil]
      constructor
      · intro same
        have kept := (same error rfl).2 txnId
        rw [standing_setState, if_pos rfl, own, Option.some.injEq, Prod.mk.injEq] at kept
        exact fun _ => ⟨nofun, fun _ => List.append_right_eq_self.mp kept.2⟩
      · intro fails
        refine fun _ _ => ⟨rfl, fun other => ?_⟩
        rw [standing_setState, (fails rfl).2 rfl, append_nil]
        split
        next same => rw [same, own]
        next => rfl
    | _ => exact iff_of_true (fun _ _ => ⟨rfl, fun _ => rfl⟩) fun _ => ⟨nofun, nofun⟩

theorem resolve_fst : (coordinator.resolve request).1 = coordinator := by
  unfold resolve
  split
  next => rfl
  next => split <;> rfl

theorem findState_fst : (coordinator.findState request txnId).1 = coordinator := by
  unfold findState
  split <;> rfl

theorem atomic_iff (coordinator : TransactionCoordinator) (input : Input) (point : Point) :
    Atomic coordinator input point ↔ FailsFirst coordinator input point := by
  cases point with
  | locked request txnId address =>
    unfold Atomic FailsFirst
    simp only [perform, locked]
    cases found : coordinator.stateAt txnId address with
    | none => exact iff_of_true (fun _ _ => nofun) nofun
    | some state =>
      have present := (find?_of_stateAt found).1
      simp only [mem_some_iff, forall_eq', Stage.returned.injEq]
      unfold serve
      cases admitted : checkProducerEpoch state.producerEpoch request.producerEpoch with
      | error error =>
        refine iff_of_true (fun _ _ _ => ⟨rfl, fun _ => rfl⟩) fun same => ?_
        rw [same, checkProducerEpoch, if_neg Int16.lt_irrefl, if_neg Int16.lt_irrefl] at admitted
        cases admitted
      | ok =>
        have epoch := eq_of_checkProducerEpoch admitted
        cases body : request.body with
        | addPartitions partitions =>
          have atomic := @atomic_addPartitions coordinator input txnId state partitions present
          refine Iff.trans ⟨fun all => all ⟨partitions, body⟩, fun all _ => all⟩ (atomic.trans ?_)
          constructor
          · rintro fails - others ⟨⟩
            exact fails
          · exact fun fails => fails epoch partitions rfl
        | addOffsets | endTxn =>
          refine iff_of_true (fun asks => ?_) fun _ _ => nofun
          obtain ⟨partitions, other⟩ := asks
          cases body.symm.trans other
  | resolve request =>
    refine iff_of_true (fun _ _ _ => ?_) trivial
    rw [perform, resolve_fst]
    exact ⟨rfl, fun _ => rfl⟩
  | findState request txnId =>
    refine iff_of_true (fun _ _ _ => ?_) trivial
    rw [perform, findState_fst]
    exact ⟨rfl, fun _ => rfl⟩
  | _ => exact iff_of_true nofun trivial

/-- Every list of partitions is empty, or one that has been there before. -/
def Keeps (after before : TransactionCoordinator) : Prop :=
  ∀ txnId, ∀ state ∈ after.txnStates.find? txnId, state.txnPartitions = [] ∨
    ∃ earlier ∈ before.txnStates.find? txnId, earlier.txnPartitions = state.txnPartitions

variable {after : TransactionCoordinator}

theorem keeps_of_eq (same : after.txnStates = coordinator.txnStates) :
    Keeps after coordinator := fun _ state found => .inr ⟨state, same ▸ found, rfl⟩

theorem keeps_insert
    (states : after.txnStates = coordinator.txnStates.insert txnId written)
    (kept : written.txnPartitions = [] ∨
      ∃ earlier ∈ coordinator.txnStates.find? txnId, earlier.txnPartitions = written.txnPartitions) :
    Keeps after coordinator := by
  intro other stored found
  rw [states, find?_insert] at found
  split at found
  next same =>
    obtain rfl := Option.some.inj found
    exact same ▸ kept
  next => exact .inr ⟨stored, found, rfl⟩

section

variable (bounded : Bounded coordinator)

include bounded

theorem Bounded.keeps
    (keeps : Keeps after coordinator) : Bounded after := by
  intro txnId state found
  rcases keeps txnId state found with none | ⟨earlier, there, same⟩
  · rw [none]
    exact ⟨.nil, Nat.zero_le _⟩
  · exact same ▸ bounded txnId earlier there

theorem Bounded.setState (enrolled : Enrolled written.txnPartitions) :
    Bounded (coordinator.setState txnId written) := by
  intro other stored found
  rw [TransactionCoordinator.setState, find?_insert] at found
  split at found
  next =>
    obtain rfl := Option.some.inj found
    exact enrolled
  next => exact bounded other stored found

theorem Bounded.enroll
    (old : Enrolled state.txnPartitions)
    (first : partitions.all input.isLeader = false → partitions.takeWhile input.isLeader = [])
    (fits : partitions.all input.isLeader = true →
      (dedupe (state.txnPartitions ++ partitions)).length ≤ kMaxPartitionsPerTxn) :
    Bounded (coordinator.enroll input txnId state partitions).1 := by
  cases led : partitions.all input.isLeader with
  | true =>
    rw [enroll_of_led led]
    exact bounded.setState ⟨nodup_dedupe _, fits led⟩
  | false =>
    obtain ⟨error, refused⟩ := @enroll_of_not_led coordinator input txnId state partitions led
    rw [refused, first led, append_nil]
    exact bounded.setState old

theorem Bounded.addPartitions
    (found : coordinator.txnStates.find? txnId = some state)
    (fails : partitions.all input.isLeader = false → state.txnState ≠ .empty ∧
      (state.txnState = .ongoing → ∀ first ∈ partitions.head?, input.isLeader first = false))
    (fits : state.txnState = .empty ∨ state.txnState = .ongoing → partitions.all input.isLeader = true →
      (dedupe (state.txnPartitions ++ partitions)).length ≤ kMaxPartitionsPerTxn) :
    Bounded (coordinator.addPartitions input txnId state partitions).1 := by
  have old := bounded txnId state found
  unfold TransactionCoordinator.addPartitions
  cases phase : state.txnState with
  | empty =>
    exact Bounded.enroll (bounded.setState old) old (fun refused => absurd phase (fails refused).1)
      (fits (.inl phase))
  | ongoing =>
    exact Bounded.enroll bounded old (fun refused => takeWhile_eq_nil.mpr ((fails refused).2 phase))
      (fits (.inr phase))
  | _ => exact bounded

theorem Bounded.locked {address : Nat}
    (fails : FailsFirst coordinator input (.locked request txnId address))
    (fits : Fits coordinator input (.locked request txnId address)) :
    Bounded (coordinator.locked input request txnId address).1 := by
  unfold TransactionCoordinator.locked
  cases found : coordinator.stateAt txnId address with
  | none => exact bounded
  | some state =>
    have present := (find?_of_stateAt found).1
    dsimp only
    unfold serve
    cases admitted : checkProducerEpoch state.producerEpoch request.producerEpoch with
    | error error => exact bounded
    | ok =>
      have epoch := eq_of_checkProducerEpoch admitted
      cases body : request.body with
      | addPartitions partitions =>
        exact bounded.addPartitions present (fails state found epoch partitions body)
          fun phase => fits state found epoch phase partitions body
      | addOffsets groupId =>
        dsimp only
        unfold addOffsets
        split
        next => exact bounded.setState (bounded txnId state present)
        next => exact bounded
      | endTxn committed =>
        dsimp only
        by_cases ongoing : state.txnState = .ongoing
        · exact bounded.keeps (keeps_insert (endTxn_ongoing ongoing).1 (.inl rfl))
        · unfold endTxn
          rw [if_neg ongoing]
          exact bounded

end

theorem keeps_perform (other : ∀ request txnId address, point ≠ .locked request txnId address) :
    Keeps (coordinator.perform input point).1 coordinator := by
  cases point with
  | init txnId timeoutMs =>
    rcases @init_cases coordinator txnId timeoutMs with ⟨error, result⟩ | ⟨-, result⟩ |
      ⟨-, -, ⟨state, found, result⟩ | ⟨-, result⟩⟩
    · exact keeps_of_eq (by rw [perform, result])
    · exact keeps_of_eq (by rw [perform, result]; rfl)
    · refine @keeps_insert coordinator txnId (state.reinitialize coordinator.now) _ ?_ ?_
      · rw [perform, result]
        rfl
      · unfold TransactionIdState.reinitialize
        dsimp only
        split
        next => exact .inr ⟨state, found, rfl⟩
        next => exact .inl rfl
    · exact keeps_of_eq (by rw [perform, result])
  | insert txnId producerId => exact keeps_insert rfl (.inl rfl)
  | locked request txnId address => exact absurd rfl (other request txnId address)
  | resolve request => exact keeps_of_eq (by rw [perform, resolve_fst])
  | findState request txnId => exact keeps_of_eq (by rw [perform, findState_fst])
  | passLookup ids =>
    refine keeps_of_eq ?_
    cases ids with
    | nil => rfl
    | cons txnId rest =>
      rw [perform, passLookup]
      split <;> rfl
  | markerLookup abort =>
    refine keeps_of_eq ?_
    rw [perform, markerLookup]
    split <;> rfl
  | markerSnapshot abort address =>
    refine keeps_of_eq ?_
    rw [perform, markerSnapshot]
    split
    next => rfl
    next => split <;> rfl
  | passReset abort =>
    rw [perform, passReset]
    split
    next => exact keeps_of_eq rfl
    next => exact keeps_insert rfl (.inl rfl)
  | _ => exact keeps_of_eq rfl

section

variable (bounded : Bounded coordinator)

include bounded

theorem Bounded.perform (fails : FailsFirst coordinator input point)
    (fits : Fits coordinator input point) : Bounded (coordinator.perform input point).1 := by
  by_cases here : ∃ request txnId address, point = .locked request txnId address
  · obtain ⟨request, txnId, address, rfl⟩ := here
    exact bounded.locked fails fits
  · exact bounded.keeps (keeps_perform fun request txnId address same =>
      here ⟨request, txnId, address, same⟩)

theorem Bounded.expire : Bounded (coordinator.expire txnId) := by
  unfold TransactionCoordinator.expire
  split
  next => exact bounded
  next =>
    intro other stored found
    dsimp only at found
    rw [find?_erase] at found
    split at found
    next => cases found
    next => exact bounded other stored found

theorem Bounded.expiryPass : Bounded (coordinator.expiryPass input) := by
  unfold TransactionCoordinator.expiryPass
  generalize (input.order.visit coordinator.txnStates.keys).filter coordinator.isIdle = ids
  induction ids generalizing coordinator with
  | nil => exact bounded
  | cons txnId ids ih => exact ih bounded.expire

theorem Bounded.shutdown : Bounded coordinator.shutdown := by
  unfold TransactionCoordinator.shutdown
  split
  next =>
    refine bounded.keeps fun txnId stored found => ?_
    dsimp only at found
    rw [find?_mapValues] at found
    obtain ⟨earlier, there, rfl⟩ := map_eq_some_iff.mp found
    split
    next => exact .inl rfl
    next => exact .inr ⟨earlier, there, rfl⟩
  next => exact bounded

end

theorem Bounded.pass {pool : Pool} {moment : Moment} (bounded : Bounded pool.shared)
    (met : moment.Met (fun coordinator input point =>
      FailsFirst coordinator input point ∧ Fits coordinator input point) pool) :
    Bounded (pass pool moment).shared := by
  cases moment with
  | call event =>
    cases event with
    | start call => exact bounded
    | advance index input =>
      by_cases running : ∃ point, pool.At index point
      · obtain ⟨point, running⟩ := running
        obtain ⟨fails, fits⟩ := met point running
        change Bounded (Interleaving.step act pool (.advance index input)).shared
        rw [step_advance running]
        exact @Bounded.perform (pool.shared.elapse input) input point bounded fails fits
      · change Bounded (Interleaving.step act pool (.advance index input)).shared
        rw [step_idle (not_exists.mp running)]
        exact bounded
  | expiryPass input =>
    unfold Transactions.pass happen
    dsimp only
    split
    next => exact @Bounded.expiryPass (pool.shared.elapse input) input bounded
    next => exact bounded
  | shutdown => exact bounded.shutdown

end Requests

/-- A request that fails leaves its transaction alone, if and only if it fails before anything is written; and where
all requests of a run do, and what they add fits, no list of partitions grows too long. -/
theorem enrollment_iff (coordinator : TransactionCoordinator) (input : Input) (point : Point)
    (enableTransactions : Bool) (moments : List Moment) :
    (Atomic coordinator input point ↔ FailsFirst coordinator input point) ∧
      (Meets pass (fun pool moment => moment.Met (fun coordinator input point =>
          FailsFirst coordinator input point ∧ Fits coordinator input point) pool) (started enableTransactions) moments →
        Bounded (run pass (started enableTransactions) moments).shared) := by
  refine ⟨atomic_iff coordinator input point, fun meets => ?_⟩
  refine meets.preserves (fun pool => Bounded pool.shared) (fun _ _ met bounded => Bounded.pass bounded met) ?_
  cases enableTransactions <;> exact nofun

def joining : List Moment :=
  [.call (.start (.initProducerId [116] 1)), .call (.advance 0 {}), .call (.advance 0 {}), .call (.advance 0 {}),
    .call (.start (.request ⟨1, 0, .addPartitions [([97], 0), ([98], 0), ([97], 0)]⟩)), .call (.advance 1 {}),
    .call (.advance 1 {}), .call (.advance 1 {})]

theorem joining_bounded : Bounded (run pass (started true) joining).shared := by
  refine (enrollment_iff {} {} (.resolve ⟨1, 0, .addPartitions []⟩) true joining).2 ⟨trivial, ?_, ?_, ?_, trivial, ?_, ?_, ?_, trivial⟩
  iterate 5
    · rintro point ⟨⟩
      exact ⟨trivial, trivial⟩
  · rintro point ⟨⟩
    constructor
    · rintro state - - partitions ⟨⟩ led
      cases led
    · rintro state ⟨⟩ - - partitions ⟨⟩ -
      decide

theorem enrollment_not_atomic : ¬∀ coordinator input point, Atomic coordinator input point := by
  intro all
  let coordinator := happen (.start true) (.call (.initProducerId [116] 1) [{}, {}, {}])
  have same := all coordinator { isLeader := fun _ => false } (.locked ⟨1, 0, .addPartitions [([97], 0)]⟩ [116] 0)
    ⟨_, rfl⟩ (.notLeader ([97], 0)) (by decide)
  exact absurd same.1 (by decide)

end TorrentMq.Broker.Transactions
