import TorrentMq.Broker.DistributedLockManager

/-! What may end the holding of a lock, in every interleaving. -/

set_option autoImplicit false

namespace TorrentMq.Broker.Locks

open Bytes Runs Interleaving OrderedMap Option DistributedLockManager

def DistributedLockManager.HeldBy (manager : DistributedLockManager) (name owner : Bytes) : Prop :=
  ∃ state ∈ manager.lockTable.find? name, state.isHeld = true ∧ state.owner = owner

/-- The sections that may end a holding: those of an unlock by the owner itself, of a release by force, and of
a pass for an owner that has not been active for long. -/
def Point.MayEnd (point : Point) (clock : Clock) (name owner : Bytes) (activity : Int) : Prop :=
  match point with
  | .unlockClear released caller => released = name ∧ caller = owner
  | .forceRelease released => released = name
  | .cleanup => kDefaultLockTTL < clock name - activity
  | _ => False

/-- An owner loses a lock only in a section that may end its holding. -/
def Exclusive (pool : Pool) (event : Event) : Prop :=
  ∀ name owner, pool.shared.manager.HeldBy name owner → ¬(step pool event).shared.manager.HeldBy name owner →
    ∃ index clock point, event = .advance index clock ∧ pool.At index point ∧
      point.MayEnd clock name owner (pool.shared.activity name)

def ClearsOwn (pool : Pool) : Event → Prop
  | .start _ => True
  | .advance index _ =>
    ∀ name caller owner, pool.At index (.unlockClear name caller) → pool.shared.manager.HeldBy name owner →
      caller = owner

section Sections

variable {manager : DistributedLockManager} {clock : Clock} {point : Point} {name owner : Bytes}
  {state written : LockState}

@[simp] theorem find?_setLock (other : Bytes) :
    (manager.setLock name written).lockTable.find? other =
      if other = name then some written else manager.lockTable.find? other :=
  find?_insert other

@[simp] theorem isHeld_clear : state.clear.isHeld = false := rfl

theorem find?_cleanup : (manager.cleanup clock).lockTable.find? name =
    ((manager.lockTable.find? name).filter fun state => !state.isIdle (clock name)).map fun state =>
      if state.isExpired (clock name) then state.clear else state := by
  unfold cleanup
  dsimp only
  rw [find?_mapValues, OrderedMap.find?_filter]
  cases manager.lockTable.find? name with
  | none => simp
  | some state =>
    rw [any_some, filter_some]

theorem find?_cleanup_held (found : manager.lockTable.find? name = some state) (held : state.isHeld = true) :
    (manager.cleanup clock).lockTable.find? name =
      some (if state.isExpired (clock name) then state.clear else state) := by
  rw [find?_cleanup, found, filter_some, LockState.isIdle, held]
  rfl

def Point.Frees (point : Point) (clock : Clock) (name : Bytes) (state : LockState) : Prop :=
  match point with
  | .unlockClear released _ | .forceRelease released => released = name
  | .cleanup => state.isExpired (clock name) = true
  | _ => False

theorem heldBy_iff (found : manager.lockTable.find? name = some state) :
    manager.HeldBy name owner ↔ state.isHeld = true ∧ state.owner = owner := by
  unfold DistributedLockManager.HeldBy
  simp [found]

theorem heldBy_setLock {other : Bytes} (held_by : manager.HeldBy name owner)
    (same : ∀ state, name = other → manager.lockTable.find? name = some state → state.isHeld = true →
      written.isHeld = true ∧ written.owner = state.owner) : (manager.setLock other written).HeldBy name owner := by
  obtain ⟨state, found, held, rfl⟩ := held_by
  by_cases own : name = other
  · exact ⟨written, (find?_setLock name).trans (if_pos own), same state own found held⟩
  · exact ⟨state, (find?_setLock name).trans ((if_neg own).trans found), held, rfl⟩

variable {locked caller : Bytes} {timeoutMs : Int}

theorem tryCheck_cases :
    (∃ state, manager.lockTable.find? locked = some state ∧ state.isHeld = true ∧ state.owner = caller ∧
      manager.tryCheck clock locked caller timeoutMs =
        (manager.setLock locked (state.touch (clock locked)), .returned true)) ∨
      (manager.tryCheck clock locked caller timeoutMs).1 = manager ∧
        (manager.tryCheck clock locked caller timeoutMs).2 ≠ .returned true := by
  unfold tryCheck
  split
  next => exact .inr ⟨rfl, nofun⟩
  next =>
    split
    next => exact .inr ⟨rfl, nofun⟩
    next state found =>
      split
      next held =>
        split
        next own => exact .inl ⟨state, found, held, own, rfl⟩
        next => exact .inr ⟨rfl, nofun⟩
      next => exact .inr ⟨rfl, nofun⟩

@[simp] theorem fst_tryCapacity : (manager.tryCapacity locked caller timeoutMs).1 = manager := by
  unfold tryCapacity
  split_ifs <;> rfl

/-- The lock as a grant finds it: new, free, or held by the caller. -/
def Grantable (manager : DistributedLockManager) (locked caller : Bytes) (state : LockState) : Prop :=
  manager.lockTable.find? locked = none ∧ state = {} ∨
    manager.lockTable.find? locked = some state ∧ (state.isHeld = true → state.owner = caller)

theorem tryGrant_cases :
    (∃ state, Grantable manager locked caller state ∧
      manager.tryGrant clock locked caller =
        (manager.setLock locked (state.grant caller (clock locked)), .returned true)) ∨
      manager.tryGrant clock locked caller = (manager, .returned false) := by
  unfold tryGrant
  split
  next absent => exact .inl ⟨{}, .inl ⟨absent, rfl⟩, rfl⟩
  next state found =>
    split
    next admitted =>
      refine .inl ⟨state, .inr ⟨found, fun held => ?_⟩, rfl⟩
      rw [held] at admitted
      simpa using admitted
    next => exact .inr rfl

@[simp] theorem fst_unlockCheck : (manager.unlockCheck locked caller).1 = manager := by
  unfold unlockCheck
  split
  next => rfl
  next =>
    split
    next => rfl
    next => split_ifs <;> rfl

theorem unlockClear_cases :
    (∃ state, manager.lockTable.find? locked = some state ∧
      (manager.unlockClear locked).1 = manager.setLock locked state.clear) ∨
      manager.lockTable.find? locked = none ∧ (manager.unlockClear locked).1 = manager := by
  unfold unlockClear
  split
  next absent => exact .inr ⟨absent, rfl⟩
  next state found => exact .inl ⟨state, found, rfl⟩

theorem forceRelease_cases :
    (∃ state, manager.lockTable.find? locked = some state ∧
      (manager.forceRelease locked).1 = manager.setLock locked state.clear) ∨
      (manager.forceRelease locked).1 = manager := by
  unfold forceRelease
  split
  next => exact .inr rfl
  next =>
    split
    next => exact .inr rfl
    next state found =>
      split
      next => exact .inl ⟨state, found, rfl⟩
      next => exact .inr rfl

theorem heldBy_act (found : manager.lockTable.find? name = some state) (held : state.isHeld = true)
    (kept : ¬point.Frees clock name state) : (manager.act point clock).1.HeldBy name state.owner := by
  have held_by : manager.HeldBy name state.owner := ⟨state, found, held, rfl⟩
  cases point with
  | tryCheck locked caller timeoutMs =>
    change (manager.tryCheck clock locked caller timeoutMs).1.HeldBy name state.owner
    rcases tryCheck_cases with ⟨stored, present, -, -, result⟩ | ⟨same, -⟩
    · rw [result]
      refine heldBy_setLock held_by fun other own found' held' => ?_
      obtain rfl := Option.some.inj (present.symm.trans (own ▸ found'))
      exact ⟨held', rfl⟩
    · rw [same]
      exact held_by
  | tryCapacity locked caller timeoutMs => exact fst_tryCapacity.symm ▸ held_by
  | tryGrant locked caller =>
    change (manager.tryGrant clock locked caller).1.HeldBy name state.owner
    rcases tryGrant_cases with ⟨stored, grantable, result⟩ | result
    · rw [result]
      refine heldBy_setLock held_by fun other own found' held' => ?_
      rw [own] at found'
      rcases grantable with ⟨absent, -⟩ | ⟨present, mine⟩
      · cases absent.symm.trans found'
      · obtain rfl := Option.some.inj (present.symm.trans found')
        rw [← mine held']
        exact ⟨held', rfl⟩
    · rw [result]
      exact held_by
  | unlockCheck locked caller => exact fst_unlockCheck.symm ▸ held_by
  | unlockClear released caller =>
    change (manager.unlockClear released).1.HeldBy name state.owner
    rcases unlockClear_cases with ⟨stored, -, result⟩ | ⟨-, result⟩
    · rw [result]
      exact heldBy_setLock held_by fun _ own _ _ => absurd own.symm kept
    · rw [result]
      exact held_by
  | forceRelease released =>
    change (manager.forceRelease released).1.HeldBy name state.owner
    rcases forceRelease_cases with ⟨stored, -, result⟩ | result
    · rw [result]
      exact heldBy_setLock held_by fun _ own _ _ => absurd own.symm kept
    · rw [result]
      exact held_by
  | cleanup =>
    refine ⟨state, ?_, held, rfl⟩
    exact (find?_cleanup_held found held).trans (congrArg some (if_neg kept))

theorem not_heldBy_unlockClear (released : Bytes) : ¬(manager.unlockClear released).1.HeldBy released owner := by
  unfold unlockClear
  split
  next absent =>
    rintro ⟨state, found, -⟩
    cases absent.symm.trans found
  next stored present =>
    rw [heldBy_iff ((find?_setLock released).trans (if_pos rfl))]
    rintro ⟨held, -⟩
    cases held

end Sections

/-- The owner of a lock has last been active when its entry says. -/
def Watched.Tells (watched : Watched) : Prop :=
  ∀ name state, watched.manager.lockTable.find? name = some state → state.isHeld = true →
    watched.activity name = state.lastActivity

section Activity

variable {watched : Watched} {clock : Clock} {point : Point} {pool : Pool} {event : Event}

@[simp] theorem manager_act : (watched.act point clock).1.manager = (watched.manager.act point clock).1 := by
  cases point <;> rfl

theorem Watched.Tells.of_fewer (tells : watched.Tells) {after : DistributedLockManager}
    (fewer : ∀ name state, after.lockTable.find? name = some state → state.isHeld = true →
      watched.manager.lockTable.find? name = some state) : Watched.Tells { watched with manager := after } :=
  fun name state found held => tells name state (fewer name state found held) held

variable {name : Bytes}

theorem Watched.Tells.write (tells : watched.Tells) {written : LockState} {grants : List Grant}
    (now : written.lastActivity = clock name) :
    Watched.Tells
      { manager := watched.manager.setLock name written
        activity := Function.update watched.activity name (clock name)
        grants := grants } := by
  intro other state found held
  dsimp only at found ⊢
  rw [find?_setLock] at found
  split at found
  next own =>
    obtain rfl := Option.some.inj found
    rw [own, Function.update_self, now]
  next differs =>
    rw [Function.update_of_ne differs]
    exact tells other state found held

variable {manager : DistributedLockManager}

theorem fewer_setLock {released : Bytes} {state written : LockState}
    (free : written.isHeld = false)
    (found : (manager.setLock released written).lockTable.find? name = some state) (held : state.isHeld = true) :
    manager.lockTable.find? name = some state := by
  rw [find?_setLock] at found
  split at found
  next =>
    obtain rfl := Option.some.inj found
    cases free.symm.trans held
  next => exact found

theorem fewer_cleanup {state : LockState}
    (found : (manager.cleanup clock).lockTable.find? name = some state) (held : state.isHeld = true) :
    manager.lockTable.find? name = some state := by
  rw [find?_cleanup] at found
  obtain ⟨stored, kept, same⟩ := map_eq_some_iff.mp found
  split at same
  next =>
    rw [← same] at held
    cases held
  next =>
    rw [← same]
    exact eq_some_of_filter_eq_some kept

theorem Watched.Tells.act (tells : watched.Tells) : (watched.act point clock).1.Tells := by
  cases point with
  | tryCheck name owner timeoutMs =>
    unfold Watched.act Watched.active DistributedLockManager.act
    dsimp only
    rcases @tryCheck_cases watched.manager clock name owner timeoutMs with ⟨state, -, -, -, result⟩ | ⟨same, refused⟩
    · rw [result]
      exact tells.write rfl
    · rw [same, if_neg refused]
      exact tells
  | tryCapacity name owner timeoutMs =>
    refine tells.of_fewer fun other state found _ => ?_
    change (watched.manager.tryCapacity name owner timeoutMs).1.lockTable.find? other = some state at found
    rwa [fst_tryCapacity] at found
  | tryGrant name owner =>
    unfold Watched.act Watched.active DistributedLockManager.act
    dsimp only
    rcases @tryGrant_cases watched.manager clock name owner with ⟨state, -, result⟩ | result
    · rw [result]
      exact tells.write rfl
    · rw [result]
      exact tells
  | unlockCheck name owner =>
    refine tells.of_fewer fun other state found _ => ?_
    change (watched.manager.unlockCheck name owner).1.lockTable.find? other = some state at found
    rwa [fst_unlockCheck] at found
  | unlockClear name owner =>
    refine tells.of_fewer fun other state found held => ?_
    change (watched.manager.unlockClear name).1.lockTable.find? other = some state at found
    rcases @unlockClear_cases watched.manager name with ⟨stored, -, result⟩ | ⟨-, result⟩
    · exact fewer_setLock isHeld_clear (result ▸ found) held
    · exact result ▸ found
  | forceRelease name =>
    refine tells.of_fewer fun other state found held => ?_
    change (watched.manager.forceRelease name).1.lockTable.find? other = some state at found
    rcases @forceRelease_cases watched.manager name with ⟨stored, -, result⟩ | result
    · exact fewer_setLock isHeld_clear (result ▸ found) held
    · exact result ▸ found
  | cleanup => exact tells.of_fewer fun other state found held => fewer_cleanup found held

theorem tells_step (tells : pool.shared.Tells) (event : Event) : (step pool event).shared.Tells := by
  cases event with
  | start call => exact tells
  | advance index clock =>
    by_cases running : ∃ point, pool.At index point
    · obtain ⟨point, running⟩ := running
      refine Eq.mpr (congrArg (fun pool : Pool => pool.shared.Tells) (step_advance running)) ?_
      exact tells.act
    · refine Eq.mpr (congrArg (fun pool : Pool => pool.shared.Tells) (step_idle (not_exists.mp running))) ?_
      exact tells

end Activity

section Steps

variable {pool : Pool} {event : Event} {index : Nat} {clock : Clock} {point : Point} {name owner : Bytes}

theorem shared_advance (running : pool.At index point) :
    (step pool (.advance index clock)).shared = (pool.shared.act point clock).1 :=
  congrArg Pool.shared (step_advance running)

theorem manager_advance (running : pool.At index point) :
    (step pool (.advance index clock)).shared.manager = (pool.shared.manager.act point clock).1 :=
  (congrArg Watched.manager (shared_advance running)).trans manager_act

theorem frees_of_lost {state : LockState} (found : pool.shared.manager.lockTable.find? name = some state)
    (held : state.isHeld = true) (lost : ¬(step pool event).shared.manager.HeldBy name state.owner) :
    ∃ index clock point, event = .advance index clock ∧ pool.At index point ∧ point.Frees clock name state := by
  cases event with
  | start call => exact absurd ⟨state, found, held, rfl⟩ lost
  | advance index clock =>
    by_cases running : ∃ point, pool.At index point
    · obtain ⟨point, running⟩ := running
      refine ⟨index, clock, point, rfl, running, ?_⟩
      rw [manager_advance running] at lost
      by_contra kept
      exact lost (heldBy_act found held kept)
    · have idle : step pool (.advance index clock) = pool := step_idle (not_exists.mp running)
      rw [idle] at lost
      exact absurd ⟨state, found, held, rfl⟩ lost

theorem exclusive_iff (tells : pool.shared.Tells) : Exclusive pool event ↔ ClearsOwn pool event := by
  constructor
  · intro exclusive
    cases event with
    | start call => trivial
    | advance index clock =>
      intro name caller owner clearing held
      have freed : ¬(step pool (.advance index clock)).shared.manager.HeldBy name owner := by
        rw [manager_advance clearing]
        exact not_heldBy_unlockClear name
      obtain ⟨same_index, same_clock, point, same, running, may_end⟩ := exclusive name owner held freed
      cases same
      cases clearing.symm.trans running
      exact may_end.2
  · rintro clears_own name owner ⟨state, found, held, rfl⟩ lost
    obtain ⟨index, clock, point, rfl, running, frees⟩ := frees_of_lost found held lost
    refine ⟨index, clock, point, rfl, running, ?_⟩
    cases point with
    | unlockClear released caller =>
      obtain rfl : released = name := frees
      exact ⟨rfl, clears_own released caller state.owner running ⟨state, found, held, rfl⟩⟩
    | forceRelease released => exact frees
    | cleanup =>
      have expired : state.isExpired (clock name) = true := frees
      rw [LockState.isExpired, Bool.and_eq_true, decide_eq_true_eq] at expired
      change kDefaultLockTTL < clock name - pool.shared.activity name
      rw [tells name state found held]
      exact expired.2
    | _ => exact frees

end Steps

def idle : Pool := { shared := {} }

/-- All through a run every lock stays with its owner, until the owner unlocks it, it is released by force or its
owner has not been active for long, exactly when no unlock clears a lock that another owner holds by then. -/
theorem exclusive_iff_clearsOwn (events : List Event) :
    Meets step Exclusive idle events ↔ Meets step ClearsOwn idle events := by
  have initial : idle.shared.Tells := by
    intro name state found
    cases found
  exact meets_iff_meets (fun pool => pool.shared.Tells) (fun pool event tells => exclusive_iff tells)
    (fun pool event _ tells => tells_step tells event) initial events

def overtakenUnlock : List Event :=
  let clock : Clock := fun _ => 0
  let name : Bytes := [108]
  [.start (.tryLock name [97] 1), .advance 0 clock, .advance 0 clock, .advance 0 clock,
    .start (.unlock name [97]), .advance 1 clock,
    .start (.forceRelease name), .advance 2 clock,
    .start (.tryLock name [98] 1), .advance 3 clock, .advance 3 clock, .advance 3 clock,
    .advance 1 clock]

theorem overtakenUnlock_not_exclusive : ¬Meets step Exclusive idle overtakenUnlock := by
  intro meets
  have last := @Meets.last _ _ step Exclusive idle (overtakenUnlock.take 12) (.advance 1 fun _ => 0) meets
  obtain ⟨index, clock, point, same, running, may_end⟩ := last [108] [98] ⟨_, rfl, rfl, rfl⟩ (by
    rintro ⟨state, found, held, -⟩
    cases found
    cases held)
  cases same
  cases running
  exact absurd may_end.2 (by decide)

end TorrentMq.Broker.Locks
