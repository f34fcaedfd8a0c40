import TorrentMq.Arithmetic.Counters
import TorrentMq.Broker.LockExclusion

/-! The tokens of successive grants of a lock. -/

set_option autoImplicit false

namespace TorrentMq.Broker.Locks

open Bytes Runs Interleaving List Option

/-- The tokens of the grants of a lock to different holdings increase, and that of an earlier holding is not
accepted any more. -/
structure Fenced (watched : Watched) : Prop where
  increase : watched.grants.Pairwise fun later earlier =>
    later.name = earlier.name → later.holding ≠ earlier.holding → earlier.token < later.token
  rejects : ∀ grant ∈ watched.grants, grant.holding ≠ watched.holdingOf grant.name →
    ∀ owner, watched.manager.validateFencing grant.name owner grant.token = false

def Continues (pool : Pool) : Event → Prop
  | .start _ => True
  | .advance index _ =>
    ∀ name owner, pool.At index (.tryGrant name owner) →
      match pool.shared.manager.lockTable.find? name with
      | none => ∀ grant ∈ pool.shared.grants, grant.name ≠ name
      | some state => state.fencingToken ≠ Int64.maxValue

/-- Every lock of a table was in another one with its token, where it was held if it is. -/
def Descends (after before : DistributedLockManager) : Prop :=
  ∀ name state, after.lockTable.find? name = some state → ∃ stored, before.lockTable.find? name = some stored ∧
    state.fencingToken = stored.fencingToken ∧ (state.isHeld = true → stored.isHeld = true)

section Descent

variable {manager : DistributedLockManager} {clock : Clock} {point : Point} {name owner : Bytes}
  {state written : LockState}

theorem Descends.refl (manager : DistributedLockManager) : Descends manager manager :=
  fun _ state found => ⟨state, found, rfl, id⟩

theorem descends_setLock (found : manager.lockTable.find? name = some state)
    (same : written.fencingToken = state.fencingToken) (held : written.isHeld = true → state.isHeld = true) :
    Descends (manager.setLock name written) manager := by
  intro other after present
  rw [find?_setLock] at present
  split at present
  next own =>
    obtain rfl := Option.some.inj present
    exact ⟨state, own ▸ found, same, held⟩
  next => exact ⟨after, present, rfl, id⟩

theorem descends_cleanup : Descends (manager.cleanup clock) manager := by
  intro name state found
  rw [find?_cleanup] at found
  obtain ⟨stored, kept, same⟩ := map_eq_some_iff.mp found
  refine ⟨stored, eq_some_of_filter_eq_some kept, ?_⟩
  split at same
  next =>
    rw [← same]
    exact ⟨rfl, nofun⟩
  next =>
    rw [← same]
    exact ⟨rfl, id⟩

theorem descends_act (grants_nothing : ∀ name owner, point ≠ .tryGrant name owner) :
    Descends (manager.act point clock).1 manager := by
  cases point with
  | tryCheck name owner timeoutMs =>
    change Descends (manager.tryCheck clock name owner timeoutMs).1 manager
    rcases @tryCheck_cases manager clock name owner timeoutMs with ⟨state, found, held, -, result⟩ | ⟨same, -⟩
    · rw [result]
      exact descends_setLock found rfl fun _ => held
    · rw [same]
      exact .refl manager
  | tryCapacity name owner timeoutMs => exact fst_tryCapacity.symm ▸ .refl manager
  | tryGrant name owner => exact absurd rfl (grants_nothing name owner)
  | unlockCheck name owner => exact fst_unlockCheck.symm ▸ .refl manager
  | unlockClear name owner =>
    change Descends (manager.unlockClear name).1 manager
    rcases @unlockClear_cases manager name with ⟨state, found, result⟩ | ⟨-, result⟩
    · rw [result]
      exact descends_setLock found rfl nofun
    · rw [result]
      exact .refl manager
  | forceRelease name =>
    change Descends (manager.forceRelease name).1 manager
    rcases @forceRelease_cases manager name with ⟨state, found, result⟩ | result
    · rw [result]
      exact descends_setLock found rfl nofun
    · rw [result]
      exact .refl manager
  | cleanup => exact descends_cleanup

end Descent

/-- The tokens of a lock have been granted in order, the last one of them is that of its entry. -/
structure Ordered (watched : Watched) : Prop where
  ascending : watched.grants.Pairwise fun later earlier => later.name = earlier.name → earlier.token < later.token
  below : ∀ grant ∈ watched.grants, ∀ state, watched.manager.lockTable.find? grant.name = some state →
    grant.token ≤ state.fencingToken
  latest : ∀ name state, watched.manager.lockTable.find? name = some state → state.isHeld = true →
    ∃ grant, watched.grants.find? (fun grant => grant.name = name) = some grant ∧ grant.token = state.fencingToken

section Order

variable {watched : Watched} {clock : Clock} {point : Point} {name owner : Bytes} {state : LockState}

theorem ordered_initial : Ordered {} where
  ascending := .nil
  below := nofun
  latest := nofun

section

variable (ordered : Ordered watched)
include ordered

theorem Ordered.descend {after : Watched} (same : after.grants = watched.grants)
    (descends : Descends after.manager watched.manager) : Ordered after where
  ascending := same ▸ ordered.ascending
  below := by
    intro grant member state found
    obtain ⟨stored, present, token, -⟩ := descends grant.name state found
    rw [token]
    exact ordered.below grant (same ▸ member) stored present
  latest := by
    intro name state found held
    obtain ⟨stored, present, token, was_held⟩ := descends name state found
    rw [token, same]
    exact ordered.latest name stored present (was_held held)

theorem Ordered.grant {after : Watched} {grant : Grant} {now : Int}
    (table : after.manager = watched.manager.setLock name (state.grant owner now))
    (grants : after.grants = grant :: watched.grants) (named : grant.name = name)
    (token : grant.token = state.fencingToken + 1) (room : state.fencingToken ≠ Int64.maxValue)
    (earlier : ∀ old ∈ watched.grants, old.name = name → old.token ≤ state.fencingToken) : Ordered after := by
  have above : ∀ old ∈ watched.grants, old.name = name → old.token < grant.token := by
    intro old member same
    rw [token]
    exact (earlier old member same).trans_lt (Int64.lt_iff_toInt_lt.mpr (Counters.toInt_lt_succ_long room))
  refine ⟨?_, ?_, ?_⟩
  · rw [grants, pairwise_cons]
    exact ⟨fun old member same => above old member (same.symm.trans named), ordered.ascending⟩
  · intro old member stored found
    rw [table, find?_setLock] at found
    rw [grants, mem_cons] at member
    split at found
    next own =>
      obtain rfl := Option.some.inj found
      change old.token ≤ state.fencingToken + 1
      rw [← token]
      rcases member with rfl | member
      · exact le_refl _
      · exact (above old member own).le
    next differs =>
      rcases member with rfl | member
      · exact absurd named differs
      · exact ordered.below old member stored found
  · intro other stored found held
    rw [table, find?_setLock] at found
    rw [grants, find?_cons, named]
    split at found
    next own =>
      obtain rfl := Option.some.inj found
      rw [own, decide_eq_true rfl]
      exact ⟨grant, rfl, token⟩
    next differs =>
      rw [decide_eq_false (Ne.symm differs)]
      exact ordered.latest other stored found held

theorem Ordered.lt_last {grant last : Grant} (member : grant ∈ watched.grants)
    (first : watched.grants.find? (fun other => other.name = grant.name) = some last) (other : grant ≠ last) :
    grant.token < last.token := by
  obtain ⟨named, later, earlier, split, none_later⟩ := find?_eq_some_iff_append.mp first
  have ascending := ordered.ascending
  rw [split] at member ascending
  rcases mem_append.mp member with before | here
  · simpa using none_later grant before
  · rcases mem_cons.mp here with same | after
    · exact absurd same other
    · exact (pairwise_cons.mp (pairwise_append.mp ascending).2.1).1 grant after (by simpa using named)

theorem Ordered.fenced : Fenced watched where
  increase := ordered.ascending.imp fun less same _ => less same
  rejects := by
    intro grant member other_holding owner
    unfold DistributedLockManager.validateFencing
    split
    next => rfl
    next state found =>
      cases held : state.isHeld with
      | false => rfl
      | true =>
        obtain ⟨last, first, token⟩ := ordered.latest grant.name state found held
        have current : watched.holdingOf grant.name = last.holding := by
          rw [Watched.holdingOf, found, any_some, held, if_pos rfl, first]
          rfl
        have less : grant.token < last.token := by
          refine ordered.lt_last member first fun same => other_holding ?_
          rw [current, same]
        have differs : grant.token ≠ state.fencingToken := by
          rw [← token]
          exact less.ne
        simp [differs]

theorem Ordered.act (continues : ∀ name owner, point = .tryGrant name owner →
      match watched.manager.lockTable.find? name with
      | none => ∀ grant ∈ watched.grants, grant.name ≠ name
      | some state => state.fencingToken ≠ Int64.maxValue) : Ordered (watched.act point clock).1 := by
  by_cases granting : ∃ name owner, point = .tryGrant name owner
  · obtain ⟨name, owner, rfl⟩ := granting
    have room := continues name owner rfl
    rcases @tryGrant_cases watched.manager clock name owner with ⟨state, grantable, result⟩ | result
    · have table : (watched.act (.tryGrant name owner) clock).1.manager =
          watched.manager.setLock name (state.grant owner (clock name)) := by
        rw [manager_act]
        exact congrArg Prod.fst result
      have grants : (watched.act (.tryGrant name owner) clock).1.grants =
          ⟨name, owner, state.fencingToken + 1, watched.holdingOf name⟩ :: watched.grants := by
        change watched.granted name owner (watched.manager.tryGrant clock name owner).1
          (watched.manager.tryGrant clock name owner).2 = _
        rw [result, Watched.granted, if_pos rfl, find?_setLock, if_pos rfl]
        rfl
      rcases grantable with ⟨absent, rfl⟩ | ⟨found, -⟩
      · rw [absent] at room
        refine ordered.grant table grants rfl rfl (by decide) fun old member same => absurd same (room old member)
      · rw [found] at room
        exact ordered.grant table grants rfl rfl room fun old member same =>
          ordered.below old member state (same ▸ found)
    · refine ordered.descend ?_ ?_
      · change watched.granted name owner _ (watched.manager.tryGrant clock name owner).2 = _
        rw [result]
        rfl
      · rw [manager_act]
        change Descends (watched.manager.tryGrant clock name owner).1 watched.manager
        rw [result]
        exact .refl watched.manager
  · have descends : Descends (watched.manager.act point clock).1 watched.manager :=
      descends_act fun name owner same => granting ⟨name, owner, same⟩
    refine ordered.descend ?_ (manager_act ▸ descends)
    cases point with
    | tryGrant name owner => exact absurd ⟨name, owner, rfl⟩ granting
    | _ => rfl

end

theorem Ordered.step {pool : Pool} (ordered : Ordered pool.shared) {event : Event} (continues : Continues pool event) :
    Ordered (step pool event).shared := by
  cases event with
  | start call => exact ordered
  | advance index clock =>
    by_cases running : ∃ point, pool.At index point
    · obtain ⟨point, running⟩ := running
      rw [shared_advance running]
      exact ordered.act fun name owner same => continues name owner (same ▸ running)
    · have idle : Locks.step pool (.advance index clock) = pool := step_idle (not_exists.mp running)
      rw [idle]
      exact ordered

end Order

/-- In every run whose grants go on with the tokens of their locks, tokens increase from one holding to the next, and
those of earlier holdings are not accepted. -/
theorem fenced_of_continues (events : List Event) (continues : Meets step Continues idle events) :
    ∀ reached, reached <+: events → Fenced (run step idle reached).shared := by
  intro reached before
  have ordered : Ordered (run step idle reached).shared :=
    (continues.of_prefix before).preserves (fun pool => Ordered pool.shared)
      (fun _ _ met ordered => ordered.step met) ordered_initial
  exact ordered.fenced

def inTurn (index : Nat) (call : Call) (sections : Nat) (clock : Clock) : List Event :=
  .start call :: List.replicate sections (.advance index clock)

def regranted : List Event :=
  inTurn 0 (.tryLock [108] [97] 1) 3 (fun _ => 0) ++ inTurn 1 (.unlock [108] [97]) 2 (fun _ => 1) ++
    inTurn 2 (.tryLock [108] [98] 1) 3 (fun _ => 2)

theorem fenced_regranted : Fenced (run step idle regranted).shared := by
  refine fenced_of_continues regranted ⟨trivial, ?_, ?_, ?_, trivial, ?_, ?_, trivial, ?_, ?_, ?_, trivial⟩ _
    (prefix_refl _)
  all_goals
    intro name owner running
    cases running
  case refine_3 =>
    change ∀ grant ∈ ([] : List Grant), _
    exact nofun
  case refine_8 =>
    change (1 : Int64) ≠ Int64.maxValue
    decide

def droppedLock : List Event :=
  inTurn 0 (.tryLock [108] [97] 1) 3 (fun _ => 0) ++ inTurn 1 (.unlock [108] [97]) 2 (fun _ => 0) ++
    inTurn 2 .cleanup 1 (fun _ => 600001) ++ inTurn 3 (.tryLock [108] [97] 1) 3 (fun _ => 600002)

/-- The token of the first holding is granted again, and accepted. -/
theorem droppedLock_not_fenced : ¬Fenced (run step idle droppedLock).shared := by
  intro fenced
  have rejected := fenced.rejects ⟨[108], [97], 1, 1⟩ (by decide) (by decide) [97]
  exact absurd rejected (by decide)

end TorrentMq.Broker.Locks
