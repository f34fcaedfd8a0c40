import TorrentMq.Bytes.Reader
import TorrentMq.Collections.OrderedMap
import TorrentMq.Runs.Interleaving

/-!
# Distributed lock manager

Named locks with owners and fencing tokens. Every call holds the mutex of the
table in sections of its own, and proposes what it does in between.
-/

set_option autoImplicit false

namespace TorrentMq.Broker.Locks

open Bytes

def kDefaultTimeoutMs : Int := 60000

def kDefaultLockTTL : Int := 300000

def kMaxLocks : Nat := 10000

/-- A lock, with its owner and the token of the last grant. -/
structure LockState where
  owner : Bytes := []
  fencingToken : Int64 := 0
  lastActivity : Int := 0
deriving DecidableEq

namespace LockState

variable (state : LockState)

def isHeld : Bool := !state.owner.isEmpty

def isExpired (now : Int) : Bool := state.isHeld && decide (kDefaultLockTTL < now - state.lastActivity)

def isIdle (now : Int) : Bool := !state.isHeld && decide (kDefaultLockTTL * 2 < now - state.lastActivity)

def touch (now : Int) : LockState := { state with lastActivity := now }

def clear : LockState := { state with owner := [] }

def grant (owner : Bytes) (now : Int) : LockState :=
  { owner := owner, lastActivity := now, fencingToken := state.fencingToken + 1 }

end LockState

abbrev Clock := Bytes → Int

structure DistributedLockManager where
  lockTable : OrderedMap Bytes LockState := .empty

/-- The locked sections that a call consists of. -/
inductive Point where
  | tryCheck (name owner : Bytes) (timeoutMs : Int)
  | tryCapacity (name owner : Bytes) (timeoutMs : Int)
  | tryGrant (name owner : Bytes)
  | unlockCheck (name owner : Bytes)
  | unlockClear (name owner : Bytes)
  | forceRelease (name : Bytes)
  | cleanup
deriving DecidableEq

abbrev Stage := Interleaving.Stage Point Bool

inductive Call where
  | tryLock (name owner : Bytes) (timeoutMs : Int)
  | unlock (name owner : Bytes)
  | forceRelease (name : Bytes)
  | cleanup
deriving DecidableEq

def Call.first : Call → Point
  | .tryLock name owner timeoutMs => .tryCheck name owner timeoutMs
  | .unlock name owner => .unlockCheck name owner
  | .forceRelease name => .forceRelease name
  | .cleanup => .cleanup

def effectiveTimeout (timeoutMs : Int) : Int := if 0 < timeoutMs then timeoutMs else kDefaultTimeoutMs

def simulateRaftPropose (timeoutMs : Int) : Bool := decide (0 ≤ timeoutMs)

namespace DistributedLockManager

variable (manager : DistributedLockManager) (clock : Clock)

def setLock (name : Bytes) (state : LockState) : DistributedLockManager :=
  { manager with lockTable := manager.lockTable.insert name state }

def tryCheck (name owner : Bytes) (timeoutMs : Int) : DistributedLockManager × Stage :=
  if name.isEmpty || owner.isEmpty then (manager, .returned false)
  else
    match manager.lockTable.find? name with
    | none => (manager, .running (.tryCapacity name owner timeoutMs))
    | some state =>
      if state.isHeld then
        if state.owner = owner then (manager.setLock name (state.touch (clock name)), .returned true)
        else (manager, .returned false)
      else (manager, .running (.tryCapacity name owner timeoutMs))

def tryCapacity (name owner : Bytes) (timeoutMs : Int) : DistributedLockManager × Stage :=
  if kMaxLocks ≤ manager.lockTable.size then (manager, .returned false)
  else if simulateRaftPropose (effectiveTimeout timeoutMs) then (manager, .running (.tryGrant name owner))
  else (manager, .returned false)

def tryGrant (name owner : Bytes) : DistributedLockManager × Stage :=
  match manager.lockTable.find? name with
  | none => (manager.setLock name (LockState.grant {} owner (clock name)), .returned true)
  | some state =>
    if !state.isHeld || state.owner = owner then
      (manager.setLock name (state.grant owner (clock name)), .returned true)
    else (manager, .returned false)

def unlockCheck (name owner : Bytes) : DistributedLockManager × Stage :=
  if name.isEmpty || owner.isEmpty then (manager, .returned false)
  else
    match manager.lockTable.find? name with
    | none => (manager, .returned false)
    | some state =>
      if state.isHeld && state.owner = owner && simulateRaftPropose kDefaultTimeoutMs then
        (manager, .running (.unlockClear name owner))
      else (manager, .returned false)

def unlockClear (name : Bytes) : DistributedLockManager × Stage :=
  match manager.lockTable.find? name with
  | none => (manager, .returned true)
  | some state => (manager.setLock name state.clear, .returned true)

def forceRelease (name : Bytes) : DistributedLockManager × Stage :=
  if name.isEmpty then (manager, .returned false)
  else
    match manager.lockTable.find? name with
    | none => (manager, .returned false)
    | some state =>
      if state.isHeld then (manager.setLock name state.clear, .returned true)
      else (manager, .returned false)

def cleanup : DistributedLockManager :=
  let kept := manager.lockTable.filter fun name =>
    !(manager.lockTable.find? name).any fun state => state.isIdle (clock name)
  { manager with
    lockTable := kept.mapValues fun name state => if state.isExpired (clock name) then state.clear else state }

def validateFencing (name owner : Bytes) (token : Int64) : Bool :=
  match manager.lockTable.find? name with
  | none => false
  | some state => state.isHeld && decide (state.owner = owner) && decide (token = state.fencingToken)

def act (point : Point) (clock : Clock) (manager : DistributedLockManager) : DistributedLockManager × Stage :=
  match point with
  | .tryCheck name owner timeoutMs => manager.tryCheck clock name owner timeoutMs
  | .tryCapacity name owner timeoutMs => manager.tryCapacity name owner timeoutMs
  | .tryGrant name owner => manager.tryGrant clock name owner
  | .unlockCheck name owner => manager.unlockCheck name owner
  | .unlockClear name _ => manager.unlockClear name
  | .forceRelease name => manager.forceRelease name
  | .cleanup => (manager.cleanup clock, .returned true)

end DistributedLockManager

/-- A grant that a caller has got, and whether the caller still takes it for its own. -/
structure Grant where
  name : Bytes
  owner : Bytes
  token : Int64
  holding : Nat
deriving DecidableEq

/-- A manager among the calls that run, with the grants so far. -/
structure Watched where
  manager : DistributedLockManager := {}
  activity : Bytes → Int := fun _ => 0
  grants : List Grant := []

namespace Watched

variable (watched : Watched) (clock : Clock)

def holdingOf (name : Bytes) : Nat :=
  if (watched.manager.lockTable.find? name).any (·.isHeld) then
    ((watched.grants.find? fun grant => grant.name = name).map (·.holding)).getD 0
  else watched.grants.length + 1

def active (name : Bytes) (answer : Stage) : Bytes → Int :=
  if answer = .returned true then Function.update watched.activity name (clock name) else watched.activity

def granted (name owner : Bytes) (after : DistributedLockManager) (answer : Stage) : List Grant :=
  if answer = .returned true then
    { name := name
      owner := owner
      token := ((after.lockTable.find? name).map (·.fencingToken)).getD 0
      holding := watched.holdingOf name } :: watched.grants
  else watched.grants

def act (point : Point) (clock : Clock) (watched : Watched) : Watched × Stage :=
  let (after, answer) := watched.manager.act point clock
  match point with
  | .tryCheck name _ _ => ({ watched with manager := after, activity := watched.active clock name answer }, answer)
  | .tryGrant name owner =>
    ({ manager := after
       activity := watched.active clock name answer
       grants := watched.granted name owner after answer }, answer)
  | _ => ({ watched with manager := after }, answer)

end Watched

abbrev Pool := Interleaving.Pool Watched Point Bool

abbrev Event := Interleaving.Event Call Clock

def step (pool : Pool) (event : Event) : Pool := Interleaving.step Watched.act pool (event.enter Call.first)

end TorrentMq.Broker.Locks
