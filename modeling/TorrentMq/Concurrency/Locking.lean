import Mathlib.Logic.Basic

/-!
# Non-recursive mutexes

Computations of one thread that acquire mutexes for the length of a block. A
computation that is about to acquire a mutex that the thread already holds
goes no further, and its outcome names the mutex.
-/

set_option autoImplicit false

namespace Locking

inductive Outcome (Mutex State α : Type) where
  | returned (value : α) (state : State)
  | relocks (mutex : Mutex)

namespace Outcome

variable {Mutex State α β : Type}

def andThen (outcome : Outcome Mutex State α) (next : α → State → Outcome Mutex State β) : Outcome Mutex State β :=
  match outcome with
  | .returned value state => next value state
  | .relocks mutex => .relocks mutex

def returns (outcome : Outcome Mutex State α) : Bool :=
  match outcome with
  | .returned .. => true
  | .relocks _ => false

@[simp] theorem andThen_returned (value : α) (state : State) (next : α → State → Outcome Mutex State β) :
    (Outcome.returned value state).andThen next = next value state := rfl

@[simp] theorem andThen_relocks (mutex : Mutex) (next : α → State → Outcome Mutex State β) :
    (Outcome.relocks mutex).andThen next = .relocks mutex := rfl

end Outcome

def Locked (Mutex State α : Type) : Type := (Mutex → Bool) → State → Outcome Mutex State α

namespace Locked

variable {Mutex State α β : Type}

def run (computation : Locked Mutex State α) (held : Mutex → Bool) (state : State) : Outcome Mutex State α :=
  computation held state

instance : Monad (Locked Mutex State) where
  pure value := fun _ state => .returned value state
  bind computation next := fun held state =>
    (computation held state).andThen fun value after => next value held after

instance : MonadStateOf State (Locked Mutex State) where
  get := fun _ state => .returned state state
  set after := fun _ _ => .returned () after
  modifyGet change := fun _ state => .returned (change state).1 (change state).2

def free : Mutex → Bool := fun _ => false

section Mutexes

variable [DecidableEq Mutex]

def hold (mutex : Mutex) (held : Mutex → Bool) : Mutex → Bool := fun other => decide (other = mutex) || held other

def lock (mutex : Mutex) (body : Locked Mutex State α) : Locked Mutex State α := fun held state =>
  if held mutex then .relocks mutex else body (hold mutex held) state

end Mutexes

variable {held : Mutex → Bool} {state : State}

@[simp] theorem run_pure (value : α) : (pure value : Locked Mutex State α).run held state = .returned value state := rfl

@[simp] theorem run_bind (computation : Locked Mutex State α) (next : α → Locked Mutex State β) :
    (computation >>= next).run held state =
      (computation.run held state).andThen fun value after => (next value).run held after := rfl

@[simp] theorem run_get : (get : Locked Mutex State State).run held state = .returned state state := rfl

@[simp] theorem run_set (after : State) : (set after : Locked Mutex State PUnit).run held state = .returned () after := rfl

@[simp] theorem run_modify (change : State → State) :
    (modify change : Locked Mutex State PUnit).run held state = .returned () (change state) := rfl

@[simp] theorem run_ite {condition : Prop} [Decidable condition] (first second : Locked Mutex State α) :
    (if condition then first else second).run held state =
      if condition then first.run held state else second.run held state := by
  split <;> rfl

@[simp] theorem free_apply (mutex : Mutex) : free mutex = false := rfl

section Mutexes

variable [DecidableEq Mutex]

@[simp] theorem hold_self (mutex : Mutex) : hold mutex held mutex = true := by simp [hold]

theorem hold_of_ne {mutex other : Mutex} (different : other ≠ mutex) : hold mutex held other = held other := by
  simp [hold, different]

@[simp] theorem run_lock (mutex : Mutex) (body : Locked Mutex State α) :
    (lock mutex body).run held state = if held mutex then .relocks mutex else body.run (hold mutex held) state := rfl

theorem run_lock_of_free {mutex : Mutex} (unheld : held mutex = false) (body : Locked Mutex State α) :
    (lock mutex body).run held state = body.run (hold mutex held) state := by
  simp [run_lock, unheld]

end Mutexes

end Locked

end Locking
