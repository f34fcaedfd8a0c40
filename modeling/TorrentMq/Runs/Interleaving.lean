import TorrentMq.Runs.Basic

/-!
# Interleavings

Calls that run section by section over a shared state. A section is atomic, and
between two sections of a call any sections of the others may run.
-/

set_option autoImplicit false

namespace Interleaving

open List

inductive Stage (Point Answer : Type) where
  | running (point : Point)
  | returned (answer : Answer)
deriving DecidableEq

structure Pool (Shared Point Answer : Type) where
  shared : Shared
  calls : List (Stage Point Answer) := []

inductive Event (Point Input : Type) where
  | start (point : Point)
  | advance (index : Nat) (input : Input)

variable {Shared Point Answer Input : Type}

def Event.enter {Call : Type} (first : Call → Point) : Event Call Input → Event Point Input
  | .start call => .start (first call)
  | .advance index input => .advance index input

def step (act : Point → Input → Shared → Shared × Stage Point Answer) (pool : Pool Shared Point Answer) :
    Event Point Input → Pool Shared Point Answer
  | .start point => { pool with calls := pool.calls ++ [.running point] }
  | .advance index input =>
    match pool.calls[index]? with
    | some (.running point) =>
      { shared := (act point input pool.shared).1
        calls := pool.calls.set index (act point input pool.shared).2 }
    | _ => pool

def Pool.At (pool : Pool Shared Point Answer) (index : Nat) (point : Point) : Prop :=
  pool.calls[index]? = some (.running point)

variable {act : Point → Input → Shared → Shared × Stage Point Answer} {pool : Pool Shared Point Answer}
  {index : Nat} {point : Point} {input : Input}

theorem step_advance (running : pool.At index point) :
    step act pool (.advance index input) =
      { shared := (act point input pool.shared).1
        calls := pool.calls.set index (act point input pool.shared).2 } := by
  rw [step, running]

theorem step_idle (idle : ∀ point, ¬pool.At index point) : step act pool (.advance index input) = pool := by
  unfold step
  dsimp only
  split
  next point running => exact absurd running (idle point)
  next => rfl

theorem at_append {started other : Point} :
    Pool.At { pool with calls := pool.calls ++ [.running started] } index other ↔
      pool.At index other ∨ index = pool.calls.length ∧ other = started := by
  unfold Pool.At
  rcases lt_trichotomy index pool.calls.length with below | here | above
  · rw [getElem?_append_left below]
    exact (or_iff_left fun new => absurd new.1 below.ne).symm
  · rw [here, getElem?_concat_length, getElem?_eq_none (Nat.le_refl _)]
    simp [eq_comm]
  · rw [getElem?_eq_none (by rw [length_append]; exact above), getElem?_eq_none above.le]
    simp [above.ne']

theorem at_set {stage : Stage Point Answer} {other : Nat} {at_other : Point} (running : pool.At index point) :
    Pool.At { pool with calls := pool.calls.set index stage } other at_other ↔
      if other = index then stage = .running at_other else pool.At other at_other := by
  have bound : index < pool.calls.length := (List.getElem?_eq_some_iff.mp running).1
  unfold Pool.At
  dsimp only
  split
  next same => rw [same, getElem?_set_self bound, Option.some_inj]
  next differs => rw [getElem?_set_ne (Ne.symm differs)]

theorem returned_step {answer : Answer} (returned : pool.calls[index]? = some (.returned answer))
    (event : Event Point Input) : (step act pool event).calls[index]? = some (.returned answer) := by
  cases event with
  | start started =>
    have bound : index < pool.calls.length := (List.getElem?_eq_some_iff.mp returned).1
    exact (getElem?_append_left bound).trans returned
  | advance other input =>
    by_cases running : ∃ point, pool.At other point
    · obtain ⟨point, running⟩ := running
      have differs : other ≠ index := by
        rintro rfl
        cases running.symm.trans returned
      rw [step_advance running]
      exact (getElem?_set_ne differs).trans returned
    · rw [step_idle (not_exists.mp running)]
      exact returned

theorem returned_cases {answer : Answer} {event : Event Point Input}
    (returned : (step act pool event).calls[index]? = some (.returned answer)) :
    pool.calls[index]? = some (.returned answer) ∨
      ∃ point input, event = .advance index input ∧ pool.At index point ∧
        (act point input pool.shared).2 = .returned answer := by
  cases event with
  | start started =>
    left
    change (pool.calls ++ [.running started])[index]? = _ at returned
    rw [getElem?_append] at returned
    split at returned
    next => exact returned
    next =>
      obtain ⟨bound, same⟩ := List.getElem?_eq_some_iff.mp returned
      rw [getElem_singleton] at same
      cases same
  | advance other input =>
    by_cases running : ∃ point, pool.At other point
    · obtain ⟨point, running⟩ := running
      rw [step_advance running] at returned
      dsimp only at returned
      by_cases same : other = index
      · subst same
        have bound : other < pool.calls.length := (List.getElem?_eq_some_iff.mp running).1
        rw [getElem?_set_self bound] at returned
        exact .inr ⟨point, input, rfl, running, Option.some.inj returned⟩
      · rw [getElem?_set_ne same] at returned
        exact .inl returned
    · rw [step_idle (not_exists.mp running)] at returned
      exact .inl returned

theorem returned_run {answer : Answer} (returned : pool.calls[index]? = some (.returned answer))
    (events : List (Event Point Input)) :
    (Runs.run (step act) pool events).calls[index]? = some (.returned answer) := by
  induction events generalizing pool with
  | nil => exact returned
  | cons event events ih => exact ih (returned_step returned event)

/-- A call that takes its sections without any other in between, if the inputs are enough for it to return. -/
def complete (act : Point → Input → Shared → Shared × Stage Point Answer) :
    List Input → Point → Shared → Option (Shared × Answer)
  | [], _, _ => none
  | input :: inputs, point, shared =>
    match act point input shared with
    | (after, .returned answer) => some (after, answer)
    | (after, .running next) => complete act inputs next after

theorem complete_induction {inputs : List Input} {shared after : Shared} {answer : Answer}
    {knows : Stage Point Answer → Shared → Prop}
    (preserved : ∀ point input shared, knows (.running point) shared →
      knows (act point input shared).2 (act point input shared).1)
    (known : knows (.running point) shared) (completed : complete act inputs point shared = some (after, answer)) :
    knows (.returned answer) after := by
  induction inputs generalizing point shared with
  | nil => cases completed
  | cons input inputs ih =>
    have next := preserved point input shared known
    rw [complete] at completed
    split at completed
    next result answered taken =>
      cases completed
      rwa [taken] at next
    next result further taken =>
      rw [taken] at next
      exact ih next completed

/-- What holds of the shared state, what a call knows of it at a point, and what two calls have apart.
Every section that is admitted establishes what its call knows afterwards, and disturbs no other call. -/
structure Outline (act : Point → Input → Shared → Shared × Stage Point Answer)
    (admits : Pool Shared Point Answer → Event Point Input → Prop) (invariant : Shared → Prop)
    (knows : Point → Shared → Prop) (apart : Point → Point → Prop) : Prop where
  starts : ∀ pool point, admits pool (.start point) → invariant pool.shared →
    knows point pool.shared ∧ ∀ index other, pool.At index other → apart point other ∧ apart other point
  keeps : ∀ pool index point input, pool.At index point → admits pool (.advance index input) →
    invariant pool.shared → knows point pool.shared → invariant (act point input pool.shared).1
  moves : ∀ pool index point input after, pool.At index point → admits pool (.advance index input) →
    invariant pool.shared → knows point pool.shared → (act point input pool.shared).2 = .running after →
      knows after (act point input pool.shared).1
  stable : ∀ pool index point input other at_other, pool.At index point → pool.At other at_other → other ≠ index →
    admits pool (.advance index input) → invariant pool.shared → knows point pool.shared →
      knows at_other pool.shared → apart point at_other → knows at_other (act point input pool.shared).1
  separates : ∀ pool index point input after other at_other, pool.At index point → pool.At other at_other →
    other ≠ index → admits pool (.advance index input) → invariant pool.shared → knows point pool.shared →
      knows at_other pool.shared → apart point at_other → (act point input pool.shared).2 = .running after →
        apart after at_other ∧ apart at_other after

structure Holds (invariant : Shared → Prop) (knows : Point → Shared → Prop) (apart : Point → Point → Prop)
    (pool : Pool Shared Point Answer) : Prop where
  shared : invariant pool.shared
  knows : ∀ index point, pool.At index point → knows point pool.shared
  apart : ∀ index point other at_other, pool.At index point → pool.At other at_other → other ≠ index →
    apart point at_other

variable {admits : Pool Shared Point Answer → Event Point Input → Prop} {invariant : Shared → Prop}
  {knows : Point → Shared → Prop} {apart : Point → Point → Prop}

theorem Holds.initial {shared : Shared} (holds : invariant shared) :
    Holds invariant knows apart ({ shared := shared } : Pool Shared Point Answer) where
  shared := holds
  knows := by
    intro index point running
    cases running
  apart := by
    intro index point other at_other running
    cases running

section

variable (outline : Outline act admits invariant knows apart) (holds : Holds invariant knows apart pool)
include outline holds

theorem Outline.start (admitted : admits pool (.start point)) :
    Holds invariant knows apart (step act pool (.start point)) := by
  obtain ⟨known, separate⟩ := outline.starts pool point admitted holds.shared
  refine ⟨holds.shared, fun index other running => ?_, fun index first other second running present differs => ?_⟩
  · rcases at_append.mp running with old | ⟨-, rfl⟩
    · exact holds.knows index other old
    · exact known
  · rcases at_append.mp running with old | ⟨here, rfl⟩
    · rcases at_append.mp present with old' | ⟨-, rfl⟩
      · exact holds.apart index first other second old old' differs
      · exact (separate index first old).2
    · rcases at_append.mp present with old' | ⟨there, -⟩
      · exact (separate other second old').1
      · exact absurd (there.trans here.symm) differs

theorem Outline.advance (running : pool.At index point) (admitted : admits pool (.advance index input)) :
    Holds invariant knows apart (step act pool (.advance index input)) := by
  have known := holds.knows index point running
  rw [step_advance running]
  refine ⟨outline.keeps pool index point input running admitted holds.shared known, fun other second present => ?_,
    fun other first another second present also differs => ?_⟩
  · have present := (at_set running).mp present
    split at present
    next => exact outline.moves pool index point input second running admitted holds.shared known present
    next differs =>
      exact outline.stable pool index point input other second running present differs admitted holds.shared known
        (holds.knows other second present) (holds.apart index point other second running present differs)
  · have present := (at_set running).mp present
    have also := (at_set running).mp also
    split at present
    next same =>
      rw [if_neg (same ▸ differs)] at also
      exact (outline.separates pool index point input first another second running also (same ▸ differs) admitted
        holds.shared known (holds.knows another second also)
        (holds.apart index point another second running also (same ▸ differs)) present).1
    next other_call =>
      split at also
      next =>
        exact (outline.separates pool index point input second other first running present other_call admitted
          holds.shared known (holds.knows other first present)
          (holds.apart index point other first running present other_call) also).2
      next => exact holds.apart other first another second present also differs

theorem Outline.step {event : Event Point Input} (admitted : admits pool event) :
    Holds invariant knows apart (Interleaving.step act pool event) := by
  cases event with
  | start point => exact outline.start holds admitted
  | advance index input =>
    by_cases running : ∃ point, pool.At index point
    · obtain ⟨point, running⟩ := running
      exact outline.advance holds running admitted
    · rw [step_idle (not_exists.mp running)]
      exact holds

end

end Interleaving
