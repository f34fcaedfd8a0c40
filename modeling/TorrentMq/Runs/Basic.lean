import Mathlib.Data.List.Infix
import Mathlib.Data.List.Induction

/-!
# Runs

Runs of a machine that takes one event after the other, and what holds all
through those whose events meet a condition on the state they find.
-/

set_option autoImplicit false

namespace Runs

open List

variable {State Event : Type} (step : State → Event → State)

def run (state : State) (events : List Event) : State := events.foldl step state

@[simp] theorem run_nil (state : State) : run step state [] = state := rfl

@[simp] theorem run_cons (state : State) (event : Event) (events : List Event) :
    run step state (event :: events) = run step (step state event) events := rfl

def Meets (condition : State → Event → Prop) (state : State) : List Event → Prop
  | [] => True
  | event :: events => condition state event ∧ Meets condition (step state event) events

instance Meets.decide (condition : State → Event → Prop) [∀ state event, Decidable (condition state event)] :
    (state : State) → (events : List Event) → Decidable (Meets step condition state events)
  | _, [] => .isTrue trivial
  | state, event :: events =>
    have := Meets.decide condition (step state event) events
    inferInstanceAs (Decidable (_ ∧ _))

variable {step}

theorem run_append (state : State) (before after : List Event) :
    run step state (before ++ after) = run step (run step state before) after := foldl_append

theorem run_concat (state : State) (before : List Event) (event : Event) :
    run step state (before ++ [event]) = step (run step state before) event := run_append state before [event]

variable {condition : State → Event → Prop} {state : State}

theorem meets_append {before after : List Event} : Meets step condition state (before ++ after) ↔
      Meets step condition state before ∧ Meets step condition (run step state before) after := by
  induction before generalizing state with
  | nil => simp [Meets]
  | cons event before ih => simp [Meets, ih, and_assoc]

theorem Meets.of_prefix {before events : List Event}
    (meets : Meets step condition state events) (reached : before <+: events) : Meets step condition state before := by
  obtain ⟨after, rfl⟩ := reached
  exact (meets_append.mp meets).1

theorem Meets.last {condition : State → Event → Prop} {state : State} {before : List Event} {event : Event}
    (meets : Meets step condition state (before ++ [event])) : condition (run step state before) event :=
  (meets_append.mp meets).2.1

theorem meets_of_prefixes {events : List Event}
    (met : ∀ before event, before ++ [event] <+: events → Meets step condition state before →
      condition (run step state before) event) : Meets step condition state events := by
  induction events using List.reverseRecOn with
  | nil => trivial
  | append_singleton before event ih =>
    have earlier : Meets step condition state before :=
      ih fun first last reached => met first last (reached.trans (prefix_append before [event]))
    exact meets_append.mpr ⟨earlier, met before event (prefix_refl _) earlier, trivial⟩

theorem Meets.preserves (invariant : State → Prop)
    (preserved : ∀ state event, condition state event → invariant state → invariant (step state event))
    (initial : invariant state) {events : List Event}
    (meets : Meets step condition state events) : invariant (run step state events) := by
  induction events generalizing state with
  | nil => exact initial
  | cons event events ih => exact ih (preserved state event meets.1 initial) meets.2

theorem meets_iff_prefixes (invariant : State → Prop)
    (exact_step : ∀ state event, invariant state → (invariant (step state event) ↔ condition state event))
    (initial : invariant state) (events : List Event) :
    Meets step condition state events ↔ ∀ reached, reached <+: events → invariant (run step state reached) := by
  induction events generalizing state with
  | nil =>
    refine ⟨fun _ reached before => ?_, fun _ => trivial⟩
    rw [prefix_nil.mp before]
    exact initial
  | cons event events ih =>
    constructor
    · rintro ⟨met, meets⟩ reached before
      cases reached with
      | nil => exact initial
      | cons other reached =>
        obtain ⟨rfl, rest⟩ := cons_prefix_cons.mp before
        exact (ih ((exact_step state other initial).mpr met)).mp meets reached rest
    · intro all
      have next : invariant (step state event) := all [event] (by simp)
      refine ⟨(exact_step state event initial).mp next, (ih next).mpr ?_⟩
      intro reached before
      exact all (event :: reached) (cons_prefix_cons.mpr ⟨rfl, before⟩)

theorem meets_iff_prefixes_of (invariant property : State → Prop)
    (exact_step : ∀ state event, invariant state → property state → (property (step state event) ↔ condition state event))
    (kept : ∀ state event, invariant state → property state → property (step state event) → invariant (step state event))
    (initial : invariant state ∧ property state) (events : List Event) :
    Meets step condition state events ↔ ∀ reached, reached <+: events → property (run step state reached) := by
  have both : ∀ state event, invariant state ∧ property state →
      ((invariant (step state event) ∧ property (step state event)) ↔ condition state event) := by
    rintro state event ⟨holds, met⟩
    rw [← exact_step state event holds met]
    exact ⟨And.right, fun next => ⟨kept state event holds met next, next⟩⟩
  refine (meets_iff_prefixes (fun state => invariant state ∧ property state) both initial events).trans ?_
  refine ⟨fun all reached before => (all reached before).2, fun all reached => ?_⟩
  induction reached using List.reverseRecOn with
  | nil => exact fun _ => initial
  | append_singleton earlier event ih =>
    intro before
    have sooner := ih ((prefix_append earlier [event]).trans before)
    have next := all (earlier ++ [event]) before
    rw [run_concat] at next ⊢
    exact ⟨kept _ event sooner.1 sooner.2 next, next⟩

theorem property_run_iff (property : State → Prop)
    (exact_step : ∀ state event, property (step state event) ↔ property state ∧ condition state event)
    (state : State) (events : List Event) :
    property (run step state events) ↔ property state ∧ Meets step condition state events := by
  induction events generalizing state with
  | nil => simp [Meets]
  | cons event events ih => rw [run_cons, ih, exact_step, Meets, and_assoc]

theorem meets_iff_meets {condition property : State → Event → Prop} (invariant : State → Prop)
    (agree : ∀ state event, invariant state → (property state event ↔ condition state event))
    (preserved : ∀ state event, condition state event → invariant state → invariant (step state event))
    (initial : invariant state) (events : List Event) :
    Meets step property state events ↔ Meets step condition state events := by
  induction events generalizing state with
  | nil => exact Iff.rfl
  | cons event events ih =>
    rw [Meets, Meets, agree state event initial]
    exact and_congr_right fun met => ih (preserved state event met initial)

theorem meets_of_forall {condition : Event → Prop} {events : List Event}
    (all : ∀ event ∈ events, condition event) (state : State) :
    Meets step (fun _ event => condition event) state events := by
  induction events generalizing state with
  | nil => trivial
  | cons event events ih =>
    exact ⟨all event mem_cons_self, ih (fun other member => all other (by simp [member])) _⟩

end Runs
