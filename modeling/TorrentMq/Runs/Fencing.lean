import TorrentMq.Runs.Basic

/-!
# Fencing

Coordinators that number the rounds of a group. A member shows the number of the
round it has taken part in, so that those of an earlier round are kept out.
-/

set_option autoImplicit false

namespace Runs

structure Coordinator (State Event Member Number : Type) where
  step : State → Event → State
  number : State → Number
  occupied : State → Prop
  /-- The last member goes in the course of an event. -/
  empties : State → Event → Prop
  /-- The number of the round that a member takes part in by an event. -/
  takesPart : State → Event → Member → Option Number
  /-- An event that is the heartbeat of a member under a number, and is accepted. -/
  accepts : State → Event → Member → Number → Prop

namespace Coordinator

variable {State Event Member Number : Type} (coordinator : Coordinator State Event Member Number)

def watch (watched : State × (Member → Option Number)) (event : Event) : State × (Member → Option Number) :=
  (coordinator.step watched.1 event, fun member =>
    (coordinator.takesPart watched.1 event member).or (watched.2 member))

def lastRound (initial : State) (events : List Event) : Member → Option Number :=
  (run coordinator.watch (initial, fun _ => none) events).2

/-- Numbers do not fall, a heartbeat shows the number of the member's last round, and a number
that members had before all of them went is not theirs again. -/
structure Fenced [LE Number] (initial : State) (events : List Event) : Prop where
  rises : ∀ earlier later, earlier <+: later → later <+: events →
    coordinator.number (run coordinator.step initial earlier) ≤ coordinator.number (run coordinator.step initial later)
  own_round : ∀ before event, before ++ [event] <+: events → ∀ member number,
    coordinator.accepts (run coordinator.step initial before) event member number →
      coordinator.lastRound initial before member = some number
  retired : ∀ earlier before event later, earlier <+: before → before ++ [event] <+: later → later <+: events →
    coordinator.occupied (run coordinator.step initial earlier) →
      coordinator.empties (run coordinator.step initial before) event →
        coordinator.occupied (run coordinator.step initial later) →
          coordinator.number (run coordinator.step initial later) ≠
            coordinator.number (run coordinator.step initial earlier)

/-- A condition on events under which a group that has lost its members stays without any. -/
structure Discipline [LE Number] (condition : State → Event → Prop)
    (invariant : State × (Member → Option Number) → Prop) (gone : State → Prop) : Prop where
  preserved : ∀ watched event, condition watched.1 event → invariant watched →
    invariant (coordinator.watch watched event)
  rises : ∀ watched event, condition watched.1 event → invariant watched →
    coordinator.number watched.1 ≤ coordinator.number (coordinator.step watched.1 event)
  own_round : ∀ watched event, condition watched.1 event → invariant watched → ∀ member number,
    coordinator.accepts watched.1 event member number → watched.2 member = some number
  emptied : ∀ watched event, condition watched.1 event → invariant watched →
    coordinator.empties watched.1 event → gone (coordinator.step watched.1 event)
  stays : ∀ state event, condition state event → gone state → gone (coordinator.step state event)
  vacant : ∀ state, gone state → ¬coordinator.occupied state

variable {coordinator}

theorem Fenced.of_prefix [LE Number] {initial : State} {before events : List Event}
    (fenced : coordinator.Fenced initial events) (within : before <+: events) : coordinator.Fenced initial before where
  rises earlier later first last := fenced.rises earlier later first (last.trans within)
  own_round first event last := fenced.own_round first event (last.trans within)
  retired earlier first event later start passed last :=
    fenced.retired earlier first event later start passed (last.trans within)

section

variable (watched : State × (Member → Option Number)) (events : List Event)

theorem run_watch_fst :
    (run coordinator.watch watched events).1 = run coordinator.step watched.1 events := by
  induction events generalizing watched with
  | nil => rfl
  | cons event events ih => exact ih (coordinator.watch watched event)

theorem meets_watch_iff {condition : State → Event → Prop} :
    Meets coordinator.watch (fun watched event => condition watched.1 event) watched events ↔
      Meets coordinator.step condition watched.1 events := by
  induction events generalizing watched with
  | nil => exact Iff.rfl
  | cons event events ih => exact and_congr_right fun _ => ih (coordinator.watch watched event)

end

section Discipline

variable [Preorder Number] {condition : State → Event → Prop}
  {invariant : State × (Member → Option Number) → Prop} {gone : State → Prop} {initial : State} {events : List Event}

section

variable (discipline : coordinator.Discipline condition invariant gone) (start : invariant (initial, fun _ => none))
  (meets : Meets coordinator.step condition initial events)
include discipline start meets

theorem Discipline.reached :
    invariant (run coordinator.step initial events, coordinator.lastRound initial events) := by
  have watched := (meets_watch_iff (initial, fun _ => none) events).mpr meets
  have kept := watched.preserves invariant discipline.preserved start
  rw [lastRound, ← run_watch_fst (initial, fun _ => none)]
  exact kept

theorem Discipline.fenced : coordinator.Fenced initial events := by
  have rises : ∀ earlier later, earlier <+: later → later <+: events →
      coordinator.number (run coordinator.step initial earlier) ≤
        coordinator.number (run coordinator.step initial later) := by
    intro earlier later before within
    obtain ⟨rest, rfl⟩ := before
    induction rest using List.reverseRecOn with
    | nil => rw [List.append_nil]
    | append_singleton rest event ih =>
      rw [← List.append_assoc] at within ⊢
      have met := meets.of_prefix within
      have holds := discipline.reached start (meets_append.mp met).1
      rw [run_concat]
      exact (ih ((List.prefix_append _ _).trans within)).trans (discipline.rises _ event met.last holds)
  refine ⟨rises, ?_, ?_⟩
  · intro before event within
    have met := meets.of_prefix within
    exact discipline.own_round _ event met.last (discipline.reached start (meets_append.mp met).1)
  · intro earlier before event later _ passed within _ empties occupied
    obtain ⟨rest, rfl⟩ := passed
    have met := meets.of_prefix within
    rw [meets_append] at met
    have holds := discipline.reached start (meets_append.mp met.1).1
    have gone_then : gone (run coordinator.step initial (before ++ [event])) := by
      rw [run_concat]
      exact discipline.emptied _ event met.1.last holds empties
    have gone_now := met.2.preserves gone discipline.stays gone_then
    rw [run_append] at occupied
    exact absurd occupied (discipline.vacant _ gone_now)

end

end Discipline

end Coordinator

end Runs
