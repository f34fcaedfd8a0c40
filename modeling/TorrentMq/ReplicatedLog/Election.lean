import Mathlib.Data.Finset.Card
import Mathlib.Data.List.Basic
import Mathlib.Logic.Function.Basic
import Mathlib.Order.Basic

/-!
# Elections by majority vote

A replicated log is a family of nodes, each with a term, at most one vote in
it, a role and a log. The history of a run collects what the nodes have shown
so far; it only grows. When votes are kept within a term and office is taken
with a majority of votes only, every term has at most one leader.
-/

set_option autoImplicit false

namespace ReplicatedLog

variable {Node Term Entry : Type}

def Quorum (members : Finset Node) (holds : Node → Prop) : Prop :=
  ∃ voters ⊆ members, members.card < 2 * voters.card ∧ ∀ node ∈ voters, holds node

theorem Quorum.mono {members : Finset Node} {holds holds' : Node → Prop}
    (quorum : Quorum members holds) (weaker : ∀ node, holds node → holds' node) :
    Quorum members holds' := by
  obtain ⟨voters, inside, majority, all⟩ := quorum
  exact ⟨voters, inside, majority, fun node member => weaker node (all node member)⟩

theorem Quorum.meet [DecidableEq Node] {members : Finset Node} {holds holds' : Node → Prop}
    (first : Quorum members holds) (second : Quorum members holds') :
    ∃ node ∈ members, holds node ∧ holds' node := by
  obtain ⟨voters, inside, majority, all⟩ := first
  obtain ⟨voters', inside', majority', all'⟩ := second
  have bound : (voters ∪ voters').card ≤ members.card :=
    Finset.card_le_card (Finset.union_subset inside inside')
  have split := Finset.card_union_add_card_inter voters voters'
  have shared : 0 < (voters ∩ voters').card := by omega
  obtain ⟨node, member⟩ := Finset.card_pos.mp shared
  obtain ⟨left, right⟩ := Finset.mem_inter.mp member
  exact ⟨node, inside left, all node left, all' node right⟩

structure View (Node Term Entry : Type) where
  term : Term
  vote : Option Node
  leads : Prop
  log : List Entry

/-- Everything that the nodes of a run have shown so far. A vote counts as
backed by the voter's log when it was held in a term without a leader. -/
structure History (Node Term Entry : Type) where
  view : Node → View Node Term Entry
  ballot : Node → Term → Node → Prop
  backed : Node → Term → Node → List Entry → Prop
  led : Term → Node → Prop
  electionLog : Term → List Entry
  leaderLog : Term → List Entry
  seen : Node → Term → List Entry → Prop

namespace History

def Led (history : History Node Term Entry) (term : Term) : Prop := ∃ node, history.led term node

def initial (view : Node → View Node Term Entry) : History Node Term Entry where
  view := view
  ballot _ _ _ := False
  backed _ _ _ _ := False
  led _ _ := False
  electionLog _ := []
  leaderLog _ := []
  seen node term log := term = (view node).term ∧ log = (view node).log

section Observe

variable [DecidableEq Node] [DecidableEq Term]

open Classical in
noncomputable def observe (history : History Node Term Entry) (node : Node)
    (next : View Node Term Entry) : History Node Term Entry where
  view := Function.update history.view node next
  ballot voter term candidate :=
    history.ballot voter term candidate ∨
      voter = node ∧ term = next.term ∧ next.vote = some candidate
  backed voter term candidate log :=
    history.backed voter term candidate log ∨
      voter = node ∧ term = next.term ∧ next.vote = some candidate ∧ log = next.log ∧
        ¬next.leads ∧ ¬history.Led next.term
  led term leader := history.led term leader ∨ leader = node ∧ term = next.term ∧ next.leads
  electionLog :=
    if next.leads ∧ ¬(history.view node).leads then
      Function.update history.electionLog next.term (history.view node).log
    else history.electionLog
  leaderLog :=
    if next.leads then Function.update history.leaderLog next.term next.log else history.leaderLog
  seen witness term log :=
    history.seen witness term log ∨ witness = node ∧ term = next.term ∧ log = next.log

variable (history : History Node Term Entry) (node : Node) (next : View Node Term Entry)

@[simp] theorem observe_view_self : (history.observe node next).view node = next :=
  Function.update_self _ _ _

@[simp] theorem observe_view_of_ne {other : Node} (differs : other ≠ node) :
    (history.observe node next).view other = history.view other :=
  Function.update_of_ne differs _ _

theorem forall_observe_view (holds : Node → View Node Term Entry → Prop)
    (self : holds node next) (others : ∀ other, other ≠ node → holds other (history.view other))
    (other : Node) : holds other ((history.observe node next).view other) := by
  by_cases same : other = node
  · subst same
    rwa [observe_view_self]
  · rw [observe_view_of_ne history node next same]
    exact others other same

end Observe

/-- A new view respects the rules of voting: terms do not fall, a vote is kept
within its term, and office is taken with a majority of the votes of the term. -/
structure VotesLegally (members : Finset Node) [LE Term] (history : History Node Term Entry)
    (node : Node) (next : View Node Term Entry) : Prop where
  term : (history.view node).term ≤ next.term
  vote : ∀ candidate, next.term = (history.view node).term →
    (history.view node).vote = some candidate → next.vote = some candidate
  office : next.leads → next.term = (history.view node).term ∧
    ((history.view node).leads ∨ Quorum members (history.ballot · next.term node))

structure Elections (members : Finset Node) [LE Term] (history : History Node Term Entry) : Prop where
  bounded : ∀ voter term candidate, history.ballot voter term candidate →
    term ≤ (history.view voter).term
  current : ∀ voter candidate, history.ballot voter (history.view voter).term candidate →
    (history.view voter).vote = some candidate
  cast : ∀ voter candidate, (history.view voter).vote = some candidate →
    history.ballot voter (history.view voter).term candidate
  unique : ∀ voter term first second, history.ballot voter term first →
    history.ballot voter term second → first = second
  office : ∀ term leader, history.led term leader → Quorum members (history.ballot · term leader)
  leads : ∀ node, (history.view node).leads → history.led (history.view node).term node

theorem Elections.initial {members : Finset Node} [LE Term] {view : Node → View Node Term Entry}
    (unvoted : ∀ node, (view node).vote = none) (idle : ∀ node, ¬(view node).leads) :
    Elections members (History.initial view) where
  bounded _ _ _ := False.elim
  current _ _ := False.elim
  cast voter candidate vote := by
    rw [show ((History.initial view).view voter).vote = none from unvoted voter] at vote
    cases vote
  unique _ _ _ _ := False.elim
  office _ _ := False.elim
  leads node leads := (idle node leads).elim

section

variable [DecidableEq Node] [LinearOrder Term] {members : Finset Node}
  {history : History Node Term Entry} {node : Node} {next : View Node Term Entry}

theorem Elections.observe (elections : Elections members history) (legal : VotesLegally members history node next) :
    Elections members (history.observe node next) := by
  have kept : ∀ candidate, history.ballot node next.term candidate → next.vote = some candidate := by
    intro candidate ballot
    have same : next.term = (history.view node).term :=
      le_antisymm (elections.bounded node _ candidate ballot) legal.term
    exact legal.vote candidate same (elections.current node candidate (same ▸ ballot))
  refine ⟨?_, ?_, ?_, ?_, ?_, ?_⟩
  · intro voter term candidate ballot
    rcases ballot with old | ⟨rfl, rfl, _⟩
    · by_cases same : voter = node
      · subst same
        rw [observe_view_self]
        exact (elections.bounded voter term candidate old).trans legal.term
      · rw [observe_view_of_ne _ _ _ same]
        exact elections.bounded voter term candidate old
    · rw [observe_view_self]
  · intro voter candidate ballot
    by_cases same : voter = node
    · subst same
      rw [observe_view_self] at ballot ⊢
      rcases ballot with old | ⟨_, _, vote⟩
      · exact kept candidate old
      · exact vote
    · rw [observe_view_of_ne _ _ _ same] at ballot ⊢
      rcases ballot with old | ⟨rfl, _⟩
      · exact elections.current voter candidate old
      · exact absurd rfl same
  · refine forall_observe_view history node next (fun voter view => ∀ candidate,
      view.vote = some candidate → (history.observe node next).ballot voter view.term candidate) ?_ ?_
    · intro candidate vote
      exact .inr ⟨rfl, rfl, vote⟩
    · intro other _ candidate vote
      exact .inl (elections.cast other candidate vote)
  · intro voter term first second ballot ballot'
    rcases ballot with old | ⟨rfl, rfl, vote⟩
    · rcases ballot' with old' | ⟨rfl, rfl, vote'⟩
      · exact elections.unique voter term first second old old'
      · exact Option.some.inj ((kept first old).symm.trans vote')
    · rcases ballot' with old' | ⟨_, _, vote'⟩
      · exact Option.some.inj (vote.symm.trans (kept second old'))
      · exact Option.some.inj (vote.symm.trans vote')
  · intro term leader led
    have grown : ∀ voter, history.ballot voter term leader →
        (history.observe node next).ballot voter term leader := fun voter => .inl
    rcases led with old | ⟨rfl, rfl, leads⟩
    · exact (elections.office term leader old).mono grown
    · obtain ⟨same, held | quorum⟩ := legal.office leads
      · rw [same] at grown ⊢
        exact (elections.office _ _ (elections.leads leader held)).mono grown
      · exact quorum.mono grown
  · refine forall_observe_view history node next
      (fun leader view => view.leads → (history.observe node next).led view.term leader) ?_ ?_
    · intro leads
      exact .inr ⟨rfl, rfl, leads⟩
    · intro other _ leads
      exact .inl (elections.leads other leads)

omit [LinearOrder Term] in
theorem Elections.leader_unique [LE Term] (elections : Elections members history) {term : Term}
    {first second : Node} (led : history.led term first) (led' : history.led term second) :
    first = second := by
  obtain ⟨voter, _, ballot, ballot'⟩ :=
    (elections.office term first led).meet (elections.office term second led')
  exact elections.unique voter term first second ballot ballot'

end

end History

end ReplicatedLog
