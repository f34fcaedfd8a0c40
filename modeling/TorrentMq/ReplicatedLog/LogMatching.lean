import TorrentMq.ReplicatedLog.Election

/-!
# Log matching

A leader extends its log with entries of its own term, and every other node
takes over prefixes of the log of its term's leader. Then an entry determines,
by its term and position, everything before it.
-/

set_option autoImplicit false

namespace ReplicatedLog

open List

variable {Node Term Entry : Type}

variable {entry : Entry}

theorem prefix_concat_append {front left right : List Entry}
    (inside : front ++ [entry] <+: left ++ right) : front ++ [entry] <+: left ∨ entry ∈ right := by
  rcases Nat.lt_or_ge front.length left.length with short | long
  · refine .inl (prefix_of_prefix_length_le inside (prefix_append left right) ?_)
    rw [length_append, length_singleton]
    exact short
  · obtain ⟨rest, split⟩ := inside
    obtain ⟨added, shape⟩ : left <+: front :=
      prefix_of_prefix_length_le ⟨right, rfl⟩ ⟨entry :: rest, by simpa using split⟩ long
    rw [← shape, append_assoc, append_assoc] at split
    have tail := append_cancel_left split
    exact .inr (tail ▸ by simp)

section

variable {log : List Entry} {position : Nat} (found : log[position]? = some entry)

include found

theorem take_succ_eq_concat : log.take (position + 1) = log.take position ++ [entry] := by
  rw [take_add_one, found, Option.toList_some]

theorem length_take_of_getElem? : (log.take (position + 1)).length = position + 1 := by
  obtain ⟨inside, _⟩ := List.getElem?_eq_some_iff.mp found
  exact length_take_of_le inside

end

namespace History

/-- Every entry of the log stands in the log of the leader of its term, behind
the same entries. -/
def Canonical (termOf : Entry → Term) (history : History Node Term Entry) (log : List Entry) : Prop :=
  ∀ front entry, front ++ [entry] <+: log →
    history.Led (termOf entry) ∧ front ++ [entry] <+: history.leaderLog (termOf entry)

/-- What a node may do to its log: keep it, extend it in office, take office
with a first entry, or take over a prefix of the log of its term's leader. -/
inductive LogMove (termOf : Entry → Term) (history : History Node Term Entry) (node : Node)
    (next : View Node Term Entry) : Prop
  | kept (log : next.log = (history.view node).log) (leads : next.leads → (history.view node).leads)
  | extended (held : (history.view node).leads) (leads : next.leads)
      (term : next.term = (history.view node).term) (own : List Entry) (log : next.log = (history.view node).log ++ own)
      (current : ∀ entry ∈ own, termOf entry = next.term)
  | elected (follows : ¬(history.view node).leads) (leads : next.leads)
      (term : next.term = (history.view node).term) (fresh : ¬history.led next.term node)
      (own : List Entry) (nonempty : own ≠ [])
      (log : next.log = (history.view node).log ++ own)
      (current : ∀ entry ∈ own, termOf entry = next.term)
  | overwritten (follows : ¬next.leads) (led : history.Led next.term)
      (inside : next.log <+: history.leaderLog next.term)

structure Matching [LinearOrder Term] (termOf : Entry → Term) (history : History Node Term Entry) :
    Prop where
  current : ∀ node, (history.view node).leads →
    (history.view node).log = history.leaderLog (history.view node).term
  own : ∀ term, history.Led term → ∃ own, history.leaderLog term = history.electionLog term ++ own ∧
    own ≠ [] ∧ ∀ entry ∈ own, termOf entry = term
  earlier : ∀ term, history.Led term → ∀ entry ∈ history.electionLog term, termOf entry < term
  views : ∀ node, Canonical termOf history (history.view node).log
  bounded : ∀ node, ∀ entry ∈ (history.view node).log, termOf entry ≤ (history.view node).term
  leaders : ∀ term, history.Led term → Canonical termOf history (history.leaderLog term)

/-- A later history, in which logs of leaders may have grown. -/
structure Extends (before after : History Node Term Entry) : Prop where
  ballot : ∀ {voter term candidate}, before.ballot voter term candidate →
    after.ballot voter term candidate
  backed : ∀ {voter term candidate log}, before.backed voter term candidate log →
    after.backed voter term candidate log
  led : ∀ {term leader}, before.led term leader → after.led term leader
  seen : ∀ {node term log}, before.seen node term log → after.seen node term log
  electionLog : ∀ {term}, before.Led term → after.electionLog term = before.electionLog term
  leaderLog : ∀ {term}, before.Led term → before.leaderLog term <+: after.leaderLog term

theorem Extends.refl (history : History Node Term Entry) : Extends history history where
  ballot := id
  backed := id
  led := id
  seen := id
  electionLog _ := rfl
  leaderLog _ := prefix_refl _

theorem Extends.Led {before after : History Node Term Entry} (grown : Extends before after)
    {term : Term} (led : before.Led term) : after.Led term := by
  obtain ⟨leader, held⟩ := led
  exact ⟨leader, grown.led held⟩

variable {termOf : Entry → Term} {history : History Node Term Entry}

namespace Canonical

theorem nil : Canonical termOf history [] := by
  intro front entry inside
  simp at inside

variable {log : List Entry}

section

variable (canonical : Canonical termOf history log)

include canonical

theorem of_isPrefix {shorter : List Entry}
    (inside : shorter <+: log) : Canonical termOf history shorter :=
  fun front entry inner => canonical front entry (inner.trans inside)

theorem mono {after : History Node Term Entry} (grown : Extends history after) :
    Canonical termOf after log := by
  intro front entry inside
  obtain ⟨led, stored⟩ := canonical front entry inside
  exact ⟨grown.Led led, stored.trans (grown.leaderLog led)⟩

theorem take_stored {position : Nat}
    {entry : Entry} (found : log[position]? = some entry) :
    history.Led (termOf entry) ∧ log.take (position + 1) <+: history.leaderLog (termOf entry) := by
  have inside : log.take position ++ [entry] <+: log := by
    rw [← take_succ_eq_concat found]
    exact take_prefix _ _
  rw [take_succ_eq_concat found]
  exact canonical _ entry inside

end

theorem take_eq {left right : List Entry} (first : Canonical termOf history left)
    (second : Canonical termOf history right) {position : Nat} {entry other : Entry}
    (found : left[position]? = some entry) (found' : right[position]? = some other)
    (sameTerm : termOf entry = termOf other) :
    left.take (position + 1) = right.take (position + 1) := by
  obtain ⟨_, stored⟩ := first.take_stored found
  obtain ⟨_, stored'⟩ := second.take_stored found'
  rw [sameTerm] at stored
  have lengths : (left.take (position + 1)).length = (right.take (position + 1)).length :=
    (length_take_of_getElem? found).trans (length_take_of_getElem? found').symm
  exact (prefix_of_prefix_length_le stored stored' lengths.le).eq_of_length lengths

end Canonical

section Observe

variable [DecidableEq Node] [LinearOrder Term] {members : Finset Node} {node : Node}
  {next : View Node Term Entry}

theorem observe_leaderLog_of_leads (leads : next.leads) :
    (history.observe node next).leaderLog next.term = next.log := by
  simp only [observe, if_pos leads, Function.update_self]

variable {term : Term}

theorem observe_leaderLog_of_ne (differs : next.leads → term ≠ next.term) :
    (history.observe node next).leaderLog term = history.leaderLog term := by
  unfold observe
  dsimp only
  split
  next leads => rw [Function.update_of_ne (differs leads)]
  · rfl

theorem observe_electionLog_of_elected (leads : next.leads) (follows : ¬(history.view node).leads) :
    (history.observe node next).electionLog next.term = (history.view node).log := by
  have elected : next.leads ∧ ¬(history.view node).leads := ⟨leads, follows⟩
  simp only [observe, if_pos elected, Function.update_self]

theorem observe_electionLog_of_ne
    (differs : next.leads → ¬(history.view node).leads → term ≠ next.term) :
    (history.observe node next).electionLog term = history.electionLog term := by
  unfold observe
  dsimp only
  split
  next elected => rw [Function.update_of_ne (differs elected.1 elected.2)]
  · rfl

theorem observe_leaderLog_cases (led : (history.observe node next).Led term) :
    next.leads ∧ term = next.term ∧ (history.observe node next).leaderLog term = next.log ∨
      history.Led term ∧ (history.observe node next).leaderLog term = history.leaderLog term := by
  by_cases changed : next.leads ∧ term = next.term
  · obtain ⟨leads, rfl⟩ := changed
    exact .inl ⟨leads, rfl, observe_leaderLog_of_leads leads⟩
  · refine .inr ⟨?_, observe_leaderLog_of_ne (fun leads same => changed ⟨leads, same⟩)⟩
    obtain ⟨leader, old | ⟨_, same, leads⟩⟩ := led
    · exact ⟨leader, old⟩
    · exact absurd ⟨leads, same⟩ changed

section

variable (move : LogMove termOf history node next) (elections : Elections members history)
  (legal : VotesLegally members history node next)
include move elections legal

theorem LogMove.office (leads : next.leads) :
    (history.view node).leads ∧ next.term = (history.view node).term ∧ (∃ own,
        next.log = (history.view node).log ++ own ∧ ∀ entry ∈ own, termOf entry = next.term) ∨
      ¬(history.view node).leads ∧ ¬history.Led next.term ∧
        next.term = (history.view node).term ∧ ∃ own, next.log = (history.view node).log ++ own ∧
        own ≠ [] ∧ ∀ entry ∈ own, termOf entry = next.term := by
  cases move with
  | kept log held =>
    exact .inl ⟨held leads, (legal.office leads).1, [], by simp [log], by simp⟩
  | extended held _ term own log current => exact .inl ⟨held, term, own, log, current⟩
  | elected follows _ term fresh own nonempty log current =>
    refine .inr ⟨follows, ?_, term, own, log, nonempty, current⟩
    rintro ⟨leader, led⟩
    have sole : leader = node :=
      (elections.observe legal).leader_unique (.inl led) (.inr ⟨rfl, rfl, leads⟩)
    exact fresh (sole ▸ led)
  | overwritten follows => exact absurd leads follows

theorem observe_extends (matching : Matching termOf history) : Extends history (history.observe node next) where
  ballot := .inl
  backed := .inl
  led := .inl
  seen := .inl
  electionLog := by
    intro term led
    refine observe_electionLog_of_ne ?_
    rintro leads follows rfl
    rcases move.office elections legal leads with ⟨held, _⟩ | ⟨_, fresh, _⟩
    · exact follows held
    · exact fresh led
  leaderLog := by
    intro term led
    by_cases changed : next.leads ∧ term = next.term
    · obtain ⟨leads, rfl⟩ := changed
      rw [observe_leaderLog_of_leads leads]
      rcases move.office elections legal leads with ⟨held, same, own, log, _⟩ | ⟨_, fresh, _⟩
      · rw [log, matching.current node held, same]
        exact prefix_append _ _
      · exact absurd led fresh
    · rw [observe_leaderLog_of_ne (fun leads same => changed ⟨leads, same⟩)]

end

variable {entry : Entry}

omit [DecidableEq Node] in
theorem Matching.le_term (matching : Matching termOf history) (led : history.Led term)
    (member : entry ∈ history.leaderLog term) : termOf entry ≤ term := by
  obtain ⟨own, log, _, current⟩ := matching.own term led
  rw [log] at member
  rcases mem_append.mp member with old | new
  · exact (matching.earlier term led entry old).le
  · exact (current entry new).le

omit [DecidableEq Node] in
theorem Matching.last_term (matching : Matching termOf history) (led : history.Led term)
    (last : (history.leaderLog term).getLast? = some entry) : termOf entry = term := by
  obtain ⟨own, log, nonempty, current⟩ := matching.own term led
  rw [log, getLast?_append_of_ne_nil _ nonempty] at last
  exact current entry (mem_of_getLast? last)

omit [DecidableEq Node] in
theorem Canonical.term_le {log front : List Entry} {other : Entry}
    (canonical : Canonical termOf history log) (matching : Matching termOf history)
    (inside : front ++ [entry] <+: log) (member : other ∈ front) : termOf other ≤ termOf entry := by
  obtain ⟨led, stored⟩ := canonical front entry inside
  exact matching.le_term led (stored.subset (mem_append_left _ member))

omit [DecidableEq Node] [LinearOrder Term] in
theorem Canonical.append {log own : List Entry}
    (canonical : Canonical termOf history log) (led : history.Led term)
    (current : ∀ entry ∈ own, termOf entry = term) (stored : log ++ own <+: history.leaderLog term) :
    Canonical termOf history (log ++ own) := by
  intro front entry inside
  rcases prefix_concat_append inside with old | new
  · exact canonical front entry old
  · rw [current entry new]
    exact ⟨led, inside.trans stored⟩

theorem Matching.observe (matching : Matching termOf history) (elections : Elections members history)
    (legal : VotesLegally members history node next) (move : LogMove termOf history node next) :
    Matching termOf (history.observe node next) := by
  have grown := observe_extends move elections legal matching
  have elections' := elections.observe legal
  have ledNow : next.leads → (history.observe node next).Led next.term :=
    fun leads => ⟨node, .inr ⟨rfl, rfl, leads⟩⟩
  have earlier : ¬history.Led next.term → next.term = (history.view node).term →
      ∀ entry ∈ (history.view node).log, termOf entry < next.term := by
    intro fresh same entry member
    refine lt_of_le_of_ne (same ▸ matching.bounded node entry member) ?_
    intro sameTerm
    obtain ⟨position, found⟩ := getElem?_of_mem member
    exact fresh (sameTerm ▸ ((matching.views node).take_stored found).1)
  have view : Canonical termOf (history.observe node next) next.log := by
    have base : Canonical termOf (history.observe node next) (history.view node).log :=
      (matching.views node).mono grown
    have extended : next.leads → ∀ own, next.log = (history.view node).log ++ own →
        (∀ entry ∈ own, termOf entry = next.term) →
        Canonical termOf (history.observe node next) next.log := by
      intro leads own log current
      rw [log]
      refine base.append (ledNow leads) current ?_
      rw [observe_leaderLog_of_leads leads, log]
    by_cases leads : next.leads
    · rcases move.office elections legal leads with ⟨_, _, own, log, current⟩ | ⟨_, _, _, own, log, _, current⟩
      · exact extended leads own log current
      · exact extended leads own log current
    · cases move with
      | kept log => rwa [log]
      | extended _ held | elected _ held => exact absurd held leads
      | overwritten _ led inside =>
        exact ((matching.leaders next.term led).of_isPrefix inside).mono grown
  refine ⟨?_, ?_, ?_, ?_, ?_, ?_⟩
  · intro other leads
    by_cases same : other = node
    · subst same
      rw [observe_view_self] at leads ⊢
      exact (observe_leaderLog_of_leads leads).symm
    · rw [observe_view_of_ne _ _ _ same] at leads ⊢
      rw [observe_leaderLog_of_ne, matching.current other leads]
      intro led sameTerm
      have held := grown.led (elections.leads other leads)
      exact same (elections'.leader_unique held (.inr ⟨rfl, sameTerm, led⟩))
  · intro term led
    rcases observe_leaderLog_cases led with ⟨leads, rfl, shown⟩ | ⟨before, same⟩
    · rw [shown]
      rcases move.office elections legal leads with ⟨held, sameTerm, own, log, current⟩ |
        ⟨follows, _, _, own, log, nonempty, current⟩
      · have before : history.Led next.term := ⟨node, sameTerm ▸ elections.leads node held⟩
        obtain ⟨first, stored, nonempty, firstCurrent⟩ := matching.own next.term before
        refine ⟨first ++ own, ?_, by simp [nonempty], ?_⟩
        · rw [grown.electionLog before, log, matching.current node held, ← sameTerm, stored, append_assoc]
        · intro entry member
          rcases mem_append.mp member with old | new
          · exact firstCurrent entry old
          · exact current entry new
      · rw [observe_electionLog_of_elected leads follows]
        exact ⟨own, log, nonempty, current⟩
    · rw [same, grown.electionLog before]
      exact matching.own term before
  · intro term led entry member
    by_cases before : history.Led term
    · rw [grown.electionLog before] at member
      exact matching.earlier term before entry member
    · obtain ⟨leader, old | ⟨_, rfl, leads⟩⟩ := led
      · exact absurd ⟨leader, old⟩ before
      · rcases move.office elections legal leads with ⟨held, sameTerm, _⟩ | ⟨follows, _, sameTerm, _⟩
        · exact absurd ⟨node, sameTerm ▸ elections.leads node held⟩ before
        · rw [observe_electionLog_of_elected leads follows] at member
          exact earlier before sameTerm entry member
  · refine forall_observe_view history node next
      (fun _ view => Canonical termOf (history.observe node next) view.log) view ?_
    intro other _
    exact (matching.views other).mono grown
  · refine forall_observe_view history node next
      (fun _ view => ∀ entry ∈ view.log, termOf entry ≤ view.term) ?_ (fun other _ =>
        matching.bounded other)
    intro entry member
    have old : entry ∈ (history.view node).log → termOf entry ≤ next.term :=
      fun member => (matching.bounded node entry member).trans legal.term
    have split : ∀ own, next.log = (history.view node).log ++ own →
        (∀ entry ∈ own, termOf entry = next.term) → termOf entry ≤ next.term := by
      intro own log current
      rw [log] at member
      rcases mem_append.mp member with kept | new
      · exact old kept
      · exact (current entry new).le
    cases move with
    | kept log => exact old (log ▸ member)
    | extended _ _ _ own log current | elected _ _ _ _ own _ log current => exact split own log current
    | overwritten _ led inside => exact matching.le_term led (inside.subset member)
  · intro term led
    rcases observe_leaderLog_cases led with ⟨_, _, shown⟩ | ⟨before, same⟩
    · rwa [shown]
    · rw [same]
      exact (matching.leaders term before).mono grown

omit [DecidableEq Node] in
theorem Matching.initial {view : Node → View Node Term Entry} (empty : ∀ node, (view node).log = [])
    (idle : ∀ node, ¬(view node).leads) : Matching termOf (History.initial view) where
  current node leads := (idle node leads).elim
  own _ led := led.choose_spec.elim
  earlier _ led := led.choose_spec.elim
  views node := by
    rw [show ((History.initial view).view node).log = [] from empty node]
    exact .nil
  bounded node entry member := by
    rw [show ((History.initial view).view node).log = [] from empty node] at member
    cases member
  leaders _ led := led.choose_spec.elim

end Observe

end History

end ReplicatedLog
