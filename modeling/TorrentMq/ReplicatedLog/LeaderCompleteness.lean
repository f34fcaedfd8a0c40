import Mathlib.Order.Interval.Finset.Basic
import TorrentMq.ReplicatedLog.LogMatching

/-!
# Leader completeness

A candidate is voted for only by nodes whose logs are not ahead of its own, and
no log is cut back to a strict prefix of itself. Then a prefix that a majority
has stored in the term of its last entry is part of the log of every later
leader, and any two such prefixes are comparable.
-/

set_option autoImplicit false

namespace ReplicatedLog

open List

variable {Node Term Entry : Type}

/-- The candidate's log ends in a later term than the voter's, or in the same
term and at least as far. -/
def UpToDate [LT Term] (termOf : Entry → Term) (candidateLog voterLog : List Entry) : Prop :=
  ∀ voterLast, voterLog.getLast? = some voterLast → ∃ candidateLast,
    candidateLog.getLast? = some candidateLast ∧
      (termOf voterLast < termOf candidateLast ∨
        termOf voterLast = termOf candidateLast ∧ voterLog.length ≤ candidateLog.length)

theorem UpToDate.refl [LT Term] (termOf : Entry → Term) (log : List Entry) : UpToDate termOf log log :=
  fun last found => ⟨last, found, .inr ⟨rfl, le_refl _⟩⟩

def EndsIn (termOf : Entry → Term) (term : Term) (stored : List Entry) : Prop :=
  ∃ front entry, stored = front ++ [entry] ∧ termOf entry = term

namespace History

variable [LinearOrder Term] {termOf : Entry → Term} {history : History Node Term Entry}

/-- A leader of a later term that was elected without the prefix. -/
def Lost (history : History Node Term Entry) (stored : List Entry) (term later : Term) : Prop :=
  term < later ∧ history.Led later ∧ ¬stored <+: history.electionLog later

theorem Lost.mono {after : History Node Term Entry} {stored : List Entry} {term later : Term}
    (lost : history.Lost stored term later) (grown : Extends history after) :
    after.Lost stored term later := by
  obtain ⟨above, led, missing⟩ := lost
  refine ⟨above, grown.Led led, ?_⟩
  rwa [grown.electionLog led]

/-- A new view respects the rules for granting a vote, and is not a log cut short. -/
structure BacksLegally (termOf : Entry → Term) (history : History Node Term Entry) (node : Node)
    (next : View Node Term Entry) : Prop where
  upToDate : ∀ candidate, next.vote = some candidate → ¬history.Led next.term →
    next.term = (history.view node).term ∧ (history.view node).vote = some candidate ∨
      candidate = node ∨
      ∃ log, history.backed candidate next.term candidate log ∧ UpToDate termOf log next.log
  uncut : next.log <+: (history.view node).log → next.log = (history.view node).log

/-- What the rules for votes and logs together keep true of a history. -/
structure Completeness (members : Finset Node) (termOf : Entry → Term)
    (history : History Node Term Entry) : Prop where
  held : ∀ voter candidate, (history.view voter).vote = some candidate →
    ¬history.Led (history.view voter).term →
    history.backed voter (history.view voter).term candidate (history.view voter).log
  frozen : ∀ voter candidate log, history.backed voter (history.view voter).term candidate log →
    ¬history.Led (history.view voter).term → (history.view voter).log = log
  voted : ∀ voter term candidate log, history.backed voter term candidate log →
    history.ballot voter term candidate
  ballots : ∀ voter term candidate, history.ballot voter term candidate →
    history.Led term ∨ ∃ log, history.backed voter term candidate log
  canonical : ∀ voter term candidate log, history.backed voter term candidate log →
    Canonical termOf history log
  upToDate : ∀ voter term candidate log, history.backed voter term candidate log →
    candidate = voter ∨ ∃ candidateLog, history.backed candidate term candidate candidateLog ∧
      UpToDate termOf candidateLog log
  elected : ∀ term leader, history.led term leader → Quorum members fun voter =>
    ∃ log, history.backed voter term leader log ∧ UpToDate termOf (history.electionLog term) log
  shown : ∀ node term log, history.seen node term log → term ≤ (history.view node).term
  present : ∀ node, history.seen node (history.view node).term (history.view node).log
  keeps : ∀ node term log stored, history.seen node term log → stored <+: log →
    EndsIn termOf term stored → stored <+: (history.view node).log ∨
      ∃ later ≤ (history.view node).term, history.Lost stored term later
  backs : ∀ node ballotTerm candidate backing term log stored,
    history.backed node ballotTerm candidate backing → history.seen node term log →
    term < ballotTerm → stored <+: log → EndsIn termOf term stored →
    stored <+: backing ∨ ∃ later < ballotTerm, history.Lost stored term later

theorem Completeness.initial {members : Finset Node} {view : Node → View Node Term Entry}
    (unvoted : ∀ node, (view node).vote = none) :
    Completeness members termOf (History.initial view) where
  held voter candidate vote := by
    rw [show ((History.initial view).view voter).vote = none from unvoted voter] at vote
    cases vote
  frozen _ _ _ := False.elim
  voted _ _ _ _ := False.elim
  ballots _ _ _ := False.elim
  canonical _ _ _ _ := False.elim
  upToDate _ _ _ _ := False.elim
  elected _ _ := False.elim
  shown _ _ _ seen := seen.1.le
  present _ := ⟨rfl, rfl⟩
  keeps _ _ _ _ seen inside _ := .inl (seen.2 ▸ inside)
  backs _ _ _ _ _ _ _ := False.elim

section Observe

variable [DecidableEq Node] {members : Finset Node} {node : Node} {next : View Node Term Entry}

theorem LogMove.log_of_unled (move : LogMove termOf history node next)
    (unled : ¬(history.observe node next).Led next.term) : next.log = (history.view node).log := by
  have follows : ¬next.leads := fun leads => unled ⟨node, .inr ⟨rfl, rfl, leads⟩⟩
  cases move with
  | kept log => exact log
  | extended _ leads | elected _ leads => exact absurd leads follows
  | overwritten _ led =>
    obtain ⟨leader, held⟩ := led
    exact absurd ⟨leader, .inl held⟩ unled

omit [DecidableEq Node] in
theorem LogMove.survives (move : LogMove termOf history node next) (legal : BacksLegally termOf history node next)
    (matching : Matching termOf history) {term : Term} {stored : List Entry} (marked : EndsIn termOf term stored)
    (below : term ≤ next.term) (inside : stored <+: (history.view node).log) :
    stored <+: next.log ∨ history.Lost stored term next.term := by
  cases move with
  | kept log => exact .inl (log ▸ inside)
  | extended _ _ _ own log | elected _ _ _ _ own _ log => exact .inl (log ▸ inside.trans (prefix_append _ own))
  | overwritten _ led taken =>
    have reaches : stored <+: history.leaderLog next.term → stored <+: next.log := by
      intro known
      rcases prefix_or_prefix_of_prefix known taken with fits | short
      · exact fits
      · rw [legal.uncut (short.trans inside)]
        exact inside
    obtain ⟨front, entry, shape, entryTerm⟩ := marked
    rcases lt_or_eq_of_le below with above | rfl
    · by_cases known : stored <+: history.electionLog next.term
      · obtain ⟨own, log, _⟩ := matching.own next.term led
        exact .inl (reaches (known.trans (log ▸ prefix_append _ own)))
      · exact .inr ⟨above, led, known⟩
    · obtain ⟨_, known⟩ := matching.views node front entry (shape ▸ inside)
      exact .inl (reaches (shape ▸ entryTerm ▸ known))

theorem Completeness.observe (complete : Completeness members termOf history) (matching : Matching termOf history)
    (elections : Elections members history) (legal : VotesLegally members history node next)
    (move : LogMove termOf history node next) (backing : BacksLegally termOf history node next) :
    Completeness members termOf (history.observe node next) := by
  have grown := observe_extends move elections legal matching
  have matching' := matching.observe elections legal move
  have unled : ∀ {term}, ¬(history.observe node next).Led term → ¬history.Led term :=
    fun unled led => unled (grown.Led led)
  have quiet : ¬next.leads → ¬history.Led next.term → ¬(history.observe node next).Led next.term := by
    rintro follows fresh ⟨leader, old | ⟨_, _, leads⟩⟩
    · exact fresh ⟨leader, old⟩
    · exact follows leads
  refine ⟨?_, ?_, ?_, ?_, ?_, ?_, ?_, ?_, ?_, ?_, ?_⟩
  · refine forall_observe_view history node next (fun voter view => ∀ candidate,
      view.vote = some candidate → ¬(history.observe node next).Led view.term →
      (history.observe node next).backed voter view.term candidate view.log) ?_ ?_
    · intro candidate vote fresh
      exact .inr ⟨rfl, rfl, vote, rfl, fun leads => fresh ⟨node, .inr ⟨rfl, rfl, leads⟩⟩, unled fresh⟩
    · intro other _ candidate vote fresh
      exact .inl (complete.held other candidate vote (unled fresh))
  · refine forall_observe_view history node next (fun voter view => ∀ candidate log,
      (history.observe node next).backed voter view.term candidate log →
      ¬(history.observe node next).Led view.term → view.log = log) ?_ ?_
    · intro candidate log backed fresh
      rcases backed with old | ⟨_, _, _, same, _⟩
      · have sameTerm : next.term = (history.view node).term :=
          le_antisymm (elections.bounded node _ candidate (complete.voted _ _ _ _ old)) legal.term
        rw [move.log_of_unled fresh]
        rw [sameTerm] at old fresh
        exact complete.frozen node candidate log old (unled fresh)
      · exact same.symm
    · intro other differs candidate log backed fresh
      rcases backed with old | ⟨same, _⟩
      · exact complete.frozen other candidate log old (unled fresh)
      · exact absurd same differs
  · intro voter term candidate log backed
    rcases backed with old | ⟨rfl, rfl, vote, _⟩
    · exact .inl (complete.voted voter term candidate log old)
    · exact .inr ⟨rfl, rfl, vote⟩
  · intro voter term candidate ballot
    by_cases fresh : (history.observe node next).Led term
    · exact .inl fresh
    · rcases ballot with old | ⟨rfl, rfl, vote⟩
      · rcases complete.ballots voter term candidate old with led | ⟨log, backed⟩
        · exact .inl (grown.Led led)
        · exact .inr ⟨log, .inl backed⟩
      · exact .inr ⟨next.log, .inr ⟨rfl, rfl, vote, rfl,
          fun leads => fresh ⟨voter, .inr ⟨rfl, rfl, leads⟩⟩, unled fresh⟩⟩
  · intro voter term candidate log backed
    rcases backed with old | ⟨rfl, rfl, _, rfl, _⟩
    · exact (complete.canonical voter term candidate log old).mono grown
    · have view := matching'.views voter
      rwa [observe_view_self] at view
  · intro voter term candidate log backed
    rcases backed with old | ⟨rfl, rfl, vote, rfl, follows, fresh⟩
    · rcases complete.upToDate voter term candidate log old with self | ⟨candidateLog, backed, ahead⟩
      · exact .inl self
      · exact .inr ⟨candidateLog, .inl backed, ahead⟩
    · rcases backing.upToDate candidate vote fresh with ⟨sameTerm, held⟩ | self | ⟨candidateLog, backed, ahead⟩
      · have old := complete.held voter candidate held (sameTerm ▸ fresh)
        rw [← sameTerm, ← move.log_of_unled (quiet follows fresh)] at old
        rcases complete.upToDate voter next.term candidate next.log old with self | ⟨candidateLog, backed, ahead⟩
        · exact .inl self
        · exact .inr ⟨candidateLog, .inl backed, ahead⟩
      · exact .inl self
      · exact .inr ⟨candidateLog, .inl backed, ahead⟩
  · intro term leader led
    by_cases before : history.Led term
    · have old : history.led term leader := by
        obtain ⟨earlier, held⟩ := before
        rw [(elections.observe legal).leader_unique led (.inl held)]
        exact held
      refine (complete.elected term leader old).mono ?_
      rintro voter ⟨log, backed, ahead⟩
      exact ⟨log, .inl backed, grown.electionLog before ▸ ahead⟩
    · rcases led with old | ⟨rfl, rfl, leads⟩
      · exact absurd ⟨leader, old⟩ before
      · rcases move.office elections legal leads with ⟨held, sameTerm, _⟩ | ⟨follows, _, sameTerm, _⟩
        · exact absurd ⟨leader, sameTerm ▸ elections.leads leader held⟩ before
        · rw [observe_electionLog_of_elected leads follows]
          refine ((legal.office leads).2.resolve_left follows).mono ?_
          intro voter ballot
          obtain ⟨log, backed⟩ := (complete.ballots voter _ leader ballot).resolve_left before
          refine ⟨log, .inl backed, ?_⟩
          rw [sameTerm] at backed before
          rcases complete.upToDate voter _ leader log backed with rfl | ⟨own, standing, ahead⟩
          · rw [complete.frozen leader leader log backed before]
            exact .refl termOf log
          · rw [complete.frozen leader leader own standing before]
            exact ahead
  · intro witness term log seen
    rcases seen with old | ⟨rfl, rfl, _⟩
    · by_cases same : witness = node
      · subst same
        rw [observe_view_self]
        exact (complete.shown witness term log old).trans legal.term
      · rw [observe_view_of_ne _ _ _ same]
        exact complete.shown witness term log old
    · rw [observe_view_self]
  · refine forall_observe_view history node next
      (fun id view => (history.observe node next).seen id view.term view.log) ?_ ?_
    · exact .inr ⟨rfl, rfl, rfl⟩
    · exact fun other _ => .inl (complete.present other)
  · intro witness term log stored seen inside marked
    rcases seen with old | ⟨rfl, rfl, rfl⟩
    · by_cases same : witness = node
      · subst same
        rw [observe_view_self]
        rcases complete.keeps witness term log stored old inside marked with kept | ⟨later, below, lost⟩
        · rcases move.survives backing matching marked
            ((complete.shown witness term log old).trans legal.term) kept with survives | lost
          · exact .inl survives
          · exact .inr ⟨next.term, le_refl _, lost.mono grown⟩
        · exact .inr ⟨later, below.trans legal.term, lost.mono grown⟩
      · rw [observe_view_of_ne _ _ _ same]
        rcases complete.keeps witness term log stored old inside marked with kept | ⟨later, below, lost⟩
        · exact .inl kept
        · exact .inr ⟨later, below, lost.mono grown⟩
    · rw [observe_view_self]
      exact .inl inside
  · intro voter ballotTerm candidate backing term log stored backed seen below inside marked
    rcases backed with old | ⟨rfl, rfl, _, rfl, follows, fresh⟩
    · rcases seen with seen | ⟨rfl, rfl, _⟩
      · rcases complete.backs voter ballotTerm candidate backing term log stored old seen below inside
          marked with kept | ⟨later, before, lost⟩
        · exact .inl kept
        · exact .inr ⟨later, before, lost.mono grown⟩
      · have reached := elections.bounded voter ballotTerm candidate (complete.voted _ _ _ _ old)
        exact absurd (below.trans_le (reached.trans legal.term)) (lt_irrefl _)
    · rcases seen with seen | ⟨_, rfl, _⟩
      · rcases complete.keeps voter term log stored seen inside marked with kept | ⟨later, before, lost⟩
        · rw [move.log_of_unled (quiet follows fresh)]
          exact .inl kept
        · refine .inr ⟨later, lt_of_le_of_ne (before.trans legal.term) ?_, lost.mono grown⟩
          rintro rfl
          exact fresh lost.2.1
      · exact absurd below (lt_irrefl _)

end Observe

section Committed

variable [LocallyFiniteOrder Term] [DecidableEq Node] {members : Finset Node}

/-- A prefix of a leader's log that ends in the leader's term and that a
majority has stored in this term. -/
structure Committed (members : Finset Node) (termOf : Entry → Term)
    (history : History Node Term Entry) (term : Term) (stored : List Entry) : Prop where
  marked : EndsIn termOf term stored
  led : history.Led term
  known : stored <+: history.leaderLog term
  quorum : Quorum members fun node => ∃ log, history.seen node term log ∧ stored <+: log

variable {term : Term} {stored : List Entry}

omit [LinearOrder Term] [LocallyFiniteOrder Term] [DecidableEq Node] in
theorem Committed.mono {after : History Node Term Entry}
    (committed : Committed members termOf history term stored) (grown : Extends history after) :
    Committed members termOf after term stored where
  marked := committed.marked
  led := grown.Led committed.led
  known := committed.known.trans (grown.leaderLog committed.led)
  quorum := by
    refine committed.quorum.mono ?_
    rintro node ⟨log, seen, inside⟩
    exact ⟨log, grown.seen seen, inside⟩

omit [LocallyFiniteOrder Term] [DecidableEq Node] in
theorem Canonical.carries {candidateLog voterLog : List Entry}
    (candidate : Canonical termOf history candidateLog) (matching : Matching termOf history)
    (ahead : UpToDate termOf candidateLog voterLog) (voter : Canonical termOf history voterLog)
    (marked : EndsIn termOf term stored) (inside : stored <+: voterLog)
    (between : ∀ entry ∈ candidateLog, term < termOf entry →
      stored <+: history.electionLog (termOf entry)) : stored <+: candidateLog := by
  obtain ⟨front, entry, rfl, rfl⟩ := marked
  obtain ⟨voterFront, voterLast, rfl⟩ : ∃ voterFront voterLast, voterLog = voterFront ++ [voterLast] := by
    rcases eq_nil_or_concat voterLog with rfl | ⟨voterFront, voterLast, rfl⟩
    · simp at inside
    · exact ⟨voterFront, voterLast, by simp⟩
  obtain ⟨candidateLast, found, further⟩ := ahead voterLast (by simp)
  obtain ⟨candidateFront, rfl⟩ : ∃ candidateFront, candidateLog = candidateFront ++ [candidateLast] := by
    rcases eq_nil_or_concat candidateLog with rfl | ⟨candidateFront, last, rfl⟩
    · cases found
    · simp only [concat_eq_append, getLast?_concat, Option.some.injEq] at found
      exact ⟨candidateFront, by simp [found]⟩
  obtain ⟨led, known⟩ := candidate _ _ (prefix_refl _)
  obtain ⟨_, known'⟩ := voter _ _ (prefix_refl _)
  have reached : termOf entry ≤ termOf voterLast := by
    rcases prefix_concat_append inside with earlier | last
    · exact voter.term_le matching (prefix_refl _) (earlier.subset (by simp))
    · rw [mem_singleton.mp last]
  rcases further with higher | ⟨same, longer⟩
  · have election := between candidateLast (by simp) (reached.trans_lt higher)
    obtain ⟨own, log, _⟩ := matching.own _ led
    refine election.trans (prefix_of_prefix_length_le (log ▸ prefix_append _ own) known ?_)
    by_contra short
    have cut : candidateFront ++ [candidateLast] <+: history.electionLog (termOf candidateLast) :=
      prefix_of_prefix_length_le known (log ▸ prefix_append _ own) (by omega)
    exact absurd (matching.earlier _ led candidateLast (cut.subset (by simp))) (lt_irrefl _)
  · rw [same] at known'
    exact inside.trans (prefix_of_prefix_length_le known' known longer)

theorem Committed.electionLog (complete : Completeness members termOf history)
    (matching : Matching termOf history)
    (committed : Committed members termOf history term stored) {later : Term} (above : term < later)
    (led : history.Led later) : stored <+: history.electionLog later := by
  -- Leaders in between have the prefix by induction on how many terms lie in between.
  induction between : (Finset.Ioo term later).card using Nat.strong_induction_on generalizing later with
  | _ count ih =>
    have earlier : ∀ middle, term < middle → middle < later → history.Led middle →
        stored <+: history.electionLog middle := by
      intro middle lower upper held
      refine ih _ ?_ lower held rfl
      rw [← between]
      refine Finset.card_lt_card ?_
      refine ⟨Finset.Ioo_subset_Ioo_right upper.le, fun reverse => ?_⟩
      exact lt_irrefl _ (Finset.mem_Ioo.mp (reverse (Finset.mem_Ioo.mpr ⟨lower, upper⟩))).2
    obtain ⟨leader, held⟩ := led
    obtain ⟨voter, _, ⟨log, seen, inside⟩, ⟨backing, backed, ahead⟩⟩ :=
      committed.quorum.meet (complete.elected later leader held)
    have stands : stored <+: backing := by
      rcases complete.backs voter later leader backing term log stored backed seen above inside
        committed.marked with kept | ⟨middle, below, lower, held, missing⟩
      · exact kept
      · exact absurd (earlier middle lower below held) missing
    have election : Canonical termOf history (history.electionLog later) := by
      obtain ⟨own, log, _⟩ := matching.own later ⟨leader, held⟩
      exact (matching.leaders later ⟨leader, held⟩).of_isPrefix (log ▸ prefix_append _ own)
    refine election.carries matching ahead (complete.canonical _ _ _ _ backed) committed.marked stands ?_
    intro entry member higher
    obtain ⟨position, found⟩ := getElem?_of_mem member
    exact earlier (termOf entry) higher (matching.earlier later ⟨leader, held⟩ entry member)
      (election.take_stored found).1

/-- A prefix of something committed no later than a term. -/
def Safe (members : Finset Node) (termOf : Entry → Term) (history : History Node Term Entry)
    (bound : Term) (stored : List Entry) : Prop :=
  stored = [] ∨ ∃ term ≤ bound, ∃ committed, Committed members termOf history term committed ∧
    stored <+: committed

namespace Safe

omit [LocallyFiniteOrder Term] [DecidableEq Node] in
theorem mono {after : History Node Term Entry} {bound later : Term} {stored : List Entry}
    (safe : Safe members termOf history bound stored) (grown : Extends history after)
    (below : bound ≤ later) : Safe members termOf after later stored := by
  rcases safe with empty | ⟨term, reached, committed, holds, inside⟩
  · exact .inl empty
  · exact .inr ⟨term, reached.trans below, committed, holds.mono grown, inside⟩

omit [LocallyFiniteOrder Term] [DecidableEq Node] in
theorem of_isPrefix {bound : Term} {stored shorter : List Entry}
    (safe : Safe members termOf history bound stored) (inside : shorter <+: stored) :
    Safe members termOf history bound shorter := by
  rcases safe with rfl | ⟨term, reached, committed, holds, within⟩
  · exact .inl (prefix_nil.mp inside)
  · exact .inr ⟨term, reached, committed, holds, inside.trans within⟩

section

variable (complete : Completeness members termOf history) (matching : Matching termOf history)
include complete matching

variable {stored : List Entry}

theorem leaderLog {bound term : Term} (safe : Safe members termOf history bound stored)
    (below : bound ≤ term) (led : history.Led term) : stored <+: history.leaderLog term := by
  rcases safe with rfl | ⟨origin, reached, committed, holds, inside⟩
  · exact nil_prefix
  · rcases lt_or_eq_of_le (reached.trans below) with above | rfl
    · obtain ⟨own, log, _⟩ := matching.own term led
      exact inside.trans ((holds.electionLog complete matching above led).trans (log ▸ prefix_append _ own))
    · exact inside.trans holds.known

theorem comparable {bound bound' : Term} {stored' : List Entry}
    (safe : Safe members termOf history bound stored)
    (safe' : Safe members termOf history bound' stored') : stored <+: stored' ∨ stored' <+: stored := by
  have ordered : ∀ {bound bound' : Term} {stored stored' : List Entry},
      Safe members termOf history bound stored → ∀ term, bound ≤ term →
      (∃ committed, Committed members termOf history term committed ∧ stored' <+: committed) →
      stored <+: stored' ∨ stored' <+: stored := by
    rintro bound bound' stored stored' safe term below ⟨committed, holds, inside⟩
    exact prefix_or_prefix_of_prefix (safe.leaderLog complete matching below holds.led)
      (inside.trans holds.known)
  rcases safe with rfl | ⟨term, _, committed, holds, inside⟩
  · exact .inl nil_prefix
  · rcases safe' with rfl | ⟨term', _, committed', holds', inside'⟩
    · exact .inr nil_prefix
    · rcases le_total term term' with below | above
      · exact @ordered term term' _ _ (.inr ⟨term, le_refl _, committed, holds, inside⟩) term' below
          ⟨committed', holds', inside'⟩
      · exact (@ordered term' term _ _ (.inr ⟨term', le_refl _, committed', holds', inside'⟩) term above
          ⟨committed, holds, inside⟩).symm

theorem survives {node : Node} {next : View Node Term Entry} (move : LogMove termOf history node next)
    (legal : BacksLegally termOf history node next)
    (safe : Safe members termOf history next.term stored)
    (inside : stored <+: (history.view node).log) : stored <+: next.log := by
  cases move with
  | kept log => exact log ▸ inside
  | extended _ _ _ own log | elected _ _ _ _ own _ log => exact log ▸ inside.trans (prefix_append _ own)
  | overwritten _ led taken =>
    rcases prefix_or_prefix_of_prefix (safe.leaderLog complete matching (le_refl _) led) taken with fits | short
    · exact fits
    · rw [legal.uncut (short.trans inside)]
      exact inside

end

end Safe

end Committed

end History

end ReplicatedLog
