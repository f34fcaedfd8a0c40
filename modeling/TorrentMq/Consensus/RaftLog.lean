import TorrentMq.Consensus.RaftTypes

/-! The replicated-log interface, the log that its comments describe, and the
sense in which an implementation follows them. -/

set_option autoImplicit false

namespace TorrentMq.Consensus

/-- Operations of the abstract log class. A reader returns the entries it
would store in the caller's vector; their number is the returned count. -/
class RaftLog (L : Type) where
  firstIndex : L → Int
  lastIndex : L → Int
  entryCount : L → Nat
  termAt : L → Int → Int
  getEntries : L → Int → Int → List LogEntry
  entryAt : L → Int → Option LogEntry
  append : L → Int → Int → List LogEntry → L × Int
  truncateSuffix : L → Int → L
  truncatePrefix : L → Int → L
  applySnapshot : L → RaftSnapshot → L

/-- The entries carry consecutive indices, the first one directly above `base`. -/
def Numbered (base : Int) (entries : List LogEntry) : Prop :=
  ∀ (position : Nat) (entry : LogEntry), entries[position]? = some entry →
    entry.index = base + 1 + position

/-- A log as the interface comments describe it: a snapshot that stands for
the prefix up to `snapshotIndex`, and the entries directly above it. -/
structure LogView where
  snapshotIndex : Int := 0
  snapshotTerm : Int := kNoTerm
  entries : List LogEntry := []
  snapshotIndex_nonneg : 0 ≤ snapshotIndex := by decide
  snapshotTerm_unset : snapshotIndex = 0 → snapshotTerm = kNoTerm := by decide
  numbered : Numbered snapshotIndex entries
  deriving DecidableEq

theorem Numbered.nil (base : Int) : Numbered base [] := by
  intro position entry found
  simp at found

variable {base : Int}

theorem Numbered.cons_iff {entry : LogEntry} {entries : List LogEntry} :
    Numbered base (entry :: entries) ↔ entry.index = base + 1 ∧ Numbered (base + 1) entries := by
  constructor
  · intro numbered
    refine ⟨by simpa using numbered 0 entry rfl, ?_⟩
    intro position next found
    have shifted := numbered (position + 1) next (by simpa using found)
    push_cast at shifted
    omega
  · rintro ⟨head, tail⟩ position next found
    cases position with
    | zero =>
      cases found
      simpa using head
    | succ position =>
      have shifted := tail position next (by simpa using found)
      push_cast
      omega

instance Numbered.decide (base : Int) :
    (entries : List LogEntry) → Decidable (Numbered base entries)
  | [] => .isTrue (.nil base)
  | entry :: entries =>
    have := Numbered.decide (base + 1) entries
    decidable_of_iff _ (@Numbered.cons_iff base entry entries).symm

section

variable {entries : List LogEntry} (numbered : Numbered base entries)

include numbered

theorem Numbered.take (count : Nat) : Numbered base (entries.take count) := by
  intro position entry found
  rw [List.getElem?_take] at found
  split at found
  · exact numbered position entry found
  · cases found

theorem Numbered.drop (count : Nat) :
    Numbered (base + count) (entries.drop count) := by
  intro position entry found
  rw [List.getElem?_drop] at found
  have shifted := numbered _ entry found
  push_cast at shifted
  omega

theorem Numbered.append {added : List LogEntry} (next : Numbered (base + entries.length) added) :
    Numbered base (entries ++ added) := by
  intro position entry found
  rw [List.getElem?_append] at found
  split at found
  · exact numbered position entry found
  next beyond =>
    have shifted := next _ entry found
    omega

end

namespace LogView

def empty : LogView where
  numbered := .nil 0

def ofEntries (entries : List LogEntry) : LogView :=
  if numbered : Numbered 0 entries then { entries, numbered } else .empty

def firstIndex (view : LogView) : Int := view.snapshotIndex + 1

def lastIndex (view : LogView) : Int := view.snapshotIndex + view.entries.length

def position (view : LogView) (index : Int) : Nat := (index - view.snapshotIndex).toNat

def entryAt (view : LogView) (index : Int) : Option LogEntry :=
  if index ≤ view.snapshotIndex then none else view.entries[view.position index - 1]?

def termAt (view : LogView) (index : Int) : Int :=
  if index = view.snapshotIndex then view.snapshotTerm
  else ((view.entryAt index).map (·.term)).getD kNoTerm

def getEntries (view : LogView) (start stop : Int) : List LogEntry :=
  if start > stop ∨ start < view.firstIndex ∨ stop > view.lastIndex then []
  else (view.entries.take (view.position stop)).drop (view.position start - 1)

/-- Index and term name a position from which the log can be extended. -/
def Matches (view : LogView) (prevLogIndex : Int) (prevLogTerm : Int) : Prop :=
  view.snapshotIndex ≤ prevLogIndex ∧ prevLogIndex ≤ view.lastIndex ∧
    (prevLogIndex = 0 ∨ view.termAt prevLogIndex = prevLogTerm)

instance (view : LogView) (prevLogIndex : Int) (prevLogTerm : Int) :
    Decidable (view.Matches prevLogIndex prevLogTerm) :=
  inferInstanceAs (Decidable (_ ∧ _ ∧ (_ ∨ _)))

theorem position_le (view : LogView) {index : Int} (below : index ≤ view.lastIndex) :
    view.position index ≤ view.entries.length := by
  simp only [position, lastIndex] at *
  omega

theorem length_take_position (view : LogView) {index : Int} (below : index ≤ view.lastIndex) :
    (view.entries.take (view.position index)).length = (index - view.snapshotIndex).toNat :=
  List.length_take_of_le (view.position_le below)

theorem numbered_extend (view : LogView) {index : Int} {added : List LogEntry} (lower : view.snapshotIndex ≤ index)
    (upper : index ≤ view.lastIndex) (next : Numbered index added) :
    Numbered view.snapshotIndex (view.entries.take (view.position index) ++ added) := by
  apply (view.numbered.take _).append
  have base : view.snapshotIndex + ((index - view.snapshotIndex).toNat : Int) = index := by omega
  rwa [view.length_take_position upper, base]

def append (view : LogView) (prevLogIndex : Int) (prevLogTerm : Int)
    (added : List LogEntry) : LogView × Int :=
  if added.isEmpty then (view, view.lastIndex)
  else if valid : view.Matches prevLogIndex prevLogTerm ∧ Numbered prevLogIndex added then
    ({ view with
        entries := view.entries.take (view.position prevLogIndex) ++ added
        numbered := view.numbered_extend valid.1.1 valid.1.2.1 valid.2 },
      prevLogIndex + 1)
  else (view, kNoLogIndex)

def truncateSuffix (view : LogView) (lastKept : Int) : LogView :=
  { view with
    entries := view.entries.take (view.position lastKept)
    numbered := view.numbered.take _ }

def truncatePrefix (view : LogView) (firstKept : Int) : LogView :=
  if above : view.snapshotIndex + 1 < firstKept then
    { snapshotIndex := firstKept - 1
      snapshotTerm := view.termAt (firstKept - 1)
      entries := view.entries.drop (view.position (firstKept - 1))
      snapshotIndex_nonneg := by
        have := view.snapshotIndex_nonneg
        omega
      snapshotTerm_unset := by
        have := view.snapshotIndex_nonneg
        omega
      numbered := by
        have base : view.snapshotIndex + (view.position (firstKept - 1) : Int) = firstKept - 1 := by
          simp only [position]
          omega
        simpa only [base] using view.numbered.drop (view.position (firstKept - 1)) }
  else view

/-- Discards the entries up to the snapshot's last included index. A snapshot
that is not valid, or older than the one in place, changes nothing. -/
def applySnapshot (view : LogView) (snapshot : RaftSnapshot) : LogView :=
  if newer : snapshot.isValid = true ∧ view.snapshotIndex ≤ snapshot.lastIncludedIndex then
    have positive : 0 < snapshot.lastIncludedIndex := by
      have valid := newer.1
      simp only [RaftSnapshot.isValid, Bool.and_eq_true, decide_eq_true_eq] at valid
      exact valid.2
    { snapshotIndex := snapshot.lastIncludedIndex
      snapshotTerm := snapshot.lastIncludedTerm
      entries := view.entries.drop (view.position snapshot.lastIncludedIndex)
      snapshotIndex_nonneg := by omega
      snapshotTerm_unset := by omega
      numbered := by
        have base : view.snapshotIndex + (view.position snapshot.lastIncludedIndex : Int) =
            snapshot.lastIncludedIndex := by
          simp only [position]
          omega
        simpa only [base] using view.numbered.drop (view.position snapshot.lastIncludedIndex) }
  else view

end LogView

instance : RaftLog LogView where
  firstIndex := LogView.firstIndex
  lastIndex := LogView.lastIndex
  entryCount view := view.entries.length
  termAt := LogView.termAt
  getEntries := LogView.getEntries
  entryAt := LogView.entryAt
  append := LogView.append
  truncateSuffix := LogView.truncateSuffix
  truncatePrefix := LogView.truncatePrefix
  applySnapshot := LogView.applySnapshot

/-- An implementation that obeys the interface comments: its state denotes a
log view, and every operation acts on it as described. Reads are constrained
inside the log, an append at the end of the log; a failed validation leaves the
log alone, and a snapshot discards the entries it covers and no others. -/
class LawfulRaftLog (L : Type) [RaftLog L] where
  view : L → LogView
  firstIndex_eq : ∀ log : L, RaftLog.firstIndex log = (view log).firstIndex
  lastIndex_eq : ∀ log : L, RaftLog.lastIndex log = (view log).lastIndex
  entryCount_eq : ∀ log : L, RaftLog.entryCount log = (view log).entries.length
  termAt_eq : ∀ (log : L) (index : Int), RaftLog.termAt log index = (view log).termAt index
  entryAt_eq : ∀ (log : L) (index : Int), RaftLog.entryAt log index = (view log).entryAt index
  getEntries_eq : ∀ (log : L) (start stop : Int),
    (view log).firstIndex ≤ start → start ≤ stop + 1 → stop ≤ (view log).lastIndex →
    RaftLog.getEntries log start stop = (view log).getEntries start stop
  append_eq : ∀ (log : L) (prevLogIndex : Int) (prevLogTerm : Int) (added : List LogEntry),
    added ≠ [] → Numbered prevLogIndex added →
    ((view log).Matches prevLogIndex prevLogTerm → prevLogIndex = (view log).lastIndex) →
    view (RaftLog.append log prevLogIndex prevLogTerm added).1 =
        ((view log).append prevLogIndex prevLogTerm added).1 ∧
      (RaftLog.append log prevLogIndex prevLogTerm added).2 =
        ((view log).append prevLogIndex prevLogTerm added).2
  truncateSuffix_eq : ∀ (log : L) (lastKept : Int), lastKept ≤ (view log).lastIndex →
    view (RaftLog.truncateSuffix log lastKept) = (view log).truncateSuffix lastKept
  truncatePrefix_eq : ∀ (log : L) (firstKept : Int), firstKept ≤ (view log).lastIndex + 1 →
    (view (RaftLog.truncatePrefix log firstKept)).snapshotIndex =
        ((view log).truncatePrefix firstKept).snapshotIndex ∧
      (view (RaftLog.truncatePrefix log firstKept)).entries =
        ((view log).truncatePrefix firstKept).entries
  applySnapshot_eq : ∀ (log : L) (snapshot : RaftSnapshot),
    (view (RaftLog.applySnapshot log snapshot)).snapshotIndex =
        ((view log).applySnapshot snapshot).snapshotIndex ∧
      (view (RaftLog.applySnapshot log snapshot)).entries =
        ((view log).applySnapshot snapshot).entries
  applySnapshot_term : ∀ (log : L) (snapshot : RaftSnapshot), snapshot.isValid = true →
    (view log).snapshotIndex ≤ snapshot.lastIncludedIndex →
    (view (RaftLog.applySnapshot log snapshot)).snapshotTerm = snapshot.lastIncludedTerm

instance : LawfulRaftLog LogView where
  view := id
  firstIndex_eq _ := rfl
  lastIndex_eq _ := rfl
  entryCount_eq _ := rfl
  termAt_eq _ _ := rfl
  entryAt_eq _ _ := rfl
  getEntries_eq _ _ _ _ _ _ := rfl
  append_eq _ _ _ _ _ _ _ := ⟨rfl, rfl⟩
  truncateSuffix_eq _ _ _ := rfl
  truncatePrefix_eq _ _ _ := ⟨rfl, rfl⟩
  applySnapshot_eq _ _ := ⟨rfl, rfl⟩
  applySnapshot_term view snapshot valid newer := by
    change (LogView.applySnapshot view snapshot).snapshotTerm = _
    rw [LogView.applySnapshot, dif_pos ⟨valid, newer⟩]

end TorrentMq.Consensus
