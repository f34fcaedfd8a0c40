import TorrentMq.Storage.LogManagerCompaction

/-!
# Appends that the storage refuses

The appends of a log manager over segments that may refuse a write, or a
rollover, at any point of a call.
-/

set_option autoImplicit false

namespace TorrentMq.Storage

inductive StorageError where
  | log (error : LogError)
  | writeFailed
  | sealFailed
  | successorNotCreated (offset : Int)
deriving DecidableEq

inductive RollRefusal where
  | «seal»
  | create
deriving DecidableEq

/-- What is refused at the points of a call: the first rollover is that before the first batch, and the
others go by the number of the batch. -/
structure Refusals where
  roll : Nat → Option RollRefusal := fun _ => none
  write : Nat → Bool := fun _ => false

namespace LogManager

def rollActiveSegmentUnder (refused : Option RollRefusal) (manager : LogManager) (now : Int64) :
    LogManager × Except StorageError Unit :=
  match manager.activeSegment with
  | none => (manager, .error (.log .noActiveSegment))
  | some oldActive =>
    match refused with
    | some .seal => (manager, .error .sealFailed)
    | some .create => (manager.setActive oldActive.seal, .error (.successorNotCreated oldActive.nextOffset))
    | none =>
      let segments := (manager.setActive oldActive.seal).segments ++
        [createSegment oldActive.nextOffset manager.nextSegmentId now]
      ({ manager with
          segments
          activeIndex := segments.length - 1
          nextSegmentId := manager.nextSegmentId + 1 },
        .ok ())

def rollIfDueUnder (refused : Option RollRefusal) (manager : LogManager) (now : Int64) :
    LogManager × Except StorageError Unit :=
  match manager.activeSegment with
  | none => (manager, .error (.log .noActiveSegment))
  | some active =>
    if manager.shouldRoll active now then manager.rollActiveSegmentUnder refused now else (manager, .ok ())

def writeUnder (refused : Bool) (segment : IdealSegment) (batch : RecordBatch) :
    Except StorageError (IdealSegment × Segment.SegmentAppendResult) :=
  if refused then .error .writeFailed else (segment.append batch).mapError fun error => .log (.segment error)

def appendTo (refused : Bool) (rolled : LogManager) (active : IdealSegment) (batch : RecordBatch)
    (expectedBaseOffset : Int) : LogManager × Except StorageError Int :=
  match writeUnder refused active batch with
  | .error error => (rolled, .error error)
  | .ok (segment, result) =>
    (rolled.setActive segment,
      if expectedBaseOffset ≠ kInvalidOffset ∧ result.baseOffset ≠ expectedBaseOffset then
        .error (.log (.unexpectedOffset expectedBaseOffset result.baseOffset))
      else .ok result.baseOffset)

def appendUnder (refusals : Refusals) (manager : LogManager) (batch : RecordBatch) (expectedBaseOffset : Int)
    (now : Int64) : LogManager × Except StorageError Int :=
  if !manager.isOpen then (manager, .error (.log .notOpen))
  else
    match manager.rollIfDueUnder (refusals.roll 0) now with
    | (rolled, .error error) => (rolled, .error error)
    | (rolled, .ok ()) =>
      match rolled.activeSegment with
      | none => (rolled, .error (.log .noActiveSegment))
      | some active => appendTo (refusals.write 0) rolled active batch expectedBaseOffset

def appendEachUnder (refusals : Refusals) (clock : Nat → Int64) (preAppendOffset : Int) :
    Nat → List RecordBatch → LogManager → Int → LogManager × Except StorageError Int
  | _, [], manager, firstBaseOffset => (manager, .ok firstBaseOffset)
  | i, batch :: batches, manager, firstBaseOffset =>
    match manager.rollIfDueUnder (refusals.roll i) (clock i) with
    | (rolled, .error error) => (rolled, .error error)
    | (rolled, .ok ()) =>
      match rolled.activeSegment with
      | none => (rolled, .error (.log .noActiveSegment))
      | some active =>
        match writeUnder (refusals.write i) active batch with
        | .error error => (rolled.rollBack active preAppendOffset, .error error)
        | .ok (segment, result) =>
          appendEachUnder refusals clock preAppendOffset (i + 1) batches (rolled.setActive segment)
            (if firstBaseOffset = kInvalidOffset then result.baseOffset else firstBaseOffset)

def appendBatchUnder (refusals : Refusals) (manager : LogManager) (batches : List RecordBatch)
    (clock : Nat → Int64) : LogManager × Except StorageError Int :=
  if !manager.isOpen then (manager, .error (.log .notOpen))
  else if batches.isEmpty then (manager, .error (.log .emptyBatchList))
  else
    match manager.rollIfDueUnder (refusals.roll 0) (clock 0) with
    | (rolled, .error error) => (rolled, .error error)
    | (rolled, .ok ()) =>
      match rolled.activeSegment with
      | none => (rolled, .error (.log .noActiveSegment))
      | some active => appendEachUnder refusals clock active.nextOffset 1 batches rolled kInvalidOffset

def lift {α : Type} (outcome : LogManager × Except LogError α) : LogManager × Except StorageError α :=
  (outcome.1, outcome.2.mapError .log)

theorem rollIfDueUnder_none (manager : LogManager) (now : Int64) :
    manager.rollIfDueUnder none now =
      match manager.rollIfDue now with
      | .error error => (manager, .error (.log error))
      | .ok rolled => (rolled, .ok ()) := by
  unfold rollIfDueUnder rollIfDue rollActiveSegmentUnder rollActiveSegment
  cases manager.activeSegment with
  | none => rfl
  | some active =>
    dsimp only
    by_cases due : manager.shouldRoll active now = true
    · rw [if_pos due, if_pos due]
    · rw [if_neg due, if_neg due]

theorem appendUnder_default (manager : LogManager) (batch : RecordBatch) (expectedBaseOffset : Int) (now : Int64) :
    manager.appendUnder {} batch expectedBaseOffset now = lift (manager.append batch expectedBaseOffset now) := by
  unfold appendUnder append lift appendTo
  cases manager.isOpen with
  | false => rfl
  | true =>
    simp only [Bool.not_true, Bool.false_eq_true, if_false, rollIfDueUnder_none]
    cases manager.rollIfDue now with
    | error error => rfl
    | ok rolled =>
      dsimp only
      cases rolled.activeSegment with
      | none => rfl
      | some active =>
        dsimp only [writeUnder]
        rw [if_neg Bool.false_ne_true]
        cases active.append batch with
        | error error => rfl
        | ok written =>
          simp only [Except.mapError]
          split <;> rfl

end LogManager

end TorrentMq.Storage
