import TorrentMq.Storage.LogManagerRefusals

/-!
# Appends that fail

What a failed append leaves behind: the check of the expected offset comes
after the write, and a rollback reaches no further than the active segment.
-/

set_option autoImplicit false

namespace TorrentMq.Storage

open List Segment LogManager

namespace LogManager

/-- Two logs that end at the same offset and hold the same records. -/
structure SameLog (before after : LogManager) : Prop where
  logEndOffset : after.logEndOffset = before.logEndOffset
  records : after.records = before.records

theorem SameLog.refl (manager : LogManager) : SameLog manager manager := ⟨rfl, rfl⟩

theorem SameLog.trans {first second third : LogManager} (left : SameLog first second)
    (right : SameLog second third) : SameLog first third :=
  ⟨right.logEndOffset.trans left.logEndOffset, right.records.trans left.records⟩

theorem logEndOffset_eq (manager : LogManager) :
    manager.logEndOffset = (manager.segments.map IdealSegment.nextOffset).getLast?.getD manager.logStartOffset := by
  rw [logEndOffset, getLast?_map]
  cases manager.segments.getLast? <;> rfl

theorem records_eq (manager : LogManager) : manager.records = (manager.segments.map IdealSegment.records).flatten :=
  flatMap_def

section Active

variable {manager : LogManager} {active : IdealSegment}

theorem activeSegment_setActive (position : manager.activeSegment = some active) (segment : IdealSegment) :
    (manager.setActive segment).activeSegment = some segment := by
  have inside := (List.getElem?_eq_some_iff.mp position).1
  unfold activeSegment setActive
  exact getElem?_set_self inside

theorem setActive_self (position : manager.activeSegment = some active) : manager.setActive active = manager := by
  have same : manager.segments.set manager.activeIndex active = manager.segments := by
    obtain ⟨inside, rfl⟩ := List.getElem?_eq_some_iff.mp position
    exact set_getElem_self inside
  rw [setActive, same]

theorem setActive_setActive (first second : IdealSegment) :
    (manager.setActive first).setActive second = manager.setActive second := by
  unfold setActive
  rw [List.set_set]

theorem SameLog.setActive {left right : IdealSegment} (records : right.records = left.records)
    (ends : right.nextOffset = left.nextOffset) : SameLog (manager.setActive left) (manager.setActive right) := by
  constructor
  · rw [logEndOffset_eq, logEndOffset_eq]
    unfold LogManager.setActive
    rw [map_set, map_set, ends]
  · rw [records_eq, records_eq]
    unfold LogManager.setActive
    rw [map_set, map_set, records]

theorem SameLog.seal (position : manager.activeSegment = some active) :
    SameLog manager (manager.setActive active.seal) := by
  have same : SameLog (manager.setActive active) (manager.setActive active.seal) := SameLog.setActive rfl rfl
  rwa [setActive_self position] at same

def rolledAt (manager : LogManager) (active : IdealSegment) (now : Int64) : LogManager :=
  { manager with
    segments := (manager.setActive active.seal).segments ++
      [createSegment active.nextOffset manager.nextSegmentId now]
    activeIndex := (manager.setActive active.seal).segments.length
    nextSegmentId := manager.nextSegmentId + 1 }

theorem rollIfDueUnder_of_active (position : manager.activeSegment = some active) (refused : Option RollRefusal)
    (now : Int64) :
    manager.rollIfDueUnder refused now =
      if manager.shouldRoll active now then
        match refused with
        | some .seal => (manager, .error .sealFailed)
        | some .create => (manager.setActive active.seal, .error (.successorNotCreated active.nextOffset))
        | none => (manager.rolledAt active now, .ok ())
      else (manager, .ok ()) := by
  have last : ((manager.setActive active.seal).segments ++
      [createSegment active.nextOffset manager.nextSegmentId now]).length - 1 =
        (manager.setActive active.seal).segments.length := by
    rw [length_append, length_singleton, Nat.add_sub_cancel]
  unfold rollIfDueUnder rollActiveSegmentUnder rolledAt
  cases refused with
  | none => simp only [position, last]
  | some cause =>
    cases cause with
    | «seal» | create => simp only [position]

theorem activeSegment_rolledAt (now : Int64) :
    (manager.rolledAt active now).activeSegment = some (createSegment active.nextOffset manager.nextSegmentId now) :=
  getElem?_concat_length

theorem logEndOffset_rolledAt (now : Int64) : (manager.rolledAt active now).logEndOffset = active.nextOffset := by
  unfold logEndOffset rolledAt
  dsimp only
  rw [getLast?_concat]
  exact Int.add_zero active.nextOffset

theorem records_rolledAt (position : manager.activeSegment = some active) (now : Int64) :
    (manager.rolledAt active now).records = manager.records := by
  have before := (SameLog.seal position).records
  unfold records at before ⊢
  unfold rolledAt
  rw [flatMap_append, before]
  exact append_nil _

theorem SameLog.rolledAt (position : manager.activeSegment = some active)
    (ends : manager.logEndOffset = active.nextOffset) (now : Int64) : SameLog manager (manager.rolledAt active now) :=
  ⟨(logEndOffset_rolledAt now).trans ends.symm, records_rolledAt position now⟩

theorem writeUnder_of_sealed (closed : active.isSealed = true) (refused : Bool) (batch : RecordBatch) :
    ∃ error, writeUnder refused active batch = .error error := by
  unfold writeUnder IdealSegment.append
  rw [closed, if_pos rfl]
  split
  · exact ⟨_, rfl⟩
  · exact ⟨_, rfl⟩

theorem writeUnder_of_unsealed (unsealed : active.isSealed = false) (batch : RecordBatch) :
    ∃ written result, writeUnder false active batch = .ok (written, result) ∧
      result.baseOffset = active.nextOffset ∧ written.isSealed = false ∧ written.createdAt = active.createdAt ∧
      written.baseOffset = active.baseOffset ∧
      written.batches = active.batches ++ (if batch.records.isEmpty then [] else [batch]) := by
  unfold writeUnder IdealSegment.append
  rw [if_neg Bool.false_ne_true, unsealed, if_neg Bool.false_ne_true]
  split
  · exact ⟨_, _, rfl, rfl, unsealed, rfl, rfl, (append_nil _).symm⟩
  · exact ⟨_, _, rfl, rfl, rfl, rfl, rfl, rfl⟩

theorem records_grow (position : manager.activeSegment = some active) (segment : IdealSegment) :
    (manager.setActive segment).records.length + active.records.length =
      manager.records.length + segment.records.length := by
  obtain ⟨inside, rfl⟩ := List.getElem?_eq_some_iff.mp position
  have split := set_eq_take_append_cons_drop (l := manager.segments) (i := manager.activeIndex) (a := segment)
  rw [if_pos inside] at split
  have parts : manager.segments = manager.segments.take manager.activeIndex ++
      manager.segments[manager.activeIndex] :: manager.segments.drop (manager.activeIndex + 1) := by
    rw [← drop_eq_getElem_cons inside, take_append_drop]
  have before := congrArg (fun segments : List IdealSegment => (segments.flatMap IdealSegment.records).length) parts
  unfold records setActive
  simp only [split, flatMap_append, flatMap_cons, length_append] at before ⊢
  omega

end Active

/-- A call that fails leaves the end of the log and its records as they were. -/
def LeavesLog {Outcome : Type} (manager : LogManager) (outcome : LogManager × Except StorageError Outcome) : Prop :=
  ∀ error, outcome.2 = .error error → SameLog manager outcome.1

/-- The expected offset is the one that will be given, or nothing will be written; and a rollover that
is due begins the new segment at the end of the log. -/
def Expected (manager : LogManager) (batch : RecordBatch) (expectedBaseOffset : Int) (now : Int64) : Prop :=
  manager.isOpen = true → ∀ active ∈ manager.activeSegment, active.isSealed = false →
    (manager.shouldRoll active now = true → manager.logEndOffset = active.nextOffset) ∧
      (expectedBaseOffset = kInvalidOffset ∨ expectedBaseOffset = active.nextOffset ∨ batch.records = [])

instance (manager : LogManager) (batch : RecordBatch) (expectedBaseOffset : Int) (now : Int64) :
    Decidable (manager.Expected batch expectedBaseOffset now) := by
  unfold Expected
  infer_instance

variable {manager : LogManager} {active : IdealSegment}

theorem shouldRoll_of_sealed (closed : active.isSealed = true)
    (now : Int64) : manager.shouldRoll active now = false := by
  unfold shouldRoll IdealSegment.shouldRoll
  dsimp only
  rw [closed, Bool.not_true, Bool.false_and]

theorem appendUnder_of_active (opened : manager.isOpen = true)
    (position : manager.activeSegment = some active) (refusals : Refusals) (batch : RecordBatch)
    (expectedBaseOffset : Int) (now : Int64) :
    manager.appendUnder refusals batch expectedBaseOffset now =
      if manager.shouldRoll active now then
        match refusals.roll 0 with
        | some .seal => (manager, .error .sealFailed)
        | some .create => (manager.setActive active.seal, .error (.successorNotCreated active.nextOffset))
        | none =>
          appendTo (refusals.write 0) (manager.rolledAt active now)
            (createSegment active.nextOffset manager.nextSegmentId now) batch expectedBaseOffset
      else appendTo (refusals.write 0) manager active batch expectedBaseOffset := by
  unfold appendUnder
  rw [opened, rollIfDueUnder_of_active position]
  by_cases due : manager.shouldRoll active now = true
  · rw [if_pos due, if_pos due]
    cases refusals.roll 0 with
    | none =>
      dsimp only
      rw [activeSegment_rolledAt]
      rfl
    | some refused => cases refused <;> rfl
  · rw [if_neg due, if_neg due]
    dsimp only
    rw [position]
    rfl

theorem leavesLog_appendTo {rolled : LogManager} {batch : RecordBatch}
    {expectedBaseOffset : Int} (same : SameLog manager rolled) (position : rolled.activeSegment = some active)
    (refused : Bool)
    (expected : active.isSealed = false →
      expectedBaseOffset = kInvalidOffset ∨ expectedBaseOffset = active.nextOffset ∨ batch.records = []) :
    LeavesLog manager (appendTo refused rolled active batch expectedBaseOffset) := by
  unfold LeavesLog appendTo
  intro error failed
  cases refused with
  | true =>
    rw [writeUnder, if_pos rfl]
    exact same
  | false =>
    cases closed : active.isSealed with
    | true =>
      obtain ⟨refusal, stopped⟩ := writeUnder_of_sealed closed false batch
      rw [stopped]
      exact same
    | false =>
      obtain ⟨written, result, success, offset, -, -, base, batches⟩ := writeUnder_of_unsealed closed batch
      rw [success] at failed ⊢
      dsimp only at failed ⊢
      rw [offset] at failed
      rcases expected closed with unchecked | matching | empty
      · rw [if_neg (fun both => both.1 unchecked)] at failed
        cases failed
      · rw [if_neg (fun both => both.2 matching.symm)] at failed
        cases failed
      · rw [empty, isEmpty_nil, if_pos rfl, append_nil] at batches
        have kept : SameLog (rolled.setActive active) (rolled.setActive written) := by
          apply SameLog.setActive
          · rw [IdealSegment.records, IdealSegment.placed, base, batches]
            rfl
          · rw [IdealSegment.nextOffset, base, batches]
            rfl
        rw [setActive_self position] at kept
        exact same.trans kept

/-- A failed append leaves the log as it was, whatever the storage refuses, exactly where the offset
that it expects needs no check after the write. -/
theorem leavesLog_appendUnder_iff (manager : LogManager) (batch : RecordBatch) (expectedBaseOffset : Int)
    (now : Int64) :
    (∀ refusals, LeavesLog manager (manager.appendUnder refusals batch expectedBaseOffset now)) ↔
      manager.Expected batch expectedBaseOffset now := by
  constructor
  · intro leaves opened active position unsealed
    constructor
    · intro due
      have refused := leaves { write := fun _ => true } .writeFailed
      rw [appendUnder_of_active opened position, if_pos due] at refused
      have ends := (refused rfl).logEndOffset
      exact ends.symm.trans (logEndOffset_rolledAt now)
    · by_contra! contested
      obtain ⟨checked, other, some⟩ := contested
      -- Nothing is refused, so that the batch is stored before its offset is looked at.
      have stored : ∀ (rolled : LogManager) (segment : IdealSegment), rolled.activeSegment = Option.some segment →
          segment.isSealed = false → segment.nextOffset = active.nextOffset →
          rolled.records = manager.records →
          ¬LeavesLog manager (appendTo false rolled segment batch expectedBaseOffset) := by
        intro rolled segment found free ends records
        obtain ⟨written, result, success, offset, -, -, base, batches⟩ := writeUnder_of_unsealed free batch
        unfold LeavesLog appendTo
        rw [success]
        dsimp only
        rw [if_pos ⟨checked, by rw [offset, ends]; exact Ne.symm other⟩]
        intro claim
        have same := congrArg List.length (claim _ rfl).records
        have grown := records_grow found written
        rw [if_neg (by rw [List.isEmpty_iff]; exact some)] at batches
        rw [IdealSegment.length_records, IdealSegment.length_records, batches, recordTotal_append] at grown
        have positive := length_pos_iff.mpr some
        have total : recordTotal [batch] = batch.records.length := by
          rw [recordTotal, map_singleton, sum_singleton]
        rw [records] at grown
        omega
      have claim := leaves {}
      rw [appendUnder_of_active opened position] at claim
      split at claim
      next due =>
        refine stored _ _ (activeSegment_rolledAt now) rfl ?_ (records_rolledAt position now) claim
        exact Int.add_zero active.nextOffset
      · exact stored _ _ position unsealed rfl rfl claim
  · intro expected refusals
    cases opened : manager.isOpen with
    | false =>
      intro error _
      rw [appendUnder, opened]
      exact SameLog.refl manager
    | true =>
      cases position : manager.activeSegment with
      | none =>
        intro error _
        rw [appendUnder, opened, rollIfDueUnder, position]
        exact SameLog.refl manager
      | some active =>
        have condition := expected opened active position
        rw [appendUnder_of_active opened position]
        split
        next due =>
          have unsealed : active.isSealed = false := by
            cases closed : active.isSealed with
            | false => rfl
            | true =>
              rw [shouldRoll_of_sealed closed] at due
              cases due
          obtain ⟨ends, offset⟩ := condition unsealed
          split
          · exact fun _ _ => SameLog.refl manager
          · exact fun _ _ => SameLog.seal position
          · refine leavesLog_appendTo (SameLog.rolledAt position (ends due) now) (activeSegment_rolledAt now) _ ?_
            intro _
            rw [show (createSegment active.nextOffset manager.nextSegmentId now).nextOffset = active.nextOffset from
              Int.add_zero active.nextOffset]
            exact offset
        · exact leavesLog_appendTo (SameLog.refl manager) position _ fun unsealed => (condition unsealed).2

/-- A batch that was expected at another offset is refused, and stored. -/
theorem stored_though_refused :
    let manager := (new {}).open [] 0
    let outcome := manager.appendUnder {} keyedBatch 5 0
    outcome.2 = .error (.log (.unexpectedOffset 5 0)) ∧ manager.logEndOffset = 0 ∧ outcome.1.logEndOffset = 1 ∧
      ¬LeavesLog manager outcome := by
  refine ⟨by decide +kernel, by decide +kernel, by decide +kernel, fun claim => ?_⟩
  have same := (claim (.log (.unexpectedOffset 5 0)) (by decide +kernel)).logEndOffset
  revert same
  decide +kernel

example : ((new {}).open [] 0).Expected keyedBatch 0 0 ∧
    ¬((new {}).open [] 0).Expected keyedBatch 5 0 := by
  decide +kernel

/-- A call that fails leaves the log as it was, and the active segment where it ended. -/
def AllOrNothing {Outcome : Type} (manager : LogManager) (outcome : LogManager × Except StorageError Outcome) : Prop :=
  ∀ error, outcome.2 = .error error → SameLog manager outcome.1 ∧
    outcome.1.activeSegment.map IdealSegment.nextOffset = manager.activeSegment.map IdealSegment.nextOffset

/-- The storage refuses neither the write of a batch nor the rollover that is due before it. -/
def GetsPast (refusals : Refusals) (clock : Nat → Int64) (i : Nat) (manager : LogManager) : Prop :=
  refusals.write i = false ∧
    ∀ active ∈ manager.activeSegment, manager.shouldRoll active (clock i) = true → refusals.roll i = none

instance (refusals : Refusals) (clock : Nat → Int64) (i : Nat) (manager : LogManager) :
    Decidable (GetsPast refusals clock i manager) := by
  unfold GetsPast
  infer_instance

/-- No rollover is due once records of a call are written, as far as it gets, and the others begin the
new segment at the end of the log. -/
def RollsFirst (refusals : Refusals) (clock : Nat → Int64) : Nat → Nat → LogManager → List RecordBatch → Prop
  | _, _, _, [] => True
  | i, written, manager, batch :: batches =>
    (∀ active ∈ manager.activeSegment, manager.shouldRoll active (clock i) = true →
      written = 0 ∧ manager.logEndOffset = active.nextOffset) ∧
    (GetsPast refusals clock i manager →
      RollsFirst refusals clock (i + 1) (written + batch.records.length)
        (manager.append batch kInvalidOffset (clock i)).1 batches)

instance decidableRollsFirst (refusals : Refusals) (clock : Nat → Int64) :
    ∀ (i written : Nat) (manager : LogManager) (batches : List RecordBatch),
      Decidable (RollsFirst refusals clock i written manager batches)
  | _, _, _, [] => isTrue trivial
  | i, written, manager, batch :: batches =>
    have : Decidable (RollsFirst refusals clock (i + 1) (written + batch.records.length)
        (manager.append batch kInvalidOffset (clock i)).1 batches) := decidableRollsFirst refusals clock _ _ _ batches
    inferInstanceAs (Decidable (_ ∧ (_ → _)))

/-- The batches of a call lie in one segment as far as it gets. -/
def InOneSegment (refusals : Refusals) (manager : LogManager) (batches : List RecordBatch) (clock : Nat → Int64) :
    Prop :=
  (∀ active ∈ manager.activeSegment, manager.shouldRoll active (clock 0) = true →
    manager.logEndOffset = active.nextOffset) ∧
  RollsFirst refusals clock 1 0 ((manager.rollIfDue (clock 0)).toOption.getD manager) batches

/-- How a log stands once a call has written so many records behind an offset. -/
structure Resting (manager : LogManager) (preAppendOffset : Int) (count : Nat) (current : LogManager)
    (active : IdealSegment) : Prop where
  opened : current.isOpen = true
  position : current.activeSegment = some active
  parts : ∃ kept added, active.batches = kept ++ added ∧ recordTotal added = count ∧
    active.baseOffset + recordTotal kept = preAppendOffset ∧
    SameLog manager (current.setActive { active with batches := kept })

theorem records_of_total_zero {segment : IdealSegment} {kept added : List RecordBatch}
    (none : recordTotal added = 0) :
    { segment with batches := kept ++ added }.records = { segment with batches := kept }.records := by
  have tail := ({ segment with baseOffset := segment.baseOffset + recordTotal kept, batches := added } :
    IdealSegment).length_records
  dsimp only at tail
  rw [none] at tail
  have empty := eq_nil_of_length_eq_zero tail
  unfold IdealSegment.records IdealSegment.placed at empty ⊢
  dsimp only at empty ⊢
  rw [assignOffsets_append, flatMap_append, empty, append_nil]

theorem records_takeRecords (segment : IdealSegment) (kept added : List RecordBatch) :
    { segment with batches := IdealSegment.takeRecords (recordTotal kept) (kept ++ added) }.records =
      { segment with batches := kept }.records := by
  unfold IdealSegment.records IdealSegment.placed
  dsimp only
  generalize segment.baseOffset = base
  induction kept generalizing base with
  | nil =>
    cases added with
    | nil => rfl
    | cons batch batches =>
      rw [nil_append, IdealSegment.takeRecords, if_pos (show recordTotal [] = 0 from rfl)]
  | cons batch kept ih =>
    have total := recordTotal_cons batch kept
    rw [cons_append, IdealSegment.takeRecords]
    split
    next none =>
      have empty := ({ segment with baseOffset := base, batches := batch :: kept } : IdealSegment).length_records
      dsimp only at empty
      rw [none] at empty
      exact (eq_nil_of_length_eq_zero empty).symm
    next =>
      rw [if_pos (by omega), total, Nat.add_sub_cancel_left, assignOffsets, assignOffsets,
        flatMap_cons, flatMap_cons, ih]

section Resting

variable {manager current : LogManager} {preAppendOffset : Int} {count : Nat} {active : IdealSegment}

theorem Resting.nextOffset (resting : Resting manager preAppendOffset count current active) :
    active.nextOffset = preAppendOffset + count := by
  obtain ⟨kept, added, batches, total, base, -⟩ := resting.parts
  rw [IdealSegment.nextOffset, batches, recordTotal_append]
  omega

theorem Resting.sameLog (resting : Resting manager preAppendOffset 0 current active) : SameLog manager current := by
  obtain ⟨kept, added, batches, total, base, same⟩ := resting.parts
  have restored : SameLog (current.setActive { active with batches := kept }) (current.setActive active) := by
    apply SameLog.setActive
    · have emptied := @records_of_total_zero active kept added total
      rw [← batches] at emptied
      exact emptied
    · rw [IdealSegment.nextOffset, IdealSegment.nextOffset, batches, recordTotal_append, total, Nat.add_zero]
  rw [setActive_self resting.position] at restored
  exact same.trans restored

theorem Resting.rollBack (resting : Resting manager preAppendOffset count current active) :
    SameLog manager (current.rollBack active preAppendOffset) ∧
      (current.rollBack active preAppendOffset).activeSegment.map IdealSegment.nextOffset = some preAppendOffset := by
  have ends := resting.nextOffset
  obtain ⟨kept, added, batches, total, base, same⟩ := resting.parts
  unfold LogManager.rollBack IdealSegment.truncateTo
  rw [if_neg (by omega), if_neg (by omega)]
  by_cases none : preAppendOffset = active.nextOffset
  · have zero : count = 0 := by omega
    subst zero
    rw [if_pos none]
    dsimp only
    rw [setActive_self resting.position, resting.position]
    exact ⟨resting.sameLog, congrArg some none.symm⟩
  · rw [if_neg none]
    dsimp only
    have front : (preAppendOffset - active.baseOffset).toNat = recordTotal kept := by omega
    rw [activeSegment_setActive resting.position, front, batches]
    refine ⟨same.trans (SameLog.setActive (records_takeRecords active kept added) ?_), congrArg some ?_⟩
    · rw [IdealSegment.nextOffset, IdealSegment.nextOffset]
      dsimp only
      rw [IdealSegment.recordTotal_takeRecords, recordTotal_append, min_eq_left (by omega)]
    · rw [IdealSegment.nextOffset]
      dsimp only
      rw [IdealSegment.recordTotal_takeRecords, recordTotal_append, min_eq_left (by omega), base]

theorem Resting.rolledAt (resting : Resting manager preAppendOffset 0 current active)
    (ends : current.logEndOffset = active.nextOffset) (now : Int64) :
    Resting manager preAppendOffset 0 (current.rolledAt active now)
      (createSegment active.nextOffset current.nextSegmentId now) where
  opened := resting.opened
  position := activeSegment_rolledAt now
  parts := by
    refine ⟨[], [], rfl, rfl, ?_, ?_⟩
    · have next := resting.nextOffset
      change active.nextOffset + 0 = preAppendOffset
      omega
    · have same := resting.sameLog.trans (SameLog.rolledAt resting.position ends now)
      rwa [← setActive_self (activeSegment_rolledAt now)] at same

theorem Resting.written (resting : Resting manager preAppendOffset count current active) {batch : RecordBatch}
    {written : IdealSegment} (base : written.baseOffset = active.baseOffset)
    (batches : written.batches = active.batches ++ (if batch.records.isEmpty then [] else [batch])) :
    Resting manager preAppendOffset (count + batch.records.length) (current.setActive written) written := by
  obtain ⟨kept, added, stored, total, front, same⟩ := resting.parts
  refine ⟨resting.opened, activeSegment_setActive resting.position written,
    kept, added ++ (if batch.records.isEmpty then [] else [batch]), ?_, ?_, ?_, ?_⟩
  · rw [batches, stored, append_assoc]
  · rw [recordTotal_append, total]
    split
    next none => rw [List.isEmpty_iff.mp none]; rfl
    next => rw [recordTotal, map_singleton, sum_singleton]
  · rw [base, front]
  · rw [setActive_setActive]
    refine same.trans (SameLog.setActive ?_ ?_)
    · rw [IdealSegment.records, IdealSegment.placed, base]
      rfl
    · rw [IdealSegment.nextOffset, base]
      rfl

theorem append_of_active {manager : LogManager} {active : IdealSegment} (opened : manager.isOpen = true)
    (position : manager.activeSegment = some active) (batch : RecordBatch) (now : Int64) :
    (manager.append batch kInvalidOffset now).1 =
      if manager.shouldRoll active now then
        (appendTo false (manager.rolledAt active now)
          (createSegment active.nextOffset manager.nextSegmentId now) batch kInvalidOffset).1
      else (appendTo false manager active batch kInvalidOffset).1 := by
  have plain := congrArg Prod.fst (appendUnder_default manager batch kInvalidOffset now)
  rw [appendUnder_of_active opened position] at plain
  rw [← show (lift (manager.append batch kInvalidOffset now)).1 = (manager.append batch kInvalidOffset now).1 from rfl,
    ← plain]
  split <;> rfl

theorem Resting.write {rolled : LogManager} (resting : Resting manager preAppendOffset count rolled active)
    (refused : Bool) (batch : RecordBatch) :
    (∃ error, writeUnder refused active batch = .error error) ∨
      (refused = false ∧ ∃ written result, writeUnder refused active batch = .ok (written, result) ∧
        (appendTo false rolled active batch kInvalidOffset).1 = rolled.setActive written ∧
        Resting manager preAppendOffset (count + batch.records.length) (rolled.setActive written) written) := by
  cases refused with
  | true => exact .inl ⟨.writeFailed, rfl⟩
  | false =>
    cases closed : active.isSealed with
    | true => exact .inl (writeUnder_of_sealed closed false batch)
    | false =>
      obtain ⟨written, result, success, -, -, -, base, batches⟩ := writeUnder_of_unsealed closed batch
      refine .inr ⟨rfl, written, result, success, ?_, resting.written base batches⟩
      rw [appendTo, success]

theorem Resting.appendEachUnder (resting : Resting manager preAppendOffset count current active)
    {refusals : Refusals} {clock : Nat → Int64} {i : Nat} {batches : List RecordBatch}
    (rolls : RollsFirst refusals clock i count current batches) (firstBaseOffset : Int) {error : StorageError}
    (failed : (appendEachUnder refusals clock preAppendOffset i batches current firstBaseOffset).2 = .error error) :
    SameLog manager (appendEachUnder refusals clock preAppendOffset i batches current firstBaseOffset).1 ∧
      (appendEachUnder refusals clock preAppendOffset i batches current
        firstBaseOffset).1.activeSegment.map IdealSegment.nextOffset = some preAppendOffset := by
  induction batches generalizing count current active i firstBaseOffset with
  | nil => cases failed
  | cons batch batches ih =>
    obtain ⟨early, later⟩ := rolls
    have due := early active resting.position
    rw [append_of_active resting.opened resting.position] at later
    unfold appendEachUnder at failed ⊢
    rw [rollIfDueUnder_of_active resting.position] at failed ⊢
    by_cases rolling : current.shouldRoll active (clock i) = true
    · obtain ⟨none, ends⟩ := due rolling
      subst none
      rw [if_pos rolling] at failed later ⊢
      have next := resting.nextOffset
      cases refused : refusals.roll i with
      | some refusal =>
        have same := resting.sameLog
        cases refusal with
        | «seal» =>
          dsimp only
          rw [resting.position]
          exact ⟨same, congrArg some (by omega)⟩
        | create =>
          dsimp only
          rw [activeSegment_setActive resting.position]
          refine ⟨same.trans (SameLog.seal resting.position), congrArg some ?_⟩
          change active.nextOffset = preAppendOffset
          omega
      | none =>
        have fresh := resting.rolledAt ends (clock i)
        rw [refused] at failed
        dsimp only at failed ⊢
        rw [activeSegment_rolledAt] at failed ⊢
        dsimp only at failed ⊢
        rcases fresh.write (refusals.write i) batch with
          ⟨stopped, error⟩ | ⟨allowed, written, result, success, step, after⟩
        · rw [error]
          exact fresh.rollBack
        · rw [success] at failed ⊢
          rw [step] at later
          exact ih after (later ⟨allowed, fun _ _ _ => refused⟩) _ failed
    · rw [if_neg rolling] at failed later ⊢
      dsimp only at failed ⊢
      rw [resting.position] at failed ⊢
      dsimp only at failed ⊢
      rcases resting.write (refusals.write i) batch with
        ⟨stopped, error⟩ | ⟨allowed, written, result, success, step, after⟩
      · rw [error]
        exact resting.rollBack
      · rw [success] at failed ⊢
        rw [step] at later
        refine ih after (later ⟨allowed, fun other found due => absurd due ?_⟩) _ failed
        rw [Option.some.inj (found.symm.trans resting.position)]
        exact rolling

end Resting

theorem rollIfDue_of_active
    (position : manager.activeSegment = some active) (now : Int64) :
    (manager.rollIfDue now).toOption.getD manager =
      if manager.shouldRoll active now then manager.rolledAt active now else manager := by
  unfold rollIfDue rollActiveSegment rolledAt
  rw [position]
  dsimp only
  split
  · rw [length_append, length_singleton, Nat.add_sub_cancel]
    rfl
  · rfl

/-- Whatever the storage refuses, a call that fails before a rollover that comes behind its own records
leaves the log as it was. -/
theorem allOrNothing_appendBatchUnder {refusals : Refusals} {manager : LogManager} {batches : List RecordBatch}
    {clock : Nat → Int64} (stays : InOneSegment refusals manager batches clock) :
    AllOrNothing manager (manager.appendBatchUnder refusals batches clock) := by
  intro error failed
  obtain ⟨first, rolls⟩ := stays
  unfold appendBatchUnder at failed ⊢
  cases opened : manager.isOpen with
  | false => exact ⟨SameLog.refl manager, rfl⟩
  | true =>
    rw [opened, if_neg (by decide)] at failed
    rw [if_neg (by decide)]
    by_cases nothing : batches.isEmpty = true
    · rw [if_pos nothing]
      exact ⟨SameLog.refl manager, rfl⟩
    · rw [if_neg nothing] at failed ⊢
      cases position : manager.activeSegment with
      | none =>
        unfold rollIfDueUnder
        rw [position]
        exact ⟨SameLog.refl manager, congrArg _ position⟩
      | some active =>
        have resting : Resting manager active.nextOffset 0 manager active := by
          refine ⟨opened, position, active.batches, [], (append_nil _).symm, rfl, rfl, ?_⟩
          rw [setActive_self position]
          exact SameLog.refl manager
        rw [rollIfDue_of_active position] at rolls
        rw [rollIfDueUnder_of_active position] at failed ⊢
        by_cases rolling : manager.shouldRoll active (clock 0) = true
        · rw [if_pos rolling] at rolls failed ⊢
          cases refused : refusals.roll 0 with
          | some refusal =>
            cases refusal with
            | «seal» => exact ⟨SameLog.refl manager, congrArg _ position⟩
            | create =>
              dsimp only
              rw [activeSegment_setActive position]
              exact ⟨SameLog.seal position, rfl⟩
          | none =>
            have fresh := resting.rolledAt (first active position rolling) (clock 0)
            rw [refused] at failed
            dsimp only at failed ⊢
            rw [activeSegment_rolledAt] at failed ⊢
            dsimp only at failed ⊢
            rw [show (createSegment active.nextOffset manager.nextSegmentId (clock 0)).nextOffset =
              active.nextOffset from Int.add_zero active.nextOffset] at failed ⊢
            exact fresh.appendEachUnder rolls kInvalidOffset failed
        · rw [if_neg rolling] at rolls failed ⊢
          dsimp only at failed ⊢
          rw [position] at failed ⊢
          exact resting.appendEachUnder rolls kInvalidOffset failed

/-- A second batch whose write is refused takes the first one with it. -/
theorem allOrNothing_second_refused :
    let manager := (new {}).open [] 0
    let refusals : Refusals := { write := fun i => i == 2 }
    let outcome := manager.appendBatchUnder refusals [keyedBatch, keyedBatch] fun _ => 0
    outcome.2 = .error .writeFailed ∧ AllOrNothing manager outcome :=
  ⟨by decide +kernel, allOrNothing_appendBatchUnder (by
    refine ⟨?_, ?_⟩
    · decide +kernel
    · exact of_decide_eq_true (by decide +kernel))⟩

/-- A rollover that fails between two batches leaves the first one to the caller. -/
theorem partial_write_at_rollover :
    let manager := (new { topicConfig := { segmentBytes := 100 } }).open [] 0
    let refusals : Refusals := { roll := fun i => if i = 2 then some .create else none }
    let outcome := manager.appendBatchUnder refusals [keyedBatch, keyedBatch] fun _ => 0
    outcome.2 = .error (.successorNotCreated 1) ∧ manager.logEndOffset = 0 ∧ outcome.1.logEndOffset = 1 ∧
      ¬AllOrNothing manager outcome := by
  refine ⟨by decide +kernel, by decide +kernel, by decide +kernel, fun claim => ?_⟩
  have same := (claim (.successorNotCreated 1) (by decide +kernel)).1.logEndOffset
  revert same
  decide +kernel

end LogManager

end TorrentMq.Storage
