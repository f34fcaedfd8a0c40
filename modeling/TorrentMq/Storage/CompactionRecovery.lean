import Mathlib.Data.Int.ConditionallyCompleteOrder
import Mathlib.Data.List.MinMax
import TorrentMq.Storage.CompactedFile

/-!
# Recovery of broken swaps

What the recovery makes of a directory in which a swap has broken off.
-/

set_option autoImplicit false

namespace TorrentMq.Storage

open Bytes List Option Directory StoredFile

theorem Directory.set_eq_self (directory : Directory) (name : Bytes) :
    directory.set name (directory name) = directory := by
  funext other
  unfold set
  split
  next same => rw [same]
  next => rfl

theorem Directory.set_comm (directory : Directory) {name other : Bytes} (different : other ≠ name)
    (file stored : Option StoredFile) :
    (directory.set name file).set other stored = (directory.set other stored).set name file := by
  funext entry
  unfold set
  by_cases same : entry = other
  · rw [if_pos same, if_neg fun equal => different (same.symm.trans equal), if_pos same]
  · rw [if_neg same, if_neg same]

namespace CompactionExecutor

theorem findFirst_take {pattern : Bytes} (nonempty : pattern ≠ []) {text : Bytes} {place : Nat}
    (found : findFirst pattern text = some place) : findFirst pattern (text.take place) = none := by
  induction text generalizing place with
  | nil =>
    rw [findFirst, if_neg nonempty] at found
    cases found
  | cons byte text ih =>
    rw [findFirst] at found
    split at found
    next => exact (Option.some.inj found) ▸ if_neg nonempty
    next differs =>
      obtain ⟨before, first, rfl⟩ := map_eq_some_iff.mp found
      have apart : ¬pattern.isPrefixOf (byte :: text.take before) = true := by
        intro front
        have cut : byte :: text.take before <+: byte :: text :=
          cons_prefix_cons.mpr ⟨rfl, take_prefix before text⟩
        exact differs ( isPrefixOf_iff_prefix.mpr (( isPrefixOf_iff_prefix.mp front).trans cut))
      rw [take_succ_cons, findFirst, if_neg apart, ih first]
      rfl

theorem targetOf_targetOf {name target : Bytes} (found : targetOf name = some target) :
    targetOf target = none := by
  unfold targetOf at found
  obtain ⟨place, first, rfl⟩ := map_eq_some_iff.mp found
  have nonempty : compactMarker ≠ [] := cons_ne_nil _ _
  unfold targetOf
  rw [findFirst_take nonempty first]
  rfl

theorem not_compactMarker_prefix {byte next : UInt8} (differs : next ≠ 99) (rest : Bytes) :
    ¬compactMarker.isPrefixOf (byte :: next :: rest) = true := by
  intro front
  obtain ⟨_, same⟩ := isPrefixOf_iff_prefix.mp front
  exact differs (List.cons.inj (List.cons.inj same).2).1.symm

theorem findFirst_compactMarker {front : Bytes} (plain : 99 ∉ front) (rest : Bytes) :
    findFirst compactMarker (front ++ (compactMarker ++ rest)) = some front.length := by
  induction front with
  | nil =>
    unfold compactMarker
    rw [nil_append, cons_append, findFirst, if_pos]
    · rfl
    · exact isPrefixOf_iff_prefix.mpr ⟨rest, rfl⟩
  | cons byte front ih =>
    have behind := ih (not_mem_of_not_mem_cons plain)
    have apart : ¬compactMarker.isPrefixOf (byte :: (front ++ (compactMarker ++ rest))) = true := by
      cases front with
      | nil => exact not_compactMarker_prefix (by decide) _
      | cons next front =>
        refine not_compactMarker_prefix ?_ _
        intro same
        exact plain (same ▸ mem_cons_of_mem byte mem_cons_self)
    rw [cons_append, findFirst, if_neg apart, behind]
    rfl

theorem findFirst_compactMarker_none {text : Bytes} (plain : 99 ∉ text) : findFirst compactMarker text = none := by
  induction text with
  | nil => rfl
  | cons byte text ih =>
    have behind := ih (not_mem_of_not_mem_cons plain)
    have apart : ¬compactMarker.isPrefixOf (byte :: text) = true := by
      cases text with
      | nil =>
        intro front
        have short := ( isPrefixOf_iff_prefix.mp front).length_le
        have long : compactMarker.length = 9 := rfl
        rw [long, length_singleton] at short
        omega
      | cons next text =>
        refine not_compactMarker_prefix ?_ _
        intro same
        exact plain (same ▸ mem_cons_of_mem byte mem_cons_self)
    rw [findFirst, if_neg apart, behind]
    rfl

/-!
## Names
-/

section SegmentNames

variable (segmentId : Nat) (baseOffset : Int)

theorem segmentFileName_plain : 99 ∉ segmentFileName segmentId baseOffset := by
  intro member
  unfold segmentFileName at member
  rcases mem_append.mp member with digit | member
  · exact absurd (mem_decimal digit).2 (by decide)
  · cases member with
    | tail _ member =>
      rcases mem_append.mp member with digit | member
      · exact (mem_decimalInt digit).elim (by decide) fun range => absurd range.2 (by decide)
      · exact absurd member (by decide)

theorem targetOf_segmentFileName : targetOf (segmentFileName segmentId baseOffset) = none := by
  unfold targetOf
  rw [findFirst_compactMarker_none (segmentFileName_plain segmentId baseOffset)]
  rfl

theorem targetOf_tempFileName (suffix : Bytes) :
    targetOf (tempFileName (segmentFileName segmentId baseOffset) suffix) =
      some (46 :: segmentFileName segmentId baseOffset) := by
  have plain : 99 ∉ 46 :: segmentFileName segmentId baseOffset := by
    intro member
    cases member with
    | tail _ member => exact segmentFileName_plain segmentId baseOffset member
  unfold targetOf tempFileName
  rw [← cons_append, findFirst_compactMarker plain, map_some, take_left]

theorem two_lt_length_segmentFileName : 2 < (segmentFileName segmentId baseOffset).length := by
  unfold segmentFileName
  rw [length_append, length_cons, length_append, length_cons, length_cons]
  omega

end SegmentNames

theorem not_mem_dotNames {name : Bytes} (long : 2 < name.length) : name ∉ dotNames := by
  intro member
  have short : ∀ name ∈ dotNames, name.length ≤ 2 := by decide
  exact absurd (short name member) (by omega)

/-!
## Recovery
-/

section Recovery

variable {newer : Bytes → Bool}

def newest : Option StoredFile → StoredFile → Option StoredFile :=
  argAux fun file other => other.mtime < file.mtime

variable (state : Nat × Directory)

theorem recoverEntry_cases (name : Bytes) :
    (recoverEntry newer state name).2 = state.2 ∧
        (∀ target, targetOf name = some target → state.2 name = none ∨ target ∈ dotNames) ∨
      (recoverEntry newer state name).2 = state.2.set name none ∧ (∃ target ∈ dotNames, targetOf name = some target) ∨
      ∃ target temp, targetOf name = some target ∧ state.2 name = some temp ∧ target ∉ dotNames ∧
        (recoverEntry newer state name).2 = (state.2.set target (newest (state.2 target) temp)).set name none := by
  unfold recoverEntry
  cases entry : targetOf name with
  | none => exact .inl ⟨rfl, fun target found => by cases found⟩
  | some target =>
    dsimp only
    cases there : state.2 name with
    | none => exact .inl ⟨rfl, fun _ _ => .inl rfl⟩
    | some temp =>
      dsimp only
      by_cases dots : target ∈ dotNames
      · rw [if_pos dots]
        cases newer name with
        | true => exact .inl ⟨rfl, fun other same => .inr (Option.some.inj same ▸ dots)⟩
        | false => exact .inr (.inl ⟨rfl, target, dots, rfl⟩)
      · rw [if_neg dots]
        refine .inr (.inr ⟨target, temp, rfl, rfl, dots, ?_⟩)
        cases old : state.2 target with
        | none => rfl
        | some file =>
          unfold newest argAux
          dsimp only
          split
          next => rfl
          next => rw [← old, set_eq_self]

def standing (directory : Directory) (names : List Bytes) (target : Bytes) : List StoredFile :=
  (directory target).toList ++
    names.filterMap fun name => if targetOf name = some target then directory name else none

theorem newest_standing (directory : Directory) (names : List Bytes) (target : Bytes) :
    (standing directory names target).argmax mtime =
      (names.filterMap fun name => if targetOf name = some target then directory name else none).foldl newest
        (directory target) := by
  unfold argmax standing
  rw [foldl_append]
  cases directory target with
  | none => rfl
  | some file => rfl

variable {name other : Bytes}

theorem recoverEntry_other {target : Bytes}
    (temporary : targetOf other = some target) (different : other ≠ name) :
    (recoverEntry newer state name).2 other = state.2 other := by
  rcases recoverEntry_cases state name with
    ⟨kept, -⟩ | ⟨removed, -⟩ | ⟨aim, temp, found, -, -, moved⟩
  · rw [kept]
  · rw [removed, set_of_ne _ different]
  · have apart : other ≠ aim := by
      intro same
      have plain := targetOf_targetOf found
      rw [← same, temporary] at plain
      cases plain
    rw [moved, set_of_ne _ different, set_of_ne _ apart]

theorem recoverEntry_plain (name : Bytes) {target : Bytes}
    (plain : targetOf target = none) (entry : target ∉ dotNames) :
    (recoverEntry newer state name).2 target =
      match if targetOf name = some target then state.2 name else none with
      | none => state.2 target
      | some temp => newest (state.2 target) temp := by
  have apart {aim : Bytes} (found : targetOf name = some aim) : target ≠ name := by
    intro same
    rw [same, found] at plain
    cases plain
  rcases recoverEntry_cases state name with
    ⟨kept, idle⟩ | ⟨removed, aim, dots, found⟩ | ⟨aim, temp, found, there, -, moved⟩
  · rw [kept]
    split
    next => rfl
    next temp taken =>
      split at taken
      next found => exact ((idle target found).elim (fun gone => by rw [gone] at taken; cases taken)
          fun dots => absurd dots entry)
      next => cases taken
  · have other : targetOf name ≠ some target := by
      intro same
      rw [found] at same
      exact entry (Option.some.inj same ▸ dots)
    rw [removed, set_of_ne _ (apart found), if_neg other]
  · rw [moved, set_of_ne _ (apart found), found]
    by_cases same : aim = target
    · rw [same, if_pos rfl, there, set_self]
    · rw [if_neg fun equal => same (Option.some.inj equal), set_of_ne _ (Ne.symm same)]

theorem recover_plain {target : Bytes} (plain : targetOf target = none) (entry : target ∉ dotNames)
    {names : List Bytes} (once : names.Nodup) (state : Nat × Directory) :
    (names.foldl (recoverEntry newer) state).2 target = (standing state.2 names target).argmax mtime := by
  rw [newest_standing]
  induction names generalizing state with
  | nil => rfl
  | cons name names ih =>
    obtain ⟨fresh, once⟩ := nodup_cons.mp once
    have later : (names.filterMap fun other => if targetOf other = some target then
          (recoverEntry newer state name).2 other else none) =
        names.filterMap fun other => if targetOf other = some target then state.2 other else none := by
      refine filterMap_congr ?_
      intro other member
      split
      next found => exact recoverEntry_other state found fun same => fresh (same ▸ member)
      next => rfl
    rw [foldl_cons, ih once, later, recoverEntry_plain state name plain entry, filterMap_cons]
    split
    next gone => rw [gone]
    next temp taken =>
      rw [taken, foldl_cons]

theorem recoverEntry_temporary (name : Bytes) {target : Bytes}
    (temporary : targetOf other = some target) :
    (recoverEntry newer state name).2 other = none ∨ (recoverEntry newer state name).2 other = state.2 other := by
  by_cases same : other = name
  · rw [← same]
    rcases recoverEntry_cases state other with ⟨kept, -⟩ | ⟨removed, -⟩ | ⟨_, _, -, -, -, moved⟩
    · exact .inr (congrFun kept other)
    · exact .inl (by rw [removed, set_self])
    · exact .inl (by rw [moved, set_self])
  · exact .inr (recoverEntry_other state temporary same)

theorem recoverEntry_self {target : Bytes}
    (temporary : targetOf name = some target) (entry : target ∉ dotNames) :
    (recoverEntry newer state name).2 name = none := by
  rcases recoverEntry_cases state name with
    ⟨kept, idle⟩ | ⟨removed, -⟩ | ⟨_, _, -, -, -, moved⟩
  · rw [kept]
    exact (idle target temporary).resolve_right entry
  · rw [removed, set_self]
  · rw [moved, set_self]

theorem recover_temporary {target : Bytes} (temporary : targetOf other = some target)
    (names : List Bytes) (state : Nat × Directory) :
    (names.foldl (recoverEntry newer) state).2 other = none ∨
      (names.foldl (recoverEntry newer) state).2 other = state.2 other := by
  induction names generalizing state with
  | nil => exact .inr rfl
  | cons name names ih =>
    rw [foldl_cons]
    refine (ih _).elim .inl fun kept => ?_
    rw [kept]
    exact recoverEntry_temporary state name temporary

theorem recover_removes {target : Bytes} (temporary : targetOf name = some target)
    (entry : target ∉ dotNames) {names : List Bytes} (member : name ∈ names) (state : Nat × Directory) :
    (names.foldl (recoverEntry newer) state).2 name = none := by
  induction names generalizing state with
  | nil => cases member
  | cons head names ih =>
    rw [foldl_cons]
    cases member with
    | head =>
      refine (recover_temporary temporary names _).elim id ?_
      intro kept
      rw [kept]
      exact recoverEntry_self state temporary entry
    | tail _ member => exact ih member _

theorem recover_dotName (dots : name ∈ dotNames) (names : List Bytes)
    (state : Nat × Directory) : (names.foldl (recoverEntry newer) state).2 name = state.2 name := by
  have plain : targetOf name = none := by
    have all : ∀ name ∈ dotNames, targetOf name = none := by decide
    exact all name dots
  have apart {other target : Bytes} (found : targetOf other = some target) : name ≠ other := by
    intro same
    rw [same, found] at plain
    cases plain
  induction names generalizing state with
  | nil => rfl
  | cons head names ih =>
    rw [foldl_cons]
    refine (ih _).trans ?_
    rcases recoverEntry_cases state head with
      ⟨kept, -⟩ | ⟨removed, _, -, found⟩ | ⟨aim, temp, found, -, entry, moved⟩
    · rw [kept]
    · rw [removed, set_of_ne _ (apart found)]
    · have different : name ≠ aim := fun same => entry (same ▸ dots)
      rw [moved, set_of_ne _ (apart found), set_of_ne _ different]

end Recovery

/-!
## Crashes
-/

section Crashes

variable {target temp : Bytes} {clock : Nat → Int}

theorem crash_eq (calls : List SystemCall) (done written : Nat) (directory : Directory) :
    crash target temp clock calls done written directory =
      match calls[done]? with
      | some (.write block) =>
        if block.take written = [] then performed target temp clock 0 (calls.take done) directory
        else
          perform target temp (clock done) (performed target temp clock 0 (calls.take done) directory)
            (.write (block.take written))
      | _ => performed target temp clock 0 (calls.take done) directory := rfl

theorem crash_write {blocks : List Bytes} {done : Nat} (inside : done < blocks.length)
    (calls : List SystemCall) (written : Nat) (directory : Directory) :
    ∃ content time, content <+: blocks.flatten ∧
      crash target temp clock (.create :: (blocks.map .write ++ calls)) (done + 1) written directory =
        directory.set temp (some ⟨content, time, true⟩) := by
  obtain ⟨time, created⟩ := @performed_created target temp clock (blocks.take done) directory
  have front : (blocks.map SystemCall.write ++ calls).take done = (blocks.take done).map .write := by
    rw [take_append_of_le_length (by rw [length_map]; exact inside.le), map_take]
  have next : (SystemCall.create :: (blocks.map .write ++ calls))[done + 1]? = some (.write blocks[done]) := by
    rw [getElem?_cons_succ, getElem?_append_left (by rw [length_map]; exact inside),
      getElem?_map, getElem?_eq_getElem inside]
    rfl
  have whole : blocks.flatten = (blocks.take done).flatten ++ (blocks[done] ++ (blocks.drop (done + 1)).flatten) := by
    rw [← flatten_cons, ← drop_eq_getElem_cons inside, ← flatten_append, take_append_drop]
  rw [crash_eq, take_succ_cons, front, next, created]
  dsimp only
  split
  next => exact ⟨_, time, ⟨_, whole.symm⟩, rfl⟩
  next =>
    refine ⟨(blocks.take done).flatten ++ blocks[done].take written, clock (done + 1), ?_, ?_⟩
    · rw [whole]
      exact (prefix_append_right_inj _).mpr (( take_prefix written _).trans (prefix_append _ _))
    · unfold perform
      dsimp only
      rw [Directory.set_self, Directory.set_set]
      rfl

theorem crash_behind (blocks : List Bytes) {calls : List SystemCall} {done : Nat}
    (idle : ∀ block, calls[done]? ≠ some (.write block)) (written : Nat) (directory : Directory) :
    ∃ time, crash target temp clock (.create :: (blocks.map .write ++ calls)) (blocks.length + done + 1) written
        directory =
      performed target temp clock (0 + (SystemCall.create :: blocks.map .write).length) (calls.take done)
        (directory.set temp (some ⟨blocks.flatten, time, true⟩)) := by
  obtain ⟨time, created⟩ := @performed_created target temp clock blocks directory
  have length : (blocks.map SystemCall.write).length = blocks.length := length_map _
  have front : (blocks.map SystemCall.write ++ calls).take (blocks.length + done) =
      blocks.map .write ++ calls.take done := by
    rw [← length, take_length_add_append]
  have next : (SystemCall.create :: (blocks.map .write ++ calls))[blocks.length + done + 1]? = calls[done]? := by
    rw [getElem?_cons_succ, getElem?_append_right (by omega), length, Nat.add_sub_cancel_left]
  refine ⟨time, ?_⟩
  rw [crash_eq, take_succ_cons, front, next, ← cons_append, performed_append, created]
  split
  next block same => exact absurd same (idle block)
  next => rfl

end Crashes

theorem crash_cases (batches : List RecordBatch) (target suffix : Bytes) (nowMs : Int64) (clock : Nat → Int)
    (done written : Nat) (directory : Directory) :
    let crashed := crash target (tempFileName target suffix) clock (systemCalls batches nowMs) done written directory
    (batches = [] ∨ done = 0) ∧ crashed = directory ∨
      (batches ≠ [] ∧ 0 < done ∧ done < (writeBlocks batches nowMs).length + 3) ∧
        (∃ content time, content <+: compactedFile batches nowMs ∧
          crashed = directory.set (tempFileName target suffix) (some ⟨content, time, true⟩)) ∨
      (batches ≠ [] ∧ (writeBlocks batches nowMs).length + 3 ≤ done) ∧
        ∃ time, crashed =
          (directory.set target (some ⟨compactedFile batches nowMs, time, true⟩)).set (tempFileName target suffix) none := by
  unfold systemCalls
  dsimp only
  by_cases empty : batches = []
  · rw [if_pos empty]
    refine .inl ⟨.inl empty, ?_⟩
    rw [crash_eq, take_nil]
    rfl
  · rw [if_neg empty]
    cases done with
    | zero => exact .inl ⟨.inr rfl, rfl⟩
    | succ done =>
      right
      rcases Nat.lt_or_ge done (writeBlocks batches nowMs).length with inside | behind
      · exact .inl ⟨⟨empty, by omega, by omega⟩, crash_write inside _ written directory⟩
      · obtain ⟨rest, rfl⟩ := Nat.exists_eq_add_of_le behind
        have idle : ∀ block, [SystemCall.sync, .rename, .syncDirectory][rest]? ≠ some (.write block) := by
          intro block same
          have member := mem_of_getElem? same
          cases member with
          | tail _ member =>
            cases member with
            | tail _ member =>
              cases member with
              | tail _ member => cases member
        obtain ⟨time, reached⟩ := @crash_behind target (tempFileName target suffix) clock
          (writeBlocks batches nowMs) _ rest idle written directory
        have swapped : ∀ place : Nat, performed target (tempFileName target suffix) clock place [.sync, .rename]
            (directory.set (tempFileName target suffix) (some ⟨compactedFile batches nowMs, time, true⟩)) =
              (directory.set target (some ⟨compactedFile batches nowMs, time, true⟩)).set
                (tempFileName target suffix) none := by
          intro place
          rw [performed_cons, performed_cons]
          unfold performed performAll perform
          dsimp only
          rw [Directory.set_self, Directory.set_comm _ (tempFileName_ne target suffix), Directory.set_set]
        rw [reached]
        rcases rest with _ | _ | _ | rest
        · exact .inl ⟨⟨empty, by omega, by omega⟩, _, time, prefix_refl _, rfl⟩
        · exact .inl ⟨⟨empty, by omega, by omega⟩, _, time, prefix_refl _, rfl⟩
        · exact .inr ⟨⟨empty, by omega⟩, time, swapped _⟩
        · rw [take_of_length_le (Nat.le_add_left 3 rest)]
          exact .inr ⟨⟨empty, by omega⟩, time, swapped _⟩

/-!
## Directories of segments
-/

structure SegmentDirectory where
  files : Directory
  segmentId : Nat
  baseOffset : Int
  old : StoredFile
  present : files (segmentFileName segmentId baseOffset) = some old
  unmarked : ∀ name file, files name = some file → file.byCompaction = false

namespace SegmentDirectory

variable (start : SegmentDirectory) (batches : List RecordBatch) (suffix : Bytes) (nowMs : Int64)
  (clock : Nat → Int) (done written : Nat)

def target : Bytes := segmentFileName start.segmentId start.baseOffset

def temp : Bytes := tempFileName start.target suffix

def crashed : Directory :=
  crash start.target (start.temp suffix) clock (systemCalls batches nowMs) done written start.files

/-- The recovery leaves the old or the new file of the segment, and nothing else of the swap. -/
def Recovers (newer : Bytes → Bool)
    (listing : Listing (start.crashed batches suffix nowMs clock done written)) : Prop :=
  let after := (detectPartialFiles newer (start.crashed batches suffix nowMs clock done written) listing).2
  (∃ file, after start.target = some file ∧
      (file.content = start.old.content ∨ file.content = compactedFile batches nowMs)) ∧
    ∀ name file, name ≠ start.target → after name = some file → file.byCompaction = false

/-- Of the files that stand for the segment, the newest holds its old or its new bytes; of those that
stand for its name with a dot in front, the newest is not that of the swap. -/
def Settled (listing : Listing (start.crashed batches suffix nowMs clock done written)) : Prop :=
  (∀ file ∈ (standing (start.crashed batches suffix nowMs clock done written) listing.names start.target).argmax
      mtime, file.content = start.old.content ∨ file.content = compactedFile batches nowMs) ∧
    ∀ file ∈ (standing (start.crashed batches suffix nowMs clock done written) listing.names
      (46 :: start.target)).argmax mtime, file.byCompaction = false

theorem targetOf_target : targetOf start.target = none := targetOf_segmentFileName _ _

theorem targetOf_temp : targetOf (start.temp suffix) = some (46 :: start.target) :=
  targetOf_tempFileName _ _ suffix

theorem target_not_mem : start.target ∉ dotNames :=
  not_mem_dotNames (two_lt_length_segmentFileName start.segmentId start.baseOffset)

theorem dotted_not_mem : 46 :: start.target ∉ dotNames := by
  have long := two_lt_length_segmentFileName start.segmentId start.baseOffset
  refine not_mem_dotNames ?_
  rw [length_cons]
  exact Nat.lt_succ_of_lt long

theorem target_ne_temp : start.target ≠ start.temp suffix := tempFileName_ne _ _

theorem crashed_files :
    (∃ file, start.crashed batches suffix nowMs clock done written start.target = some file ∧
        (file.content = start.old.content ∨ file.content = compactedFile batches nowMs)) ∧
      ∀ name file, start.crashed batches suffix nowMs clock done written name = some file →
        file.byCompaction = true → name = start.target ∨ name = start.temp suffix := by
  have unmarked : ∀ name file, start.files name = some file → ¬file.byCompaction = true := by
    intro name file there marked
    rw [start.unmarked name file there] at marked
    cases marked
  rcases crash_cases batches start.target suffix nowMs clock done written start.files with
    ⟨-, same⟩ | ⟨-, content, time, -, same⟩ | ⟨-, time, same⟩
  · unfold crashed temp
    rw [same]
    exact ⟨⟨start.old, start.present, .inl rfl⟩, fun name file there marked => absurd marked (unmarked name file there)⟩
  · unfold crashed temp
    rw [same]
    refine ⟨⟨start.old, ?_, .inl rfl⟩, ?_⟩
    · rw [set_of_ne _ (tempFileName_ne start.target suffix)]
      exact start.present
    · intro name file there marked
      by_cases swap : name = tempFileName start.target suffix
      · exact .inr swap
      · rw [set_of_ne _ swap] at there
        exact absurd marked (unmarked name file there)
  · unfold crashed temp
    rw [same]
    refine ⟨⟨⟨compactedFile batches nowMs, time, true⟩, ?_, .inr rfl⟩, ?_⟩
    · rw [set_of_ne _ (tempFileName_ne start.target suffix), set_self]
    · intro name file there marked
      by_cases swap : name = tempFileName start.target suffix
      · exact .inr swap
      · rw [set_of_ne _ swap] at there
        by_cases replaced : name = start.target
        · exact .inl replaced
        · rw [set_of_ne _ replaced] at there
          exact absurd marked (unmarked name file there)

section Listed

variable {start batches suffix nowMs clock done written} {newer : Bytes → Bool}
  {listing : Listing (start.crashed batches suffix nowMs clock done written)}

variable {name : Bytes}

theorem after_plain (plain : targetOf name = none) (entry : name ∉ dotNames) :
    (detectPartialFiles newer (start.crashed batches suffix nowMs clock done written) listing).2 name =
      (standing (start.crashed batches suffix nowMs clock done written) listing.names name).argmax mtime :=
  recover_plain plain entry listing.once _

theorem standing_unmarked (plain : targetOf name = none) (other : name ≠ start.target)
    (undotted : name ≠ 46 :: start.target) {file : StoredFile}
    (member : file ∈ standing (start.crashed batches suffix nowMs clock done written) listing.names name) :
    file.byCompaction = false := by
  obtain ⟨-, only⟩ := start.crashed_files batches suffix nowMs clock done written
  rw [Bool.eq_false_iff]
  intro marked
  rcases mem_append.mp member with own | temporary
  · rcases only name file (mem_toList.mp own) marked with same | same
    · exact other same
    · rw [same, start.targetOf_temp suffix] at plain
      cases plain
  · obtain ⟨entry, -, taken⟩ := mem_filterMap.mp temporary
    split at taken
    next found =>
      rcases only entry file taken marked with same | same
      · rw [same, start.targetOf_target] at found
        cases found
      · rw [same, start.targetOf_temp suffix] at found
        exact undotted (Option.some.inj found).symm
    next => cases taken

theorem after_temporary {target : Bytes} (temporary : targetOf name = some target) {file : StoredFile}
    (there : (detectPartialFiles newer (start.crashed batches suffix nowMs clock done written) listing).2 name =
      some file) : file.byCompaction = false := by
  obtain ⟨-, only⟩ := start.crashed_files batches suffix nowMs clock done written
  rw [Bool.eq_false_iff]
  intro marked
  rcases @recover_temporary newer _ _ temporary listing.names
    (0, start.crashed batches suffix nowMs clock done written) with gone | kept
  · cases gone.symm.trans there
  · have before : start.crashed batches suffix nowMs clock done written name = some file := kept.symm.trans there
    rcases only name file before marked with same | same
    · rw [same, start.targetOf_target] at temporary
      cases temporary
    · have member : name ∈ listing.names := listing.complete name (by rw [before]; rfl)
      have removed := @recover_removes newer _ _ (same ▸ start.targetOf_temp suffix) start.dotted_not_mem _ member
        (0, start.crashed batches suffix nowMs clock done written)
      cases removed.symm.trans there

theorem Settled.recovers (settled : start.Settled batches suffix nowMs clock done written listing) :
    start.Recovers batches suffix nowMs clock done written newer listing := by
  obtain ⟨content, dotted⟩ := settled
  obtain ⟨⟨file, there, _⟩, only⟩ := start.crashed_files batches suffix nowMs clock done written
  constructor
  · rw [after_plain start.targetOf_target start.target_not_mem]
    cases winner : (standing (start.crashed batches suffix nowMs clock done written) listing.names
        start.target).argmax mtime with
    | none =>
      have empty := argmax_eq_none.mp winner
      unfold standing at empty
      rw [there] at empty
      cases empty
    | some file => exact ⟨file, rfl, content file winner⟩
  · intro name file other left
    cases temporary : targetOf name with
    | some target => exact after_temporary temporary left
    | none =>
      by_cases dots : name ∈ dotNames
      · rw [detectPartialFiles, recover_dotName dots] at left
        rw [Bool.eq_false_iff]
        intro marked
        rcases only name file left marked with same | same
        · exact other same
        · rw [same, start.targetOf_temp suffix] at temporary
          cases temporary
      · rw [after_plain temporary dots] at left
        by_cases same : name = 46 :: start.target
        · rw [same] at left
          exact dotted file left
        · exact standing_unmarked temporary other same (argmax_mem left)

theorem settled_of_recovers (recovers : start.Recovers batches suffix nowMs clock done written newer listing) :
    start.Settled batches suffix nowMs clock done written listing := by
  obtain ⟨⟨kept, there, content⟩, alone⟩ := recovers
  constructor
  · intro file winner
    rw [after_plain start.targetOf_target start.target_not_mem] at there
    cases there.symm.trans winner
    exact content
  · intro file winner
    refine alone (46 :: start.target) file ?_ ?_
    · intro same
      have length := congrArg List.length same
      rw [length_cons] at length
      omega
    · rw [after_plain (targetOf_targetOf (start.targetOf_temp suffix)) start.dotted_not_mem]
      exact winner

theorem settled_of_no_temporary
    (none_left : ∀ name file, start.crashed batches suffix nowMs clock done written name = some file →
      targetOf name = none)
    (free : start.crashed batches suffix nowMs clock done written (46 :: start.target) = none) :
    start.Settled batches suffix nowMs clock done written listing := by
  have alone (target : Bytes) :
      standing (start.crashed batches suffix nowMs clock done written) listing.names target =
        (start.crashed batches suffix nowMs clock done written target).toList := by
    unfold standing
    rw [filterMap_eq_nil_iff.mpr, append_nil]
    intro name _
    split
    next found =>
      cases there : start.crashed batches suffix nowMs clock done written name with
      | none => rfl
      | some file =>
        rw [none_left name file there] at found
        cases found
    next => rfl
  obtain ⟨⟨file, there, content⟩, -⟩ := start.crashed_files batches suffix nowMs clock done written
  constructor
  · intro winner newest
    rw [alone, there] at newest
    cases mem_singleton.mp (argmax_mem newest)
    exact content
  · intro winner newest
    rw [alone, free] at newest
    cases newest

theorem settled_iff_of_ordinary (ordinary : ∀ name file, start.files name = some file → targetOf name = none)
    (free : start.files (46 :: start.target) = none) :
    start.Settled batches suffix nowMs clock done written listing ↔
      batches = [] ∨ done = 0 ∨ (writeBlocks batches nowMs).length + 3 ≤ done := by
  have dotted_ne_temp : 46 :: start.target ≠ start.temp suffix := by
    intro same
    have plain := targetOf_targetOf (start.targetOf_temp suffix)
    rw [same, start.targetOf_temp suffix] at plain
    cases plain
  have dotted_ne_target : 46 :: start.target ≠ start.target := by
    intro same
    have length := congrArg List.length same
    rw [length_cons] at length
    omega
  rcases crash_cases batches start.target suffix nowMs clock done written start.files with
    ⟨before, same⟩ | ⟨⟨nonempty, begun, unswapped⟩, content, time, -, same⟩ | ⟨⟨-, behind⟩, time, same⟩
  · have left : start.crashed batches suffix nowMs clock done written = start.files := same
    refine iff_of_true (settled_of_no_temporary ?_ ?_) (before.imp_right .inl)
    · rw [left]
      exact ordinary
    · rw [left]
      exact free
  · have left : start.crashed batches suffix nowMs clock done written =
        start.files.set (start.temp suffix) (some ⟨content, time, true⟩) := same
    refine iff_of_false ?_ (by rintro (empty | zero | late); exacts [nonempty empty, by omega, by omega])
    rintro ⟨-, dotted⟩
    have listed : start.temp suffix ∈ listing.names := by
      refine listing.complete _ ?_
      rw [left, set_self]
      rfl
    have swap : ⟨content, time, true⟩ ∈
        standing (start.crashed batches suffix nowMs clock done written) listing.names (46 :: start.target) := by
      refine mem_append_right _ (mem_filterMap.mpr ⟨start.temp suffix, listed, ?_⟩)
      rw [if_pos (start.targetOf_temp suffix), left, set_self]
    have alone : ∀ file ∈
        standing (start.crashed batches suffix nowMs clock done written) listing.names (46 :: start.target),
        file = ⟨content, time, true⟩ := by
      intro file member
      rcases mem_append.mp member with own | temporary
      · rw [left, set_of_ne _ dotted_ne_temp, free] at own
        cases own
      · obtain ⟨entry, -, taken⟩ := mem_filterMap.mp temporary
        split at taken
        next found =>
          by_cases self : entry = start.temp suffix
          · rw [left, self, set_self] at taken
            exact (Option.some.inj taken).symm
          · rw [left, set_of_ne _ self] at taken
            rw [ordinary entry file taken] at found
            cases found
        next => cases taken
    cases winner : (standing (start.crashed batches suffix nowMs clock done written) listing.names
        (46 :: start.target)).argmax mtime with
    | none =>
      rw [argmax_eq_none.mp winner] at swap
      cases swap
    | some file =>
      have unmarked := dotted file winner
      rw [alone file (argmax_mem winner)] at unmarked
      cases unmarked
  · have left : start.crashed batches suffix nowMs clock done written =
        (start.files.set start.target (some ⟨compactedFile batches nowMs, time, true⟩)).set (start.temp suffix) none :=
      same
    refine iff_of_true (settled_of_no_temporary ?_ ?_) (.inr (.inr behind))
    · rw [left]
      intro name file there
      by_cases swap : name = start.temp suffix
      · rw [swap, set_self] at there
        cases there
      · rw [set_of_ne _ swap] at there
        by_cases replaced : name = start.target
        · rw [replaced]
          exact start.targetOf_target
        · rw [set_of_ne _ replaced] at there
          exact ordinary name file there
    · rw [left, set_of_ne _ dotted_ne_temp, set_of_ne _ dotted_ne_target]
      exact free

end Listed

/-- The recovery leaves the segment as it should exactly where the newest of the files that stand for
the segment holds its bytes, and the newest of those that stand for its name with a dot in front is not
the temporary file of the swap. -/
theorem recovers_iff_settled (newer : Bytes → Bool)
    (listing : Listing (start.crashed batches suffix nowMs clock done written)) :
    start.Recovers batches suffix nowMs clock done written newer listing ↔
      start.Settled batches suffix nowMs clock done written listing :=
  ⟨settled_of_recovers, Settled.recovers⟩

def single : SegmentDirectory where
  files := fun name => if name = segmentFileName 0 0 then some { content := [], mtime := 0 } else none
  segmentId := 0
  baseOffset := 0
  old := { content := [], mtime := 0 }
  present := if_pos rfl
  unmarked := by
    intro name file there
    split at there
    · cases there
      rfl
    · cases there

theorem single_files_of_ne {name : Bytes} (other : name ≠ single.target) : single.files name = none := if_neg other

theorem crashed_single : single.crashed [keyBatch] [49] 0 (fun _ => 1) 1 0 =
    single.files.set (single.temp [49]) (some ⟨[], 1, true⟩) := rfl

def singleListing : Listing (single.crashed [keyBatch] [49] 0 (fun _ => 1) 1 0) where
  names := [single.target, single.temp [49]]
  once := nodup_cons.mpr ⟨mem_singleton.not.mpr (single.target_ne_temp [49]), nodup_singleton _⟩
  complete := by
    intro name there
    rw [crashed_single] at there
    by_cases swap : name = single.temp [49]
    · exact mem_cons_of_mem _ (mem_singleton.mpr swap)
    · rw [set_of_ne _ swap] at there
      by_cases same : name = single.target
      · exact same ▸ mem_cons_self
      · rw [single_files_of_ne same] at there
        cases there

theorem not_recovers_created : ¬∀ (start : SegmentDirectory) (batches : List RecordBatch) (suffix : Bytes)
    (nowMs : Int64) (clock : Nat → Int) (done written : Nat) (newer : Bytes → Bool)
    (listing : Listing (start.crashed batches suffix nowMs clock done written)),
    start.Recovers batches suffix nowMs clock done written newer listing := by
  intro claim
  have recovers := claim single [keyBatch] [49] 0 (fun _ => 1) 1 0 (fun _ => false) singleListing
  have ordinary : ∀ name file, single.files name = some file → targetOf name = none := by
    intro name file there
    have same : name = single.target := by
      by_contra other
      rw [single_files_of_ne other] at there
      cases there
    exact same ▸ single.targetOf_target
  have dotted : 46 :: single.target ≠ single.target := by
    intro same
    have length := congrArg List.length same
    rw [length_cons] at length
    exact absurd length (Nat.succ_ne_self _)
  rcases (settled_iff_of_ordinary ordinary (single_files_of_ne dotted)).mp (settled_of_recovers recovers)
    with empty | zero | late
  · cases empty
  · cases zero
  · omega

end SegmentDirectory

end CompactionExecutor

end TorrentMq.Storage
