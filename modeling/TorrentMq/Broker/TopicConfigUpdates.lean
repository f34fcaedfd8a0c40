import TorrentMq.Broker.TopicManager

/-! Interleavings of two alterations of the configuration of one topic that lose neither. -/

set_option autoImplicit false

namespace TorrentMq.Broker.Topics

open Bytes Runs Interleaving List OrderedMap

variable {cfg base after : TopicConfig} {key value other : Bytes} {name : ConfigKey} {setting : Setting}

@[simp] theorem replicationFactor_apply (setting : Setting) :
    (setting.apply cfg).replicationFactor = cfg.replicationFactor := by
  cases setting <;> rfl

@[simp] theorem read_apply_same (setting : Setting) : (setting.apply cfg).read setting.key = setting := by
  cases setting <;> rfl

theorem read_apply_other (differs : name ≠ setting.key) : (setting.apply cfg).read name = cfg.read name := by
  cases setting <;> cases name <;> first | rfl | exact absurd rfl differs

theorem apply_eq_self_iff : setting.apply cfg = cfg ↔ cfg.read setting.key = setting := by
  constructor
  · intro same
    have own := @read_apply_same cfg setting
    rwa [same] at own
  · intro same
    rw [← same]
    cases setting <;> rfl

theorem map_key {α : Type} {parsed : Except ConfigError α} {make : α → Setting} (keyed : ∀ value, (make value).key = name)
    (succeeds : parsed.map make = .ok setting) : setting.key = name := by
  cases parsed with
  | error error => cases succeeds
  | ok value =>
    obtain rfl := Except.ok.inj succeeds
    exact keyed value

theorem parseSetting_key {replicationFactor : Int} (parsed : parseSetting replicationFactor key value name = .ok setting) :
    setting.key = name := by
  cases name with
  | preallocate => rw [← Except.ok.inj parsed]; rfl
  | _ => exact map_key (fun _ => rfl) parsed

theorem findKey_injective (found : findKey key = some name) (same : findKey other = some name) : key = other := by
  have distinct : ∀ left ∈ kAlterableConfigKeys, ∀ right ∈ kAlterableConfigKeys,
      left.2 = right.2 → left.1 = right.1 := by decide
  have entry {key : Bytes} (found : findKey key = some name) : (key, name) ∈ kAlterableConfigKeys := by
    obtain ⟨⟨stored, _⟩, listed, rfl⟩ := Option.map_eq_some_iff.mp found
    have equal : stored = key := by simpa using find?_some listed
    exact equal ▸ mem_of_find?_eq_some listed
  exact distinct _ (entry found) _ (entry same) rfl

def Reflects (cfg : TopicConfig) (key value : Bytes) : Prop := applyTopicConfigOverride cfg key value = .ok cfg

instance : Decidable (Reflects cfg key value) := inferInstanceAs (Decidable (_ = _))

theorem apply_ok_iff : applyTopicConfigOverride cfg key value = .ok after ↔
    ∃ name setting, findKey key = some name ∧ parseSetting cfg.replicationFactor key value name = .ok setting ∧
      setting.apply cfg = after := by
  unfold applyTopicConfigOverride
  cases findKey key with
  | none => simp
  | some name =>
    cases parsed : parseSetting cfg.replicationFactor key value name with
    | error error | ok setting => simp [Except.map, parsed]

theorem reflects_iff : Reflects cfg key value ↔
    ∃ name setting, findKey key = some name ∧ parseSetting cfg.replicationFactor key value name = .ok setting ∧
      cfg.read name = setting := by
  refine apply_ok_iff.trans (exists_congr fun name => exists_congr fun setting => ?_)
  refine and_congr_right fun _ => and_congr_right fun parsed => ?_
  rw [apply_eq_self_iff, parseSetting_key parsed]

section

variable (altered : applyTopicConfigOverride cfg key value = .ok after)
include altered

theorem replicationFactor_override : after.replicationFactor = cfg.replicationFactor := by
  obtain ⟨name, setting, -, -, rfl⟩ := apply_ok_iff.mp altered
  exact replicationFactor_apply setting

theorem read_override_other (differs : findKey key ≠ some name) : after.read name = cfg.read name := by
  obtain ⟨own, setting, found, parsed, rfl⟩ := apply_ok_iff.mp altered
  refine read_apply_other fun same => differs ?_
  rw [found, same, parseSetting_key parsed]

theorem reflects_override : Reflects after key value := by
  obtain ⟨name, setting, found, parsed, rfl⟩ := apply_ok_iff.mp altered
  refine reflects_iff.mpr ⟨name, setting, found, ?_, ?_⟩
  · rw [replicationFactor_apply]
    exact parsed
  · rw [← parseSetting_key parsed]
    exact read_apply_same setting

end

section

variable (altered : applyTopicConfigOverride cfg key value = .ok after)

include altered

theorem reflects_override_other {text : Bytes}
    (differs : other ≠ key) : Reflects after other text ↔ Reflects cfg other text := by
  rw [reflects_iff, reflects_iff, replicationFactor_override altered]
  refine exists_congr fun name => exists_congr fun setting => and_congr_right fun found => and_congr_right fun _ => ?_
  rw [read_override_other altered fun same => differs (findKey_injective found same)]

theorem reflects_iff_read :
    Reflects cfg key value ↔ ∀ name, cfg.read name = after.read name := by
  obtain ⟨own, setting, found, parsed, rfl⟩ := apply_ok_iff.mp altered
  constructor
  · intro reflected name
    obtain ⟨own', setting', found', parsed', same⟩ := reflects_iff.mp reflected
    obtain rfl := Option.some.inj (found.symm.trans found')
    obtain rfl := Except.ok.inj (parsed.symm.trans parsed')
    rw [apply_eq_self_iff.mpr (by rw [parseSetting_key parsed]; exact same)]
  · intro same
    refine reflects_iff.mpr ⟨own, setting, found, parsed, ?_⟩
    rw [same own, ← parseSetting_key parsed]
    exact read_apply_same setting

end

/-- The configuration is as the values that have been set tell. -/
def TopicCacheEntry.Agrees (entry : TopicCacheEntry) : Prop :=
  ∀ key value, entry.dynamicConfig.find? key = some value → Reflects entry.config key value

/-- When a copy is stored, the configuration is as it was when it was copied, but for the key that is altered. -/
def InStep (pool : Pool) : Event → Prop
  | .start _ => True
  | .advance index _ =>
    ∀ name key value cfgCopy, pool.At index (.writeBack name key value cfgCopy) →
      ∀ entry ∈ pool.shared.topics.find? name, ∀ setting, findKey key ≠ some setting →
        cfgCopy.read setting = entry.config.read setting

def twoAlterations (manager : TopicManager) (name : Bytes) (mine yours : Bytes × Bytes) : Pool where
  shared := manager
  calls := [.running (.lookup name mine.1 mine.2), .running (.lookup name yours.1 yours.2)]

def steps (schedule : List Nat) : List Event := schedule.map fun index => .advance index ()

/-- The configuration reflects two alterations, and agrees with the values that have been set. -/
def ReflectsBoth (name : Bytes) (mine yours : Bytes × Bytes) (manager : TopicManager) : Prop :=
  ∃ entry ∈ manager.topics.find? name, Reflects entry.config mine.1 mine.2 ∧ Reflects entry.config yours.1 yours.2 ∧
    entry.Agrees

/-- But for two keys, the configuration agrees with the values that have been set. -/
def TopicCacheEntry.AgreesBut (mine yours : Bytes) (entry : TopicCacheEntry) : Prop :=
  ∀ key value, key ≠ mine → key ≠ yours → entry.dynamicConfig.find? key = some value → Reflects entry.config key value

section Two

variable {manager : TopicManager} {topic : Bytes} {mine yours : Bytes × Bytes}
  {initial entry : TopicCacheEntry} {copy : TopicConfig} {pool : Pool} {i j : Nat}

theorem reflectsBoth_comm : ReflectsBoth topic mine yours manager ↔ ReflectsBoth topic yours mine manager := by
  unfold ReflectsBoth
  exact exists_congr fun entry => and_congr_right fun _ => and_left_comm

theorem agreesBut_comm : initial.AgreesBut mine.1 yours.1 ↔ initial.AgreesBut yours.1 mine.1 :=
  forall_congr' fun _ => forall_congr' fun _ => forall_comm

structure Written (initial : TopicCacheEntry) (mine : Bytes × Bytes) (entry : TopicCacheEntry) : Prop where
  config : applyTopicConfigOverride initial.config mine.1 mine.2 = .ok entry.config
  dynamic : entry.dynamicConfig = initial.dynamicConfig.insert mine.1 mine.2

theorem find?_writeBack (found : manager.topics.find? topic = some entry) (key value : Bytes) :
    (manager.writeBack topic key value copy).topics.find? topic =
      some { entry with
        config := copy
        dynamicConfig := entry.dynamicConfig.insert key value
        generation := entry.generation + 1 } := by
  refine (find?_modify _ topic).trans ?_
  rw [if_pos rfl, found]
  rfl

theorem reflectsBoth_writeBack_iff (differ : mine.1 ≠ yours.1) (found : manager.topics.find? topic = some entry)
    (written : Written initial mine entry)
    (copied : applyTopicConfigOverride initial.config yours.1 yours.2 = .ok copy ∨
      applyTopicConfigOverride entry.config yours.1 yours.2 = .ok copy) :
    ReflectsBoth topic mine yours (manager.writeBack topic yours.1 yours.2 copy) ↔
      (∀ setting, findKey yours.1 ≠ some setting → copy.read setting = entry.config.read setting) ∧
        initial.AgreesBut mine.1 yours.1 := by
  have own : Reflects copy yours.1 yours.2 := copied.elim reflects_override reflects_override
  have others {key value : Bytes} (not_mine : key ≠ mine.1) (not_yours : key ≠ yours.1) :
      Reflects copy key value ↔ Reflects initial.config key value := by
    rcases copied with before | after
    · exact reflects_override_other before not_yours
    · exact (reflects_override_other after not_yours).trans (reflects_override_other written.config not_mine)
  have first : Reflects copy mine.1 mine.2 ↔
      ∀ setting, findKey yours.1 ≠ some setting → copy.read setting = entry.config.read setting := by
    rcases copied with before | after
    · refine (reflects_override_other before differ).trans ((reflects_iff_read written.config).trans ?_)
      constructor
      · intro same setting not_own
        exact (read_override_other before not_own).trans (same setting)
      · intro same
        refine (reflects_iff_read written.config).mp (reflects_iff.mpr ?_)
        obtain ⟨own_name, value, found_name, parsed, reads⟩ := reflects_iff.mp (reflects_override written.config)
        refine ⟨own_name, value, found_name, ?_, ?_⟩
        · rw [← replicationFactor_override written.config]
          exact parsed
        · have not_own : findKey yours.1 ≠ some own_name := fun yours_too => differ (findKey_injective found_name yours_too)
          rw [← read_override_other before not_own, same own_name not_own, reads]
    · refine iff_of_true ?_ fun setting not_own => read_override_other after not_own
      exact (reflects_override_other after differ).mpr (reflects_override written.config)
  have stored := @find?_writeBack manager topic entry copy found yours.1 yours.2
  constructor
  · rintro ⟨final, present, reflects_mine, -, agrees⟩
    obtain rfl := Option.some.inj (stored.symm.trans present)
    refine ⟨first.mp reflects_mine, fun key value not_mine not_yours set_before => ?_⟩
    refine (others not_mine not_yours).mp (agrees key value ?_)
    dsimp only
    rw [find?_insert, if_neg not_yours, written.dynamic, find?_insert, if_neg not_mine]
    exact set_before
  · rintro ⟨in_step, agrees⟩
    refine ⟨_, stored, first.mpr in_step, own, fun key value set_before => ?_⟩
    dsimp only at set_before ⊢
    rw [find?_insert] at set_before
    split at set_before
    next same =>
      rw [same, ← Option.some.inj set_before]
      exact own
    next not_yours =>
      rw [written.dynamic, find?_insert] at set_before
      split at set_before
      next same =>
        rw [same, ← Option.some.inj set_before]
        exact first.mpr in_step
      next not_mine => exact (others not_mine not_yours).mpr (agrees key value not_mine not_yours set_before)

theorem inStep_of_not_writing (reading : ∀ name key value cfgCopy, ¬pool.At i (.writeBack name key value cfgCopy)) :
    InStep pool (.advance i ()) :=
  fun name key value cfgCopy writing => absurd writing (reading name key value cfgCopy)

theorem run_of_returned (returned : ∀ index point, ¬pool.At index point) (schedule : List Nat) :
    run step pool (steps schedule) = pool ∧ Meets step InStep pool (steps schedule) := by
  induction schedule with
  | nil => exact ⟨rfl, trivial⟩
  | cons index schedule ih =>
    have idle : step pool (.advance index ()) = pool := step_idle (returned index)
    change run step (step pool (.advance index ())) (steps schedule) = pool ∧
      InStep pool (.advance index ()) ∧ Meets step InStep (step pool (.advance index ())) (steps schedule)
    rw [idle]
    exact ⟨ih.1, inStep_of_not_writing fun name key value cfgCopy => returned index _, ih.2⟩

/-- If both calls succeed, nothing is lost in those runs that are in step. -/
def LosesNothingInStep (topic : Bytes) (initial : TopicCacheEntry) (mine yours : Bytes × Bytes) (i j : Nat)
    (pool : Pool) (schedule : List Nat) : Prop :=
  (run step pool (steps schedule)).calls[i]? = some (.returned (.ok ())) →
    (run step pool (steps schedule)).calls[j]? = some (.returned (.ok ())) →
      (ReflectsBoth topic mine yours (run step pool (steps schedule)).shared ↔
        Meets step InStep pool (steps schedule) ∧ initial.AgreesBut mine.1 yours.1)

variable {schedule : List Nat}

theorem losesNothing_comm
    (loses_nothing : LosesNothingInStep topic initial mine yours i j pool schedule) :
    LosesNothingInStep topic initial yours mine j i pool schedule := by
  intro second first
  rw [reflectsBoth_comm, agreesBut_comm]
  exact loses_nothing first second

theorem losesNothing_cons {index : Nat} (in_step : InStep pool (.advance index ()))
    (rest : LosesNothingInStep topic initial mine yours i j (step pool (.advance index ())) schedule) :
    LosesNothingInStep topic initial mine yours i j pool (index :: schedule) := by
  intro first second
  refine (rest first second).trans (and_congr_left fun _ => ?_)
  exact (and_iff_right in_step).symm

theorem losesNothing_of_failed {error : ConfigError}
    (failed : pool.calls[j]? = some (.returned (.error error))) :
    LosesNothingInStep topic initial mine yours i j pool schedule := by
  intro _ second
  have still := @returned_run _ _ _ _ alterTopicConfig pool j _ failed (steps schedule)
  cases still.symm.trans second

/-- The stages of a call, once the other one has returned: it has not copied, or its copy is older or newer than
what the other has stored. -/
inductive Later (topic : Bytes) (initial entry : TopicCacheEntry) (yours : Bytes × Bytes) : Stage → Prop where
  | looking : Later topic initial entry yours (.running (.lookup topic yours.1 yours.2))
  | writing (copy : TopicConfig)
      (copied : applyTopicConfigOverride initial.config yours.1 yours.2 = .ok copy ∨
        applyTopicConfigOverride entry.config yours.1 yours.2 = .ok copy) :
      Later topic initial entry yours (.running (.writeBack topic yours.1 yours.2 copy))
  | failed (error : ConfigError) : Later topic initial entry yours (.returned (.error error))

theorem later_lookup (found : manager.topics.find? topic = some entry) :
    Later topic initial entry yours (manager.lookup topic yours.1 yours.2) := by
  unfold TopicManager.lookup
  rw [found]
  split
  next => exact .failed _
  next =>
    split
    next => exact .failed _
    next =>
      dsimp only
      split
      next => exact .failed _
      next =>
        cases copied : applyTopicConfigOverride entry.config yours.1 yours.2 with
        | error error => exact .failed error
        | ok copy => exact .writing copy (.inr copied)

theorem losesNothing_of_alone (differ : mine.1 ≠ yours.1) (distinct : j ≠ i) {stage : Stage}
    (found : pool.shared.topics.find? topic = some entry) (written : Written initial mine entry)
    (later : Later topic initial entry yours stage) (present : pool.calls[j]? = some stage)
    (alone : ∀ index point, pool.At index point → index = j) :
    LosesNothingInStep topic initial mine yours i j pool schedule := by
  induction schedule generalizing pool stage with
  | nil =>
    intro _ second
    cases later with
    | failed error | looking | writing copy copied => exact absurd (present.symm.trans second) nofun
  | cons index schedule ih =>
    by_cases own : index = j
    · subst own
      cases later with
      | failed error => exact losesNothing_of_failed present
      | looking =>
        refine losesNothing_cons (inStep_of_not_writing fun name key value copy writing => ?_) ?_
        · cases present.symm.trans writing
        · rw [step, step_advance present]
          refine ih found (later_lookup found) (getElem?_set_self (List.getElem?_eq_some_iff.mp present).1) ?_
          intro other point running
          have running := (at_set present).mp running
          split at running
          next same => exact same
          next => exact alone other point running
      | writing copy copied =>
        intro _ _
        have returned : ∀ other point, ¬(step pool (.advance index ())).At other point := by
          intro other point running
          rw [step, step_advance present] at running
          have running := (at_set present).mp running
          split at running
          next => cases running
          next differs => exact differs (alone other point running)
        obtain ⟨final, met⟩ := run_of_returned returned schedule
        have shared : (run step pool (steps (index :: schedule))).shared =
            pool.shared.writeBack topic yours.1 yours.2 copy := by
          refine (congrArg Interleaving.Pool.shared final).trans ?_
          rw [step, step_advance present]
          rfl
        rw [shared, reflectsBoth_writeBack_iff differ found written copied]
        refine and_congr_left fun _ => ⟨fun same => ⟨?_, met⟩, fun meets => ?_⟩
        · intro name key value cfgCopy writing stored listed
          obtain ⟨rfl, rfl, rfl, rfl⟩ :=
            Point.writeBack.inj (Stage.running.inj (Option.some.inj (present.symm.trans writing)))
          obtain rfl := Option.some.inj (found.symm.trans listed)
          exact same
        · exact meets.1 topic yours.1 yours.2 copy present entry found
    · have idle : step pool (.advance index ()) = pool := step_idle fun point running => own (alone index point running)
      refine losesNothing_cons (inStep_of_not_writing fun name key value copy writing => ?_) ?_
      · exact own (alone index _ writing)
      · rw [idle]
        exact ih found later present alone

structure Unstored (topic : Bytes) (initial : TopicCacheEntry) (mine yours : Bytes × Bytes) (i j : Nat)
    (pool : Pool) : Prop where
  found : pool.shared.topics.find? topic = some initial
  first : ∃ stage, pool.calls[i]? = some stage ∧ Later topic initial initial mine stage
  second : ∃ stage, pool.calls[j]? = some stage ∧ Later topic initial initial yours stage
  only : ∀ index point, pool.At index point → index = i ∨ index = j

theorem Unstored.swap (unstored : Unstored topic initial mine yours i j pool) :
    Unstored topic initial yours mine j i pool :=
  ⟨unstored.found, unstored.second, unstored.first, fun index point running => (unstored.only index point running).symm⟩

theorem losesNothing_of_first (differ : mine.1 ≠ yours.1) (distinct : j ≠ i)
    (unstored : Unstored topic initial mine yours i j pool)
    (rest : ∀ pool, Unstored topic initial mine yours i j pool →
      LosesNothingInStep topic initial mine yours i j pool schedule) :
    LosesNothingInStep topic initial mine yours i j pool (i :: schedule) := by
  obtain ⟨stage, present, later⟩ := unstored.first
  obtain ⟨other_stage, other_present, other_later⟩ := unstored.second
  cases later with
  | failed error => exact losesNothing_comm (losesNothing_of_failed present)
  | looking =>
    refine losesNothing_cons (inStep_of_not_writing fun name key value copy writing => ?_) (rest _ ?_)
    · cases present.symm.trans writing
    · rw [step, step_advance present]
      refine ⟨unstored.found, ?_, ?_, fun index point running => ?_⟩
      · exact ⟨_, getElem?_set_self (List.getElem?_eq_some_iff.mp present).1, later_lookup unstored.found⟩
      · exact ⟨_, (getElem?_set_ne (Ne.symm distinct)).trans other_present, other_later⟩
      · have running := (at_set present).mp running
        split at running
        next same => exact .inl same
        next => exact unstored.only index point running
  | writing copy copied =>
    have altered : applyTopicConfigOverride initial.config mine.1 mine.2 = .ok copy := or_self_iff.mp copied
    refine losesNothing_cons ?_ ?_
    · intro name key value cfgCopy writing stored listed setting not_own
      obtain ⟨rfl, rfl, rfl, rfl⟩ :=
        Point.writeBack.inj (Stage.running.inj (Option.some.inj (present.symm.trans writing)))
      obtain rfl := Option.some.inj (unstored.found.symm.trans listed)
      exact read_override_other altered not_own
    · rw [step, step_advance present]
      refine losesNothing_of_alone differ distinct (find?_writeBack unstored.found mine.1 mine.2) ⟨altered, rfl⟩ ?_
        ((getElem?_set_ne (Ne.symm distinct)).trans other_present) fun index point running => ?_
      · cases other_later with
        | looking => exact .looking
        | writing other_copy other_copied => exact .writing other_copy (.inl (or_self_iff.mp other_copied))
        | failed error => exact .failed error
      · have running := (at_set present).mp running
        split at running
        next => cases running
        next differs => exact (unstored.only index point running).resolve_left differs

theorem losesNothing_of_unstored (differ : mine.1 ≠ yours.1) (distinct : j ≠ i) (schedule : List Nat)
    (unstored : Unstored topic initial mine yours i j pool) :
    LosesNothingInStep topic initial mine yours i j pool schedule := by
  induction schedule generalizing pool with
  | nil =>
    intro first _
    obtain ⟨stage, present, later⟩ := unstored.first
    cases later with
    | failed error | looking | writing copy copied => exact absurd (present.symm.trans first) nofun
  | cons index schedule ih =>
    by_cases first : index = i
    · rw [first]
      exact losesNothing_of_first differ distinct unstored fun pool => ih
    · by_cases second : index = j
      · rw [second]
        refine losesNothing_comm (losesNothing_of_first (Ne.symm differ) (Ne.symm distinct) unstored.swap ?_)
        exact fun pool unstored => losesNothing_comm (ih unstored.swap)
      · have neither : ∀ point, ¬pool.At index point := fun point running =>
          (unstored.only index point running).elim first second
        refine losesNothing_cons (inStep_of_not_writing fun name key value copy => neither _) ?_
        rw [step, step_idle neither]
        exact ih unstored

theorem not_returned_of_absent (mine : Bytes × Bytes) (absent : pool.shared.topics.find? topic = none)
    (stage : pool.calls[i]? = some (.running (.lookup topic mine.1 mine.2)) ∨
      ∃ error, pool.calls[i]? = some (.returned (.error error))) (schedule : List Nat) :
    (run step pool (steps schedule)).calls[i]? ≠ some (.returned (.ok ())) := by
  induction schedule generalizing pool with
  | nil =>
    rcases stage with looking | ⟨error, failed⟩
    · exact fun returned => absurd (looking.symm.trans returned) nofun
    · exact fun returned => absurd (failed.symm.trans returned) nofun
  | cons index schedule ih =>
    by_cases running : ∃ point, pool.At index point
    · obtain ⟨point, running⟩ := running
      refine @ih (step pool (.advance index ())) ?_ ?_
      · rw [step, step_advance running]
        cases point with
        | lookup name key value => exact absent
        | writeBack name key value copy =>
          refine (find?_modify _ topic).trans ?_
          split
          next same => rw [← same, absent]; rfl
          next => exact absent
      · rcases stage with looking | ⟨error, failed⟩
        · rw [step, step_advance running]
          by_cases own : index = i
          · subst own
            obtain rfl := Stage.running.inj (Option.some.inj (looking.symm.trans running))
            have fails : ∃ error, pool.shared.lookup topic mine.1 mine.2 = .returned (.error error) := by
              unfold TopicManager.lookup
              rw [absent]
              split
              next => exact ⟨_, rfl⟩
              next =>
                split
                next => exact ⟨_, rfl⟩
                next => exact ⟨_, rfl⟩
            obtain ⟨error, failed⟩ := fails
            refine .inr ⟨error, (getElem?_set_self (List.getElem?_eq_some_iff.mp running).1).trans ?_⟩
            exact congrArg some failed
          · exact .inl ((getElem?_set_ne own).trans looking)
        · exact .inr ⟨error, returned_step failed (.advance index ())⟩
    · change (run step (step pool (.advance index ())) (steps schedule)).calls[i]? ≠ _
      rw [step, step_idle (not_exists.mp running)]
      exact ih absent stage

/-- "preallocate" -/
def kPreallocate : Bytes := [112, 114, 101, 97, 108, 108, 111, 99, 97, 116, 101]

/-- "flush.ms" -/
def kFlushMs : Bytes := [102, 108, 117, 115, 104, 46, 109, 115]

def oneTopic : TopicManager where
  topics := OrderedMap.empty.insert [116] {}

/-- Two successful alterations of different keys are both reflected in those interleavings that are in step, if
the configuration has been right before. -/
theorem both_reflected_iff (manager : TopicManager) (topic : Bytes) (mine yours : Bytes × Bytes)
    (differ : mine.1 ≠ yours.1) (schedule : List Nat)
    (first : (run step (twoAlterations manager topic mine yours) (steps schedule)).calls[0]? =
      some (.returned (.ok ())))
    (second : (run step (twoAlterations manager topic mine yours) (steps schedule)).calls[1]? =
      some (.returned (.ok ()))) :
    ReflectsBoth topic mine yours (run step (twoAlterations manager topic mine yours) (steps schedule)).shared ↔
      Meets step InStep (twoAlterations manager topic mine yours) (steps schedule) ∧
        ∀ entry ∈ manager.topics.find? topic, entry.AgreesBut mine.1 yours.1 := by
  cases found : manager.topics.find? topic with
  | none => exact absurd first (not_returned_of_absent mine found (.inl rfl) schedule)
  | some entry =>
    have unstored : Unstored topic entry mine yours 0 1 (twoAlterations manager topic mine yours) := by
      refine ⟨found, ⟨_, rfl, .looking⟩, ⟨_, rfl, .looking⟩, fun index point running => ?_⟩
      have bound : index < 2 := (List.getElem?_eq_some_iff.mp running).1
      omega
    refine (losesNothing_of_unstored differ (by decide) schedule unstored first second).trans (and_congr_right fun _ => ?_)
    constructor
    · rintro agrees _ ⟨⟩
      exact agrees
    · exact fun agrees => agrees entry rfl

/-- One after the other. -/
theorem both_reflected_in_turn :
    ReflectsBoth [116] (kPreallocate, [49]) (kFlushMs, [53])
        (run step (twoAlterations oneTopic [116] (kPreallocate, [49]) (kFlushMs, [53])) (steps [0, 0, 1, 1])).shared ↔
      Meets step InStep (twoAlterations oneTopic [116] (kPreallocate, [49]) (kFlushMs, [53])) (steps [0, 0, 1, 1]) ∧
        ∀ entry ∈ oneTopic.topics.find? [116], entry.AgreesBut kPreallocate kFlushMs :=
  both_reflected_iff oneTopic [116] (kPreallocate, [49]) (kFlushMs, [53]) (by decide) [0, 0, 1, 1] rfl rfl

/-- Both copy before one of them stores, and the first change is lost. -/
theorem not_both_reflected :
    (run step (twoAlterations oneTopic [116] (kPreallocate, [49]) (kFlushMs, [53])) (steps [0, 1, 0, 1])).calls =
        [.returned (.ok ()), .returned (.ok ())] ∧
      (∀ entry ∈ oneTopic.topics.find? [116], entry.Agrees) ∧
      ¬ReflectsBoth [116] (kPreallocate, [49]) (kFlushMs, [53])
        (run step (twoAlterations oneTopic [116] (kPreallocate, [49]) (kFlushMs, [53])) (steps [0, 1, 0, 1])).shared := by
  refine ⟨rfl, ?_, ?_⟩
  · rintro _ ⟨⟩ key value ⟨⟩
  · rintro ⟨_, ⟨⟩, lost, -⟩
    exact absurd lost (by decide)

end Two

end TorrentMq.Broker.Topics
