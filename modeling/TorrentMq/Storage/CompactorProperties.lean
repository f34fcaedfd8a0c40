import Mathlib.Data.List.MinMax
import Mathlib.Data.List.Sort
import TorrentMq.Storage.CompactorScan

/-!
# Result of a compaction

What the packed batches hold of the survivors, and when this is the latest
record of each key.
-/

set_option autoImplicit false

namespace TorrentMq.Storage.Compactor

open Bytes List WinningRecord Int

def renumber (base : Int) : List WinningRecord → List Record
  | [] => []
  | winner :: rest => { winner.record with offset := base } :: renumber (base + 1) rest

def renumberAll (size : Nat) : Nat → List WinningRecord → List Record
  | 0, _ => []
  | _ + 1, [] => []
  | fuel + 1, first :: rest =>
    renumber first.latestOffset ((first :: rest).take size) ++ renumberAll size fuel ((first :: rest).drop size)

section

variable (config : CompactorConfig)

theorem maxPerBatch_pos : 0 < (maxPerBatch config).toInt := by
  unfold maxPerBatch
  split
  · decide
  next some => exact Int32.lt_iff_toInt_lt.mp (Int32.not_le.mp some)

theorem batchSize_pos : 0 < batchSize config := by
  have positive := maxPerBatch_pos config
  unfold batchSize
  omega

theorem batchSize_lt : batchSize config < 2 ^ 31 := by
  have bound := (maxPerBatch config).toInt_lt
  unfold batchSize
  omega

end

/-- A winner that the scan did not drop as an old tombstone. -/
def Fresh (config : CompactorConfig) (now : Int64) (winner : WinningRecord) : Prop :=
  ¬(winner.isTombstone = true ∧ canPurgeTombstone config winner.timestamp now = true)

variable {config : CompactorConfig} {now : Int64}

theorem pack_records (base : Int) {chunk : List WinningRecord}
    (fresh : ∀ winner ∈ chunk, Fresh config now winner) (packing : Packing) :
    (chunk.foldl (packRecord config now base) packing).records =
      packing.records ++ renumber (base + packing.records.length) chunk := by
  induction chunk generalizing packing with
  | nil => exact (append_nil _).symm
  | cons winner rest ih =>
    rw [foldl_cons, ih fun other member => fresh other (mem_cons_of_mem _ member)]
    have kept := fresh winner mem_cons_self
    unfold packRecord
    rw [if_neg kept]
    dsimp only
    rw [renumber, append_assoc, length_append, length_singleton, singleton_append]
    push_cast
    rw [add_assoc]

theorem reservation_neg_iff (config : CompactorConfig) (remaining : Nat) :
    reservation config remaining < 0 ↔ Int32.ofNat remaining < 0 := by
  have positive : 0 < maxPerBatch config := Int32.lt_iff_toInt_lt.mpr (maxPerBatch_pos config)
  unfold reservation
  split
  next => exact Iff.rfl
  next large =>
    constructor
    · intro negative
      exact (Int32.lt_irrefl (Int32.lt_trans positive negative)).elim
    · intro negative
      exact (large (Int32.lt_trans negative positive)).elim

theorem finish_records (packing : Packing) (baseOffset : Int) :
    (packing.finish baseOffset).1.flatMap RecordBatch.records = packing.records := by
  unfold Packing.finish
  split
  next none => exact none.symm
  next => exact append_nil _

theorem ofNat_neg {count : Nat} (large : 2 ^ 31 ≤ count) (small : count < 2 ^ 32) : Int32.ofNat count < 0 := by
  rw [Int32.lt_iff_toInt_lt, Int32.toInt_ofNat', bmod_def, Int32.toInt_zero]
  have same : (count : Int) % Int32.size = count := emod_eq_of_lt (natCast_nonneg _) (by
    change (count : Int) < 4294967296
    omega)
  rw [same, if_neg]
  · change (count : Int) - 4294967296 < 0
    omega
  · change ¬(count : Int) < 2147483648
    omega

theorem ofNat_nonneg {count : Nat} (small : count < 2 ^ 31) : ¬Int32.ofNat count < 0 := by
  rw [Int32.lt_iff_toInt_lt, Int32.toInt_ofNat_of_lt small]
  exact not_lt.mpr (natCast_nonneg count)

variable {sorted : List WinningRecord}

theorem buildOutputBatches_records (fuel : Nat)
    (fresh : ∀ winner ∈ sorted, Fresh config now winner) (small : sorted.length < 2 ^ 31) (metrics : CompactionMetrics) :
    ∃ batches after, buildOutputBatches config now fuel sorted metrics = some (batches, after) ∧
      batches.flatMap RecordBatch.records = renumberAll (batchSize config) fuel sorted := by
  induction fuel generalizing sorted metrics with
  | zero => exact ⟨[], metrics, rfl, rfl⟩
  | succ fuel ih =>
    cases sorted with
    | nil => exact ⟨[], metrics, rfl, rfl⟩
    | cons first rest =>
      have chunkFresh : ∀ winner ∈ (first :: rest).take (batchSize config), Fresh config now winner :=
        fun winner member => fresh winner (mem_of_mem_take member)
      have shorter : ((first :: rest).drop (batchSize config)).length < 2 ^ 31 := by
        rw [length_drop]
        exact (Nat.sub_le _ _).trans_lt small
      have records : (packBatch config now metrics first ((first :: rest).take (batchSize config))).records =
          renumber first.latestOffset ((first :: rest).take (batchSize config)) := by
        unfold packBatch
        rw [pack_records first.latestOffset chunkFresh, nil_append]
        exact congrArg (renumber · _) (add_zero _)
      obtain ⟨batches, after, built, all⟩ := ih
        (fun winner member => fresh winner (mem_of_mem_drop member)) shorter
        ((packBatch config now metrics first ((first :: rest).take (batchSize config))).finish first.latestOffset).2
      rw [buildOutputBatches, if_neg fun negative => ofNat_nonneg small ((reservation_neg_iff config _).mp negative)]
      dsimp only
      rw [built]
      refine ⟨_, after, rfl, ?_⟩
      rw [flatMap_append, all, finish_records, records]
      rfl

theorem buildOutputBatches_none (fuel : Nat)
    (enough : sorted.length ≤ fuel) (large : 2 ^ 31 ≤ sorted.length) (metrics : CompactionMetrics) :
    buildOutputBatches config now fuel sorted metrics = none := by
  induction fuel generalizing sorted metrics with
  | zero => omega
  | succ fuel ih =>
    cases sorted with
    | nil => cases large
    | cons first rest =>
      have bound := batchSize_lt config
      have positive := batchSize_pos config
      rw [buildOutputBatches]
      by_cases negative : reservation config (first :: rest).length < 0
      · rw [if_pos negative]
      · rw [if_neg negative]
        have huge : 2 ^ 32 ≤ (first :: rest).length := by
          refine Nat.le_of_not_lt fun small => negative ?_
          exact (reservation_neg_iff config _).mpr (ofNat_neg large small)
        have length : ((first :: rest).drop (batchSize config)).length =
            (first :: rest).length - batchSize config := length_drop
        dsimp only
        rw [ih (by omega) (by omega)]

def offsetAt (size : Nat) (offsets : List Int) (i : Nat) : Int := offsets.getD (i - i % size) 0 + (i % size : Nat)

section

variable (base : Int) (chunk : List WinningRecord)

theorem renumber_getElem? (i : Nat) :
    (renumber base chunk)[i]? = chunk[i]?.map fun winner => { winner.record with offset := base + i } := by
  induction chunk generalizing base i with
  | nil => rfl
  | cons winner rest ih =>
    cases i with
    | zero => simp [renumber]
    | succ i =>
      rw [renumber, getElem?_cons_succ, getElem?_cons_succ, ih]
      push_cast
      rw [add_assoc, add_comm 1]

theorem renumber_length : (renumber base chunk).length = chunk.length := by
  induction chunk generalizing base with
  | nil => rfl
  | cons winner rest ih => exact congrArg (· + 1) (ih _)

end

theorem renumberAll_nil (size fuel : Nat) : renumberAll size fuel [] = [] := by
  cases fuel with
  | zero => rfl
  | succ fuel => rfl

theorem renumberAll_getElem? {size : Nat} (positive : 0 < size) (fuel : Nat)
    (enough : sorted.length ≤ fuel) (i : Nat) :
    (renumberAll size fuel sorted)[i]? = sorted[i]?.map fun winner =>
      { winner.record with offset := offsetAt size (sorted.map latestOffset) i } := by
  induction fuel generalizing sorted i with
  | zero =>
    rw [length_eq_zero_iff.mp (Nat.le_zero.mp enough)]
    rfl
  | succ fuel ih =>
    cases sorted with
    | nil => rfl
    | cons first rest =>
      have length : (renumber first.latestOffset ((first :: rest).take size)).length =
          min size (first :: rest).length := by rw [renumber_length, length_take]
      rw [renumberAll]
      by_cases here : i < size
      · have within : i % size = i := Nat.mod_eq_of_lt here
        have base : offsetAt size ((first :: rest).map latestOffset) i = first.latestOffset + i := by
          unfold offsetAt
          rw [within, Nat.sub_self]
          rfl
        rw [base]
        by_cases inside : i < (first :: rest).length
        · rw [getElem?_append_left (by rw [length]; exact Nat.lt_min.mpr ⟨here, inside⟩), renumber_getElem?,
            getElem?_take_of_lt here]
        · have short : (first :: rest).drop size = [] := drop_eq_nil_of_le (by omega)
          rw [short, renumberAll_nil, append_nil, renumber_getElem?, getElem?_take_of_lt here]
      · have later : size ≤ i := Nat.le_of_not_lt here
        by_cases inside : size ≤ (first :: rest).length
        · rw [getElem?_append_right (by rw [length]; omega), length, Nat.min_eq_left inside,
            ih (by rw [length_drop]; omega), getElem?_drop, Nat.add_sub_cancel' later]
          have same : offsetAt size (((first :: rest).drop size).map latestOffset) (i - size) =
              offsetAt size ((first :: rest).map latestOffset) i := by
            have mod : (i - size) % size = i % size := (Nat.mod_eq_sub_mod later).symm
            have bound : i % size ≤ i - size := mod ▸ Nat.mod_le _ _
            unfold offsetAt
            rw [mod, getD_eq_getElem?_getD, getD_eq_getElem?_getD, map_drop, getElem?_drop]
            congr 4
            omega
          rw [same]
        · have short : (first :: rest).drop size = [] := drop_eq_nil_of_le (by omega)
          have beyond : (first :: rest)[i]? = none := getElem?_eq_none (by omega)
          rw [short, renumberAll_nil, append_nil, beyond]
          refine getElem?_eq_none ?_
          rw [length]
          omega

def Latest (records : List Record) (rec : Record) : Prop :=
  rec ∈ records ∧ ∀ other ∈ records, other.key = rec.key → other.offset ≤ rec.offset

instance (records : List Record) (rec : Record) : Decidable (Latest records rec) :=
  inferInstanceAs (Decidable (_ ∧ _))

/-- The output has for each key of the input its latest record alone, and nothing if that is a
tombstone past its retention. -/
structure KeepsLatest (dropped : Record → Bool) (input output : List Record) : Prop where
  keys : ∀ rec ∈ output, rec.key ∈ input.map Record.key
  latest : ∀ key ∈ input.map Record.key, ∃ rec, Latest input rec ∧ rec.key = key ∧
    if dropped rec then (output.filter fun other => decide (other.key = key)) = []
    else ∃ kept, (output.filter fun other => decide (other.key = key)) = [kept] ∧
      kept.offset = rec.offset ∧ kept.value = rec.value ∧ kept.headers = rec.headers

variable {records : List Record}

theorem Latest.offset_eq {left right : Record} (leftLatest : Latest records left)
    (rightLatest : Latest records right) (same : left.key = right.key) : left.offset = right.offset :=
  le_antisymm (rightLatest.2 left leftLatest.1 same) (leftLatest.2 right rightLatest.1 same.symm)

variable {rec : Record}

theorem Latest.of_offset_eq {other : Record} (latest : Latest records rec)
    (member : other ∈ records) (same : other.key = rec.key) (offset : other.offset = rec.offset) :
    Latest records other := by
  refine ⟨member, fun third inside equal => ?_⟩
  rw [offset]
  exact latest.2 third inside (equal.trans same)

theorem exists_latest (records : List Record) (member : rec ∈ records) :
    ∃ latest, Latest records latest ∧ latest.key = rec.key := by
  let same := records.filter fun other => decide (other.key = rec.key)
  have inside : rec ∈ same := List.mem_filter.mpr ⟨member, decide_eq_true rfl⟩
  cases found : same.argmax Record.offset with
  | none =>
    rw [argmax_eq_none.mp found] at inside
    cases inside
  | some latest =>
    obtain ⟨present, equal⟩ := List.mem_filter.mp (argmax_mem found)
    have key := of_decide_eq_true equal
    refine ⟨latest, ⟨present, fun other here equal' => ?_⟩, key⟩
    exact le_of_mem_argmax (List.mem_filter.mpr ⟨here, decide_eq_true (equal'.trans key)⟩) found

theorem filter_key_eq_singleton (unique : (records.map Record.key).Nodup)
    (member : rec ∈ records) {key : Bytes} (same : rec.key = key) :
    (records.filter fun other => decide (other.key = key)) = [rec] := by
  subst same
  induction records with
  | nil => cases member
  | cons first rest ih =>
    obtain ⟨absent, unique⟩ := nodup_cons.mp unique
    cases member with
    | head =>
      rw [filter_cons_of_pos (by simp), filter_eq_nil_iff.mpr]
      intro other inside same
      exact absent (mem_map.mpr ⟨other, inside, of_decide_eq_true same⟩)
    | tail _ member =>
      have apart : first.key ≠ rec.key := fun same => absent (mem_map.mpr ⟨rec, member, same.symm⟩)
      rw [filter_cons_of_neg (by simpa using apart)]
      exact ih unique member

theorem KeepsLatest.offset {dropped : Record → Bool} {input output : List Record}
    (keeps : KeepsLatest dropped input output) {kept : Record} (member : kept ∈ output) :
    ∃ rec, Latest input rec ∧ rec.key = kept.key ∧ rec.offset = kept.offset := by
  obtain ⟨rec, latest, same, result⟩ := keeps.latest kept.key (keeps.keys kept member)
  have inside : kept ∈ output.filter fun other => decide (other.key = kept.key) :=
    List.mem_filter.mpr ⟨member, decide_eq_true rfl⟩
  split at result
  next =>
    rw [result] at inside
    cases inside
  next =>
    obtain ⟨only, single, offset, _⟩ := result
    rw [single, mem_singleton] at inside
    exact ⟨rec, latest, same, inside ▸ offset.symm⟩

section Survivors

variable {config : CompactorConfig} {now : Int64} {batches : List RecordBatch}

def input (batches : List RecordBatch) : List Record := batches.flatMap RecordBatch.records

variable {rec : Record}

theorem survivors_live (member : rec ∈ survivors config now batches) :
    rec ∈ input batches ∧ expired config now rec = false := by
  have found := mem_lastPerKey.mp member
  have inside : rec ∈ live config now batches :=
    stored_subset _ _ _ (mem_reverse.mp (mem_of_find?_eq_some found))
  obtain ⟨here, kept⟩ := List.mem_filter.mp inside
  exact ⟨here, by simpa using kept⟩

theorem survivors_keys (member : rec ∈ input batches) (kept : expired config now rec = false) :
    ∃ survivor ∈ survivors config now batches, survivor.key = rec.key := by
  have live : rec ∈ live config now batches := List.mem_filter.mpr ⟨member, by simp [kept]⟩
  have key := (stored_keys config.maxKeyIndexEntries _ rec.key).mpr (mem_map.mpr ⟨rec, live, rfl⟩)
  obtain ⟨survivor, found⟩ := Option.isSome_iff_exists.mp (findLast?_isSome.mpr key)
  have same := findLast?_key found
  rw [← same] at found
  exact ⟨survivor, mem_lastPerKey.mpr found, same⟩

theorem fresh_wins (member : rec ∈ survivors config now batches) : Fresh config now rec.wins := by
  have kept := (survivors_live member).2
  unfold expired at kept
  intro purged
  have both : (rec.value.isEmpty && canPurgeTombstone config rec.timestamp now) = true :=
    Bool.and_eq_true_iff.mpr purged
  rw [kept] at both
  cases both

structure Arranged (config : CompactorConfig) (now : Int64) (batches : List RecordBatch) (sorted : List WinningRecord) :
    Prop where
  perm : sorted.Perm ((survivors config now batches).map Record.wins)
  ascending : sorted.Pairwise fun left right => left.latestOffset ≤ right.latestOffset

def offsets (sorted : List WinningRecord) : List Int := sorted.map latestOffset

variable {sorted : List WinningRecord} {i : Nat} {winner : WinningRecord}

theorem Arranged.wins (arranged : Arranged config now batches sorted) (there : sorted[i]? = some winner) :
    winner.record ∈ survivors config now batches ∧ winner = winner.record.wins := by
  have member := arranged.perm.mem_iff.mp (mem_of_getElem? there)
  obtain ⟨rec, inside, rfl⟩ := mem_map.mp member
  exact ⟨inside, rfl⟩

theorem Arranged.swap (arranged : Arranged config now batches sorted)
    {left right : WinningRecord} (first : sorted[i]? = some left) (second : sorted[i + 1]? = some right)
    (tie : left.latestOffset = right.latestOffset) :
    ∃ swapped, Arranged config now batches swapped ∧ offsets swapped = offsets sorted ∧ swapped[i]? = some right := by
  have split : sorted = sorted.take i ++ left :: right :: sorted.drop (i + 2) := by
    have inside := (List.getElem?_eq_some_iff.mp second).1
    conv_lhs => rw [← take_append_drop i sorted]
    rw [drop_eq_getElem_cons (by omega), drop_eq_getElem_cons inside]
    rw [(List.getElem?_eq_some_iff.mp first).2, (List.getElem?_eq_some_iff.mp second).2]
  have same : offsets (sorted.take i ++ right :: left :: sorted.drop (i + 2)) = offsets sorted := by
    conv_rhs => rw [split]
    unfold offsets
    rw [map_append, map_append, map_cons, map_cons, map_cons, map_cons, tie]
  refine ⟨sorted.take i ++ right :: left :: sorted.drop (i + 2), ⟨?_, ?_⟩, same, ?_⟩
  · refine List.Perm.trans ?_ arranged.perm
    conv_rhs => rw [split]
    exact (List.Perm.swap _ _ _).append_left _
  · have ascending := pairwise_map.mpr arranged.ascending
    rw [← offsets, ← same] at ascending
    exact pairwise_map.mp ascending
  · have length : (sorted.take i).length = i :=
      length_take_of_le (Nat.le_of_lt (List.getElem?_eq_some_iff.mp first).1)
    rw [getElem?_append_right (by omega), length, Nat.sub_self]
    rfl

def packed (config : CompactorConfig) (sorted : List WinningRecord) : List Record :=
  renumberAll (batchSize config) sorted.length sorted

theorem packed_getElem? (config : CompactorConfig) (sorted : List WinningRecord) (i : Nat) :
    (packed config sorted)[i]? = sorted[i]?.map fun winner =>
      { winner.record with offset := offsetAt (batchSize config) (offsets sorted) i } :=
  renumberAll_getElem? (batchSize_pos config) sorted.length (Nat.le_refl _) i

theorem getD_offsets (there : sorted[i]? = some winner) : (offsets sorted).getD i 0 = winner.latestOffset := by
  unfold offsets
  rw [getD_eq_getElem?_getD, getElem?_map, there]
  rfl

variable {dropped : Record → Bool}

theorem Arranged.latest (keeps : KeepsLatest dropped (input batches) (packed config sorted))
    (there : sorted[i]? = some winner) :
    ∃ rec, Latest (input batches) rec ∧ rec.key = winner.record.key ∧
      rec.offset = offsetAt (batchSize config) (offsets sorted) i := by
  have member : { winner.record with offset := offsetAt (batchSize config) (offsets sorted) i } ∈
      packed config sorted := by
    refine mem_of_getElem? (i := i) ?_
    rw [packed_getElem?, there]
    rfl
  obtain ⟨rec, latest, same, offset⟩ := keeps.offset member
  exact ⟨rec, latest, same, offset⟩

theorem offsetAt_succ {size : Nat} (positive : 0 < size) (offsets : List Int)
    (inside : (i + 1) % size ≠ 0) : offsetAt size offsets (i + 1) = offsetAt size offsets i + 1 := by
  have next : (i + 1) % size = i % size + 1 := by
    have whole := Nat.div_add_mod i size
    have bound := Nat.mod_lt i positive
    have shifted : (i + 1) % size = (i % size + 1) % size := by
      conv_lhs => rw [← whole, Nat.add_assoc, Nat.mul_add_mod]
    rw [shifted] at inside ⊢
    by_cases full : i % size + 1 = size
    · rw [full, Nat.mod_self] at inside
      exact (inside rfl).elim
    · exact Nat.mod_eq_of_lt (by omega)
  unfold offsetAt
  rw [next, Nat.add_sub_add_right]
  push_cast
  rw [add_assoc]

section

variable
  (keeps : ∀ sorted, Arranged config now batches sorted → KeepsLatest dropped (input batches) (packed config sorted))
  (arranged : Arranged config now batches sorted)
include keeps arranged

theorem Arranged.strict
    {left right : WinningRecord} (first : sorted[i]? = some left) (second : sorted[i + 1]? = some right)
    (inside : (i + 1) % batchSize config ≠ 0) : left.latestOffset < right.latestOffset := by
  have ordered : left.latestOffset ≤ right.latestOffset := by
    obtain ⟨leftBound, leftEq⟩ := List.getElem?_eq_some_iff.mp first
    obtain ⟨rightBound, rightEq⟩ := List.getElem?_eq_some_iff.mp second
    rw [← leftEq, ← rightEq]
    exact pairwise_iff_getElem.mp arranged.ascending i (i + 1) leftBound rightBound (Nat.lt_succ_self i)
  refine lt_of_le_of_ne ordered fun tie => ?_
  obtain ⟨swapped, arrangedSwapped, same, there⟩ := arranged.swap first second tie
  obtain ⟨late, lateLatest, lateKey, lateOffset⟩ := Arranged.latest (keeps sorted arranged) second
  obtain ⟨early, earlyLatest, earlyKey, earlyOffset⟩ := Arranged.latest (keeps swapped arrangedSwapped) there
  have equal := lateLatest.offset_eq earlyLatest (lateKey.trans earlyKey.symm)
  rw [lateOffset, earlyOffset, same, offsetAt_succ (batchSize_pos config) _ inside] at equal
  omega

theorem Arranged.offsetAt_le (there : sorted[i]? = some winner) :
    offsetAt (batchSize config) (offsets sorted) i ≤ winner.latestOffset := by
  induction i generalizing winner with
  | zero =>
    unfold offsetAt
    rw [Nat.zero_mod, Nat.sub_zero, getD_offsets there]
    exact le_of_eq (add_zero _)
  | succ i ih =>
    by_cases inside : (i + 1) % batchSize config = 0
    · unfold offsetAt
      rw [inside, Nat.sub_zero, getD_offsets there]
      exact le_of_eq (add_zero _)
    · obtain ⟨before, previous⟩ : ∃ before, sorted[i]? = some before :=
        ⟨_, getElem?_eq_getElem (Nat.lt_of_succ_lt (List.getElem?_eq_some_iff.mp there).1)⟩
      rw [offsetAt_succ (batchSize_pos config) _ inside]
      have bound := ih previous
      have strict := Arranged.strict keeps arranged previous there inside
      omega

end

/-- When the latest record of each key survives, with offsets that follow each other within each
batch, and the winners can be counted in 31 bits. -/
structure Undisturbed (config : CompactorConfig) (now : Int64) (batches : List RecordBatch) : Prop where
  latest : ∀ rec ∈ survivors config now batches, Latest (input batches) rec
  consecutive : let ascending := ((survivors config now batches).map Record.offset).insertionSort (· ≤ ·)
    ∀ i < ascending.length, ascending.getD i 0 = offsetAt (batchSize config) ascending i
  countable : (survivors config now batches).length < 2 ^ 31

theorem Arranged.offsets_eq (arranged : Arranged config now batches sorted) :
    offsets sorted = ((survivors config now batches).map Record.offset).insertionSort (· ≤ ·) := by
  have perm : (offsets sorted).Perm ((survivors config now batches).map Record.offset) := by
    have mapped := arranged.perm.map latestOffset
    rw [map_map] at mapped
    exact mapped
  refine List.Perm.eq_of_pairwise ?_ (pairwise_map.mpr arranged.ascending) (pairwise_insertionSort _ _)
    (perm.trans (perm_insertionSort _ _).symm)
  intro left right _ _ forwards backwards
  exact le_antisymm forwards backwards

theorem Undisturbed.keepsLatest (undisturbed : Undisturbed config now batches)
    (arranged : Arranged config now batches sorted) :
    KeepsLatest (expired config now) (input batches) (packed config sorted) := by
  have placed : ∀ i : Nat, (packed config sorted)[i]? = sorted[i]?.map record := by
    intro i
    rw [packed_getElem?]
    cases there : sorted[i]? with
    | none => rfl
    | some winner =>
      obtain ⟨inside, wins⟩ := arranged.wins there
      have bound : i < (offsets sorted).length := by
        unfold offsets
        rw [length_map]
        exact (List.getElem?_eq_some_iff.mp there).1
      have place := getD_offsets there
      have consecutive := undisturbed.consecutive i (arranged.offsets_eq ▸ bound)
      rw [← arranged.offsets_eq, place] at consecutive
      rw [Option.map_some, Option.map_some, ← consecutive, wins]
      rfl
  have same : packed config sorted = sorted.map record := by
    refine ext_getElem? fun i => ?_
    rw [placed, getElem?_map]
  have perm : (packed config sorted).Perm (survivors config now batches) := by
    have mapped := arranged.perm.map record
    rw [map_map] at mapped
    rw [same]
    exact mapped.trans (List.Perm.of_eq (map_id _))
  constructor
  · intro rec member
    exact mem_map.mpr ⟨rec, (survivors_live (perm.mem_iff.mp member)).1, rfl⟩
  · intro key known
    obtain ⟨some, someMember, someKey⟩ := mem_map.mp known
    by_cases kept : ∃ survivor ∈ survivors config now batches, survivor.key = key
    · obtain ⟨survivor, member, equal⟩ := kept
      refine ⟨survivor, undisturbed.latest survivor member, equal, ?_⟩
      rw [(survivors_live member).2, if_neg Bool.false_ne_true]
      have unique := lastPerKey_keys_nodup (stored config.maxKeyIndexEntries [] (live config now batches))
      have only : (survivors config now batches).filter (fun other => decide (other.key = key)) = [survivor] :=
        filter_key_eq_singleton unique member equal
      have single := perm.filter fun other => decide (other.key = key)
      rw [only] at single
      exact ⟨survivor, perm_singleton.mp single, rfl, rfl, rfl⟩
    · obtain ⟨rec, latest, equal⟩ := exists_latest (input batches) someMember
      refine ⟨rec, latest, equal.trans someKey, ?_⟩
      have dropped : expired config now rec = true := by
        cases dropped : expired config now rec with
        | true => rfl
        | false =>
          obtain ⟨survivor, member, same⟩ := survivors_keys latest.1 dropped
          exact (kept ⟨survivor, member, same.trans (equal.trans someKey)⟩).elim
      rw [if_pos dropped]
      refine filter_eq_nil_iff.mpr fun other inside same => kept ?_
      exact ⟨other, perm.mem_iff.mp inside, of_decide_eq_true same⟩

theorem Arranged.undisturbed
    (keeps : ∀ sorted, Arranged config now batches sorted → KeepsLatest dropped (input batches) (packed config sorted))
    (countable : (survivors config now batches).length < 2 ^ 31)
    (arranged : Arranged config now batches sorted) : Undisturbed config now batches := by
  have agree : ∀ {i : Nat} {winner : WinningRecord}, sorted[i]? = some winner →
      Latest (input batches) winner.record ∧
        winner.latestOffset = offsetAt (batchSize config) (offsets sorted) i := by
    intro i winner there
    obtain ⟨inside, wins⟩ := arranged.wins there
    obtain ⟨rec, latest, same, offset⟩ := Arranged.latest (keeps sorted arranged) there
    have low := Arranged.offsetAt_le keeps arranged there
    have high := latest.2 winner.record (survivors_live inside).1 same.symm
    have own : winner.latestOffset = winner.record.offset := congrArg latestOffset wins
    have equal : winner.record.offset = rec.offset := by omega
    exact ⟨latest.of_offset_eq (survivors_live inside).1 same.symm equal, by omega⟩
  refine ⟨fun rec member => ?_, fun i bound => ?_, countable⟩
  · have inside : rec.wins ∈ sorted := arranged.perm.mem_iff.mpr (mem_map_of_mem member)
    obtain ⟨i, there⟩ := mem_iff_getElem?.mp inside
    exact (agree there).1
  · rw [← arranged.offsets_eq] at bound ⊢
    have length : i < sorted.length := by
      unfold offsets at bound
      rwa [length_map] at bound
    have there := getElem?_eq_getElem length
    rw [getD_offsets there]
    exact (agree there).2

theorem exists_arranged (config : CompactorConfig) (now : Int64) (batches : List RecordBatch) :
    ∃ sorted, Arranged config now batches sorted := by
  refine ⟨((survivors config now batches).map Record.wins).mergeSort
    fun left right => decide (left.latestOffset ≤ right.latestOffset), mergeSort_perm _ _, ?_⟩
  refine (pairwise_mergeSort ?_ ?_ _).imp fun ordered => of_decide_eq_true ordered
  · intro first second third early late
    exact decide_eq_true (le_trans (of_decide_eq_true early) (of_decide_eq_true late))
  · intro first second
    rw [Bool.or_eq_true, decide_eq_true_eq, decide_eq_true_eq]
    exact le_total _ _

end Survivors

/-- Every outcome of a compaction is a result with the latest record of each key. -/
def CompactsToLatest (compactor : Compactor) (now : Int64) (batches : List RecordBatch) : Prop :=
  ∀ outcome, compactor.Compacts none now batches outcome → ∃ result, outcome = some result ∧
    KeepsLatest (expired compactor.config now) (input batches) (result.compacted.flatMap RecordBatch.records)

variable {batches : List RecordBatch}

theorem compacts_iff {compactor : Compactor} (positive : 1 ≤ compactor.config.maxKeyIndexEntries) {outcome : Option CompactResult} :
    compactor.Compacts none now batches outcome ↔ ∃ sorted, Arranged compactor.config now batches sorted ∧
      outcome = compactor.pack keepNewcomer now batches sorted := by
  have perm := winners_perm compactor positive now batches
  constructor
  · rintro ⟨sorted, same, ascending, result⟩
    exact ⟨sorted, ⟨same.trans perm, ascending⟩, result⟩
  · rintro ⟨sorted, arranged, result⟩
    exact ⟨sorted, arranged.perm.trans perm.symm, arranged.ascending, result⟩

theorem pack_records_iff (compactor : Compactor) (now : Int64) (batches : List RecordBatch)
    (arranged : Arranged compactor.config now batches sorted) (good : List Record → Prop) :
    (∃ result, compactor.pack keepNewcomer now batches sorted = some result ∧
        good (result.compacted.flatMap RecordBatch.records)) ↔
      sorted.length < 2 ^ 31 ∧ good (packed compactor.config sorted) := by
  unfold pack
  split
  next none =>
    subst none
    have empty : sorted = [] := perm_nil.mp arranged.perm
    subst empty
    constructor
    · rintro ⟨result, same, holds⟩
      cases same
      exact ⟨by decide, holds⟩
    · rintro ⟨_, holds⟩
      exact ⟨_, rfl, holds⟩
  next =>
    dsimp only
    have fresh : ∀ winner ∈ sorted, Fresh compactor.config now winner := by
      intro winner member
      obtain ⟨rec, inside, rfl⟩ := mem_map.mp (arranged.perm.mem_iff.mp member)
      exact fresh_wins inside
    by_cases small : sorted.length < 2 ^ 31
    · obtain ⟨built, after, same, records⟩ := buildOutputBatches_records sorted.length fresh small
        { (compactor.scan keepNewcomer now batches).metrics with
          uniqueKeys := (compactor.scan keepNewcomer now batches).winners.keys.length
          lruEvictions := (compactor.scan keepNewcomer now batches).index.evictions }
      rw [same]
      simp only [Option.bind_eq_bind, Option.bind_some, Option.pure_def, Option.some.injEq, exists_eq_left', records,
        small, true_and]
      rfl
    · rw [buildOutputBatches_none sorted.length (Nat.le_refl _) (Nat.le_of_not_lt small)]
      constructor
      · rintro ⟨result, none, _⟩
        cases none
      · intro ⟨less, _⟩
        exact (small less).elim

theorem compactsToLatest_iff_arranged (compactor : Compactor) (positive : 1 ≤ compactor.config.maxKeyIndexEntries)
    (now : Int64) (batches : List RecordBatch) :
    compactor.CompactsToLatest now batches ↔
      ∀ sorted, Arranged compactor.config now batches sorted → sorted.length < 2 ^ 31 ∧
        KeepsLatest (expired compactor.config now) (input batches) (packed compactor.config sorted) := by
  constructor
  · intro compacts sorted arranged
    exact (pack_records_iff compactor now batches arranged _).mp
      (compacts _ ((compacts_iff positive).mpr ⟨sorted, arranged, rfl⟩))
  · intro kept outcome compacts
    obtain ⟨sorted, arranged, rfl⟩ := (compacts_iff positive).mp compacts
    exact (pack_records_iff compactor now batches arranged _).mpr (kept sorted arranged)

theorem Arranged.length_eq (arranged : Arranged config now batches sorted) :
    sorted.length = (survivors config now batches).length :=
  arranged.perm.length_eq.trans (length_map _)

/-- A compaction keeps the latest record of each key exactly when these are the ones that survive, with
offsets that follow each other within each batch. -/
theorem compactsToLatest_iff (compactor : Compactor) (positive : 1 ≤ compactor.config.maxKeyIndexEntries) (now : Int64)
    (batches : List RecordBatch) :
    compactor.CompactsToLatest now batches ↔ Undisturbed compactor.config now batches := by
  rw [compactsToLatest_iff_arranged compactor positive]
  constructor
  · intro kept
    obtain ⟨sorted, arranged⟩ := exists_arranged compactor.config now batches
    exact Arranged.undisturbed (fun other order => (kept other order).2)
      (arranged.length_eq ▸ (kept sorted arranged).1) arranged
  · intro undisturbed sorted arranged
    exact ⟨arranged.length_eq ▸ undisturbed.countable, undisturbed.keepsLatest arranged⟩

/-- One key written twice, in the order of the offsets. -/
theorem compactsToLatest_rewritten :
    let compactor := create {}
    let batches : List RecordBatch := [{ records := [
      { key := [107], value := [1], offset := 0 }, { key := [107], value := [2], offset := 1 }] }]
    1 ≤ compactor.config.maxKeyIndexEntries ∧ compactor.CompactsToLatest 0 batches := by
  refine ⟨by decide, (compactsToLatest_iff (create {}) (by decide) 0 _).mpr ⟨?_, ?_, ?_⟩⟩
  · exact @of_decide_eq_true _ (decidableBAll _ _) rfl
  · decide
  · decide

/-- A value, and a tombstone for its key that is older than the retention: the value comes back. -/
theorem not_compactsToLatest_deleted :
    ¬(create {}).CompactsToLatest 86400000 [{ records := [
      { key := [107], value := [1], offset := 0, timestamp := 86400000 },
      { key := [107], value := [], offset := 1 }] }] := by
  rw [compactsToLatest_iff_arranged (create {}) (by decide)]
  intro kept
  obtain ⟨sorted, arranged⟩ := exists_arranged (create {}).config 86400000 [{ records := [
    { key := [107], value := [1], offset := 0, timestamp := 86400000 }, { key := [107], value := [], offset := 1 }] }]
  have undisturbed := Arranged.undisturbed (fun other order => (kept other order).2)
    (arranged.length_eq ▸ (kept sorted arranged).1) arranged
  have latest := undisturbed.latest { key := [107], value := [1], offset := 0, timestamp := 86400000 }
  revert latest
  decide

end TorrentMq.Storage.Compactor
