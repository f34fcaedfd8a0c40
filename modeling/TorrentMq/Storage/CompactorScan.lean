import TorrentMq.Collections.Recency
import TorrentMq.Storage.Compactor

/-!
# What wins in a scan

The index of a scan holds the keys seen last, and the record that wins for a
key is the last one that was stored for it.
-/

set_option autoImplicit false

namespace TorrentMq.Storage

open Bytes List Recency

/-- A record takes the place of its key if the key is new or among the keys seen last. -/
def Stores (capacity : Nat) (history : List Bytes) (rec : Record) : Prop :=
  rec.key ∉ history ∨ rec.key ∈ (distinct history).take capacity

instance (capacity : Nat) (history : List Bytes) (rec : Record) : Decidable (Stores capacity history rec) :=
  inferInstanceAs (Decidable (_ ∨ _))

def stored (capacity : Nat) (history : List Bytes) : List Record → List Record
  | [] => []
  | rec :: rest =>
    if Stores capacity history rec then rec :: stored capacity (rec.key :: history) rest
    else stored capacity (rec.key :: history) rest

def lastPerKey : List Record → List Record
  | [] => []
  | rec :: rest => if rec.key ∈ rest.map Record.key then lastPerKey rest else rec :: lastPerKey rest

def findLast? (key : Bytes) (records : List Record) : Option Record :=
  records.reverse.find? fun rec => decide (rec.key = key)

theorem stored_concat (capacity : Nat) (history : List Bytes) (records : List Record) (rec : Record) :
    stored capacity history (records ++ [rec]) = stored capacity history records ++
      if Stores capacity ((records.map Record.key).reverse ++ history) rec then [rec] else [] := by
  induction records generalizing history with
  | nil => rfl
  | cons first rest ih =>
    rw [cons_append, stored, stored, ih, map_cons, reverse_cons, append_assoc]
    split
    · rfl
    · rfl

theorem findLast?_concat (key : Bytes) (records : List Record) (rec : Record) :
    findLast? key (records ++ [rec]) = if rec.key = key then some rec else findLast? key records := by
  unfold findLast?
  rw [reverse_append, reverse_singleton, singleton_append, find?_cons]
  split
  next same => rw [if_pos (of_decide_eq_true same)]
  next different => rw [if_neg (of_decide_eq_false different)]

variable {records : List Record}

theorem findLast?_key {key : Bytes} {rec : Record}
    (found : findLast? key records = some rec) : rec.key = key := by
  have same := find?_some found
  exact of_decide_eq_true same

theorem findLast?_isSome {key : Bytes} :
    (findLast? key records).isSome ↔ key ∈ records.map Record.key := by
  unfold findLast?
  rw [find?_isSome]
  simp

theorem stored_keys (capacity : Nat) (records : List Record) (key : Bytes) :
    key ∈ (stored capacity [] records).map Record.key ↔ key ∈ records.map Record.key := by
  induction records using List.reverseRecOn with
  | nil => exact Iff.rfl
  | append_singleton records rec ih =>
    rw [stored_concat, append_nil, map_append, map_append, mem_append, mem_append, ih]
    split
    next => rfl
    next missed =>
      have seen : rec.key ∈ records.map Record.key := by
        rw [Stores, not_or, not_not, mem_reverse] at missed
        exact missed.1
      simp only [map_nil, not_mem_nil, or_false, map_cons, mem_singleton]
      constructor
      · exact .inl
      · intro member
        cases member with
        | inl early => exact early
        | inr same => exact same ▸ seen

theorem stored_subset (capacity : Nat) (history : List Bytes) (records : List Record) :
    stored capacity history records ⊆ records := by
  induction records generalizing history with
  | nil => exact List.Subset.refl _
  | cons rec rest ih =>
    intro other member
    rw [stored] at member
    split at member
    · cases member with
      | head => exact mem_cons_self
      | tail _ member => exact mem_cons_of_mem _ (ih _ member)
    · exact mem_cons_of_mem _ (ih _ member)

theorem mem_lastPerKey {rec : Record} :
    rec ∈ lastPerKey records ↔ findLast? rec.key records = some rec := by
  induction records with
  | nil => exact ⟨fun member => (by cases member), fun found => (by cases found)⟩
  | cons first rest ih =>
    have step : findLast? rec.key (first :: rest) =
        (findLast? rec.key rest).or (if first.key = rec.key then some first else none) := by
      unfold findLast?
      rw [reverse_cons, find?_append, find?_singleton]
      simp only [decide_eq_true_eq]
    rw [lastPerKey, step]
    split
    next later =>
      rw [ih]
      cases found : findLast? rec.key rest with
      | none =>
        have apart : first.key ≠ rec.key := by
          intro same
          have some := findLast?_isSome.mpr (same ▸ later)
          rw [found] at some
          cases some
        rw [if_neg apart]
        rfl
      | some other => rfl
    next only =>
      rw [mem_cons, ih]
      cases found : findLast? rec.key rest with
      | none =>
        rw [Option.none_or]
        constructor
        · intro member
          cases member with
          | inl same =>
            subst same
            exact if_pos rfl
          | inr none => cases none
        · intro equal
          split at equal
          · exact .inl (Option.some.inj equal).symm
          · cases equal
      | some other =>
        have apart : rec ≠ first := by
          intro same
          subst same
          have some := findLast?_isSome.mp (found ▸ rfl : (findLast? rec.key rest).isSome)
          exact only some
        simp [apart]

theorem lastPerKey_keys_nodup (records : List Record) : ((lastPerKey records).map Record.key).Nodup := by
  have sub : ∀ records : List Record, lastPerKey records ⊆ records := by
    intro records rec member
    have found := mem_lastPerKey.mp member
    exact mem_reverse.mp (mem_of_find?_eq_some found)
  induction records with
  | nil => exact nodup_nil
  | cons first rest ih =>
    rw [lastPerKey]
    split
    next => exact ih
    next only =>
      refine nodup_cons.mpr ⟨fun member => only ?_, ih⟩
      obtain ⟨other, inside, same⟩ := mem_map.mp member
      exact mem_map.mpr ⟨other, sub rest inside, same⟩

/-- The index holds the keys of a history that were seen last. -/
structure KeyedRecordIndex.Holds (index : KeyedRecordIndex) (history : List Bytes) : Prop where
  indexed : NodeList.Indexed IndexEntry.key index.lruList fun key => index.map.lookup key
  recent : index.lruList.values.map IndexEntry.key = (distinct history).take index.maxEntries

namespace KeyedRecordIndex.Holds

variable {index : KeyedRecordIndex} {history : List Bytes}

section

variable (holds : index.Holds history)

include holds

theorem lookup_isSome (key : Bytes) :
    (index.map.lookup key).isSome ↔ key ∈ (distinct history).take index.maxEntries := by
  rw [← holds.recent]
  exact holds.indexed.isSome_iff key

theorem find_isSome (key : Bytes) :
    (index.find key).isSome ↔ key ∈ (distinct history).take index.maxEntries := by
  rw [← holds.lookup_isSome]
  unfold find
  cases located : index.map.lookup key with
  | none => rfl
  | some iterator =>
    obtain ⟨entry, here, _⟩ := holds.indexed.find?_eq_some located
    simp [here]

theorem makeRoom (positive : 1 ≤ index.maxEntries) :
    index.makeRoom.maxEntries = index.maxEntries ∧
      NodeList.Indexed IndexEntry.key index.makeRoom.lruList (fun key => index.makeRoom.map.lookup key) ∧
      index.makeRoom.lruList.values.map IndexEntry.key =
        if index.maxEntries ≤ ((distinct history).take index.maxEntries).length then
          ((distinct history).take index.maxEntries).dropLast
        else (distinct history).take index.maxEntries := by
  have length : index.lruList.nodes.length = ((distinct history).take index.maxEntries).length := by
    rw [← holds.recent, length_map, NodeList.values, length_map]
  unfold KeyedRecordIndex.makeRoom
  rw [← length]
  split
  next back last =>
    split
    next =>
      refine ⟨rfl, holds.indexed.popBack last fun key => NodeList.lookup_erase_eq _ _ _, ?_⟩
      rw [← holds.recent]
      unfold NodeList.values NodeList.popBack NodeList.keep
      dsimp only
      rw [map_dropLast, map_dropLast]
    next => exact ⟨rfl, holds.indexed, holds.recent⟩
  next none =>
    have empty : index.lruList.nodes = [] := map_eq_nil_iff.mp (getLast?_eq_none_iff.mp none)
    rw [if_neg (by rw [empty, length_nil]; omega)]
    exact ⟨rfl, holds.indexed, holds.recent⟩

theorem insertOrUpdate (positive : 1 ≤ index.maxEntries) (key : Bytes)
    (offset : Int) (timestamp : Int64) (isTombstone : Bool) :
    (index.insertOrUpdate key offset timestamp isTombstone).Holds (key :: history) ∧
      (index.insertOrUpdate key offset timestamp isTombstone).maxEntries = index.maxEntries := by
  obtain ⟨capacity, size⟩ : ∃ capacity, index.maxEntries = capacity + 1 := ⟨index.maxEntries - 1, by omega⟩
  unfold KeyedRecordIndex.insertOrUpdate
  split
  next iterator found =>
    have keeps : ∀ entry, (IndexEntry.advance offset timestamp isTombstone entry).key = entry.key := by
      intro entry
      unfold IndexEntry.advance
      split
      · rfl
      · rfl
    have hit := (holds.lookup_isSome key).mp (by rw [found]; rfl)
    obtain ⟨entry, member, same⟩ := (holds.indexed.located key iterator).mp found
    have modified : (iterator, IndexEntry.advance offset timestamp isTombstone entry) ∈
        (index.lruList.modify iterator (IndexEntry.advance offset timestamp isTombstone)).nodes :=
      mem_map.mpr ⟨_, member, by simp⟩
    have advanced := holds.indexed.modify iterator keeps
    refine ⟨⟨advanced.splice iterator, ?_⟩, rfl⟩
    dsimp only
    rw [size] at hit
    rw [advanced.splice_keys modified, NodeList.Indexed.modify_keys _ _ keeps, keeps, same, holds.recent, size,
      distinct, take_hit (nodup_distinct history) hit]
  next missing =>
    have miss : key ∉ (distinct history).take index.maxEntries := by
      rw [← holds.lookup_isSome, missing]
      exact Bool.false_ne_true
    obtain ⟨same, indexed, keys⟩ := holds.makeRoom positive
    have absent : index.makeRoom.map.lookup key = none := by
      have none : ¬(index.makeRoom.map.lookup key).isSome := by
        rw [indexed.isSome_iff key, keys]
        split
        · exact fun member => miss (dropLast_subset _ member)
        · exact miss
      exact Option.not_isSome_iff_eq_none.mp none
    refine ⟨⟨indexed.pushFront absent fun other => NodeList.lookup_insert_eq _ _ _ _, ?_⟩, same⟩
    unfold NodeList.values NodeList.pushFront
    dsimp only
    rw [map_cons, map_cons, same]
    rw [size] at miss keys ⊢
    rw [distinct, take_miss miss, ← keys]
    rfl

end

end KeyedRecordIndex.Holds

namespace Compactor

def expired (config : CompactorConfig) (now : Int64) (rec : Record) : Bool :=
  rec.value.isEmpty && canPurgeTombstone config rec.timestamp now

/-- Where a scan is after some records that were not dropped. -/
structure Scanned (capacity : Nat) (records : List Record) (scan : Scan) : Prop where
  holds : scan.index.Holds (records.map Record.key).reverse
  bounded : scan.index.maxEntries = capacity
  won : ∀ key, scan.winners.lookup key = (findLast? key (stored capacity [] records)).map Record.wins

variable {capacity : Nat} {scan : Scan}

theorem Scanned.mem_winners {records : List Record}
    (scanned : Scanned capacity records scan) (key : Bytes) :
    key ∈ scan.winners ↔ key ∈ records.map Record.key := by
  rw [← AList.lookup_isSome, scanned.won, Option.isSome_map, findLast?_isSome, stored_keys]

theorem Scanned.initial (compactor : Compactor) (metrics : CompactionMetrics) :
    Scanned compactor.index.maxEntries [] { index := compactor.reset.index, metrics } := by
  refine ⟨⟨⟨nodup_nil, fun key iterator => ?_⟩, ?_⟩, rfl, fun _ => rfl⟩
  · constructor
    · intro found
      cases found
    · rintro ⟨_, member, _⟩
      cases member
  · exact take_nil.symm

theorem Scanned.record (positive : 1 ≤ capacity) {records : List Record}
    (scanned : Scanned capacity records scan) {config : CompactorConfig} {now : Int64} {rec : Record}
    (live : ¬expired config now rec) :
    Scanned capacity (records ++ [rec]) (scanRecord config keepNewcomer now scan rec) := by
  have bounded := scanned.bounded
  obtain ⟨holds, same⟩ := scanned.holds.insertOrUpdate (bounded ▸ positive) rec.key rec.offset rec.timestamp
    rec.value.isEmpty
  have history : (records ++ [rec]).map Record.key = records.map Record.key ++ [rec.key] := map_append
  have seen : (records.map Record.key ++ [rec.key]).reverse = rec.key :: (records.map Record.key).reverse :=
    reverse_concat
  have held := scanned.holds.find_isSome rec.key
  have insert : ∀ key, (scan.winners.insert rec.key rec.wins).lookup key =
      (if rec.key = key then some rec else findLast? key (stored capacity [] records)).map Record.wins := by
    intro key
    rw [NodeList.lookup_insert_eq, scanned.won]
    by_cases equal : rec.key = key
    · rw [if_pos equal, if_pos equal.symm]
      rfl
    · rw [if_neg equal, if_neg (Ne.symm equal)]
  have known : ∀ key, scan.winners.lookup key = (findLast? key (stored capacity [] records)).map Record.wins :=
    scanned.won
  unfold expired at live
  rw [Bool.and_eq_true] at live
  unfold scanRecord
  dsimp only
  rw [if_neg live]
  split
  next none =>
    rw [none] at held
    have miss : rec.key ∉ (distinct (records.map Record.key).reverse).take capacity := by
      rw [← bounded, ← held]
      exact Bool.false_ne_true
    refine ⟨?_, same.trans bounded, fun key => ?_⟩
    · rw [history, seen]
      exact holds
    · dsimp only
      rw [stored_concat, append_nil]
      by_cases old : rec.key ∈ records.map Record.key
      · rw [if_pos ((scanned.mem_winners rec.key).mpr old), if_neg, append_nil]
        · exact known key
        · rw [Stores, not_or, not_not, mem_reverse]
          exact ⟨old, miss⟩
      · rw [if_neg fun member => old ((scanned.mem_winners rec.key).mp member), if_pos, findLast?_concat]
        · exact insert key
        · exact .inl fun member => old (mem_reverse.mp member)
  next entry found =>
    rw [found] at held
    have hit : rec.key ∈ (distinct (records.map Record.key).reverse).take capacity := by
      rw [← bounded, ← held]
      rfl
    have old : rec.key ∈ records.map Record.key := by
      rw [← mem_reverse]
      exact mem_distinct.mp (mem_of_mem_take hit)
    rw [if_neg (not_not.mpr ((scanned.mem_winners rec.key).mpr old))]
    simp only [keepNewcomer, Bool.false_eq_true, ↓reduceIte]
    refine ⟨?_, same.trans bounded, fun key => ?_⟩
    · rw [history, seen]
      exact holds
    · rw [stored_concat, append_nil, if_pos (.inr hit), findLast?_concat]
      exact insert key

theorem Scanned.foldl (positive : 1 ≤ capacity) {config : CompactorConfig} {now : Int64}
    (records : List Record) {before : List Record} (scanned : Scanned capacity before scan) :
    Scanned capacity (before ++ records.filter fun rec => !expired config now rec)
      (records.foldl (scanRecord config keepNewcomer now) scan) := by
  induction records generalizing before scan with
  | nil =>
    rw [filter_nil, append_nil]
    exact scanned
  | cons rec rest ih =>
    rw [foldl_cons]
    cases dropped : expired config now rec with
    | true =>
      rw [filter_cons_of_neg (by simp [dropped])]
      refine ih ?_
      unfold expired at dropped
      unfold scanRecord
      dsimp only
      rw [if_pos (Bool.and_eq_true_iff.mp dropped)]
      exact ⟨scanned.holds, scanned.bounded, scanned.won⟩
    | false =>
      rw [filter_cons_of_pos (by simp [dropped]), ← singleton_append, ← append_assoc]
      exact ih (scanned.record positive (by rw [dropped]; exact Bool.false_ne_true))

def live (config : CompactorConfig) (now : Int64) (batches : List RecordBatch) : List Record :=
  (batches.flatMap RecordBatch.records).filter fun rec => !expired config now rec

def survivors (config : CompactorConfig) (now : Int64) (batches : List RecordBatch) : List Record :=
  lastPerKey (stored config.maxKeyIndexEntries [] (live config now batches))

theorem winners_perm (compactor : Compactor) (positive : 1 ≤ compactor.config.maxKeyIndexEntries) (now : Int64)
    (batches : List RecordBatch) :
    (compactor.winners keepNewcomer now batches).Perm ((survivors compactor.config now batches).map Record.wins) := by
  have scanned : Scanned compactor.config.maxKeyIndexEntries (live compactor.config now batches)
      (compactor.scan keepNewcomer now batches) := by
    have start := Scanned.initial compactor (inputMetrics batches)
    rw [compactor.sized] at start
    exact start.foldl positive (batches.flatMap RecordBatch.records)
  have unique := (compactor.scan keepNewcomer now batches).winners.nodupKeys
  have perm : (compactor.scan keepNewcomer now batches).winners.entries.Perm
      ((survivors compactor.config now batches).map fun rec => ⟨rec.key, rec.wins⟩) := by
    refine (perm_ext_iff_of_nodup unique.nodup ?_).mpr fun entry => ?_
    · have keys := lastPerKey_keys_nodup (stored compactor.config.maxKeyIndexEntries [] (live compactor.config now batches))
      refine List.Nodup.of_map Sigma.fst ?_
      rw [map_map]
      exact keys
    · obtain ⟨key, winner⟩ := entry
      have lookup : (compactor.scan keepNewcomer now batches).winners.lookup key = some winner ↔
          ⟨key, winner⟩ ∈ (compactor.scan keepNewcomer now batches).winners.entries :=
        mem_dlookup_iff unique
      rw [← lookup, scanned.won, Option.map_eq_some_iff, mem_map]
      constructor
      · rintro ⟨rec, found, rfl⟩
        have same := findLast?_key found
        subst same
        exact ⟨rec, mem_lastPerKey.mpr found, rfl⟩
      · rintro ⟨rec, member, equal⟩
        cases equal
        exact ⟨rec, mem_lastPerKey.mp member, rfl⟩
  have mapped := perm.map Sigma.snd
  rw [map_map] at mapped
  exact mapped

end Compactor

end TorrentMq.Storage
