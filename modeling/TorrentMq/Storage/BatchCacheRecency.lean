import TorrentMq.Storage.BatchCacheProperties

/-! Which entries the batch cache evicts, and which ones leave it with a range of offsets. -/

set_option autoImplicit false

namespace TorrentMq.Storage.BatchCache

open List Option

variable {cache stored : BatchCache} {key : BatchCacheKey} {batch : RecordBatch}

def keys (cache : BatchCache) : List BatchCacheKey := cache.lruList.values.map LruNode.key

def store (cache : BatchCache) (key : BatchCacheKey) (batch : RecordBatch) (ts : Int64) : BatchCache :=
  match cache.find? key with
  | some (iterator, old) => cache.replace iterator old batch ts
  | none => cache.insert key batch ts

theorem Kept.store (kept : cache.Kept) (ts : Int64) : (cache.store key batch ts).Kept := by
  unfold BatchCache.store
  split
  next iterator old found => exact kept.replace (kept.find?_eq_some found).1 batch ts
  next missing => exact kept.insert (kept.find?_eq_none missing) batch ts

def evictLruKeys (targetBytes : Int64) : Nat → BatchCache → List BatchCacheKey
  | 0, _ => []
  | fuel + 1, cache =>
    if targetBytes < cache.totalBytes then
      match cache.lruList.back? with
      | none => []
      | some back => back.key :: evictLruKeys targetBytes fuel (cache.evictBack back)
    else []

def evictedOver (stored : BatchCache) : List BatchCacheKey :=
  if 0 < stored.maxBytes ∧ stored.maxBytes < stored.totalBytes then
    evictLruKeys (evictionTarget stored.maxBytes) stored.lruList.nodes.length stored
  else []

/-- The nodes from the front on, as far as they are within the target. -/
def Fits (targetBytes : Int64) (front : List LruNode) : Prop := Int64.ofInt (front.map batchBytes).sum ≤ targetBytes

theorem Kept.evictLruKeys (targetBytes : Int64) (fuel : Nat) (kept : cache.Kept)
    (enough : cache.lruList.nodes.length ≤ fuel) :
    ∃ left gone, cache.lruList.values = left ++ gone ∧
      (BatchCache.evictLruLoop targetBytes fuel cache).lruList.values = left ∧
      BatchCache.evictLruKeys targetBytes fuel cache = (gone.map LruNode.key).reverse ∧
      (left = [] ∨ Fits targetBytes left) ∧
      ∀ front back, cache.lruList.values = front ++ back → left.length < front.length → ¬Fits targetBytes front := by
  induction fuel generalizing cache with
  | zero =>
    have none : cache.lruList.values = [] :=
      map_eq_nil_iff.mpr (length_eq_zero_iff.mp (Nat.le_zero.mp enough))
    refine ⟨[], [], none, none, rfl, .inl rfl, fun front back split longer => ?_⟩
    rw [none] at split
    rw [(append_eq_nil_iff.mp split.symm).1] at longer
    exact absurd longer (Nat.lt_irrefl 0)
  | succ fuel ih =>
    have total : Fits targetBytes cache.lruList.values ↔ cache.totalBytes ≤ targetBytes := by
      rw [kept.counted]
      rfl
    unfold BatchCache.evictLruLoop BatchCache.evictLruKeys
    by_cases large : targetBytes < cache.totalBytes
    · rw [if_pos large, if_pos large]
      cases last : cache.lruList.back? with
      | none =>
        have none : cache.lruList.values = [] := getLast?_eq_none_iff.mp last
        refine ⟨[], [], none, none, rfl, .inl rfl, fun front back split longer => ?_⟩
        rw [none] at split
        rw [(append_eq_nil_iff.mp split.symm).1] at longer
        exact absurd longer (Nat.lt_irrefl 0)
      | some back =>
        obtain ⟨iterator, nodes⟩ := NodeList.back?_eq_some last
        have values : cache.lruList.values = (cache.evictBack back).lruList.values ++ [back] := by
          unfold NodeList.values
          rw [nodes, map_append]
          rfl
        obtain ⟨left, gone, split, after, evicted, fits, longer⟩ := ih (kept.evictBack last) (by
          rw [nodes, length_append] at enough
          exact Nat.le_of_succ_le_succ enough)
        refine ⟨left, gone ++ [back], by rw [values, split, append_assoc], after, ?_, fits, ?_⟩
        · dsimp only
          rw [evicted, map_append, reverse_append]
          rfl
        · intro front rest whole more
          rcases eq_nil_or_concat rest with rfl | ⟨init, final, rfl⟩
          · rw [append_nil] at whole
            rw [← whole, total]
            exact Int64.not_le.mpr large
          · rw [values, concat_eq_append, ← append_assoc] at whole
            exact longer front init (append_inj_left' whole rfl) more
    · rw [if_neg large, if_neg large]
      refine ⟨cache.lruList.values, [], (append_nil _).symm, rfl, rfl,
        .inr (total.mpr (Int64.not_lt.mp large)), fun front back split longer => ?_⟩
      rw [split, length_append] at longer
      omega

/-- A key that is kept when the capacity is looked at: it is not exceeded, or the nodes up to one with
the key, or to one behind it, are within the target. -/
def Stays (stored : BatchCache) (key : BatchCacheKey) : Prop :=
  ¬(0 < stored.maxBytes ∧ stored.maxBytes < stored.totalBytes) ∨
    ∃ front back, stored.lruList.values = front ++ back ∧ key ∈ front.map LruNode.key ∧
      Fits (evictionTarget stored.maxBytes) front

theorem Kept.evictedOver (kept : stored.Kept) :
    stored.keys = stored.evictOver.keys ++ stored.evictedOver.reverse ∧
      ∀ key ∈ stored.keys, key ∈ stored.evictedOver ↔ ¬stored.Stays key := by
  unfold BatchCache.evictOver BatchCache.evictedOver
  by_cases large : 0 < stored.maxBytes ∧ stored.maxBytes < stored.totalBytes
  · obtain ⟨left, gone, values, after, evicted, fits, longer⟩ :=
      kept.evictLruKeys (evictionTarget stored.maxBytes) stored.lruList.nodes.length le_rfl
    rw [if_pos large, if_pos large, evicted, reverse_reverse]
    unfold keys BatchCache.evictLru
    rw [after, values, map_append]
    refine ⟨rfl, fun key member => ?_⟩
    have once := kept.consistent.once
    rw [values, map_append] at once
    rw [mem_reverse]
    constructor
    · rintro leaves (within | ⟨front, back, split, inside, fit⟩)
      · exact within large
      · have short : front.length ≤ left.length := Nat.not_lt.mp fun more => longer front back split more fit
        have sub : front <+: left := prefix_of_prefix_length_le ⟨back, split.symm⟩ ⟨gone, values.symm⟩ short
        exact (nodup_append.mp once).2.2 key ((sub.map LruNode.key).subset inside) key leaves rfl
    · intro stays
      refine (mem_append.mp member).resolve_left fun inside => stays (.inr ⟨left, gone, values, inside, ?_⟩)
      refine fits.resolve_left fun none => ?_
      rw [none] at inside
      exact not_mem_nil inside
  · rw [if_neg large, if_neg large]
    refine ⟨(append_nil _).symm, fun key _ => iff_of_false not_mem_nil fun leaves => leaves (.inl large)⟩

structure Used where
  cache : BatchCache
  accesses : List BatchCacheKey := []

inductive Use where
  | get (key : BatchCacheKey) (nowMs : Int64)
  | put (key : BatchCacheKey) (batch : RecordBatch) (nowMs : Int64)

def use (state : Used) : Use → Used
  | .get key nowMs =>
    { cache := (state.cache.get key nowMs).2
      accesses := if (state.cache.get key nowMs).1.isSome then key :: state.accesses else state.accesses }
  | .put key batch nowMs => { cache := state.cache.put key batch nowMs, accesses := key :: state.accesses }

def EvictsLru (state : Used) : Use → Prop
  | .get .. => True
  | .put key batch nowMs =>
    ∀ earlier evicted later, (state.cache.store key batch nowMs).evictedOver = earlier ++ evicted :: later →
      ∀ other ∈ (state.cache.store key batch nowMs).keys, other ∉ earlier → other ≠ evicted →
        (key :: state.accesses).idxOf other < (key :: state.accesses).idxOf evicted

def FetchesKept (state : Used) : Use → Prop
  | .get .. => True
  | .put key batch nowMs =>
    ∀ front older back, (state.cache.store key batch nowMs).keys = front ++ older :: back →
      (state.cache.store key batch nowMs).Stays older ∨
        ∀ newer ∈ front, (key :: state.accesses).idxOf newer < (key :: state.accesses).idxOf older

theorem evictsLru_iff_fetchesKept {state : Used} (kept : state.cache.Kept) (call : Use) :
    EvictsLru state call ↔ FetchesKept state call := by
  cases call with
  | get => exact Iff.rfl
  | put key batch nowMs =>
    unfold EvictsLru FetchesKept
    dsimp only
    have stays : (state.cache.store key batch nowMs).Kept := kept.store nowMs
    obtain ⟨keys, leaves⟩ := stays.evictedOver
    have once := stays.consistent.once
    generalize state.cache.store key batch nowMs = stored at keys leaves once ⊢
    change stored.keys.Nodup at once
    constructor
    · intro oldest front older back split
      refine or_iff_not_imp_left.mpr fun gone newer inside => ?_
      have member : older ∈ stored.keys := split ▸ mem_append_right front mem_cons_self
      obtain ⟨earlier, later, order⟩ := append_of_mem ((leaves older member).mpr gone)
      rw [order, reverse_append, reverse_cons, append_assoc, singleton_append,
        ← append_assoc, split] at keys
      rw [split] at once
      obtain ⟨alone, apart⟩ := nodup_cons.mp (nodup_middle.mp once)
      obtain ⟨fronts, -, backs⟩ := (append_cons_inj_of_notMem
        (fun there => alone (mem_append_left _ there)) fun there => alone (mem_append_right _ there)).mp keys
      refine oldest earlier older later order newer (split ▸ mem_append_left _ inside) ?_ ?_
      · intro sooner
        refine (nodup_append.mp apart).2.2 newer inside newer ?_ rfl
        rw [backs]
        exact mem_reverse.mpr sooner
      · rintro rfl
        exact alone (mem_append_left _ inside)
    · intro condition earlier evicted later order other member stays different
      rw [order, reverse_append, reverse_cons, append_assoc, singleton_append,
        ← append_assoc] at keys
      have gone : ¬stored.Stays evicted := by
        refine (leaves evicted ?_).mp ?_
        · rw [keys]
          simp
        · rw [order]
          simp
      refine (condition _ evicted _ keys).resolve_left gone other ?_
      rw [keys] at member
      refine (mem_append.mp member).resolve_right fun behind => ?_
      rcases mem_cons.mp behind with same | sooner
      · exact different same
      · exact stays (mem_reverse.mp sooner)

theorem Kept.use {state : Used} (kept : state.cache.Kept) (call : Use) : (use state call).cache.Kept := by
  cases call with
  | get key nowMs => exact kept.get key nowMs
  | put key batch nowMs => exact (kept.put key batch nowMs).1

/-- Evictions are those of the least recently used just where the entries that were fetched out of
their turn stay. -/
theorem evictsLru_iff (maxBytes : Int64) (calls : List Use) :
    Runs.Meets use EvictsLru ⟨create maxBytes, []⟩ calls ↔ Runs.Meets use FetchesKept ⟨create maxBytes, []⟩ calls :=
  Runs.meets_iff_meets (fun state => state.cache.Kept) (fun _ call kept => evictsLru_iff_fetchesKept kept call)
    (fun _ call _ kept => kept.use call) (Kept.create maxBytes) calls

/-- Room for two bytes: an entry is put, then another one, the first is fetched, and a third is put. -/
theorem not_evictsLru_fetched : ¬∀ (maxBytes : Int64) (calls : List Use),
    Runs.Meets use EvictsLru ⟨create maxBytes, []⟩ calls := by
  intro claim
  have meets := claim 2 [.put { baseOffset := 0 } {} 0, .put { baseOffset := 1 } {} 0, .get { baseOffset := 0 } 0,
    .put { baseOffset := 2 } {} 0]
  have later := meets.2.2.2.1 [] { baseOffset := 0 } [{ baseOffset := 1 }] (by decide +kernel) { baseOffset := 1 }
    (by decide +kernel) not_mem_nil (by decide)
  exact absurd later (by decide +kernel)

theorem Kept.find?_iff (kept : cache.Kept) {iterator : Nat} {node : LruNode} :
    cache.find? key = some (iterator, node) ↔ (iterator, node) ∈ cache.lruList.nodes ∧ node.key = key := by
  constructor
  · exact kept.find?_eq_some
  · rintro ⟨member, rfl⟩
    have located := (kept.indexed.located node.key iterator).mpr ⟨node, member, rfl⟩
    unfold find?
    rw [located]
    dsimp only [bind_eq_bind, bind_some]
    rw [NodeList.find?_eq_some_iff.mpr member]
    rfl

theorem mem_invalidateLoop (goes : BatchCacheKey → Bool) (rest : List (Nat × LruNode)) (removed : Nat)
    (kept : cache.Kept) (ahead : rest.Sublist cache.lruList.nodes) {node : Nat × LruNode} :
    node ∈ (invalidateLoop goes rest (removed, cache)).2.lruList.nodes ↔
      node ∈ cache.lruList.nodes ∧ ¬(node ∈ rest ∧ goes node.2.key = true) := by
  induction rest generalizing cache removed with
  | nil => simp [invalidateLoop]
  | cons first rest ih =>
    obtain ⟨iterator, value⟩ := first
    have member := ahead.subset mem_cons_self
    unfold invalidateLoop
    by_cases leaves : goes value.key = true
    · rw [if_pos leaves, ih _ (kept.remove member) (NodeList.ahead_erase ahead)]
      have erased : node ∈ (cache.remove iterator value).lruList.nodes ↔
          node ∈ cache.lruList.nodes ∧ node.1 ≠ iterator := by
        unfold remove NodeList.erase NodeList.keep
        rw [List.mem_filter, decide_eq_true_eq]
      rw [erased, mem_cons, or_and_right, not_or, and_assoc, and_congr_right_iff]
      intro inside
      refine and_congr_left fun _ => not_congr ⟨?_, ?_⟩
      · intro same
        obtain ⟨other, stored⟩ := node
        cases same
        rw [NodeList.mem_unique inside member]
        exact ⟨rfl, leaves⟩
      · rintro ⟨rfl, -⟩
        rfl
    · rw [if_neg leaves, ih _ kept ((sublist_cons_self _ _).trans ahead), mem_cons]
      refine and_congr_right fun _ => not_congr (and_congr_left fun due => (or_iff_right ?_).symm)
      rintro rfl
      exact leaves due

theorem Kept.find?_invalidateIf (kept : cache.Kept) (goes : BatchCacheKey → Bool) (asBatch : Bool) :
    (cache.invalidateIf goes asBatch).2.find? key = if goes key then none else cache.find? key := by
  have nodes : ∀ node, node ∈ (cache.invalidateIf goes asBatch).2.lruList.nodes ↔
      node ∈ cache.lruList.nodes ∧ ¬goes node.2.key = true := by
    intro node
    have walked := @mem_invalidateLoop cache goes cache.lruList.nodes 0 kept (List.Sublist.refl _) node
    have same := walked.trans (and_congr_right fun inside => not_congr (and_iff_right inside))
    unfold BatchCache.invalidateIf
    dsimp only
    split
    · exact same
    · exact same
  have after := kept.invalidateIf goes asBatch
  refine ext fun found => ?_
  obtain ⟨iterator, node⟩ := found
  rw [after.find?_iff, nodes]
  by_cases leaves : goes key = true
  · rw [if_pos leaves]
    refine iff_of_false ?_ fun found => by cases found
    rintro ⟨⟨-, stays⟩, rfl⟩
    exact stays leaves
  · rw [if_neg leaves, kept.find?_iff, and_assoc]
    refine and_congr_right fun _ => and_iff_right_of_imp ?_
    rintro rfl
    exact leaves

theorem get_fst (nowMs : Int64) : (cache.get key nowMs).1 = (cache.find? key).map fun found => found.2.entry.batch := by
  unfold get
  cases cache.find? key <;> rfl

/-- Behind the invalidation of a range, a key of the partition with its base offset in the range is not
there, and every other key has what it had before. -/
theorem get_invalidateOffsetRange (maxBytes : Int64) (calls : List Call) (topicId : UInt64) (partitionId : Int32)
    (startOffset endOffset : Int) (key : BatchCacheKey) (nowMs : Int64) :
    (((Runs.run step (create maxBytes) calls).invalidateOffsetRange topicId partitionId startOffset endOffset).2.get
        key nowMs).1 =
      if key.topicId = topicId ∧ key.partitionId = partitionId ∧ startOffset ≤ key.baseOffset ∧
          key.baseOffset < endOffset then none
      else ((Runs.run step (create maxBytes) calls).get key nowMs).1 := by
  unfold invalidateOffsetRange
  rw [get_fst, get_fst, ((Kept.create maxBytes).run calls).find?_invalidateIf]
  by_cases leaves : key.topicId = topicId ∧ key.partitionId = partitionId ∧ startOffset ≤ key.baseOffset ∧
      key.baseOffset < endOffset
  · rw [if_pos leaves, if_pos (decide_eq_true leaves)]
    rfl
  · rw [if_neg leaves, if_neg (fun due => leaves (of_decide_eq_true due))]

/-- A batch of two records that begins in front of the range. -/
theorem not_invalidates_overlapping : ¬∀ (maxBytes : Int64) (calls : List Call) (topicId : UInt64)
    (partitionId : Int32) (startOffset endOffset : Int),
    let before := Runs.run step (create maxBytes) calls
    let after := (before.invalidateOffsetRange topicId partitionId startOffset endOffset).2
    (∀ key nowMs batch, (after.get key nowMs).1 = some batch → key.topicId = topicId → key.partitionId = partitionId →
      ∀ record ∈ batch.records, ¬(startOffset ≤ record.offset ∧ record.offset < endOffset)) ∧
    ∀ key nowMs batch, (before.get key nowMs).1 = some batch →
      (∀ record ∈ batch.records, ¬(startOffset ≤ record.offset ∧ record.offset < endOffset)) →
        (after.get key nowMs).1 = some batch := by
  intro claim
  have stale := (claim 1000 [.put { baseOffset := 0 } { records := [{ offset := 0 }, { offset := 1 }] } 0] 0 0 1 2).1
    { baseOffset := 0 } 0 { records := [{ offset := 0 }, { offset := 1 }] } (by decide +kernel) rfl rfl { offset := 1 }
    (by decide)
  exact stale ⟨by decide, by decide⟩

end TorrentMq.Storage.BatchCache
