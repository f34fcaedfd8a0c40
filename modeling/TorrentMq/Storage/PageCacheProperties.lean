import TorrentMq.Storage.PageCache

/-!
# Consistency and eviction order of the page cache

Every call keeps the map, the list and the two counters in step, and the list
in the order of the last accesses, so that evictions take the oldest page.
-/

set_option autoImplicit false

namespace TorrentMq.Storage.PageCache

open Bytes List NodeList PageCache

def cachedBytes (cache : PageCache) : Nat :=
  tableTotal (fun entry : CachedPage × Nat => entry.1.size.toNat) cache.cache

/-- Map and list have the same keys once each and the iterators lead from one to the other; the
counters are the number of pages and, as far as 64 bits hold it, the sum of their sizes. -/
structure Consistent (cache : PageCache) : Prop where
  sameKeys : cache.cache.keys.Perm cache.lruList.values
  once : cache.lruList.values.Nodup
  iterators : ∀ key page iterator, cache.cache.lookup key = some (page, iterator) →
    cache.lruList.find? iterator = some key
  counted : cache.pageCount = cache.lruList.values.length
  summed : cache.memoryUsed = UInt64.ofNat cache.cachedBytes
  exact : cache.cachedBytes < 2 ^ 64 → cache.memoryUsed.toNat = cache.cachedBytes

structure Kept (cache : PageCache) : Prop where
  indexed : NodeList.Indexed id cache.lruList fun key => (cache.cache.lookup key).map Prod.snd
  counted : cache.pageCount = cache.lruList.values.length
  summed : cache.memoryUsed = UInt64.ofNat cache.cachedBytes

variable {cache : PageCache}

theorem Kept.consistent (kept : cache.Kept) : cache.Consistent where
  sameKeys := by
    have perm := kept.indexed.perm_keys
    rw [map_id] at perm
    exact perm
  once := by
    have distinct := kept.indexed.distinct
    rw [map_id] at distinct
    exact distinct
  iterators := by
    intro key page iterator found
    have located : (cache.cache.lookup key).map Prod.snd = some iterator := by rw [found]; rfl
    obtain ⟨value, here, same⟩ := kept.indexed.find?_eq_some located
    cases same
    exact here
  counted := kept.counted
  summed := kept.summed
  exact fits := by
    rw [kept.summed]
    exact UInt64.toNat_ofNat_of_lt' fits

theorem Kept.start (config : PageCacheConfig) : (start config).cache.Kept where
  indexed := by
    refine ⟨nodup_nil, fun key iterator => ?_⟩
    constructor
    · intro found
      cases found
    · intro ⟨_, member, _⟩
      cases member
  counted := rfl
  summed := rfl

theorem ofNat_add_sub (size : UInt64) (bytes : Nat) : UInt64.ofNat (size.toNat + bytes) - size = UInt64.ofNat bytes := by
  rw [UInt64.ofNat_add, UInt64.ofNat_toNat, UInt64.add_comm, UInt64.add_sub_cancel]

variable {key : PageKey}

theorem Kept.lookup_back (kept : cache.Kept)
    (back : cache.lruList.back? = some key) : ∃ page iterator, cache.cache.lookup key = some (page, iterator) := by
  have member : key ∈ cache.lruList.values.map id := by
    rw [map_id]
    exact mem_of_getLast? back
  have located := (kept.indexed.isSome_iff key).mpr member
  rw [Option.isSome_map, Option.isSome_iff_exists] at located
  obtain ⟨⟨page, iterator⟩, found⟩ := located
  exact ⟨page, iterator, found⟩

/-!
## Evictions
-/

/-- Pages leave from the back of the list, and nothing else changes. -/
structure Evicts (before : PageCache) (evicted : List PageKey) (after : PageCache) : Prop where
  kept : after.Kept
  values : before.lruList.values = after.lruList.values ++ evicted.reverse
  config : after.config = before.config

theorem Evicts.refl (kept : cache.Kept) : Evicts cache [] cache :=
  ⟨kept, (append_nil _).symm, rfl⟩

theorem Evicts.trans {first second third : PageCache} {early late : List PageKey} (left : Evicts first early second)
    (right : Evicts second late third) : Evicts first (early ++ late) third := by
  refine ⟨right.kept, ?_, right.config.trans left.config⟩
  rw [left.values, right.values, reverse_append, append_assoc]

theorem Kept.evictOneLocked (kept : cache.Kept) (back : cache.lruList.back? = some key) :
    cache.evictOneLocked.1 = some key ∧ Evicts cache [key] cache.evictOneLocked.2 := by
  obtain ⟨page, iterator, found⟩ := kept.lookup_back back
  obtain ⟨node, split⟩ := back?_eq_some back
  have values : cache.lruList.values = cache.lruList.popBack.values ++ [key] := by
    unfold values
    rw [split, map_append]
    rfl
  unfold PageCache.evictOneLocked
  rw [back]
  dsimp only
  rw [found]
  refine ⟨rfl, ?_, values, rfl⟩
  constructor
  · refine kept.indexed.popBack back fun other => ?_
    dsimp only [id]
    rw [lookup_erase_eq]
    split
    · rfl
    · rfl
  · dsimp only
    rw [kept.counted, values, length_append]
    rfl
  · have sum := tableTotal_erase (fun entry : CachedPage × Nat => entry.1.size.toNat) found
    unfold cachedBytes
    dsimp only at sum ⊢
    rw [kept.summed, cachedBytes, sum, ofNat_add_sub]

theorem Kept.evictLoop (kept : cache.Kept) (stop : PageCache → Bool) (pages : Nat) :
    Evicts cache (evictLoop stop pages cache).1 (evictLoop stop pages cache).2 ∧
      ((evictLoop stop pages cache).2.lruList.values.length ≤ cache.lruList.values.length - pages ∨
        stop (evictLoop stop pages cache).2) := by
  induction pages generalizing cache with
  | zero => exact ⟨.refl kept, .inl (Nat.le_refl _)⟩
  | succ pages ih =>
    unfold evictLoop
    split
    next done =>
      refine ⟨.refl kept, ?_⟩
      cases done with
      | inl none =>
        unfold values
        rw [none]
        exact .inl (Nat.zero_le _)
      | inr stopped => exact .inr stopped
    next going =>
      obtain ⟨filled, _⟩ := not_or.mp going
      obtain ⟨key, back⟩ := exists_back filled
      obtain ⟨left, evicts⟩ := kept.evictOneLocked back
      obtain ⟨rest, bound⟩ := ih evicts.kept
      have shorter := congrArg List.length evicts.values
      rw [length_append] at shorter
      dsimp only
      rw [left]
      refine ⟨evicts.trans rest, ?_⟩
      cases bound with
      | inl short =>
        refine .inl (short.trans ?_)
        rw [shorter, length_reverse, length_singleton]
        omega
      | inr stopped => exact .inr stopped

theorem Kept.evictLocked (kept : cache.Kept) (targetPages : Nat) (targetBytes : UInt64) :
    Evicts cache (cache.evictLocked targetPages targetBytes).1 (cache.evictLocked targetPages targetBytes).2 ∧
      (cache.evictLocked targetPages targetBytes).2.lruList.values.length ≤ targetPages := by
  have length : cache.lruList.values.length = cache.lruList.nodes.length := length_map _
  unfold PageCache.evictLocked
  split
  next within => exact ⟨.refl kept, length ▸ within.1⟩
  next =>
    obtain ⟨evicts, bound⟩ := kept.evictLoop (withinLimits targetPages targetBytes) (cache.pagesToEvict targetPages)
    refine ⟨evicts, ?_⟩
    cases bound with
    | inl short =>
      have enough : cache.lruList.nodes.length - targetPages ≤ cache.pagesToEvict targetPages := by
        unfold pagesToEvict
        dsimp only
        split
        · exact Nat.le_min.mpr ⟨Nat.le_max_left _ _, Nat.sub_le _ _⟩
        · exact Nat.le_min.mpr ⟨Nat.le_refl _, Nat.sub_le _ _⟩
      omega
    | inr stopped =>
      unfold withinLimits at stopped
      rw [decide_eq_true_eq] at stopped
      exact (length_map _).trans_le stopped.2.2

variable {old : CachedPage} {iterator : Nat}

section

variable (kept : cache.Kept) (found : cache.cache.lookup key = some (old, iterator))
include kept found

theorem Kept.node : (iterator, key) ∈ cache.lruList.nodes := by
  have located : (cache.cache.lookup key).map Prod.snd = some iterator := by
    rw [found]
    rfl
  obtain ⟨value, member, rfl⟩ := (kept.indexed.located key iterator).mp located
  exact member

theorem Kept.promote (page : CachedPage) : NodeList.Indexed id (cache.promote key page iterator).lruList
        (fun other => ((cache.promote key page iterator).cache.lookup other).map Prod.snd) ∧
      (cache.promote key page iterator).lruList.values = key :: (cache.lruList.erase iterator).values ∧
      ∃ others, cache.cachedBytes = old.size.toNat + others ∧
        (cache.promote key page iterator).cachedBytes = page.size.toNat + others := by
  have member := kept.node found
  refine ⟨?_, ?_, _, tableTotal_erase _ found, tableTotal_insert _ _ _ _⟩
  · have spliced := kept.indexed.splice iterator
    have same : (fun other => ((cache.promote key page iterator).cache.lookup other).map Prod.snd) =
        fun other => (cache.cache.lookup other).map Prod.snd := by
      funext other
      unfold PageCache.promote
      dsimp only
      rw [lookup_insert_eq]
      split
      next equal =>
        rw [equal, found]
        rfl
      next => rfl
    rw [same]
    exact spliced
  · unfold PageCache.promote values
    dsimp only
    rw [splice_nodes member]
    rfl

theorem Kept.perm_erase : cache.lruList.values.Perm (key :: (cache.lruList.erase iterator).values) :=
  (NodeList.perm_erase (kept.node found)).map Prod.snd

theorem Kept.promoted (page : CachedPage) (after : PageCache)
    (lruList : after.lruList = (cache.promote key page iterator).lruList)
    (table : after.cache = (cache.promote key page iterator).cache) (pageCount : after.pageCount = cache.pageCount)
    (memoryUsed : after.memoryUsed = cache.memoryUsed - old.size + page.size) : after.Kept := by
  obtain ⟨indexed, values, others, before, afterwards⟩ := kept.promote found page
  constructor
  · rw [lruList, table]
    exact indexed
  · rw [pageCount, kept.counted, lruList, values]
    exact (kept.perm_erase found).length_eq
  · have bytes : after.cachedBytes = page.size.toNat + others := by
      unfold cachedBytes
      rw [table]
      exact afterwards
    rw [memoryUsed, kept.summed, before, ofNat_add_sub, bytes, Nat.add_comm, UInt64.ofNat_add, UInt64.ofNat_toNat]

end

theorem Kept.insert {cache : PageCache} (kept : cache.Kept) {key : PageKey} (missing : cache.cache.lookup key = none)
    (page : CachedPage) : (cache.insert key page).Kept := by
  constructor
  · refine kept.indexed.pushFront ?_ fun other => ?_
    · dsimp only [id]
      rw [missing]
      rfl
    · unfold PageCache.insert
      dsimp only [id]
      rw [lookup_insert_eq]
      split
      · rfl
      · rfl
  · exact congrArg (· + 1) kept.counted
  · unfold PageCache.insert cachedBytes
    dsimp only
    rw [tableTotal_insert, tableTotal_erase_of_none _ missing, UInt64.ofNat_add, UInt64.ofNat_toNat,
      kept.summed, cachedBytes, UInt64.add_comm]

/-!
## Invalidation
-/

/-- Where the scan stands: the list and the map are in step, the counters are still to be lowered. -/
structure Scanning (before : PageCache) (rest : List (Nat × PageKey)) (removed : Nat) (bytesFreed : UInt64)
    (cache : PageCache) : Prop where
  indexed : NodeList.Indexed id cache.lruList fun key => (cache.cache.lookup key).map Prod.snd
  counted : cache.pageCount = cache.lruList.values.length + removed
  summed : cache.memoryUsed = UInt64.ofNat cache.cachedBytes + bytesFreed
  untouched : removed = 0 → bytesFreed = 0
  ahead : rest.Sublist cache.lruList.nodes
  values : cache.lruList.values.Sublist before.lruList.values
  config : cache.config = before.config

variable {rest : List (Nat × PageKey)} {removed : Nat} {bytesFreed : UInt64}

theorem Scanning.skip {before cache : PageCache} {node : Nat × PageKey}
    (scanning : Scanning before (node :: rest) removed bytesFreed cache) :
    Scanning before rest removed bytesFreed cache :=
  { scanning with ahead := (sublist_cons_self _ _).trans scanning.ahead }

theorem Scanning.remove {before cache : PageCache}
    (scanning : Scanning before ((iterator, key) :: rest) removed bytesFreed cache)
    {page : CachedPage} {place : Nat} (found : cache.cache.lookup key = some (page, place)) :
    Scanning before rest (removed + 1) (bytesFreed + page.size)
      { cache with lruList := cache.lruList.erase iterator, cache := cache.cache.erase key } := by
  have member : (iterator, key) ∈ cache.lruList.nodes := scanning.ahead.subset mem_cons_self
  have perm := perm_erase member
  constructor
  · refine scanning.indexed.erase ((scanning.indexed.located key iterator).mpr ⟨key, member, rfl⟩) fun other => ?_
    dsimp only
    rw [lookup_erase_eq]
    split
    · rfl
    · rfl
  · have length : cache.lruList.values.length = (cache.lruList.erase iterator).values.length + 1 :=
      (perm.map Prod.snd).length_eq
    dsimp only
    rw [scanning.counted, length]
    omega
  · have sum := tableTotal_erase (fun entry : CachedPage × Nat => entry.1.size.toNat) found
    unfold cachedBytes
    dsimp only at sum ⊢
    rw [scanning.summed, cachedBytes, sum, UInt64.ofNat_add, UInt64.ofNat_toNat, UInt64.add_comm page.size,
      UInt64.add_assoc, UInt64.add_comm page.size]
  · intro none
    cases none
  · exact ahead_erase scanning.ahead
  · exact (filter_sublist.map Prod.snd).trans scanning.values
  · exact scanning.config

theorem Scanning.invalidateLoop (filePath : Bytes) {before cache : PageCache}
    (scanning : Scanning before rest removed bytesFreed cache) :
    Scanning before [] (invalidateLoop filePath rest (removed, bytesFreed, cache)).1
      (invalidateLoop filePath rest (removed, bytesFreed, cache)).2.1
      (invalidateLoop filePath rest (removed, bytesFreed, cache)).2.2 := by
  induction rest generalizing removed bytesFreed cache with
  | nil => exact scanning
  | cons node rest ih =>
    obtain ⟨iterator, key⟩ := node
    unfold invalidateLoop
    split
    next =>
      have located := (scanning.indexed.located key iterator).mpr ⟨key, scanning.ahead.subset mem_cons_self, rfl⟩
      rw [Option.map_eq_some_iff] at located
      obtain ⟨⟨page, place⟩, found, _⟩ := located
      dsimp only
      rw [found]
      exact ih (scanning.remove found)
    next => exact ih scanning.skip

theorem Kept.invalidate (kept : cache.Kept) (filePath : Bytes) : (cache.invalidate filePath).2.Kept ∧
      (cache.invalidate filePath).2.lruList.values.Sublist cache.lruList.values ∧
      (cache.invalidate filePath).2.config = cache.config := by
  have initial : Scanning cache cache.lruList.nodes 0 0 cache :=
    ⟨kept.indexed, kept.counted, (UInt64.add_zero _).symm ▸ kept.summed, fun _ => rfl, .refl _, .refl _, rfl⟩
  have scanned := initial.invalidateLoop filePath
  unfold PageCache.invalidate
  dsimp only
  split
  next =>
    refine ⟨⟨scanned.indexed, ?_, ?_⟩, scanned.values, scanned.config⟩
    · dsimp only
      rw [scanned.counted]
      exact Nat.add_sub_cancel _ _
    · dsimp only
      rw [scanned.summed]
      exact UInt64.add_sub_cancel _ _
  next none =>
    have zero := Nat.eq_zero_of_not_pos none
    refine ⟨⟨scanned.indexed, ?_, ?_⟩, scanned.values, scanned.config⟩
    · dsimp only
      rw [scanned.counted, zero]
      exact Nat.add_zero _
    · dsimp only
      rw [scanned.summed, scanned.untouched zero]
      exact UInt64.add_zero _

/-!
## Recency
-/

/-- Every cached key was accessed, and the list has the later accesses first. -/
structure Recent (accesses : List PageKey) (values : List PageKey) : Prop where
  known : ∀ key ∈ values, key ∈ accesses
  ordered : values.Pairwise fun left right => accesses.idxOf left < accesses.idxOf right

theorem Recent.sublist {accesses values rest : List PageKey} (recent : Recent accesses values)
    (sub : rest.Sublist values) : Recent accesses rest :=
  ⟨fun key member => recent.known key (sub.subset member), recent.ordered.sublist sub⟩

theorem Recent.access {accesses values rest : List PageKey} (recent : Recent accesses values)
    (sub : rest.Sublist values) (absent : key ∉ rest) : Recent (key :: accesses) (key :: rest) := by
  have later : ∀ other ∈ rest, (key :: accesses).idxOf other = accesses.idxOf other + 1 := by
    intro other member
    exact idxOf_cons_ne accesses fun same => absent (same ▸ member)
  constructor
  · intro other member
    cases member with
    | head => exact mem_cons_self
    | tail _ member => exact mem_cons_of_mem _ (recent.known other (sub.subset member))
  · refine pairwise_cons.mpr ⟨fun other member => ?_, ?_⟩
    · rw [idxOf_cons_self, later other member]
      exact Nat.succ_pos _
    · refine (recent.ordered.sublist sub).imp_of_mem fun leftMember rightMember before => ?_
      rw [later _ leftMember, later _ rightMember]
      exact Nat.succ_lt_succ before

/-- Whenever a key is evicted, every other key that is still cached has a later access. -/
def EvictsOldest (cached accesses evicted : List PageKey) : Prop :=
  ∀ earlier key later, evicted = earlier ++ key :: later →
    key ∈ cached ∧ key ∈ accesses ∧
      ∀ other ∈ cached, other ∉ earlier → other ≠ key → accesses.idxOf other < accesses.idxOf key

variable {before after : PageCache} {evicted : List PageKey}

theorem Recent.evictsOldest {accesses : List PageKey}
    (recent : Recent accesses before.lruList.values) (evicts : Evicts before evicted after) :
    EvictsOldest before.lruList.values accesses evicted := by
  intro earlier key later order
  have values : before.lruList.values = (after.lruList.values ++ later.reverse) ++ ([key] ++ earlier.reverse) := by
    rw [evicts.values, order]
    simp
  have member : key ∈ before.lruList.values := by
    rw [values]
    simp
  refine ⟨member, recent.known key member, fun other cached kept different => ?_⟩
  have ordered := recent.ordered
  rw [values] at cached ordered
  cases mem_append.mp cached with
  | inl front => exact (pairwise_append.mp ordered).2.2 other front key (by simp)
  | inr back =>
    cases mem_append.mp back with
    | inl same => exact (different (mem_singleton.mp same)).elim
    | inr gone => exact (kept (mem_reverse.mp gone)).elim

structure Sound (state : Tracked) : Prop where
  kept : state.cache.Kept
  recent : Recent state.accesses state.cache.lruList.values
  bounded : state.cache.lruList.values.length ≤ state.cache.config.maxPages
  positive : 0 < state.cache.config.maxPages

/-- What one call does to the keys: it evicts the oldest ones, and only a removal by name takes
others out. -/
structure Orderly (before after : Tracked) (removes : Prop) : Prop where
  oldest : EvictsOldest before.cache.lruList.values before.accesses after.evicted
  gone : ∀ key ∈ after.evicted, key ∉ after.cache.lruList.values
  retained : ¬removes → ∀ key ∈ before.cache.lruList.values, key ∈ after.cache.lruList.values ∨ key ∈ after.evicted

theorem evictsOldest_nil (cached accesses : List PageKey) : EvictsOldest cached accesses [] := by
  intro earlier key later order
  cases earlier with
  | nil => cases order
  | cons => cases order

section

variable (evicts : Evicts before evicted after)

include evicts

theorem Evicts.retained :
    ∀ key ∈ before.lruList.values, key ∈ after.lruList.values ∨ key ∈ evicted := by
  intro key member
  rw [evicts.values] at member
  cases mem_append.mp member with
  | inl stays => exact .inl stays
  | inr leaves => exact .inr (mem_reverse.mp leaves)

theorem Evicts.gone
    (kept : before.Kept) : ∀ key ∈ evicted, key ∉ after.lruList.values := by
  intro key leaves stays
  have once := kept.consistent.once
  rw [evicts.values] at once
  exact (nodup_append.mp once).2.2 key stays key (mem_reverse.mpr leaves) rfl

theorem Evicts.sublist :
    after.lruList.values.Sublist before.lruList.values := by
  rw [evicts.values]
  exact sublist_append_left _ _

end

theorem Kept.not_mem_values (kept : cache.Kept)
    (missing : cache.cache.lookup key = none) : key ∉ cache.lruList.values := by
  intro member
  have located := (kept.indexed.isSome_iff key).mpr (by rw [map_id]; exact member)
  rw [missing] at located
  cases located

theorem Evicts.missing (evicts : Evicts before evicted after)
    (kept : before.Kept) (missing : before.cache.lookup key = none) :
    after.cache.lookup key = none := by
  rw [AList.lookup_eq_none]
  intro member
  exact kept.not_mem_values missing (evicts.sublist.subset (evicts.kept.consistent.sameKeys.mem_iff.mp member))

variable {state : Tracked}

section

variable (sound : Sound state) (start : PageCache) (same : start.lruList = state.cache.lruList) (kept : start.Kept)

include sound same kept

theorem Sound.evicts {after : PageCache} (evicts : Evicts start evicted after)
    (bounded : after.lruList.values.length ≤ start.config.maxPages) (positive : 0 < start.config.maxPages)
    (removes : Prop) :
    Sound { state with cache := after, evicted } ∧ Orderly state { state with cache := after, evicted } removes := by
  have recent := sound.recent
  rw [← same] at recent
  refine ⟨⟨evicts.kept, recent.sublist evicts.sublist, ?_, ?_⟩, ?_, evicts.gone kept, ?_⟩
  · dsimp only
    rw [evicts.config]
    exact bounded
  · dsimp only
    rw [evicts.config]
    exact positive
  · rw [← same]
    exact recent.evictsOldest evicts
  · intro _
    rw [← same]
    exact evicts.retained

theorem Sound.evict (positive : 0 < start.config.maxPages) (removes : Prop) :
    Sound { state with cache := start.evict.2, evicted := start.evict.1 } ∧
      Orderly state { state with cache := start.evict.2, evicted := start.evict.1 } removes := by
  obtain ⟨evicts, bounded⟩ := kept.evictLocked start.config.maxPages start.config.maxMemoryBytes
  exact sound.evicts start same kept evicts bounded positive removes

end

theorem Sound.promote (sound : Sound state) (found : state.cache.cache.lookup key = some (old, iterator))
    (page : CachedPage) (after : PageCache) (config : after.config = state.cache.config)
    (lruList : after.lruList = (state.cache.promote key page iterator).lruList)
    (table : after.cache = (state.cache.promote key page iterator).cache)
    (pageCount : after.pageCount = state.cache.pageCount)
    (memoryUsed : after.memoryUsed = state.cache.memoryUsed - old.size + page.size) (removes : Prop) :
    Sound ⟨after, key :: state.accesses, []⟩ ∧ Orderly state ⟨after, key :: state.accesses, []⟩ removes := by
  obtain ⟨-, values, -⟩ := sound.kept.promote found page
  have perm := sound.kept.perm_erase found
  have absent : key ∉ (state.cache.lruList.erase iterator).values :=
    (nodup_cons.mp (perm.nodup_iff.mp sound.kept.consistent.once)).1
  have kept := sound.kept.promoted found page after lruList table pageCount memoryUsed
  refine ⟨⟨kept, ?_, ?_, ?_⟩, evictsOldest_nil _ _, ?_, ?_⟩
  · dsimp only
    rw [lruList, values]
    exact sound.recent.access (filter_sublist.map Prod.snd) absent
  · dsimp only
    rw [lruList, values, config, ← perm.length_eq]
    exact sound.bounded
  · dsimp only
    rw [config]
    exact sound.positive
  · intro key none
    cases none
  · intro _ key cached
    left
    dsimp only
    rw [lruList, values]
    exact perm.mem_iff.mp cached

theorem Sound.getPage (sound : Sound state) (filePath : Bytes) (offset : Int64) (size : UInt64)
    (nowMs : Int64) (removes : Prop) :
    Sound (step state (.getPage filePath offset size nowMs)) ∧
      Orderly state (step state (.getPage filePath offset size nowMs)) removes := by
  have missed : ({ state.cache with misses := state.cache.misses + 1 } : PageCache).Kept :=
    ⟨sound.kept.indexed, sound.kept.counted, sound.kept.summed⟩
  have idle := sound.evicts { state.cache with misses := state.cache.misses + 1 } rfl missed (.refl missed)
    sound.bounded sound.positive removes
  unfold step PageCache.getPage
  dsimp only
  split
  next => exact idle
  next =>
    split
    next =>
      split
      next =>
        exact sound.evict { state.cache with misses := state.cache.misses + 1 } rfl missed sound.positive removes
      next => exact idle
    next page iterator found =>
      have memory : state.cache.memoryUsed = state.cache.memoryUsed - page.size + (page.touch nowMs).size :=
        (UInt64.sub_add_cancel _ _).symm
      refine sound.promote found (page.touch nowMs) _ ?_ ?_ ?_ ?_ ?_ removes
      · rfl
      · rfl
      · rfl
      · rfl
      · exact memory

theorem Sound.makeRoom (sound : Sound state) (size : UInt64) :
    Evicts state.cache (state.cache.makeRoom size).1 (state.cache.makeRoom size).2 ∧
      (state.cache.makeRoom size).2.lruList.values.length < state.cache.config.maxPages := by
  have positive := sound.positive
  unfold PageCache.makeRoom
  split
  next =>
    dsimp only
    obtain ⟨evicts, bound⟩ := sound.kept.evictLocked (state.cache.config.maxPages - 1)
      (if size < state.cache.config.maxMemoryBytes then state.cache.config.maxMemoryBytes - size else 0)
    exact ⟨evicts, Nat.lt_of_le_sub_one positive bound⟩
  next room =>
    refine ⟨.refl sound.kept, ?_⟩
    rw [← sound.kept.counted]
    exact Nat.lt_of_not_le fun full => room (.inl full)

theorem Sound.insert {state : Tracked} (sound : Sound state) {key : PageKey}
    (missing : state.cache.cache.lookup key = none) (page : CachedPage) (removes : Prop) :
    Sound ⟨(state.cache.makeRoom page.size).2.insert key page, key :: state.accesses,
        (state.cache.makeRoom page.size).1⟩ ∧
      Orderly state ⟨(state.cache.makeRoom page.size).2.insert key page, key :: state.accesses,
        (state.cache.makeRoom page.size).1⟩ removes := by
  obtain ⟨evicts, room⟩ := sound.makeRoom page.size
  have new := sound.kept.not_mem_values missing
  have still := evicts.missing sound.kept missing
  have absent := evicts.kept.not_mem_values still
  refine ⟨⟨evicts.kept.insert still page, sound.recent.access evicts.sublist absent, ?_, ?_⟩,
    sound.recent.evictsOldest evicts, ?_, ?_⟩
  · exact evicts.config.symm ▸ Nat.succ_le_of_lt room
  · exact evicts.config.symm ▸ sound.positive
  · intro other leaves stays
    cases stays with
    | head => exact new (by
        rw [evicts.values]
        exact mem_append_right _ (mem_reverse.mpr leaves))
    | tail _ stays => exact evicts.gone sound.kept other leaves stays
  · intro _ other cached
    cases evicts.retained other cached with
    | inl stays => exact .inl (mem_cons_of_mem _ stays)
    | inr leaves => exact .inr leaves

theorem Sound.putPage (sound : Sound state) (filePath : Bytes) (offset : Int64)
    (data : Option Bytes) (size : UInt64) (directIo : Bool) (nowMs : Int64) (removes : Prop) :
    Sound (step state (.putPage filePath offset data size directIo nowMs)) ∧
      Orderly state (step state (.putPage filePath offset data size directIo nowMs)) removes := by
  have idle := sound.evicts state.cache rfl sound.kept (.refl sound.kept) sound.bounded sound.positive removes
  unfold step PageCache.putPage
  dsimp only
  split
  next => exact idle
  next bytes =>
    split
    next => exact idle
    next =>
      let page : CachedPage :=
        { data := bytes, size, loadedAt := nowMs, lastAccess := nowMs, fromDirectIo := directIo }
      split
      next old iterator found =>
        refine sound.promote found page _ ?_ ?_ ?_ ?_ ?_ removes <;> rfl
      next missing => exact sound.insert missing page removes

theorem Sound.removes (sound : Sound state) {after : PageCache} (kept : after.Kept)
    (sub : after.lruList.values.Sublist state.cache.lruList.values) (config : after.config = state.cache.config) :
    Sound { state with cache := after, evicted := [] } ∧ Orderly state { state with cache := after, evicted := [] } True := by
  refine ⟨⟨kept, sound.recent.sublist sub, ?_, ?_⟩, evictsOldest_nil _ _, ?_, ?_⟩
  · dsimp only
    rw [config]
    exact sub.length_le.trans sound.bounded
  · dsimp only
    rw [config]
    exact sound.positive
  · intro key none
    cases none
  · intro others
    exact (others trivial).elim

theorem Kept.clear (cache : PageCache) : cache.clear.2.Kept where
  indexed := by
    refine ⟨nodup_nil, fun key iterator => ?_⟩
    constructor
    · intro found
      cases found
    · intro ⟨_, member, _⟩
      cases member
  counted := rfl
  summed := rfl

def Call.Removes : Call → Prop
  | .invalidate _ => True
  | .clear => True
  | _ => False

def Call.Positive : Call → Prop
  | .setMaxPages maxPages => 1 ≤ maxPages
  | _ => True

theorem Sound.step (sound : Sound state) {call : Call} (positive : call.Positive) :
    Sound (step state call) ∧ Orderly state (step state call) call.Removes := by
  cases call with
  | getPage filePath offset size nowMs => exact sound.getPage filePath offset size nowMs _
  | putPage filePath offset data size directIo nowMs => exact sound.putPage filePath offset data size directIo nowMs _
  | invalidate filePath =>
    obtain ⟨kept, sub, config⟩ := sound.kept.invalidate filePath
    exact sound.removes kept sub config
  | evict => exact sound.evict _ rfl sound.kept sound.positive _
  | shrink count =>
    obtain ⟨evicts, _⟩ := sound.kept.evictLoop (fun _ => false) count
    exact sound.evicts _ rfl sound.kept evicts (evicts.sublist.length_le.trans sound.bounded) sound.positive _
  | clear => exact sound.removes (.clear _) (nil_sublist _) rfl
  | setMaxPages maxPages =>
    have kept : ({ state.cache with config := { state.cache.config with maxPages } } : PageCache).Kept :=
      ⟨sound.kept.indexed, sound.kept.counted, sound.kept.summed⟩
    exact sound.evict { state.cache with config := { state.cache.config with maxPages } } rfl kept positive _
  | setMaxMemoryBytes bytes =>
    have kept : ({ state.cache with config := { state.cache.config with maxMemoryBytes := bytes } } :
        PageCache).Kept := ⟨sound.kept.indexed, sound.kept.counted, sound.kept.summed⟩
    exact sound.evict { state.cache with config := { state.cache.config with maxMemoryBytes := bytes } } rfl kept
      sound.positive _

theorem Sound.run {config : PageCacheConfig} (positive : 1 ≤ config.maxPages) {calls : List Call}
    (allPositive : ∀ call ∈ calls, call.Positive) : Sound (Runs.run PageCache.step (start config) calls) := by
  refine Runs.Meets.preserves Sound (fun state call positive sound => (sound.step positive).1) ?_
    (Runs.meets_of_forall allPositive (start config))
  exact ⟨.start config, ⟨fun _ member => (not_mem_nil member).elim, List.Pairwise.nil⟩, Nat.zero_le _, positive⟩

/-- After any calls, map, list, iterators and counters agree and the pages are within the capacity,
and the next call evicts at each time the key whose last access is the oldest. -/
theorem page_cache_strict_lru (config : PageCacheConfig) (positive : 1 ≤ config.maxPages) (calls : List Call)
    (allPositive : ∀ call ∈ calls, call.Positive) :
    (Runs.run step (start config) calls).cache.Consistent ∧
      (Runs.run step (start config) calls).cache.pageCount ≤ (Runs.run step (start config) calls).cache.config.maxPages ∧
      ∀ call : Call, call.Positive →
        Orderly (Runs.run step (start config) calls) (step (Runs.run step (start config) calls) call) call.Removes := by
  have sound := Sound.run positive allPositive
  refine ⟨sound.kept.consistent, ?_, fun call positive => (sound.step positive).2⟩
  rw [sound.kept.counted]
  exact sound.bounded

/-- Two pages that are put, the first read again, and no room but for one of them. -/
theorem page_cache_strict_lru_pair :
    let calls : List Call :=
      [.putPage [97] 0 (some [1]) 1 false 0, .putPage [98] 0 (some [2]) 1 false 1, .getPage [97] 0 1 2, .setMaxPages 1]
    (1 ≤ ({} : PageCacheConfig).maxPages ∧ ∀ call ∈ calls, call.Positive) ∧
      (Runs.run step (start {}) calls).evicted = [⟨[98], 0⟩] ∧
      (Runs.run step (start {}) calls).cache.Consistent := by
  refine ⟨⟨by decide, ?_⟩, by decide, ?_⟩
  · simp [Call.Positive]
  · exact (page_cache_strict_lru {} (by decide) _ (by simp [Call.Positive])).1

end TorrentMq.Storage.PageCache
