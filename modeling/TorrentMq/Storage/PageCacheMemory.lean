import TorrentMq.Storage.PageCacheProperties

/-! When the page cache keeps within its limit of bytes. -/

set_option autoImplicit false

namespace TorrentMq.Storage.PageCache

open Bytes List

variable {cache : PageCache} {key : PageKey}

def memoryAfter (cache : PageCache) (pages : Nat) : UInt64 :=
  ((cache.lruList.values.reverse.map fun key => ((cache.cache.lookup key).map (·.1.size)).getD 0).take pages).foldl
    (· - ·) cache.memoryUsed

theorem memoryAfter_zero (cache : PageCache) : cache.memoryAfter 0 = cache.memoryUsed := rfl

theorem Kept.memoryAfter_evictOneLocked (kept : cache.Kept) (back : cache.lruList.back? = some key) (pages : Nat) :
    cache.evictOneLocked.2.memoryAfter pages = cache.memoryAfter (pages + 1) := by
  obtain ⟨page, iterator, found⟩ := kept.lookup_back back
  obtain ⟨-, evicts⟩ := kept.evictOneLocked back
  have values := evicts.values
  have once := kept.consistent.once
  rw [values, reverse_singleton] at once
  have other : ∀ left ∈ cache.evictOneLocked.2.lruList.values,
      cache.evictOneLocked.2.cache.lookup left = cache.cache.lookup left := by
    intro left member
    have apart : left ≠ key := (nodup_append.mp once).2.2 left member key mem_cons_self
    unfold PageCache.evictOneLocked
    rw [back]
    dsimp only
    rw [found]
    exact AList.lookup_erase_ne apart
  have memory : cache.evictOneLocked.2.memoryUsed = cache.memoryUsed - page.size := by
    unfold PageCache.evictOneLocked
    rw [back]
    dsimp only
    rw [found]
  unfold memoryAfter
  rw [values, reverse_append, reverse_reverse, map_append, map_singleton, singleton_append,
    take_succ_cons, foldl_cons, found, memory]
  refine congrArg (fun sizes : List UInt64 => (sizes.take pages).foldl (· - ·) (cache.memoryUsed - page.size)) ?_
  exact map_congr_left fun left member => by rw [other left (mem_reverse.mp member)]

theorem Kept.evictLoop_memory (stops : UInt64 → Nat → Bool) (pages : Nat) (kept : cache.Kept)
    (enough : pages ≤ cache.lruList.nodes.length) :
    ∃ evicted ≤ pages,
      (PageCache.evictLoop (fun cache => stops cache.memoryUsed cache.lruList.nodes.length) pages cache).2.memoryUsed =
        cache.memoryAfter evicted ∧
      (evicted = pages ∨ stops (cache.memoryAfter evicted) (cache.lruList.nodes.length - evicted) = true) ∧
      ∀ fewer < evicted, ¬stops (cache.memoryAfter fewer) (cache.lruList.nodes.length - fewer) = true := by
  induction pages generalizing cache with
  | zero => exact ⟨0, le_rfl, rfl, .inl rfl, fun fewer less => absurd less (Nat.not_lt_zero fewer)⟩
  | succ pages ih =>
    have filled : cache.lruList.nodes ≠ [] := fun none => by simp [none] at enough
    unfold PageCache.evictLoop
    by_cases done : stops cache.memoryUsed cache.lruList.nodes.length = true
    · rw [if_pos (.inr done)]
      exact ⟨0, Nat.zero_le _, rfl, .inr done, fun fewer less => absurd less (Nat.not_lt_zero fewer)⟩
    · rw [if_neg (fun either => either.elim filled done)]
      obtain ⟨key, back⟩ := NodeList.exists_back filled
      obtain ⟨-, evicts⟩ := kept.evictOneLocked back
      have length : cache.lruList.nodes.length = cache.evictOneLocked.2.lruList.nodes.length + 1 := by
        have shorter := congrArg List.length evicts.values
        rw [length_append, reverse_singleton, length_singleton] at shorter
        simpa only [NodeList.values, length_map] using shorter
      obtain ⟨evicted, most, memory, stopped, first⟩ := ih evicts.kept (by omega)
      refine ⟨evicted + 1, by omega, ?_, ?_, ?_⟩
      · rw [← kept.memoryAfter_evictOneLocked back]
        exact memory
      · rw [← kept.memoryAfter_evictOneLocked back, length, Nat.add_sub_add_right]
        exact stopped.imp_left (congrArg (· + 1))
      · intro fewer less
        cases fewer with
        | zero => exact done
        | succ fewer =>
          rw [← kept.memoryAfter_evictOneLocked back, length, Nat.add_sub_add_right]
          exact first fewer (by omega)

/-- Evicting from the back meets both targets while pages are still to be evicted, or makes enough room
with the last of them. -/
def MakesRoom (cache : PageCache) (targetPages : Nat) (targetBytes : UInt64) (enough : UInt64 → Prop) : Prop :=
  (∃ evicted < cache.pagesToEvict targetPages, 0 < targetBytes ∧ cache.memoryAfter evicted ≤ targetBytes ∧
      cache.lruList.nodes.length - evicted ≤ targetPages) ∨
    enough (cache.memoryAfter (cache.pagesToEvict targetPages))

theorem Kept.evictLocked_memory (kept : cache.Kept) (targetPages : Nat) (targetBytes : UInt64)
    {enough : UInt64 → Prop} (fits : 0 < targetBytes → ∀ left ≤ targetBytes, enough left) :
    enough (cache.evictLocked targetPages targetBytes).2.memoryUsed ↔
      cache.MakesRoom targetPages targetBytes enough := by
  unfold PageCache.evictLocked MakesRoom
  split
  next within =>
    have none : cache.pagesToEvict targetPages = 0 := by
      unfold pagesToEvict
      simp [Nat.sub_eq_zero_of_le within.1]
    rw [none, memoryAfter_zero]
    refine (or_iff_right ?_).symm
    rintro ⟨evicted, less, -⟩
    exact absurd less (Nat.not_lt_zero evicted)
  next =>
    have most : cache.pagesToEvict targetPages ≤ cache.lruList.nodes.length := by
      unfold pagesToEvict
      exact Nat.min_le_right _ _
    obtain ⟨evicted, few, memory, stopped, first⟩ := kept.evictLoop_memory
      (fun memory pages => 0 < targetBytes ∧ memory ≤ targetBytes ∧ pages ≤ targetPages) _ most
    simp only [decide_eq_true_eq] at stopped first
    have same : (PageCache.evictLoop (withinLimits targetPages targetBytes) (cache.pagesToEvict targetPages)
        cache).2.memoryUsed = cache.memoryAfter evicted := memory
    rw [same]
    constructor
    · intro room
      rcases Nat.lt_or_eq_of_le few with less | all
      · exact .inl ⟨evicted, less, stopped.resolve_left less.ne⟩
      · rw [← all]
        exact .inr room
    · rintro (⟨sooner, less, met⟩ | last)
      · have early : evicted ≤ sooner := Nat.not_lt.mp fun later => first sooner later met
        obtain ⟨positive, within, -⟩ := stopped.resolve_left (by omega)
        exact fits positive _ within
      · rcases stopped with all | ⟨positive, within, -⟩
        · rw [all]
          exact last
        · exact fits positive _ within

theorem Kept.configured (kept : cache.Kept) (config : PageCacheConfig) : ({ cache with config } : PageCache).Kept :=
  ⟨kept.indexed, kept.counted, kept.summed⟩

theorem Kept.makeRoom (kept : cache.Kept) (size : UInt64) :
    Evicts cache (cache.makeRoom size).1 (cache.makeRoom size).2 := by
  unfold PageCache.makeRoom
  split
  · exact (kept.evictLocked _ _).1
  · exact .refl kept

theorem Kept.step {state : Tracked} (kept : state.cache.Kept) (call : Call) : (step state call).cache.Kept := by
  cases call with
  | getPage filePath offset size nowMs =>
    have missed : ({ state.cache with misses := state.cache.misses + 1 } : PageCache).Kept :=
      ⟨kept.indexed, kept.counted, kept.summed⟩
    unfold PageCache.step PageCache.getPage
    dsimp only
    split
    next => exact missed
    next =>
      split
      next =>
        split
        next => exact (missed.evictLocked _ _).1.kept
        next => exact missed
      next page iterator found =>
        exact kept.promoted found (page.touch nowMs) _ rfl rfl rfl (UInt64.sub_add_cancel _ _).symm
  | putPage filePath offset data size directIo nowMs =>
    unfold PageCache.step PageCache.putPage
    dsimp only
    split
    next => exact kept
    next bytes =>
      split
      next => exact kept
      next =>
        split
        next old iterator found =>
          let page : CachedPage :=
            { data := bytes, size, loadedAt := nowMs, lastAccess := nowMs, fromDirectIo := directIo }
          exact kept.promoted found page _ rfl rfl rfl rfl
        next missing => exact (kept.makeRoom size).kept.insert ((kept.makeRoom size).missing kept missing) _
  | invalidate filePath => exact (kept.invalidate filePath).1
  | evict => exact (kept.evictLocked _ _).1.kept
  | shrink count => exact (kept.evictLoop _ count).1.kept
  | clear => exact .clear _
  | setMaxPages maxPages | setMaxMemoryBytes bytes => exact ((kept.configured _).evictLocked _ _).1.kept

/-- The counter is within a limit that is not zero behind a put of a page that the limit allows, and behind
a new limit. -/
def WithinMemory (state : Tracked) (call : Call) : Prop :=
  match call with
  | .putPage _ _ _ size _ _ =>
    0 < state.cache.config.maxMemoryBytes → size ≤ state.cache.config.maxMemoryBytes →
      (step state call).cache.memoryUsed ≤ state.cache.config.maxMemoryBytes
  | .setMaxMemoryBytes bytes => 0 < bytes → (step state call).cache.memoryUsed ≤ bytes
  | _ => True

/-- A new page finds room, or the pages that an eviction may take make it; a page in place of another keeps
the counter within the limit; and a page that is not cached finds it there. -/
def FindsMemory (state : Tracked) (call : Call) : Prop :=
  let cache := state.cache
  let max := cache.config.maxMemoryBytes
  match call with
  | .putPage filePath offset data size directIo _ =>
    0 < max → size ≤ max →
      if data = none ∨ size = 0 ∨ !cache.shouldCache size directIo then cache.memoryUsed ≤ max
      else
        match cache.cache.lookup { filePath, offset } with
        | some (old, _) => cache.memoryUsed - old.size + size ≤ max
        | none =>
          cache.config.maxPages ≤ cache.pageCount ∨ max < cache.memoryUsed + size →
            cache.MakesRoom (if 0 < cache.config.maxPages then cache.config.maxPages - 1 else 0)
              (if size < max then max - size else 0) fun left => left + size ≤ max
  | .setMaxMemoryBytes bytes =>
    0 < bytes → ({ cache with config := { cache.config with maxMemoryBytes := bytes } } : PageCache).MakesRoom
      cache.config.maxPages bytes (· ≤ bytes)
  | _ => True

theorem add_le_of_le_sub {size max left : UInt64} (less : size < max) (within : left ≤ max - size) :
    left + size ≤ max := by
  rw [UInt64.lt_iff_toNat_lt] at less
  rw [UInt64.le_iff_toNat_le, UInt64.toNat_sub_of_le _ _ (UInt64.le_iff_toNat_le.mpr less.le)] at within
  have bound := max.toNat_lt
  rw [UInt64.le_iff_toNat_le, UInt64.toNat_add, Nat.mod_eq_of_lt (by omega)]
  omega

theorem withinMemory_iff {state : Tracked} (kept : state.cache.Kept) (call : Call) :
    WithinMemory state call ↔ FindsMemory state call := by
  cases call with
  | putPage filePath offset data size directIo nowMs =>
    unfold WithinMemory FindsMemory
    dsimp only
    refine forall_congr' fun positive => forall_congr' fun allowed => ?_
    unfold step putPage
    cases data with
    | none => rw [if_pos (.inl rfl)]
    | some bytes =>
      dsimp only
      by_cases ignored : size = 0 ∨ !state.cache.shouldCache size directIo
      · rw [if_pos ignored, if_pos (.inr ignored)]
      · rw [if_neg ignored, if_neg (fun either => ignored (either.resolve_left (Option.some_ne_none bytes)))]
        cases found : state.cache.cache.lookup { filePath, offset } with
        | some stored => exact Iff.rfl
        | none =>
          dsimp only [insert]
          unfold makeRoom
          by_cases full : state.cache.config.maxPages ≤ state.cache.pageCount ∨
              state.cache.config.maxMemoryBytes < state.cache.memoryUsed + size
          · rw [if_pos (full.imp_right fun large => ⟨positive, large⟩)]
            have room := @Kept.evictLocked_memory _ kept
              (if 0 < state.cache.config.maxPages then state.cache.config.maxPages - 1 else 0)
              (if size < state.cache.config.maxMemoryBytes then state.cache.config.maxMemoryBytes - size else 0)
              (fun left => left + size ≤ state.cache.config.maxMemoryBytes) (by
                intro left_over left within
                by_cases less : size < state.cache.config.maxMemoryBytes
                · rw [if_pos less] at within
                  exact add_le_of_le_sub less within
                · rw [if_neg less] at left_over
                  exact absurd left_over (by decide))
            exact room.trans ⟨fun makes _ => makes, fun makes => makes full⟩
          · rw [if_neg fun either => full (either.imp_right And.right)]
            refine iff_of_true (UInt64.not_lt.mp fun large => full (.inr large)) fun large => absurd large full
  | setMaxMemoryBytes bytes =>
    refine forall_congr' fun positive => ?_
    exact (kept.configured _).evictLocked_memory state.cache.config.maxPages bytes fun _ _ within => within
  | _ => exact Iff.rfl

/-- The counter keeps within the limit just where every put and every new limit finds room. -/
theorem memory_limit_iff (config : PageCacheConfig) (calls : List Call) :
    Runs.Meets step WithinMemory (start config) calls ↔ Runs.Meets step FindsMemory (start config) calls :=
  Runs.meets_iff_meets (fun state => state.cache.Kept) (fun _ call kept => withinMemory_iff kept call)
    (fun _ call _ kept => kept.step call) (.start config) calls

/-- Two pages of two bytes with a limit of three: there are not too many pages, so that none is evicted. -/
theorem not_memory_limit : ¬∀ (config : PageCacheConfig) (calls : List Call), 0 < config.maxMemoryBytes →
    Runs.Meets step WithinMemory (start config) calls := by
  intro claim
  have meets := claim { maxMemoryBytes := 3 }
    [.putPage [97] 0 (some [1, 2]) 2 false 0, .putPage [98] 0 (some [3, 4]) 2 false 0] (by decide)
  exact absurd (meets.2.1 (by decide) (by decide)) (by decide +kernel)

end TorrentMq.Storage.PageCache
