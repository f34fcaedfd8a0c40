import TorrentMq.Arithmetic.Double
import TorrentMq.Bytes.Reader
import TorrentMq.Collections.LruList
import TorrentMq.Runs.Basic

/-!
# Page cache

Pages of files kept in memory, in a list from the most to the least recently
used and a map that has for each key its page and its place in the list.
-/

set_option autoImplicit false

namespace TorrentMq.Storage

open Bytes

structure PageKey where
  filePath : Bytes
  offset : Int64 := 0
deriving DecidableEq

structure CachedPage where
  data : Bytes
  size : UInt64
  loadedAt : Int64
  lastAccess : Int64
  hitCount : UInt64 := 0
  fromDirectIo : Bool := false
deriving DecidableEq

def CachedPage.touch (page : CachedPage) (nowMs : Int64) : CachedPage :=
  { page with lastAccess := nowMs, hitCount := page.hitCount + 1 }

structure PageCacheConfig where
  maxPages : Nat := 16384
  maxMemoryBytes : UInt64 := 1073741824
  minDirectIoSize : UInt64 := 262144
  cacheDirectIo : Bool := false
  batchEviction : Bool := true
deriving DecidableEq

def kEvictBatchRatio : Arithmetic.Double := ⟨7205759403792794, 56⟩

def kMissThresholdForSweep : UInt64 := 1024

/-- Pages in a list, from the last used to the first, and their places by key. -/
structure PageCache where
  config : PageCacheConfig
  lruList : NodeList PageKey := .empty
  cache : AList fun _ : PageKey => CachedPage × Nat := ∅
  pageCount : Nat := 0
  memoryUsed : UInt64 := 0
  hits : UInt64 := 0
  misses : UInt64 := 0
  evictions : UInt64 := 0

namespace PageCache

/-!
## Eviction
-/

def evictOneLocked (cache : PageCache) : Option PageKey × PageCache :=
  match cache.lruList.back? with
  | none => (none, cache)
  | some key =>
    match cache.cache.lookup key with
    | none => (none, { cache with lruList := cache.lruList.popBack })
    | some (page, _) =>
      (some key, { cache with
        cache := cache.cache.erase key
        lruList := cache.lruList.popBack
        pageCount := cache.pageCount - 1
        memoryUsed := cache.memoryUsed - page.size
        evictions := cache.evictions + 1 })

def evictLoop (stop : PageCache → Bool) : Nat → PageCache → List PageKey × PageCache
  | 0, cache => ([], cache)
  | pages + 1, cache =>
    if cache.lruList.nodes = [] ∨ stop cache then ([], cache)
    else
      let (key, cache) := cache.evictOneLocked
      let (evicted, cache) := evictLoop stop pages cache
      (key.toList ++ evicted, cache)

def withinLimits (targetPages : Nat) (targetBytes : UInt64) (cache : PageCache) : Bool :=
  0 < targetBytes ∧ cache.memoryUsed ≤ targetBytes ∧ cache.lruList.nodes.length ≤ targetPages

def pagesToEvict (cache : PageCache) (targetPages : Nat) : Nat :=
  let currentPages := cache.lruList.nodes.length
  let surplus := currentPages - targetPages
  let batch :=
    if cache.config.batchEviction ∧ 0 < surplus then
      max surplus ((Arithmetic.Double.ofNat currentPages).mul kEvictBatchRatio).ceil
    else surplus
  min batch currentPages

def evictLocked (cache : PageCache) (targetPages : Nat) (targetBytes : UInt64) : List PageKey × PageCache :=
  if cache.lruList.nodes.length ≤ targetPages ∧ (targetBytes = 0 ∨ cache.memoryUsed ≤ targetBytes) then ([], cache)
  else evictLoop (withinLimits targetPages targetBytes) (cache.pagesToEvict targetPages) cache

def evict (cache : PageCache) : List PageKey × PageCache :=
  cache.evictLocked cache.config.maxPages cache.config.maxMemoryBytes

def shrink (cache : PageCache) (count : Nat) : List PageKey × PageCache := evictLoop (fun _ => false) count cache

def setMaxPages (cache : PageCache) (maxPages : Nat) : List PageKey × PageCache :=
  { cache with config := { cache.config with maxPages } }.evict

def setMaxMemoryBytes (cache : PageCache) (bytes : UInt64) : List PageKey × PageCache :=
  { cache with config := { cache.config with maxMemoryBytes := bytes } }.evict

/-!
## Pages
-/

def shouldCache (cache : PageCache) (size : UInt64) (directIo : Bool) : Bool :=
  if size = 0 then false
  else if directIo ∧ !cache.config.cacheDirectIo then false
  else if !cache.config.cacheDirectIo ∧ cache.config.minDirectIoSize ≤ size then false
  else true

def promote (cache : PageCache) (key : PageKey) (page : CachedPage) (iterator : Nat) : PageCache :=
  { cache with
    lruList := cache.lruList.splice iterator
    cache := cache.cache.insert key (page, iterator) }

def getPage (cache : PageCache) (filePath : Bytes) (offset : Int64) (size : UInt64) (nowMs : Int64) :
    Option CachedPage × List PageKey × PageCache :=
  let missed := { cache with misses := cache.misses + 1 }
  if !cache.config.cacheDirectIo ∧ cache.config.minDirectIoSize ≤ size then (none, [], missed)
  else
    let key : PageKey := { filePath, offset }
    match cache.cache.lookup key with
    | none =>
      if 0 < missed.misses ∧ missed.misses % kMissThresholdForSweep = 0 then (none, missed.evict)
      else (none, [], missed)
    | some (page, iterator) =>
      let page := page.touch nowMs
      (some page, [], { cache.promote key page iterator with hits := cache.hits + 1 })

def insert (cache : PageCache) (key : PageKey) (page : CachedPage) : PageCache :=
  { cache with
    lruList := cache.lruList.pushFront key
    cache := cache.cache.insert key (page, cache.lruList.fresh)
    pageCount := cache.pageCount + 1
    memoryUsed := cache.memoryUsed + page.size }

def makeRoom (cache : PageCache) (size : UInt64) : List PageKey × PageCache :=
  if cache.config.maxPages ≤ cache.pageCount ∨
      0 < cache.config.maxMemoryBytes ∧ cache.config.maxMemoryBytes < cache.memoryUsed + size then
    let targetPages := if 0 < cache.config.maxPages then cache.config.maxPages - 1 else 0
    let targetBytes := if size < cache.config.maxMemoryBytes then cache.config.maxMemoryBytes - size else 0
    cache.evictLocked targetPages targetBytes
  else ([], cache)

def putPage (cache : PageCache) (filePath : Bytes) (offset : Int64) (data : Option Bytes) (size : UInt64)
    (directIo : Bool) (nowMs : Int64) : Bool × List PageKey × PageCache :=
  match data with
  | none => (false, [], cache)
  | some data =>
    if size = 0 ∨ !cache.shouldCache size directIo then (false, [], cache)
    else
      let key : PageKey := { filePath, offset }
      let page : CachedPage := { data, size, loadedAt := nowMs, lastAccess := nowMs, fromDirectIo := directIo }
      match cache.cache.lookup key with
      | some (old, iterator) =>
        (true, [], { cache.promote key page iterator with memoryUsed := cache.memoryUsed - old.size + size })
      | none =>
        let (evicted, cache) := cache.makeRoom size
        (true, evicted, cache.insert key page)

/-!
## Removal
-/

def invalidateLoop (filePath : Bytes) : List (Nat × PageKey) → Nat × UInt64 × PageCache → Nat × UInt64 × PageCache
  | [], result => result
  | (iterator, key) :: rest, (removed, bytesFreed, cache) =>
    if key.filePath = filePath then
      let shorter := { cache with lruList := cache.lruList.erase iterator }
      match cache.cache.lookup key with
      | some (page, _) =>
        invalidateLoop filePath rest
          (removed + 1, bytesFreed + page.size, { shorter with cache := cache.cache.erase key })
      | none => invalidateLoop filePath rest (removed + 1, bytesFreed, shorter)
    else invalidateLoop filePath rest (removed, bytesFreed, cache)

def invalidate (cache : PageCache) (filePath : Bytes) : Nat × PageCache :=
  let (removed, bytesFreed, cache) := invalidateLoop filePath cache.lruList.nodes (0, 0, cache)
  if 0 < removed then
    (removed, { cache with pageCount := cache.pageCount - removed, memoryUsed := cache.memoryUsed - bytesFreed })
  else (removed, cache)

def clear (cache : PageCache) : Nat × PageCache :=
  (cache.lruList.nodes.length,
    { cache with lruList := cache.lruList.clear, cache := ∅, pageCount := 0, memoryUsed := 0 })

/-!
## Calls
-/

inductive Call where
  | getPage (filePath : Bytes) (offset : Int64) (size : UInt64) (nowMs : Int64)
  | putPage (filePath : Bytes) (offset : Int64) (data : Option Bytes) (size : UInt64) (directIo : Bool)
      (nowMs : Int64)
  | invalidate (filePath : Bytes)
  | evict
  | shrink (count : Nat)
  | clear
  | setMaxPages (maxPages : Nat)
  | setMaxMemoryBytes (bytes : UInt64)
deriving DecidableEq

/-- A cache, the keys of the successful accesses with the latest first, and the keys that the last
call evicted. -/
structure Tracked where
  cache : PageCache
  accesses : List PageKey := []
  evicted : List PageKey := []

def step (state : Tracked) : Call → Tracked
  | .getPage filePath offset size nowMs =>
    let (page, evicted, cache) := state.cache.getPage filePath offset size nowMs
    { cache, evicted, accesses := if page.isSome then ⟨filePath, offset⟩ :: state.accesses else state.accesses }
  | .putPage filePath offset data size directIo nowMs =>
    let (stored, evicted, cache) := state.cache.putPage filePath offset data size directIo nowMs
    { cache, evicted, accesses := if stored then ⟨filePath, offset⟩ :: state.accesses else state.accesses }
  | .invalidate filePath => { state with cache := (state.cache.invalidate filePath).2, evicted := [] }
  | .evict => { state with evicted := state.cache.evict.1, cache := state.cache.evict.2 }
  | .shrink count => { state with evicted := (state.cache.shrink count).1, cache := (state.cache.shrink count).2 }
  | .clear => { state with cache := state.cache.clear.2, evicted := [] }
  | .setMaxPages maxPages =>
    { state with evicted := (state.cache.setMaxPages maxPages).1, cache := (state.cache.setMaxPages maxPages).2 }
  | .setMaxMemoryBytes bytes =>
    { state with
      evicted := (state.cache.setMaxMemoryBytes bytes).1
      cache := (state.cache.setMaxMemoryBytes bytes).2 }

def start (config : PageCacheConfig) : Tracked := { cache := { config } }

end PageCache

end TorrentMq.Storage
