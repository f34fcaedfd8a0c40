import TorrentMq.Storage.BatchCache

/-!
# Accounting of the batch cache

Every call keeps map and list on the same keys and the byte count equal to the
sizes of what is cached, and leaves it within the capacity.
-/

set_option autoImplicit false

namespace TorrentMq.Storage.BatchCache

open List Int64 NodeList LruNode

def batchBytes (node : LruNode) : Int := (computeBatchSize node.entry.batch).toInt

def cachedBytes (cache : BatchCache) : Int := cache.lruList.total batchBytes

/-- Map and list have the same keys once each, and the counter is the sum of the sizes, as far as
its 64 bits hold it. -/
structure Consistent (cache : BatchCache) : Prop where
  sameKeys : cache.lruMap.keys.Perm (cache.lruList.values.map key)
  once : (cache.lruList.values.map key).Nodup
  counted : cache.totalBytes = ofInt cache.cachedBytes
  exact : cache.cachedBytes < 2 ^ 63 → cache.totalBytes.toInt = cache.cachedBytes

structure Kept (cache : BatchCache) : Prop where
  indexed : NodeList.Indexed key cache.lruList fun key => cache.lruMap.lookup key
  sized : ∀ node ∈ cache.lruList.nodes, node.2.entry.byteSize = computeBatchSize node.2.entry.batch
  counted : cache.totalBytes = ofInt cache.cachedBytes

theorem computeBatchSize_pos (batch : RecordBatch) : 0 < (computeBatchSize batch).toInt := by
  unfold computeBatchSize
  dsimp only
  generalize (if batch.approximateSize = 0 ∧ 0 < batch.recordCount then
    61 + batch.recordCount.toInt64 * 8 else batch.approximateSize) = estimated
  split
  · decide
  next large =>
    have bound := le_iff_toInt_le.mp (not_lt.mp large)
    rw [toInt_one] at bound
    omega

theorem cachedBytes_nonneg (cache : BatchCache) : 0 ≤ cache.cachedBytes := by
  unfold cachedBytes total
  generalize cache.lruList.values = nodes
  induction nodes with
  | nil => exact Int.le_refl 0
  | cons node nodes ih =>
    rw [map_cons, sum_cons]
    exact Int.add_nonneg (Int.le_of_lt (computeBatchSize_pos _)) ih

variable {cache : BatchCache}

theorem Kept.consistent (kept : cache.Kept) : cache.Consistent where
  sameKeys := by
    refine (perm_ext_iff_of_nodup cache.lruMap.keys_nodup kept.indexed.distinct).mpr fun key => ?_
    rw [← kept.indexed.isSome_iff, AList.lookup_isSome]
    rfl
  once := kept.indexed.distinct
  counted := kept.counted
  exact fits := by
    rw [kept.counted]
    refine toInt_ofInt_of_le ?_ fits
    have nonneg := cache.cachedBytes_nonneg
    omega

theorem ofInt_add_size (bytes : Int) (size : Int64) : ofInt bytes + size = ofInt (bytes + size.toInt) := by
  rw [ofInt_add, ofInt_toInt]

theorem ofInt_sub_size (bytes : Int) (size : Int64) : ofInt bytes - size = ofInt (bytes - size.toInt) := by
  rw [ofInt_sub, ofInt_toInt]

theorem Kept.create (maxBytes : Int64) : (create maxBytes).Kept where
  indexed := by
    refine ⟨nodup_nil, fun key iterator => ?_⟩
    constructor
    · intro found
      cases found
    · rintro ⟨_, member, _⟩
      cases member
  sized := by
    intro node member
    cases member
  counted := rfl

variable {key : BatchCacheKey}

theorem Kept.find?_eq_none (kept : cache.Kept)
    (missing : cache.find? key = none) : cache.lruMap.lookup key = none := by
  cases found : cache.lruMap.lookup key with
  | none => rfl
  | some iterator =>
    obtain ⟨node, here, _⟩ := kept.indexed.find?_eq_some found
    unfold find? at missing
    rw [found] at missing
    simp [here] at missing

variable {iterator : Nat}

theorem Kept.find?_eq_some (kept : cache.Kept)
    {node : LruNode} (found : cache.find? key = some (iterator, node)) :
    (iterator, node) ∈ cache.lruList.nodes ∧ node.key = key := by
  unfold find? at found
  cases located : cache.lruMap.lookup key with
  | none =>
    rw [located] at found
    cases found
  | some other =>
    obtain ⟨there, here, same⟩ := kept.indexed.find?_eq_some located
    rw [located] at found
    simp only [Option.bind_eq_bind, Option.bind_some, here, Option.pure_def, Option.some.injEq,
      Prod.mk.injEq] at found
    obtain ⟨rfl, rfl⟩ := found
    exact ⟨find?_eq_some_iff.mp here, same⟩

theorem Kept.get (kept : cache.Kept) (key : BatchCacheKey) (nowMs : Int64) : (cache.get key nowMs).2.Kept := by
  unfold BatchCache.get
  dsimp only
  split
  next => exact ⟨kept.indexed, kept.sized, kept.counted⟩
  next iterator node found =>
    obtain ⟨member, _⟩ := kept.find?_eq_some found
    constructor
    · have keeps : ∀ node, (touch nowMs node).key = node.key := fun _ => rfl
      exact kept.indexed.modify iterator keeps
    · intro changed inside
      obtain ⟨old, before, rfl⟩ := mem_map.mp inside
      dsimp only
      split
      · exact kept.sized old before
      · exact kept.sized old before
    · have sum := total_modify batchBytes member (touch nowMs)
      have same : batchBytes (touch nowMs node) = batchBytes node := rfl
      refine kept.counted.trans (congrArg ofInt ?_)
      unfold cachedBytes
      dsimp only
      omega

theorem Kept.remove (kept : cache.Kept) {node : LruNode}
    (member : (iterator, node) ∈ cache.lruList.nodes) : (cache.remove iterator node).Kept := by
  constructor
  · refine kept.indexed.erase ((kept.indexed.located node.key iterator).mpr ⟨node, member, rfl⟩) fun other => ?_
    exact lookup_erase_eq cache.lruMap node.key other
  · intro other inside
    exact kept.sized other (mem_of_mem_filter inside)
  · have sum := total_erase batchBytes member
    unfold BatchCache.remove cachedBytes
    dsimp only
    rw [kept.counted, kept.sized _ member, ofInt_sub_size, cachedBytes, sum, Int.add_comm]
    exact congrArg ofInt (Int.add_sub_cancel _ _)

theorem Kept.evictBack (kept : cache.Kept) {back : LruNode}
    (last : cache.lruList.back? = some back) : (cache.evictBack back).Kept := by
  obtain ⟨iterator, split⟩ := back?_eq_some last
  have member : (iterator, back) ∈ cache.lruList.nodes := by
    rw [split]
    exact mem_append_right _ mem_cons_self
  constructor
  · exact kept.indexed.popBack last fun other => lookup_erase_eq cache.lruMap back.key other
  · intro other inside
    exact kept.sized other (dropLast_subset _ inside)
  · have sum := total_popBack batchBytes last
    unfold BatchCache.evictBack cachedBytes
    dsimp only
    rw [kept.counted, kept.sized _ member, ofInt_sub_size, cachedBytes, sum]
    exact congrArg ofInt (Int.add_sub_cancel _ _)

theorem Kept.replace (kept : cache.Kept) {old : LruNode}
    (member : (iterator, old) ∈ cache.lruList.nodes) (batch : RecordBatch) (ts : Int64) :
    (cache.replace iterator old batch ts).Kept := by
  constructor
  · have keeps : ∀ node, (update batch ts node).key = node.key := fun _ => rfl
    exact (kept.indexed.modify iterator keeps).splice iterator
  · intro node inside
    obtain ⟨before, present, rfl⟩ := mem_map.mp ((splice_perm _ iterator).mem_iff.mp inside)
    dsimp only
    split
    · rfl
    · exact kept.sized before present
  · have sum := total_modify batchBytes member (update batch ts)
    have new : batchBytes (update batch ts old) = (computeBatchSize batch).toInt := rfl
    have before : batchBytes old = (computeBatchSize old.entry.batch).toInt := rfl
    unfold BatchCache.replace cachedBytes
    dsimp only
    rw [total_splice, kept.counted, kept.sized _ member, ofInt_sub_size, ofInt_add_size, cachedBytes]
    refine congrArg ofInt ?_
    dsimp only
    omega

theorem Kept.insert {cache : BatchCache} (kept : cache.Kept)
    (missing : cache.lruMap.lookup key = none) (batch : RecordBatch) (ts : Int64) :
    (cache.insert key batch ts).Kept := by
  constructor
  · refine kept.indexed.pushFront missing fun other => ?_
    exact lookup_insert_eq cache.lruMap key cache.lruList.fresh other
  · intro node inside
    cases inside with
    | head => rfl
    | tail _ inside => exact kept.sized node inside
  · unfold BatchCache.insert cachedBytes
    dsimp only
    rw [total_pushFront, kept.counted, ofInt_add_size, cachedBytes]
    exact congrArg ofInt (Int.add_comm _ _)

theorem Kept.evictLruLoop (targetBytes : Int64) (fuel : Nat) (kept : cache.Kept)
    (enough : cache.lruList.nodes.length ≤ fuel) :
    (evictLruLoop targetBytes fuel cache).Kept ∧
      ((BatchCache.evictLruLoop targetBytes fuel cache).totalBytes ≤ targetBytes ∨
        (BatchCache.evictLruLoop targetBytes fuel cache).totalBytes = 0) := by
  have drained : ∀ cache : BatchCache, cache.Kept → cache.lruList.nodes = [] → cache.totalBytes = 0 := by
    intro cache kept none
    rw [kept.counted, cachedBytes, total, values, none]
    rfl
  induction fuel generalizing cache with
  | zero => exact ⟨kept, .inr (drained cache kept (length_eq_zero_iff.mp (Nat.le_zero.mp enough)))⟩
  | succ fuel ih =>
    unfold BatchCache.evictLruLoop
    split
    next =>
      split
      next none =>
        refine ⟨kept, .inr (drained cache kept ?_)⟩
        unfold back? values at none
        exact map_eq_nil_iff.mp (getLast?_eq_none_iff.mp none)
      next back last =>
        refine ih (kept.evictBack last) ?_
        obtain ⟨iterator, split⟩ := back?_eq_some last
        rw [split, length_append] at enough
        exact Nat.le_of_succ_le_succ enough
    next within => exact ⟨kept, .inl (not_lt.mp within)⟩

theorem evictLruLoop_maxBytes (targetBytes : Int64) (fuel : Nat) (cache : BatchCache) :
    (evictLruLoop targetBytes fuel cache).maxBytes = cache.maxBytes := by
  induction fuel generalizing cache with
  | zero => rfl
  | succ fuel ih =>
    unfold evictLruLoop
    split
    · split
      · rfl
      · exact ih _
    · rfl

theorem evictionTarget_le {max : Int64} (positive : 0 < max) : evictionTarget max ≤ max := by
  have nonneg := lt_iff_toInt_lt.mp positive
  rw [toInt_zero] at nonneg
  have shrinks : kEvictionTargetRatio.Shrinks := by decide
  have target := shrinks.truncate_mul_le max.toInt.toNat
  have fits := max.toInt_lt
  unfold evictionTarget
  rw [le_iff_toInt_le, toInt_ofNat_of_lt (by omega)]
  omega

theorem Kept.evictLru (kept : cache.Kept) (positive : 0 < cache.maxBytes) :
    (cache.evictLru (evictionTarget cache.maxBytes)).Kept ∧
      (cache.evictLru (evictionTarget cache.maxBytes)).totalBytes ≤
        (cache.evictLru (evictionTarget cache.maxBytes)).maxBytes := by
  obtain ⟨after, within⟩ := kept.evictLruLoop (evictionTarget cache.maxBytes) _ (Nat.le_refl _)
  refine ⟨after, ?_⟩
  unfold BatchCache.evictLru
  rw [evictLruLoop_maxBytes]
  cases within with
  | inl below => exact le_trans below (evictionTarget_le positive)
  | inr zero =>
    rw [zero]
    exact le_of_lt positive

theorem Kept.invalidateLoop (goes : BatchCacheKey → Bool) (rest : List (Nat × LruNode)) (removed : Nat)
    (kept : cache.Kept) (ahead : rest.Sublist cache.lruList.nodes) :
    (invalidateLoop goes rest (removed, cache)).2.Kept := by
  induction rest generalizing cache removed with
  | nil => exact kept
  | cons node rest ih =>
    obtain ⟨iterator, node⟩ := node
    unfold BatchCache.invalidateLoop
    split
    next =>
      exact ih _ (kept.remove (ahead.subset mem_cons_self)) (ahead_erase ahead)
    next => exact ih _ kept ((sublist_cons_self _ _).trans ahead)

def Within (cache : BatchCache) : Prop := 0 < cache.maxBytes → cache.totalBytes ≤ cache.maxBytes

theorem Kept.evictOver {stored : BatchCache} (kept : stored.Kept) : stored.evictOver.Kept ∧ stored.evictOver.Within := by
  unfold BatchCache.evictOver
  split
  next above => exact ⟨(kept.evictLru above.1).1, fun _ => (kept.evictLru above.1).2⟩
  next within => exact ⟨kept, fun positive => not_lt.mp fun above => within ⟨positive, above⟩⟩

theorem Kept.put (kept : cache.Kept) (key : BatchCacheKey) (batch : RecordBatch) (ts : Int64) :
    (cache.put key batch ts).Kept ∧ (cache.put key batch ts).Within := by
  unfold BatchCache.put
  split
  next iterator old found => exact (kept.replace (kept.find?_eq_some found).1 batch ts).evictOver
  next missing => exact (kept.insert (kept.find?_eq_none missing) batch ts).evictOver

theorem Kept.erase (kept : cache.Kept) (key : BatchCacheKey) : (cache.erase key).2.Kept := by
  unfold BatchCache.erase
  split
  next => exact kept
  next iterator node found =>
    have removed := kept.remove (kept.find?_eq_some found).1
    exact ⟨removed.indexed, removed.sized, removed.counted⟩

theorem Kept.clear : cache.clear.Kept where
  indexed := by
    refine ⟨nodup_nil, fun key iterator => ?_⟩
    constructor
    · intro found
      cases found
    · rintro ⟨_, member, _⟩
      cases member
  sized := by
    intro node member
    cases member
  counted := rfl

section

variable (kept : cache.Kept)

include kept

theorem Kept.resize (newMaxBytes : Int64) :
    (cache.resize newMaxBytes).Kept ∧ (cache.resize newMaxBytes).Within := by
  have sized : ({ cache with maxBytes := clamped newMaxBytes } : BatchCache).Kept :=
    ⟨kept.indexed, kept.sized, kept.counted⟩
  unfold BatchCache.resize
  dsimp only
  split
  next none => exact ⟨Kept.clear, fun positive => le_of_lt positive⟩
  next some =>
    have positive : 0 < clamped newMaxBytes := by
      have nonneg : 0 ≤ clamped newMaxBytes := by
        unfold clamped
        split
        · decide
        next large => exact not_lt.mp large
      exact lt_of_le_of_ne nonneg (Ne.symm some)
    split
    next => exact ⟨(sized.evictLru positive).1, fun _ => (sized.evictLru positive).2⟩
    next within => exact ⟨sized, fun _ => not_lt.mp within⟩

theorem Kept.invalidateIf (goes : BatchCacheKey → Bool) (asBatch : Bool) :
    (cache.invalidateIf goes asBatch).2.Kept := by
  have walked := kept.invalidateLoop goes cache.lruList.nodes 0 (List.Sublist.refl _)
  unfold BatchCache.invalidateIf
  dsimp only
  split
  · exact ⟨walked.indexed, walked.sized, walked.counted⟩
  · exact walked

theorem Kept.step (call : Call) : (cache.step call).Kept := by
  cases call with
  | get key nowMs => exact kept.get key nowMs
  | put key batch nowMs => exact (kept.put key batch nowMs).1
  | erase key => exact kept.erase key
  | invalidatePartition | invalidateTopic | invalidateOffsetRange => exact kept.invalidateIf _ _
  | resize newMaxBytes => exact (kept.resize newMaxBytes).1
  | clear => exact Kept.clear

theorem Kept.run (calls : List Call) : (Runs.run BatchCache.step cache calls).Kept := by
  induction calls generalizing cache with
  | nil => exact kept
  | cons call calls ih => exact ih (kept.step call)

end

def Call.Bounds : Call → Prop
  | .put .. => True
  | .resize .. => True
  | _ => False

/-- After any calls, map, list and byte count agree, and a put or a resize leaves the count
within a positive capacity. -/
theorem batch_cache_accounts (maxBytes : Int64) (calls : List Call) :
    (Runs.run step (create maxBytes) calls).Consistent ∧
      ∀ call : Call, call.Bounds → ((Runs.run step (create maxBytes) calls).step call).Within := by
  have kept := (Kept.create maxBytes).run calls
  refine ⟨kept.consistent, fun call bounds => ?_⟩
  cases call with
  | put key batch nowMs => exact (kept.put key batch nowMs).2
  | resize newMaxBytes => exact (kept.resize newMaxBytes).2
  | _ => exact bounds.elim

end TorrentMq.Storage.BatchCache
