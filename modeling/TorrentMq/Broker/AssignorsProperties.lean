import TorrentMq.Broker.Assignors

/-! The assignors divide all partitions, each of them once, and evenly or as they were before. -/

set_option autoImplicit false

namespace TorrentMq.Broker.Assignors

open Bytes Collections List OrderedMap

variable {members topics : List Bytes} {counts : OrderedMap Bytes Int}

def Present (topics : List Bytes) (counts : OrderedMap Bytes Int) (part : TopicPartition) : Prop :=
  part.1 ∈ topics ∧ 0 ≤ part.2 ∧ part.2 < partitionCount counts part.1

/-- Every partition is with one member once, and no member has anything else. -/
structure Assigns (result : PartitionAssignment) (members topics : List Bytes)
    (counts : OrderedMap Bytes Int) : Prop where
  keys : ∀ member, member ∈ result.keys ↔ member ∈ members
  assigned : ∀ part, Present topics counts part → ∃! member, part ∈ handOf result member
  once : ∀ member, (handOf result member).Nodup
  only : ∀ member, ∀ part ∈ handOf result member, Present topics counts part

def onTopic (result : PartitionAssignment) (topic member : Bytes) : List TopicPartition :=
  (handOf result member).filter fun part => part.1 = topic

variable {part : TopicPartition}

theorem mem_partitionsOf {topic : Bytes} :
    part ∈ partitionsOf counts topic ↔ part.1 = topic ∧ 0 ≤ part.2 ∧ part.2 < partitionCount counts topic := by
  unfold partitionsOf
  rw [mem_map]
  constructor
  · rintro ⟨p, member, rfl⟩
    rw [mem_range] at member
    exact ⟨rfl, by omega, by omega⟩
  · obtain ⟨name, p⟩ := part
    rintro ⟨rfl, nonneg, below⟩
    exact ⟨p.toNat, mem_range.mpr (by omega), Prod.ext rfl (Int.toNat_of_nonneg nonneg)⟩

theorem mem_flatMap_partitionsOf :
    part ∈ topics.flatMap (partitionsOf counts) ↔ Present topics counts part := by
  rw [mem_flatMap, Present]
  constructor
  · rintro ⟨topic, member, within⟩
    obtain ⟨rfl, bounds⟩ := mem_partitionsOf.mp within
    exact ⟨member, bounds⟩
  · rintro ⟨member, bounds⟩
    exact ⟨part.1, member, mem_partitionsOf.mpr ⟨rfl, bounds⟩⟩

theorem nodup_partitionsOf (topic : Bytes) : (partitionsOf counts topic).Nodup := by
  refine List.Nodup.map ?_ nodup_range
  intro left right same
  exact Int.ofNat.inj (congrArg Prod.snd same)

theorem nodup_flatMap_partitionsOf (distinct : topics.Nodup) : (topics.flatMap (partitionsOf counts)).Nodup := by
  refine nodup_flatMap.mpr ⟨fun topic _ => nodup_partitionsOf topic, distinct.imp ?_⟩
  intro topic other different part member member'
  exact different ((mem_partitionsOf.mp member).1.symm.trans (mem_partitionsOf.mp member').1)

variable {moves : List (Bytes × TopicPartition)}

theorem assigns_of_moves (owners : ∀ move ∈ moves, move.1 ∈ members)
    (once : (moves.map Prod.snd).Nodup) (all : ∀ part, part ∈ moves.map Prod.snd ↔ Present topics counts part) :
    Assigns (moves.foldl push (openHands (members.insertionSort (· ≤ ·)))) members topics counts := by
  have hand : ∀ member, handOf (moves.foldl push (openHands (members.insertionSort (· ≤ ·)))) member =
      dealtTo moves member := by
    intro member
    rw [handOf_foldl_push, handOf_openHands, nil_append]
  refine ⟨?_, ?_, ?_, ?_⟩
  · intro member
    rw [mem_keys_foldl_push, mem_keys_openHands, mem_insertionSort, or_iff_left_of_imp]
    intro moved
    obtain ⟨move, listed, rfl⟩ := mem_map.mp moved
    exact owners move listed
  · intro part present
    obtain ⟨⟨member, moved⟩, listed, rfl⟩ := mem_map.mp ((all part).mpr present)
    refine ⟨member, ?_, ?_⟩
    · dsimp only
      rw [hand, mem_dealtTo]
      exact listed
    · intro other holds
      rw [hand, mem_dealtTo] at holds
      exact owner_unique once holds listed
  · intro member
    rw [hand]
    exact dealtTo_nodup once
  · intro member part holds
    rw [hand, mem_dealtTo] at holds
    exact (all part).mp (mem_map_of_mem holds)

theorem memberCount_eq (few : members.length < 2 ^ 31) :
    memberCount (members.insertionSort (· ≤ ·)) = members.length := by
  rw [memberCount, length_insertionSort]
  exact Int32.toInt_ofNat_of_lt few

theorem sorted_ne_nil (some_member : members ≠ []) : members.insertionSort (· ≤ ·) ≠ [] := by
  intro none
  rw [← length_eq_zero_iff, length_insertionSort, length_eq_zero_iff] at none
  exact some_member none

theorem sorted_nodup (distinct : members.Nodup) : (members.insertionSort (· ≤ ·)).Nodup :=
  (perm_insertionSort (· ≤ ·) members).nodup_iff.mpr distinct

def rangeMoves (members : List Bytes) (counts : OrderedMap Bytes Int) (topic : Bytes) :
    List (Bytes × TopicPartition) :=
  blockMoves (fun p => (topic, (p : Int))) (evenSize (partitionCount counts topic).toNat members.length) 0 0
    (members.insertionSort (· ≤ ·))

theorem foldl_assignBlock (topic : Bytes) (partitions owners : Nat) :
    ∀ (sortedMembers : List Bytes) (place start : Nat) (result : PartitionAssignment),
      ((sortedMembers.zipIdx place).foldl (assignBlock topic ((partitions : Int).tdiv owners)
        ((partitions : Int).tmod owners)) (result, (start : Int))).1 =
        (blockMoves (fun p => (topic, (p : Int))) (evenSize partitions owners) place start sortedMembers).foldl push
          result := by
  intro sortedMembers
  induction sortedMembers with
  | nil => exact fun _ _ _ => rfl
  | cons member sortedMembers ih =>
    intro place start result
    have size := tdiv_add_extra partitions owners place
    have step : assignBlock topic ((partitions : Int).tdiv owners) ((partitions : Int).tmod owners)
        (result, (start : Int)) (member, place) =
          ((((List.range (evenSize partitions owners place)).map fun p => (topic, ((start + p : Nat) : Int))).map
            fun item => (member, item)).foldl push result, ((start + evenSize partitions owners place : Nat) : Int)) := by
      unfold assignBlock
      dsimp only
      rw [size, Int.toNat_natCast, map_map, foldl_map]
      simp only [Function.comp_apply, Nat.cast_add]
    rw [zipIdx_cons, foldl_cons, step, ih, blockMoves, foldl_append]

theorem assignRange_eq (some_member : members ≠ []) (few : members.length < 2 ^ 31) :
    assignRange members topics counts =
      (topics.flatMap (rangeMoves members counts)).foldl push (openHands (members.insertionSort (· ≤ ·))) := by
  have nonempty : ¬members.isEmpty := by simpa using some_member
  unfold assignRange
  rw [if_neg nonempty, foldl_flatMap]
  dsimp only
  congr 1
  funext result topic
  rw [memberCount_eq few, Int.toNat_natCast, take_of_length_le (length_insertionSort (· ≤ ·) members).le]
  split
  next none =>
    have zero : (partitionCount counts topic).toNat = 0 := Int.toNat_of_nonpos none
    have empty : (rangeMoves members counts topic).map Prod.snd = [] := by
      have some_owner : 0 < members.length := length_pos_iff.mpr some_member
      rw [rangeMoves, map_snd_blockMoves, length_insertionSort, sum_evenSize some_owner, zero]
      rfl
    rw [map_eq_nil_iff.mp empty]
    rfl
  next some =>
    obtain ⟨partitions, same⟩ := Int.eq_ofNat_of_zero_le (Int.not_le.mp some).le
    rw [rangeMoves, same, Int.toNat_natCast]
    exact foldl_assignBlock topic partitions members.length _ 0 0 result

theorem map_snd_rangeMoves (some_member : members ≠ []) (topic : Bytes) :
    (rangeMoves members counts topic).map Prod.snd = partitionsOf counts topic := by
  rw [rangeMoves, map_snd_blockMoves, length_insertionSort, sum_evenSize (length_pos_iff.mpr some_member),
    ← range_eq_range', partitionsOf]

variable {move : Bytes × TopicPartition}

theorem fst_mem_rangeMoves {topic : Bytes}
    (listed : move ∈ rangeMoves members counts topic) : move.1 ∈ members :=
  (mem_insertionSort (· ≤ ·)).mp (fst_mem_blockMoves listed)

section

variable (some_member : members ≠ []) (few : members.length < 2 ^ 31)
include some_member few

theorem assignRange_assigns (distinct : topics.Nodup) :
    Assigns (assignRange members topics counts) members topics counts := by
  have parts : (topics.flatMap (rangeMoves members counts)).map Prod.snd = topics.flatMap (partitionsOf counts) := by
    rw [map_flatMap]
    exact congrArg (fun deal => topics.flatMap deal) (funext (map_snd_rangeMoves some_member))
  rw [assignRange_eq some_member few]
  refine assigns_of_moves ?_ ?_ ?_
  · intro move listed
    obtain ⟨topic, -, moved⟩ := mem_flatMap.mp listed
    exact fst_mem_rangeMoves moved
  · rw [parts]
    exact nodup_flatMap_partitionsOf distinct
  · rw [parts]
    exact fun part => mem_flatMap_partitionsOf

theorem onTopic_assignRange (distinct : topics.Nodup)
    {topic : Bytes} (named : topic ∈ topics) (member : Bytes) :
    onTopic (assignRange members topics counts) topic member = dealtTo (rangeMoves members counts topic) member := by
  have own : ∀ other, (dealtTo (rangeMoves members counts other) member).filter (fun part => part.1 = topic) =
      if other = topic then dealtTo (rangeMoves members counts other) member else [] := by
    intro other
    have about : ∀ part ∈ dealtTo (rangeMoves members counts other) member, part.1 = other := by
      intro part moved
      have listed : part ∈ (rangeMoves members counts other).map Prod.snd :=
        mem_map.mpr ⟨(member, part), mem_dealtTo.mp moved, rfl⟩
      rw [map_snd_rangeMoves some_member] at listed
      exact (mem_partitionsOf.mp listed).1
    split
    next same => exact filter_eq_self.mpr fun part moved => by simp [about part moved, same]
    next different => exact filter_eq_nil_iff.mpr fun part moved => by simp [about part moved, different]
  have all : ∀ topics : List Bytes, topics.Nodup → topic ∈ topics →
      (dealtTo (topics.flatMap (rangeMoves members counts)) member).filter (fun part => part.1 = topic) =
        dealtTo (rangeMoves members counts topic) member := by
    intro topics
    have absent : ∀ topics : List Bytes, topic ∉ topics →
        (dealtTo (topics.flatMap (rangeMoves members counts)) member).filter (fun part => part.1 = topic) = [] := by
      intro topics
      induction topics with
      | nil => exact fun _ => rfl
      | cons other topics ih =>
        intro fresh
        rw [mem_cons, not_or] at fresh
        rw [flatMap_cons, dealtTo_append, filter_append, own, if_neg (Ne.symm fresh.1), ih fresh.2]
        rfl
    induction topics with
    | nil => exact fun _ none => absurd none not_mem_nil
    | cons other topics ih =>
      intro distinct named
      obtain ⟨fresh, distinct⟩ := nodup_cons.mp distinct
      rw [flatMap_cons, dealtTo_append, filter_append, own]
      by_cases same : other = topic
      · rw [if_pos same, absent topics (same ▸ fresh), append_nil, same]
      · rw [if_neg same, ih distinct ((mem_cons.mp named).resolve_left (Ne.symm same)), nil_append]
  rw [onTopic, assignRange_eq some_member few, handOf_foldl_push, handOf_openHands, nil_append]
  exact all topics distinct named

theorem assignRange_even (distinct : topics.Nodup) (apart : members.Nodup) {topic : Bytes}
    (named : topic ∈ topics) {member other : Bytes} (joined : member ∈ members) (joined' : other ∈ members) :
    (onTopic (assignRange members topics counts) topic member).length ≤
      (onTopic (assignRange members topics counts) topic other).length + 1 := by
  obtain ⟨index, within, rfl⟩ := getElem_of_mem ((mem_insertionSort (· ≤ ·)).mpr joined)
  obtain ⟨place, within', rfl⟩ := getElem_of_mem ((mem_insertionSort (· ≤ ·)).mpr joined')
  rw [onTopic_assignRange some_member few distinct named, onTopic_assignRange some_member few distinct named,
    rangeMoves, length_dealtTo_blockMoves (sorted_nodup apart) 0 0 index within,
    length_dealtTo_blockMoves (sorted_nodup apart) 0 0 place within']
  exact evenSize_le _ _ _ _

theorem assignRoundrobin_eq : assignRoundrobin members topics counts =
      (turnMoves (members.insertionSort (· ≤ ·)) []
        ((topics.insertionSort (· ≤ ·)).flatMap (partitionsOf counts)) 0).foldl push
          (openHands (members.insertionSort (· ≤ ·))) := by
  have nonempty : ¬members.isEmpty := by simpa using some_member
  have size : (memberCount (members.insertionSort (· ≤ ·)) % 2 ^ 64).toNat = (members.insertionSort (· ≤ ·)).length := by
    rw [memberCount_eq few, length_insertionSort]
    omega
  unfold assignRoundrobin
  rw [if_neg nonempty]
  dsimp only
  rw [size, turnMoves, foldl_map]

theorem assignRoundrobin_assigns
    (distinct : topics.Nodup) : Assigns (assignRoundrobin members topics counts) members topics counts := by
  rw [assignRoundrobin_eq some_member few]
  refine assigns_of_moves ?_ ?_ ?_
  · intro move listed
    exact (mem_insertionSort (· ≤ ·)).mp (fst_mem_of_mem_turnMoves (sorted_ne_nil some_member) listed)
  · rw [map_snd_turnMoves]
    exact nodup_flatMap_partitionsOf (sorted_nodup distinct)
  · intro part
    rw [map_snd_turnMoves, mem_flatMap_partitionsOf, Present, Present, mem_insertionSort]

theorem assignRoundrobin_even (apart : members.Nodup)
    {member other : Bytes} (joined : member ∈ members) (joined' : other ∈ members) :
    (handOf (assignRoundrobin members topics counts) member).length ≤
      (handOf (assignRoundrobin members topics counts) other).length + 1 := by
  rw [assignRoundrobin_eq some_member few, handOf_foldl_push, handOf_foldl_push, handOf_openHands, handOf_openHands]
  exact length_dealtTo_turnMoves_le (sorted_nodup apart) _ ((mem_insertionSort (· ≤ ·)).mpr joined)
    ((mem_insertionSort (· ≤ ·)).mpr joined')

end

/-- What the first pass has dealt: partitions that their members had before. -/
structure Preserved (counts : OrderedMap Bytes Int) (candidates : List (Bytes × TopicPartition))
    (initial : PartitionAssignment) (progress : List TopicPartition × PartitionAssignment)
    (moves : List (Bytes × TopicPartition)) : Prop where
  dealt : progress.2 = moves.foldl push initial
  claimed : ∀ part, part ∈ progress.1 ↔ part ∈ moves.map Prod.snd
  once : (moves.map Prod.snd).Nodup
  had : ∀ move ∈ moves, move ∈ candidates ∧ ∃ count, counts.find? move.2.1 = some count ∧ move.2.2 < count
  kept : ∀ move ∈ candidates, ∀ count, counts.find? move.2.1 = some count → move.2.2 < count →
    move.2 ∈ moves.map Prod.snd

theorem Preserved.step {initial : PartitionAssignment} {candidates : List (Bytes × TopicPartition)}
    {progress : List TopicPartition × PartitionAssignment}
    (before : Preserved counts candidates initial progress moves) (member : Bytes) (part : TopicPartition) :
    ∃ moves, Preserved counts (candidates ++ [(member, part)]) initial (preserve counts member progress part)
      moves := by
  obtain ⟨claimed, result⟩ := progress
  have old : ∀ move ∈ moves, move ∈ candidates ++ [(member, part)] ∧
      ∃ count, counts.find? move.2.1 = some count ∧ move.2.2 < count := fun move listed =>
    ⟨mem_append_left _ (before.had move listed).1, (before.had move listed).2⟩
  cases found : counts.find? part.1 with
  | none =>
    have same : preserve counts member (claimed, result) part = (claimed, result) := by simp [preserve, found]
    rw [same]
    refine ⟨moves, before.dealt, before.claimed, before.once, old, ?_⟩
    intro move listed count counted
    rcases mem_append.mp listed with earlier | last
    · exact before.kept move earlier count counted
    · rw [mem_singleton.mp last, found] at counted
      cases counted
  | some count =>
    by_cases open_part : part.2 < count ∧ part ∉ claimed
    · have taken : preserve counts member (claimed, result) part =
          (part :: claimed, push result (member, part)) := by simp [preserve, found, open_part]
      have fresh : part ∉ moves.map Prod.snd := fun used => open_part.2 ((before.claimed part).mpr used)
      refine ⟨moves ++ [(member, part)], ?_, ?_, ?_, ?_, ?_⟩
      · rw [taken, foldl_append, ← before.dealt]
        rfl
      · intro other
        rw [taken, mem_cons, before.claimed other, map_append, mem_append, or_comm]
        simp
      · rw [map_append]
        exact List.Nodup.append before.once (nodup_singleton _) (by simpa using fresh)
      · intro move listed
        rcases mem_append.mp listed with earlier | last
        · exact old move earlier
        · rw [mem_singleton.mp last]
          exact ⟨by simp, count, found, open_part.1⟩
      · intro move listed limit counted below
        rw [map_append, mem_append]
        rcases mem_append.mp listed with earlier | last
        · exact .inl (before.kept move earlier limit counted below)
        · rw [mem_singleton.mp last]
          exact .inr (by simp)
    · have same : preserve counts member (claimed, result) part = (claimed, result) := by
        simp [preserve, found, open_part]
      rw [same]
      refine ⟨moves, before.dealt, before.claimed, before.once, old, ?_⟩
      intro move listed limit counted below
      rcases mem_append.mp listed with earlier | last
      · exact before.kept move earlier limit counted below
      · rw [mem_singleton.mp last] at counted below ⊢
        rw [found] at counted
        cases counted
        exact (before.claimed part).mp (Decidable.not_not.mp fun fresh => open_part ⟨below, fresh⟩)

theorem preserved_run (counts : OrderedMap Bytes Int) (initial : PartitionAssignment)
    (candidates : List (Bytes × TopicPartition)) :
    ∃ moves, Preserved counts candidates initial
      (candidates.foldl (fun progress move => preserve counts move.1 progress move.2) ([], initial)) moves := by
  induction candidates using List.reverseRecOn with
  | nil => exact ⟨[], rfl, by simp, nodup_nil, by simp, by simp⟩
  | append_singleton candidates move ih =>
    obtain ⟨moves, before⟩ := ih
    rw [foldl_append]
    exact before.step move.1 move.2

theorem foldl_turns (sortedMembers : List Bytes) (parts : List TopicPartition) (start : Nat)
    (result : PartitionAssignment) :
    (parts.foldl (fun (progress : PartitionAssignment × Nat) part =>
        (push progress.1 (sortedMembers.getD progress.2 [], part), (progress.2 + 1) % sortedMembers.length))
      (result, start % sortedMembers.length)).1 = (turnMoves sortedMembers [] parts start).foldl push result := by
  induction parts generalizing start result with
  | nil => rfl
  | cons part parts ih =>
    rw [foldl_cons, Nat.mod_add_mod, ih]
    simp [turnMoves]

def previousMoves (members : List Bytes) (previous : PartitionAssignment) : List (Bytes × TopicPartition) :=
  (members.insertionSort (· ≤ ·)).flatMap fun member => (handOf previous member).map fun part => (member, part)

variable {previous : PartitionAssignment}

theorem mem_previousMoves :
    move ∈ previousMoves members previous ↔ move.1 ∈ members ∧ move.2 ∈ handOf previous move.1 := by
  simp only [previousMoves, mem_flatMap, mem_insertionSort, mem_map]
  constructor
  · rintro ⟨member, joined, part, had, rfl⟩
    exact ⟨joined, had⟩
  · rintro ⟨joined, had⟩
    exact ⟨move.1, joined, move.2, had, rfl⟩

def unclaimed (topics : List Bytes) (counts : OrderedMap Bytes Int) (claimed : List TopicPartition) :
    List TopicPartition :=
  topics.flatMap fun topic => (partitionsOf counts topic).filter fun part => part ∉ claimed

theorem unclaimed_eq (topics : List Bytes) (claimed : List TopicPartition) :
    unclaimed topics counts claimed = (topics.flatMap (partitionsOf counts)).filter fun part => part ∉ claimed := by
  induction topics with
  | nil => rfl
  | cons topic topics ih => rw [flatMap_cons, filter_append, ← ih]; rfl

theorem assignSticky_moves (topics : List Bytes) (counts : OrderedMap Bytes Int) (some_member : members ≠ [])
    (previous : PartitionAssignment) :
    ∃ claimed kept, Preserved counts (previousMoves members previous) (openHands (members.insertionSort (· ≤ ·)))
        claimed kept ∧
      assignSticky members topics counts previous =
        (kept ++ turnMoves (members.insertionSort (· ≤ ·)) [] (unclaimed topics counts claimed.1) 0).foldl push
          (openHands (members.insertionSort (· ≤ ·))) := by
  obtain ⟨kept, passed⟩ := preserved_run counts (openHands (members.insertionSort (· ≤ ·)))
    (previousMoves members previous)
  refine ⟨_, kept, passed, ?_⟩
  have nonempty : ¬members.isEmpty := by simpa using some_member
  have flat : (members.insertionSort (· ≤ ·)).foldl
      (fun progress member => (handOf previous member).foldl (preserve counts member) progress)
        ([], openHands (members.insertionSort (· ≤ ·))) =
      (previousMoves members previous).foldl (fun progress move => preserve counts move.1 progress move.2)
        ([], openHands (members.insertionSort (· ≤ ·))) := by
    rw [previousMoves, foldl_flatMap]
    simp only [foldl_map]
  have turns := foldl_turns (members.insertionSort (· ≤ ·))
    (unclaimed topics counts ((previousMoves members previous).foldl
      (fun progress move => preserve counts move.1 progress move.2)
        ([], openHands (members.insertionSort (· ≤ ·)))).1) 0
  unfold assignSticky
  rw [if_neg nonempty]
  dsimp only
  rw [flat, foldl_append, ← passed.dealt, ← turns, Nat.zero_mod]
  rfl

theorem assignSticky_assigns (some_member : members ≠ []) (distinct : topics.Nodup)
    (named : ∀ topic, topic ∈ counts.keys ↔ topic ∈ topics)
    (numbered : ∀ member, ∀ part ∈ handOf previous member, 0 ≤ part.2) :
    Assigns (assignSticky members topics counts previous) members topics counts := by
  obtain ⟨claimed, kept, passed, same⟩ := assignSticky_moves topics counts some_member previous
  have present : ∀ part ∈ kept.map Prod.snd, Present topics counts part := by
    intro part listed
    obtain ⟨move, moved, rfl⟩ := mem_map.mp listed
    obtain ⟨candidate, count, found, below⟩ := passed.had move moved
    obtain ⟨-, had⟩ := mem_previousMoves.mp candidate
    refine ⟨(named _).mp (mem_keys.mpr ⟨count, find?_eq_some_iff.mp found⟩),
      numbered move.1 move.2 had, ?_⟩
    rw [partitionCount, found]
    exact below
  rw [same]
  refine assigns_of_moves ?_ ?_ ?_
  · intro move listed
    rcases mem_append.mp listed with first | second
    · exact (mem_previousMoves.mp (passed.had move first).1).1
    · exact (mem_insertionSort (· ≤ ·)).mp (fst_mem_of_mem_turnMoves (sorted_ne_nil some_member) second)
  · rw [map_append, map_snd_turnMoves, unclaimed_eq]
    refine List.Nodup.append passed.once ((nodup_flatMap_partitionsOf distinct).filter _) ?_
    intro part first second
    have free := of_decide_eq_true (List.mem_filter.mp second).2
    exact free ((passed.claimed part).mpr first)
  · intro part
    rw [map_append, map_snd_turnMoves, unclaimed_eq, mem_append, List.mem_filter, mem_flatMap_partitionsOf]
    constructor
    · rintro (first | ⟨exists_part, -⟩)
      · exact present part first
      · exact exists_part
    · intro exists_part
      by_cases taken : part ∈ claimed.1
      · exact .inl ((passed.claimed part).mp taken)
      · exact .inr ⟨exists_part, decide_eq_true taken⟩

theorem assignSticky_keeps (some_member : members ≠ [])
    (present : Present topics counts part) (named : ∀ topic, topic ∈ counts.keys ↔ topic ∈ topics)
    {member : Bytes} (joined : member ∈ members) (had : part ∈ handOf previous member)
    (alone : ∀ other ∈ members, part ∈ handOf previous other → other = member) :
    part ∈ handOf (assignSticky members topics counts previous) member := by
  obtain ⟨claimed, kept, passed, same⟩ := assignSticky_moves topics counts some_member previous
  obtain ⟨count, counted⟩ := mem_keys.mp ((named _).mpr present.1)
  have found : counts.find? part.1 = some count := find?_eq_some_iff.mpr counted
  have below : part.2 < count := by
    have bound := present.2.2
    rwa [partitionCount, found] at bound
  obtain ⟨⟨owner, moved⟩, listed, rfl⟩ :=
    mem_map.mp (passed.kept (member, part) (mem_previousMoves.mpr ⟨joined, had⟩) count found below)
  obtain ⟨survives, owned⟩ := mem_previousMoves.mp (passed.had _ listed).1
  obtain rfl : owner = member := alone owner survives owned
  rw [same, handOf_foldl_push, handOf_openHands, nil_append, dealtTo_append]
  exact mem_append_left _ (mem_dealtTo.mpr listed)

/-- Every strategy divides the partitions, and each in its own way. -/
theorem assignors_divide (members topics : List Bytes) (counts : OrderedMap Bytes Int)
    (previous : PartitionAssignment) (some_member : members ≠ []) (few : members.length < 2 ^ 31)
    (apart : members.Nodup) (distinct : topics.Nodup) (named : ∀ topic, topic ∈ counts.keys ↔ topic ∈ topics)
    (numbered : ∀ member, ∀ part ∈ handOf previous member, 0 ≤ part.2) :
    Assigns (assignRange members topics counts) members topics counts ∧
    Assigns (assignRoundrobin members topics counts) members topics counts ∧
    Assigns (assignSticky members topics counts previous) members topics counts ∧
    (∀ topic ∈ topics, ∀ member ∈ members, ∀ other ∈ members,
      (onTopic (assignRange members topics counts) topic member).length ≤
        (onTopic (assignRange members topics counts) topic other).length + 1) ∧
    (∀ member ∈ members, ∀ other ∈ members,
      (handOf (assignRoundrobin members topics counts) member).length ≤
        (handOf (assignRoundrobin members topics counts) other).length + 1) ∧
    (∀ part, Present topics counts part → ∀ member ∈ members, part ∈ handOf previous member →
      (∀ other ∈ members, part ∈ handOf previous other → other = member) →
        part ∈ handOf (assignSticky members topics counts previous) member) :=
  ⟨assignRange_assigns some_member few distinct, assignRoundrobin_assigns some_member few distinct,
    assignSticky_assigns some_member distinct named numbered,
    fun _ topic _ joined _ joined' => assignRange_even some_member few distinct apart topic joined joined',
    fun _ joined _ joined' => assignRoundrobin_even some_member few apart joined joined',
    fun _ present _ joined had alone => assignSticky_keeps some_member present named joined had alone⟩

/-- Two members, of which one had a partition of the topic "t" before. -/
theorem assignors_divide_pair :
    Assigns (assignSticky [[98], [97]] [[116]] (empty.insert [116] 3)
        (empty.insert [98] [([116], 2)])) [[98], [97]] [[116]] (empty.insert [116] 3) ∧
      ([116], (2 : Int)) ∈ handOf (assignSticky [[98], [97]] [[116]] (empty.insert [116] 3)
        (empty.insert [98] [([116], 2)])) [98] := by
  have owned : ∀ (member : Bytes) (part : TopicPartition),
      part ∈ handOf (empty.insert [98] [([116], 2)]) member → member = [98] ∧ part = ([116], 2) := by
    intro member part had
    rw [handOf_insert] at had
    split at had
    next same => exact ⟨same, mem_singleton.mp had⟩
    next => cases had
  obtain ⟨-, -, assigns, -, -, keeps⟩ :=
    assignors_divide [[98], [97]] [[116]] (empty.insert [116] 3)
      (empty.insert [98] [([116], 2)]) (cons_ne_nil _ _) (by decide) (by decide) (by decide)
      (by simp [mem_keys_insert])
      (fun member part had => by rw [(owned member part had).2]; decide)
  refine ⟨assigns, keeps ([116], 2) ⟨by decide, by decide, by decide⟩ [98] (by decide) (by decide) ?_⟩
  exact fun other _ had => (owned other _ had).1

def crowd : List Bytes := (List.range (2 ^ 31)).map fun number => encode 4 number

theorem assignRange_of_crowded {members : List Bytes} (crowded : members.length = 2 ^ 31) (member : Bytes) :
    handOf (assignRange members topics counts) member = [] := by
  have negative : memberCount (members.insertionSort (· ≤ ·)) = -2 ^ 31 := by
    rw [memberCount, length_insertionSort, crowded]
    decide
  have unchanged : ∀ (topics : List Bytes) (result : PartitionAssignment),
      topics.foldl
        (fun result topic =>
          if partitionCount counts topic ≤ 0 then result
          else
            (((members.insertionSort (· ≤ ·)).take (-2 ^ 31 : Int).toNat).zipIdx.foldl
              (assignBlock topic ((partitionCount counts topic).tdiv (-2 ^ 31))
                ((partitionCount counts topic).tmod (-2 ^ 31))) (result, 0)).1)
        result = result := by
    intro topics
    induction topics with
    | nil => exact fun _ => rfl
    | cons topic topics ih =>
      intro result
      rw [foldl_cons, ih]
      exact ite_self result
  unfold assignRange
  split
  next => rfl
  next =>
    dsimp only
    rw [negative, unchanged, handOf_openHands]

/-- No partition is assigned to 2147483648 members. -/
theorem assignRange_crowd :
    crowd ≠ [] ∧ crowd.Nodup ∧
      ¬Assigns (assignRange crowd [[116]] (empty.insert [116] 1)) crowd [[116]]
        (empty.insert [116] 1) := by
  have crowded : crowd.length = 2 ^ 31 := by
    rw [crowd, length_map, length_range]
  refine ⟨?_, ?_, ?_⟩
  · intro none
    rw [none] at crowded
    cases crowded
  · refine List.Nodup.map_on ?_ nodup_range
    intro number member other member' same
    have below := mem_range.mp member
    have below' := mem_range.mp member'
    rw [← decode_encode_of_lt (show number < 256 ^ 4 by omega), same,
      decode_encode_of_lt (show other < 256 ^ 4 by omega)]
  · intro assigns
    obtain ⟨member, holds, -⟩ := assigns.assigned ([116], 0) ⟨by decide, by decide, by decide⟩
    rw [assignRange_of_crowded crowded] at holds
    cases holds

end TorrentMq.Broker.Assignors
