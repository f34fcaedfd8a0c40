import TorrentMq.Client.GroupAssignors

/-! What the strategies of the group handler deal, for any subscriptions and any earlier assignment. -/

set_option autoImplicit false

namespace TorrentMq.Client.GroupAssignors

open Bytes Collections List

section

variable {topic : Bytes} (plain : 58 ∉ topic) (rest : Bytes)

include plain

theorem beforeColon_append :
    beforeColon (topic ++ 58 :: rest) = topic := by
  unfold beforeColon
  induction topic with
  | nil => rfl
  | cons byte topic ih =>
    rw [mem_cons, not_or] at plain
    rw [cons_append, takeWhile_cons_of_pos (by simpa using Ne.symm plain.1), ih plain.2]

theorem afterColon_append :
    afterColon (topic ++ 58 :: rest) = rest := by
  unfold afterColon
  induction topic with
  | nil => rfl
  | cons byte topic ih =>
    rw [mem_cons, not_or] at plain
    rw [cons_append, dropWhile_cons_of_pos (by simpa using Ne.symm plain.1), ih plain.2]

end

theorem colon_not_mem_beforeColon (text : Bytes) : 58 ∉ beforeColon text := by
  intro member
  exact absurd (mem_takeWhile_imp member) (by decide)

theorem isDigit_of_mem_decimal {value : Nat} {byte : UInt8} (member : byte ∈ decimal value) : isDigit byte = true := by
  obtain ⟨low, high⟩ := mem_decimal member
  exact decide_eq_true ⟨UInt8.le_iff_toNat_le.mpr low, UInt8.le_iff_toNat_le.mpr high⟩

theorem takeWhile_isDigit_decimal (value : Nat) : (decimal value).takeWhile isDigit = decimal value :=
  takeWhile_eq_self_iff.mpr fun _ member => isDigit_of_mem_decimal member

theorem isSpace_eq_false_of_isDigit {byte : UInt8} (digit : isDigit byte = true) : isSpace byte = false := by
  have bounds : 48 ≤ byte ∧ byte ≤ 57 := of_decide_eq_true digit
  rw [UInt8.le_iff_toNat_le, UInt8.le_iff_toNat_le] at bounds
  refine decide_eq_false ?_
  rintro (blank | ⟨-, below⟩)
  · rw [blank] at bounds
    exact absurd bounds.1 (by decide)
  · rw [UInt8.le_iff_toNat_le] at below
    exact absurd (bounds.1.trans below) (by decide)

theorem stoi_decimal {value : Nat} (small : value < 2 ^ 31) : stoi (decimal value) = some (value : Int) := by
  have isDigits : ∀ byte ∈ decimal value, isDigit byte = true := fun _ => isDigit_of_mem_decimal
  have digits := takeWhile_isDigit_decimal value
  have read := readDecimal_decimal value
  cases text : decimal value with
  | nil => exact absurd text (decimal_ne_nil value)
  | cons first rest =>
    rw [text] at isDigits digits read
    have digit := isDigits first mem_cons_self
    have unsigned : first ≠ 45 ∧ first ≠ 43 := by
      constructor
      · rintro rfl
        exact absurd digit (by decide)
      · rintro rfl
        exact absurd digit (by decide)
    have range : -2 ^ 31 ≤ (value : Int) ∧ (value : Int) < 2 ^ 31 := by omega
    unfold stoi
    rw [dropWhile_cons_of_neg (by simp [isSpace_eq_false_of_isDigit digit])]
    dsimp only
    split
    next signed => exact absurd (cons.inj signed).1 unsigned.1
    next signed => exact absurd (cons.inj signed).1 unsigned.2
    next => simp only [digits, read, isEmpty_cons, Bool.false_eq_true, if_false, if_pos range]

theorem partitionText_inj {topic other : Bytes} {partition index : Int} :
    partitionText topic partition = partitionText other index ↔ topic = other ∧ partition = index :=
  append_decimalInt_inj

/-- A subscription as it is parsed: every topic has a count that an `int` holds. -/
structure MemberSubscription.Parsed (subscription : MemberSubscription) : Prop where
  counted : ∀ topic, topic ∈ subscription.topics ↔ topic ∈ subscription.topicPartitionCounts.keys
  plain : ∀ topic ∈ subscription.topics, 58 ∉ topic
  small : ∀ topic, ∀ count ∈ subscription.topicPartitionCounts.find? topic, count < 2 ^ 31

variable {text : Bytes}

theorem stoi_lt {value : Int} (read : stoi text = some value) : value < 2 ^ 31 := by
  unfold stoi at read
  simp only [Option.ite_none_left_eq_some, Option.ite_none_right_eq_some, Option.some.injEq] at read
  obtain ⟨-, small, rfl⟩ := read
  exact small.2

theorem parseEntry_spec {entry topic : Bytes} {count : Int} (parsed : parseEntry entry = some (topic, count)) :
    58 ∉ topic ∧ count < 2 ^ 31 := by
  unfold parseEntry at parsed
  dsimp only at parsed
  split at parsed
  next => cases parsed
  next =>
    split at parsed
    next =>
      obtain ⟨rfl, rfl⟩ := Prod.mk.inj (Option.some.inj parsed)
      refine ⟨colon_not_mem_beforeColon _, ?_⟩
      cases read : stoi (afterColon (trim entry)) with
      | none => decide
      | some value => exact stoi_lt read
    next plain =>
      obtain ⟨rfl, rfl⟩ := Prod.mk.inj (Option.some.inj parsed)
      exact ⟨plain, by decide⟩

theorem parseSubscription_parsed (member : MemberRecord) : (parseSubscription member).Parsed := by
  have entry : ∀ declared ∈ declarations member, 58 ∉ declared.1 ∧ declared.2 < 2 ^ 31 := by
    intro declared listed
    obtain ⟨text, -, parsed⟩ := mem_filterMap.mp listed
    exact parseEntry_spec parsed
  have counts := OrderedMap.find?_foldl_insert Prod.fst Prod.snd (declarations member) .empty
  refine ⟨?_, ?_, ?_⟩
  · intro topic
    refine Iff.trans ?_ OrderedMap.mem_keys_iff_isSome.symm
    rcases counts topic with ⟨declared, listed, rfl, found⟩ | ⟨absent, found⟩
    · exact iff_of_true (mem_map_of_mem listed) (Option.isSome_of_mem found)
    · refine iff_of_false (fun member => ?_) (fun present => ?_)
      · obtain ⟨declared, listed, same⟩ := mem_map.mp member
        exact absent declared listed same
      · exact absurd (Option.isSome_iff_ne_none.mp present) (not_not.mpr found)
  · intro topic listed
    obtain ⟨declared, member, rfl⟩ := mem_map.mp listed
    exact (entry declared member).1
  · intro topic count counted
    rcases counts topic with ⟨declared, listed, -, found⟩ | ⟨-, found⟩
    · obtain rfl : declared.2 = count := Option.some.inj (found.symm.trans counted)
      exact (entry declared listed).2
    · cases found.symm.trans counted

variable {subscriptions : List MemberSubscription} {memberIds : List Bytes} {topic : Bytes}

theorem mem_allTopics : topic ∈ allTopics subscriptions ↔ ∃ subscription ∈ subscriptions, topic ∈ subscription.topics := by
  rw [allTopics, mem_dedup, mem_flatMap]

theorem lt_numPartitions {partition : Int} :
    partition < numPartitions subscriptions topic ↔
      partition < 1 ∨ ∃ subscription ∈ subscriptions,
        ∃ count ∈ subscription.topicPartitionCounts.find? topic, partition < count := by
  unfold numPartitions
  generalize (1 : Int) = largest
  induction subscriptions generalizing largest with
  | nil => simp
  | cons subscription subscriptions ih =>
    rw [foldl_cons, ih]
    cases found : subscription.topicPartitionCounts.find? topic with
    | none => simp [found]
    | some count =>
      simp only [mem_cons, exists_eq_or_imp, found, Option.mem_def, Option.some.injEq, exists_eq_left']
      rw [← or_assoc]
      refine or_congr_left ?_
      split <;> omega

theorem numPartitions_pos : 0 < numPartitions subscriptions topic := lt_numPartitions.mpr (.inl (by decide))

theorem numPartitions_lt (parsed : ∀ subscription ∈ subscriptions, subscription.Parsed) :
    numPartitions subscriptions topic < 2 ^ 31 := by
  have bound : ¬2 ^ 31 - 1 < numPartitions subscriptions topic := by
    rw [lt_numPartitions]
    rintro (first | ⟨subscription, listed, count, counted, above⟩)
    · exact absurd first (by decide)
    · have small := (parsed subscription listed).small topic count counted
      omega
  omega

/-- The text of a partition of a subscribed topic. -/
def IsPartition (subscriptions : List MemberSubscription) (text : Bytes) : Prop :=
  ∃ topic ∈ allTopics subscriptions, ∃ partition : Nat,
    (partition : Int) < numPartitions subscriptions topic ∧ text = partitionText topic partition

/-- The moves that make an assignment: no text is dealt twice, and members only get something. -/
structure Deals (memberIds : List Bytes) (result : Assignments) (moves : List (Bytes × Bytes)) :
    Prop where
  hands : ∀ member, handOf result member = dealtTo moves member
  owners : ∀ move ∈ moves, move.1 ∈ memberIds
  once : (moves.map Prod.snd).Nodup

def partitionTexts (subscriptions : List MemberSubscription) (topic : Bytes) : List Bytes :=
  (range (numPartitions subscriptions topic).toNat).map fun (p : Nat) => partitionText topic p

theorem nodup_partitionTexts : (partitionTexts subscriptions topic).Nodup := by
  refine List.Nodup.map ?_ nodup_range
  intro left right same
  exact Int.ofNat.inj (partitionText_inj.mp same).2

theorem mem_flatMap_partitionTexts (order : IterationOrder Bytes) :
    text ∈ (order.visit (allTopics subscriptions)).flatMap (partitionTexts subscriptions) ↔
      IsPartition subscriptions text := by
  simp only [mem_flatMap, (order.perm _).mem_iff, partitionTexts, mem_map, mem_range, IsPartition,
    Int.lt_toNat, eq_comm]

theorem nodup_flatMap_partitionTexts (order : IterationOrder Bytes) :
    ((order.visit (allTopics subscriptions)).flatMap (partitionTexts subscriptions)).Nodup := by
  have distinct : (order.visit (allTopics subscriptions)).Nodup :=
    (order.perm _).nodup_iff.mpr (nodup_dedup _)
  refine nodup_flatMap.mpr ⟨fun _ _ => nodup_partitionTexts, distinct.imp ?_⟩
  intro topic other different text first second
  obtain ⟨p, -, rfl⟩ := mem_map.mp first
  obtain ⟨q, -, same⟩ := mem_map.mp second
  exact different (partitionText_inj.mp same).1.symm

variable {member : Bytes}

variable {moves : List (Bytes × Bytes)}

theorem Deals.mem {result : Assignments} (deals : Deals memberIds result moves) :
    text ∈ handOf result member ↔ (member, text) ∈ moves := by
  rw [deals.hands, mem_dealtTo]

theorem deals_of_moves {initial : Assignments}
    (empty : ∀ member, handOf initial member = []) (owners : ∀ move ∈ moves, move.1 ∈ memberIds)
    (once : (moves.map Prod.snd).Nodup) : Deals memberIds (moves.foldl push initial) moves where
  hands member := by rw [handOf_foldl_push, empty, nil_append]
  owners := owners
  once := once

theorem numMembers_eq (few : memberIds.length < 2 ^ 31) : numMembers memberIds = memberIds.length :=
  Int32.toInt_ofNat_of_lt few

def rangeMoves (subscriptions : List MemberSubscription) (memberIds : List Bytes) (topic : Bytes) :
    List (Bytes × Bytes) :=
  blockMoves (fun p => partitionText topic (p : Int))
    (evenSize (numPartitions subscriptions topic).toNat memberIds.length) 0 0 memberIds

theorem foldl_assignBlock (topic : Bytes) (partitions owners : Nat) (memberIds : List Bytes) :
    ∀ (place start : Nat) (result : Assignments),
      start + ((range' place memberIds.length).map (evenSize partitions owners)).sum ≤ partitions →
      ((memberIds.zipIdx place).foldl (assignBlock topic partitions ((partitions : Int).tdiv owners)
        ((partitions : Int).tmod owners)) (result, (start : Int))).1 =
        (blockMoves (fun p => partitionText topic (p : Int)) (evenSize partitions owners) place start
          memberIds).foldl push result := by
  induction memberIds with
  | nil => exact fun _ _ _ _ => rfl
  | cons member memberIds ih =>
    intro place start result fits
    rw [length_cons, range'_succ, map_cons, sum_cons] at fits
    have size := tdiv_add_extra partitions owners place
    have whole : ((range (evenSize partitions owners place)).filter
        fun (p : Nat) => (start : Int) + (p : Int) < (partitions : Int)) =
          range (evenSize partitions owners place) := by
      refine filter_eq_self.mpr fun p below => decide_eq_true ?_
      have bound := mem_range.mp below
      omega
    have step : assignBlock topic partitions ((partitions : Int).tdiv owners) ((partitions : Int).tmod owners)
        (result, (start : Int)) (member, place) =
          ((((range (evenSize partitions owners place)).map fun p =>
            partitionText topic ((start + p : Nat) : Int)).map fun text => (member, text)).foldl push result,
              ((start + evenSize partitions owners place : Nat) : Int)) := by
      unfold assignBlock
      dsimp only
      rw [size, Int.toNat_natCast, whole, map_map, foldl_map]
      simp only [Function.comp_apply, Nat.cast_add]
    rw [zipIdx_cons, foldl_cons, step, ih _ _ _ (by omega), blockMoves, foldl_append]

/-- Moves that deal out each topic deal out all of them. -/
theorem deals_flatMap {movesOf : Bytes → List (Bytes × Bytes)} (order : IterationOrder Bytes)
    (members : ∀ topic, ∀ move ∈ movesOf topic, move.1 ∈ memberIds)
    (texts : ∀ topic, (movesOf topic).map Prod.snd = partitionTexts subscriptions topic) :
    ∃ moves, Deals memberIds (((order.visit (allTopics subscriptions)).flatMap movesOf).foldl push .empty) moves ∧
      ∀ text, text ∈ moves.map Prod.snd ↔ IsPartition subscriptions text := by
  have all : ((order.visit (allTopics subscriptions)).flatMap movesOf).map Prod.snd =
      (order.visit (allTopics subscriptions)).flatMap (partitionTexts subscriptions) := by
    rw [map_flatMap]
    exact congrArg (fun deal => flatMap deal _) (funext texts)
  refine ⟨_, deals_of_moves (fun _ => rfl) (fun move listed => ?_) ?_, fun text => by
    rw [all, mem_flatMap_partitionTexts]⟩
  · obtain ⟨topic, -, moved⟩ := mem_flatMap.mp listed
    exact members topic move moved
  · rw [all]
    exact nodup_flatMap_partitionTexts order

section

variable (some_member : memberIds ≠ [])

include some_member

theorem assignRange_eq (few : memberIds.length < 2 ^ 31)
    (some_subscription : subscriptions ≠ []) (order : IterationOrder Bytes) :
    assignRange subscriptions memberIds order =
      ((order.visit (allTopics subscriptions)).flatMap (rangeMoves subscriptions memberIds)).foldl push .empty := by
  have accepted : ¬(memberIds.isEmpty || subscriptions.isEmpty) = true := by simp [some_member, some_subscription]
  unfold assignRange
  rw [if_neg accepted, foldl_flatMap, numMembers_eq few]
  dsimp only
  rw [Int.toNat_natCast, take_length]
  congr 1
  funext result topic
  obtain ⟨partitions, same⟩ := Int.eq_ofNat_of_zero_le (@numPartitions_pos subscriptions topic).le
  rw [rangeMoves, same, Int.toNat_natCast]
  refine foldl_assignBlock topic partitions memberIds.length memberIds 0 0 result ?_
  rw [Nat.zero_add, sum_evenSize (length_pos_iff.mpr some_member)]

theorem map_snd_rangeMoves :
    (rangeMoves subscriptions memberIds topic).map Prod.snd = partitionTexts subscriptions topic := by
  rw [rangeMoves, map_snd_blockMoves, sum_evenSize (length_pos_iff.mpr some_member), ← range_eq_range']
  rfl

theorem assignRange_deals (few : memberIds.length < 2 ^ 31)
    (some_subscription : subscriptions ≠ []) (order : IterationOrder Bytes) :
    ∃ moves, Deals memberIds (assignRange subscriptions memberIds order) moves ∧
      ∀ text, text ∈ moves.map Prod.snd ↔ IsPartition subscriptions text := by
  rw [assignRange_eq some_member few some_subscription]
  exact deals_flatMap order (fun _ _ => fst_mem_blockMoves) fun _ => map_snd_rangeMoves some_member

end

theorem assignRange_first {others : List Bytes} (few : others.length + 1 < 2 ^ 31)
    (order : IterationOrder Bytes) (subscribed : topic ∈ allTopics subscriptions) :
    partitionText topic 0 ∈ handOf (assignRange subscriptions (member :: others) order) member := by
  have some_subscription : subscriptions ≠ [] := by
    rintro rfl
    cases subscribed
  rw [assignRange_eq (cons_ne_nil _ _) few some_subscription, handOf_foldl_push, mem_append, mem_dealtTo]
  refine .inr (mem_flatMap.mpr ⟨topic, (order.perm _).mem_iff.mpr subscribed, ?_⟩)
  have some_partition : 0 < (numPartitions subscriptions topic).toNat := by
    have := @numPartitions_pos subscriptions topic
    omega
  refine mem_append_left _ (mem_map.mpr ⟨_, mem_map.mpr ⟨0, ?_, rfl⟩, rfl⟩)
  exact mem_range.mpr (evenSize_zero_pos some_partition (Nat.succ_pos _))

def roundRobinMoves (subscriptions : List MemberSubscription) (memberIds : List Bytes) (topic : Bytes) :
    List (Bytes × Bytes) := turnMoves memberIds [] (partitionTexts subscriptions topic) 0

section

variable (some_member : memberIds ≠ []) (few : memberIds.length < 2 ^ 31) (some_subscription : subscriptions ≠ [])
  (order : IterationOrder Bytes)
include some_member few some_subscription order

theorem assignRoundRobin_eq : assignRoundRobin subscriptions memberIds order =
      ((order.visit (allTopics subscriptions)).flatMap (roundRobinMoves subscriptions memberIds)).foldl push
        .empty := by
  have accepted : ¬(memberIds.isEmpty || subscriptions.isEmpty) = true := by simp [some_member, some_subscription]
  have turns : ∀ (count : Nat) (topic : Bytes),
      turnMoves memberIds [] ((range count).map fun (p : Nat) => partitionText topic p) 0 =
        (range count).map fun (p : Nat) =>
          (memberIds.getD ((p : Int).tmod memberIds.length).toNat [], partitionText topic p) := by
    intro count topic
    apply ext_getElem
    · simp [turnMoves]
    · intro index _ _
      have turn : ((index : Int).tmod memberIds.length).toNat = index % memberIds.length := by
        rw [← Int.ofNat_tmod, Int.toNat_natCast]
      simp [turnMoves, turn]
  unfold assignRoundRobin
  rw [if_neg accepted, foldl_flatMap, numMembers_eq few]
  dsimp only
  congr 1
  funext result topic
  rw [roundRobinMoves, partitionTexts, turns, foldl_map]

theorem assignRoundRobin_deals : ∃ moves, Deals memberIds (assignRoundRobin subscriptions memberIds order) moves ∧
      ∀ text, text ∈ moves.map Prod.snd ↔ IsPartition subscriptions text := by
  rw [assignRoundRobin_eq some_member few some_subscription]
  exact deals_flatMap order (fun _ _ => fst_mem_of_mem_turnMoves some_member) fun _ => map_snd_turnMoves _ _

end

/-- An assignment of an earlier generation: every text is of a partition, and with one member. -/
structure Remembered (previous : Assignments) : Prop where
  texts : ∀ member, ∀ text ∈ handOf previous member, ∃ topic : Bytes, 58 ∉ topic ∧
    ∃ partition : Nat, partition < 2 ^ 31 ∧ text = partitionText topic partition
  once : ∀ member, (handOf previous member).Nodup
  alone : ∀ member other, ∀ text ∈ handOf previous member, text ∈ handOf previous other → member = other

def Kept (topics : List Bytes) (text : Bytes) : Prop := 58 ∈ text ∧ beforeColon text ∈ topics

instance (topics : List Bytes) (text : Bytes) : Decidable (Kept topics text) :=
  inferInstanceAs (Decidable (_ ∧ _))

def partitionOf (text : Bytes) : Bytes × Int := (beforeColon text, (stoi (afterColon text)).getD 0)

theorem partitionOf_partitionText {partition : Nat} (plain : 58 ∉ topic) (small : partition < 2 ^ 31) :
    partitionOf (partitionText topic partition) = (topic, (partition : Int)) := by
  have written : decimalInt partition = decimal partition := by
    rw [decimalInt, if_neg (by omega), Int.natAbs_natCast]
  rw [partitionOf, partitionText, beforeColon_append plain, afterColon_append plain, written, stoi_decimal small]
  rfl

theorem Remembered.named {previous : Assignments} (remembered : Remembered previous)
    (had : text ∈ handOf previous member) : partitionText (partitionOf text).1 (partitionOf text).2 = text := by
  obtain ⟨topic, plain, partition, small, rfl⟩ := remembered.texts member text had
  rw [partitionOf_partitionText plain small]

def rememberedMoves (memberIds : List Bytes) (previous : Assignments) (order : IterationOrder Bytes) :
    List (Bytes × Bytes) :=
  ((order.visit previous.keys).filter fun member => member ∈ memberIds).flatMap fun member =>
    (handOf previous member).map fun text => (member, text)

def keptMoves (topics memberIds : List Bytes) (previous : Assignments) (order : IterationOrder Bytes) :
    List (Bytes × Bytes) :=
  (rememberedMoves memberIds previous order).filter fun move => Kept topics move.2

theorem foldl_preserve (topics : List Bytes) (moves : List (Bytes × Bytes))
    (assigned : List (Bytes × Int)) (assignments : Assignments) :
    moves.foldl (fun progress move => preserve topics move.1 progress move.2) (assigned, assignments) =
      (((moves.filter fun move => Kept topics move.2).map fun move => partitionOf move.2).reverse ++ assigned,
        (moves.filter fun move => Kept topics move.2).foldl push assignments) := by
  induction moves generalizing assigned assignments with
  | nil => rfl
  | cons move moves ih =>
    rw [foldl_cons]
    by_cases kept : Kept topics move.2
    · have step : preserve topics move.1 (assigned, assignments) move.2 =
          (partitionOf move.2 :: assigned, push assignments move) := if_pos kept
      rw [step, ih]
      simp [kept]
    · have step : preserve topics move.1 (assigned, assignments) move.2 = (assigned, assignments) := if_neg kept
      rw [step, ih]
      simp [kept]

theorem fewestMember_mem (some_member : memberIds ≠ []) (assignments : Assignments) :
    fewestMember assignments memberIds ∈ memberIds := by
  have among : ∀ (others : List Bytes) (best : Bytes), best ∈ memberIds → (∀ id ∈ others, id ∈ memberIds) →
      others.foldl
        (fun best member =>
          if (handOf assignments member).length < (handOf assignments best).length then member else best)
        best ∈ memberIds := by
    intro others
    induction others with
    | nil => exact fun _ listed _ => listed
    | cons other others ih =>
      intro best listed all
      apply ih
      · dsimp only
        split
        next => exact all other mem_cons_self
        next => exact listed
      · exact fun id member => all id (mem_cons_of_mem other member)
  cases memberIds with
  | nil => exact absurd rfl some_member
  | cons first others => exact among _ _ mem_cons_self fun _ member => member

theorem foldl_distribute (some_member : memberIds ≠ []) (parts : List (Bytes × Int)) (distinct : parts.Nodup)
    (assigned : List (Bytes × Int)) (assignments : Assignments) :
    ∃ moves : List (Bytes × Bytes),
      (parts.foldl (distribute memberIds) (assigned, assignments)).2 = moves.foldl push assignments ∧
      (∀ move ∈ moves, move.1 ∈ memberIds) ∧
        moves.map Prod.snd =
          (parts.filter fun part => part ∉ assigned).map fun part => partitionText part.1 part.2 := by
  induction parts generalizing assigned assignments with
  | nil => exact ⟨[], rfl, nofun, rfl⟩
  | cons part parts ih =>
    obtain ⟨fresh, distinct⟩ := nodup_cons.mp distinct
    rw [foldl_cons]
    by_cases taken : part ∈ assigned
    · have step : distribute memberIds (assigned, assignments) part = (assigned, assignments) := if_pos taken
      rw [step, filter_cons_of_neg (by simpa using taken)]
      exact ih distinct assigned assignments
    · have step : distribute memberIds (assigned, assignments) part =
          (part :: assigned,
            push assignments (fewestMember assignments memberIds, partitionText part.1 part.2)) := if_neg taken
      obtain ⟨moves, same, owners, texts⟩ := ih distinct (part :: assigned)
        (push assignments (fewestMember assignments memberIds, partitionText part.1 part.2))
      refine ⟨(fewestMember assignments memberIds, partitionText part.1 part.2) :: moves, ?_, ?_, ?_⟩
      · rw [step, same, ← foldl_cons]
      · intro move listed
        rcases mem_cons.mp listed with rfl | later
        · exact fewestMember_mem some_member assignments
        · exact owners move later
      · rw [map_cons, texts, filter_cons_of_pos (by simpa using taken), map_cons]
        congr 2
        refine filter_congr fun other listed => ?_
        have different : other ≠ part := fun same => fresh (same ▸ listed)
        simp [different]

def partitionsOf (subscriptions : List MemberSubscription) (topic : Bytes) : List (Bytes × Int) :=
  (range (numPartitions subscriptions topic).toNat).map fun (p : Nat) => (topic, (p : Int))

theorem mem_flatMap_partitionsOf (order : IterationOrder Bytes) {part : Bytes × Int} :
    part ∈ (order.visit (allTopics subscriptions)).flatMap (partitionsOf subscriptions) ↔
      part.1 ∈ allTopics subscriptions ∧ 0 ≤ part.2 ∧ part.2 < numPartitions subscriptions part.1 := by
  obtain ⟨topic, partition⟩ := part
  simp only [mem_flatMap, (order.perm _).mem_iff, partitionsOf, mem_map, mem_range, Int.lt_toNat,
    Prod.mk.injEq]
  constructor
  · rintro ⟨other, subscribed, p, below, rfl, rfl⟩
    exact ⟨subscribed, Int.natCast_nonneg p, below⟩
  · rintro ⟨subscribed, nonneg, below⟩
    obtain ⟨p, rfl⟩ := Int.eq_ofNat_of_zero_le nonneg
    exact ⟨topic, subscribed, p, below, rfl, rfl⟩

theorem nodup_flatMap_partitionsOf (order : IterationOrder Bytes) :
    ((order.visit (allTopics subscriptions)).flatMap (partitionsOf subscriptions)).Nodup := by
  have texts : (((order.visit (allTopics subscriptions)).flatMap (partitionsOf subscriptions)).map
      fun part => partitionText part.1 part.2) =
        (order.visit (allTopics subscriptions)).flatMap (partitionTexts subscriptions) := by
    rw [map_flatMap]
    simp only [partitionsOf, map_map, Function.comp_def]
    rfl
  have distinct := @nodup_flatMap_partitionTexts subscriptions order
  rw [← texts] at distinct
  exact distinct.of_map _

variable {previous : Assignments} {previousOrder : IterationOrder Bytes}

variable {move : Bytes × Bytes}

theorem mem_rememberedMoves :
    move ∈ rememberedMoves memberIds previous previousOrder ↔
      move.1 ∈ memberIds ∧ move.2 ∈ handOf previous move.1 := by
  obtain ⟨member, text⟩ := move
  simp only [rememberedMoves, mem_flatMap, mem_filter, (previousOrder.perm _).mem_iff, decide_eq_true_eq,
    mem_map, Prod.mk.injEq]
  constructor
  · rintro ⟨_, ⟨-, joined⟩, _, had, rfl, rfl⟩
    exact ⟨joined, had⟩
  · rintro ⟨joined, had⟩
    refine ⟨member, ⟨?_, joined⟩, text, had, rfl, rfl⟩
    rw [OrderedMap.mem_keys_iff_isSome, Option.isSome_iff_ne_none]
    intro absent
    rw [handOf, absent] at had
    cases had

theorem nodup_rememberedMoves (remembered : Remembered previous) :
    ((rememberedMoves memberIds previous previousOrder).map Prod.snd).Nodup := by
  have visited : ((previousOrder.visit previous.keys).filter fun member => member ∈ memberIds).Nodup :=
    ((previousOrder.perm _).nodup_iff.mpr OrderedMap.nodup_keys).filter _
  have texts : (rememberedMoves memberIds previous previousOrder).map Prod.snd =
      ((previousOrder.visit previous.keys).filter fun member => member ∈ memberIds).flatMap (handOf previous) := by
    rw [rememberedMoves, map_flatMap]
    simp [Function.comp_def]
  rw [texts]
  refine nodup_flatMap.mpr ⟨fun member _ => remembered.once member, visited.imp ?_⟩
  intro member other different text first second
  exact different (remembered.alone member other text first second)

theorem assignSticky_moves (some_member : memberIds ≠ []) (some_subscription : subscriptions ≠ [])
    (previous : Assignments) (order previousOrder : IterationOrder Bytes) :
    ∃ later : List (Bytes × Bytes),
      assignSticky subscriptions memberIds previous order previousOrder =
        (keptMoves (allTopics subscriptions) memberIds previous previousOrder ++ later).foldl push
          (openHands memberIds) ∧
      (∀ move ∈ later, move.1 ∈ memberIds) ∧
      later.map Prod.snd =
        (((order.visit (allTopics subscriptions)).flatMap (partitionsOf subscriptions)).filter fun part =>
          part ∉ (keptMoves (allTopics subscriptions) memberIds previous previousOrder).map
            fun move => partitionOf move.2).map fun part => partitionText part.1 part.2 := by
  have accepted : ¬(memberIds.isEmpty || subscriptions.isEmpty) = true := by simp [some_member, some_subscription]
  have first : ((previousOrder.visit previous.keys).filter fun member => member ∈ memberIds).foldl
      (fun progress member => (handOf previous member).foldl (preserve (allTopics subscriptions) member) progress)
        ([], openHands memberIds) =
      (rememberedMoves memberIds previous previousOrder).foldl
        (fun progress move => preserve (allTopics subscriptions) move.1 progress move.2) ([], openHands memberIds) := by
    rw [rememberedMoves, foldl_flatMap]
    simp only [foldl_map]
  obtain ⟨later, same, owners, texts⟩ := foldl_distribute some_member
    ((order.visit (allTopics subscriptions)).flatMap (partitionsOf subscriptions)) (nodup_flatMap_partitionsOf order)
    (((keptMoves (allTopics subscriptions) memberIds previous previousOrder).map
      fun move => partitionOf move.2).reverse ++ [])
    ((keptMoves (allTopics subscriptions) memberIds previous previousOrder).foldl push (openHands memberIds))
  refine ⟨later, ?_, owners, ?_⟩
  · rw [foldl_append, ← same, foldl_flatMap]
    unfold assignSticky
    rw [if_neg accepted]
    dsimp only
    rw [first, foldl_preserve]
    rfl
  · rw [texts]
    simp only [append_nil, mem_reverse]

theorem mem_keptMoves {topics : List Bytes} :
    move ∈ keptMoves topics memberIds previous previousOrder ↔
      (move.1 ∈ memberIds ∧ move.2 ∈ handOf previous move.1) ∧ Kept topics move.2 := by
  rw [keptMoves, mem_filter, mem_rememberedMoves, decide_eq_true_eq]

theorem assignSticky_deals (some_member : memberIds ≠ []) (some_subscription : subscriptions ≠ [])
    (remembered : Remembered previous) (order : IterationOrder Bytes) :
    ∃ moves, Deals memberIds (assignSticky subscriptions memberIds previous order previousOrder) moves ∧
      (∀ member ∈ memberIds, ∀ text ∈ handOf previous member, Kept (allTopics subscriptions) text →
        (member, text) ∈ moves) ∧
      ∀ text, text ∈ moves.map Prod.snd ↔
        IsPartition subscriptions text ∨
          ∃ member ∈ memberIds, text ∈ handOf previous member ∧ Kept (allTopics subscriptions) text := by
  obtain ⟨later, same, owners, texts⟩ :=
    assignSticky_moves some_member some_subscription previous order previousOrder
  refine ⟨keptMoves (allTopics subscriptions) memberIds previous previousOrder ++ later, ?_, ?_, ?_⟩
  · rw [same]
    apply deals_of_moves (fun _ => handOf_openHands memberIds)
    · intro move listed
      rcases mem_append.mp listed with kept | dealt
      · exact (mem_keptMoves.mp kept).1.1
      · exact owners move dealt
    · rw [map_append, texts]
      refine List.Nodup.append ?_ ?_ ?_
      · exact (nodup_rememberedMoves remembered).sublist (filter_sublist.map Prod.snd)
      · refine ((nodup_flatMap_partitionsOf order).filter _).map ?_
        intro part other equal
        exact Prod.ext_iff.mpr (partitionText_inj.mp equal)
      · intro text first second
        obtain ⟨move, kept, rfl⟩ := mem_map.mp first
        obtain ⟨part, free, named⟩ := mem_map.mp second
        have own := remembered.named (mem_keptMoves.mp kept).1.2
        obtain rfl : partitionOf move.2 = part := Prod.ext_iff.mpr (partitionText_inj.mp (own.trans named.symm))
        exact of_decide_eq_true (mem_filter.mp free).2 (mem_map_of_mem kept)
  · intro member joined text had kept
    exact mem_append_left _ (mem_keptMoves.mpr ⟨⟨joined, had⟩, kept⟩)
  · intro text
    rw [map_append, mem_append, texts, or_comm]
    constructor
    · rintro (dealt | held)
      · obtain ⟨⟨topic, partition⟩, free, rfl⟩ := mem_map.mp dealt
        obtain ⟨subscribed, nonneg, below⟩ := (mem_flatMap_partitionsOf order).mp (mem_filter.mp free).1
        obtain ⟨p, rfl⟩ := Int.eq_ofNat_of_zero_le nonneg
        exact .inl ⟨topic, subscribed, p, below, rfl⟩
      · obtain ⟨move, kept, rfl⟩ := mem_map.mp held
        obtain ⟨⟨joined, had⟩, stays⟩ := mem_keptMoves.mp kept
        exact .inr ⟨move.1, joined, had, stays⟩
    · rintro (⟨topic, subscribed, p, below, rfl⟩ | ⟨member, joined, had, stays⟩)
      · by_cases taken : (topic, (p : Int)) ∈ (keptMoves (allTopics subscriptions) memberIds previous
            previousOrder).map fun move => partitionOf move.2
        · obtain ⟨move, kept, named⟩ := mem_map.mp taken
          have own := remembered.named (mem_keptMoves.mp kept).1.2
          rw [named] at own
          exact .inr (mem_map.mpr ⟨move, kept, own.symm⟩)
        · have listed := (@mem_flatMap_partitionsOf subscriptions order (topic, (p : Int))).mpr
            ⟨subscribed, Int.natCast_nonneg p, below⟩
          exact .inl (mem_map.mpr ⟨_, mem_filter.mpr ⟨listed, decide_eq_true taken⟩, rfl⟩)
      · exact .inr (mem_map.mpr ⟨(member, text), mem_keptMoves.mpr ⟨⟨joined, had⟩, stays⟩, rfl⟩)

theorem runAssignmentStrategy_deals (strategy : AssignmentStrategy) (some_member : memberIds ≠ [])
    (few : memberIds.length < 2 ^ 31) (some_subscription : subscriptions ≠ []) (remembered : Remembered previous)
    (orders : Orders) :
    ∃ moves, Deals memberIds (runAssignmentStrategy strategy subscriptions memberIds previous orders) moves ∧
      (∀ text, IsPartition subscriptions text → text ∈ moves.map Prod.snd) ∧
      ∀ text ∈ moves.map Prod.snd, IsPartition subscriptions text ∨
        ∃ member ∈ memberIds, text ∈ handOf previous member ∧ Kept (allTopics subscriptions) text := by
  cases strategy with
  | range =>
    obtain ⟨moves, deals, texts⟩ := assignRange_deals some_member few some_subscription orders.topics
    exact ⟨moves, deals, fun text => (texts text).mpr, fun text dealt => .inl ((texts text).mp dealt)⟩
  | roundRobin =>
    obtain ⟨moves, deals, texts⟩ := assignRoundRobin_deals some_member few some_subscription orders.topics
    exact ⟨moves, deals, fun text => (texts text).mpr, fun text dealt => .inl ((texts text).mp dealt)⟩
  | sticky =>
    obtain ⟨moves, deals, -, texts⟩ := assignSticky_deals some_member some_subscription remembered orders.topics
    exact ⟨moves, deals, fun text part => (texts text).mpr (.inl part), fun text => (texts text).mp⟩

theorem Deals.remembered {result : Assignments}
    (deals : Deals memberIds result moves) (parsed : ∀ subscription ∈ subscriptions, subscription.Parsed)
    (remembered : Remembered previous)
    (texts : ∀ text ∈ moves.map Prod.snd, IsPartition subscriptions text ∨
      ∃ member ∈ memberIds, text ∈ handOf previous member ∧ Kept (allTopics subscriptions) text) :
    Remembered result where
  texts member text had := by
    have dealt : text ∈ moves.map Prod.snd := mem_map.mpr ⟨(member, text), deals.mem.mp had, rfl⟩
    rcases texts text dealt with ⟨topic, subscribed, partition, below, rfl⟩ | ⟨owner, -, held, -⟩
    · obtain ⟨subscription, listed, named⟩ := mem_allTopics.mp subscribed
      have small := @numPartitions_lt _ topic parsed
      exact ⟨topic, (parsed subscription listed).plain topic named, partition, by omega, rfl⟩
    · exact remembered.texts owner text held
  once member := by
    rw [deals.hands]
    exact dealtTo_nodup deals.once
  alone member other text had held := owner_unique deals.once (deals.mem.mp had) (deals.mem.mp held)

end TorrentMq.Client.GroupAssignors
