import Mathlib.Data.Int.CardIntervalMod
import Mathlib.Data.Int.GCD
import Mathlib.Data.List.GetD
import Mathlib.Data.Nat.Count
import TorrentMq.Broker.TopicTable

/-!
# Round-robin placement

The brokers take turns: the replicas of the next partition begin behind those of
the one before. How often a broker leads depends on what the number of brokers
and the replication factor have in common.
-/

set_option autoImplicit false

namespace TorrentMq.Broker

open TopicTable List Nat

def Controllers.assignReplicasSimple (numPartitions replicationFactor : Nat) (brokers : List BrokerId) :
    List (List BrokerId) :=
  if brokers.isEmpty then List.replicate numPartitions []
  else assignFrom (min replicationFactor brokers.length) brokers numPartitions 0

/-- How many partitions a broker leads. The first replica is the leader. -/
def ledBy (assignments : List (List BrokerId)) (broker : BrokerId) : Nat :=
  assignments.countP fun replicas => replicas.head? = some broker

/-- Every partition has as many distinct ones of the brokers, and no broker leads two more than another one. -/
structure EvenlySpread (brokers : List BrokerId) (numPartitions replicationFactor : Nat)
    (assignments : List (List BrokerId)) : Prop where
  partitions : assignments.length = numPartitions
  replicas : ∀ replicas ∈ assignments, replicas.length = replicationFactor ∧ replicas.Nodup ∧ replicas ⊆ brokers
  leaders : ∀ first ∈ brokers, ∀ second ∈ brokers, ledBy assignments first ≤ ledBy assignments second + 1

section Turns

variable {brokerCount factor numPartitions : Nat}

/-- How often the turn comes to a place when each partition moves it on by the replication factor. -/
def turnsAt (brokerCount factor numPartitions place : Nat) : Nat :=
  count (fun partition => partition * factor % brokerCount = place) numPartitions

theorem turnsAt_of_coprime (coprime : factor.Coprime brokerCount) (some_broker : 0 < brokerCount) {place : Nat}
    (inside : place < brokerCount) : numPartitions / brokerCount ≤ turnsAt brokerCount factor numPartitions place ∧
      turnsAt brokerCount factor numPartitions place ≤ numPartitions / brokerCount + 1 := by
  obtain ⟨first, -, hits⟩ := exists_mul_mod_eq_of_coprime place coprime some_broker.ne'
  rw [mod_eq_of_lt inside, mul_comm] at hits
  have same : ∀ partition, partition * factor % brokerCount = place ↔ partition ≡ first [MOD brokerCount] := by
    intro partition
    constructor
    · exact fun hit => Nat.ModEq.cancel_right_of_coprime coprime.symm (hit.trans hits.symm)
    · exact fun congruent => Eq.trans (congruent.mul_right factor) hits
  unfold turnsAt
  simp only [same]
  rw [count_modEq_card numPartitions some_broker first]
  split <;> omega

theorem turnsAt_le_one (few : numPartitions * factor.gcd brokerCount ≤ brokerCount) (some_broker : 0 < brokerCount)
    (place : Nat) : turnsAt brokerCount factor numPartitions place ≤ 1 := by
  unfold turnsAt
  rw [count_eq_card_filter_range, Finset.card_le_one]
  intro left listed right other
  obtain ⟨inside, hit⟩ := Finset.mem_filter.mp listed
  obtain ⟨within, again⟩ := Finset.mem_filter.mp other
  have period : numPartitions ≤ brokerCount / brokerCount.gcd factor := by
    rw [Nat.gcd_comm]
    exact (le_div_iff_mul_le (Nat.gcd_pos_of_pos_right factor some_broker)).mpr few
  have congruent : left ≡ right [MOD brokerCount / brokerCount.gcd factor] :=
    Nat.ModEq.cancel_right_div_gcd some_broker (hit.trans again.symm)
  exact congruent.eq_of_lt_of_lt ((Finset.mem_range.mp inside).trans_le period)
    ((Finset.mem_range.mp within).trans_le period)

theorem turnsAt_one (shared : factor.gcd brokerCount ≠ 1) : turnsAt brokerCount factor numPartitions 1 = 0 := by
  refine count_of_forall_not fun partition _ hit => shared (dvd_one.mp ?_)
  rw [← hit, dvd_mod_iff (Nat.gcd_dvd_right factor brokerCount)]
  exact (Nat.gcd_dvd_left factor brokerCount).mul_left partition

theorem two_le_turnsAt_zero (some_broker : 0 < brokerCount)
    (many : brokerCount < numPartitions * factor.gcd brokerCount) : 2 ≤ turnsAt brokerCount factor numPartitions 0 := by
  have positive := Nat.gcd_pos_of_pos_right factor some_broker
  have period : brokerCount / factor.gcd brokerCount ≠ 0 :=
    (Nat.div_pos (Nat.le_of_dvd some_broker (Nat.gcd_dvd_right factor brokerCount)) positive).ne'
  have reached : brokerCount / factor.gcd brokerCount < numPartitions := (Nat.div_lt_iff_lt_mul positive).mpr many
  have back : brokerCount / factor.gcd brokerCount * factor % brokerCount = 0 := by
    obtain ⟨rest, whole⟩ := Nat.gcd_dvd_left factor brokerCount
    refine Nat.mod_eq_zero_of_dvd ⟨rest, ?_⟩
    nth_rewrite 2 [whole]
    rw [← Nat.mul_assoc, Nat.div_mul_cancel (Nat.gcd_dvd_right factor brokerCount)]
  unfold turnsAt
  rw [Nat.count_eq_card_filter_range, ← Finset.card_pair period.symm]
  refine Finset.card_le_card fun partition member => ?_
  rcases Finset.mem_insert.mp member with rfl | other
  · exact Finset.mem_filter.mpr ⟨Finset.mem_range.mpr (Nat.zero_lt_of_lt reached), by rw [Nat.zero_mul, Nat.zero_mod]⟩
  · rw [Finset.mem_singleton.mp other]
    exact Finset.mem_filter.mpr ⟨Finset.mem_range.mpr reached, back⟩

theorem turns_even_iff (some_replica : 1 ≤ factor) (enough : factor ≤ brokerCount) :
    (∀ first < brokerCount, ∀ second < brokerCount,
      turnsAt brokerCount factor numPartitions first ≤ turnsAt brokerCount factor numPartitions second + 1) ↔
      factor.gcd brokerCount = 1 ∨ numPartitions * factor.gcd brokerCount ≤ brokerCount := by
  have some_broker : 0 < brokerCount := by omega
  constructor
  · intro even
    by_contra neither
    obtain ⟨shared, many⟩ := not_or.mp neither
    have several : 1 < brokerCount := by
      have divides := Nat.gcd_dvd_right factor brokerCount
      have positive := Nat.gcd_pos_of_pos_right factor some_broker
      have small := le_of_dvd some_broker divides
      omega
    have least := even 0 some_broker 1 several
    have twice := two_le_turnsAt_zero some_broker (not_le.mp many)
    have never := @turnsAt_one brokerCount factor numPartitions shared
    omega
  · rintro (coprime | few) first inside second other
    · have upper := (@turnsAt_of_coprime brokerCount factor numPartitions coprime some_broker first inside).2
      have lower := (@turnsAt_of_coprime brokerCount factor numPartitions coprime some_broker second other).1
      omega
    · have once := turnsAt_le_one few some_broker first
      omega

end Turns

section Assignments

variable {brokers : List BrokerId} {factor numPartitions : Nat}

/-- The replicas of a partition whose turn begins at a place. -/
def replicasFrom (factor : Nat) (brokers : List BrokerId) (start : Nat) : List BrokerId :=
  (List.range factor).map fun replica => brokers.getD ((start + replica) % brokers.length) kNoBroker

theorem replicasFrom_mod (start turn : Nat) :
    replicasFrom factor brokers (start % brokers.length + turn) = replicasFrom factor brokers (start + turn) := by
  unfold replicasFrom
  simp only [add_assoc, mod_add_mod]

theorem assignFrom_eq (start : Nat) : assignFrom factor brokers numPartitions start =
    (List.range numPartitions).map fun partition => replicasFrom factor brokers (start + partition * factor) := by
  induction numPartitions generalizing start with
  | zero => rfl
  | succ numPartitions ih =>
    rw [assignFrom, ih, range_succ_eq_map, map_cons, map_map, zero_mul, add_zero]
    refine congrArg _ (map_congr_left fun partition _ => ?_)
    rw [replicasFrom_mod, Function.comp_apply, succ_mul, add_assoc, add_comm factor]

theorem replicasFrom_spread (distinct : brokers.Nodup) (some_broker : 0 < brokers.length)
    (enough : factor ≤ brokers.length) (start : Nat) :
    (replicasFrom factor brokers start).length = factor ∧ (replicasFrom factor brokers start).Nodup ∧
      replicasFrom factor brokers start ⊆ brokers := by
  have inside : ∀ place, place % brokers.length < brokers.length := fun place => mod_lt place some_broker
  unfold replicasFrom
  refine ⟨by rw [length_map, length_range], ?_, ?_⟩
  · refine List.Nodup.map_on (fun left first right second same => ?_) nodup_range
    rw [getD_eq_getElem _ _ (inside _), getD_eq_getElem _ _ (inside _), distinct.getElem_inj_iff] at same
    have congruent : left ≡ right [MOD brokers.length] := Nat.ModEq.add_left_cancel' start same
    exact congruent.eq_of_lt_of_lt ((mem_range.mp first).trans_le enough)
      ((mem_range.mp second).trans_le enough)
  · intro broker member
    obtain ⟨replica, -, rfl⟩ := mem_map.mp member
    rw [getD_eq_getElem _ _ (inside _)]
    exact getElem_mem _

theorem ledBy_assignFrom (distinct : brokers.Nodup) (some_replica : 1 ≤ factor) {place : Nat}
    (inside : place < brokers.length) :
    ledBy (assignFrom factor brokers numPartitions 0) brokers[place] =
      turnsAt brokers.length factor numPartitions place := by
  rw [assignFrom_eq, ledBy, countP_map]
  refine countP_congr fun partition _ => ?_
  obtain ⟨rest, rfl⟩ := Nat.exists_eq_add_of_le' some_replica
  have turn : partition * (rest + 1) % brokers.length < brokers.length := Nat.mod_lt _ (Nat.zero_lt_of_lt inside)
  rw [Function.comp_apply, replicasFrom, range_succ_eq_map, map_cons, head?_cons, Nat.zero_add,
    Nat.add_zero, getD_eq_getElem _ _ turn]
  simp only [decide_eq_true_eq, Option.some_inj, distinct.getElem_inj_iff]

theorem evenlySpread_iff (distinct : brokers.Nodup) (some_replica : 1 ≤ factor) (enough : factor ≤ brokers.length) :
    EvenlySpread brokers numPartitions factor (assignFrom factor brokers numPartitions 0) ↔
      factor.gcd brokers.length = 1 ∨ numPartitions * factor.gcd brokers.length ≤ brokers.length := by
  rw [← turns_even_iff some_replica enough]
  constructor
  · intro spread first inside second within
    rw [← ledBy_assignFrom distinct some_replica inside, ← ledBy_assignFrom distinct some_replica within]
    exact spread.leaders _ (getElem_mem inside) _ (getElem_mem within)
  · intro even
    refine ⟨by rw [assignFrom_eq, length_map, length_range], fun replicas member => ?_, ?_⟩
    · rw [assignFrom_eq] at member
      obtain ⟨partition, -, rfl⟩ := mem_map.mp member
      exact replicasFrom_spread distinct (by omega) enough _
    · intro first member second other
      obtain ⟨place, inside, rfl⟩ := getElem_of_mem member
      obtain ⟨next, within, rfl⟩ := getElem_of_mem other
      rw [ledBy_assignFrom distinct some_replica inside, ledBy_assignFrom distinct some_replica within]
      exact even place inside next within

end Assignments

/-- The leaders are spread evenly, if and only if the turns come to all brokers (their number and the replication
factor are coprime) or to none of them twice. -/
theorem round_robin_even_iff (brokers : List BrokerId) (some_broker : brokers ≠ []) (distinct : brokers.Nodup)
    (numPartitions replicationFactor : Nat) (some_replica : 1 ≤ replicationFactor)
    (enough : replicationFactor ≤ brokers.length) :
    (EvenlySpread brokers numPartitions replicationFactor
        (Controllers.assignReplicasSimple numPartitions replicationFactor brokers) ∧
      EvenlySpread brokers numPartitions replicationFactor
        (assignReplicas numPartitions replicationFactor brokers)) ↔
      replicationFactor.gcd brokers.length = 1 ∨
        numPartitions * replicationFactor.gcd brokers.length ≤ brokers.length := by
  unfold Controllers.assignReplicasSimple assignReplicas
  rw [isEmpty_eq_false_iff.mpr some_broker, if_neg Bool.false_ne_true, if_neg Bool.false_ne_true,
    min_eq_left enough, and_self]
  exact evenlySpread_iff distinct some_replica enough

theorem round_robin_even_three :
    EvenlySpread [1, 2, 3] 5 2 (Controllers.assignReplicasSimple 5 2 [1, 2, 3]) ∧
      EvenlySpread [1, 2, 3] 5 2 (assignReplicas 5 2 [1, 2, 3]) :=
  (round_robin_even_iff [1, 2, 3] (by decide) (by decide) 5 2 (by decide) (by decide)).mpr (.inl (by decide))

theorem not_round_robin_even :
    ¬EvenlySpread [1, 2] 2 2 (Controllers.assignReplicasSimple 2 2 [1, 2]) ∧
      ¬EvenlySpread [1, 2] 2 2 (assignReplicas 2 2 [1, 2]) := by
  constructor <;> exact fun spread => absurd (spread.leaders 1 (by decide) 2 (by decide)) (by decide)

end TorrentMq.Broker
