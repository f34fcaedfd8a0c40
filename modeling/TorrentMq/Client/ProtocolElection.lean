import TorrentMq.Client.GroupAssignmentProperties

/-!
# Protocol election

The protocol of a group is elected by how often it is named in the lists of all
members, not by how many of them name it.
-/

set_option autoImplicit false

namespace TorrentMq.Client.GroupHandler.GroupRecord

open Bytes GroupAssignors List OrderedMap Option

variable (record : GroupRecord)

/-- Every member lists the protocol. -/
def ListedByAll (protocol : Bytes) : Prop :=
  ∀ id, ∀ member ∈ record.members.find? id, protocol ∈ member.supportedProtocols

/-- The members have a protocol in common, other than the empty name. -/
def HasCommon : Prop := ∃ protocol ≠ [], record.ListedByAll protocol

/-- The elected protocol is one that all members list, and it is empty only where they list no other one. -/
def ElectsCommon (order : IterationOrder Bytes) : Prop :=
  (record.electProtocol order ≠ [] → record.ListedByAll (record.electProtocol order)) ∧
    (record.electProtocol order = [] ↔ ¬record.HasCommon)

/-- How often a protocol is named in all lists together; a member may name it twice. -/
def timesNamed (protocol : Bytes) : Nat :=
  ((record.memberList (.ascending _)).flatMap MemberRecord.supportedProtocols).count protocol

/-- The first protocol of a list that is named as often as there are members. -/
def firstCounted (member : MemberRecord) : Option Bytes :=
  member.supportedProtocols.find? fun protocol => record.timesNamed protocol = record.members.size

/-- Counting finds on every list a common protocol where there is one, and none but the empty one elsewhere. -/
def CountsCommon : Prop :=
  ∀ id, ∀ member ∈ record.members.find? id,
    (record.HasCommon → ∃ protocol ∈ record.firstCounted member, protocol ≠ [] ∧ record.ListedByAll protocol) ∧
      (¬record.HasCommon → ∀ protocol ∈ record.firstCounted member, protocol = [])

variable {record} {order : IterationOrder Bytes} {id protocol : Bytes} {member : MemberRecord}

theorem count_memberList : ((record.memberList order).flatMap MemberRecord.supportedProtocols).count protocol =
    record.timesNamed protocol :=
  (((order.perm record.members.keys).filterMap record.members.find?).flatMap_right _).count_eq protocol

theorem electProtocol_eq :
    record.electProtocol order = ((record.memberList order).findSome? record.firstCounted).getD [] := by
  unfold electProtocol firstCounted
  simp only [count_memberList, find?_flatMap]

theorem memberList_first (found : record.members.find? id = some member) :
    ∃ others, record.memberList (.first id) = member :: others := by
  have listed := mem_keys_iff_isSome.mpr (isSome_of_eq_some found)
  obtain ⟨others, visited, -⟩ := IterationOrder.visit_first listed
  exact ⟨others.filterMap record.members.find?, by rw [memberList, visited, filterMap_cons_some found]⟩

theorem electProtocol_first (found : record.members.find? id = some member)
    (counted : record.firstCounted member = some protocol) : record.electProtocol (.first id) = protocol := by
  obtain ⟨others, visited⟩ := memberList_first found
  rw [electProtocol_eq, visited, findSome?_cons_of_isSome (isSome_of_eq_some counted), counted,
    getD_some]

theorem CountsCommon.elects (counts : record.CountsCommon) (some_member : record.isEmpty = false) :
    record.ElectsCommon order := by
  by_cases common : record.HasCommon
  · have first : ∃ member others, record.memberList order = member :: others := by
      cases visited : record.memberList order with
      | nil =>
        obtain ⟨id, found⟩ : ∃ id, (record.members.find? id).isSome = true := by
          by_contra none
          refine absurd (isEmpty_entries_iff_find?.mpr fun id => ?_) (Bool.eq_false_iff.mp some_member)
          exact not_isSome_iff_eq_none.mp fun found => none ⟨id, found⟩
        obtain ⟨member, found⟩ := isSome_iff_exists.mp found
        have listed : member ∈ record.memberList order := mem_memberList.mpr ⟨id, found⟩
        rw [visited] at listed
        cases listed
      | cons member others => exact ⟨member, others, rfl⟩
    obtain ⟨member, others, visited⟩ := first
    obtain ⟨id, found⟩ := mem_memberList.mp (show member ∈ record.memberList order by rw [visited]; exact .head _)
    obtain ⟨protocol, counted, some_name, listed⟩ := (counts id member found).1 common
    have elected : record.electProtocol order = protocol := by
      rw [electProtocol_eq, visited, findSome?_cons_of_isSome (isSome_of_mem counted),
        mem_def.mp counted, getD_some]
    unfold ElectsCommon
    rw [elected]
    exact ⟨fun _ => listed, iff_of_false some_name (not_not.mpr common)⟩
  · have elected : record.electProtocol order = [] := by
      rw [electProtocol_eq]
      cases result : (record.memberList order).findSome? record.firstCounted with
      | none => rfl
      | some protocol =>
        obtain ⟨member, listed, counted⟩ := exists_of_findSome?_eq_some result
        obtain ⟨id, found⟩ := mem_memberList.mp listed
        exact (counts id member found).2 common protocol counted
    exact ⟨fun some_name => absurd elected some_name, iff_of_true elected common⟩

theorem CountsCommon.of_elects (elects : ∀ order, record.ElectsCommon order) : record.CountsCommon := by
  intro id member found
  obtain ⟨common_elected, empty_iff⟩ := elects (.first id)
  cases counted : record.firstCounted member with
  | none =>
    refine ⟨fun common => ?_, fun _ => nofun⟩
    have some_name : record.electProtocol (.first id) ≠ [] := fun none => absurd common (empty_iff.mp none)
    have listed := common_elected some_name id member found
    rw [electProtocol_eq] at some_name listed
    cases result : (record.memberList (.first id)).findSome? record.firstCounted with
    | none =>
      rw [result] at some_name
      exact absurd rfl some_name
    | some protocol =>
      obtain ⟨other, -, elsewhere⟩ := exists_of_findSome?_eq_some result
      rw [result] at listed
      exact absurd (find?_some elsewhere) (List.find?_eq_none.mp counted protocol listed)
  | some protocol =>
    rw [electProtocol_first found counted] at common_elected empty_iff
    refine ⟨fun common => ?_, fun none other same => ?_⟩
    · have some_name : protocol ≠ [] := fun none => absurd common (empty_iff.mp none)
      exact ⟨protocol, rfl, some_name, common_elected some_name⟩
    · cases same
      exact empty_iff.mpr none

/-- In whatever order the members are visited, a protocol is elected that they have in common, if and only if counting
finds such a one on the list of each of them. -/
theorem electsCommon_iff (record : GroupRecord) (some_member : record.isEmpty = false) :
    (∀ order, record.ElectsCommon order) ↔ record.CountsCommon :=
  ⟨.of_elects, fun counts _ => counts.elects some_member⟩

theorem timesNamed_eq_size_iff (once : ∀ id, ∀ member ∈ record.members.find? id, member.supportedProtocols.Nodup) :
    record.timesNamed protocol = record.members.size ↔ record.ListedByAll protocol := by
  have counted : ∀ members : List MemberRecord, (∀ member ∈ members, member.supportedProtocols.Nodup) →
      (members.flatMap MemberRecord.supportedProtocols).count protocol =
        members.countP fun member => decide (protocol ∈ member.supportedProtocols) := by
    intro members nodup
    induction members with
    | nil => rfl
    | cons member members ih =>
      obtain ⟨head, tail⟩ := forall_mem_cons.mp nodup
      rw [flatMap_cons, count_append, ih tail, head.count, countP_cons, Nat.add_comm]
      simp only [decide_eq_true_eq]
  have size : (record.memberList (.ascending _)).length = record.members.size := by
    rw [memberList, ((IterationOrder.ascending _).perm _).filterMap _ |>.length_eq, filterMap_length_eq_length.mpr]
    · exact length_map _
    · exact fun id listed => mem_keys_iff_isSome.mp listed
  rw [timesNamed, counted, ← size, countP_eq_length]
  · simp only [decide_eq_true_eq, mem_memberList, forall_exists_index, ListedByAll]
    exact forall_comm
  · intro member listed
    obtain ⟨id, found⟩ := mem_memberList.mp listed
    exact once id member found

/-- Lists that name no protocol twice, and no empty one, meet the condition. -/
theorem countsCommon_of_once (plain : ∀ id, ∀ member ∈ record.members.find? id,
    member.supportedProtocols.Nodup ∧ [] ∉ member.supportedProtocols) : record.CountsCommon := by
  intro id member found
  have named := fun protocol => @timesNamed_eq_size_iff record protocol fun id member found => (plain id member found).1
  have some_name : ∀ protocol ∈ member.supportedProtocols, protocol ≠ [] := fun protocol listed none =>
    (plain id member found).2 (none ▸ listed)
  have listed : ∀ protocol ∈ record.firstCounted member, protocol ≠ [] ∧ record.ListedByAll protocol := by
    intro protocol counted
    have counts := find?_some (mem_def.mp counted)
    exact ⟨some_name protocol (mem_of_find?_eq_some counted), (named protocol).mp (of_decide_eq_true counts)⟩
  refine ⟨fun ⟨protocol, _, common⟩ => ?_, fun none protocol counted => ?_⟩
  · have some_counted : (record.firstCounted member).isSome = true :=
      find?_isSome.mpr ⟨protocol, common id member found, decide_eq_true ((named protocol).mpr common)⟩
    obtain ⟨counted, first⟩ := isSome_iff_exists.mp some_counted
    exact ⟨counted, first, listed counted first⟩
  · by_contra some_name
    exact none ⟨protocol, some_name, (listed protocol counted).2⟩

def pairListing (first second : List Bytes) : GroupRecord where
  members := (OrderedMap.empty.insert [97] { memberId := [97], supportedProtocols := first }).insert [98]
    { memberId := [98], supportedProtocols := second }

/-- "range", which the second member does not list, is named twice by the first one. -/
theorem not_electsCommon_twice : ¬∀ order, (pairListing [kRange, kRange] [kStickyName]).ElectsCommon order := by
  intro elects
  have listed := (elects (.ascending _)).1 (by decide) [98] _ rfl
  exact absurd listed (by decide)

theorem lists_pairListing {first second : List Bytes}
    (found : member ∈ (pairListing first second).members.find? id) :
    member.supportedProtocols = first ∨ member.supportedProtocols = second := by
  unfold pairListing at found
  rw [find?_insert, find?_insert] at found
  split_ifs at found
  · cases found
    exact .inr rfl
  · cases found
    exact .inl rfl
  · cases found

theorem electsCommon_range : (pairListing [kStickyName, kRange] [kRange]).ElectsCommon (.ascending _) := by
  refine (electsCommon_iff _ (by decide)).mpr (countsCommon_of_once fun id member found => ?_) _
  rcases lists_pairListing found with lists | lists <;> rw [lists] <;> decide

end TorrentMq.Client.GroupHandler.GroupRecord
