import TorrentMq.Broker.GenerationProperties
import TorrentMq.Client.GenerationProperties

/-! How far the two coordinators of groups keep members of earlier generations out. -/

set_option autoImplicit false

namespace TorrentMq.Client

open Bytes Collections Network GroupHandler Broker.ConsumerGroups Runs List

/-- The handler does so exactly while no group is used again, and the manager while a group keeps a member
and none beats that has taken no part in the rebalance. -/
theorem generations_fenced (groupId : Bytes) (handled : List GroupHandler.Call)
    (managed : List Broker.ConsumerGroups.Call) :
    (GroupRecord.coordinator.Fenced {} handled ↔ Meets GroupRecord.step GroupRecord.KeepsNumbers {} handled) ∧
      (Meets (Watched.step groupId) Watched.KeepsMember {} managed → (Watched.coordinator groupId).Fenced {} managed) :=
  ⟨GroupRecord.fenced_iff handled, Watched.fenced groupId⟩

def pairOfMembers : List Broker.ConsumerGroups.Call :=
  [.join [97] 0, .join [98] 0, .join [97] 0, .sync [97] fun _ => 0, .sync [98] fun _ => 0, .heartbeat [98] 2 0]

theorem generations_fenced_pairOfMembers : (Watched.coordinator [103]).Fenced {} pairOfMembers := by
  refine (generations_fenced [103] [] pairOfMembers).2 ⟨?_, ?_, ?_, trivial, trivial, ?_, trivial⟩
  · exact fun _ _ => by decide
  · exact fun unsettled => absurd (by decide) unsettled
  · exact fun _ _ => by decide
  · exact fun member _ _ => Watched.mayBeat_of_stable (by decide)

def usedAgain : List GroupHandler.Call :=
  let join (memberId : Bytes) : GroupHandler.Call :=
    .join { groupId := [103], sessionTimeoutMs := 1000, rebalanceTimeoutMs := 1000, memberId := memberId } [] 0
      (.ascending Bytes)
  [join [97], .leave { groupId := [103], memberId := [97] } 0 (.ascending Bytes), join [98]]

def lastLeaves : List Broker.ConsumerGroups.Call := [.join [97] 0, .leave [97] (.ascending Bytes)]

theorem generations_not_fenced :
    (¬∀ calls, GroupRecord.coordinator.Fenced {} calls) ∧
      ¬∀ groupId calls, (Watched.coordinator groupId).Fenced {} calls := by
  constructor
  · intro all
    have rises := (all usedAgain).rises (usedAgain.take 2) usedAgain ( take_prefix 2 _) (prefix_refl _)
    exact absurd rises (by decide)
  · intro all
    have rises := (all [103] lastLeaves).rises (lastLeaves.take 1) lastLeaves ( take_prefix 1 _)
      (prefix_refl _)
    exact absurd rises (by decide)

end TorrentMq.Client
