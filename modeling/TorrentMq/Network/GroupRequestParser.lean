import TorrentMq.Network.GroupRequests
import TorrentMq.Network.WireTypes

/-!
# Group request parser

How the group handler takes the requests of group members apart. Nothing fails:
where too few bytes are left, a field is empty or zero.
-/

set_option autoImplicit false

namespace TorrentMq.Network.Group

open Bytes Reader

abbrev Cursor := StateM Bytes

def readBigOr (width : Nat) : Cursor Nat := fun bytes =>
  if bytes.length < width then (0, bytes) else (decodeBig (bytes.take width), bytes.drop width)

def readInt16 : Cursor Int16 := do
  let raw ← readBigOr 2
  return (UInt16.ofNat raw).toInt16

def readInt32 : Cursor Int32 := do
  let raw ← readBigOr 4
  return (UInt32.ofNat raw).toInt32

def readBlock (len : Int) : Cursor Bytes := fun bytes =>
  if len ≤ 0 then ([], bytes)
  else if bytes.length < len.toNat then ([], [])
  else (bytes.take len.toNat, bytes.drop len.toNat)

def readNullableString : Cursor Bytes := do
  let len ← readInt16
  if len = -1 then return [] else readBlock len.toInt

def readString : Cursor Bytes := do
  let len ← readInt16
  readBlock len.toInt

def readBytes : Cursor Bytes := do
  let len ← readInt32
  readBlock len.toInt

def readProtocol : Cursor (Bytes × Bytes) := do
  let name ← readString
  let metadata ← readBytes
  return (name, metadata)

def readAssignment : Cursor Bytes := do
  let _ ← readString
  readBytes

def joinGroupRequest : Cursor JoinGroupRequest := do
  let groupId ← readString
  let sessionTimeoutMs ← readInt32
  let rebalanceTimeoutMs ← readInt32
  let memberId ← readString
  let groupInstanceId ← readNullableString
  let protocolType ← readString
  let protocolCount ← readInt32
  let protocols ← whileLeft readProtocol protocolCount.toInt.toNat
  return {
    groupId := groupId
    sessionTimeoutMs := sessionTimeoutMs
    rebalanceTimeoutMs := rebalanceTimeoutMs
    memberId := memberId
    groupInstanceId := groupInstanceId
    protocolType := protocolType
    protocols := protocols.map Prod.fst
    protocolMetadata := protocols.map Prod.snd }

def heartbeatRequest : Cursor HeartbeatRequest := do
  let groupId ← readString
  let generationId ← readInt32
  let memberId ← readString
  let groupInstanceId ← readNullableString
  return { groupId := groupId, generationId := generationId, memberId := memberId, groupInstanceId := groupInstanceId }

def leaveGroupRequest : Cursor LeaveGroupRequest := do
  let groupId ← readString
  let memberId ← readString
  let memberCount ← readInt32
  let members ← whileLeft readString memberCount.toInt.toNat
  return { groupId := groupId, memberId := memberId, members := members }

def syncGroupRequest : Cursor SyncGroupRequest := do
  let groupId ← readString
  let generationId ← readInt32
  let memberId ← readString
  let groupInstanceId ← readNullableString
  let protocolType ← readString
  let protocolName ← readString
  let assignmentCount ← readInt32
  let assignments ← whileLeft readAssignment assignmentCount.toInt.toNat
  return {
    groupId := groupId
    generationId := generationId
    memberId := memberId
    groupInstanceId := groupInstanceId
    protocolType := protocolType
    protocolName := protocolName
    assignments := assignments }

def parseJoinGroupRequest (body : Bytes) : JoinGroupRequest := (joinGroupRequest.run body).1

def parseHeartbeatRequest (body : Bytes) : HeartbeatRequest := (heartbeatRequest.run body).1

def parseLeaveGroupRequest (body : Bytes) : LeaveGroupRequest := (leaveGroupRequest.run body).1

def parseSyncGroupRequest (body : Bytes) : SyncGroupRequest := (syncGroupRequest.run body).1

end TorrentMq.Network.Group
