import TorrentMq.Network.ProtocolSerializer

/-! The requests of group members, and their wire form. -/

set_option autoImplicit false

namespace TorrentMq.Network

open Bytes

@[ext] structure JoinGroupRequest where
  groupId : Bytes
  sessionTimeoutMs : Int32
  rebalanceTimeoutMs : Int32
  memberId : Bytes := []
  groupInstanceId : Bytes := []
  protocolType : Bytes := []
  protocols : List Bytes := []
  protocolMetadata : List Bytes := []
deriving DecidableEq

structure HeartbeatRequest where
  groupId : Bytes
  generationId : Int32
  memberId : Bytes
  groupInstanceId : Bytes := []
deriving DecidableEq

@[ext] structure LeaveGroupRequest where
  groupId : Bytes
  memberId : Bytes := []
  members : List Bytes := []
deriving DecidableEq

@[ext] structure SyncGroupRequest where
  groupId : Bytes
  generationId : Int32
  memberId : Bytes
  groupInstanceId : Bytes := []
  protocolType : Bytes := []
  protocolName : Bytes := []
  assignments : List Bytes := []
deriving DecidableEq

def writeBytes (bytes : Bytes) : Bytes := writeInt32Be (Int32.ofNat bytes.length) ++ bytes

def serializeJoinGroupRequest (req : JoinGroupRequest) : Bytes :=
  writeString req.groupId ++ (writeInt32Be req.sessionTimeoutMs ++ (writeInt32Be req.rebalanceTimeoutMs ++
  (writeString req.memberId ++ (writeNullableString req.groupInstanceId ++ (writeString req.protocolType ++
  (writeInt32Be (Int32.ofNat req.protocols.length) ++ (req.protocols.flatMap writeString ++
  (writeInt32Be (Int32.ofNat req.protocolMetadata.length) ++ req.protocolMetadata.flatMap writeBytes))))))))

def serializeHeartbeatRequest (req : HeartbeatRequest) : Bytes :=
  writeString req.groupId ++ (writeInt32Be req.generationId ++ (writeString req.memberId ++
  writeNullableString req.groupInstanceId))

def serializeLeaveGroupRequest (req : LeaveGroupRequest) : Bytes :=
  writeString req.groupId ++ (writeString req.memberId ++
  (writeInt32Be (Int32.ofNat req.members.length) ++ req.members.flatMap writeString))

def serializeSyncGroupRequest (req : SyncGroupRequest) : Bytes :=
  writeString req.groupId ++ (writeInt32Be req.generationId ++ (writeString req.memberId ++
  (writeNullableString req.groupInstanceId ++ (writeString req.protocolType ++ (writeString req.protocolName ++
  (writeInt32Be (Int32.ofNat req.assignments.length) ++ req.assignments.flatMap writeBytes))))))

end TorrentMq.Network
