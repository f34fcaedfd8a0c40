import TorrentMq.Bytes.Basic
import TorrentMq.Consensus.RaftTypes

/-!
# Snapshot files

The byte format of Raft snapshots: a header with its checksum, the member
lists, and the state of the state machine with a checksum of its own.
-/

set_option autoImplicit false

namespace TorrentMq.Consensus

open Bytes

/-- "RAFTSSHOT", of which a file begins with the first eight bytes. -/
def kSnapshotMagic : Bytes := [82, 65, 70, 84, 83, 83, 72, 79, 84]

def kSnapshotVersion : Nat := 1
def kFlagNone : Nat := 0
def kSnapshotHeaderFixedSize : Nat := 52
def kMaxSnapshotSize : Nat := 1024 * 1024 * 1024

namespace SnapshotSerializer

def headerFields (lastIncludedIndex lastIncludedTerm : Int) (membership : RaftMembership) (createdAtMs : Int) :
    Bytes :=
  kSnapshotMagic.take 8 ++ (encode 4 kSnapshotVersion ++ (encode 4 kFlagNone ++
    (encodeInt 8 lastIncludedIndex ++ (encodeInt 8 lastIncludedTerm ++
    (encode 4 membership.members.length ++ (encode 4 membership.jointMembers.length ++
    encodeInt 8 createdAtMs))))))

def membershipLists (membership : RaftMembership) : Bytes :=
  membership.members.flatMap (encodeInt 4) ++ membership.jointMembers.flatMap (encodeInt 4)

def body (stateData : Bytes) : Bytes :=
  encode 8 stateData.length ++ (encode 4 (crc32c stateData).toNat ++ stateData)

def serialize (lastIncludedIndex lastIncludedTerm : Int) (membership : RaftMembership) (stateData : Bytes)
    (createdAtMs : Int) : Bytes :=
  let header := headerFields lastIncludedIndex lastIncludedTerm membership createdAtMs
  let crcSlot := header.length
  let buf := header ++ (encode 4 0 ++ membershipLists membership)
  let hdrCrc := crc32c buf
  pwrite buf crcSlot (encode 4 hdrCrc.toNat) ++ body stateData

def zeroPadded (width : Nat) (value : Int) : String :=
  let sign := if value < 0 then "-" else ""
  let digits := toString value.natAbs
  sign ++ "".pushn '0' (width - sign.length - digits.length) ++ digits

def joinPath (directory name : String) : String :=
  if directory.isEmpty || directory.endsWith "/" then directory ++ name else directory ++ "/" ++ name

def filename (lastIncludedIndex lastIncludedTerm createdAtMs : Int) : String :=
  "snapshot-" ++ zeroPadded 20 lastIncludedIndex ++ "-" ++ zeroPadded 20 lastIncludedTerm ++ "-" ++
    zeroPadded 16 createdAtMs ++ ".snap"

structure DiskOutcome where
  directoryCreated : Bool := true
  opened : Bool := true
  written : Bool := true
  renamed : Bool := true
  fileSize : Option Nat := none
  deriving DecidableEq

def create (snapshotDir : String) (lastIncludedIndex lastIncludedTerm : Int) (membership : RaftMembership)
    (stateData : Bytes) (createdAtMs : Int) (disk : DiskOutcome) : Option RaftSnapshot :=
  if !disk.directoryCreated then none
  else
    let serialized := serialize lastIncludedIndex lastIncludedTerm membership stateData createdAtMs
    if kMaxSnapshotSize < serialized.length then none
    else if !disk.opened then none
    else if !disk.written then none
    else if !disk.renamed then none
    else
      some {
        filePath := joinPath snapshotDir (filename lastIncludedIndex lastIncludedTerm createdAtMs)
        lastIncludedIndex
        lastIncludedTerm
        membership
        fileSizeBytes := disk.fileSize.getD serialized.length
        createdAtMs }

end SnapshotSerializer

structure ParsedSnapshot where
  lastIncludedIndex : Int := 0
  lastIncludedTerm : Int := kNoTerm
  membership : RaftMembership := {}
  stateData : Bytes := []
  createdAtMs : Int := 0
  valid : Bool := false
  deriving DecidableEq

namespace SnapshotDeserializer

def readIds : Nat → Bytes → List RaftNodeId × Bytes
  | 0, p => ([], p)
  | count + 1, p =>
    let (id, p) := readInt 4 p
    let (ids, p) := readIds count p
    (id :: ids, p)

def parseBody (result : ParsedSnapshot) (p : Bytes) : ParsedSnapshot :=
  if p.length < 12 then result
  else
    let (bodySize, p) := readNat 8 p
    let (storedBodyCrc, p) := readNat 4 p
    if p.length < bodySize then result
    else
      let result := { result with stateData := p.take bodySize }
      if (crc32c result.stateData).toNat ≠ storedBodyCrc then result else { result with valid := true }

def parseLists (result : ParsedSnapshot) (memberCount jointMemberCount : Nat) (p : Bytes) : ParsedSnapshot :=
  if p.length < (memberCount + jointMemberCount) * 4 then result
  else
    let (members, p) := readIds memberCount p
    let (jointMembers, p) := readIds jointMemberCount p
    parseBody
      { result with membership := { members, jointMembers, configIndex := result.lastIncludedIndex } } p

def parse (buf : Bytes) : ParsedSnapshot :=
  if buf.length < kSnapshotHeaderFixedSize then {}
  else if buf.take 8 ≠ kSnapshotMagic.take 8 then {}
  else
    let (version, p) := readNat 4 (buf.drop 8)
    if version ≠ kSnapshotVersion then {}
    else
      let (_, p) := readNat 4 p
      let (lastIncludedIndex, p) := readInt 8 p
      let (lastIncludedTerm, p) := readInt 8 p
      let (memberCount, p) := readNat 4 p
      let (jointMemberCount, p) := readNat 4 p
      let (createdAtMs, p) := readInt 8 p
      let (storedHdrCrc, p) := readNat 4 p
      let crcOffset := buf.length - p.length - 4
      let result : ParsedSnapshot := { lastIncludedIndex, lastIncludedTerm, createdAtMs }
      if (crc32c (buf.take crcOffset)).toNat ≠ storedHdrCrc then result
      else parseLists result memberCount jointMemberCount p

end SnapshotDeserializer

end TorrentMq.Consensus
