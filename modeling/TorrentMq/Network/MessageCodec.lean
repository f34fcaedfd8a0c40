import TorrentMq.Network.WireTypes

/-!
# Message codec

Frames of requests and responses: a length, a header and a body. A frame is a
buffer of zeros that its fields are written into.
-/

set_option autoImplicit false

namespace TorrentMq.Network.MessageCodec

open Bytes

def kMinRequestHeaderSize : Nat := 10

def kFrameLengthSize : Nat := 4

def kResponseHeaderSize : Nat := 4

def kMaxClientIdLength : Int16 := 512

def kMaxFrameSize : Nat := 100 * 1024 * 1024

def encodeRequest (apiKey apiVersion : Int16) (correlationId : Int32) (clientId body : Bytes) : Bytes :=
  let payloadSize := kMinRequestHeaderSize + clientId.length + body.length
  if kMaxFrameSize < payloadSize then []
  else
    let frame := List.replicate (kFrameLengthSize + payloadSize) 0
    let frame := pwrite frame 0 (writeInt32Be (Int32.ofNat payloadSize))
    let frame := pwrite frame 4 (writeInt16Be apiKey)
    let frame := pwrite frame 6 (writeInt16Be apiVersion)
    let frame := pwrite frame 8 (writeInt32Be correlationId)
    let clientIdLen := Int16.ofNat clientId.length
    let frame := pwrite frame 12 (writeInt16Be clientIdLen)
    let written := if 0 < clientIdLen then clientId.take clientIdLen.toInt.toNat else []
    let frame := pwrite frame 14 written
    pwrite frame (14 + written.length) body

def encodeResponse (correlationId : Int32) (body : Bytes) : Bytes :=
  let payloadSize := kResponseHeaderSize + body.length
  if kMaxFrameSize < payloadSize then []
  else
    let frame := List.replicate (kFrameLengthSize + payloadSize) 0
    let frame := pwrite frame 0 (writeInt32Be (Int32.ofNat payloadSize))
    let frame := pwrite frame kFrameLengthSize (writeInt32Be correlationId)
    pwrite frame (kFrameLengthSize + kResponseHeaderSize) body

def readInt32At (data : Bytes) (offset : Nat) : Int32 := (UInt32.ofNat (decodeBig (pread data offset 4))).toInt32

def readInt16At (data : Bytes) (offset : Nat) : Int16 := (UInt16.ofNat (decodeBig (pread data offset 2))).toInt16

def readCompactString (data : Bytes) (pos : Nat) : Option (Nat × Bytes) :=
  if data.length < pos + 2 then none
  else
    let len := readInt16At data pos
    if len < -1 then none
    else if kMaxClientIdLength < len then none
    else if len = -1 then some (2, [])
    else
      let ulen := len.toInt.toNat
      if data.length < pos + 2 + ulen then none else some (2 + ulen, pread data (pos + 2) ulen)

structure RequestHeader where
  apiKey : Int16
  apiVersion : Int16
  correlationId : Int32
deriving DecidableEq

def decodeRequestHeader (data : Bytes) (out : RequestHeader) : Option Bytes × RequestHeader :=
  if data.length < kMinRequestHeaderSize then (none, out)
  else
    let out := {
      apiKey := readInt16At data 0
      apiVersion := readInt16At data 2
      correlationId := readInt32At data 4 }
    match readCompactString data 8 with
    | none => (none, out)
    | some (consumed, _) =>
      let offset := 8 + consumed
      if data.length ≤ offset then (none, out) else (some (data.drop offset), out)

def peekCorrelationId (data : Bytes) : Int32 :=
  if data.length < 8 then -1 else readInt32At data 4

def peekFrameSize (data : Bytes) : Int32 :=
  if data.length < kFrameLengthSize then -1
  else
    let frameSize := readInt32At data 0
    if frameSize < 0 then -1
    else if (kMaxFrameSize : Int) < frameSize.toInt then -1
    else if frameSize < 4 then -1
    else frameSize

end TorrentMq.Network.MessageCodec
