import TorrentMq.Bytes.Decimal
import TorrentMq.Bytes.Memory
import TorrentMq.Bytes.Text
import TorrentMq.Runs.Basic

/-!
# The MQTT bridge

How a client connection reads MQTT packets: the length code, the CONNECT packet,
and the loop that reads one packet after the other into the same buffer. What
the handlers do with a packet is not modelled; none of them touches the buffer
or ends the connection.
-/

set_option autoImplicit false

namespace TorrentMq.Proxy

open Bytes Runs

def kMaxPacketSize : Nat := 256 * 1024

def kMqttVersion311 : UInt8 := 4

def kMqttVersion5 : UInt8 := 5

def kMqttConnect : UInt8 := 1

def kMqttDisconnect : UInt8 := 14

def kConnAccepted : UInt8 := 0

def kConnRefusedProto : UInt8 := 1

def kConnRefusedId : UInt8 := 2

/-!
## Lengths and strings
-/

def readMqttLengthFrom (data : Nat → UInt8) (len : Nat) : Nat → Nat → Int → Int → Nat → Int × Nat
  | 0, _, value, _, consumed => (value, consumed)
  | left + 1, place, value, multiplier, consumed =>
    if len ≤ place then (value, consumed)
    else
      let byte := data place
      let value := value + (byte &&& 0x7F).toNat * multiplier
      let consumed := consumed + 1
      if byte &&& 0x80 = 0 then (value, consumed)
      else
        let multiplier := multiplier * 128
        if 128 * 128 * 128 < multiplier then (-1, 0)
        else readMqttLengthFrom data len left (place + 1) value multiplier consumed

def readMqttLength (data : Nat → UInt8) (len : Nat) : Int × Nat := readMqttLengthFrom data len 4 0 0 1 0

def writeMqttLengthFrom : Nat → Nat → Bytes
  | 0, _ => []
  | left + 1, value =>
    let byte := UInt8.ofNat (value % 128)
    let value := value / 128
    if 0 < value then (byte ||| 0x80) :: writeMqttLengthFrom left value else [byte]

def writeMqttLength (value : Nat) : Bytes := writeMqttLengthFrom 4 value

def readMqttString (data : Bytes) (offset : Nat) : Option (Bytes × Nat) :=
  if data.length < offset + 2 then none
  else
    let slen := decodeBig ((data.drop offset).take 2)
    if data.length < offset + 2 + slen then none
    else some ((data.drop (offset + 2)).take slen, offset + 2 + slen)

def buildConnack (returnCode : UInt8) (sessionPresent : Bool) : Bytes :=
  0x20 :: writeMqttLength 2 ++ [if sessionPresent then 0x01 else 0x00, returnCode]

/-!
## CONNECT
-/

structure MqttSession where
  clientId : Bytes
  protocolVersion : UInt8
  connected : Bool
  cleanSession : Bool
  keepAlive : Nat
  willFlag : Bool
  willQos : UInt8
  willRetain : Bool
  willTopic : Bytes
  willPayload : Bytes
  hasUsername : Bool
  hasPassword : Bool
  username : Bytes
  password : Bytes
deriving DecidableEq

def orSilent {Value : Type} (value : Option Value) : Except (Option Bytes) Value :=
  match value with
  | some value => .ok value
  | none => .error none

def require (check : Prop) [Decidable check] (answer : Option Bytes) : Except (Option Bytes) Unit :=
  if check then .ok () else .error answer

def readFlagged (flag : Bool) (payload : Bytes) (offset : Nat) : Option (Bytes × Nat) :=
  if flag then readMqttString payload offset else some ([], offset)

def readConnect (clock : Nat) (payload : Bytes) : Except (Option Bytes) (MqttSession × Bytes) := do
  let (_protoName, offset) ← orSilent (readMqttString payload 0)
  let protocolVersion ← orSilent payload[offset]?
  let flags ← orSilent payload[offset + 1]?
  let hasUsername := flags &&& 0x80 ≠ 0
  let hasPassword := flags &&& 0x40 ≠ 0
  let willFlag := flags &&& 0x04 ≠ 0
  let cleanSession := flags &&& 0x02 ≠ 0
  let offset := offset + 2
  require (offset + 2 ≤ payload.length) none
  let keepAlive := decodeBig ((payload.drop offset).take 2)
  let offset := offset + 2
  require (protocolVersion = kMqttVersion311 ∨ protocolVersion = kMqttVersion5)
    (some (buildConnack kConnRefusedProto false))
  let (clientId, offset) ← orSilent (readMqttString payload offset)
  require (¬(clientId.isEmpty ∧ ¬cleanSession)) (some (buildConnack kConnRefusedId false))
  let (willTopic, offset) ← orSilent (readFlagged willFlag payload offset)
  let (willPayload, offset) ← orSilent (readFlagged willFlag payload offset)
  let (username, offset) ← orSilent (readFlagged hasUsername payload offset)
  let (password, _) ← orSilent (readFlagged hasPassword payload offset)
  let session : MqttSession := {
    clientId := if clientId.isEmpty then text "auto-" ++ decimal clock else clientId
    protocolVersion
    connected := true
    cleanSession
    keepAlive
    willFlag
    willQos := flags >>> 3 &&& 0x03
    willRetain := flags &&& 0x20 ≠ 0
    willTopic
    willPayload
    hasUsername
    hasPassword
    username
    password
  }
  return (session, buildConnack kConnAccepted (!cleanSession))

/-!
## Reading packets
-/

/-- A client's socket: all that the client will have sent, less what was read of it. -/
structure Connection where
  stream : Bytes
  packetBuf : Memory

/-- How much of the stream has come when the first two bytes of a packet are read, and when its body is. -/
structure Arrived where
  header : Nat
  body : Nat

/-- The socket does not block: a read beyond what has arrived fails, and takes what there is. -/
def Connection.readExact (connection : Connection) (arrived offset n : Nat) : Bool × Connection :=
  let got := (connection.stream.take arrived).take n
  (decide (n ≤ got.length),
    { stream := connection.stream.drop got.length
      packetBuf := connection.packetBuf.store offset got })

def Connection.packetType (connection : Connection) : UInt8 := connection.packetBuf.contents 0 >>> 4 &&& 0x0F

def Connection.flags (connection : Connection) : UInt8 := connection.packetBuf.contents 0 &&& 0x0F

def Connection.remainingLength (connection : Connection) : Int × Nat :=
  readMqttLength (fun index => connection.packetBuf.contents (1 + index)) (kMaxPacketSize - 1)

def Connection.readRest (connection : Connection) (arrived : Nat) : Bool × Connection :=
  if 0 < connection.remainingLength.1 then
    connection.readExact arrived (1 + connection.remainingLength.2) connection.remainingLength.1.toNat
  else (true, connection)

def MqttBridge.handleConnectPacket (clock : Nat) (connection : Connection) (arrived : Arrived) :
    Except (Option Bytes) (MqttSession × Bytes) × Connection :=
  let (read, connection) := connection.readExact arrived.header 0 2
  if !read then (.error none, connection)
  else if connection.packetType ≠ kMqttConnect then (.error none, connection)
  else
    let (remainingLen, consumed) := connection.remainingLength
    if remainingLen < 10 ∨ consumed = 0 then (.error none, connection)
    else
      let (read, connection) := connection.readRest arrived.body
      if !read then (.error none, connection)
      else (readConnect clock (connection.packetBuf.slice (1 + consumed) remainingLen.toNat), connection)

structure Dispatch where
  packetType : UInt8
  flags : UInt8
  payload : Bytes
deriving DecidableEq

/-- What the loop finds on its next turn: whether the bridge is still running, how many nanoseconds have
passed since the last packet, and what has arrived. A client that is silent is gone with the first read. -/
structure Turn extends Arrived where
  running : Bool
  idle : Nat

structure Serving where
  connection : Connection
  session : MqttSession
  dispatched : List Dispatch
  left : Bool

def MqttSession.keepAliveTimeout (session : MqttSession) : Nat := session.keepAlive * 1500 * 1000000

def Serving.leave (serving : Serving) (connection : Connection) : Serving :=
  { serving with connection, left := true }

def MqttBridge.serve (serving : Serving) (turn : Turn) : Serving :=
  if serving.left then serving
  else if !(turn.running && serving.session.connected) then serving.leave serving.connection
  else if serving.session.keepAliveTimeout < turn.idle then serving.leave serving.connection
  else
    let (read, connection) := serving.connection.readExact turn.header 0 2
    if !read then serving.leave connection
    else
      let packetType := connection.packetType
      let flags := connection.flags
      let (remainingLen, consumed) := connection.remainingLength
      if remainingLen < 0 ∨ consumed = 0 then serving.leave connection
      else if kMaxPacketSize < remainingLen.toNat then serving.leave connection
      else
        let (read, connection) := connection.readRest turn.body
        if !read then serving.leave connection
        else
          let payload := connection.packetBuf.slice (1 + consumed) remainingLen.toNat
          { connection
            session :=
              if packetType = kMqttDisconnect ∨ packetType = kMqttConnect then
                { serving.session with connected := false }
              else serving.session
            dispatched := serving.dispatched ++ [{ packetType, flags, payload }]
            left := false }

/-- A connection from its first byte on, over so many turns of its loop: the session, if the
CONNECT packet was accepted, and the state the connection is left in. -/
def MqttBridge.handleConnection (clock : Nat) (buffer : Nat → UInt8) (stream : Bytes) (arrived : Arrived)
    (turns : List Turn) : Option Serving × Connection :=
  match handleConnectPacket clock { stream, packetBuf := Memory.untouched buffer } arrived with
  | (.error _, connection) => (none, connection)
  | (.ok (session, _), connection) =>
    let serving := run serve { connection, session, dispatched := [], left := false } turns
    (some serving, serving.connection)

end TorrentMq.Proxy
