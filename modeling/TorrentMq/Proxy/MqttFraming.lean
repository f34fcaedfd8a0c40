import TorrentMq.Proxy.MqttBridge

/-!
# MQTT framing

When a connection hands on the packets of its client as they were sent.
-/

set_option autoImplicit false

namespace TorrentMq.Proxy

open Bytes Runs List MqttBridge Connection Nat UInt8

private theorem plain_bits : ∀ value < 128,
    ofNat value &&& 0x80 = 0 ∧ (ofNat value &&& 0x7F).toNat = value := by decide

private theorem continued_bits : ∀ value < 128,
    (ofNat value ||| 0x80) &&& 0x80 ≠ 0 ∧ ((ofNat value ||| 0x80) &&& 0x7F).toNat = value := by decide

variable {value : Nat}

theorem writeMqttLength_of_short (short : value < 128) :
    writeMqttLength value = [ofNat value] := by
  have none_above : value / 128 = 0 := div_eq_of_lt short
  simp [writeMqttLength, writeMqttLengthFrom, none_above, mod_eq_of_lt short]

theorem writeMqttLength_of_long (long : 128 ≤ value) :
    ∃ more, writeMqttLength value = (ofNat (value % 128) ||| 0x80) :: more := by
  have above : 0 < value / 128 := div_pos long (by decide)
  simp [writeMqttLength, writeMqttLengthFrom, above]

variable {data : Nat → UInt8}

theorem readMqttLength_short (short : value < 128)
    (first : data 0 = ofNat value) : readMqttLength data (kMaxPacketSize - 1) = ((value : Int), 1) := by
  obtain ⟨last, bits⟩ := plain_bits value short
  simp [readMqttLength, readMqttLengthFrom, kMaxPacketSize, first, last, bits]

theorem readMqttLength_cut (first : data 0 = ofNat (value % 128) ||| 0x80)
    (stale : data 1 = 0) : readMqttLength data (kMaxPacketSize - 1) = (((value % 128 : Nat) : Int), 2) := by
  obtain ⟨continued, bits⟩ := continued_bits (value % 128) (mod_lt value (by decide))
  simp [readMqttLength, readMqttLengthFrom, kMaxPacketSize, first, stale, continued, bits]

theorem readMqttLength_endless (endless : ∀ index < 4, data index &&& 0x80 ≠ 0) :
    readMqttLength data (kMaxPacketSize - 1) = (-1, 0) := by
  have first := endless 0 (by decide)
  have second := endless 1 (by decide)
  have third := endless 2 (by decide)
  have fourth := endless 3 (by decide)
  simp [readMqttLength, readMqttLengthFrom, kMaxPacketSize, first, second, third, fourth]

/-!
## Packets
-/

structure ControlPacket where
  header : UInt8
  body : Bytes
  fits : 1 + (writeMqttLength body.length).length + body.length ≤ kMaxPacketSize

namespace ControlPacket

def packetType (packet : ControlPacket) : UInt8 := packet.header >>> 4 &&& 0x0F

def bytes (packet : ControlPacket) : Bytes :=
  packet.header :: writeMqttLength packet.body.length ++ packet.body

def dispatch (packet : ControlPacket) : Dispatch where
  packetType := packet.packetType
  flags := packet.header &&& 0x0F
  payload := packet.body

def shape (packet : ControlPacket) : UInt8 × Nat := (packet.header, packet.body.length)

def upToDisconnect : List ControlPacket → List ControlPacket
  | [] => []
  | packet :: packets =>
    if packet.packetType = kMqttDisconnect then [packet] else packet :: upToDisconnect packets

theorem upToDisconnect_eq_nil {packets : List ControlPacket} : upToDisconnect packets = [] ↔ packets = [] := by
  cases packets with
  | nil => exact Iff.rfl
  | cons packet packets =>
    unfold upToDisconnect
    split <;> simp

def blank (packet : ControlPacket) : ControlPacket where
  header := packet.header
  body := List.replicate packet.body.length 0
  fits := by simpa using packet.fits

@[simp] theorem shape_blank (packet : ControlPacket) : packet.blank.shape = packet.shape := by
  simp [shape, blank]

theorem headD_blank (packet : ControlPacket) : packet.blank.body.headD 0 = 0 := by
  cases length : packet.body.length with
  | zero => simp [blank, length]
  | succ length' => simp [blank, length, replicate_succ]

theorem bytes_short {packet : ControlPacket} (short : packet.body.length < 128) :
    packet.bytes = packet.header :: ofNat packet.body.length :: packet.body := by
  simp [bytes, writeMqttLength_of_short short]

theorem bytes_long {packet : ControlPacket} (long : 128 ≤ packet.body.length) :
    ∃ more, packet.bytes =
      packet.header :: (ofNat (packet.body.length % 128) ||| 0x80) :: (more ++ packet.body) := by
  obtain ⟨more, code⟩ := writeMqttLength_of_long long
  exact ⟨more, by simp [bytes, code]⟩

end ControlPacket

namespace Connection

variable {connection : Connection}

def begun (connection : Connection) (header first : UInt8) (rest : Bytes) : Connection where
  stream := rest
  packetBuf := connection.packetBuf.store 0 [header, first]

def ended (connection : Connection) (length consumed : Nat) : Connection :=
  if 0 < length then
    { stream := connection.stream.drop length
      packetBuf := connection.packetBuf.store (1 + consumed) (connection.stream.take length) }
  else connection

theorem readExact_begin {header first : UInt8} {rest : Bytes} {arrived : Nat}
    (stream : connection.stream = header :: first :: rest) (come : 2 ≤ arrived) :
    connection.readExact arrived 0 2 = (true, connection.begun header first rest) := by
  simp [readExact, begun, stream, take_take, min_eq_left come]

theorem readExact_cut {arrived n : Nat} (offset : Nat) (cut : min arrived connection.stream.length < n) :
    ∃ after, connection.readExact arrived offset n = (false, after) := by
  refine ⟨_, Prod.ext (decide_eq_false ?_) rfl⟩
  rw [length_take, length_take]
  omega

theorem contents_begun_stale {header first : UInt8} {rest : Bytes} {address : Nat} (behind : 2 ≤ address) :
    (connection.begun header first rest).packetBuf.contents address = connection.packetBuf.contents address :=
  Memory.contents_store_of_ge _ (by simpa using behind)

theorem readRest_whole {length consumed arrived : Nat}
    (announced : connection.remainingLength = ((length : Int), consumed))
    (enough : length ≤ connection.stream.length) (come : length ≤ arrived) :
    connection.readRest arrived = (true, connection.ended length consumed) := by
  by_cases some_byte : 0 < length
  · simp [readRest, readExact, ended, announced, some_byte, enough, take_take, min_eq_left come]
  · simp [readRest, ended, announced, some_byte]

theorem readRest_cut {length consumed arrived : Nat}
    (announced : connection.remainingLength = ((length : Int), consumed)) (missing : arrived < length) :
    ∃ after, connection.readRest arrived = (false, after) := by
  have some_byte : (0 : Int) < length := by omega
  rw [readRest, announced, if_pos some_byte]
  exact readExact_cut _ (lt_of_le_of_lt (min_le_left _ _) missing)

theorem stream_ended (length consumed : Nat) :
    (connection.ended length consumed).stream = connection.stream.drop length := by
  unfold ended
  split
  · rfl
  next none =>
    have nothing : length = 0 := Nat.eq_zero_of_not_pos none
    simp [nothing]

theorem slice_ended {length consumed : Nat} (enough : length ≤ connection.stream.length) :
    (connection.ended length consumed).packetBuf.slice (1 + consumed) length = connection.stream.take length := by
  unfold ended
  split
  · have read := Memory.slice_store connection.packetBuf (1 + consumed) (connection.stream.take length)
    rwa [length_take_of_le enough] at read
  next none =>
    have nothing : length = 0 := Nat.eq_zero_of_not_pos none
    simp [nothing, Memory.slice]

theorem contents_ended_two (length : Nat) :
    (connection.ended length 1).packetBuf.contents 2 =
      (connection.stream.take length).headD (connection.packetBuf.contents 2) := by
  unfold ended
  split
  · cases connection.stream.take length with
    | nil => rfl
    | cons byte bytes => rfl
  next none =>
    have nothing : length = 0 := Nat.eq_zero_of_not_pos none
    simp [nothing]

end Connection

/-!
## Connecting
-/

/-- A CONNECT packet whose fields the bridge accepts, with the session they ask for. -/
structure ControlPacket.Connects (packet : ControlPacket) (clock : Nat) (session : MqttSession) : Prop where
  packetType : packet.packetType = kMqttConnect
  long : 10 ≤ packet.body.length
  accepted : ∃ connack, readConnect clock packet.body = .ok (session, connack)

private theorem bind_ok {Error Value Result : Type} {first : Except Error Value} {next : Value → Except Error Result}
    {result : Result} (bound : first >>= next = .ok result) :
    ∃ value, first = .ok value ∧ next value = .ok result := by
  cases first with
  | error error => cases bound
  | ok value => exact ⟨value, rfl, bound⟩

variable {session : MqttSession}

theorem connected_of_readConnect {clock : Nat} {payload : Bytes} {connack : Bytes}
    (accepted : readConnect clock payload = .ok (session, connack)) :
    session.connected = true ∧ (readMqttString payload 0).isSome = true := by
  unfold readConnect at accepted
  obtain ⟨protoName, name, accepted⟩ := bind_ok accepted
  obtain ⟨protocolVersion, _, accepted⟩ := bind_ok accepted
  obtain ⟨flags, _, accepted⟩ := bind_ok accepted
  obtain ⟨_, _, accepted⟩ := bind_ok accepted
  obtain ⟨_, _, accepted⟩ := bind_ok accepted
  obtain ⟨clientId, _, accepted⟩ := bind_ok accepted
  obtain ⟨_, _, accepted⟩ := bind_ok accepted
  obtain ⟨willTopic, _, accepted⟩ := bind_ok accepted
  obtain ⟨willPayload, _, accepted⟩ := bind_ok accepted
  obtain ⟨username, _, accepted⟩ := bind_ok accepted
  obtain ⟨password, _, accepted⟩ := bind_ok accepted
  cases accepted
  refine ⟨rfl, ?_⟩
  cases found : readMqttString payload 0 with
  | none =>
    rw [found] at name
    cases name
  | some read => rfl

theorem headD_of_readMqttString {data : Bytes} (short : data.length < 128)
    (read : (readMqttString data 0).isSome = true) (stale : UInt8) : data.headD stale = 0 := by
  unfold readMqttString at read
  match data with
  | [] => cases read
  | [_] => cases read
  | high :: low :: rest =>
    have size : decodeBig [high, low] = low.toNat + 256 * high.toNat := by simp [decodeBig, decode]
    have fits : decodeBig [high, low] ≤ rest.length := by
      by_contra beyond
      have outside : rest.length + 1 + 1 < 2 + decodeBig [high, low] := by omega
      simp [outside] at read
    have none_high : high.toNat = 0 := by
      simp only [length_cons] at short
      omega
    exact UInt8.toNat_inj.mp none_high

section

variable {clock : Nat} {connection : Connection} {header first : UInt8} {rest : Bytes}

theorem handleConnectPacket_whole {length consumed : Nat} (stream : connection.stream = header :: first :: rest)
    (isConnect : header >>> 4 &&& 0x0F = kMqttConnect)
    (announced : (connection.begun header first rest).remainingLength = ((length : Int), consumed))
    (code : consumed ≠ 0) (long : 10 ≤ length) (enough : length ≤ rest.length) {arrived : Arrived}
    (begins : 2 ≤ arrived.header) (come : length ≤ arrived.body) :
    handleConnectPacket clock connection arrived =
      (readConnect clock (rest.take length), (connection.begun header first rest).ended length consumed) := by
  have isType : (connection.begun header first rest).packetType = kMqttConnect := isConnect
  have valid : ¬(length < 10 ∨ consumed = 0) := by omega
  have body : ((connection.begun header first rest).ended length consumed).packetBuf.slice (1 + consumed) length =
      rest.take length := slice_ended enough
  unfold handleConnectPacket
  rw [readExact_begin stream begins]
  simp [isType, announced, valid, readRest_whole announced enough come, body]

theorem handleConnectPacket_cut {arrived : Arrived}
    (cut : min arrived.header connection.stream.length < 2) :
    ∃ refused after, handleConnectPacket clock connection arrived = (.error refused, after) := by
  obtain ⟨after, none_read⟩ := readExact_cut 0 cut
  rw [handleConnectPacket, none_read]
  exact ⟨none, after, rfl⟩

theorem handleConnectPacket_missing {length consumed : Nat} (stream : connection.stream = header :: first :: rest)
    (announced : (connection.begun header first rest).remainingLength = ((length : Int), consumed))
    {arrived : Arrived} (begins : 2 ≤ arrived.header) (missing : arrived.body < length) :
    ∃ refused after, handleConnectPacket clock connection arrived = (.error refused, after) := by
  obtain ⟨after, read⟩ := readRest_cut announced missing
  unfold handleConnectPacket
  rw [readExact_begin stream begins]
  simp only [announced, read, Bool.not_true, Bool.not_false, Bool.false_eq_true, if_false, if_true]
  split
  · exact ⟨_, _, rfl⟩
  · split
    · exact ⟨_, _, rfl⟩
    · exact ⟨_, _, rfl⟩

theorem handleConnectPacket_endless (stream : connection.stream = header :: first :: rest)
    (endless : (connection.begun header first rest).remainingLength = (-1, 0)) {arrived : Arrived}
    (begins : 2 ≤ arrived.header) :
    ∃ refused after, handleConnectPacket clock connection arrived = (.error refused, after) := by
  unfold handleConnectPacket
  rw [readExact_begin stream begins]
  by_cases isConnect : (connection.begun header first rest).packetType = kMqttConnect
  · exact ⟨none, _, by simp [isConnect, endless]; rfl⟩
  · exact ⟨none, _, by simp [isConnect]; rfl⟩

end

/-!
## Serving
-/

/-- The loop goes on for a turn, and finds the two bytes that a packet begins with. -/
def Turn.Begins (session : MqttSession) (turn : Turn) : Prop :=
  turn.running = true ∧ turn.idle ≤ session.keepAliveTimeout ∧ 2 ≤ turn.header

instance (session : MqttSession) (turn : Turn) : Decidable (turn.Begins session) :=
  inferInstanceAs (Decidable (_ ∧ _))

/-- All of a packet with a body of the given length has come when it is read. -/
def Turn.Passes (session : MqttSession) (length : Nat) (turn : Turn) : Prop :=
  turn.Begins session ∧ length ≤ turn.body

instance (session : MqttSession) (length : Nat) (turn : Turn) : Decidable (turn.Passes session length) :=
  inferInstanceAs (Decidable (_ ∧ _))

def MqttSession.after (session : MqttSession) (packetType : UInt8) : MqttSession :=
  if packetType = kMqttDisconnect ∨ packetType = kMqttConnect then { session with connected := false } else session

def Serving.Over (serving : Serving) : Prop :=
  serving.left = true ∨ serving.session.connected = false ∨ serving.connection.stream = []

section

variable {serving : Serving} {turn : Turn}

theorem serve_whole {header first : UInt8} {rest : Bytes} {length consumed : Nat}
    (stays : serving.left = false) (connected : serving.session.connected = true)
    (passes : turn.Passes serving.session length) (stream : serving.connection.stream = header :: first :: rest)
    (announced : (serving.connection.begun header first rest).remainingLength = ((length : Int), consumed))
    (code : consumed ≠ 0) (small : length ≤ kMaxPacketSize) (enough : length ≤ rest.length) :
    serve serving turn =
      { connection := (serving.connection.begun header first rest).ended length consumed
        session := serving.session.after (header >>> 4 &&& 0x0F)
        dispatched := serving.dispatched ++
          [{ packetType := header >>> 4 &&& 0x0F, flags := header &&& 0x0F, payload := rest.take length }]
        left := false } := by
  obtain ⟨⟨running, prompt, begins⟩, come⟩ := passes
  have patient : ¬serving.session.keepAliveTimeout < turn.idle := not_lt.mpr prompt
  have fits : ¬kMaxPacketSize < length := not_lt.mpr small
  have body : ((serving.connection.begun header first rest).ended length consumed).packetBuf.slice
      (1 + consumed) length = rest.take length := slice_ended enough
  have isType : (serving.connection.begun header first rest).packetType = header >>> 4 &&& 0x0F := rfl
  have isFlags : (serving.connection.begun header first rest).flags = header &&& 0x0F := rfl
  unfold serve
  rw [readExact_begin stream begins]
  simp [stays, connected, running, patient, announced, code, fits, readRest_whole announced enough come, body,
    isType, isFlags, MqttSession.after]

/-- A turn that hands nothing on, and after which none will. -/
def Stops (serving : Serving) (turn : Turn) : Prop :=
  (serve serving turn).Over ∧ (serve serving turn).dispatched = serving.dispatched

theorem serve_failing (fails : ¬turn.Begins serving.session) : Stops serving turn := by
  unfold Stops serve
  split
  next left => exact ⟨.inl left, rfl⟩
  · split
    · exact ⟨.inl rfl, rfl⟩
    next goes =>
      split
      · exact ⟨.inl rfl, rfl⟩
      next patient =>
        simp only [Bool.not_eq_true, Bool.not_eq_false', Bool.and_eq_true] at goes
        have cut : turn.header < 2 := not_le.mp fun come => fails ⟨goes.1, not_lt.mp patient, come⟩
        have short : min turn.header serving.connection.stream.length < 2 := lt_of_le_of_lt (min_le_left _ _) cut
        obtain ⟨after, none_read⟩ := readExact_cut 0 short
        rw [none_read]
        exact ⟨.inl rfl, rfl⟩

theorem serve_missing {header first : UInt8} {rest : Bytes} {length consumed : Nat}
    (begins : turn.Begins serving.session) (stream : serving.connection.stream = header :: first :: rest)
    (announced : (serving.connection.begun header first rest).remainingLength = ((length : Int), consumed))
    (missing : turn.body < length) : Stops serving turn := by
  obtain ⟨after, read⟩ := readRest_cut announced missing
  unfold Stops serve
  rw [readExact_begin stream begins.2.2]
  simp only [announced, read, Bool.not_true, Bool.not_false, Bool.false_eq_true, if_false, if_true]
  split_ifs
  next left => exact ⟨.inl left, rfl⟩
  all_goals exact ⟨.inl rfl, rfl⟩

theorem serve_over (idle : serving.Over) : Stops serving turn := by
  unfold Stops serve
  split
  next left => exact ⟨.inl left, rfl⟩
  next stays =>
    split
    · exact ⟨.inl rfl, rfl⟩
    next goes =>
      split
      · exact ⟨.inl rfl, rfl⟩
      · simp only [Bool.not_eq_true, Bool.not_eq_false', Bool.and_eq_true] at goes
        have empty : serving.connection.stream = [] := by
          rcases idle with left | closed | empty
          · exact absurd left stays
          · rw [closed] at goes
            cases goes.2
          · exact empty
        have short : min turn.header serving.connection.stream.length < 2 := by simp [empty]
        obtain ⟨after, none_read⟩ := readExact_cut 0 short
        rw [none_read]
        exact ⟨.inl rfl, rfl⟩

theorem run_over (idle : serving.Over) (turns : List Turn) :
    (run serve serving turns).dispatched = serving.dispatched := by
  induction turns generalizing serving with
  | nil => rfl
  | cons turn turns ih =>
    have next := @serve_over serving turn idle
    exact (ih next.1).trans next.2

theorem Stops.run_cons (stops : Stops serving turn) (turns : List Turn) :
    (run serve serving (turn :: turns)).dispatched = serving.dispatched := by
  rw [Runs.run_cons, run_over stops.1, stops.2]

theorem dispatched_prefix_serve (serving : Serving) (turn : Turn) :
    serving.dispatched <+: (serve serving turn).dispatched := by
  unfold serve
  repeat' split
  all_goals first | exact prefix_refl _ | exact prefix_append _ _

theorem dispatched_prefix_run (serving : Serving) (turns : List Turn) :
    serving.dispatched <+: (run serve serving turns).dispatched := by
  induction turns generalizing serving with
  | nil => exact prefix_refl _
  | cons turn turns ih => exact (dispatched_prefix_serve serving turn).trans (ih _)

end

/-- Turn by turn, the packets up to the first DISCONNECT are short enough, have come when they are read,
and no CONNECT stands before another packet. -/
def Served (session : MqttSession) : List ControlPacket → List Turn → Prop
  | [], _ => True
  | _ :: _, [] => False
  | packet :: packets, turn :: turns =>
    turn.Passes session packet.body.length ∧ packet.body.length < 128 ∧
      (packet.packetType = kMqttDisconnect ∨
        (packet.packetType = kMqttConnect → packets = []) ∧ Served session packets turns)

variable {packets : List ControlPacket}

theorem served_congr {others : List ControlPacket} {turns : List Turn}
    (alike : others.map ControlPacket.shape = packets.map ControlPacket.shape) :
    Served session others turns ↔ Served session packets turns := by
  induction packets generalizing others turns with
  | nil =>
    cases others with
    | nil => exact Iff.rfl
    | cons other others => cases alike
  | cons packet packets ih =>
    cases others with
    | nil => cases alike
    | cons other others =>
      obtain ⟨shape, rest⟩ := List.cons.inj alike
      have header : other.header = packet.header := congrArg Prod.fst shape
      have length : other.body.length = packet.body.length := congrArg Prod.snd shape
      have alone : others = [] ↔ packets = [] := by
        rw [← map_eq_nil_iff (f := ControlPacket.shape), rest, map_eq_nil_iff]
      cases turns with
      | nil => exact Iff.rfl
      | cons turn turns => simp only [Served, ControlPacket.packetType, header, length, alone, ih rest]

section

variable {session : MqttSession}

theorem after_of_ne {packetType : UInt8} (stays : packetType ≠ kMqttDisconnect) (first : packetType ≠ kMqttConnect) :
    session.after packetType = session := by
  simp [MqttSession.after, stays, first]

variable {serving : Serving}

theorem serve_short {turn : Turn} {packet : ControlPacket} {rest : Bytes}
    (stays : serving.left = false) (connected : serving.session.connected = true)
    (passes : turn.Passes serving.session packet.body.length) (short : packet.body.length < 128)
    (stream : serving.connection.stream = packet.bytes ++ rest) :
    ∃ connection, serve serving turn =
        { connection
          session := serving.session.after packet.packetType
          dispatched := serving.dispatched ++ [packet.dispatch]
          left := false } ∧
      connection.stream = rest ∧
      connection.packetBuf.contents 2 = packet.body.headD (serving.connection.packetBuf.contents 2) := by
  have front : serving.connection.stream =
      packet.header :: ofNat packet.body.length :: (packet.body ++ rest) := by
    simp [stream, ControlPacket.bytes_short short]
  have announced : (serving.connection.begun packet.header (ofNat packet.body.length)
      (packet.body ++ rest)).remainingLength = ((packet.body.length : Int), 1) := readMqttLength_short short rfl
  have small : packet.body.length ≤ kMaxPacketSize := le_of_lt (lt_of_lt_of_le short (by decide))
  have enough : packet.body.length ≤ (packet.body ++ rest).length := by simp
  have body : (packet.body ++ rest).take packet.body.length = packet.body := take_left' rfl
  have served := serve_whole stays connected passes front announced one_ne_zero small enough
  rw [body] at served
  refine ⟨_, served, ?_, ?_⟩
  · rw [stream_ended]
    exact drop_left' rfl
  · rw [contents_ended_two]
    exact congrArg₂ headD body (contents_begun_stale (le_refl 2))

variable {packets : List ControlPacket}

theorem dispatched_of_served {turns : List Turn}
    (stays : serving.left = false) (connected : serving.session.connected = true)
    (stream : serving.connection.stream = packets.flatMap ControlPacket.bytes)
    (served : Served serving.session packets turns) :
    (run serve serving turns).dispatched =
      serving.dispatched ++ (ControlPacket.upToDisconnect packets).map ControlPacket.dispatch := by
  induction packets generalizing serving turns with
  | nil => simpa [ControlPacket.upToDisconnect] using run_over (.inr (.inr stream)) turns
  | cons packet packets ih =>
    cases turns with
    | nil => cases served
    | cons turn turns =>
      obtain ⟨passes, short, rest⟩ := served
      have front : serving.connection.stream = packet.bytes ++ packets.flatMap ControlPacket.bytes := stream
      obtain ⟨connection, served, further, _⟩ := serve_short stays connected passes short front
      rw [run_cons, served]
      by_cases disconnect : packet.packetType = kMqttDisconnect
      · rw [run_over (.inr (.inl (by rw [disconnect]; rfl)))]
        simp [ControlPacket.upToDisconnect, disconnect]
      · obtain ⟨first, later⟩ := rest.resolve_left disconnect
        by_cases connect : packet.packetType = kMqttConnect
        · rw [run_over (.inr (.inl (by rw [connect]; rfl)))]
          simp [ControlPacket.upToDisconnect, disconnect, first connect]
        · have next := @ih
            { serving with connection, dispatched := serving.dispatched ++ [packet.dispatch], left := false } turns
            rfl connected further later
          rw [after_of_ne disconnect connect, next]
          simp [ControlPacket.upToDisconnect, disconnect]

theorem serve_long {turn : Turn} {packet : ControlPacket} {rest : Bytes}
    (stays : serving.left = false) (connected : serving.session.connected = true)
    (begins : turn.Begins serving.session) (long : 128 ≤ packet.body.length)
    (stream : serving.connection.stream = packet.bytes ++ rest) (stale : serving.connection.packetBuf.contents 2 = 0) :
    Stops serving turn ∨ ∃ dispatch : Dispatch,
      (serve serving turn).dispatched = serving.dispatched ++ [dispatch] ∧ dispatch.payload.length < 128 := by
  obtain ⟨more, bytes⟩ := ControlPacket.bytes_long long
  have front : serving.connection.stream =
      packet.header :: (ofNat (packet.body.length % 128) ||| 0x80) :: (more ++ packet.body ++ rest) := by
    simp [stream, bytes]
  have announced : (serving.connection.begun packet.header (ofNat (packet.body.length % 128) ||| 0x80)
      (more ++ packet.body ++ rest)).remainingLength = (((packet.body.length % 128 : Nat) : Int), 2) :=
    readMqttLength_cut rfl ((contents_begun_stale (le_refl 2)).trans stale)
  have below : packet.body.length % 128 < 128 := mod_lt _ (by decide)
  have small : packet.body.length % 128 ≤ kMaxPacketSize := le_of_lt (lt_of_lt_of_le below (by decide))
  have enough : packet.body.length % 128 ≤ (more ++ packet.body ++ rest).length := by
    have less := mod_le packet.body.length 128
    simp only [length_append]
    omega
  by_cases come : packet.body.length % 128 ≤ turn.body
  · have served := serve_whole stays connected ⟨begins, come⟩ front announced (by decide) small enough
    refine .inr ⟨_, by rw [served], ?_⟩
    exact lt_of_le_of_lt (length_take_le _ _) below
  · exact .inl (serve_missing begins front announced (not_le.mp come))

theorem served_of_dispatched {turns : List Turn}
    (stays : serving.left = false) (connected : serving.session.connected = true)
    (stream : serving.connection.stream = packets.flatMap ControlPacket.bytes)
    (stale : serving.connection.packetBuf.contents 2 = 0)
    (blank : ∀ packet ∈ packets, packet.body.headD 0 = 0)
    (dispatched : (run serve serving turns).dispatched =
      serving.dispatched ++ (ControlPacket.upToDisconnect packets).map ControlPacket.dispatch) :
    Served serving.session packets turns := by
  induction packets generalizing serving turns with
  | nil => trivial
  | cons packet packets ih =>
    obtain ⟨others, expected⟩ : ∃ others, (ControlPacket.upToDisconnect (packet :: packets)).map
        ControlPacket.dispatch = packet.dispatch :: others := by
      unfold ControlPacket.upToDisconnect
      split
      · exact ⟨[], rfl⟩
      · exact ⟨_, rfl⟩
    cases turns with
    | nil => simp [expected] at dispatched
    | cons turn turns =>
      have goesOn : ¬Stops serving turn := by
        intro stops
        rw [stops.run_cons, expected] at dispatched
        simp at dispatched
      have begins : turn.Begins serving.session := by
        by_contra fails
        exact goesOn (serve_failing fails)
      have short : packet.body.length < 128 := by
        by_contra long
        obtain ⟨dispatch, next, cut⟩ :=
          (serve_long stays connected begins (not_lt.mp long) stream stale).resolve_left goesOn
        have reached := dispatched_prefix_run (serve serving turn) turns
        rw [← run_cons, dispatched, next, expected, prefix_append_right_inj] at reached
        obtain ⟨same, _⟩ := cons_prefix_cons.mp reached
        rw [same] at cut
        exact long cut
      have front : serving.connection.stream = packet.bytes ++ packets.flatMap ControlPacket.bytes := stream
      have passes : turn.Passes serving.session packet.body.length := by
        refine ⟨begins, not_lt.mp fun missing => goesOn ?_⟩
        rw [ControlPacket.bytes_short short] at front
        exact serve_missing begins front (readMqttLength_short short rfl) missing
      obtain ⟨connection, served, further, third⟩ := serve_short stays connected passes short front
      rw [run_cons, served] at dispatched
      refine ⟨passes, short, ?_⟩
      by_cases disconnect : packet.packetType = kMqttDisconnect
      · exact .inl disconnect
      · right
        simp only [ControlPacket.upToDisconnect, if_neg disconnect, map_cons] at dispatched
        by_cases connect : packet.packetType = kMqttConnect
        · rw [run_over (.inr (.inl (by rw [connect]; rfl)))] at dispatched
          have last : packets = [] := by
            rw [← ControlPacket.upToDisconnect_eq_nil]
            simpa using dispatched
          rw [last]
          exact ⟨fun _ => rfl, trivial⟩
        · rw [after_of_ne disconnect connect] at dispatched
          have zero : connection.packetBuf.contents 2 = 0 := by
            rw [third, stale]
            exact blank packet mem_cons_self
          have next := @ih
            { serving with connection, dispatched := serving.dispatched ++ [packet.dispatch], left := false } turns
            rfl connected further zero (fun other member => blank other (mem_cons_of_mem _ member))
          exact ⟨fun isConnect => absurd isConnect connect, next (by simpa using dispatched)⟩

end

/-!
## Packets that arrive
-/

/-- Up to the first DISCONNECT every packet has a length of a single byte, no CONNECT stands before
another packet, and the loop goes on for every packet and finds all of it there. -/
structure Conforms (session : MqttSession) (packets : List ControlPacket) (turns : List Turn) : Prop where
  short : ∀ packet ∈ ControlPacket.upToDisconnect packets, packet.body.length < 128
  connects : ∀ packet ∈ (ControlPacket.upToDisconnect packets).dropLast, packet.packetType ≠ kMqttConnect
  enough : (ControlPacket.upToDisconnect packets).length ≤ turns.length
  passes : ∀ read ∈ (ControlPacket.upToDisconnect packets).zip turns, read.2.Passes session read.1.body.length

theorem served_iff_conforms {turns : List Turn} :
    Served session packets turns ↔ Conforms session packets turns := by
  induction packets generalizing turns with
  | nil =>
    refine ⟨fun _ => ⟨fun _ member => ?_, fun _ member => ?_, zero_le _, fun _ member => ?_⟩, fun _ => trivial⟩
    · cases member
    · cases member
    · cases member
  | cons packet packets ih =>
    cases turns with
    | nil =>
      refine ⟨fun served => served.elim, fun conforms => ?_⟩
      have none_left := eq_nil_of_length_eq_zero (le_zero.mp conforms.enough)
      cases ControlPacket.upToDisconnect_eq_nil.mp none_left
    | cons turn turns =>
      by_cases disconnect : packet.packetType = kMqttDisconnect
      · have alone : ControlPacket.upToDisconnect (packet :: packets) = [packet] := if_pos disconnect
        constructor
        · rintro ⟨passes, short, _⟩
          exact ⟨by simpa [alone] using short, by simp [alone], by simp [alone], by simpa [alone] using passes⟩
        · intro conforms
          have short := conforms.short packet (by simp [alone])
          have passes := conforms.passes (packet, turn) (by simp [alone])
          exact ⟨passes, short, .inl disconnect⟩
      · have front : ControlPacket.upToDisconnect (packet :: packets) =
            packet :: ControlPacket.upToDisconnect packets := if_neg disconnect
        simp only [Served, disconnect, false_or, ih]
        constructor
        · rintro ⟨passes, short, last, conforms⟩
          refine ⟨?_, ?_, ?_, ?_⟩
          · simpa [front] using ⟨short, conforms.short⟩
          · rw [front]
            by_cases alone : packets = []
            · simp [ControlPacket.upToDisconnect_eq_nil.mpr alone]
            · rw [dropLast_cons_of_ne_nil (fun none => alone (ControlPacket.upToDisconnect_eq_nil.mp none))]
              simpa using ⟨fun connect => alone (last connect), conforms.connects⟩
          · simpa [front] using conforms.enough
          · rw [front, zip_cons_cons]
            exact forall_mem_cons.mpr ⟨passes, conforms.passes⟩
        · rintro ⟨short, connects, enough, passes⟩
          rw [front] at short connects enough passes
          simp only [mem_cons, forall_eq_or_imp, zip_cons_cons] at short passes
          have later : ∀ other ∈ (ControlPacket.upToDisconnect packets).dropLast,
              other.packetType ≠ kMqttConnect := by
            intro other member
            cases rest : ControlPacket.upToDisconnect packets with
            | nil => simp [rest] at member
            | cons first others =>
              rw [rest] at member connects
              exact connects other (mem_cons_of_mem _ member)
          refine ⟨passes.1, short.1, fun connect => ?_, short.2, later, le_of_succ_le_succ enough, passes.2⟩
          by_contra others
          rw [dropLast_cons_of_ne_nil (fun none => others (ControlPacket.upToDisconnect_eq_nil.mp none))]
            at connects
          exact connects packet mem_cons_self connect

/-- The connection accepts the CONNECT packet and hands on exactly the packets up to the first DISCONNECT. -/
def MqttBridge.HandsOn (clock : Nat) (buffer : Nat → UInt8) (connect : ControlPacket) (packets : List ControlPacket)
    (arrived : Arrived) (turns : List Turn) : Prop :=
  (handleConnection clock buffer (connect.bytes ++ packets.flatMap ControlPacket.bytes) arrived turns).1.map
    Serving.dispatched = some ((ControlPacket.upToDisconnect packets).map ControlPacket.dispatch)

section

variable {clock : Nat} {buffer : Nat → UInt8} {connect : ControlPacket} {session : MqttSession} {arrived : Arrived}

/-- The whole CONNECT packet has come when it is read. -/
def Arrived.Whole (arrived : Arrived) (length : Nat) : Prop := 2 ≤ arrived.header ∧ length ≤ arrived.body

theorem handleConnection_short (connects : connect.Connects clock session) (short : connect.body.length < 128)
    (whole : arrived.Whole connect.body.length) (rest : Bytes) (turns : List Turn) :
    ∃ connection : Connection, connection.stream = rest ∧ connection.packetBuf.contents 2 = 0 ∧
      (handleConnection clock buffer (connect.bytes ++ rest) arrived turns).1 =
        some (run serve { connection, session, dispatched := [], left := false } turns) := by
  obtain ⟨isConnect, long, connack, accepted⟩ := connects
  have stream : connect.bytes ++ rest =
      connect.header :: ofNat connect.body.length :: (connect.body ++ rest) := by
    simp [ControlPacket.bytes_short short]
  have enough : connect.body.length ≤ (connect.body ++ rest).length := by simp
  have body : (connect.body ++ rest).take connect.body.length = connect.body := take_left' rfl
  have read := @handleConnectPacket_whole clock
    { stream := connect.bytes ++ rest, packetBuf := Memory.untouched buffer } _ _ _ _ 1
    stream isConnect (readMqttLength_short short rfl) one_ne_zero long enough arrived whole.1 whole.2
  rw [body, accepted] at read
  refine ⟨_, ?_, ?_, by rw [handleConnection, read]⟩
  · rw [stream_ended]
    exact drop_left' rfl
  · rw [contents_ended_two]
    refine (congrArg₂ headD body rfl).trans ?_
    exact headD_of_readMqttString short (connected_of_readConnect accepted).2 _

theorem handleConnection_refused {stream : Bytes} {turns : List Turn}
    (refused : ∃ refused after, handleConnectPacket clock
      { stream, packetBuf := Memory.untouched buffer } arrived = (.error refused, after)) :
    (handleConnection clock buffer stream arrived turns).1 = none := by
  obtain ⟨refused, after, read⟩ := refused
  rw [handleConnection, read]

theorem handleConnection_long (long : 128 ≤ connect.body.length) (begins : 2 ≤ arrived.header) (rest : Bytes)
    (turns : List Turn) :
    (handleConnection clock (fun _ => 0xFF) (connect.bytes ++ rest) arrived turns).1 = none := by
  obtain ⟨more, bytes⟩ := ControlPacket.bytes_long long
  have stream : connect.bytes ++ rest =
      connect.header :: (ofNat (connect.body.length % 128) ||| 0x80) :: (more ++ connect.body ++ rest) := by
    simp [bytes]
  have endless : (begun { stream := connect.bytes ++ rest, packetBuf := Memory.untouched fun _ => 0xFF }
      connect.header (ofNat (connect.body.length % 128) ||| 0x80)
      (more ++ connect.body ++ rest)).remainingLength = (-1, 0) := by
    apply readMqttLength_endless
    intro index _
    cases index with
    | zero => exact (continued_bits _ (mod_lt _ (by decide))).1
    | succ index =>
      have behind : 2 ≤ 1 + (index + 1) := by omega
      rw [contents_begun_stale behind]
      exact (by decide : (0xFF : UInt8) &&& 0x80 ≠ 0)
  exact handleConnection_refused (handleConnectPacket_endless stream endless begins)

theorem handleConnection_missing (short : connect.body.length < 128) (begins : 2 ≤ arrived.header)
    (missing : arrived.body < connect.body.length) (rest : Bytes) (turns : List Turn) :
    (handleConnection clock buffer (connect.bytes ++ rest) arrived turns).1 = none := by
  have stream : connect.bytes ++ rest =
      connect.header :: ofNat connect.body.length :: (connect.body ++ rest) := by
    simp [ControlPacket.bytes_short short]
  exact handleConnection_refused
    (handleConnectPacket_missing stream (readMqttLength_short short rfl) begins missing)

theorem handsOn_iff (connects : connect.Connects clock session) (packets : List ControlPacket) (arrived : Arrived)
    (turns : List Turn) :
    (∀ buffer others, others.map ControlPacket.shape = packets.map ControlPacket.shape →
        MqttBridge.HandsOn clock buffer connect others arrived turns) ↔
      connect.body.length < 128 ∧ arrived.Whole connect.body.length ∧ Conforms session packets turns := by
  obtain ⟨connack, accepted⟩ := connects.accepted
  have connected := (connected_of_readConnect accepted).1
  constructor
  · intro always
    have begins : 2 ≤ arrived.header := by
      by_contra cut
      have handsOn := always (fun _ => 0xFF) packets rfl
      rw [MqttBridge.HandsOn, handleConnection_refused (handleConnectPacket_cut
        (lt_of_le_of_lt (min_le_left _ _) (not_le.mp cut)))] at handsOn
      cases handsOn
    have short : connect.body.length < 128 := by
      by_contra long
      have handsOn := always (fun _ => 0xFF) packets rfl
      rw [MqttBridge.HandsOn, handleConnection_long (not_lt.mp long) begins] at handsOn
      cases handsOn
    have whole : arrived.Whole connect.body.length := by
      refine ⟨begins, not_lt.mp fun missing => ?_⟩
      have handsOn := always (fun _ => 0xFF) packets rfl
      rw [MqttBridge.HandsOn, handleConnection_missing short begins missing] at handsOn
      cases handsOn
    refine ⟨short, whole, served_iff_conforms.mp ?_⟩
    have alike : (packets.map ControlPacket.blank).map ControlPacket.shape = packets.map ControlPacket.shape := by
      simp [Function.comp_def]
    have handsOn := always (fun _ => 0) (packets.map ControlPacket.blank) alike
    obtain ⟨connection, stream, third, outcome⟩ := @handleConnection_short clock (fun _ => 0) connect session _ connects
      short whole ((packets.map ControlPacket.blank).flatMap ControlPacket.bytes) turns
    rw [MqttBridge.HandsOn, outcome] at handsOn
    have zeros : ∀ packet ∈ packets.map ControlPacket.blank, packet.body.headD 0 = 0 := by
      intro packet member
      obtain ⟨origin, _, rfl⟩ := mem_map.mp member
      exact ControlPacket.headD_blank origin
    have served := @served_of_dispatched { connection, session, dispatched := [], left := false } _ turns rfl connected
      stream third zeros (Option.some.inj handsOn)
    exact (served_congr alike).mp served
  · rintro ⟨short, whole, conforms⟩ buffer others alike
    obtain ⟨connection, stream, _, outcome⟩ := @handleConnection_short clock buffer connect session _ connects short
      whole (others.flatMap ControlPacket.bytes) turns
    have served : Served session others turns := (served_congr alike).mpr (served_iff_conforms.mpr conforms)
    rw [MqttBridge.HandsOn, outcome]
    exact congrArg some (@dispatched_of_served { connection, session, dispatched := [], left := false } _ turns rfl
      connected stream served)

end

end TorrentMq.Proxy
