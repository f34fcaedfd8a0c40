import TorrentMq.Proxy.MqttFraming

/-!
# Stores of the MQTT bridge

When a connection stores only into its buffer, whatever its client sends.
-/

set_option autoImplicit false

namespace TorrentMq.Proxy

open Bytes Runs List Connection MqttBridge Nat

theorem consumed_readMqttLengthFrom_le (data : Nat → UInt8) (len left place : Nat) (value multiplier : Int)
    (consumed : Nat) : (readMqttLengthFrom data len left place value multiplier consumed).2 ≤ consumed + left := by
  induction left generalizing place value multiplier consumed with
  | zero => exact Nat.le_refl consumed
  | succ left ih =>
    unfold readMqttLengthFrom
    dsimp only
    split
    · exact Nat.le_add_right consumed (left + 1)
    · split
      · exact Nat.add_le_add_left (Nat.le_add_left 1 left) consumed
      · split
        · exact Nat.zero_le _
        · have next := ih (place + 1) (value + (data place &&& 0x7F).toNat * multiplier) (multiplier * 128)
            (consumed + 1)
          omega

theorem consumed_readMqttLengthFrom_pos (data : Nat → UInt8) (len left place : Nat) (value multiplier : Int)
    {consumed : Nat} (some_byte : 0 < consumed)
    (valid : 0 < (readMqttLengthFrom data len left place value multiplier consumed).1) :
    0 < (readMqttLengthFrom data len left place value multiplier consumed).2 := by
  induction left generalizing place value multiplier consumed with
  | zero => exact some_byte
  | succ left ih =>
    unfold readMqttLengthFrom at valid ⊢
    dsimp only at valid ⊢
    split at valid
    next none_left => simpa [none_left] using some_byte
    next more =>
      rw [if_neg more]
      split at valid
      next last => simp [last]
      next continued =>
        rw [if_neg continued]
        split at valid
        · exact absurd valid (by decide)
        next room =>
          rw [if_neg room]
          exact ih _ _ _ (succ_pos consumed) valid

theorem consumed_readMqttLength_pos {data : Nat → UInt8} (valid : 0 < (readMqttLength data (kMaxPacketSize - 1)).1) :
    0 < (readMqttLength data (kMaxPacketSize - 1)).2 := by
  unfold readMqttLength readMqttLengthFrom at valid ⊢
  dsimp only at valid ⊢
  rw [if_neg (by decide)] at valid ⊢
  split at valid
  next last => simp [last]
  next continued =>
    rw [if_neg continued]
    rw [if_neg (by decide)] at valid ⊢
    exact consumed_readMqttLengthFrom_pos _ _ _ _ _ _ one_pos valid

namespace Connection

/-- The length the next packet will be taken to have, and the bytes of it: the second byte of the stream
and what the buffer already holds behind it. -/
def announced (connection : Connection) (arrived : Nat) : Int × Nat :=
  (connection.readExact arrived 0 2).2.remainingLength

/-- The next packet, or what has come of it when it is read, ends within the buffer. -/
def Fits (connection : Connection) (arrived : Arrived) : Prop :=
  2 ≤ min arrived.header connection.stream.length → 0 < (connection.announced arrived.header).1 →
    1 + (connection.announced arrived.header).2 + min (connection.announced arrived.header).1.toNat
      (min arrived.body (connection.stream.length - 2)) ≤ kMaxPacketSize

instance (connection : Connection) (arrived : Arrived) : Decidable (connection.Fits arrived) :=
  inferInstanceAs (Decidable (_ → _ → _))

variable {connection : Connection}

theorem reads_iff {arrived offset n : Nat} :
    (connection.readExact arrived offset n).1 = true ↔ n ≤ min arrived connection.stream.length := by
  rw [readExact, decide_eq_true_iff, length_take, length_take, le_min_iff, and_iff_right (le_refl n)]

theorem within_readExact {arrived offset n : Nat} (inside : offset ≤ kMaxPacketSize) :
    (connection.readExact arrived offset n).2.packetBuf.Within kMaxPacketSize ↔
      connection.packetBuf.Within kMaxPacketSize ∧
        offset + min n (min arrived connection.stream.length) ≤ kMaxPacketSize := by
  have stored := @Memory.within_store connection.packetBuf _ _ ((connection.stream.take arrived).take n) inside
  rwa [length_take, length_take] at stored

theorem within_begin {arrived : Nat} :
    (connection.readExact arrived 0 2).2.packetBuf.Within kMaxPacketSize ↔
      connection.packetBuf.Within kMaxPacketSize := by
  have two : 0 + min 2 (min arrived connection.stream.length) ≤ kMaxPacketSize := by
    have short := min_le_left 2 (min arrived connection.stream.length)
    unfold kMaxPacketSize
    omega
  exact (within_readExact (zero_le _)).trans (and_iff_left two)

theorem within_readRest {arrived : Nat} :
    (connection.readRest arrived).2.packetBuf.Within kMaxPacketSize ↔
      connection.packetBuf.Within kMaxPacketSize ∧ (0 < connection.remainingLength.1 →
        1 + connection.remainingLength.2 + min connection.remainingLength.1.toNat
          (min arrived connection.stream.length) ≤ kMaxPacketSize) := by
  have code : connection.remainingLength.2 ≤ 4 := by
    have most := consumed_readMqttLengthFrom_le (fun index => connection.packetBuf.contents (1 + index))
      (kMaxPacketSize - 1) 4 0 0 1 0
    simpa [remainingLength, readMqttLength] using most
  have inside : 1 + connection.remainingLength.2 ≤ kMaxPacketSize := by
    unfold kMaxPacketSize
    omega
  unfold readRest
  split
  next some_byte => rw [within_readExact inside, forall_prop_of_true some_byte]
  next none_left => simp [none_left]

theorem within_packet {arrived : Arrived} (enough : 2 ≤ min arrived.header connection.stream.length) :
    ((connection.readExact arrived.header 0 2).2.readRest arrived.body).2.packetBuf.Within kMaxPacketSize ↔
      connection.packetBuf.Within kMaxPacketSize ∧ connection.Fits arrived := by
  have left : (connection.readExact arrived.header 0 2).2.stream.length = connection.stream.length - 2 := by
    rw [readExact, length_drop, length_take, length_take, min_eq_left enough]
  rw [within_readRest, within_begin, left, Fits, forall_prop_of_true enough, announced]

end Connection

def Connection.ConnectFits (connection : Connection) (arrived : Arrived) : Prop :=
  (connection.readExact arrived.header 0 2).2.packetType = kMqttConnect →
    10 ≤ (connection.announced arrived.header).1 → connection.Fits arrived

def Serving.PacketFits (serving : Serving) (turn : Turn) : Prop :=
  serving.left = false → serving.session.connected = true → turn.Begins serving.session →
    (serving.connection.announced turn.header).1.toNat ≤ kMaxPacketSize → serving.connection.Fits turn.toArrived

theorem handleConnectPacket_within (clock : Nat) (connection : Connection) (arrived : Arrived) :
    (handleConnectPacket clock connection arrived).2.packetBuf.Within kMaxPacketSize ↔
      connection.packetBuf.Within kMaxPacketSize ∧ connection.ConnectFits arrived := by
  have begins := @within_begin connection arrived.header
  unfold handleConnectPacket Connection.ConnectFits
  dsimp only
  split
  next cut =>
    have short : ¬2 ≤ min arrived.header connection.stream.length := mt reads_iff.mpr (by simpa using cut)
    exact begins.trans (and_iff_left fun _ _ enough => absurd enough short).symm
  next whole =>
    have enough : 2 ≤ min arrived.header connection.stream.length := reads_iff.mp (by simpa using whole)
    split
    next other => exact begins.trans (and_iff_left fun isConnect => absurd isConnect other).symm
    next isConnect =>
      rw [forall_prop_of_true (Decidable.not_not.mp isConnect)]
      split
      next refused =>
        refine begins.trans (and_iff_left fun long => ?_).symm
        rcases refused with below | none_read
        · exact absurd long (Int.not_le.mpr below)
        · have some_byte : 0 < (connection.announced arrived.header).1 := Int.lt_of_lt_of_le (by decide) long
          exact absurd none_read (ne_of_gt (consumed_readMqttLength_pos some_byte))
      next valid =>
        have long : 10 ≤ (connection.announced arrived.header).1 := Int.not_lt.mp fun below => valid (.inl below)
        rw [forall_prop_of_true long]
        split
        · exact within_packet enough
        · exact within_packet enough

theorem serve_within (serving : Serving) (turn : Turn) :
    (serve serving turn).connection.packetBuf.Within kMaxPacketSize ↔
      serving.connection.packetBuf.Within kMaxPacketSize ∧ serving.PacketFits turn := by
  have begins := @within_begin serving.connection turn.header
  unfold serve
  split
  next left => exact (and_iff_left fun stays => absurd left (Bool.eq_false_iff.mp stays)).symm
  next stays =>
    split
    next ends =>
      refine (and_iff_left fun _ connected passes => ?_).symm
      simp [connected, passes.1] at ends
    next goes =>
      split
      next late => exact (and_iff_left fun _ _ passes => absurd late (not_lt.mpr passes.2.1)).symm
      next patient =>
        dsimp only
        split
        next cut =>
          have short : ¬2 ≤ min turn.header serving.connection.stream.length := mt reads_iff.mpr (by simpa using cut)
          exact begins.trans (and_iff_left fun _ _ _ _ enough => absurd enough short).symm
        next whole =>
          have enough : 2 ≤ min turn.header serving.connection.stream.length := reads_iff.mp (by simpa using whole)
          split
          next invalid =>
            refine begins.trans (and_iff_left fun _ _ _ _ _ some_byte => ?_).symm
            rcases invalid with below | none_read
            · exact absurd some_byte (Int.not_lt.mpr (Int.le_of_lt below))
            · exact absurd none_read (ne_of_gt (consumed_readMqttLength_pos some_byte))
          next valid =>
            split
            next large =>
              have fits : serving.PacketFits turn := fun _ _ _ small => absurd large (not_lt.mpr small)
              exact begins.trans (and_iff_left fits).symm
            next small =>
              have reads : serving.PacketFits turn ↔ serving.connection.Fits turn.toArrived := by
                simp only [Bool.not_eq_true, Bool.not_eq_false', Bool.and_eq_true] at goes stays
                refine ⟨fun fits => ?_, fun fits _ _ _ _ => fits⟩
                exact fits stays goes.2 ⟨goes.1, not_lt.mp patient, enough.trans (min_le_left _ _)⟩
                  (not_lt.mp small)
              rw [reads]
              split
              · exact within_packet enough
              · exact within_packet enough

/-- Every packet that a connection reads fits: the CONNECT packet, and behind it those of the loop. -/
def MqttBridge.EveryPacketFits (clock : Nat) (connection : Connection) (arrived : Arrived) (turns : List Turn) :
    Prop :=
  connection.ConnectFits arrived ∧ ∀ session connack connected,
    handleConnectPacket clock connection arrived = (.ok (session, connack), connected) →
      Meets serve Serving.PacketFits { connection := connected, session, dispatched := [], left := false } turns

theorem handleConnection_within (clock : Nat) (buffer : Nat → UInt8) (stream : List UInt8) (arrived : Arrived)
    (turns : List Turn) :
    (handleConnection clock buffer stream arrived turns).2.packetBuf.Within kMaxPacketSize ↔
      MqttBridge.EveryPacketFits clock { stream, packetBuf := Memory.untouched buffer } arrived turns := by
  have first := handleConnectPacket_within clock { stream, packetBuf := Memory.untouched buffer } arrived
  rw [and_iff_right (Memory.within_untouched kMaxPacketSize buffer)] at first
  unfold handleConnection MqttBridge.EveryPacketFits
  cases result : handleConnectPacket clock { stream, packetBuf := Memory.untouched buffer } arrived with
  | mk outcome connection =>
    rw [result] at first
    cases outcome with
    | error refused =>
      refine first.trans (and_iff_left fun session connack connected accepted => ?_).symm
      cases accepted
    | ok accepted =>
      have loop := property_run_iff (fun serving : Serving => serving.connection.packetBuf.Within kMaxPacketSize)
        serve_within { connection, session := accepted.1, dispatched := [], left := false } turns
      refine loop.trans (and_congr first ⟨fun meets session connack connected same => ?_, fun meets => ?_⟩)
      · cases same
        exact meets
      · exact meets accepted.1 accepted.2 connection rfl

/-- The shapes of the packets that a connection hands on whatever they contain, and the streams
it stores within its buffer. -/
theorem MqttBridge.framed_iff_conforms {clock : Nat} {connect : ControlPacket} {session : MqttSession}
    (connects : connect.Connects clock session) (packets : List ControlPacket) (arrived : Arrived)
    (turns : List Turn) :
    ((∀ buffer others, others.map ControlPacket.shape = packets.map ControlPacket.shape →
        HandsOn clock buffer connect others arrived turns) ↔
      connect.body.length < 128 ∧ arrived.Whole connect.body.length ∧ Conforms session packets turns) ∧
    ∀ buffer stream,
      (handleConnection clock buffer stream arrived turns).2.packetBuf.Within kMaxPacketSize ↔
        EveryPacketFits clock { stream, packetBuf := Memory.untouched buffer } arrived turns :=
  ⟨handsOn_iff connects packets arrived turns,
    fun buffer stream => handleConnection_within clock buffer stream arrived turns⟩

def plainConnect : ControlPacket where
  header := 0x10
  body := [0, 4, 77, 81, 84, 84, 4, 2, 0, 60, 0, 0]
  fits := by decide

def plainSession : MqttSession where
  clientId := text "auto-0"
  protocolVersion := kMqttVersion311
  connected := true
  cleanSession := true
  keepAlive := 60
  willFlag := false
  willQos := 0
  willRetain := false
  willTopic := []
  willPayload := []
  hasUsername := false
  hasPassword := false
  username := []
  password := []

def publishOf (length : Nat) (fits : 1 + (writeMqttLength length).length + length ≤ kMaxPacketSize) :
    ControlPacket where
  header := 0x30
  body := List.replicate length 0
  fits := by simpa using fits

def disconnectPacket : ControlPacket where
  header := 0xE0
  body := []
  fits := by decide

/-- So much has come that no read has to wait. -/
def promptTurn : Turn where
  header := 2 * kMaxPacketSize
  body := 2 * kMaxPacketSize
  running := true
  idle := 0

theorem plainConnect_connects : plainConnect.Connects 0 plainSession where
  packetType := by decide
  long := by decide
  accepted := ⟨buildConnack kConnAccepted false, by decide +kernel⟩

/-- Behind a DISCONNECT a packet may be of any length. -/
theorem shortPackets_framed :
    (∀ buffer others, others.map ControlPacket.shape =
        [publishOf 127 (by decide), disconnectPacket, publishOf 128 (by decide)].map ControlPacket.shape →
      MqttBridge.HandsOn 0 buffer plainConnect others ⟨2, 12⟩ [promptTurn, promptTurn]) ∧
    MqttBridge.EveryPacketFits 0 { stream := plainConnect.bytes, packetBuf := Memory.untouched fun _ => 0 } ⟨2, 12⟩
      [promptTurn, promptTurn] := by
  obtain ⟨framed, stored⟩ := framed_iff_conforms plainConnect_connects
    [publishOf 127 (by decide), disconnectPacket, publishOf 128 (by decide)] ⟨2, 12⟩ [promptTurn, promptTurn]
  constructor
  · exact framed.mpr ⟨by decide, ⟨by decide, by decide⟩, by decide +kernel, by decide, by decide,
      by decide +kernel⟩
  · exact (stored (fun _ => 0) plainConnect.bytes).mp (by decide +kernel)

def overlongBytes : List UInt8 := [0x30, 2, 0x80, 0x10, 0x30, 0x80]

theorem overlong_not_within {rest : List UInt8} (long : rest.length = kMaxPacketSize) :
    ¬(handleConnection 0 (fun _ => 0) (plainConnect.bytes ++ (overlongBytes ++ rest)) ⟨2, 12⟩
      [promptTurn, promptTurn]).2.packetBuf.Within kMaxPacketSize := by
  intro within
  obtain ⟨connack, accepted⟩ := plainConnect_connects.accepted
  obtain ⟨_, fits⟩ := (handleConnection_within _ _ _ _ _).mp within
  let body := plainConnect.body ++ (overlongBytes ++ rest)
  let first : Connection := { stream := 0x10 :: 12 :: body, packetBuf := Memory.untouched fun _ => 0 }
  have connected := @handleConnectPacket_whole 0 first _ _ _ 12 1 rfl (by decide)
    (readMqttLength_short (by decide) rfl) one_ne_zero (by decide) (by simp [body, plainConnect]) ⟨2, 12⟩
    (by decide) (by decide)
  rw [show body.take 12 = plainConnect.body from rfl, accepted] at connected
  have meets := fits _ _ _ connected
  let entered : Serving :=
    { connection := (first.begun 0x10 12 body).ended 12 1, session := plainSession, dispatched := [], left := false }
  have served := @serve_whole entered promptTurn 0x30 2 (0x80 :: 0x10 :: 0x30 :: 0x80 :: rest) 2 1 rfl rfl
    ⟨⟨rfl, zero_le _, by decide⟩, by decide⟩ rfl (readMqttLength_short (by decide) rfl) one_ne_zero (by decide)
    (by simp)
  let reached : Connection := (entered.connection.begun 0x30 2 (0x80 :: 0x10 :: 0x30 :: 0x80 :: rest)).ended 2 1
  have announced : reached.announced promptTurn.header = (262144, 3) := by
    have first : (reached.readExact promptTurn.header 0 2).2.packetBuf.contents 1 = 0x80 := rfl
    have second : (reached.readExact promptTurn.header 0 2).2.packetBuf.contents 2 = 0x80 := rfl
    have third : (reached.readExact promptTurn.header 0 2).2.packetBuf.contents 3 = 0x10 := rfl
    have last : (0x10 : UInt8) &&& 0x80 = 0 := by decide
    simp [announced, remainingLength, readMqttLength, readMqttLengthFrom, kMaxPacketSize, first,
      second, third, last]
  have stream : reached.stream = 0x30 :: 0x80 :: rest := rfl
  have second : reached.Fits promptTurn.toArrived := by
    have next := meets.2.1
    rw [served] at next
    exact next rfl rfl ⟨rfl, zero_le _, by decide⟩
      (by rw [show reached.announced promptTurn.header = _ from announced]; decide)
  have beyond := second (by simp [stream, promptTurn, kMaxPacketSize]) (by rw [announced]; decide)
  rw [announced, stream] at beyond
  simp [long, promptTurn, kMaxPacketSize] at beyond

/-- A body of 128 zeros is lost, and a packet of 256 KB is stored past the end of the buffer. -/
theorem longPackets_not_framed :
    ¬MqttBridge.HandsOn 0 (fun _ => 0) plainConnect [publishOf 128 (by decide)] ⟨2, 12⟩ [promptTurn] ∧
      ¬(handleConnection 0 (fun _ => 0)
        (plainConnect.bytes ++ (overlongBytes ++ List.replicate kMaxPacketSize 0)) ⟨2, 12⟩
        [promptTurn, promptTurn]).2.packetBuf.Within kMaxPacketSize := by
  constructor
  · unfold MqttBridge.HandsOn
    decide +kernel
  · exact overlong_not_within length_replicate

end TorrentMq.Proxy
