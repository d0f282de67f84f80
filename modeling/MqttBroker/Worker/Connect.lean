import MqttBroker.Worker.Publish

/-! Connections: the TLS handshake, the packets of a connection and its
CONNECT. -/
namespace MqttBroker.Worker

/-! ### The fixed header and the payload -/

/-- `packet_length` with the fixed header, `additional_packet_len`, and
`cur_pos` behind the fixed header. -/
structure Header where
  packetLength : UInt16
  additionalPacketLen : UInt8
  curPos : Nat

/-- The loop over the bytes of the remaining length; `none` is `len_error`. The
multiplier has 16 bits, so the test on it never fires. The buffer bounds the
loop. -/
def readLength : Nat → Nat → UInt16 → UInt16 → UInt8 → Worker (Option Header)
  | 0, _, _, _, _ => fault .outOfBounds
  | fuel + 1, pos, packetLength, multiplier, additional => do
    if (← connRead pos 1) = 0 then pure none
    else
      let encByte ← byteAt pos
      let packetLength := packetLength + (encByte &&& 127).toUInt16 * multiplier
      let multiplier := multiplier * 128
      if multiplier.toNat > 128 * 128 * 128 then pure none
      else
        let additional := additional + 1
        if encByte &&& 128 ≠ 0 then readLength fuel (pos + 1) packetLength multiplier additional
        else pure (some ⟨packetLength, additional, pos + 1⟩)

/-- The loop over the reads of a payload of `left` more bytes; whether it ran
into an error. -/
def readPayload : Nat → Nat → Nat → Worker Bool
  | 0, _, left => pure (decide (left ≠ 0))
  | fuel + 1, pos, left => do
    if left = 0 then pure false
    else
      let readCode ← connRead pos left
      if readCode = 0 then pure true else readPayload fuel (pos + readCode) (left - readCode)

/-- A packet, or `none` for one that has to drop the connection. -/
def readPacket : Worker (Option Header) := do
  if (← connRead 0 1) = 0 then pure none
  else
    match ← readLength buffSize 1 0 1 1 with
    | none => pure none
    | some header =>
      if header.packetLength.toNat + header.additionalPacketLen.toNat > 1024 then pure none
      else if ← readPayload header.packetLength.toNat header.curPos header.packetLength.toNat then
        pure none
      else
        pure (some { header with
          packetLength := header.packetLength + header.additionalPacketLen.toUInt16 })

/-! ### CONNECT -/

/-- `conn_ack` -/
def connAck (sock : Fin 64) (returnCode : UInt8) (sessionPresentFlag : Bool) :
    Worker (List UInt8) := do
  let connack := [0x20, 0x02, if sessionPresentFlag then 0 else 1, returnCode]
  let _ ← connWrite sock connack none
  pure connack

/-- `mqtt_conn_return` -/
inductive MqttConnReturn
  | disconnect | cleanSession | uncleanSession
  deriving DecidableEq

/-- The enumerator `clean_session` where a flag is expected. -/
def cleanSessionFlag : Bool := true

/-- A will as the flags of a CONNECT describe it. -/
def willOfFlags (connFlags : UInt8) : Will :=
  if connFlags &&& 0x04 ≠ 0 then
    let qos := (connFlags >>> 3) &&& 0x03
    { presenceFlag := true, retain := connFlags &&& 0x20 ≠ 0, qos := if qos > 2 then 2 else qos }
  else {}

/-- `myvector(T *p_begin, T *p_end)` over the buffer, which reads nothing for an
empty range or without memory. -/
def vectorAt (pos len : Nat) : Worker (Myvector UInt8) := do
  if len = 0 then pure {}
  else if ← onHeap Heap.alloc then pure ⟨← rangeAt pos len, len⟩
  else pure {}

/-- The topic and the message of a will, from `cur_pos` on; `none` where an
allocation failed. -/
def readWill (pos : Nat) (will : Will) : Worker (Option (Will × Nat)) := do
  let topicLen ← ntohsAt pos
  let topic ← vectorAt (pos + 2) topicLen.toNat
  if topic.size ≠ topicLen.toNat then pure none
  else
    let pos := pos + 2 + topicLen.toNat
    let msgLen ← ntohsAt pos
    let msg ← vectorAt (pos + 2) msgLen.toNat
    if msg.size ≠ msgLen.toNat then pure none
    else pure (some ({ will with topic := topic, msg := msg }, pos + 2 + msgLen.toNat))

/-- `check_password` of the bytes at a position. Without memory for its digest
the password is not read. -/
def checkPasswordAt (username : List UInt8) (pos passLen : Nat) : Worker Bool := do
  let w ← get
  let pass ← (if w.env.heap.alloc.1 then rangeAt pos passLen else pure (List.replicate passLen 0))
  let checked ← check (UserCreds.checkPassword w.userCred w.env.digest username pass w.env.heap)
  onHeap fun _ => checked

/-- The user name and password, from `cur_pos` on. -/
def readCredentials (pos : Nat) (password : Bool) : Worker Bool := do
  let usernameLen ← ntohsAt pos
  let username ← rangeAt (pos + 2) usernameLen.toNat
  let pos := pos + 2 + usernameLen.toNat
  if password then
    let passLen ← ntohsAt pos
    checkPasswordAt username (pos + 2) passLen.toNat
  else checkPasswordAt username pos 0

/-- The part of `connect_mqtt` after the client id. -/
def readOptions (pos : Nat) (connFlags : UInt8) (will : Will) : Worker (MqttConnReturn × Will) := do
  match ← (if will.presenceFlag then readWill pos will else pure (some (will, pos))) with
  | none => pure (.disconnect, {})
  | some (will, pos) =>
    if ← (if connFlags &&& 0x80 ≠ 0 then readCredentials pos (connFlags &&& 0x40 ≠ 0)
        else pure true) then
      pure (if connFlags &&& 0x02 ≠ 0 then .cleanSession else .uncleanSession, will)
    else pure (.disconnect, {})

/-- A comparison of the buffer with some bytes, up to the first that differs. -/
def matchesAt (pos : Nat) : List UInt8 → Worker Bool
  | [] => pure true
  | byte :: rest => do if (← byteAt pos) ≠ byte then pure false else matchesAt (pos + 1) rest

/-- `connect_mqtt`. Its check that the packet is a CONNECT only logs. -/
def connectMqtt (sock : Fin 64) (curPos : Nat) : Worker (MqttConnReturn × Will) := do
  let packetFlags := (← byteAt 0) &&& 0x0F
  if packetFlags ≠ 0 then return (.disconnect, {})
  if (← ntohsAt curPos) ≠ 4 then return (.disconnect, {})
  if !(← matchesAt (curPos + 2) [0x4D, 0x51, 0x54, 0x54]) then return (.disconnect, {})
  if (← byteAt (curPos + 6)) ≠ 0x04 then
    let _ ← connAck sock 0x01 true
    return (.disconnect, {})
  let connFlags ← byteAt (curPos + 7)
  if connFlags &&& 0x01 ≠ 0 then return (.disconnect, {})
  let will := willOfFlags connFlags
  if !will.presenceFlag && connFlags &&& 0x38 ≠ 0 then return (.disconnect, {})
  let _ ← ntohsAt (curPos + 8)
  let clientidLen ← ntohsAt (curPos + 10)
  if clientidLen < 1 ∨ clientidLen > 23 then return (.disconnect, {})
  let clientid ← rangeAt (curPos + 12) clientidLen.toNat
  setSock sock ({ · with clientid := clientid })
  readOptions (curPos + 12 + clientidLen.toNat) connFlags will

end MqttBroker.Worker
