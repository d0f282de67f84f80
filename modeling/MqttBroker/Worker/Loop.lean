import MqttBroker.Worker.Connect

/-! The worker's event loop: one definition for each branch of the
dispatcher, and `handle` for one message from `pending_socks`. -/
namespace MqttBroker.Worker

/-! ### CONNECT -/

/-- The branch for a client id that is not stored; false where an allocation
failed. -/
def newClient (sock : Fin 64) (clientid : Key) : Worker Bool := do
  if ← onHeap Heap.alloc then
    let client ← onHeap (Client.new (← get).nextAddr)
    let w ← get
    let added ← check (w.clientStore.add clientid client w.env.heap)
    set { w with
      clientStore := added.2.1
      env := { w.env with heap := added.2.2 }
      nextAddr := w.nextAddr + 1 }
    if added.1 then
      let stored ← check (added.2.1.get clientid)
      setSock sock ({ · with client := stored.map Client.addr })
      setClient (stored.map Client.addr) ({ · with sock := some sock })
      pure true
    else pure false
  else pure false

/-- The branch for a client that is stored as connected. The socket table is
reset before the client is looked at again. -/
def takeOver (sock : Fin 64) (client : Client) : Worker Unit := do
  match client.sock with
  | none => pure ()
  | some prevSock =>
    let _ ← sendtoque ⟨prevSock, .delall⟩
    log (.evicting prevSock (← sockAt prevSock) (← sockAt sock).clientid client)
    setSock prevSock ({ · with phs := .uninit, client := none, clientid := [] })
    let addr := (← sockAt sock).client
    let client ← deref addr
    log (.closed prevSock)
    if client.cleanSession then
      let cleared ← onHeap client.delSubs
      setClient addr ({ · with subscriptions := cleared.subscriptions })
    else pure ()

/-- The request that follows a CONNACK. -/
def requestAfterConnack (sock : Fin 64) (client : Option Nat) (hasQuedMsgs : Bool) :
    Worker Unit := do
  if hasQuedMsgs then
    setClient client ({ · with hasQuedMsgs := false })
    let _ ← sendtoque ⟨sock, .write⟩
  else
    let _ ← sendtoque ⟨sock, .read⟩

/-- The end of a CONNECT that is accepted. -/
def acceptConnect (sock : Fin 64) (clean : Bool) (will : Will) (prev : Option Client) :
    Worker Unit := do
  let sockst ← sockAt sock
  let client ← deref sockst.client
  let assigned ← onHeap (client.will.assign will)
  setClient sockst.client ({ · with cleanSession := clean, will := assigned })
  let connack ← connAck sock 0x00 cleanSessionFlag
  log (.acknowledged sockst.tls sockst.clientid clean will prev connack client.subscriptions)
  requestAfterConnack sock sockst.client client.hasQuedMsgs

def connectEvent (sock : Fin 64) (curPos : Nat) : Worker Unit := do
  let ret ← connectMqtt sock curPos
  if ret.1 = .disconnect then dropConn sock true
  else
    let clean := decide (ret.1 = .cleanSession)
    let clientid := (← sockAt sock).clientid
    let stored ← check ((← get).clientStore.get clientid)
    log (.connecting sock clientid clean stored)
    setSock sock ({ · with client := stored.map Client.addr })
    match stored with
    | none =>
      if ← newClient sock clientid then acceptConnect sock clean ret.2 stored
      else dropConn sock true
    | some client =>
      takeOver sock client
      acceptConnect sock clean ret.2 stored

/-! ### PUBLISH -/

/-- `packet_qos`, `none` for the reserved value. -/
def publishQos (head : UInt8) : Option UInt8 :=
  if head &&& 0x06 = 0x06 then none
  else if head &&& 0x04 ≠ 0 then some 2
  else if head &&& 0x02 ≠ 0 then some 1
  else some 0

/-- A message with the RETAIN flag is stored once for the topic. -/
def retainMessage (topic frame : List UInt8) (qos : UInt8) (packetid : UInt16) : Worker Unit := do
  log (.retain topic frame qos packetid)
  if ← storeAdd packetid frame qos 2 then
    log (.retaining packetid)
    let w ← get
    match ← check (w.retainedSubMsg.get topic) with
    | none =>
      let added ← check (w.retainedSubMsg.add topic packetid w.env.heap)
      log (.keeping w.retainedSubMsg topic added.1)
      let w ← get
      set { w with retainedSubMsg := added.2.1, env := { w.env with heap := added.2.2 } }
    | some retainedMsg =>
      countDownIf retainedMsg (← storeGet retainedMsg)
      modify fun w => { w with retainedSubMsg := w.retainedSubMsg.rewritten topic packetid }

/-- The request to send an acknowledgement, with the item that tells which. -/
def queueAck (sock : Fin 64) (state : PacketState) (packetid : UInt16) (qos : UInt8)
    (frame topic : List UInt8) : Worker Unit := do
  if ← sendtoque ⟨sock, .write⟩ then
    let sockst ← sockAt sock
    addPacketId sock ⟨packetid, state, qos, true, { conn := sockst.tls, frame, topic }⟩

/-- A packet id, in the byte order of the device. -/
def packetIdAt (pos : Nat) : Worker UInt16 := do
  let low ← byteAt pos
  let high ← byteAt (pos + 1)
  pure ((high.toUInt16 <<< 8) ||| low.toUInt16)

/-- The request that answers a PUBLISH. -/
def replyToPublisher (sock : Fin 64) (qos : UInt8) (packetid : UInt16) (frame topic : List UInt8) :
    Worker Unit := do
  if qos = 1 then queueAck sock .sendpuback packetid qos frame topic
  else if qos = 2 then queueAck sock .sendpubrec packetid qos frame topic
  else
    let _ ← sendtoque ⟨sock, .read⟩

def publishEvent (sock : Fin 64) (header : Header) : Worker Unit := do
  let head ← byteAt 0
  match publishQos head with
  | none => dropConn sock true
  | some qos =>
    let topicLen ← ntohsAt header.curPos
    let topic ← rangeAt (header.curPos + 2) topicLen.toNat
    let packetid ←
      (if qos > 0 then packetIdAt (header.curPos + 2 + topicLen.toNat) else espRandom)
    let frame ← rangeAt 0 header.packetLength.toNat
    let sockst ← sockAt sock
    log (.publishing sock sockst qos packetid topic frame)
    (if head &&& 0x01 ≠ 0 then retainMessage topic frame qos packetid else pure ())
    replyToPublisher sock qos packetid frame topic
    publishByTopic topic frame qos packetid (some ⟨sockst.tls, sockst.clientid⟩)

/-! ### Acknowledgements -/

/-- The loop over `packid_state` for the packet id of an acknowledgement. -/
def findItem (sock : Fin 64) (awaited : PacketState) :
    Worker (UInt16 × Option (PackidStateItem × Nat)) := do
  let pubidCheck ← packetIdAt 2
  let w ← get
  let found := (w.items sock).zipIdx.find? fun entry =>
    entry.1.packetId = pubidCheck ∧ entry.1.state = awaited
  match found with
  | some entry =>
    log (.acked sock (w.socks sock) pubidCheck entry.1)
    pure (pubidCheck, some entry)
  | none => pure (pubidCheck, none)

/-- An acknowledgement has no more than its packet id. -/
def wrongLength (header : Header) : Worker Bool := do
  pure (decide (header.packetLength > 4 ∨ (← byteAt 1) ≠ 2))

/-- PUBACK and PUBREC. One of the wrong length has the message sent again. -/
def settle (sock : Fin 64) (header : Header) (awaited : PacketState)
    (settled : PackidStateItem → PackidStateItem) (op : Operation) : Worker Unit := do
  let found ← findItem sock awaited
  match found.2 with
  | none => dropConn sock true
  | some (item, i) =>
    let msgInfo ← storeGet found.1
    if ← wrongLength header then
      match msgInfo with
      | none => dropConn sock true
      | some node =>
        let node := (← get).nodeAt node
        log (.resending item node)
        publish node.data node.qos node.pubpackId sock i item true
    else
      countDownIf found.1 msgInfo
      modify (·.setItem sock i settled)
      let _ ← sendtoque ⟨sock, op⟩

def pubackEvent (sock : Fin 64) (header : Header) : Worker Unit :=
  settle sock header .getpuback ({ · with packetId := 0 }) .read

def pubrecEvent (sock : Fin 64) (header : Header) : Worker Unit :=
  settle sock header .getpubrec ({ · with state := .sendpubrel }) .write

/-- PUBCOMP and PUBREL, which no stored message waits for. -/
def advance (sock : Fin 64) (header : Header) (awaited : PacketState)
    (advanced : PackidStateItem → PackidStateItem) (op : Operation) : Worker Unit := do
  if ← wrongLength header then dropConn sock true
  else
    let found ← findItem sock awaited
    match found.2 with
    | none => dropConn sock true
    | some (_, i) =>
      modify (·.setItem sock i advanced)
      let _ ← sendtoque ⟨sock, op⟩

def pubcompEvent (sock : Fin 64) (header : Header) : Worker Unit :=
  advance sock header .getpubcomp ({ · with packetId := 0 }) .read

def pubrelEvent (sock : Fin 64) (header : Header) : Worker Unit :=
  advance sock header .getpubrel ({ · with state := .sendpubcomp }) .write

/-! ### SUBSCRIBE and UNSUBSCRIBE -/

def subscribeReserved : UInt8 := 0x02

/-- The delivery of a retained message to its new subscriber. -/
def sendRetained (sock : Fin 64) (topic : Key) (reqQos : UInt8) : Worker Unit := do
  match ← check ((← get).retainedSubMsg.get topic) with
  | none => log (.sought sock topic none false)
  | some retainedMsg =>
    match ← storeGet retainedMsg with
    | none => log (.sought sock topic none false)
    | some i =>
      let node := (← get).nodeAt i
      let qos := if reqQos < node.qos then reqQos else node.qos
      if ← sendtoque ⟨sock, .write⟩ then
        let sockst ← sockAt sock
        addPacketId sock ⟨retainedMsg, .sendpublish, qos, false,
          { conn := sockst.tls, frame := node.data, topic }⟩
        countUp i
        log (.sought sock topic (some node) true)
      else log (.sought sock topic (some node) false)

/-- One topic of a SUBSCRIBE, with the answer for it added to the SUBACK. -/
def subscribeTopic (sock : Fin 64) (topic : Key) (reqQos : UInt8) (suback : Myvector UInt8) :
    Worker (Myvector UInt8) := do
  let reqQos := if reqQos > 2 then 2 else reqQos
  let sockst ← sockAt sock
  let client ← deref sockst.client
  let w ← get
  let result ← check (client.subscribe w.env.fuel topic reqQos w.env.heap)
  let _ ← onHeap fun _ => ((), result.2.2)
  setClient sockst.client ({ · with subscriptions := result.2.1.subscriptions })
  log (.resubscribed sockst.clientid result.2.1.subscriptions)
  let suback ← onHeap (suback.pushBack result.1)
  sendRetained sock topic reqQos
  pure suback

/-- The loop over the topics of a SUBSCRIBE. `cur_pos` grows in every turn, so
it leaves the buffer before the turns are used up. -/
def subscribeLoop (sock : Fin 64) : Nat → Nat → UInt16 → Myvector UInt8 → Worker (Myvector UInt8)
  | 0, _, _, _ => fault .outOfBounds
  | turns + 1, curPos, packetLength, suback => do
    if packetLength = 0 then pure suback
    else
      let topicLen ← ntohsAt curPos
      let topic ← rangeAt (curPos + 2) topicLen.toNat
      let reqQos ← byteAt (curPos + 2 + topicLen.toNat)
      let suback ← subscribeTopic sock topic reqQos suback
      subscribeLoop sock turns (curPos + 2 + topicLen.toNat + 1)
        (packetLength - (topicLen + 2) - 1) suback

/-- The loop that writes the remaining length of a SUBACK, `none` for
`len_error`. A byte inserted with a new allocation leaves `cur_pos` pointing
into the old one. -/
def subackLength : Nat → Nat → Nat → UInt16 → Myvector UInt8 → Worker (Option (Myvector UInt8))
  | 0, _, _, _, _ => fault .outOfBounds
  | turns + 1, pos, insertId, subAckLen, suback => do
    let byte := (subAckLen % 128).toUInt8
    let subAckLen := subAckLen / 128
    if subAckLen > 0 then
      let written := { suback with elems := suback.elems.set pos (byte ||| 128) }
      let inserted ← onHeap fun heap =>
        let result := written.insert insertId 0 heap
        ((result.1, result.2.1), result.2.2)
      if !inserted.1 then pure none
      else if inserted.2.capacity ≠ written.capacity then fault .nullDeref
      else subackLength turns (pos + 1) (insertId + 1) subAckLen inserted.2
    else pure (some { suback with elems := suback.elems.set pos byte })

def subscribeEvent (sock : Fin 64) (header : Header) : Worker Unit := do
  if (← byteAt 0) &&& 0x0F ≠ subscribeReserved then dropConn sock true
  else
    let suback ← onHeap fun heap =>
      let result := ({} : Myvector UInt8).reserve 5 heap
      ((result.1, result.2.1), result.2.2)
    if !suback.1 then dropConn sock true
    else
      let msb ← byteAt header.curPos
      let lsb ← byteAt (header.curPos + 1)
      let suback ← subscribeLoop sock buffSize (header.curPos + 2)
        (header.packetLength - header.additionalPacketLen.toUInt16 - 2)
        { suback.2 with elems := [0x90, 0, msb, lsb] }
      match ← subackLength 4 1 2 (suback.size - 2).toUInt16 suback with
      | none => dropConn sock true
      | some suback =>
        let _ ← connWrite sock suback.elems none
        let _ ← sendtoque ⟨sock, .read⟩

/-- One topic of an UNSUBSCRIBE. -/
def unsubscribeTopic (sock : Fin 64) (topic : Key) : Worker Unit := do
  let sockst ← sockAt sock
  let client ← deref sockst.client
  let client ← check (client.unsubscribe topic)
  setClient sockst.client ({ · with subscriptions := client.subscriptions })
  log (.resubscribed sockst.clientid client.subscriptions)

def unsubscribeLoop (sock : Fin 64) : Nat → Nat → UInt16 → Worker Unit
  | 0, _, _ => fault .outOfBounds
  | turns + 1, curPos, packetLength => do
    if packetLength = 0 then pure ()
    else
      let topicLen ← ntohsAt curPos
      let topic ← rangeAt (curPos + 2) topicLen.toNat
      unsubscribeTopic sock topic
      unsubscribeLoop sock turns (curPos + 2 + topicLen.toNat) (packetLength - (topicLen + 2))

/-- `unsuback[2]` is sent without having been written, and the packet id's
second byte is written behind the array, over nothing that is modelled. -/
def unsubscribeEvent (sock : Fin 64) (header : Header) : Worker Unit := do
  let head ← byteAt 0
  (if head &&& 0x0F ≠ subscribeReserved then dropConn sock true else pure ())
  let msb ← byteAt header.curPos
  let _ ← byteAt (header.curPos + 1)
  unsubscribeLoop sock buffSize (header.curPos + 2)
    (header.packetLength - header.additionalPacketLen.toUInt16 - 2)
  let _ ← connWrite sock [0xB0, 2, ← stackByte, msb] none
  let _ ← sendtoque ⟨sock, .read⟩

/-! ### PINGREQ and DISCONNECT -/

def pingEvent (sock : Fin 64) : Worker Unit := do
  let _ ← connWrite sock [0xD0, 0x00] none
  let _ ← sendtoque ⟨sock, .read⟩

def disconnectEvent (sock : Fin 64) : Worker Unit := do
  let sockst ← sockAt sock
  let client ← deref sockst.client
  log (.disconnecting sockst.clientid client)
  setClient sockst.client ({ · with cleanSession := true })
  dropConn sock false

/-! ### The dispatcher -/

/-- The branches of the dispatcher after a packet of a connected client. A
first byte that no branch is for ends the event. -/
def dispatch (sock : Fin 64) (header : Header) : Worker Unit := do
  let head ← byteAt 0
  if head &&& 0xF0 = 0x30 then publishEvent sock header
  else if head = 0x40 then pubackEvent sock header
  else if head = 0x50 then pubrecEvent sock header
  else if head = 0x70 then pubcompEvent sock header
  else if head = 0x62 then pubrelEvent sock header
  else if head &&& 0xF0 = 0x80 then subscribeEvent sock header
  else if head &&& 0xF0 = 0xA0 then unsubscribeEvent sock header
  else if head &&& 0xF0 = 0xC0 then pingEvent sock
  else if head &&& 0xF0 = 0xE0 then disconnectEvent sock
  else pure ()

def readEvent (sock : Fin 64) : Worker Unit := do
  match ← readPacket with
  | none => dropConn sock true
  | some header =>
    let w ← get
    log (.received sock (w.socks sock) (w.buf.take header.packetLength.toNat))
    if (w.socks sock).clientid = [] then connectEvent sock header.curPos
    else dispatch sock header

/-- An item that waits for the worker to send something. -/
def PackidStateItem.Pending (item : PackidStateItem) : Prop :=
  item.packetId ≠ 0 ∧ item.state ∈
    [.sendpuback, .sendpubcomp, .sendpubrec, .sendpubrel, .sendpublish]

instance (item : PackidStateItem) : Decidable (PackidStateItem.Pending item) :=
  inferInstanceAs (Decidable (_ ∧ _))

/-- An acknowledgement of the item's packet id. -/
def ackPacket (type : UInt8) (packetId : UInt16) : List UInt8 :=
  [type, 2, (packetId &&& 0xFF).toUInt8, ((packetId >>> 8) &&& 0xFF).toUInt8]

def sendAck (sock : Fin 64) (i : Nat) (item : PackidStateItem) (type : UInt8)
    (sent : PackidStateItem → PackidStateItem) : Worker Unit := do
  let _ ← connWrite sock (ackPacket type item.packetId) (some item)
  modify (·.setItem sock i sent)

/-- What the write branch sends for the item it found. -/
def transmit (sock : Fin 64) (i : Nat) (item : PackidStateItem) : Worker Unit := do
  match item.state with
  | .sendpuback => sendAck sock i item 0x40 ({ · with packetId := 0 })
  | .sendpubrec => sendAck sock i item 0x50 ({ · with state := .getpubrel })
  | .sendpubrel => sendAck sock i item 0x62 ({ · with state := .getpubcomp })
  | .sendpubcomp => sendAck sock i item 0x70 ({ · with packetId := 0 })
  | .sendpublish =>
    match ← storeGet item.packetId with
    | none => pure ()
    | some node =>
      let node := (← get).nodeAt node
      publish node.data item.qos node.pubpackId sock i item item.deleteRetain
  | _ => pure ()

/-- The loop over `packid_state` in the write branch, for the items from index
`i` on; whether more writes are needed. The pointer to the item to send is not
reset, so any item after that one asks for another write. -/
def writeLoop (sock : Fin 64) : Nat → List PackidStateItem → Option Nat → Bool → Worker Bool
  | _, [], _, _ => pure false
  | i, item :: rest, packetidPtr, alreadySent => do
    let packetidPtr := if PackidStateItem.Pending item then some i else packetidPtr
    if packetidPtr = none then writeLoop sock (i + 1) rest packetidPtr alreadySent
    else if alreadySent then pure true
    else
      transmit sock i item
      writeLoop sock (i + 1) rest packetidPtr true

def writeEvent (sock : Fin 64) : Worker Unit := do
  let needMoreWrites ← writeLoop sock 0 ((← get).items sock) none false
  let _ ← sendtoque ⟨sock, if needMoreWrites then .write else .read⟩

/-- The part of the loop marked as the MQTT phase. -/
def mqttPhase (msg : Message) : Worker Unit :=
  match msg.op with
  | .read => readEvent msg.socket
  | .write => writeEvent msg.socket
  | .delread | .delall => pure ()

/-- The codes of a handshake that waits, both negative. -/
def wantRead : Int := -0x6900

def wantWrite : Int := -0x6880

def awaitHandshake (sock : Fin 64) (first : Bool) (op : Operation) : Worker Unit := do
  let _ ← sendtoque ⟨sock, op⟩
  if first then setSock sock ({ · with phs := .tlsHandshake }) else pure ()

/-- A step of the TLS handshake. A waiting handshake has a negative code, which
is tested for first, and a positive code goes on to the MQTT phase. -/
def handshakeEvent (msg : Message) (first : Bool) : Worker Unit := do
  let code ← handshake
  if code < 0 then dropConn msg.socket true
  else if code = 0 then
    setSock msg.socket ({ · with phs := .mqtt })
    let _ ← sendtoque ⟨msg.socket, .read⟩
  else if code = wantWrite then awaitHandshake msg.socket first .write
  else if code = wantRead then awaitHandshake msg.socket first .read
  else mqttPhase msg

/-- `esp_tls_init` for a socket without a connection. -/
def startTls (sock : Fin 64) : Worker Unit := do
  let w ← get
  log (.started sock (w.items sock))
  setSock sock ({ · with tls := w.nextTls })
  modify fun w => { w with nextTls := w.nextTls + 1 }

/-- One message from `pending_socks`. -/
def handle (msg : Message) : Worker Unit := do
  match (← sockAt msg.socket).phs with
  | .uninit =>
    if ← onHeap Heap.alloc then
      startTls msg.socket
      handshakeEvent msg true
    else log (.closed msg.socket)
  | .tlsHandshake => handshakeEvent msg false
  | .mqtt => mqttPhase msg

end Worker

/-- What is left to chance when the worker starts: whether the reservation in
each `sock_cid` succeeds, and what is in its buffer, which nothing initialises. -/
structure Boot where
  reserved : Fin 64 → Bool
  buf : List UInt8
  sized : buf.length = buffSize

/-- Every reservation succeeds, on memory that is all zero. -/
def Boot.clean : Boot := ⟨fun _ => true, List.replicate buffSize 0, List.length_replicate⟩

namespace World

/-- The worker before its first message. -/
def initial (boot : Boot) : World where
  socks sock := { packidState := { capacity := if boot.reserved sock then 2 else 0 } }
  clientStore := (Myhashmap.ofCapacity 10 []).1
  publishMsgStore := .ofPower 5
  retainedSubMsg := (Myhashmap.ofCapacity 1 []).1
  userCred := (Myhashmap.ofCapacity 1 []).1
  buf := boot.buf

/-- One message handled, whatever the outside world answers. -/
def Turn (w w' : World) : Prop :=
  ∃ msg env, Worker.handle msg { w with env := env } = .ok ((), w')

/-- The states at the head of the event loop. -/
def Reachable (w : World) : Prop :=
  ∃ boot, Relation.ReflTransGen Turn (initial boot) w

end World
end MqttBroker
