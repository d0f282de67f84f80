import Mathlib.Logic.Function.Basic
import MqttBroker.Client
import MqttBroker.Message
import MqttBroker.PublishHashmapContents
import MqttBroker.UserCreds

/-! The state of the worker task and the calls it makes: its tables, its
buffer, the queue, the TLS connections and the allocator.

What the outside world answers is an oracle, `Env`; what the worker does is
written to `trace`, newest first. Only the origin of an item is read off it. -/
namespace MqttBroker
open Logic

/-- `BUFF_SIZE` -/
def buffSize : Nat := 1024

/-- `sock_cid::phase` -/
inductive Phase
  | uninit | tlsHandshake | mqtt
  deriving DecidableEq, Repr

/-- `sock_cid::packet_state` -/
inductive PacketState
  | getpuback | getpubrec | getpubrel | getpubcomp
  | sendpublish | sendpuback | sendpubrec | sendpubrel | sendpubcomp
  deriving DecidableEq, Repr

/-- The connection a message comes on, and the client id of its socket then. -/
structure Publisher where
  conn : Nat
  clientid : Key
  deriving DecidableEq, Repr

/-- Where a queued item comes from. The source keeps nothing of this. -/
structure Origin where
  conn : Nat
  frame : List UInt8
  topic : Key
  /-- The client `publish_by_topic` made the item for. -/
  subscriber : Option Key := none
  /-- Who sent its message, and how long the trace was then. -/
  publisher : Option Publisher := none
  stamp : Nat := 0
  deriving DecidableEq, Repr

/-- `sock_cid::packid_state_item`. An item with packet id 0 is free. -/
structure PackidStateItem where
  packetId : UInt16
  state : PacketState
  qos : UInt8
  deleteRetain : Bool
  origin : Origin
  deriving DecidableEq, Repr

/-- `sock_cid`; `clientid` is its first `clientid_len` bytes, `client` the
address the pointer holds, `tls` the number of the connection that was last set
up on the socket. -/
structure SockCid where
  client : Option Nat := none
  clientid : Key := []
  phs : Phase := .uninit
  tls : Nat := 0
  packidState : Myvector PackidStateItem := {}

inductive Event
  | queued (msg : Message) (ok : Bool)
  /-- A packet for a connection, and the item it was written for. -/
  | wrote (sock : Fin 64) (sockst : SockCid) (bytes : List UInt8) (item : Option PackidStateItem)
  | closed (sock : Fin 64)
  /-- A TLS session is set up on a socket that has these items. -/
  | started (sock : Fin 64) (items : List PackidStateItem)
  /-- The packet read on a connection, before it is looked at. -/
  | received (sock : Fin 64) (sockst : SockCid) (packet : List UInt8)
  /-- A CONNECT is accepted; `prev` is the client stored under its id. -/
  | connecting (sock : Fin 64) (clientid : Key) (clean : Bool) (prev : Option Client)
  /-- A takeover closes the socket the stored client is recorded under. -/
  | evicting (prevSock : Fin 64) (victim : SockCid) (clientid : Key) (client : Client)
  /-- The CONNACK of an accepted CONNECT with its will, and what the client
  starts with. -/
  | acknowledged (conn : Nat) (clientid : Key) (clean : Bool) (will : Will) (prev : Option Client)
      (connack : List UInt8) (subscriptions : Subscription)
  | resubscribed (clientid : Key) (subscriptions : Subscription)
  | disconnecting (clientid : Key) (client : Client)
  /-- `drop_conn` is called. -/
  | dropping (sock : Fin 64) (sockst : SockCid) (sendwill : Bool)
  /-- A will with this topic and payload is published for a connection, as this
  packet. -/
  | willed (conn : Nat) (topic payload : List UInt8) (qos : UInt8) (frame : List UInt8)
  /-- `drop_conn` reaches the end of a client's connection. -/
  | ended (sock : Fin 64) (clientid : Key) (client : Client)
  /-- A message comes to a table, with the sockets and the table as they are at
  that moment; `ok` is what `add` answers. -/
  | adding (socks : Fin 64 → SockCid) (store : PublishHashmap) (packetId : UInt16)
      (frame : List UInt8) (qos : UInt8) (ok : Bool)
  /-- A message with the RETAIN flag comes to the table. -/
  | retain (topic frame : List UInt8) (qos : UInt8) (packetId : UInt16)
  /-- A message with the RETAIN flag is in the table, counted twice. -/
  | retaining (packetId : UInt16)
  /-- A topic without a retained message comes to the table of these, as it is
  at that moment. -/
  | keeping (retained : Myhashmap UInt16) (topic : Key) (ok : Bool)
  /-- A subscriber has asked for what is retained on a topic, and whether its
  delivery was requested. -/
  | sought (sock : Fin 64) (topic : Key) (found : Option NodePubmap) (requested : Bool)
  /-- The count of a message goes up, or down, from that of this node. -/
  | counting (node : NodePubmap)
  | uncounting (node : NodePubmap)
  /-- A PUBLISH is accepted. -/
  | publishing (sock : Fin 64) (sockst : SockCid) (qos : UInt8) (packetId : UInt16)
      (topic frame : List UInt8)
  /-- `publish_by_topic` is called, for a PUBLISH or for a will. -/
  | distributing (publisher : Option Publisher) (topic frame : List UInt8) (qos : UInt8)
      (packetId : UInt16)
  /-- The loop over these clients begins for a message. -/
  | offering (packetId : UInt16) (topic : Key) (clients : List (Node Client))
  /-- An item comes to index `i` of a socket, with the sockets as they are at
  that moment. -/
  | enqueued (socks : Fin 64 → SockCid) (sock : Fin 64) (i : Nat) (item : PackidStateItem)
  | lost (item : PackidStateItem)
  /-- A message is sent again for an item that waits. -/
  | resending (item : PackidStateItem) (node : NodePubmap)
  /-- The write of a message for an item has failed. -/
  | unsent (item : PackidStateItem)
  /-- An acknowledgement is matched with an item. -/
  | acked (sock : Fin 64) (sockst : SockCid) (packetId : UInt16) (item : PackidStateItem)

/-- The answers of the outside world, each list in the order they are asked
for. A list that has run out answers with success, an empty read or 0. -/
structure Env where
  heap : Heap := []
  sends : List Bool := []
  writes : List Bool := []
  inbound : List (List UInt8) := []
  randoms : List UInt16 := []
  handshakes : List Int := []
  /-- Bytes of the stack that are read before they are written. -/
  stack : List UInt8 := []
  digest : List UInt8 → Option (List UInt8) := fun _ => none
  /-- Bound on the iterations of a walk through the subscriptions. -/
  fuel : Nat := 0

structure World where
  socks : Fin 64 → SockCid
  clientStore : Myhashmap Client
  publishMsgStore : PublishHashmap
  retainedSubMsg : Myhashmap UInt16
  userCred : Myhashmap Password
  buf : List UInt8
  /-- The address of the next `Client`, the number of the next connection. -/
  nextAddr : Nat := 0
  nextTls : Nat := 1
  env : Env := {}
  trace : List Event := []

abbrev Worker := Program Fault World

namespace World

def log (w : World) (e : Event) : World := { w with trace := e :: w.trace }

def setSock (w : World) (sock : Fin 64) (f : SockCid → SockCid) : World :=
  { w with socks := Function.update w.socks sock (f (w.socks sock)) }

def items (w : World) (sock : Fin 64) : List PackidStateItem := (w.socks sock).packidState.elems

def setItem (w : World) (sock : Fin 64) (i : Nat) (f : PackidStateItem → PackidStateItem) : World :=
  w.setSock sock fun sockst => { sockst with
    packidState := { sockst.packidState with elems := sockst.packidState.elems.modify i f } }

/-- The clients in the order in which an iterator visits them. -/
def clients (w : World) : List Client := w.clientStore.nodes.map Node.data

/-- The object a pointer points to. -/
def clientAt (w : World) (addr : Nat) : Option Client := w.clients.find? (·.addr = addr)

def setClient (w : World) (addr : Nat) (f : Client → Client) : World :=
  { w with clientStore := { w.clientStore with
      buckets := w.clientStore.buckets.map (List.map fun node =>
        if node.data.addr = addr then { node with data := f node.data } else node) } }

def nodeAt (w : World) (i : Nat) : NodePubmap := PublishHashmap.slotAt w.publishMsgStore.slots i

section Frames
variable (w : World) (sock : Fin 64) (f : SockCid → SockCid) (addr : Nat) (g : Client → Client)

@[simp] theorem setSock_socks : (w.setSock sock f).socks sock = f (w.socks sock) :=
  Function.update_self ..

@[simp] theorem setSock_clientStore : (w.setSock sock f).clientStore = w.clientStore := rfl

@[simp] theorem setSock_trace : (w.setSock sock f).trace = w.trace := rfl

@[simp] theorem setClient_socks : (w.setClient addr g).socks = w.socks := rfl

@[simp] theorem setClient_trace : (w.setClient addr g).trace = w.trace := rfl

variable {sock f} in
theorem setSock_setSock {h : SockCid → SockCid} :
    (w.setSock sock f).setSock sock h = w.setSock sock fun sockst => h (f sockst) := by
  simp only [setSock, Function.update_self, Function.update_idem]

variable {sock} in
theorem setSock_other {other : Fin 64} (different : other ≠ sock) :
    (w.setSock sock f).socks other = w.socks other :=
  Function.update_of_ne different ..

end Frames

end World

namespace Worker

def fault (fault : Fault) : Worker α := throw fault

def log (e : Event) : Worker Unit := modify (·.log e)

/-- A call of the code of another module that may fault. -/
def check (outcome : Outcome α) : Worker α :=
  match outcome with
  | .ok answer => pure answer
  | .error fault => throw fault

/-- A call that allocates. -/
def onHeap (call : Heap → α × Heap) : Worker α := do
  let w ← get
  let result := call w.env.heap
  set { w with env := { w.env with heap := result.2 } }
  pure result.1

def espRandom : Worker UInt16 := do
  let w ← get
  set { w with env := { w.env with randoms := w.env.randoms.tail } }
  pure (w.env.randoms.headD 0)

def handshake : Worker Int := do
  let w ← get
  set { w with env := { w.env with handshakes := w.env.handshakes.tail } }
  pure (w.env.handshakes.headD 0)

def stackByte : Worker UInt8 := do
  let w ← get
  set { w with env := { w.env with stack := w.env.stack.tail } }
  pure (w.env.stack.headD 0)

/-- `xQueueSendToBack` to `socks_for_fds`, as `sendtoque` does it. -/
def sendtoque (msg : Message) : Worker Bool := do
  let w ← get
  let ok := w.env.sends.headD true
  set { w with env := { w.env with sends := w.env.sends.tail } }
  log (.queued msg ok)
  pure ok

/-- `esp_tls_conn_write` on the connection of a socket; whether it returns no
error. -/
def connWrite (sock : Fin 64) (bytes : List UInt8) (item : Option PackidStateItem) : Worker Bool := do
  let w ← get
  let ok := w.env.writes.headD true
  set { w with env := { w.env with writes := w.env.writes.tail } }
  log (.wrote sock (w.socks sock) bytes item)
  pure ok

/-- `esp_tls_conn_read` of at most `len` bytes to the position `pos` of the
buffer; 0 stands for an error and for the end of the connection. -/
def connRead (pos len : Nat) : Worker Nat := do
  let w ← get
  match w.env.inbound with
  | [] => pure 0
  | chunk :: rest =>
    let bytes := chunk.take len
    if pos + bytes.length > buffSize then fault .outOfBounds
    else
      set { w with
        env := { w.env with
          inbound := if len < chunk.length then chunk.drop len :: rest else rest }
        buf := w.buf.take pos ++ bytes ++ w.buf.drop (pos + bytes.length) }
      pure bytes.length

/-- `*cur_pos` -/
def byteAt (pos : Nat) : Worker UInt8 := do
  let w ← get
  if pos < w.buf.length then pure (w.buf.getD pos 0) else fault .outOfBounds

/-- `ntohs(*reinterpret_cast<uint16_t *>(cur_pos))` -/
def ntohsAt (pos : Nat) : Worker UInt16 := do
  let high ← byteAt pos
  let low ← byteAt (pos + 1)
  pure ((high.toUInt16 <<< 8) ||| low.toUInt16)

/-- The bytes from `cur_pos` on, for a pointer and a length. -/
def rangeAt (pos len : Nat) : Worker (List UInt8) := do
  let w ← get
  if pos + len ≤ w.buf.length then pure ((w.buf.drop pos).take len) else fault .outOfBounds

def sockAt (sock : Fin 64) : Worker SockCid := do pure ((← get).socks sock)

def setSock (sock : Fin 64) (f : SockCid → SockCid) : Worker Unit := modify (·.setSock sock f)

/-- A pointer to a `Client` that is followed. -/
def deref (client : Option Nat) : Worker Client := do
  match client with
  | none => fault .nullDeref
  | some addr =>
    match (← get).clientAt addr with
    | none => fault .nullDeref
    | some client => pure client

def setClient (client : Option Nat) (f : Client → Client) : Worker Unit :=
  match client with
  | none => fault .nullDeref
  | some addr => modify (·.setClient addr f)

/-- `publish_msg_store.add` -/
def storeAdd (packetId : UInt16) (frame : List UInt8) (qos count : UInt8) : Worker Bool := do
  let w ← get
  let result := w.publishMsgStore.add packetId frame qos count w.env.heap
  log (.adding w.socks w.publishMsgStore packetId frame qos result.1)
  modify fun w => { w with
    publishMsgStore := result.2.1
    env := { w.env with heap := result.2.2 } }
  pure result.1

/-- `publish_msg_store.get` -/
def storeGet (packetId : UInt16) : Worker (Option Nat) := do
  pure ((← get).publishMsgStore.get packetId)

/-- `++node->count` -/
def countUp (i : Nat) : Worker Unit := do
  let node := (← get).nodeAt i
  log (.counting node)
  modify fun w => { w with publishMsgStore := { w.publishMsgStore with
    slots := w.publishMsgStore.slots.set i { node with count := node.count + 1 } } }

/-- `if (--node->count == 0) publish_msg_store.erase(packet_id)` -/
def countDown (i : Nat) (packetId : UInt16) : Worker Unit := do
  let node := (← get).nodeAt i
  log (.uncounting node)
  modify fun w => { w with publishMsgStore := { w.publishMsgStore with
    slots := w.publishMsgStore.slots.set i { node with count := node.count - 1 } } }
  if node.count - 1 = 0 then
    modify fun w => { w with publishMsgStore := w.publishMsgStore.erase packetId }

/-- `if (node && --node->count == 0) publish_msg_store.erase(packet_id)` -/
def countDownIf (packetId : UInt16) : Option Nat → Worker Unit
  | some node => countDown node packetId
  | none => pure ()

/-- `add_packet_id` -/
def addPacketId (sock : Fin 64) (item : PackidStateItem) : Worker Unit := do
  let w ← get
  match (w.items sock).findIdx? (·.packetId = 0) with
  | some i =>
    log (.enqueued w.socks sock i item)
    modify (·.setItem sock i fun _ => item)
  | none =>
    let grown ← onHeap ((w.socks sock).packidState.pushBack item)
    log (if grown.size = (w.items sock).length then .lost item
      else .enqueued w.socks sock (w.items sock).length item)
    setSock sock fun sockst => { sockst with packidState := grown }

end Worker
end MqttBroker
