import MqttBroker.Logic.Bytes
import MqttBroker.Worker.State

/-! Sending a stored message, queueing a message for its subscribers, and
dropping a connection. -/
namespace MqttBroker.Worker
open Logic

/-- `DUPLICATION_FLAG` -/
def duplicationFlag : UInt8 := 0x08

/-- The first byte of a message as it is sent. -/
def publishHeader (head qos : UInt8) (deleteRetain : Bool) : UInt8 :=
  let kept := if deleteRetain then head &&& ~~~(0b1 : UInt8) else head
  (kept &&& ~~~((0b11 : UInt8) <<< 1)) ||| ((qos &&& 0b11) <<< 1)

/-- The QoS bits of the header are those of the QoS it is made for. -/
theorem publishHeader_qos (head qos : UInt8) (deleteRetain : Bool) :
    (publishHeader head qos deleteRetain >>> 1) &&& 3 = qos &&& 3 := by
  have cleared : ∀ kept : UInt8, (kept &&& ~~~((0b11 : UInt8) <<< 1)) >>> 1 &&& 3 = 0 :=
    forall_byte (by decide +kernel)
  have placed : ∀ qos : UInt8, ((qos &&& 0b11) <<< 1) >>> 1 &&& 3 = qos &&& 3 :=
    forall_byte (by decide +kernel)
  rw [publishHeader, UInt8.shiftRight_or, byte_or_and, cleared, placed, UInt8.zero_or]

/-- The packet type is kept. -/
theorem publishHeader_type (head qos : UInt8) (deleteRetain : Bool) :
    publishHeader head qos deleteRetain &&& 0xF0 = head &&& 0xF0 := by
  have kept : ∀ head : UInt8, head &&& ~~~(0b1 : UInt8) &&& 0xF0 = head &&& 0xF0 := forall_byte (by decide +kernel)
  have cleared : ∀ head : UInt8, head &&& ~~~((0b11 : UInt8) <<< 1) &&& 0xF0 = head &&& 0xF0 :=
    forall_byte (by decide +kernel)
  have below : ∀ qos : UInt8, ((qos &&& 0b11) <<< 1) &&& 0xF0 = 0 := forall_byte (by decide +kernel)
  unfold publishHeader
  rw [byte_or_and, below, UInt8.or_zero]
  cases deleteRetain with
  | false => exact cleared head
  | true => exact (cleared _).trans (kept head)

/-- The lesser of two QoS, as the loop over the clients takes it. -/
theorem lesser (granted qos : UInt8) : (if granted > qos then qos else granted) = min granted qos := by
  change _ = if granted ≤ qos then granted else qos
  by_cases above : granted > qos
  · rw [if_pos above, if_neg (UInt8.not_le.mpr above)]
  · rw [if_neg above, if_pos (UInt8.not_lt.mp above)]

/-- The log line about a failed write names the client's socket. -/
def logFailure (sock : Fin 64) (item : PackidStateItem) (written : Bool) : Worker Unit := do
  if written then pure ()
  else
    let _ ← deref (← sockAt sock).client
    log (.unsent item)

/-- `publish`, for the item at index `i` of the socket. The first byte is put
back after the write, except in front of a message that has left the table. -/
def publish (frame : List UInt8) (qos : UInt8) (packetId : UInt16) (sock : Fin 64) (i : Nat)
    (item : PackidStateItem) (deleteRetain : Bool) : Worker Unit := do
  match frame with
  | [] => fault .nullDeref
  | head :: rest =>
    let written ← connWrite sock (publishHeader head qos deleteRetain :: rest) (some item)
    let node ← storeGet packetId
    logFailure sock item written
    if qos = 0 || !written then
      modify (·.setItem sock i fun item => { item with packetId := 0 })
      countDownIf packetId node
    else
      modify (·.setItem sock i fun item => { item with
        state := if qos = 1 then .getpuback else .getpubrec })
      if node = none then
        let _ ← storeAdd packetId ((head ||| duplicationFlag) :: rest) qos 1
      else pure ()

/-- The loop over `client_store`. For a subscriber without a socket the source
indexes `sock_to_clientid` with -1. -/
def fanOut (topic frame : List UInt8) (qos : UInt8) (packetId : UInt16) (publisher : Option Publisher)
    (stamp node : Nat) : List (Node Client) → Worker Unit
  | [] => pure ()
  | ⟨clientid, client⟩ :: rest => do
    if client.sock ≠ none ∨ ¬ client.cleanSession then
      let clientQos ← check (client.isSubscribed topic)
      if clientQos = emptyQos then fanOut topic frame qos packetId publisher stamp node rest
      else
        let clientQos := if clientQos > qos then qos else clientQos
        match client.sock with
        | none => fault .outOfBounds
        | some target =>
          let _ ← sendtoque ⟨target, .delread⟩
          if ← sendtoque ⟨target, .write⟩ then
            let sockst ← sockAt target
            addPacketId target ⟨packetId, .sendpublish, clientQos, true,
              ⟨sockst.tls, frame, topic, some clientid, publisher, stamp⟩⟩
            countUp node
          else
            let _ ← sendtoque ⟨target, .read⟩
          fanOut topic frame qos packetId publisher stamp node rest
    else fanOut topic frame qos packetId publisher stamp node rest

/-- `publish_by_topic`. A client that is added to or changed in the loop is
none of those it still comes to, so it runs over the clients as they are. -/
def publishByTopic (topic frame : List UInt8) (qos : UInt8) (packetId : UInt16)
    (publisher : Option Publisher) : Worker Unit := do
  log (.distributing publisher topic frame qos packetId)
  let stamp := (← get).trace.length
  let _ ← storeAdd packetId frame qos 1
  match ← storeGet packetId with
  | none => pure ()
  | some node =>
    let clients := (← get).clientStore.nodes
    log (.offering packetId topic clients)
    fanOut topic frame qos packetId publisher stamp node clients
    countDown node packetId

/-- The part of `drop_conn` that publishes the will; `sock` is -1 meanwhile. -/
def publishWill (sockst : SockCid) (sendwill : Bool) : Worker Unit := do
  match sockst.client with
  | none => pure ()
  | some addr =>
    let client ← deref addr
    if client.will.presenceFlag && sendwill then
      setClient addr ({ · with sock := none })
      let packetId ← espRandom
      log (.willed sockst.tls client.will.topic.elems client.will.msg.elems client.will.qos
        client.will.msg.elems)
      publishByTopic client.will.topic.elems client.will.msg.elems client.will.qos packetId none
      setClient addr ({ · with sock := client.sock })
    else pure ()

/-- The client of a connection that ends is erased or detached. -/
def releaseClient (sock : Fin 64) (sockst : SockCid) : Worker Unit := do
  match sockst.client with
  | none => pure ()
  | some addr =>
    let client ← deref addr
    log (.ended sock sockst.clientid client)
    if client.cleanSession then
      let w ← get
      let erased ← check (w.clientStore.erase sockst.clientid)
      set { w with clientStore := erased }
    else setClient addr ({ · with sock := none })

/-- The part of `drop_conn` after the will. -/
def endSession (sock : Fin 64) : Worker Unit := do
  releaseClient sock (← sockAt sock)
  setSock sock ({ · with phs := .uninit, client := none, clientid := [] })

def dropConn (sock : Fin 64) (sendwill : Bool) : Worker Unit := do
  log (.dropping sock (← sockAt sock) sendwill)
  let _ ← sendtoque ⟨sock, .delall⟩
  log (.closed sock)
  publishWill (← sockAt sock) sendwill
  endSession sock

end MqttBroker.Worker
