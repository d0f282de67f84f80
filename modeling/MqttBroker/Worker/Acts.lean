import MqttBroker.Protocol.Acknowledgements
import MqttBroker.Worker.Calls

/-! The worker as a machine of coarse steps. An event of the worker is a
sequence of these (`Handled.lean`), so what each of them preserves holds at
every head of the event loop. -/
namespace MqttBroker
open Worker

namespace World

/-- The world after `++node->count`. -/
def countUp (w : World) (i : Nat) : World :=
  { w.log (.counting (w.nodeAt i)) with
    publishMsgStore := { w.publishMsgStore with
      slots := w.publishMsgStore.slots.set i
        { w.nodeAt i with count := (w.nodeAt i).count + 1 } } }

/-- The table with one count less for the node at an index. -/
def lowered (w : World) (i : Nat) : PublishHashmap :=
  { w.publishMsgStore with
    slots := w.publishMsgStore.slots.set i { w.nodeAt i with count := (w.nodeAt i).count - 1 } }

/-- The world after `--node->count` and the erase at 0. -/
def countDown (w : World) (i : Nat) (packetId : UInt16) : World :=
  { w.log (.uncounting (w.nodeAt i)) with publishMsgStore :=
      if (w.nodeAt i).count - 1 = 0 then (w.lowered i).erase packetId else w.lowered i }

/-- The world in which the count of a message that is in the table has gone
down. -/
def forget (w : World) (packetId : UInt16) : World :=
  match w.publishMsgStore.get packetId with
  | some i => w.countDown i packetId
  | none => w

/-- The world after `publish_msg_store.add`, for one outcome of its
allocations. -/
def stored (w : World) (packetId : UInt16) (frame : List UInt8) (qos count : UInt8)
    (heap : Heap) : World :=
  { w.log (.adding w.socks w.publishMsgStore packetId frame qos
      (w.publishMsgStore.add packetId frame qos count heap).1) with
    publishMsgStore := (w.publishMsgStore.add packetId frame qos count heap).2.1 }

def reset (w : World) (sock : Fin 64) : World :=
  w.setSock sock ({ · with phs := .uninit, client := none, clientid := [] })

theorem reset_other {w : World} {sock other : Fin 64} (different : other ≠ sock) :
    (w.reset sock).socks other = w.socks other :=
  Function.update_of_ne different ..

end World

section Clients
variable {w : World} {addr : Nat} {f g : Client → Client}

theorem World.clients_setClient :
    (w.setClient addr f).clients = w.clients.map fun client =>
      if client.addr = addr then f client else client := by
  simp only [World.clients, World.setClient, Myhashmap.nodes, List.map_flatten, List.map_map]
  congr 1
  refine List.map_congr_left fun chain _ => ?_
  simp only [Function.comp, List.map_map]
  refine List.map_congr_left fun node _ => ?_
  simp only [Function.comp]
  split <;> rfl

/-- A client that is written keeps its address, so it is found again. -/
theorem World.clientAt_setClient (keeps : ∀ client, (f client).addr = client.addr) :
    (w.setClient addr f).clientAt addr = (w.clientAt addr).map f := by
  have still : ∀ client : Client,
      decide ((if client.addr = addr then f client else client).addr = addr) =
        decide (client.addr = addr) := by
    intro client
    split
    · rw [keeps]
    · rfl
  rw [World.clientAt, World.clients_setClient, List.find?_map, World.clientAt]
  simp only [Function.comp_def, still]
  cases found : w.clients.find? (·.addr = addr) with
  | none => rfl
  | some client =>
    have same : client.addr = addr := by simpa using List.find?_some found
    simp only [Option.map_some, if_pos same]

theorem World.setClient_setClient (keeps : ∀ client, (f client).addr = client.addr) :
    (w.setClient addr f).setClient addr g = w.setClient addr fun client => g (f client) := by
  simp only [World.setClient, List.map_map]
  congr 2
  refine List.map_congr_left fun chain _ => ?_
  simp only [Function.comp, List.map_map]
  refine List.map_congr_left fun node _ => ?_
  simp only [Function.comp]
  by_cases same : node.data.addr = addr
  · simp only [same, if_true, keeps]
  · simp only [same, if_false]

end Clients

/-- What `add_packet_id` can do with an item. -/
inductive ItemAdded (w : World) (sock : Fin 64) (item : PackidStateItem) : World → Prop
  | reused {i : Nat} {old : PackidStateItem} : (w.items sock)[i]? = some old → old.packetId = 0 →
      (∀ j < i, ∀ other, (w.items sock)[j]? = some other → other.packetId ≠ 0) →
      ItemAdded w sock item
        ((w.log (.enqueued w.socks sock i item)).setItem sock i fun _ => item)
  | pushed (env : Env) (capacity : Nat) :
      (∀ other ∈ w.items sock, other.packetId ≠ 0) →
      ItemAdded w sock item
        (({ w with env := env }.log (.enqueued w.socks sock (w.items sock).length item)).setSock sock
          ({ · with packidState := ⟨w.items sock ++ [item], capacity⟩ }))
  | lost (env : Env) : ItemAdded w sock item ({ w with env := env }.log (.lost item))

/-- The states of an item that holds a count of its message. -/
def PacketState.Counted (state : PacketState) : Prop :=
  state = .sendpublish ∨ state = .getpuback ∨ state = .getpubrec

instance (state : PacketState) : Decidable state.Counted :=
  inferInstanceAs (Decidable (_ ∨ _ ∨ _))

/-- The item is live, or an acknowledgement has found it. -/
def Live (w : World) (sock : Fin 64) (item : PackidStateItem) : Prop :=
  item.packetId ≠ 0 ∨ ∃ sockst, .acked sock sockst item.packetId item ∈ w.trace

/-- The answer that is to be written in a state. -/
def answerIn : PacketState → Option Protocol.Ack
  | .sendpuback => some .puback
  | .sendpubrec => some .pubrec
  | .sendpubrel => some .pubrel
  | .sendpubcomp => some .pubcomp
  | _ => none

/-- How an item without a message moves on. -/
inductive Advances (item : PackidStateItem) : PackidStateItem → Prop
  | done : item.state ∈ [.sendpuback, .sendpubcomp, .getpubcomp] →
      Advances item { item with packetId := 0 }
  | next {state : PacketState} : (item.state, state) ∈
        [(.sendpubrec, .getpubrel), (.getpubrel, .sendpubcomp), (.sendpubrel, .getpubcomp)] →
      Advances item { item with state := state }

/-- The QoS a message is sent with for an item: that of the item the first
time, that of the stored message later. -/
def SentAs (w : World) (item : PackidStateItem) (qos : UInt8) : Prop :=
  item.state = .sendpublish ∧ qos = item.qos ∨
    ∃ node, .resending item node ∈ w.trace ∧ qos = node.qos

/-- A packet was written on a socket for an item as it is. -/
def Written (trace : List Event) (sock : Fin 64) (item : PackidStateItem) : Prop :=
  ∃ sockst bytes, .wrote sock sockst bytes (some item) ∈ trace

/-- How an item gives its message back. -/
inductive Releases (w : World) (sock : Fin 64) (item : PackidStateItem) : PackidStateItem → Prop
  | sent : Written w.trace sock item → SentAs w item 0 →
      Releases w sock item { item with packetId := 0 }
  | acked : item.state = .getpuback → Releases w sock item { item with packetId := 0 }
  | received : item.state = .getpubrec → Releases w sock item { item with state := .sendpubrel }

/-- A message of the topic was offered to a client with a subscription to it. -/
def Heard (trace : List Event) (topic clientid : Key) : Prop :=
  ∃ packetId clients node granted, .offering packetId topic clients ∈ trace ∧ node ∈ clients ∧
    node.key = clientid ∧ node.data.isSubscribed topic = .ok granted ∧ granted ≠ emptyQos

section Growth
variable {w w' : World} {sock : Fin 64} {item : PackidStateItem} {qos : UInt8}
  (longer : ∃ events, w'.trace = events ++ w.trace)
include longer

theorem logged_grown {e : Event} (logged : e ∈ w.trace) : e ∈ w'.trace := by
  obtain ⟨events, longer⟩ := longer
  rw [longer]
  exact List.mem_append_right _ logged

theorem Live.grown (live : Live w sock item) : Live w' sock item :=
  live.imp_right fun ⟨sockst, acked⟩ => ⟨sockst, logged_grown longer acked⟩

theorem Heard.grown {topic clientid : Key} (heard : Heard w.trace topic clientid) :
    Heard w'.trace topic clientid := by
  obtain ⟨packetId, clients, node, granted, offered, subscribed⟩ := heard
  exact ⟨packetId, clients, node, granted, logged_grown longer offered, subscribed⟩

theorem SentAs.grown (sent : SentAs w item qos) : SentAs w' item qos :=
  sent.imp_right fun ⟨node, resent, same⟩ => ⟨node, logged_grown longer resent, same⟩

end Growth

theorem Advances.kept {item item' : PackidStateItem} (advances : Advances item item') :
    ¬ item.state.Counted ∧ ¬ item'.state.Counted ∧
      (item'.packetId = item.packetId ∨ item'.packetId = 0) ∧ item'.origin = item.origin := by
  cases advances with
  | done state =>
    have uncounted : ¬ item.state.Counted := by
      simp only [List.mem_cons, List.not_mem_nil, or_false] at state
      rcases state with state | state | state <;> simp [state, PacketState.Counted]
    exact ⟨uncounted, uncounted, .inr rfl, rfl⟩
  | next states =>
    simp only [List.mem_cons, List.not_mem_nil, or_false, Prod.mk.injEq] at states
    rcases states with ⟨state, rfl⟩ | ⟨state, rfl⟩ | ⟨state, rfl⟩ <;>
      simp [state, PacketState.Counted]

theorem Releases.kept {w : World} {sock : Fin 64} {item item' : PackidStateItem}
    (releases : Releases w sock item item') :
    (item'.packetId = 0 ∨ (item'.packetId = item.packetId ∧ ¬ item'.state.Counted)) ∧
      item'.origin = item.origin := by
  cases releases with
  | sent | acked => exact ⟨.inl rfl, rfl⟩
  | received => exact ⟨.inr ⟨rfl, by simp [PacketState.Counted]⟩, rfl⟩

def connackSent : List UInt8 := [0x20, 0x02, 0, 0]

/-- The client whose `sock` is -1 while its will is published, with its
socket. -/
abbrev Masked := Option (Nat × Option (Fin 64))

/-- A step with the sessions: the clients and what a socket has of them. -/
inductive SessionAct : World → Masked → World → Masked → Prop
  | phase (sock : Fin 64) (phs : Phase) :
      SessionAct w none (w.setSock sock ({ · with phs := phs })) none
  | name (sock : Fin 64) (clientid : Key) : (w.socks sock).clientid = [] →
      SessionAct w none (w.setSock sock ({ · with clientid := clientid })) none
  | connecting (sock : Fin 64) (clientid : Key) (clean : Bool) {prev : Option Client} :
      (w.socks sock).clientid = [] → clientid ≠ [] → w.clientStore.get clientid = .ok prev →
      SessionAct w none
        ((w.log (.connecting sock clientid clean prev)).setSock sock
          ({ · with client := prev.map Client.addr, clientid := clientid })) none
  | burn : SessionAct w none { w with nextAddr := w.nextAddr + 1 } none
  | acceptNew (sock : Fin 64) (clean : Bool) (carried will : Will) {heap before after : Heap}
      {store : Myhashmap Client} {client found : Client} :
      (w.socks sock).clientid ≠ [] → w.clientStore.get (w.socks sock).clientid = .ok none →
      w.clientStore.add (w.socks sock).clientid (Client.new w.nextAddr heap).1 before =
        .ok (true, store, after) →
      store.get (w.socks sock).clientid = .ok (some client) →
      { w with clientStore := store }.clientAt client.addr = some found →
      SessionAct w none
        (((({ w with clientStore := store, nextAddr := w.nextAddr + 1 }.setSock sock
            ({ · with client := some client.addr })).setClient client.addr
            ({ · with sock := some sock })).setClient client.addr
            ({ · with cleanSession := clean, will := will })).log
          (.acknowledged (w.socks sock).tls (w.socks sock).clientid clean carried none connackSent
            found.subscriptions)) none
  | evict (sock prevSock : Fin 64) {clientid : Key} {clean : Bool} {client : Client} :
      .connecting sock clientid clean (some client) ∈ w.trace →
      w.clientStore.get clientid = .ok (some client) → client.sock = some prevSock →
      SessionAct w none
        ((w.log (.evicting prevSock (w.socks prevSock) clientid client)).reset prevSock) none
  | acceptStored (sock : Fin 64) (clean : Bool) (carried will : Will) {prev client : Client}
      {cleared : Option Subscription} :
      .connecting sock (w.socks sock).clientid clean (some prev) ∈ w.trace →
      w.clientStore.get (w.socks sock).clientid = .ok (some prev) →
      (w.socks sock).client = some prev.addr → w.clientAt prev.addr = some client →
      (if prev.sock.isSome ∧ client.cleanSession then
        ∃ heap, cleared = some (Subscription.new heap).1 else cleared = none) →
      SessionAct w none
        ((w.setClient prev.addr fun client => { client with
            subscriptions := cleared.getD client.subscriptions
            cleanSession := clean
            will := will }).log
          (.acknowledged (w.socks sock).tls (w.socks sock).clientid clean carried (some prev)
            connackSent (cleared.getD client.subscriptions))) none
  | touch (addr : Nat) :
      SessionAct w none (w.setClient addr ({ · with hasQuedMsgs := false })) none
  | resubscribe (sock : Fin 64) (subscriptions : Subscription) {addr : Nat} {client : Client} :
      (w.socks sock).client = some addr → w.clientAt addr = some client →
      SessionAct w none
        ((w.setClient addr ({ · with subscriptions := subscriptions })).log
          (.resubscribed (w.socks sock).clientid subscriptions)) none
  | disconnect (sock : Fin 64) {addr : Nat} {client : Client} :
      (w.socks sock).client = some addr → w.clientAt addr = some client →
      SessionAct w none
        ((w.log (.disconnecting (w.socks sock).clientid client)).setClient addr
          ({ · with cleanSession := true })) none
  | hide (sock : Fin 64) {addr : Nat} {client : Client} :
      (w.socks sock).client = some addr → w.clientAt addr = some client →
      SessionAct w none (w.setClient addr ({ · with sock := none })) (some (addr, client.sock))
  | unhide (addr : Nat) (sock : Option (Fin 64)) :
      SessionAct w (some (addr, sock)) (w.setClient addr ({ · with sock := sock })) none
  | vanish (sock : Fin 64) : (w.socks sock).client = none → SessionAct w none (w.reset sock) none
  | erase (sock : Fin 64) {addr : Nat} {client : Client} {store : Myhashmap Client} :
      (w.socks sock).client = some addr → w.clientAt addr = some client → client.cleanSession →
      w.clientStore.erase (w.socks sock).clientid = .ok store →
      SessionAct w none
        ({ w.log (.ended sock (w.socks sock).clientid client) with clientStore := store }.reset sock)
        none
  | detach (sock : Fin 64) {addr : Nat} {client : Client} :
      (w.socks sock).client = some addr → w.clientAt addr = some client → ¬ client.cleanSession →
      SessionAct w none
        (((w.log (.ended sock (w.socks sock).clientid client)).setClient addr
          ({ · with sock := none })).reset sock) none

/-- A message that is accepted; in the hands of `publish_by_topic` it has the
stamp of its items. -/
structure Admitted where
  packetId : UInt16
  frame : List UInt8
  topic : Key
  publisher : Option Publisher
  stamp : Option Nat

/-- What `publish_by_topic` is called for: an accepted PUBLISH, or a will. -/
def awaiting (publisher : Option Publisher) (packetId : UInt16) (topic frame : List UInt8) :
    List Admitted :=
  match publisher with
  | some sender => [⟨packetId, frame, topic, some sender, none⟩]
  | none => []

/-- A PUBLISH is accepted when it has just been received, as the packet that it
is, which is of its type. A well-formed one has its own topic, QoS and
identifier. -/
def AsReceived (trace : List Event) (sock : Fin 64) (sockst : SockCid) (qos : UInt8) (packetId : UInt16)
    (topic frame : List UInt8) : Prop :=
  (∃ earlier, trace = .received sock sockst frame :: earlier) ∧ (∀ head ∈ frame.head?, head &&& 0xF0 = 0x30) ∧
    ∀ m, Protocol.decode frame = some m →
      topic = m.topic ∧ qos = m.qos ∧
        (qos ≠ 0 → Protocol.publishId frame = some (Protocol.idBytes packetId))

/-- A packet that is stored is a PUBLISH that was accepted, or the payload of a
will. -/
def Source (trace : List Event) (packetId : UInt16) (frame : List UInt8) (qos : UInt8) : Prop :=
  (∃ sock sockst topic, .publishing sock sockst qos packetId topic frame ∈ trace) ∨
    ∃ conn topic payload, .willed conn topic payload qos frame ∈ trace

theorem Source.grown {w w' : World} {packetId : UInt16} {frame : List UInt8} {qos : UInt8}
    (source : Source w.trace packetId frame qos) (longer : ∃ events, w'.trace = events ++ w.trace) :
    Source w'.trace packetId frame qos := by
  rcases source with ⟨sock, sockst, topic, accepted⟩ | ⟨conn, topic, payload, willed⟩
  · exact .inl ⟨sock, sockst, topic, logged_grown longer accepted⟩
  · exact .inr ⟨conn, topic, payload, logged_grown longer willed⟩

/-- The events of a PUBLISH before its acknowledgement is queued. -/
def Event.OfRetained : Event → Prop
  | .queued .. | .retain .. | .adding .. | .retaining _ | .uncounting _ | .keeping .. => True
  | _ => False

/-- The events of a PUBLISH before it is distributed. -/
def Event.OfReply : Event → Prop
  | .queued .. | .retain .. | .adding .. | .retaining _ | .uncounting _ | .keeping .. | .enqueued ..
  | .lost _ => True
  | _ => False

/-- A PUBLISH was accepted and only events of one kind have followed it. -/
def InHand (P : Event → Prop) (trace : List Event) (sock : Fin 64) (sockst : SockCid) (qos : UInt8)
    (packetId : UInt16) (topic frame : List UInt8) : Prop :=
  ∃ late earlier, trace = late ++ .publishing sock sockst qos packetId topic frame :: earlier ∧
    ∀ e ∈ late, P e

theorem InHand.reply {trace : List Event} {sock : Fin 64} {sockst : SockCid} {qos : UInt8}
    {packetId : UInt16} {topic frame : List UInt8}
    (hand : InHand Event.OfRetained trace sock sockst qos packetId topic frame) :
    InHand Event.OfReply trace sock sockst qos packetId topic frame := by
  obtain ⟨late, earlier, split, holds⟩ := hand
  refine ⟨late, earlier, split, fun e member => ?_⟩
  have held := holds e member
  cases e <;> first | exact trivial | exact absurd held id

/-- What has become of the reply to a PUBLISH of QoS 2: its item is made, or there
is no room for it in the queue or in memory. -/
def Event.Replied (packetId : UInt16) : Event → Prop
  | .queued _ ok => ok = false
  | .enqueued _ _ _ item | .lost item => item.state = .sendpubrec ∧ item.packetId = packetId
  | _ => False

/-- What is distributed for a publisher is the PUBLISH that it has just sent, with
its reply seen to, and what is distributed for none is a will. -/
structure Distributes (trace : List Event) (publisher : Option Publisher) (qos : UInt8) (packetId : UInt16)
    (topic frame : List UInt8) : Prop where
  sent : ∀ sender, publisher = some sender → ∃ sock sockst, sender = ⟨sockst.tls, sockst.clientid⟩ ∧
    InHand Event.OfReply trace sock sockst qos packetId topic frame
  replied : publisher.isSome → qos = 2 → ∃ e earlier, trace = e :: earlier ∧ e.Replied packetId
  left : publisher = none → ∃ conn payload, .willed conn topic payload qos frame ∈ trace

theorem Distributes.source {trace : List Event} {publisher : Option Publisher} {qos : UInt8} {packetId : UInt16}
    {topic frame : List UInt8} (distributes : Distributes trace publisher qos packetId topic frame) :
    Source trace packetId frame qos := by
  cases publisher with
  | none =>
    obtain ⟨conn, payload, willed⟩ := distributes.left rfl
    exact .inr ⟨conn, topic, payload, willed⟩
  | some sender =>
    obtain ⟨sock, sockst, -, late, earlier, rfl, -⟩ := distributes.sent sender rfl
    exact .inl ⟨sock, sockst, topic, List.mem_append_right _ List.mem_cons_self⟩

/-- How many of the clients have a socket and a subscription to a topic. -/
def hearers (topic : Key) (clients : List (Node Client)) : Nat :=
  clients.countP fun node =>
    node.data.sock.isSome && (node.data.isSubscribed topic).toOption.any (· ≠ emptyQos)

def Event.raises : Event → Bool
  | .counting _ => true
  | _ => false

/-- The loop over the clients has begun for a message, with this one among them,
and has not counted it for all that are to have it. -/
def Offered (trace : List Event) (m : Admitted) (stamp : Nat) (node : Node Client) : Prop :=
  ∃ late clients earlier, trace = late ++ .offering m.packetId m.topic clients :: earlier ∧
    stamp ≤ earlier.length ∧ late.countP Event.raises < hearers m.topic clients ∧ node ∈ clients

theorem Offered.heard {trace : List Event} {m : Admitted} {stamp : Nat} {node : Node Client} {granted : UInt8}
    (offered : Offered trace m stamp node) (subscribed : node.data.isSubscribed m.topic = .ok granted)
    (some_qos : granted ≠ emptyQos) : Heard trace m.topic node.key := by
  obtain ⟨late, clients, earlier, rfl, -, -, member⟩ := offered
  exact ⟨m.packetId, clients, node, granted, List.mem_append_right _ List.mem_cons_self, member, rfl, subscribed,
    some_qos⟩

/-- The message was offered to a client with a subscription to its topic, and a
QoS is the lesser of those of the subscription and the message. -/
def Granted (trace : List Event) (m : Admitted) (clientid : Key) (qos : UInt8) : Prop :=
  ∃ published granted clients node, .distributing m.publisher m.topic m.frame published m.packetId ∈ trace ∧
    .offering m.packetId m.topic clients ∈ trace ∧ node ∈ clients ∧ node.key = clientid ∧
      node.data.isSubscribed m.topic = .ok granted ∧ granted ≠ emptyQos ∧ qos = min granted published

theorem Granted.grown {w w' : World} {m : Admitted} {clientid : Key} {qos : UInt8}
    (granted : Granted w.trace m clientid qos) (longer : ∃ events, w'.trace = events ++ w.trace) :
    Granted w'.trace m clientid qos := by
  obtain ⟨published, granted, clients, node, distributed, offered, rest⟩ := granted
  exact ⟨published, granted, clients, node, logged_grown longer distributed, logged_grown longer offered, rest⟩

/-- What a message is sent with: the first time as its item has it, once more as
it was published and without RETAIN. -/
def SentWith (trace : List Event) (item : PackidStateItem) (node : NodePubmap) (qos : UInt8) (deleteRetain : Bool) :
    Prop :=
  item.state = .sendpublish ∧ qos = item.qos ∧ deleteRetain = item.deleteRetain ∨
    item.state ≠ .sendpublish ∧ .resending item node ∈ trace ∧ qos = node.qos ∧ deleteRetain = true

theorem SentWith.sentAs {w : World} {item : PackidStateItem} {node : NodePubmap} {qos : UInt8} {deleteRetain : Bool}
    (sent : SentWith w.trace item node qos deleteRetain) : SentAs w item qos := by
  rcases sent with ⟨fresh, same, -⟩ | ⟨-, resent, same, -⟩
  · exact .inl ⟨fresh, same⟩
  · exact .inr ⟨node, resent, same⟩

/-- A step with the messages: the tables and the items. The list has the
message that is accepted, until its first count is given back. -/
inductive MessageAct : World → List Admitted → World → List Admitted → Prop
  | start (sock : Fin 64) :
      MessageAct w owed
        { (w.log (.started sock (w.items sock))).setSock sock ({ · with tls := w.nextTls }) with
          nextTls := w.nextTls + 1 } owed
  | accept (sock : Fin 64) (qos : UInt8) (packetId : UInt16) (topic frame : List UInt8) :
      AsReceived w.trace sock (w.socks sock) qos packetId topic frame →
      MessageAct w [] (w.log (.publishing sock (w.socks sock) qos packetId topic frame))
        (awaiting (some ⟨(w.socks sock).tls, (w.socks sock).clientid⟩) packetId topic frame)
  | enter (m : Admitted) (qos : UInt8) (heap : Heap) :
      Distributes w.trace m.publisher qos m.packetId m.topic m.frame →
      m.stamp = some (w.trace.length + 1) →
      ((w.stored m.packetId m.frame qos 1 heap).publishMsgStore.get m.packetId).isSome →
      MessageAct w (awaiting m.publisher m.packetId m.topic m.frame)
        ((w.log (.distributing m.publisher m.topic m.frame qos m.packetId)).stored m.packetId m.frame
          qos 1 heap) [m]
  | refuse (packetId : UInt16) (topic frame : List UInt8) (qos : UInt8) (heap : Heap)
      {publisher : Option Publisher} :
      Distributes w.trace publisher qos packetId topic frame →
      (w.stored packetId frame qos 1 heap).publishMsgStore.get packetId = none →
      MessageAct w (awaiting publisher packetId topic frame)
        ((w.log (.distributing publisher topic frame qos packetId)).stored packetId frame qos 1 heap)
        []
  | readd (packetId y : UInt16) (frame : List UInt8) (qos : UInt8) (heap : Heap) {j : Nat} :
      w.publishMsgStore.get y = some j → (w.nodeAt j).pubpackId = packetId →
      w.publishMsgStore.get packetId = none →
      MessageAct w owed (w.stored packetId frame qos 1 heap) owed
  | enqueue (m : Admitted) (qos : UInt8) {node : Node Client} {target : Fin 64} {i : Nat}
      {granted : UInt8} {stamp : Nat} :
      m.stamp = some stamp → m ∈ owed → node ∈ w.clientStore.nodes → node.data.sock = some target →
      node.data.isSubscribed m.topic = .ok granted → granted ≠ emptyQos →
      ItemAdded w target ⟨m.packetId, .sendpublish, qos, true,
        ⟨(w.socks target).tls, m.frame, m.topic, some node.key, m.publisher, stamp⟩⟩ w' →
      w.publishMsgStore.get m.packetId = some i → Offered w.trace m stamp node →
      Granted w.trace m node.key qos →
      MessageAct w owed (w'.countUp i) owed
  | retire (m : Admitted) {i : Nat} : m.stamp.isSome → w.publishMsgStore.get m.packetId = some i →
      MessageAct w [m] (w.countDown i m.packetId) []
  | retainRefused (packetId : UInt16) (topic frame : List UInt8) (qos : UInt8) (heap : Heap) :
      (w.publishMsgStore.add packetId frame qos 2 heap).1 = false → (∀ m ∈ owed, m.stamp = none) →
      Source w.trace packetId frame qos →
      MessageAct w owed
        ((w.log (.retain topic frame qos packetId)).stored packetId frame qos 2 heap) owed
  | retainNew (packetId : UInt16) (frame : List UInt8) (qos : UInt8) (heap : Heap) {topic : Key}
      {ok : Bool} {before after : Heap} {retained : Myhashmap UInt16} :
      (w.publishMsgStore.add packetId frame qos 2 heap).1 = true →
      w.retainedSubMsg.get topic = .ok none →
      w.retainedSubMsg.add topic packetId before = .ok (ok, retained, after) →
      (∀ m ∈ owed, m.stamp = none) → Source w.trace packetId frame qos →
      MessageAct w owed
        { (((w.log (.retain topic frame qos packetId)).stored packetId frame qos 2 heap).log
            (.retaining packetId)).log (.keeping w.retainedSubMsg topic ok) with
          retainedSubMsg := retained } owed
  | retainReplace (packetId : UInt16) (frame : List UInt8) (qos : UInt8) (heap : Heap)
      {topic : Key} {old : UInt16} :
      (w.publishMsgStore.add packetId frame qos 2 heap).1 = true →
      w.retainedSubMsg.get topic = .ok (some old) → (∀ m ∈ owed, m.stamp = none) →
      Source w.trace packetId frame qos →
      MessageAct w owed
        { (((w.log (.retain topic frame qos packetId)).stored packetId frame qos 2 heap).log
            (.retaining packetId)).forget old with
          retainedSubMsg := w.retainedSubMsg.rewritten topic packetId } owed
  | deliver (sock : Fin 64) (qos : UInt8) {topic : Key} {packetId : UInt16} {i : Nat} :
      w.retainedSubMsg.get topic = .ok (some packetId) →
      w.publishMsgStore.get packetId = some i →
      ItemAdded w sock ⟨packetId, .sendpublish, qos, false,
        { conn := (w.socks sock).tls, frame := (w.nodeAt i).data, topic }⟩ w' →
      MessageAct w owed ((w'.countUp i).log (.sought sock topic (some (w.nodeAt i)) true)) owed
  | unheard (sock : Fin 64) {topic : Key} {packetId : UInt16} {i : Nat} :
      w.retainedSubMsg.get topic = .ok (some packetId) →
      w.publishMsgStore.get packetId = some i → .queued ⟨sock, .write⟩ false ∈ w.trace →
      MessageAct w owed (w.log (.sought sock topic (some (w.nodeAt i)) false)) owed
  | unknown (sock : Fin 64) (topic : Key) :
      (∀ packetId, w.retainedSubMsg.get topic = .ok (some packetId) →
        w.publishMsgStore.get packetId = none) →
      MessageAct w owed (w.log (.sought sock topic none false)) owed
  | incoming (sock : Fin 64) {item : PackidStateItem} :
      item.state = .sendpuback ∧ item.qos = 1 ∨ item.state = .sendpubrec ∧ item.qos = 2 →
      item.origin.conn = (w.socks sock).tls →
      InHand Event.OfRetained w.trace sock (w.socks sock) item.qos item.packetId item.origin.topic
        item.origin.frame →
      ItemAdded w sock item w' →
      MessageAct w owed w' owed
  | reply (sock : Fin 64) (bytes : List UInt8) {i : Nat} {item : PackidStateItem}
      (f : PackidStateItem → PackidStateItem) :
      (w.items sock)[i]? = some item → item.packetId ≠ 0 →
      (∃ kind, answerIn item.state = some kind ∧ bytes = kind.encode item.packetId) → Advances item (f item) →
      MessageAct w owed
        ((w.log (.wrote sock (w.socks sock) bytes (some item))).setItem sock i f) owed
  | send (sock : Fin 64) (qos : UInt8) (deleteRetain : Bool) {i j : Nat} {item : PackidStateItem}
      {head : UInt8} {rest : List UInt8} :
      (w.items sock)[i]? = some item → item.state.Counted → Live w sock item → SentAs w item qos →
      (item.state = .sendpublish → item.packetId ≠ 0 ∧ ∀ k < i, ∀ other,
        (w.items sock)[k]? = some other → ¬ PackidStateItem.Pending other) →
      w.publishMsgStore.get item.packetId = some j → (w.nodeAt j).data = head :: rest →
      SentWith w.trace item (w.nodeAt j) qos deleteRetain →
      MessageAct w owed
        (w.log (.wrote sock (w.socks sock) (publishHeader head qos deleteRetain :: rest) (some item)))
        owed
  | matched (sock : Fin 64) {i : Nat} {item : PackidStateItem} :
      (w.items sock)[i]? = some item → item.state = .getpuback ∨ item.state = .getpubrec →
      MessageAct w owed (w.log (.acked sock (w.socks sock) item.packetId item)) owed
  | answer (sock : Fin 64) {i : Nat} {item : PackidStateItem}
      (f : PackidStateItem → PackidStateItem) :
      (w.items sock)[i]? = some item → item.state = .getpubrel ∨ item.state = .getpubcomp →
      Advances item (f item) →
      MessageAct w owed
        ((w.log (.acked sock (w.socks sock) item.packetId item)).setItem sock i f) owed
  | resend (sock : Fin 64) {i j : Nat} {item : PackidStateItem} :
      (w.items sock)[i]? = some item → item.state = .getpuback ∨ item.state = .getpubrec →
      w.publishMsgStore.get item.packetId = some j →
      MessageAct w owed (w.log (.resending item (w.nodeAt j))) owed
  | await (sock : Fin 64) {i : Nat} {item : PackidStateItem} {qos : UInt8} :
      (w.items sock)[i]? = some item → item.state.Counted → Written w.trace sock item →
      SentAs w item qos → qos ≠ 0 →
      MessageAct w owed
        (w.setItem sock i ({ · with state := if qos = 1 then .getpuback else .getpubrec })) owed
  | release (sock : Fin 64) {i : Nat} {item : PackidStateItem} (packetId : UInt16)
      (f : PackidStateItem → PackidStateItem) :
      (w.items sock)[i]? = some item → item.state.Counted → Live w sock item →
      packetId = item.packetId ∨ (∃ j, w.publishMsgStore.get item.packetId = some j ∧
        packetId = (w.nodeAt j).pubpackId) →
      Releases w sock item (f item) →
      MessageAct w owed ((w.setItem sock i f).forget packetId) owed
  | abandon (sock : Fin 64) {i j : Nat} {item : PackidStateItem} :
      (w.items sock)[i]? = some item → item.state.Counted → Live w sock item →
      w.publishMsgStore.get item.packetId = some j → Written w.trace sock item →
      MessageAct w owed
        (((w.log (.unsent item)).setItem sock i ({ · with packetId := 0 })).forget
          (w.nodeAt j).pubpackId) owed

/-- The worker in the middle of an event. -/
structure Config where
  world : World
  owed : List Admitted := []
  masked : Masked := none

/-- The events that no table changes with. A will is published by `drop_conn`, and
its payload alone is the packet. -/
def Event.Neutral (trace : List Event) : Event → Prop
  | .queued .. | .wrote _ _ _ none | .closed _ | .received .. | .dropping .. | .offering .. => True
  | .willed conn _ payload _ frame => frame = payload ∧
    ∃ sock sockst, .dropping sock sockst true ∈ trace ∧ sockst.client.isSome ∧ sockst.tls = conn
  | _ => False

/-- One coarse step. -/
inductive Act : Config → Config → Prop
  | quiet : Quiet w w' → Act ⟨w, owed, masked⟩ ⟨w', owed, masked⟩
  | note {e : Event} : e.Neutral w.trace → Act ⟨w, owed, masked⟩ ⟨w.log e, owed, masked⟩
  | session : SessionAct w masked w' masked' → Act ⟨w, owed, masked⟩ ⟨w', owed, masked'⟩
  | message : MessageAct w owed w' owed' → Act ⟨w, owed, masked⟩ ⟨w', owed', masked⟩

abbrev Acts := Relation.ReflTransGen Act

theorem Acts.one {c c' : Config} (act : Act c c') : Acts c c' := .single act

theorem Acts.trans {c₁ c₂ c₃ : Config} (first : Acts c₁ c₂) (second : Acts c₂ c₃) : Acts c₁ c₃ :=
  Relation.ReflTransGen.trans first second

end MqttBroker
