import MqttBroker.Protocol.Acknowledgements
import MqttBroker.Worker.Calls

/-! Rules for a property of programs: what has to be shown of the single calls
so that it holds of the parts of the worker that are made of them. A part that
looks at the state must not look at the buffer; reading that has rules of its
own. -/
namespace MqttBroker.Worker
open Logic

/-- Only tables are rewritten, whatever the buffer holds. -/
structure Tabular (f : World → World) : Prop where
  socks : ∀ w, (f w).socks = w.socks
  trace : ∀ w, (f w).trace = w.trace
  blind : ∀ (w : World) (front : List UInt8), f { w with buf := front } = { f w with buf := front }

/-- The events of the calls that every kind of packet can lead to. -/
def Common : Event → Prop
  | .wrote .. | .enqueued .. | .lost _ | .received .. | .acked .. | .publishing .. | .willed .. |
    .resending .. | .unsent _ => False
  | _ => True

/-- The rules of a property. -/
structure Rules (P : ∀ {α : Type}, Worker α → Prop) : Prop where
  done : ∀ {α : Type} (a : α), P (pure a)
  bind : ∀ {α β : Type} {m : Worker α} {f : α → Worker β}, P m → (∀ a, P (f a)) → P (m >>= f)
  fault : ∀ {α : Type} (kind : Fault), P (fault kind : Worker α)
  look : ∀ {β : Type} {f : World → Worker β}, (∀ w, P (f w)) →
    (∀ (w : World) (front : List UInt8), f { w with buf := front } = f w) → P (get >>= f)
  table : ∀ {f : World → World}, Tabular f → P (modify f)
  setSock : ∀ (sock : Fin 64) {f : SockCid → SockCid},
    (∀ sockst, (f sockst).packidState = sockst.packidState) → P (setSock sock f)
  onHeap : ∀ {α : Type} (call : Heap → α × Heap), P (onHeap call)
  random : P espRandom
  request : ∀ msg, P (sendtoque msg)
  write : ∀ (sock : Fin 64) {head : UInt8} (rest : List UInt8), Protocol.Ack.of head = none →
    P (connWrite sock (head :: rest) none)
  log : ∀ {e : Event}, Common e → P (log e)
  enqueue : ∀ (sock : Fin 64) {item : PackidStateItem}, item.state = .sendpublish →
    P (addPacketId sock item)

/-- The rules of a property of programs that read the buffer too. -/
structure ReadRules (P : ∀ {α : Type}, Worker α → Prop) : Prop extends Rules P where
  byteAt : ∀ pos, P (byteAt pos)
  rangeAt : ∀ pos len, P (rangeAt pos len)

variable {P : ∀ {α : Type}, Worker α → Prop} {α β : Type}

section Rules
variable (rules : Rules P)
include rules

/-! ### Calls -/

theorem ruled_check (outcome : Outcome α) : P (check outcome) := by
  cases outcome with
  | ok answer => exact rules.done answer
  | error kind => exact rules.fault kind

theorem ruled_sockAt (sock : Fin 64) : P (sockAt sock) :=
  rules.look (fun _ => rules.done _) fun _ _ => rfl

theorem ruled_deref (client : Option Nat) : P (deref client) := by
  cases client with
  | none => exact rules.fault _
  | some addr =>
    refine rules.look (fun w => ?_) fun _ _ => rfl
    cases w.clientAt addr with
    | none => exact rules.fault _
    | some client => exact rules.done client

theorem ruled_setClient (client : Option Nat) (f : Client → Client) : P (setClient client f) := by
  cases client with
  | none => exact rules.fault _
  | some addr => exact rules.table ⟨fun _ => rfl, fun _ => rfl, fun _ _ => rfl⟩

theorem ruled_storeAdd (packetId : UInt16) (frame : List UInt8) (qos count : UInt8) :
    P (storeAdd packetId frame qos count) := by
  refine rules.look (fun w => rules.bind (rules.log trivial) fun _ => ?_) fun _ _ => rfl
  refine rules.bind (rules.table ⟨fun _ => rfl, fun _ => rfl, fun _ _ => rfl⟩) fun _ => rules.done _

theorem ruled_storeGet (packetId : UInt16) : P (storeGet packetId) :=
  rules.look (fun _ => rules.done _) fun _ _ => rfl

theorem ruled_countUp (i : Nat) : P (countUp i) := by
  refine rules.look (fun w => rules.bind (rules.log trivial) fun _ => ?_) fun _ _ => rfl
  exact rules.table ⟨fun _ => rfl, fun _ => rfl, fun _ _ => rfl⟩

theorem ruled_countDown (i : Nat) (packetId : UInt16) : P (countDown i packetId) := by
  refine rules.look (fun w => rules.bind (rules.log trivial) fun _ => ?_) fun _ _ => rfl
  refine rules.bind (rules.table ⟨fun _ => rfl, fun _ => rfl, fun _ _ => rfl⟩) fun _ => ?_
  split
  · exact rules.table ⟨fun _ => rfl, fun _ => rfl, fun _ _ => rfl⟩
  · exact rules.done _

theorem ruled_countDownIf (packetId : UInt16) (found : Option Nat) : P (countDownIf packetId found) := by
  cases found with
  | none => exact rules.done _
  | some node => exact ruled_countDown rules node packetId

/-- A table that is replaced by the answer of a call on it. -/
theorem ruled_replace {call : World → Outcome α} {replace : α → World → World} {next : α → Worker β}
    (blind : ∀ (w : World) (front : List UInt8), call { w with buf := front } = call w)
    (tabular : ∀ a, Tabular (replace a)) (rest : ∀ a, P (next a)) :
    P (get >>= fun w => check (call w) >>= fun a => set (replace a w) >>= fun _ => next a) := by
  have same : (get >>= fun w => check (call w) >>= fun a => set (replace a w) >>= fun _ => next a) =
      (get >>= fun w => check (call w) >>= fun a => modify (replace a) >>= fun _ => next a : Worker β) := by
    funext w
    change (check (call w) >>= fun a => set (replace a w) >>= fun _ => next a) w =
      (check (call w) >>= fun a => modify (replace a) >>= fun _ => next a) w
    cases call w with
    | ok answer => rfl
    | error kind => rfl
  rw [same]
  refine rules.look (fun w => rules.bind (ruled_check rules _) fun a => ?_) fun w front => ?_
  · exact rules.bind (rules.table (tabular a)) fun _ => rest a
  · rw [blind]

theorem ruled_connAck (sock : Fin 64) (returnCode : UInt8) (sessionPresentFlag : Bool) :
    P (connAck sock returnCode sessionPresentFlag) :=
  rules.bind (rules.write _ _ (by decide)) fun _ => rules.done _

/-! ### Publishing and dropping -/

theorem ruled_fanOut (topic frame : List UInt8) (qos : UInt8) (packetId : UInt16)
    (publisher : Option Publisher) (stamp node : Nat) (clients : List (Node Client)) :
    P (fanOut topic frame qos packetId publisher stamp node clients) := by
  induction clients with
  | nil => exact rules.done _
  | cons entry rest ih =>
    obtain ⟨clientid, client⟩ := entry
    unfold fanOut
    split
    · refine rules.bind (ruled_check rules _) fun clientQos => ?_
      split
      · exact ih
      · dsimp only
        split
        · exact rules.fault _
        · refine rules.bind (rules.request _) fun _ => rules.bind (rules.request _) fun accepted => ?_
          split
          · refine rules.bind (ruled_sockAt rules _) fun _ => rules.bind (rules.enqueue _ rfl) fun _ => ?_
            exact rules.bind (ruled_countUp rules _) fun _ => ih
          · exact rules.bind (rules.request _) fun _ => ih
    · exact ih

theorem ruled_publishByTopic (topic frame : List UInt8) (qos : UInt8) (packetId : UInt16)
    (publisher : Option Publisher) : P (publishByTopic topic frame qos packetId publisher) := by
  refine rules.bind (rules.log trivial) fun _ => rules.look (fun w => ?_) fun _ _ => rfl
  refine rules.bind (ruled_storeAdd rules _ _ _ _) fun _ => rules.bind (ruled_storeGet rules _) fun node => ?_
  cases node with
  | none => exact rules.done _
  | some node =>
    refine rules.look (fun w => ?_) fun _ _ => rfl
    refine rules.bind (rules.log trivial) fun _ => ?_
    exact rules.bind (ruled_fanOut rules _ _ _ _ _ _ _ _) fun _ => ruled_countDown rules _ _

theorem ruled_releaseClient (sock : Fin 64) (sockst : SockCid) : P (releaseClient sock sockst) := by
  unfold releaseClient
  cases sockst.client with
  | none => exact rules.done _
  | some addr =>
    refine rules.bind (ruled_deref rules _) fun client => rules.bind (rules.log trivial) fun _ => ?_
    split
    · have tabular (store : Myhashmap Client) : Tabular fun w => { w with clientStore := store } :=
        ⟨fun _ => rfl, fun _ => rfl, fun _ _ => rfl⟩
      have blind (w : World) (front : List UInt8) : { w with buf := front }.clientStore.erase sockst.clientid =
        w.clientStore.erase sockst.clientid := rfl
      exact ruled_replace rules blind tabular fun _ => rules.done ()
    · exact ruled_setClient rules _ _

theorem ruled_endSession (sock : Fin 64) : P (endSession sock) := by
  refine rules.bind (ruled_sockAt rules _) fun _ => rules.bind (ruled_releaseClient rules _ _) fun _ => ?_
  exact rules.setSock _ fun _ => rfl

/-- Wills are published, if that may be logged. -/
theorem ruled_publishWill (willed : ∀ conn topic payload qos frame, P (log (.willed conn topic payload qos frame)))
    (sockst : SockCid) (sendwill : Bool) : P (publishWill sockst sendwill) := by
  unfold publishWill
  cases sockst.client with
  | none => exact rules.done _
  | some addr =>
    refine rules.bind (ruled_deref rules _) fun client => ?_
    split
    · refine rules.bind (ruled_setClient rules _ _) fun _ => rules.bind rules.random fun _ => ?_
      refine rules.bind (willed _ _ _ _ _) fun _ => rules.bind (ruled_publishByTopic rules _ _ _ _ _) fun _ => ?_
      exact ruled_setClient rules _ _
    · exact rules.done _

theorem ruled_dropConn (willed : ∀ conn topic payload qos frame, P (log (.willed conn topic payload qos frame)))
    (sock : Fin 64) (sendwill : Bool) : P (dropConn sock sendwill) := by
  refine rules.bind (ruled_sockAt rules _) fun _ => rules.bind (rules.log trivial) fun _ => ?_
  refine rules.bind (rules.request _) fun _ => rules.bind (rules.log trivial) fun _ => ?_
  refine rules.bind (ruled_sockAt rules _) fun _ => rules.bind (ruled_publishWill rules willed _ _) fun _ => ?_
  exact ruled_endSession rules _

/-! ### CONNECT -/

theorem ruled_newClient (sock : Fin 64) (clientid : Key) : P (newClient sock clientid) := by
  refine rules.bind (rules.onHeap _) fun allocated => ?_
  split
  · refine rules.look (fun w => rules.bind (rules.onHeap _) fun client => ?_) fun _ _ => rfl
    refine ruled_replace rules (fun _ _ => rfl) (fun _ => ⟨fun _ => rfl, fun _ => rfl, fun _ _ => rfl⟩) fun added => ?_
    split
    · refine rules.bind (ruled_check rules _) fun stored => rules.bind (rules.setSock _ fun _ => rfl) fun _ => ?_
      exact rules.bind (ruled_setClient rules _ _) fun _ => rules.done _
    · exact rules.done _
  · exact rules.done _

theorem ruled_takeOver (sock : Fin 64) (client : Client) : P (takeOver sock client) := by
  unfold takeOver
  cases client.sock with
  | none => exact rules.done _
  | some prevSock =>
    refine rules.bind (rules.request _) fun _ => rules.bind (ruled_sockAt rules _) fun _ => ?_
    refine rules.bind (ruled_sockAt rules _) fun _ => rules.bind (rules.log trivial) fun _ => ?_
    refine rules.bind (rules.setSock _ fun _ => rfl) fun _ => rules.bind (ruled_sockAt rules _) fun _ => ?_
    refine rules.bind (ruled_deref rules _) fun client => rules.bind (rules.log trivial) fun _ => ?_
    split
    · exact rules.bind (rules.onHeap _) fun _ => ruled_setClient rules _ _
    · exact rules.done _

theorem ruled_requestAfterConnack (sock : Fin 64) (client : Option Nat) (hasQuedMsgs : Bool) :
    P (requestAfterConnack sock client hasQuedMsgs) := by
  unfold requestAfterConnack
  split
  · refine rules.bind (ruled_setClient rules _ _) fun _ => ?_
    exact rules.bind (rules.request _) fun _ => rules.done _
  · exact rules.bind (rules.request _) fun _ => rules.done _

theorem ruled_acceptConnect (sock : Fin 64) (clean : Bool) (will : Will) (prev : Option Client) :
    P (acceptConnect sock clean will prev) := by
  refine rules.bind (ruled_sockAt rules _) fun _ => rules.bind (ruled_deref rules _) fun client => ?_
  refine rules.bind (rules.onHeap _) fun _ => rules.bind (ruled_setClient rules _ _) fun _ => ?_
  refine rules.bind (ruled_connAck rules _ _ _) fun _ => rules.bind (rules.log trivial) fun _ => ?_
  exact ruled_requestAfterConnack rules _ _ _

/-- What follows `connect_mqtt` does not read the packet. -/
theorem ruled_afterConnect (ends : ∀ sock sendwill, P (dropConn sock sendwill)) (sock : Fin 64) (curPos : Nat) :
    ∃ rest : MqttConnReturn × Will → Worker Unit, (∀ ret, P (rest ret)) ∧
      connectEvent sock curPos = connectMqtt sock curPos >>= rest := by
  refine ⟨_, fun ret => ?_, rfl⟩
  split
  · exact ends _ _
  dsimp only
  refine rules.bind (ruled_sockAt rules _) fun _ => rules.look (fun w => ?_) fun _ _ => rfl
  refine rules.bind (ruled_check rules _) fun stored => rules.bind (rules.log trivial) fun _ => ?_
  refine rules.bind (rules.setSock _ fun _ => rfl) fun _ => ?_
  cases stored with
  | none =>
    refine rules.bind (ruled_newClient rules _ _) fun created => ?_
    split
    · exact ruled_acceptConnect rules _ _ _ _
    · exact ends _ _
  | some client => exact rules.bind (ruled_takeOver rules _ _) fun _ => ruled_acceptConnect rules _ _ _ _

/-! ### Packets of a connected client -/

theorem ruled_retainMessage (topic frame : List UInt8) (qos : UInt8) (packetid : UInt16) :
    P (retainMessage topic frame qos packetid) := by
  refine rules.bind (rules.log trivial) fun _ => rules.bind (ruled_storeAdd rules _ _ _ _) fun added => ?_
  split
  · refine rules.bind (rules.log trivial) fun _ => rules.look (fun w => ?_) fun _ _ => rfl
    refine rules.bind (ruled_check rules _) fun kept => ?_
    cases kept with
    | none =>
      refine rules.bind (ruled_check rules _) fun added => rules.bind (rules.log trivial) fun _ => ?_
      exact rules.table (f := fun w => { w with
        retainedSubMsg := added.2.1, env := { w.env with heap := added.2.2 } })
        ⟨fun _ => rfl, fun _ => rfl, fun _ _ => rfl⟩
    | some retainedMsg =>
      refine rules.bind (ruled_storeGet rules _) fun _ => rules.bind (ruled_countDownIf rules _ _) fun _ => ?_
      exact rules.table ⟨fun _ => rfl, fun _ => rfl, fun _ _ => rfl⟩
  · exact rules.done _

theorem ruled_sendRetained (sock : Fin 64) (topic : Key) (reqQos : UInt8) :
    P (sendRetained sock topic reqQos) := by
  refine rules.look (fun w => rules.bind (ruled_check rules _) fun retained => ?_) fun _ _ => rfl
  cases retained with
  | none => exact rules.log trivial
  | some retainedMsg =>
    refine rules.bind (ruled_storeGet rules _) fun found => ?_
    cases found with
    | none => exact rules.log trivial
    | some i =>
      refine rules.look (fun w => ?_) fun _ _ => rfl
      refine rules.bind (rules.request _) fun accepted => ?_
      split
      · refine rules.bind (ruled_sockAt rules _) fun _ => rules.bind (rules.enqueue _ rfl) fun _ => ?_
        exact rules.bind (ruled_countUp rules _) fun _ => rules.log trivial
      · exact rules.log trivial

theorem ruled_subscribeTopic (sock : Fin 64) (topic : Key) (reqQos : UInt8) (suback : Myvector UInt8) :
    P (subscribeTopic sock topic reqQos suback) := by
  refine rules.bind (ruled_sockAt rules _) fun _ => rules.bind (ruled_deref rules _) fun client => ?_
  refine rules.look (fun w => rules.bind (ruled_check rules _) fun result => ?_) fun _ _ => rfl
  refine rules.bind (rules.onHeap _) fun _ => rules.bind (ruled_setClient rules _ _) fun _ => ?_
  refine rules.bind (rules.log trivial) fun _ => rules.bind (rules.onHeap _) fun _ => ?_
  exact rules.bind (ruled_sendRetained rules _ _ _) fun _ => rules.done _

theorem ruled_subackLength (turns pos insertId : Nat) (subAckLen : UInt16) (suback : Myvector UInt8) :
    P (subackLength turns pos insertId subAckLen suback) := by
  induction turns generalizing pos insertId subAckLen suback with
  | zero => exact rules.fault _
  | succ turns ih =>
    unfold subackLength
    dsimp only
    split
    · refine rules.bind (rules.onHeap _) fun inserted => ?_
      split
      · exact rules.done _
      · split
        · exact rules.fault _
        · exact ih _ _ _ _
    · exact rules.done _

theorem ruled_unsubscribeTopic (sock : Fin 64) (topic : Key) : P (unsubscribeTopic sock topic) := by
  refine rules.bind (ruled_sockAt rules _) fun _ => rules.bind (ruled_deref rules _) fun client => ?_
  refine rules.bind (ruled_check rules _) fun _ => rules.bind (ruled_setClient rules _ _) fun _ => ?_
  exact rules.log trivial

theorem ruled_pingEvent (sock : Fin 64) : P (pingEvent sock) :=
  rules.bind (rules.write _ _ (by decide)) fun _ => rules.bind (rules.request _) fun _ => rules.done _

theorem ruled_disconnectEvent (ends : ∀ sock sendwill, P (dropConn sock sendwill)) (sock : Fin 64) :
    P (disconnectEvent sock) := by
  refine rules.bind (ruled_sockAt rules _) fun _ => rules.bind (ruled_deref rules _) fun client => ?_
  refine rules.bind (rules.log trivial) fun _ => rules.bind (ruled_setClient rules _ _) fun _ => ?_
  exact ends _ _

end Rules

section Reading
variable (reads : ReadRules P)
include reads

/-! ### Reading -/

theorem ruled_ntohsAt (pos : Nat) : P (ntohsAt pos) :=
  reads.bind (reads.byteAt _) fun _ => reads.bind (reads.byteAt _) fun _ => reads.done _

theorem ruled_packetIdAt (pos : Nat) : P (packetIdAt pos) :=
  reads.bind (reads.byteAt _) fun _ => reads.bind (reads.byteAt _) fun _ => reads.done _

theorem ruled_matchesAt (pos : Nat) (bytes : List UInt8) : P (matchesAt pos bytes) := by
  induction bytes generalizing pos with
  | nil => exact reads.done _
  | cons byte rest ih =>
    refine reads.bind (reads.byteAt _) fun _ => ?_
    split
    · exact reads.done _
    · exact ih _

theorem ruled_vectorAt (pos len : Nat) : P (vectorAt pos len) := by
  unfold vectorAt
  split
  · exact reads.done _
  · refine reads.bind (reads.onHeap _) fun allocated => ?_
    split
    · exact reads.bind (reads.rangeAt _ _) fun _ => reads.done _
    · exact reads.done _

theorem ruled_readWill (pos : Nat) (will : Will) : P (readWill pos will) := by
  refine reads.bind (ruled_ntohsAt reads _) fun _ => reads.bind (ruled_vectorAt reads _ _) fun _ => ?_
  split
  · exact reads.done _
  · refine reads.bind (ruled_ntohsAt reads _) fun _ => reads.bind (ruled_vectorAt reads _ _) fun _ => ?_
    split <;> exact reads.done _

theorem ruled_checkPasswordAt (username : List UInt8) (pos len : Nat) :
    P (checkPasswordAt username pos len) := by
  refine reads.look (fun w => reads.bind ?_ fun _ => reads.bind (ruled_check reads.toRules _) fun _ =>
    reads.onHeap _) fun _ _ => rfl
  split
  · exact reads.rangeAt _ _
  · exact reads.done _

theorem ruled_readCredentials (pos : Nat) (password : Bool) : P (readCredentials pos password) := by
  refine reads.bind (ruled_ntohsAt reads _) fun _ => reads.bind (reads.rangeAt _ _) fun _ => ?_
  dsimp only
  split
  · exact reads.bind (ruled_ntohsAt reads _) fun _ => ruled_checkPasswordAt reads _ _ _
  · exact ruled_checkPasswordAt reads _ _ _

theorem ruled_readOptions (pos : Nat) (connFlags : UInt8) (will : Will) :
    P (readOptions pos connFlags will) := by
  refine reads.bind ?_ fun read => ?_
  · split
    · exact ruled_readWill reads _ _
    · exact reads.done _
  · cases read with
    | none => exact reads.done _
    | some read =>
      refine reads.bind ?_ fun checked => ?_
      · split
        · exact ruled_readCredentials reads _ _
        · exact reads.done _
      · split <;> exact reads.done _

theorem ruled_connectMqtt (sock : Fin 64) (curPos : Nat) : P (connectMqtt sock curPos) := by
  have refused : P (pure (.disconnect, {}) : Worker (MqttConnReturn × Will)) := reads.done _
  refine reads.bind (reads.byteAt _) fun _ => ?_
  dsimp only
  split
  · exact refused
  refine reads.bind (ruled_ntohsAt reads _) fun _ => ?_
  split
  · exact refused
  refine reads.bind (ruled_matchesAt reads _ _) fun _ => ?_
  split
  · exact refused
  refine reads.bind (reads.byteAt _) fun _ => ?_
  split
  · exact reads.bind (ruled_connAck reads.toRules _ _ _) fun _ => refused
  refine reads.bind (reads.byteAt _) fun _ => ?_
  split
  · exact refused
  split
  · exact refused
  refine reads.bind (ruled_ntohsAt reads _) fun _ => reads.bind (ruled_ntohsAt reads _) fun _ => ?_
  split
  · exact refused
  refine reads.bind (reads.rangeAt _ _) fun _ => reads.bind (reads.setSock _ fun _ => rfl) fun _ => ?_
  exact ruled_readOptions reads _ _ _

theorem ruled_connectEvent (ends : ∀ sock sendwill, P (dropConn sock sendwill)) (sock : Fin 64)
    (curPos : Nat) : P (connectEvent sock curPos) := by
  obtain ⟨rest, ruled, same⟩ := ruled_afterConnect reads.toRules ends sock curPos
  rw [same]
  exact reads.bind (ruled_connectMqtt reads _ _) ruled

theorem ruled_subscribeLoop (sock : Fin 64) (turns curPos : Nat) (packetLength : UInt16)
    (suback : Myvector UInt8) : P (subscribeLoop sock turns curPos packetLength suback) := by
  induction turns generalizing curPos packetLength suback with
  | zero => exact reads.fault _
  | succ turns ih =>
    unfold subscribeLoop
    split
    · exact reads.done _
    · refine reads.bind (ruled_ntohsAt reads _) fun _ => reads.bind (reads.rangeAt _ _) fun _ => ?_
      refine reads.bind (reads.byteAt _) fun _ => reads.bind (ruled_subscribeTopic reads.toRules _ _ _ _) fun _ => ?_
      exact ih _ _ _

theorem ruled_unsubscribeLoop (sock : Fin 64) (turns curPos : Nat) (packetLength : UInt16) :
    P (unsubscribeLoop sock turns curPos packetLength) := by
  induction turns generalizing curPos packetLength with
  | zero => exact reads.fault _
  | succ turns ih =>
    unfold unsubscribeLoop
    split
    · exact reads.done _
    · refine reads.bind (ruled_ntohsAt reads _) fun _ => reads.bind (reads.rangeAt _ _) fun _ => ?_
      exact reads.bind (ruled_unsubscribeTopic reads.toRules _ _) fun _ => ih _ _

end Reading

end MqttBroker.Worker
