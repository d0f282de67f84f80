import MqttBroker.Worker.Closings

/-! What the branches for a connected client leave alone. Unless it drops the
connection, a branch tells no socket that it is another's, records no client
under another socket, and reports nothing but of its own connection. -/
namespace MqttBroker
open Logic Worker World Conclusion

/-- The two are the same connection, in the same phase. -/
def SockCid.Alike (a b : SockCid) : Prop :=
  a.client = b.client ∧ a.clientid = b.clientid ∧ a.phs = b.phs ∧ a.tls = b.tls

/-- A stored client is recorded under the socket. -/
def World.Records (w : World) (target : Fin 64) : Prop := ∃ node ∈ w.clientStore.nodes, node.data.sock = some target

/-- The events that are of no connection. The requests are of one kind. -/
def Event.Shared (P : Message → Prop) : Event → Prop
  | .queued msg _ => P msg
  | .adding .. | .retain .. | .retaining _ | .keeping .. | .counting _ | .uncounting _ | .offering .. | .enqueued ..
  | .lost _ => True
  | _ => False

/-- The events of a branch for a socket, which is that of this connection. A
packet is only served if `serves`, and the requests are of one kind. -/
def Event.Local (own : Fin 64) (sockst : SockCid) (serves : Prop) (P : Message → Prop) : Event → Prop
  | .queued msg _ => P msg
  | .wrote sock by_ _ _ | .received sock by_ _ => sock = own ∧ by_.Alike sockst
  | .publishing sock by_ _ _ _ _ => serves ∧ sock = own ∧ by_.Alike sockst
  | .acked sock by_ _ _ => serves ∧ sock = own ∧ by_.tls = sockst.tls
  | .sought sock _ _ _ => serves ∧ sock = own
  | .resubscribed clientid _ | .disconnecting clientid _ => serves ∧ clientid = sockst.clientid
  | .distributing publisher _ _ _ _ => serves ∧ publisher = some ⟨sockst.tls, sockst.clientid⟩
  | .closed _ | .started .. | .connecting .. | .evicting .. | .acknowledged .. | .dropping .. | .willed ..
  | .ended .. => False
  | _ => True

/-- A request for the socket itself. -/
def OwnRequest (own : Fin 64) (msg : Message) : Prop := msg.socket = own ∧ (msg.op = .read ∨ msg.op = .write)

namespace Branches

/-- A run that disturbs no connection; its events are of one kind. -/
structure Undisturbed (Q : Event → Prop) (w w' : World) : Prop where
  alike : ∀ sock, (w'.socks sock).Alike (w.socks sock)
  records : ∀ target, w'.Records target → w.Records target
  grown : ∃ events, w'.trace = events ++ w.trace ∧ ∀ e ∈ events, Q e

/-- A run of a branch. -/
def Local (own : Fin 64) (serves : Prop) (P : Message → Prop) (w w' : World) : Prop :=
  Undisturbed (Event.Local own (w.socks own) serves P) w w'

variable {w w₁ w₂ w' : World} {own sock : Fin 64} {S : Prop} {P : Message → Prop}
  {Q Q' : Event → Prop} {α β : Type} {e : Event} {item : PackidStateItem}

theorem Alike.refl (a : SockCid) : a.Alike a := ⟨rfl, rfl, rfl, rfl⟩

theorem Alike.trans {a b c : SockCid} (first : a.Alike b) (second : b.Alike c) : a.Alike c :=
  ⟨first.1.trans second.1, first.2.1.trans second.2.1, first.2.2.1.trans second.2.2.1,
    first.2.2.2.trans second.2.2.2⟩

/-- The events of one connection are those of a connection like it. -/
theorem local_alike {a b : SockCid} (alike : a.Alike b) (held : e.Local own a S P) : e.Local own b S P := by
  have same : (⟨a.tls, a.clientid⟩ : Publisher) = ⟨b.tls, b.clientid⟩ := by rw [alike.2.1, alike.2.2.2]
  cases e <;> first
    | exact ⟨held.1, Alike.trans held.2 alike⟩
    | exact ⟨held.1, held.2.1, Alike.trans held.2.2 alike⟩
    | exact ⟨held.1, held.2.1, held.2.2.trans alike.2.2.2⟩
    | exact ⟨held.1, held.2.trans alike.2.1⟩
    | exact ⟨held.1, held.2.trans (congrArg some same)⟩
    | exact held

theorem local_mono {a : SockCid} {S' : Prop} (held : e.Local own a S P) (wider : S → S') : e.Local own a S' P := by
  cases e <;> first
    | exact ⟨wider held.1, held.2⟩
    | exact held

theorem shared_local {sockst : SockCid} (shared : e.Shared P) : e.Local own sockst S P := by
  cases e <;> first | exact shared | exact trivial | exact shared.elim

namespace Undisturbed

theorem refl (w : World) : Undisturbed Q w w :=
  ⟨fun _ => Alike.refl _, fun _ => id, [], rfl, List.forall_mem_nil _⟩

theorem trans (first : Undisturbed Q w w₁) (second : Undisturbed Q w₁ w₂) : Undisturbed Q w w₂ :=
  ⟨fun sock => Alike.trans (second.alike sock) (first.alike sock),
    fun target held => first.records target (second.records target held), trace_trans first.grown second.grown⟩

theorem mono (held : Undisturbed Q w w') (wider : ∀ e, Q e → Q' e) : Undisturbed Q' w w' :=
  ⟨held.alike, held.records, held.grown.imp fun _ grown => ⟨grown.1, fun e member => wider e (grown.2 e member)⟩⟩

theorem quiet (quiet : Quiet w w') : Undisturbed Q w w' := by
  obtain ⟨env, buf, rfl⟩ := quiet
  exact ⟨fun _ => Alike.refl _, fun _ => id, [], rfl, List.forall_mem_nil _⟩

theorem log (fine : Q e) : Undisturbed Q w (w.log e) :=
  ⟨fun _ => Alike.refl _, fun _ => id, [e], rfl, List.forall_mem_singleton.mpr fine⟩

theorem logged (held : Undisturbed Q w w') (fine : Q e) : Undisturbed Q w (w'.log e) := held.trans (log fine)

/-- Only tables that no connection is told from are written. -/
theorem tables (store : PublishHashmap) (retained : Myhashmap UInt16) (env : Env) :
    Undisturbed Q w { w with publishMsgStore := store, retainedSubMsg := retained, env := env } :=
  ⟨fun _ => Alike.refl _, fun _ => id, [], rfl, List.forall_mem_nil _⟩

theorem setSock {f : SockCid → SockCid} (keeps : ∀ sockst, (f sockst).Alike sockst) :
    Undisturbed Q w (w.setSock sock f) := by
  refine ⟨fun other => ?_, fun _ => id, [], rfl, List.forall_mem_nil _⟩
  by_cases here : other = sock
  · subst here
    rw [setSock_socks]
    exact keeps _
  · rw [setSock_other w f here]
    exact Alike.refl _

/-- A client is written and recorded under no socket it was not. -/
theorem setClient {addr : Nat} {f : Client → Client}
    (keeps : ∀ client target, (f client).sock = some target → client.sock = some target) :
    Undisturbed Q w (w.setClient addr f) := by
  refine ⟨fun _ => Alike.refl _, fun target => ?_, [], rfl, List.forall_mem_nil _⟩
  rintro ⟨node, member, at_sock⟩
  rw [nodes_setClient] at member
  obtain ⟨node, inside, rfl⟩ := List.mem_map.mp member
  refine ⟨node, inside, ?_⟩
  unfold written at at_sock
  split at at_sock
  · exact keeps _ _ at_sock
  · exact at_sock

theorem wrote {client : Option Nat} {f : Client → Client} {u : Unit} (ran : Worker.setClient client f w = .ok (u, w'))
    (keeps : ∀ client target, (f client).sock = some target → client.sock = some target) : Undisturbed Q w w' := by
  obtain ⟨addr, -, rfl⟩ := setClient_ok ran
  exact setClient keeps

theorem added (added : ItemAdded w sock item w') : Undisturbed (Event.Shared P) w w' := by
  cases added with
  | reused => exact (log (by exact trivial)).trans (setSock fun _ => ⟨rfl, rfl, rfl, rfl⟩)
  | pushed env =>
    exact (quiet ⟨env, w.buf, rfl⟩).trans ((log (by exact trivial)).trans (setSock fun _ => ⟨rfl, rfl, rfl, rfl⟩))
  | lost env => exact (quiet ⟨env, w.buf, rfl⟩).trans (log (by exact trivial))

end Undisturbed

namespace Local

theorem trans (first : Local own S P w w₁) (second : Local own S P w₁ w₂) : Local own S P w w₂ :=
  Undisturbed.trans first (second.mono fun _ => local_alike (first.alike own))

theorem shared (shared : Undisturbed (Event.Shared P) w w') : Local own S P w w' := shared.mono fun _ => shared_local

end Local

/-! ### The calls -/

theorem local_bind {m : Worker α} {f : α → Worker β} (first : Along (Local own S P) m)
    (rest : ∀ a, Along (Local own S P) (f a)) : Along (Local own S P) (m >>= f) := by
  refine Along.bind ?_ first rest
  exact Local.trans

theorem local_quiet {m : Worker α} (quiet : Along Quiet m) : Along (Local own S P) m :=
  fun w a w' ran => .quiet (quiet w a w' ran)

theorem local_pure (a : α) : Along (Local own S P) (pure a : Worker α) :=
  Along.pure (fun w => Undisturbed.refl w) a

theorem local_get {f : World → Worker β} (rest : ∀ w, Along (Local own S P) (f w)) :
    Along (Local own S P) (get >>= f) := Along.get fun w => rest w w

theorem local_shared {m : Worker α} (shared : Along (Undisturbed (Event.Shared P)) m) : Along (Local own S P) m :=
  shared.mono fun _ _ => Local.shared

theorem local_log (fine : ∀ sockst, e.Local own sockst S P) : Along (Local own S P) (Worker.log e) := by
  intro w u w' ran
  obtain rfl := log_ok.mp ran
  exact .log (fine _)

theorem local_write (bytes : List UInt8) (item : Option PackidStateItem) :
    Along (Local own S P) (connWrite own bytes item) := by
  intro w ok w' ran
  obtain ⟨env, rfl⟩ := connWrite_ok ran
  exact (Undisturbed.quiet ⟨env, w.buf, rfl⟩).trans (.log ⟨rfl, Alike.refl _⟩)

theorem local_setItem (target : Fin 64) (i : Nat) (f : PackidStateItem → PackidStateItem) :
    Along (Local own S P) (modify (·.setItem target i f) : Worker Unit) := by
  intro w u w' ran
  obtain rfl := modify_ok.mp ran
  exact Undisturbed.setSock fun _ => ⟨rfl, rfl, rfl, rfl⟩

theorem shared_bind {m : Worker α} {f : α → Worker β} (first : Along (Undisturbed (Event.Shared P)) m)
    (rest : ∀ a, Along (Undisturbed (Event.Shared P)) (f a)) : Along (Undisturbed (Event.Shared P)) (m >>= f) := by
  refine Along.bind ?_ first rest
  exact Undisturbed.trans

theorem shared_quiet {m : Worker α} (quiet : Along Quiet m) : Along (Undisturbed (Event.Shared P)) m :=
  fun w a w' ran => .quiet (quiet w a w' ran)

theorem shared_pure (a : α) : Along (Undisturbed (Event.Shared P)) (pure a : Worker α) := Along.pure Undisturbed.refl a

theorem shared_log (fine : e.Shared P) : Along (Undisturbed (Event.Shared P)) (Worker.log e) := by
  intro w u w' ran
  obtain rfl := log_ok.mp ran
  exact .log fine

theorem shared_request {msg : Message} (fine : P msg) : Along (Undisturbed (Event.Shared P)) (sendtoque msg) := by
  intro w ok w' ran
  obtain ⟨env, rfl⟩ := sendtoque_ok ran
  exact (Undisturbed.quiet ⟨env, w.buf, rfl⟩).trans (.log fine)

theorem shared_setClient (client : Option Nat) {f : Client → Client}
    (keeps : ∀ client target, (f client).sock = some target → client.sock = some target) :
    Along (Undisturbed (Event.Shared P)) (Worker.setClient client f) := fun _ _ _ ran => .wrote ran keeps

theorem shared_storeAdd (packetId : UInt16) (frame : List UInt8) (qos count : UInt8) :
    Along (Undisturbed (Event.Shared P)) (storeAdd packetId frame qos count) := by
  intro w ok w' ran
  obtain ⟨-, quiet⟩ := storeAdd_ok ran
  exact Undisturbed.trans (.trans (.log (by exact trivial)) (.tables _ w.retainedSubMsg w.env)) (.quiet quiet)

theorem shared_countUp (i : Nat) : Along (Undisturbed (Event.Shared P)) (Worker.countUp i) := by
  intro w u w' ran
  obtain rfl := countUp_ok.mp ran
  exact (Undisturbed.log (by exact trivial)).trans (.tables _ w.retainedSubMsg w.env)

theorem shared_countDown (i : Nat) (packetId : UInt16) :
    Along (Undisturbed (Event.Shared P)) (Worker.countDown i packetId) := by
  intro w u w' ran
  obtain rfl := countDown_ok.mp ran
  exact (Undisturbed.log (by exact trivial)).trans (.tables _ w.retainedSubMsg w.env)

theorem shared_countDownIf (packetId : UInt16) (node : Option Nat) :
    Along (Undisturbed (Event.Shared P)) (countDownIf packetId node) := by
  cases node with
  | none => exact shared_pure _
  | some i => exact shared_countDown i packetId

theorem shared_addPacketId (target : Fin 64) (item : PackidStateItem) :
    Along (Undisturbed (Event.Shared P)) (addPacketId target item) :=
  fun _ _ _ ran => .added (addPacketId_ok ran)

/-! ### Sending -/

/-- Sending a message asks for nothing. -/
theorem local_publish (frame : List UInt8) (qos : UInt8) (packetId : UInt16) (i : Nat) (item : PackidStateItem)
    (deleteRetain : Bool) : Along (Local own S P) (publish frame qos packetId own i item deleteRetain) := by
  unfold publish
  split
  · exact fun _ _ _ ran => absurd ran fault_ok
  · refine local_bind (local_write _ _) fun written => local_bind (local_quiet (quiet_storeGet _)) fun node => ?_
    refine local_bind (fun w u w' ran => ?_) fun _ => ?_
    · obtain rfl := logFailure_ok ran
      split
      · exact .refl w
      · exact .log (by exact trivial)
    split
    · exact local_bind (local_setItem _ _ _) fun _ => local_shared (shared_countDownIf _ _)
    · refine local_bind (local_setItem _ _ _) fun _ => ?_
      split
      · exact local_bind (local_shared (shared_storeAdd _ _ _ _)) fun _ => local_pure _
      · exact local_pure _

theorem local_transmit (i : Nat) (item : PackidStateItem) : Along (Local own S P) (transmit own i item) := by
  have acks (type : UInt8) (sent : PackidStateItem → PackidStateItem) :
      Along (Local own S P) (sendAck own i item type sent) :=
    local_bind (local_write _ _) fun _ => local_setItem _ _ _
  unfold transmit
  cases item.state with
  | sendpuback | sendpubrec | sendpubrel | sendpubcomp => exact acks _ _
  | sendpublish =>
    refine local_bind (local_quiet (quiet_storeGet _)) fun found => ?_
    cases found with
    | none => exact local_pure _
    | some node => exact local_get fun w => local_publish _ _ _ _ _ _
  | _ => exact local_pure _

theorem local_writeLoop (items : List PackidStateItem) (i : Nat) (packetidPtr : Option Nat) (alreadySent : Bool) :
    Along (Local own S P) (writeLoop own i items packetidPtr alreadySent) := by
  induction items generalizing i packetidPtr alreadySent with
  | nil => exact local_pure _
  | cons item rest ih =>
    unfold writeLoop
    dsimp only
    generalize (if PackidStateItem.Pending item then some i else packetidPtr) = packetidPtr
    split
    · exact ih _ _ _
    · split
      · exact local_pure _
      · exact local_bind (local_transmit _ _) fun _ => ih _ _ _

/-! ### Publishing -/

theorem shared_retainMessage (topic frame : List UInt8) (qos : UInt8) (packetid : UInt16) :
    Along (Undisturbed (Event.Shared P)) (retainMessage topic frame qos packetid) := by
  refine shared_bind (shared_log (by exact trivial)) fun _ => shared_bind (shared_storeAdd _ _ _ _) fun ok => ?_
  split
  · refine shared_bind (shared_log (by exact trivial)) fun _ => Along.get fun w => ?_
    refine shared_bind (shared_quiet (quiet_check _)) (fun kept => ?_) w
    cases kept with
    | none =>
      refine shared_bind (shared_quiet (quiet_check _)) fun added => shared_bind (shared_log ?_) fun _ => ?_
      · exact trivial
      intro w u w' ran
      rw [get_bind_ok] at ran
      obtain rfl := set_ok.mp ran
      exact .tables w.publishMsgStore _ _
    | some old =>
      refine shared_bind (shared_quiet (quiet_storeGet old)) fun node => shared_bind (shared_countDownIf _ _) ?_
      intro _ w u w' ran
      obtain rfl := modify_ok.mp ran
      exact .tables w.publishMsgStore _ w.env
  · exact shared_pure _

/-- The loop over the clients asks for the sockets the clients are recorded
under. -/
theorem shared_fanOut {nodes : List (Node Client)}
    (asks : ∀ node ∈ nodes, ∀ target, node.data.sock = some target → ∀ op, P ⟨target, op⟩)
    (topic frame : List UInt8) (qos : UInt8) (packetId : UInt16) (publisher : Option Publisher) (stamp i : Nat) :
    Along (Undisturbed (Event.Shared P)) (fanOut topic frame qos packetId publisher stamp i nodes) := by
  induction nodes with
  | nil => exact shared_pure _
  | cons node rest ih =>
    obtain ⟨here, later⟩ := List.forall_mem_cons.mp asks
    have ih := ih later
    unfold fanOut
    split
    · refine shared_bind (shared_quiet (quiet_check _)) fun granted => ?_
      split
      · exact ih
      · cases at_sock : node.data.sock with
        | none => exact fun _ _ _ ran => absurd ran fault_ok
        | some target =>
          refine shared_bind (shared_request (here target at_sock _)) fun _ => ?_
          refine shared_bind (shared_request (here target at_sock _)) fun asked => ?_
          split
          · refine shared_bind (shared_quiet (quiet_sockAt _)) fun sockst => ?_
            exact shared_bind (shared_addPacketId _ _) fun _ => shared_bind (shared_countUp _) fun _ => ih
          · exact shared_bind (shared_request (here target at_sock _)) fun _ => ih
    · exact ih

/-- `publish_by_topic` asks for the sockets the clients are recorded under. -/
theorem publishByTopic_shared {topic frame : List UInt8} {qos : UInt8} {packetId : UInt16}
    {publisher : Option Publisher} {u : Unit} (ran : publishByTopic topic frame qos packetId publisher w = .ok (u, w'))
    (asks : ∀ target, w.Records target → ∀ op, P ⟨target, op⟩) :
    Undisturbed (Event.Shared P) (w.log (.distributing publisher topic frame qos packetId)) w' := by
  rw [publishByTopic, log_bind_ok, get_bind_ok] at ran
  obtain ⟨ok, w₁, added, ran⟩ := bind_ok.mp ran
  have first := shared_storeAdd (P := P) _ _ _ _ _ _ _ added
  refine first.trans ?_
  rw [storeGet_bind_ok] at ran
  cases found : w₁.publishMsgStore.get packetId with
  | none =>
    rw [found] at ran
    rw [(pure_ok.mp ran).2]
    exact .refl w₁
  | some i =>
    rw [found] at ran
    obtain ⟨⟨⟩, w₂, fanned, ran⟩ := bind_ok.mp (log_bind_ok.mp (get_bind_ok.mp ran))
    have offers : ∀ node ∈ w₁.clientStore.nodes, ∀ target, node.data.sock = some target → ∀ op, P ⟨target, op⟩ :=
      fun node member target at_target => asks target (first.records target ⟨node, member, at_target⟩)
    have offered := shared_fanOut offers _ _ _ _ _ _ _ _ _ _ fanned
    exact .trans (.trans (.log (by exact trivial)) offered) (shared_countDown i packetId _ _ _ ran)

/-! ### Requests for the socket itself -/

section Own
variable (asks : ∀ msg, OwnRequest own msg → P msg)
include asks

theorem local_ask {op : Operation} (kind : op = .read ∨ op = .write) :
    Along (Local own S P) (sendtoque ⟨own, op⟩) := local_shared (shared_request (asks _ ⟨rfl, kind⟩))

theorem local_answer (bytes : List UInt8) :
    Along (Local own S P) (do
      let _ ← connWrite own bytes none
      let _ ← sendtoque ⟨own, .read⟩) :=
  local_bind (local_write _ _) fun _ => local_bind (local_ask asks (.inl rfl)) fun _ => local_pure _

theorem local_reply (qos : UInt8) (packetid : UInt16) (frame topic : List UInt8) :
    Along (Local own S P) (replyToPublisher own qos packetid frame topic) := by
  have acks (state : PacketState) : Along (Local own S P) (queueAck own state packetid qos frame topic) := by
    refine local_bind (local_ask asks (.inr rfl)) fun ok => ?_
    split
    · exact local_bind (local_quiet (quiet_sockAt _)) fun _ => local_shared (shared_addPacketId _ _)
    · exact local_pure _
  unfold replyToPublisher
  split
  · exact acks _
  split
  · exact acks _
  · exact local_bind (local_ask asks (.inl rfl)) fun _ => local_pure _

section Served
variable (serves : S)
include serves

theorem local_sendRetained (topic : Key) (reqQos : UInt8) : Along (Local own S P) (sendRetained own topic reqQos) := by
  have seeks (found : Option NodePubmap) (requested : Bool) :
      Along (Local own S P) (Worker.log (.sought own topic found requested)) := local_log fun _ => ⟨serves, rfl⟩
  unfold sendRetained
  refine local_get fun w => local_bind (local_quiet (quiet_check _)) fun retained => ?_
  cases retained with
  | none => exact seeks _ _
  | some packetId =>
    refine local_bind (local_quiet (quiet_storeGet _)) fun found => ?_
    cases found with
    | none => exact seeks _ _
    | some i =>
      refine local_get fun w => local_bind (local_ask asks (.inr rfl)) fun ok => ?_
      split
      · refine local_bind (local_quiet (quiet_sockAt _)) fun sockst => ?_
        refine local_bind (local_shared (shared_addPacketId _ _)) fun _ => ?_
        exact local_bind (local_shared (shared_countUp _)) fun _ => seeks _ _
      · exact seeks _ _

theorem local_subscribeTopic (topic : Key) (reqQos : UInt8) (suback : Myvector UInt8) :
    Along (Local own S P) (subscribeTopic own topic reqQos suback) := by
  intro w a w' ran
  rw [subscribeTopic, sockAt_bind_ok] at ran
  obtain ⟨addr, client, -, -, ran⟩ := deref_bind_ok ran
  rw [get_bind_ok] at ran
  obtain ⟨result, -, ran⟩ := check_bind_ok ran
  rw [onHeap_bind_ok] at ran
  obtain ⟨⟨⟩, w₁, wrote, ran⟩ := bind_ok.mp ran
  obtain ⟨_, -, rfl⟩ := setClient_ok wrote
  rw [log_bind_ok] at ran
  have later : Local own S P _ w' := local_bind (local_quiet (quiet_onHeap _)) (fun suback =>
    local_bind (local_sendRetained asks serves _ _) fun _ => local_pure _) _ _ _ ran
  refine Local.trans (.trans (.quiet ⟨_, w.buf, rfl⟩) (.setClient fun _ _ => ?_)) (Local.trans (.log ?_) later)
  · exact id
  · exact ⟨serves, rfl⟩

theorem local_subscribeLoop (turns curPos : Nat) (packetLength : UInt16) (suback : Myvector UInt8) :
    Along (Local own S P) (subscribeLoop own turns curPos packetLength suback) := by
  induction turns generalizing curPos packetLength suback with
  | zero => exact fun _ _ _ ran => absurd ran fault_ok
  | succ turns ih =>
    unfold subscribeLoop
    split
    · exact local_pure _
    refine local_bind (local_quiet (quiet_ntohsAt _)) fun topicLen => ?_
    refine local_bind (local_quiet (quiet_rangeAt _ _)) fun topic => ?_
    refine local_bind (local_quiet (quiet_byteAt _)) fun reqQos => ?_
    exact local_bind (local_subscribeTopic asks serves _ _ _) fun suback => ih _ _ _

end Served
end Own

/-! ### UNSUBSCRIBE and the acknowledgements -/

section Served
variable (serves : S)
include serves

theorem local_unsubscribeTopic (topic : Key) : Along (Local own S P) (unsubscribeTopic own topic) := by
  intro w u w' ran
  rw [unsubscribeTopic, sockAt_bind_ok] at ran
  obtain ⟨addr, client, -, -, ran⟩ := deref_bind_ok ran
  obtain ⟨left, -, ran⟩ := check_bind_ok ran
  obtain ⟨⟨⟩, w₁, wrote, ran⟩ := bind_ok.mp ran
  obtain ⟨_, -, rfl⟩ := setClient_ok wrote
  obtain rfl := log_ok.mp ran
  refine Local.trans (Undisturbed.setClient ?_) (Undisturbed.log ?_)
  · exact fun _ _ => id
  · exact ⟨serves, rfl⟩

theorem local_unsubscribeLoop (turns curPos : Nat) (packetLength : UInt16) :
    Along (Local own S P) (unsubscribeLoop own turns curPos packetLength) := by
  induction turns generalizing curPos packetLength with
  | zero => exact fun _ _ _ ran => absurd ran fault_ok
  | succ turns ih =>
    unfold unsubscribeLoop
    split
    · exact local_pure _
    refine local_bind (local_quiet (quiet_ntohsAt _)) fun topicLen => ?_
    refine local_bind (local_quiet (quiet_rangeAt _ _)) fun topic => ?_
    exact local_bind (local_unsubscribeTopic serves _) fun _ => ih _ _

theorem local_findItem (awaited : PacketState) : Along (Local own S P) (findItem own awaited) := by
  refine local_bind (local_quiet (quiet_packetIdAt _)) fun pubidCheck => ?_
  intro w found w' ran
  rw [get_bind_ok] at ran
  cases search : (w.items own).zipIdx.find? fun entry =>
      entry.1.packetId = pubidCheck ∧ entry.1.state = awaited with
  | none =>
    rw [search] at ran
    obtain ⟨-, rfl⟩ := pure_ok.mp ran
    exact .refl _
  | some entry =>
    rw [search] at ran
    dsimp only at ran
    rw [log_bind_ok] at ran
    obtain ⟨-, rfl⟩ := pure_ok.mp ran
    exact .log ⟨serves, rfl, rfl⟩

end Served

/-! ### CONNECT -/

/-- A run of `connect_mqtt`: it refuses and disturbs nothing, or it enters a
client id and only reads on. -/
def Names (own : Fin 64) (serves : Prop) (P : Message → Prop) (m : Worker (MqttConnReturn × Will)) : Prop :=
  ∀ w ret w', m w = .ok (ret, w') →
    ret.1 = .disconnect ∧ Local own serves P w w' ∨
      ∃ clientid w₁, clientid ≠ [] ∧ Quiet w w₁ ∧ w' = w₁.setSock own ({ · with clientid := clientid })

theorem names_quiet {m : Worker α} {f : α → Worker (MqttConnReturn × Will)} (first : Along Quiet m)
    (rest : ∀ a, Names own S P (f a)) : Names own S P (m >>= f) := by
  intro w ret w' ran
  obtain ⟨a, mid, read, ran⟩ := bind_ok.mp ran
  have quiet := first _ _ _ read
  rcases rest a _ _ _ ran with ⟨refused, kept⟩ | ⟨clientid, w₁, named, quiet₁, rfl⟩
  · exact .inl ⟨refused, Local.trans (.quiet quiet) kept⟩
  · exact .inr ⟨clientid, w₁, named, quiet.trans quiet₁, rfl⟩

theorem names_disconnect : Names own S P (pure (.disconnect, {})) := by
  intro w ret w' ran
  obtain ⟨rfl, rfl⟩ := pure_ok.mp ran
  exact .inl ⟨rfl, .refl _⟩

theorem connectMqtt_names (own : Fin 64) (curPos : Nat) : Names own S P (connectMqtt own curPos) := by
  refine names_quiet (quiet_byteAt _) fun _ => ?_
  dsimp only
  split
  · exact names_disconnect
  refine names_quiet (quiet_ntohsAt _) fun _ => ?_
  split
  · exact names_disconnect
  refine names_quiet (quiet_matchesAt _ _) fun _ => ?_
  split
  · exact names_disconnect
  refine names_quiet (quiet_byteAt _) fun _ => ?_
  split
  · intro w ret w' ran
    obtain ⟨_, w₁, answered, ran⟩ := bind_ok.mp ran
    obtain ⟨rfl, rfl⟩ := pure_ok.mp ran
    have answers : Along (Local own S P) (connAck own 0x01 true) :=
      local_bind (local_write _ _) fun _ => local_pure _
    exact .inl ⟨rfl, answers _ _ _ answered⟩
  refine names_quiet (quiet_byteAt _) fun _ => ?_
  split
  · exact names_disconnect
  split
  · exact names_disconnect
  refine names_quiet (quiet_ntohsAt _) fun _ => ?_
  refine names_quiet (quiet_ntohsAt _) fun clientidLen => ?_
  split
  · exact names_disconnect
  rename_i fits
  intro w ret w' ran
  obtain ⟨clientid, w₁, read, ran⟩ := bind_ok.mp ran
  rw [setSock_bind_ok] at ran
  have length := rangeAt_length read
  obtain ⟨env, buf, rfl⟩ := quiet_readOptions _ _ _ _ _ _ ran
  obtain ⟨env₁, buf₁, rfl⟩ := quiet_rangeAt _ _ _ _ _ read
  refine .inr ⟨clientid, { w with env := env, buf := buf }, ?_, ⟨env, buf, rfl⟩, rfl⟩
  rintro rfl
  exact fits (.inl (UInt16.lt_iff_toNat_lt.mpr (by simp only [List.length_nil] at length; simp [← length])))

end Branches
end MqttBroker
