import MqttBroker.Worker.Admission
import MqttBroker.Worker.Rules

/-! What one message leaves alone: the other sockets. Nothing that waits on them
is changed, nothing is read from or written to them, and at most one of them
loses its connection, to a CONNECT with its client id. -/
namespace MqttBroker
open Logic Worker World Conclusion Branches Outcomes

/-- What is read, written or answered on a socket is so on this one. -/
def Event.On (own : Fin 64) : Event → Prop
  | .wrote sock .. | .started sock _ | .received sock .. | .connecting sock .. | .dropping sock .. | .ended sock ..
  | .publishing sock .. | .acked sock .. | .sought sock .. => sock = own
  | _ => True

namespace Bystanders

/-- Every other socket keeps its live items where they are, and comes to no
others than messages to send. -/
structure Spares (own : Fin 64) (w w' : World) : Prop where
  kept : ∀ sock, sock ≠ own → ∀ (i : Nat) (item : PackidStateItem), (w.items sock)[i]? = some item →
    item.packetId ≠ 0 → (w'.items sock)[i]? = some item
  fresh : ∀ sock, sock ≠ own → ∀ (i : Nat) (item : PackidStateItem), (w'.items sock)[i]? = some item →
    item.packetId ≠ 0 → (w.items sock)[i]? = some item ∨ item.state = .sendpublish

variable {w w₁ w' : World} {own sock : Fin 64} {item : PackidStateItem} {e : Event} {α β : Type}
  {good : Fin 64 → Prop} {P : Message → Prop} {events : List Event} {sockst : SockCid} {S : Prop}

/-! ### The items -/

theorem spares_same (same : w'.items = w.items) : Spares own w w' :=
  ⟨fun _ _ _ _ at_i _ => same ▸ at_i, fun _ _ _ _ at_i _ => .inl (same ▸ at_i)⟩

theorem Spares.trans (first : Spares own w w₁) (second : Spares own w₁ w') : Spares own w w' := by
  refine ⟨fun sock other i item at_i used => ?_, fun sock other i item at_i used => ?_⟩
  · exact second.kept sock other i item (first.kept sock other i item at_i used) used
  · rcases second.fresh sock other i item at_i used with before | sends
    · exact first.fresh sock other i item before used
    · exact .inr sends

theorem spares_setItem (i : Nat) (f : PackidStateItem → PackidStateItem) : Spares own w (w.setItem own i f) := by
  have same {sock : Fin 64} (other : sock ≠ own) : (w.setItem own i f).items sock = w.items sock :=
    items_setItem_other other
  refine ⟨fun sock other i item at_i _ => ?_, fun sock other i item at_i _ => ?_⟩
  · rw [same other]
    exact at_i
  · rw [same other] at at_i
    exact .inl at_i

/-- An item is put where there was none. -/
theorem kept_added (added : ItemAdded w sock item w') (other : Fin 64) (k : Nat) (x : PackidStateItem)
    (at_k : (w.items other)[k]? = some x) (used : x.packetId ≠ 0) : (w'.items other)[k]? = some x := by
  cases added with
  | @reused i old at_i free =>
    have set : ((w.setItem sock i fun _ => item).items other)[k]? = some x := by
      by_cases here : other = sock
      · subst here
        have apart : k ≠ i := by
          rintro rfl
          rw [at_i] at at_k
          cases at_k
          exact used free
        rw [items_setItem, List.getElem?_modify_ne _ _ apart.symm]
        exact at_k
      · rw [items_setItem_other here]
        exact at_k
    exact set
  | pushed env capacity =>
    by_cases here : other = sock
    · subst here
      obtain ⟨inside, -⟩ := List.getElem?_eq_some_iff.mp at_k
      simp only [items, setSock_socks]
      exact (List.getElem?_append_left inside).trans at_k
    · simp only [items, setSock_other _ _ here]
      exact at_k
  | lost env => exact at_k

theorem spares_added (added : ItemAdded w sock item w') (sends : sock = own ∨ item.state = .sendpublish) :
    Spares own w w' := by
  refine ⟨fun other _ => kept_added added other, fun other apart k x at_k _ => ?_⟩
  rcases at_added added with ⟨-, same⟩ | ⟨j, -, came⟩
  · exact .inl (same ▸ at_k)
  · rcases came other k x at_k with before | ⟨rfl, -, rfl⟩
    · exact .inl before
    · exact .inr (sends.resolve_left apart)

theorem spares_bind {m : Worker α} {f : α → Worker β} (first : Along (Spares own) m)
    (rest : ∀ a, Along (Spares own) (f a)) : Along (Spares own) (m >>= f) := by
  refine Along.bind ?_ first rest
  exact Spares.trans

theorem spares_quiet {m : Worker α} (quiet : Along Quiet m) : Along (Spares own) m := by
  intro w a w' ran
  obtain ⟨env, buf, rfl⟩ := quiet w a w' ran
  exact spares_same rfl

theorem spares_log (e : Event) : Along (Spares own) (Worker.log e) := by
  intro w u w' ran
  obtain rfl := log_ok.mp ran
  exact spares_same rfl

theorem spares_write (target : Fin 64) (bytes : List UInt8) (item : Option PackidStateItem) :
    Along (Spares own) (connWrite target bytes item) := by
  intro w ok w' ran
  obtain ⟨env, rfl⟩ := connWrite_ok ran
  exact spares_same rfl

theorem spares_set (i : Nat) (f : PackidStateItem → PackidStateItem) :
    Along (Spares own) (modify (·.setItem own i f) : Worker Unit) := by
  intro w u w' ran
  obtain rfl := modify_ok.mp ran
  exact spares_setItem i f

theorem spares_addPacketId (target : Fin 64) (sends : target = own ∨ item.state = .sendpublish) :
    Along (Spares own) (addPacketId target item) := fun _ _ _ ran => spares_added (addPacketId_ok ran) sends

theorem sparesRules (own : Fin 64) : ReadRules fun {α : Type} (m : Worker α) => Along (Spares own) m where
  done a := Along.pure (fun _ => spares_same rfl) a
  bind := spares_bind
  fault _ := fun _ => ensures_throw
  look rest _ := Along.get fun w => rest w w
  table tabular := by
    intro w u w' ran
    obtain rfl := modify_ok.mp ran
    refine spares_same ?_
    funext sock
    rw [World.items, tabular.socks w, World.items]
  setSock sock f same := by
    intro w u w' ran
    obtain rfl := setSock_ok.mp ran
    refine spares_same ?_
    funext other
    by_cases here : other = sock
    · subst here
      rw [World.items, setSock_socks, same, World.items]
    · rw [World.items, setSock_other _ _ here, World.items]
  onHeap call := spares_quiet (quiet_onHeap call)
  random := spares_quiet quiet_random
  request msg := by
    intro w ok w' ran
    obtain ⟨env, rfl⟩ := sendtoque_ok ran
    exact spares_same rfl
  write sock head rest _ := spares_write sock (head :: rest) none
  log _ := spares_log _
  enqueue sock item sends := spares_addPacketId sock (.inr sends)
  byteAt pos := spares_quiet (quiet_byteAt pos)
  rangeAt pos len := spares_quiet (quiet_rangeAt pos len)

/-! ### The branches that change items of their own socket -/

theorem spares_dropConn (sock : Fin 64) (sendwill : Bool) : Along (Spares own) (dropConn sock sendwill) :=
  ruled_dropConn (sparesRules own).toRules (fun _ _ _ _ _ => spares_log _) sock sendwill

theorem spares_publish (frame : List UInt8) (qos : UInt8) (packetId : UInt16) (i : Nat) (item : PackidStateItem)
    (deleteRetain : Bool) : Along (Spares own) (publish frame qos packetId own i item deleteRetain) := by
  have rules := (sparesRules own).toRules
  unfold publish
  split
  · exact rules.fault _
  · refine spares_bind (spares_write _ _ _) fun written => spares_bind (ruled_storeGet rules _) fun node => ?_
    refine spares_bind (fun w u w' ran => ?_) fun _ => ?_
    · obtain rfl := logFailure_ok ran
      split <;> exact spares_same rfl
    split
    · exact spares_bind (spares_set _ _) fun _ => ruled_countDownIf rules _ _
    · refine spares_bind (spares_set _ _) fun _ => ?_
      split
      · exact spares_bind (ruled_storeAdd rules _ _ _ _) fun _ => rules.done _
      · exact rules.done _

theorem spares_transmit (i : Nat) (item : PackidStateItem) : Along (Spares own) (transmit own i item) := by
  have rules := (sparesRules own).toRules
  have acks (type : UInt8) (sent : PackidStateItem → PackidStateItem) :
      Along (Spares own) (sendAck own i item type sent) :=
    spares_bind (spares_write _ _ _) fun _ => spares_set _ _
  unfold transmit
  cases item.state with
  | sendpuback | sendpubrec | sendpubrel | sendpubcomp => exact acks _ _
  | sendpublish =>
    refine spares_bind (ruled_storeGet rules _) fun found => ?_
    cases found with
    | none => exact rules.done _
    | some node => exact Along.get fun w => spares_publish _ _ _ _ _ _ w
  | _ => exact rules.done _

theorem spares_writeLoop (items : List PackidStateItem) (i : Nat) (packetidPtr : Option Nat) (alreadySent : Bool) :
    Along (Spares own) (writeLoop own i items packetidPtr alreadySent) := by
  have rules := (sparesRules own).toRules
  induction items generalizing i packetidPtr alreadySent with
  | nil => exact rules.done _
  | cons item rest ih =>
    unfold writeLoop
    dsimp only
    generalize (if PackidStateItem.Pending item then some i else packetidPtr) = packetidPtr
    split
    · exact ih _ _ _
    · split
      · exact rules.done _
      · exact spares_bind (spares_transmit _ _) fun _ => ih _ _ _

theorem spares_reply (qos : UInt8) (packetid : UInt16) (frame topic : List UInt8) :
    Along (Spares own) (replyToPublisher own qos packetid frame topic) := by
  have rules := (sparesRules own).toRules
  have acks (state : PacketState) : Along (Spares own) (queueAck own state packetid qos frame topic) := by
    refine spares_bind (rules.request _) fun ok => ?_
    split
    · exact spares_bind (ruled_sockAt rules _) fun _ => spares_addPacketId _ (.inl rfl)
    · exact rules.done _
  unfold replyToPublisher
  split
  · exact acks _
  split
  · exact acks _
  · exact spares_bind (rules.request _) fun _ => rules.done _

theorem spares_findItem (awaited : PacketState) : Along (Spares own) (findItem own awaited) := by
  have rules := (sparesRules own).toRules
  refine spares_bind (spares_quiet (quiet_packetIdAt _)) fun pubidCheck => Along.get fun w => ?_
  dsimp only
  split
  · exact spares_bind (spares_log _) (fun _ => rules.done _) w
  · exact rules.done _ w

theorem spares_settle (header : Header) (awaited : PacketState) (settled : PackidStateItem → PackidStateItem)
    (op : Operation) : Along (Spares own) (settle own header awaited settled op) := by
  have rules := (sparesRules own).toRules
  refine spares_bind (spares_findItem _) fun found => ?_
  obtain ⟨pubidCheck, found⟩ := found
  cases found with
  | none => exact spares_dropConn _ _
  | some entry =>
    refine spares_bind (ruled_storeGet rules _) fun msgInfo => ?_
    refine spares_bind (spares_quiet (quiet_wrongLength _)) fun wrong => ?_
    split
    · cases msgInfo with
      | none => exact spares_dropConn _ _
      | some node => exact Along.get fun w => spares_bind (spares_log _) (fun _ => spares_publish _ _ _ _ _ _) w
    · refine spares_bind (ruled_countDownIf rules _ _) fun _ => spares_bind (spares_set _ _) fun _ => ?_
      exact spares_bind (rules.request _) fun _ => rules.done _

theorem spares_advance (header : Header) (awaited : PacketState) (advanced : PackidStateItem → PackidStateItem)
    (op : Operation) : Along (Spares own) (advance own header awaited advanced op) := by
  have rules := (sparesRules own).toRules
  refine spares_bind (spares_quiet (quiet_wrongLength _)) fun wrong => ?_
  split
  · exact spares_dropConn _ _
  refine spares_bind (spares_findItem _) fun found => ?_
  obtain ⟨pubidCheck, found⟩ := found
  cases found with
  | none => exact spares_dropConn _ _
  | some entry => exact spares_bind (spares_set _ _) fun _ => spares_bind (rules.request _) fun _ => rules.done _

theorem spares_publishEvent (header : Header) : Along (Spares own) (publishEvent own header) := by
  have reads := sparesRules own
  refine spares_bind (reads.byteAt _) fun head => ?_
  cases publishQos head with
  | none => exact spares_dropConn _ _
  | some qos =>
    refine spares_bind (ruled_ntohsAt reads _) fun topicLen => spares_bind (reads.rangeAt _ _) fun topic => ?_
    refine spares_bind ?_ fun packetid => spares_bind (reads.rangeAt _ _) fun frame => ?_
    · split
      · exact ruled_packetIdAt reads _
      · exact reads.random
    refine spares_bind (ruled_sockAt reads.toRules _) fun sockst => spares_bind (spares_log _) fun _ => ?_
    refine spares_bind ?_ fun _ => spares_bind (spares_reply _ _ _ _) fun _ => ?_
    · split
      · exact ruled_retainMessage reads.toRules _ _ _ _
      · exact reads.done _
    · exact ruled_publishByTopic reads.toRules _ _ _ _ _

theorem spares_subscribeEvent (header : Header) : Along (Spares own) (subscribeEvent own header) := by
  have reads := sparesRules own
  refine spares_bind (reads.byteAt _) fun head => ?_
  split
  · exact spares_dropConn _ _
  refine spares_bind (reads.onHeap _) fun suback => ?_
  split
  · exact spares_dropConn _ _
  refine spares_bind (reads.byteAt _) fun msb => spares_bind (reads.byteAt _) fun lsb => ?_
  refine spares_bind (ruled_subscribeLoop reads _ _ _ _ _) fun suback => ?_
  refine spares_bind (ruled_subackLength reads.toRules _ _ _ _ _) fun measured => ?_
  cases measured with
  | none => exact spares_dropConn _ _
  | some suback =>
    exact spares_bind (spares_write _ _ _) fun _ => spares_bind (reads.request _) fun _ => reads.done _

theorem spares_unsubscribeEvent (header : Header) : Along (Spares own) (unsubscribeEvent own header) := by
  have reads := sparesRules own
  refine spares_bind (reads.byteAt _) fun head => spares_bind ?_ fun _ => ?_
  · split
    · exact spares_dropConn _ _
    · exact reads.done _
  refine spares_bind (reads.byteAt _) fun msb => spares_bind (reads.byteAt _) fun _ => ?_
  refine spares_bind (ruled_unsubscribeLoop reads _ _ _ _) fun _ => ?_
  refine spares_bind (spares_quiet quiet_stackByte) fun byte => spares_bind (spares_write _ _ _) fun _ => ?_
  exact spares_bind (reads.request _) fun _ => reads.done _

theorem spares_dispatch (header : Header) : Along (Spares own) (dispatch own header) := by
  have reads := sparesRules own
  refine spares_bind (reads.byteAt _) fun head => ?_
  repeat' split
  · exact spares_publishEvent _
  · exact spares_settle _ _ _ _
  · exact spares_settle _ _ _ _
  · exact spares_advance _ _ _ _
  · exact spares_advance _ _ _ _
  · exact spares_subscribeEvent _
  · exact spares_unsubscribeEvent _
  · exact ruled_pingEvent reads.toRules _
  · exact ruled_disconnectEvent reads.toRules spares_dropConn _
  · exact reads.done _

theorem spares_mqttPhase (msg : Message) : Along (Spares msg.socket) (mqttPhase msg) := by
  have reads := sparesRules msg.socket
  unfold mqttPhase
  cases msg.op with
  | read =>
    refine spares_bind (spares_quiet quiet_readPacket) fun packet => ?_
    cases packet with
    | none => exact spares_dropConn _ _
    | some header =>
      refine Along.get fun w => spares_bind (spares_log _) (fun _ => ?_) w
      split
      · exact ruled_connectEvent reads spares_dropConn _ _
      · exact spares_dispatch _
  | write =>
    refine Along.get fun w => spares_bind (spares_writeLoop _ _ _ _) (fun more => ?_) w
    exact spares_bind (reads.request _) fun _ => reads.done _
  | delread | delall => exact reads.done _

theorem spares_awaitHandshake (sock : Fin 64) (first : Bool) (op : Operation) :
    Along (Spares own) (awaitHandshake sock first op) := by
  have reads := sparesRules own
  refine spares_bind (reads.request _) fun _ => ?_
  split
  · exact reads.setSock _ fun _ => rfl
  · exact reads.done _

theorem spares_handshakeEvent (msg : Message) (first : Bool) :
    Along (Spares msg.socket) (handshakeEvent msg first) := by
  have reads := sparesRules msg.socket
  refine spares_bind (spares_quiet quiet_handshake) fun code => ?_
  split
  · exact spares_dropConn _ _
  split
  · refine spares_bind (reads.setSock _ fun _ => rfl) fun _ => ?_
    exact spares_bind (reads.request _) fun _ => reads.done _
  split
  · exact spares_awaitHandshake _ _ _
  split
  · exact spares_awaitHandshake _ _ _
  · exact spares_mqttPhase msg

theorem spares_handle (msg : Message) : Along (Spares msg.socket) (handle msg) := by
  have reads := sparesRules msg.socket
  refine spares_bind (ruled_sockAt reads.toRules _) fun sockst => ?_
  cases sockst.phs with
  | uninit =>
    refine spares_bind (reads.onHeap _) fun allocated => ?_
    split
    · refine spares_bind (Along.get fun w => ?_) fun _ => spares_handshakeEvent msg true
      refine spares_bind (spares_log _) (fun _ => ?_) w
      refine spares_bind (reads.setSock msg.socket (f := ({ · with tls := w.nextTls })) fun _ => rfl) fun _ => ?_
      exact reads.table ⟨fun _ => rfl, fun _ => rfl, fun _ _ => rfl⟩
    · exact spares_log _
  | tlsHandshake => exact spares_handshakeEvent msg false
  | mqtt => exact spares_mqttPhase msg

/-! ### The events and the connections -/

theorem reported_on (reported : e.Reported own P) : e.On own := by
  cases e <;> first | exact reported | exact trivial

/-- The other sockets keep their connections, but for one that may be evicted by
a CONNECT with the client id of a client that was recorded under it. -/
def Keeps (own : Fin 64) (w w' : World) : Prop :=
  (∃ events, w'.trace = events ++ w.trace ∧ ∀ e ∈ events, e.On own) ∧
    ∃ evicted : Option (Fin 64),
      (∀ sock, sock ≠ own → evicted ≠ some sock → (w'.socks sock).Alike (w.socks sock)) ∧
      ∀ prevSock, evicted = some prevSock → w.Records prevSock ∧ (w.socks own).clientid = [] ∧
        (w'.socks own).clientid ≠ []

theorem handled_keeps (handled : Handled own P w w') : Keeps own w w' := by
  obtain ⟨events, grown, reported⟩ := handled.reports
  refine ⟨⟨events, grown, fun e member => reported_on (reported e member)⟩, ?_⟩
  cases handled with
  | refused fresh quiet =>
    obtain ⟨env, buf, rfl⟩ := quiet
    exact ⟨none, fun _ _ _ => Alike.refl _, nofun⟩
  | failed fresh dropped =>
    refine ⟨none, fun sock other _ => ?_, nofun⟩
    exact begun_other (w := w) other ▸ dropped.others sock other
  | secured fresh kept =>
    refine ⟨none, fun sock other _ => ?_, nofun⟩
    have alike := kept.alike sock
    rwa [setSock_other _ _ other, begun_other other] at alike
  | met settled turned =>
    rcases turned with kept | dropped | ⟨evicted, connected⟩
    · exact ⟨none, fun sock _ _ => kept.alike sock, nofun⟩
    · exact ⟨none, fun sock other _ => dropped.others sock other, nofun⟩
    · exact ⟨evicted, connected.others, fun prevSock here =>
        ⟨(connected.free prevSock here).1, connected.unnamed, connected.named⟩⟩

/-- A message changes nothing that waits on other sockets, reads and writes on its
own socket only, and leaves the other connections as they are, but for one that
an accepted CONNECT may evict. -/
theorem others_left_alone (reached : w.PromptlyReached) {msg : Message} {env : Env} (prompt : env.Prompt)
    (ran : handle msg { w with env := env } = .ok ((), w')) :
    Spares msg.socket w w' ∧ Keeps msg.socket w w' := by
  have tended := Admission.tended_reached reached
  have linked := Admission.linked_reachable (Admission.PromptlyReached.reachable reached)
  have asks : Asks msg.socket (fun _ => True) { w with env := env } := ⟨fun _ => trivial, fun _ _ _ => trivial⟩
  have handled := handle_handled asks linked.sound (tended.fits msg.socket).settled prompt ran
  have spares : Spares msg.socket { w with env := env } w' := spares_handle msg _ _ _ ran
  have keeps : Keeps msg.socket { w with env := env } w' := handled_keeps handled
  exact ⟨⟨spares.kept, spares.fresh⟩, keeps⟩

/-- What a last message shows is shown after it. -/
theorem shown_last {last : Message × Env} {shows : World → Bool}
    (shown : (w.run [last]).toOption.any shows = true) :
    ∃ w', handle last.1 { w with env := last.2 } = .ok ((), w') ∧ shows w' = true := by
  obtain ⟨msg, env⟩ := last
  unfold World.run at shown
  cases ran : handle msg { w with env := env } with
  | error fault =>
    rw [ran] at shown
    cases shown
  | ok result =>
    rw [ran] at shown
    exact ⟨result.2, rfl, shown⟩

/-- Two clients connect on two of three sockets. -/
def meeting : List (Message × Env) :=
  [accepting 1, accepting 2, accepting 3, reading 1 (connectPacket [97] 2), reading 3 (connectPacket [98] 2)]

/-- The one client connects again, on the third socket. -/
def returning : Message × Env := reading 2 (connectPacket [97] 2)

/-- It is served there then. -/
example : ((World.initial .clean).run (meeting ++ [returning])).toOption.any
    (fun w => decide ((w.socks 2).clientid = [97])) = true := by decide +kernel

theorem others_evicted : ∃ w w' : World, w.PromptlyReached ∧ (w.socks 1).clientid = [97] ∧
    (w'.socks 1).clientid = [] ∧ (w'.socks 3).clientid = [98] ∧ Spares 2 w w' ∧ Keeps 2 w w' := by
  obtain ⟨w, reached, shown⟩ := Admission.reached_promptly .clean meeting (by decide)
    (fun w => decide ((w.socks 1).clientid = [97]) && (w.run [returning]).toOption.any fun w' : World =>
      decide ((w'.socks 1).clientid = []) && decide ((w'.socks 3).clientid = [98])) (by decide +kernel)
  simp only [Bool.and_eq_true, decide_eq_true_eq] at shown
  obtain ⟨before, shown⟩ := shown
  obtain ⟨w', ran, shown⟩ := shown_last shown
  simp only [Bool.and_eq_true, decide_eq_true_eq] at shown
  exact ⟨w, w', reached, before, shown.1, shown.2, others_left_alone reached (by decide) ran⟩

end Bystanders
end MqttBroker
