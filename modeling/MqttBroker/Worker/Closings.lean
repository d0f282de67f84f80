import Mathlib.Data.Fintype.Basic
import MqttBroker.Worker.Conclusion

/-! The connections that one event sets up and closes. It sets up the one of its
own socket, before anything else, and closes one connection at most: its own, or
the one of a socket that a takeover evicts. -/
namespace MqttBroker.Closings
open Logic Worker World Conclusion

/-- Only open sockets have a connection set up and closed, for events oldest
first: those in `opened` are open at first, and so is every socket that a
takeover evicts. -/
def Careful : Finset (Fin 64) → List Event → Prop
  | _, [] => True
  | opened, .closed sock :: later => sock ∈ opened ∧ Careful (opened.erase sock) later
  | opened, .started sock _ :: later => sock ∈ opened ∧ Careful opened later
  | opened, .evicting prevSock _ _ _ :: later => Careful (insert prevSock opened) later
  | opened, _ :: later => Careful opened later

variable {opened opened' : Finset (Fin 64)} {events early later : List Event} {prevSock sock : Fin 64}
  {w w₁ w' : World} {α β : Type}

/-- More open sockets do no harm. -/
theorem Careful.mono (careful : Careful opened events) (wider : opened ⊆ opened') : Careful opened' events := by
  fun_induction Careful opened events generalizing opened' with
  | case1 => trivial
  | case2 opened sock later ih =>
    exact ⟨wider careful.1, ih careful.2 (Finset.erase_subset_erase sock wider)⟩
  | case3 opened sock items later ih => exact ⟨wider careful.1, ih careful.2 wider⟩
  | case4 opened prevSock victim clientid client later ih =>
    exact ih careful (Finset.insert_subset_insert prevSock wider)
  | case5 opened e later closed started evicting ih =>
    rw [Careful]
    · exact ih careful wider
    all_goals assumption

/-- What opens and closes nothing does no harm. -/
theorem Careful.preceded (careful : Careful opened later) (still : ∀ e ∈ early, Still e) :
    Careful opened (early ++ later) := by
  induction early generalizing opened with
  | nil => exact careful
  | cons e early ih =>
    obtain ⟨here, rest⟩ := List.forall_mem_cons.mp still
    cases e with
    | closed | started => exact here.elim
    | evicting prevSock => exact ih (careful.mono (Finset.subset_insert prevSock opened)) rest
    | _ => exact ih careful rest

/-- The socket is named by a takeover. -/
def Evicted (sock : Fin 64) (events : List Event) : Prop :=
  ∃ victim clientid client, .evicting sock victim clientid client ∈ events

/-- An open socket is closed, or an evicted one. -/
theorem careful_closed (still : ∀ e ∈ early, Still e) (still' : ∀ e ∈ later, Still e)
    (named : sock ∈ opened ∨ Evicted sock early) : Careful opened (early ++ .closed sock :: later) := by
  induction early generalizing opened with
  | nil =>
    have inside : sock ∈ opened := named.resolve_right fun ⟨_, _, _, member⟩ => nomatch member
    have careful : Careful (opened.erase sock) (later ++ []) := Careful.preceded trivial still'
    rw [List.append_nil] at careful
    exact ⟨inside, careful⟩
  | cons e early ih =>
    obtain ⟨here, rest⟩ := List.forall_mem_cons.mp still
    have remains (other : ∀ victim clientid client, e ≠ .evicting sock victim clientid client) :
        sock ∈ opened ∨ Evicted sock early :=
      named.imp_right fun ⟨victim, clientid, client, member⟩ =>
        ⟨victim, clientid, client, (List.mem_cons.mp member).resolve_left (other victim clientid client).symm⟩
    cases e with
    | closed | started => exact here.elim
    | evicting prevSock victim clientid client =>
      refine ih rest ?_
      by_cases same : sock = prevSock
      · exact .inl (same ▸ Finset.mem_insert_self _ _)
      · refine (remains fun _ _ _ equal => ?_).imp_left Finset.mem_insert_of_mem
        exact same (Event.evicting.inj equal).1.symm
    | _ => exact ih rest (remains fun _ _ _ => nofun)

/-! ### At most one close -/

/-- A run that sets up and closes nothing. -/
def Steady (w w' : World) : Prop := ∃ events, w'.trace = events ++ w.trace ∧ ∀ e ∈ events, Still e

/-- A run that closes one socket, this one or one that it evicts. -/
def Closes (sock : Fin 64) (w w' : World) : Prop :=
  ∃ late prevSock early, w'.trace = late ++ .closed prevSock :: early ++ w.trace ∧ (∀ e ∈ late, Still e) ∧
    (∀ e ∈ early, Still e) ∧ (prevSock = sock ∨ Evicted prevSock early)

/-- A run that sets up nothing and closes no more than that. -/
def Sparing (sock : Fin 64) (w w' : World) : Prop := Steady w w' ∨ Closes sock w w'

theorem Steady.refl (w : World) : Steady w w := ⟨[], rfl, List.forall_mem_nil _⟩

theorem Steady.trans {w₂ : World} (first : Steady w w₁) (second : Steady w₁ w₂) : Steady w w₂ :=
  trace_trans first second

theorem Closes.preceded (first : Steady w w₁) (rest : Closes sock w₁ w') : Closes sock w w' := by
  obtain ⟨events, grown, still⟩ := first
  obtain ⟨late, prevSock, early, grown', still', fine, named⟩ := rest
  refine ⟨late, prevSock, early ++ events, ?_, still', List.forall_mem_append.mpr ⟨fine, still⟩, ?_⟩
  · rw [grown', grown]
    simp only [List.append_assoc, List.cons_append]
  · exact named.imp_right fun ⟨victim, clientid, client, member⟩ =>
      ⟨victim, clientid, client, List.mem_append_left _ member⟩

theorem Closes.followed (closes : Closes sock w w₁) (rest : Steady w₁ w') : Closes sock w w' := by
  obtain ⟨late, prevSock, early, grown, still, fine, named⟩ := closes
  obtain ⟨events, grown', still'⟩ := rest
  refine ⟨events ++ late, prevSock, early, ?_, List.forall_mem_append.mpr ⟨still', still⟩, fine, named⟩
  rw [grown', grown]
  simp only [List.append_assoc]

theorem Sparing.preceded (first : Steady w w₁) (rest : Sparing sock w₁ w') : Sparing sock w w' :=
  rest.imp first.trans (.preceded first)

theorem Sparing.followed (first : Sparing sock w w₁) (rest : Steady w₁ w') : Sparing sock w w' :=
  first.imp (·.trans rest) (·.followed rest)

/-- The events of such a run do no harm where the socket is open. -/
theorem Sparing.careful (sparing : Sparing sock w w') :
    ∃ events, w'.trace = events ++ w.trace ∧ Careful {sock} events.reverse := by
  have turned {events : List Event} (still : ∀ e ∈ events, Still e) : ∀ e ∈ events.reverse, Still e :=
    fun e member => still e (List.mem_reverse.mp member)
  rcases sparing with ⟨events, grown, still⟩ | ⟨late, prevSock, early, grown, still, fine, named⟩
  · have careful : Careful {sock} (events.reverse ++ []) := Careful.preceded trivial (turned still)
    rw [List.append_nil] at careful
    exact ⟨events, grown, careful⟩
  · refine ⟨late ++ .closed prevSock :: early, grown, ?_⟩
    rw [List.reverse_append, List.reverse_cons, List.append_assoc, List.singleton_append]
    refine careful_closed (turned fine) (turned still) (named.imp ?_ ?_)
    · exact fun own => own ▸ Finset.mem_singleton_self sock
    · exact fun ⟨victim, clientid, client, member⟩ => ⟨victim, clientid, client, List.mem_reverse.mpr member⟩

theorem spares_still {m : Worker α} (passes : Along (Passes Still) m) : Along (Sparing sock) m :=
  passes.mono fun _ _ held => .inl held

theorem spares_bind {m : Worker α} {f : α → Worker β} (first : Along (Passes Still) m)
    (rest : ∀ a, Along (Sparing sock) (f a)) : Along (Sparing sock) (m >>= f) := by
  intro w b w' ran
  obtain ⟨a, mid, begun, ran⟩ := bind_ok.mp ran
  exact .preceded (first w a mid begun) (rest a mid b w' ran)

theorem spares_then {m : Worker α} {f : α → Worker β} (first : Along (Sparing sock) m)
    (rest : ∀ a, Along (Passes Still) (f a)) : Along (Sparing sock) (m >>= f) := by
  intro w b w' ran
  obtain ⟨a, mid, begun, ran⟩ := bind_ok.mp ran
  exact (first w a mid begun).followed (rest a mid b w' ran)

theorem spares_get {f : World → Worker β} (rest : ∀ w, Along (Sparing sock) (f w)) :
    Along (Sparing sock) (get >>= f) := Along.get fun w => rest w w

/-! ### The exits -/

theorem spares_dropConn (sock : Fin 64) (sendwill : Bool) : Along (Sparing sock) (dropConn sock sendwill) := by
  intro w u w' ran
  have asks : AsksOthers sock Still sendwill w := fun _ _ _ _ _ _ _ _ _ _ _ _ _ => trivial
  obtain ⟨⟨later, ok, still, grown⟩, -⟩ := dropConn_trace tables_still (fun _ _ => trivial) asks ran
  refine .inr ⟨later, sock, [.queued ⟨sock, .delall⟩ ok, .dropping sock (w.socks sock) sendwill], ?_, still, ?_,
    .inl rfl⟩
  · rw [grown, List.append_assoc]
    rfl
  · exact List.forall_mem_cons.mpr ⟨trivial, List.forall_mem_singleton.mpr trivial⟩

theorem spares_publishEvent (sock : Fin 64) (header : Header) :
    Along (Sparing sock) (publishEvent sock header) := by
  refine spares_bind (passes_quiet (quiet_byteAt 0)) fun head => ?_
  cases publishQos head with
  | none => exact spares_dropConn sock true
  | some qos =>
    apply spares_still
    refine passes_bind (passes_quiet (quiet_ntohsAt _)) fun topicLen => ?_
    refine passes_bind (passes_quiet (quiet_rangeAt _ _)) fun topic => ?_
    refine passes_bind ?_ fun packetid => ?_
    · split
      · exact passes_quiet (quiet_packetIdAt _)
      · exact passes_quiet quiet_random
    refine passes_bind (passes_quiet (quiet_rangeAt _ _)) fun frame => ?_
    refine passes_bind (passes_quiet (quiet_sockAt _)) fun sockst => ?_
    refine passes_bind (passes_log trivial) fun _ => ?_
    refine passes_bind ?_ fun _ => ?_
    · split
      · exact passes_retainMessage _ _ _ _
      · exact passes_pure _
    refine passes_bind ?_ fun _ => passes_publishByTopic _ _ _ _ _
    have acks (state : PacketState) : Along (Passes Still) (queueAck sock state packetid qos frame topic) :=
      passes_bind (passes_sendtoque fun _ => trivial) (passes_queueAck _ _ _ _ _ _)
    unfold replyToPublisher
    split
    · exact acks _
    split
    · exact acks _
    · exact passes_bind (passes_sendtoque fun _ => trivial) fun _ => passes_pure _

/-- An answer is written and the next packet asked for. -/
theorem passes_answer (target : Fin 64) (bytes : List UInt8) :
    Along (Passes Still) (do
      let _ ← connWrite target bytes none
      let _ ← sendtoque ⟨target, .read⟩) :=
  passes_bind (passes_write fun _ => trivial) fun _ =>
    passes_bind (passes_sendtoque fun _ => trivial) fun _ => passes_pure _

theorem spares_subscribeEvent (sock : Fin 64) (header : Header) :
    Along (Sparing sock) (subscribeEvent sock header) := by
  refine spares_bind (passes_quiet (quiet_byteAt _)) fun head => ?_
  split
  · exact spares_dropConn sock true
  refine spares_bind (passes_quiet (quiet_onHeap _)) fun suback => ?_
  split
  · exact spares_dropConn sock true
  refine spares_bind (passes_quiet (quiet_byteAt _)) fun msb => ?_
  refine spares_bind (passes_quiet (quiet_byteAt _)) fun lsb => ?_
  refine spares_bind (passes_subscribeLoop _ _ _ _ _) fun suback => ?_
  refine spares_bind (passes_quiet (quiet_subackLength _ _ _ _ _)) fun written => ?_
  cases written with
  | none => exact spares_dropConn sock true
  | some suback => exact spares_still (passes_answer sock _)

/-- UNSUBSCRIBE goes on after it has dropped the connection, but does not drop
it again. -/
theorem spares_unsubscribeEvent (sock : Fin 64) (header : Header) :
    Along (Sparing sock) (unsubscribeEvent sock header) := by
  refine spares_bind (passes_quiet (quiet_byteAt _)) fun head => ?_
  refine spares_then ?_ fun _ => ?_
  · split
    · exact spares_dropConn sock true
    · exact spares_still (passes_pure _)
  refine passes_bind (passes_quiet (quiet_byteAt _)) fun msb => ?_
  refine passes_bind (passes_quiet (quiet_byteAt _)) fun lsb => ?_
  refine passes_bind (passes_unsubscribeLoop (fun _ _ => trivial) _ _ _ _) fun _ => ?_
  exact passes_bind (passes_quiet quiet_stackByte) fun _ => passes_answer sock _

theorem spares_disconnectEvent (sock : Fin 64) : Along (Sparing sock) (disconnectEvent sock) := by
  refine spares_bind (passes_quiet (quiet_sockAt _)) fun sockst => ?_
  refine spares_bind (passes_quiet (quiet_deref _)) fun client => ?_
  refine spares_bind (passes_log trivial) fun _ => ?_
  exact spares_bind (passes_resubscribe _ _) fun _ => spares_dropConn sock false

theorem passes_findItem (target : Fin 64) (awaited : PacketState) :
    Along (Passes Still) (findItem target awaited) := by
  refine passes_bind (passes_quiet (quiet_packetIdAt _)) fun pubidCheck => ?_
  intro w found w' ran
  rw [get_bind_ok] at ran
  cases search : (w.items target).zipIdx.find? fun entry =>
      entry.1.packetId = pubidCheck ∧ entry.1.state = awaited with
  | none =>
    rw [search] at ran
    obtain ⟨-, rfl⟩ := pure_ok.mp ran
    exact .refl _
  | some entry =>
    rw [search] at ran
    dsimp only at ran
    rw [log_bind_ok] at ran
    obtain ⟨-, rfl⟩ := pure_ok.mp ran
    exact .log trivial

theorem spares_settle (sock : Fin 64) (header : Header) (awaited : PacketState)
    (settled : PackidStateItem → PackidStateItem) (op : Operation) :
    Along (Sparing sock) (settle sock header awaited settled op) := by
  refine spares_bind (passes_findItem _ _) fun found => ?_
  cases found.2 with
  | none => exact spares_dropConn sock true
  | some entry =>
    refine spares_bind (passes_quiet (quiet_storeGet _)) fun msgInfo => ?_
    refine spares_bind (passes_quiet (quiet_wrongLength _)) fun wrong => ?_
    split
    · cases msgInfo with
      | none => exact spares_dropConn sock true
      | some node =>
        refine spares_get fun w => spares_still ?_
        refine passes_bind (passes_log trivial) fun _ => ?_
        exact passes_publish tables_still (fun _ _ _ _ => trivial) _ _ _ _ _ _ _
    · apply spares_still
      refine passes_bind (passes_countDownIf tables_still _ _) fun _ => ?_
      refine passes_bind (passes_setItem _ _ _) fun _ => ?_
      exact passes_bind (passes_sendtoque fun _ => trivial) fun _ => passes_pure _

theorem spares_advance (sock : Fin 64) (header : Header) (awaited : PacketState)
    (advanced : PackidStateItem → PackidStateItem) (op : Operation) :
    Along (Sparing sock) (advance sock header awaited advanced op) := by
  refine spares_bind (passes_quiet (quiet_wrongLength _)) fun wrong => ?_
  split
  · exact spares_dropConn sock true
  refine spares_bind (passes_findItem _ _) fun found => ?_
  cases found.2 with
  | none => exact spares_dropConn sock true
  | some entry =>
    apply spares_still
    refine passes_bind (passes_setItem _ _ _) fun _ => ?_
    exact passes_bind (passes_sendtoque fun _ => trivial) fun _ => passes_pure _

theorem passes_acceptConnect (target : Fin 64) (clean : Bool) (will : Will) (prev : Option Client) :
    Along (Passes Still) (acceptConnect target clean will prev) := by
  refine passes_bind (passes_quiet (quiet_sockAt _)) fun sockst => ?_
  refine passes_bind (passes_quiet (quiet_deref _)) fun client => ?_
  refine passes_bind (passes_quiet (quiet_onHeap _)) fun will => ?_
  refine passes_bind (passes_resubscribe _ _) fun _ => ?_
  refine passes_bind ?_ fun connack => ?_
  · exact passes_bind (passes_write fun _ => trivial) fun _ => passes_pure _
  refine passes_bind (passes_log trivial) fun _ => ?_
  have asks (op : Operation) : Along (Passes Still) (do let _ ← sendtoque ⟨target, op⟩) :=
    passes_bind (passes_sendtoque fun _ => trivial) fun _ => passes_pure _
  unfold requestAfterConnack
  split
  · exact passes_bind (passes_resubscribe _ _) fun _ => asks _
  · exact asks _

/-- A takeover closes the socket that it evicts. -/
theorem spares_takeOver (sock : Fin 64) (client : Client) : Along (Sparing sock) (takeOver sock client) := by
  intro w u w' ran
  unfold takeOver at ran
  cases recorded : client.sock with
  | none =>
    rw [recorded] at ran
    rw [(pure_ok.mp ran).2]
    exact .inl (.refl w)
  | some prevSock =>
    rw [recorded] at ran
    obtain ⟨ok, w₁, asked, ran⟩ := bind_ok.mp ran
    obtain ⟨env, rfl⟩ := sendtoque_ok asked
    rw [sockAt_bind_ok, sockAt_bind_ok, log_bind_ok, setSock_bind_ok, sockAt_bind_ok] at ran
    obtain ⟨addr, held, still, at_addr, ran⟩ := deref_bind_ok ran
    rw [log_bind_ok] at ran
    have closes : w'.trace = .closed prevSock :: [.evicting prevSock (w.socks prevSock)
        (w.socks sock).clientid client, .queued ⟨prevSock, .delall⟩ ok] ++ w.trace := by
      split at ran
      · rw [onHeap_bind_ok] at ran
        obtain ⟨_, same, rfl⟩ := setClient_ok ran
        rfl
      · obtain ⟨-, rfl⟩ := pure_ok.mp ran
        rfl
    refine .inr ⟨[], prevSock, _, closes, List.forall_mem_nil _, ?_, .inr ⟨_, _, _, List.mem_cons_self⟩⟩
    exact List.forall_mem_cons.mpr ⟨trivial, List.forall_mem_singleton.mpr trivial⟩

theorem spares_connectEvent (sock : Fin 64) (curPos : Nat) : Along (Sparing sock) (connectEvent sock curPos) := by
  refine spares_bind (passes_connectMqtt sock curPos) fun ret => ?_
  split
  · exact spares_dropConn sock true
  dsimp only
  refine spares_bind (passes_quiet (quiet_sockAt _)) fun sockst => spares_get fun w => ?_
  refine spares_bind (passes_quiet (quiet_check _)) fun stored => ?_
  refine spares_bind (passes_log trivial) fun _ => ?_
  intro w u w' ran
  rw [setSock_bind_ok] at ran
  have entered : Steady w (w.setSock sock ({ · with client := stored.map Client.addr })) := .refl w
  refine .preceded entered ?_
  cases stored with
  | none =>
    obtain ⟨added, w₁, made, ran⟩ := bind_ok.mp ran
    refine .preceded ⟨[], (newClient_trace made).1, List.forall_mem_nil _⟩ ?_
    split at ran
    · exact spares_still (passes_acceptConnect _ _ _ _) _ _ _ ran
    · exact spares_dropConn sock true _ _ _ ran
  | some client =>
    exact spares_then (spares_takeOver sock client) (fun _ => passes_acceptConnect _ _ _ _) _ _ _ ran

/-! ### One message -/

theorem spares_dispatch (sock : Fin 64) (header : Header) : Along (Sparing sock) (dispatch sock header) := by
  refine spares_bind (passes_quiet (quiet_byteAt _)) fun head => ?_
  split
  · exact spares_publishEvent sock header
  split
  · exact spares_settle _ _ _ _ _
  split
  · exact spares_settle _ _ _ _ _
  split
  · exact spares_advance _ _ _ _ _
  split
  · exact spares_advance _ _ _ _ _
  split
  · exact spares_subscribeEvent sock header
  split
  · exact spares_unsubscribeEvent sock header
  split
  · exact spares_still (passes_answer sock _)
  split
  · exact spares_disconnectEvent sock
  · exact spares_still (passes_pure _)

theorem spares_readEvent (sock : Fin 64) : Along (Sparing sock) (readEvent sock) := by
  refine spares_bind (passes_quiet quiet_readPacket) fun packet => ?_
  cases packet with
  | none => exact spares_dropConn sock true
  | some header =>
    refine spares_get fun w => spares_bind (passes_log trivial) fun _ => ?_
    split
    · exact spares_connectEvent sock _
    · exact spares_dispatch sock header

theorem passes_writeEvent (target : Fin 64) : Along (Passes Still) (writeEvent target) := by
  intro w u w' ran
  rw [writeEvent, get_bind_ok] at ran
  refine passes_bind (passes_writeLoop _ _ _ _ _) (fun more => ?_) _ _ _ ran
  exact passes_bind (passes_sendtoque fun _ => trivial) fun _ => passes_pure _

theorem spares_mqttPhase (msg : Message) : Along (Sparing msg.socket) (mqttPhase msg) := by
  unfold mqttPhase
  split
  · exact spares_readEvent _
  · exact spares_still (passes_writeEvent _)
  · exact spares_still (passes_pure _)
  · exact spares_still (passes_pure _)

theorem passes_phase (target : Fin 64) (phs : Phase) :
    Along (Passes Still) (Worker.setSock target ({ · with phs := phs })) := by
  intro w u w' ran
  obtain rfl := setSock_ok.mp ran
  exact .refl w

theorem passes_awaitHandshake (target : Fin 64) (first : Bool) (op : Operation) :
    Along (Passes Still) (awaitHandshake target first op) := by
  refine passes_bind (passes_sendtoque fun _ => trivial) fun _ => ?_
  split
  · exact passes_phase _ _
  · exact passes_pure _

theorem spares_handshakeEvent (msg : Message) (first : Bool) :
    Along (Sparing msg.socket) (handshakeEvent msg first) := by
  refine spares_bind (passes_quiet quiet_handshake) fun code => ?_
  split
  · exact spares_dropConn msg.socket true
  split
  · refine spares_still (passes_bind (passes_phase _ _) fun _ => ?_)
    exact passes_bind (passes_sendtoque fun _ => trivial) fun _ => passes_pure _
  split
  · exact spares_still (passes_awaitHandshake _ _ _)
  split
  · exact spares_still (passes_awaitHandshake _ _ _)
  · exact spares_mqttPhase msg

/-- One message sets up no connection but that of its own socket, before anything
else, and closes what is open. -/
theorem handle_careful {msg : Message} {u : Unit} (ran : handle msg w = .ok (u, w')) :
    ∃ events, w'.trace = events ++ w.trace ∧ Careful {msg.socket} events.reverse := by
  rw [handle, sockAt_bind_ok] at ran
  cases phase : (w.socks msg.socket).phs with
  | uninit =>
    rw [phase] at ran
    dsimp only at ran
    rw [onHeap_bind_ok] at ran
    split at ran
    · obtain ⟨⟨⟩, w₁, begun, ran⟩ := bind_ok.mp ran
      obtain ⟨events, grown, careful⟩ := (spares_handshakeEvent msg true _ _ _ ran).careful
      have started : w₁.trace = .started msg.socket (w.items msg.socket) :: w.trace := by
        cases begun
        rfl
      refine ⟨events ++ [.started msg.socket (w.items msg.socket)], ?_, ?_⟩
      · rw [grown, started, List.append_assoc, List.singleton_append]
      · rw [List.reverse_append, List.reverse_singleton, List.singleton_append]
        exact ⟨Finset.mem_singleton_self msg.socket, careful⟩
    · obtain rfl := log_ok.mp ran
      exact ⟨[.closed msg.socket], rfl, Finset.mem_singleton_self msg.socket, trivial⟩
  | tlsHandshake =>
    rw [phase] at ran
    exact (spares_handshakeEvent msg false _ _ _ ran).careful
  | mqtt =>
    rw [phase] at ran
    exact (spares_mqttPhase msg _ _ _ ran).careful

end MqttBroker.Closings
