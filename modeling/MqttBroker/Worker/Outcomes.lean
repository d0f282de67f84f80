import MqttBroker.Worker.Branches
import MqttBroker.Worker.Pairing

/-! What one message can lead to. The worker leaves every connection as it was,
or drops the one of the message's socket, or accepts a CONNECT on it and evicts
one other socket at most. -/
namespace MqttBroker
open Logic Worker World Conclusion Branches

/-- A CONNECT has been accepted on the socket. -/
def World.Named (w : World) (sock : Fin 64) : Prop := (w.socks sock).clientid ≠ []

/-- The events up to the drop of a connection, and those of a CONNECT that is
given up. -/
def Event.Early (own : Fin 64) (sockst : SockCid) (P : Message → Prop) (e : Event) : Prop :=
  e.Local own sockst (sockst.clientid ≠ []) P ∨ (∃ by_ sendwill, e = .dropping own by_ sendwill) ∨
    sockst.clientid = [] ∧ ∃ clientid clean prev, e = .connecting own clientid clean prev

/-- The packet that was received last, with its socket. -/
def lastReceived : List Event → Option (Fin 64 × List UInt8)
  | [] => none
  | .received sock _ packet :: _ => some (sock, packet)
  | _ :: older => lastReceived older

/-- The packet received last is an UNSUBSCRIBE of the socket with the wrong
reserved bits; one whose length comes to 0 has no first byte on record. -/
def Misread (sock : Fin 64) (received : Option (Fin 64 × List UInt8)) : Prop :=
  ∃ packet, received = some (sock, packet) ∧
    ∀ head ∈ packet.head?, head &&& 0xF0 = 0xA0 ∧ head &&& 0x0F ≠ subscribeReserved

/-- The events after its close. A write can only be the UNSUBACK for a packet
that is `misread`. -/
def Event.Late (own : Fin 64) (misread : Prop) (P : Message → Prop) : Event → Prop
  | .wrote sock _ bytes item => sock = own ∧ bytes.head? = some 0xB0 ∧ item = none ∧ misread
  | .ended sock _ _ => sock = own
  | .willed .. => True
  | .distributing publisher _ _ _ _ => publisher = none
  | e => e.Shared P

/-- What a message for the socket can report: requests of one kind, the close of
the socket and of those that may be asked to be forgotten, and what is done on
the socket. -/
def Event.Reported (own : Fin 64) (P : Message → Prop) : Event → Prop
  | .queued msg _ => P msg
  | .closed sock => sock = own ∨ P ⟨sock, .delall⟩
  | .wrote sock .. | .started sock _ | .received sock .. | .connecting sock .. | .dropping sock .. | .ended sock ..
  | .publishing sock .. | .acked sock .. | .sought sock .. => sock = own
  | _ => True

/-- The events of a takeover that evicts this socket. -/
inductive Evictions (P : Message → Prop) : Option (Fin 64) → List Event → Prop
  | none : Evictions P none []
  | some {prevSock : Fin 64} (victim : SockCid) (clientid : Key) (client : Client) (ok : Bool) :
    P ⟨prevSock, .delall⟩ → Evictions P (some prevSock)
      [.closed prevSock, .evicting prevSock victim clientid client, .queued ⟨prevSock, .delall⟩ ok]

namespace Outcomes

/-- The worker may ask for its own socket and for those the clients are
recorded under. -/
structure Asks (own : Fin 64) (P : Message → Prop) (w : World) : Prop where
  self : ∀ op, P ⟨own, op⟩
  others : ∀ target, w.Records target → ∀ op, P ⟨target, op⟩

/-- A run that ends the connection of the socket and no other. -/
structure Dropped (own : Fin 64) (P : Message → Prop) (w w' : World) : Prop where
  others : ∀ sock, sock ≠ own → (w'.socks sock).Alike (w.socks sock)
  client : (w'.socks own).client = none
  clientid : (w'.socks own).clientid = []
  phs : (w'.socks own).phs = .uninit
  records : ∀ target, w'.Records target → w.Records target
  grown : ∃ late early, w'.trace = late ++ .closed own :: early ++ w.trace ∧
    (∀ e ∈ late, e.Late own (Misread own (lastReceived (early ++ w.trace))) P) ∧
      ∀ e ∈ early, e.Early own (w.socks own) P

/-- A run that accepts a CONNECT on the socket. -/
structure Connected (own : Fin 64) (P : Message → Prop) (evicted : Option (Fin 64)) (w w' : World) : Prop where
  unnamed : (w.socks own).clientid = []
  named : (w'.socks own).clientid ≠ []
  kept : (w'.socks own).phs = (w.socks own).phs ∧ (w'.socks own).tls = (w.socks own).tls
  apart : evicted ≠ some own
  others : ∀ sock, sock ≠ own → evicted ≠ some sock → (w'.socks sock).Alike (w.socks sock)
  free : ∀ prevSock, evicted = some prevSock → w.Records prevSock ∧ (w'.socks prevSock).client = none ∧
    (w'.socks prevSock).clientid = [] ∧ (w'.socks prevSock).phs = .uninit
  records : ∀ target, w'.Records target → w.Records target ∨ target = own
  grown : ∃ late sockst evictions early clean will prev subscriptions, w'.trace = late ++
    .acknowledged (w.socks own).tls (w'.socks own).clientid clean will prev connackSent subscriptions ::
      .wrote own sockst connackSent none :: evictions ++ .connecting own (w'.socks own).clientid clean prev ::
      early ++ w.trace ∧ (∀ e ∈ late, e.Shared P) ∧ Evictions P evicted evictions ∧
      ∀ e ∈ early, e.Local own (w.socks own) False P

/-- What the worker makes of a packet or a chance to write. -/
def Turned (own : Fin 64) (P : Message → Prop) (w w' : World) : Prop :=
  Local own (w.Named own) P w w' ∨ Dropped own P w w' ∨ ∃ evicted, Connected own P evicted w w'

variable {w w₁ w₂ w' : World} {own sock : Fin 64} {P : Message → Prop} {α β : Type} {e : Event} {u : Unit}
  {sendwill : Bool} {evicted : Option (Fin 64)} {Q : Event → Prop} {misread : Prop}

theorem Asks.later (asks : Asks own P w) (records : ∀ target, w'.Records target → w.Records target) :
    Asks own P w' := ⟨asks.self, fun target held => asks.others target (records target held)⟩

/-! ### Composition -/

theorem shared_late (shared : e.Shared P) : e.Late own misread P := by
  cases e <;> first | exact shared | exact shared.elim

/-- What an alike connection reports before its drop. -/
theorem early_alike {a b : SockCid} (alike : a.Alike b) (held : e.Early own a P) : e.Early own b P :=
  held.imp (fun held => local_mono (local_alike alike held) fun named => alike.2.1 ▸ named)
    (Or.imp_right (And.imp_left alike.2.1.symm.trans))

theorem Dropped.preceded (first : Local own (w.Named own) P w w₁) (dropped : Dropped own P w₁ w') :
    Dropped own P w w' := by
  obtain ⟨late, early, grown, after, before⟩ := dropped.grown
  obtain ⟨events, grown', fine⟩ := first.grown
  refine ⟨fun sock other => Alike.trans (dropped.others sock other) (first.alike sock), dropped.client,
    dropped.clientid, dropped.phs, fun target held => first.records target (dropped.records target held),
    late, early ++ events, ?_, ?_, List.forall_mem_append.mpr ⟨fun e member => ?_, fun e member => ?_⟩⟩
  · rw [grown, grown']
    simp only [List.append_assoc, List.cons_append]
  · rwa [List.append_assoc, ← grown']
  · exact early_alike (first.alike own) (before e member)
  · exact .inl (fine e member)

theorem lastReceived_late {late : List Event} (after : ∀ e ∈ late, e.Late own misread P) (trace : List Event) :
    lastReceived (late ++ .closed own :: trace) = lastReceived trace := by
  induction late with
  | nil => rfl
  | cons e late ih =>
    obtain ⟨here, rest⟩ := List.forall_mem_cons.mp after
    refine Eq.trans ?_ (ih rest)
    cases e <;> first | rfl | exact here.elim

/-- The worker goes on after a drop as if there was none. -/
theorem Dropped.followed (dropped : Dropped own P w w₁)
    (rest : Undisturbed (Event.Late own (Misread own (lastReceived w₁.trace)) P) w₁ w') : Dropped own P w w' := by
  obtain ⟨late, early, grown, after, before⟩ := dropped.grown
  obtain ⟨events, grown', fine⟩ := rest.grown
  have same : Misread own (lastReceived w₁.trace) = Misread own (lastReceived (early ++ w.trace)) := by
    rw [grown, List.append_assoc, List.cons_append, lastReceived_late after]
  obtain ⟨client, clientid, phs, -⟩ := rest.alike own
  refine ⟨fun sock other => Alike.trans (rest.alike sock) (dropped.others sock other), client.trans dropped.client,
    clientid.trans dropped.clientid, phs.trans dropped.phs, fun target held => dropped.records target
      (rest.records target held), events ++ late, early, ?_,
    List.forall_mem_append.mpr ⟨fun e member => same ▸ fine e member, after⟩, before⟩
  rw [grown', grown]
  simp only [List.append_assoc]

theorem Connected.preceded (first : Local own False P w w₁) (connected : Connected own P evicted w₁ w') :
    Connected own P evicted w w' := by
  obtain ⟨late, sockst, evictions, early, clean, will, prev, subscriptions, grown, after, evicts, before⟩ :=
    connected.grown
  obtain ⟨events, grown', fine⟩ := first.grown
  obtain ⟨-, clientid, phs, tls⟩ := first.alike own
  refine ⟨clientid.symm.trans connected.unnamed, connected.named,
    ⟨connected.kept.1.trans phs, connected.kept.2.trans tls⟩, connected.apart,
    fun sock other kept => Alike.trans (connected.others sock other kept) (first.alike sock),
    fun prevSock here => (connected.free prevSock here).imp_left (first.records prevSock),
    fun target held => (connected.records target held).imp_left (first.records target),
    late, sockst, evictions, early ++ events, clean, will, prev, subscriptions, ?_, after, evicts,
    List.forall_mem_append.mpr ⟨fun e member => local_alike (first.alike own) (before e member), fine⟩⟩
  rw [grown, grown', tls]
  simp only [List.append_assoc, List.cons_append]

/-- Before a client is named nothing is served. -/
theorem unnamed_mono (first : Local own (w.Named own) P w w₁) (unnamed : (w.socks own).clientid = []) :
    Local own False P w w₁ := first.mono fun _ held => local_mono held fun named => named unnamed

theorem named_mono (first : Local own (w.Named own) P w w₁) (rest : Local own (w₁.Named own) P w₁ w') :
    Local own (w.Named own) P w w' := by
  refine Local.trans first (rest.mono fun _ held => local_mono held fun named => ?_)
  rw [World.Named, ← (first.alike own).2.1]
  exact named

theorem Turned.preceded (first : Local own (w.Named own) P w w₁) (turned : Turned own P w₁ w') : Turned own P w w' := by
  rcases turned with rest | dropped | ⟨evicted, connected⟩
  · exact .inl (named_mono first rest)
  · exact .inr (.inl (.preceded first dropped))
  · have unnamed : (w.socks own).clientid = [] := (first.alike own).2.1.symm.trans connected.unnamed
    exact .inr (.inr ⟨evicted, .preceded (unnamed_mono first unnamed) connected⟩)

theorem turned_bind {m : Worker α} {f : α → Worker β} {b : β} (ran : (m >>= f) w = .ok (b, w'))
    (first : Along (Local own (w.Named own) P) m)
    (rest : ∀ a w₁, Local own (w.Named own) P w w₁ → f a w₁ = .ok (b, w') → Turned own P w₁ w') :
    Turned own P w w' := by
  obtain ⟨a, w₁, begun, ran⟩ := bind_ok.mp ran
  have held := first w a w₁ begun
  exact .preceded held (rest a w₁ held ran)

/-! ### Dropping a connection -/

/-- A will goes to the sockets the clients were recorded under. -/
theorem publishWill_late {sockst : SockCid} (ran : publishWill sockst sendwill w = .ok (u, w'))
    (asks : Asks own P w) : Undisturbed (Event.Late own misread P) w w' := by
  unfold publishWill at ran
  cases attached : sockst.client with
  | none =>
    rw [attached] at ran
    rw [(pure_ok.mp ran).2]
    exact .refl w
  | some addr =>
    rw [attached] at ran
    obtain ⟨_, client, same, held, ran⟩ := deref_bind_ok ran
    cases same
    split at ran
    · obtain ⟨⟨⟩, w₁, hidden, ran⟩ := bind_ok.mp ran
      obtain ⟨_, same, rfl⟩ := setClient_ok hidden
      cases same
      obtain ⟨packetId, w₂, drawn, ran⟩ := bind_ok.mp ran
      rw [log_bind_ok] at ran
      obtain ⟨⟨⟩, w₃, published, ran⟩ := bind_ok.mp ran
      obtain ⟨_, same, rfl⟩ := setClient_ok ran
      cases same
      have hides : Undisturbed (Event.Late own misread P) w (w.setClient addr ({ · with sock := none })) :=
        .setClient fun _ _ held => by cases held
      have before : Undisturbed (Event.Late own misread P) w w₂ := hides.trans (.quiet (quiet_random _ _ _ drawn))
      have spread := publishByTopic_shared published (asks.later before.records).others
      have whole : Undisturbed (Event.Late own misread P) w w₃ := by
        refine Undisturbed.trans ?_ (spread.mono fun _ => shared_late)
        exact .logged (.logged before trivial) rfl
      refine ⟨whole.alike, fun target => ?_, whole.grown⟩
      rintro ⟨node, member, at_sock⟩
      rw [nodes_setClient] at member
      obtain ⟨node, inside, rfl⟩ := List.mem_map.mp member
      unfold written at at_sock
      split at at_sock
      · obtain ⟨hider, stored, rfl, -⟩ := clientAt_node held
        exact ⟨hider, stored, at_sock⟩
      · exact whole.records target ⟨node, inside, at_sock⟩
    · rw [(pure_ok.mp ran).2]
      exact .refl w

theorem releaseClient_late {sockst : SockCid} (ran : releaseClient own sockst w = .ok (u, w')) :
    Undisturbed (Event.Late own misread P) w w' := by
  unfold releaseClient at ran
  cases attached : sockst.client with
  | none =>
    rw [attached] at ran
    rw [(pure_ok.mp ran).2]
    exact .refl w
  | some addr =>
    rw [attached] at ran
    obtain ⟨_, client, same, held, ran⟩ := deref_bind_ok ran
    rw [log_bind_ok] at ran
    have noted : Undisturbed (Event.Late own misread P) w (w.log (.ended own sockst.clientid client)) := .log rfl
    refine noted.trans ?_
    split at ran
    · rw [get_bind_ok] at ran
      obtain ⟨store, erased, ran⟩ := check_bind_ok ran
      obtain rfl := set_ok.mp ran
      refine ⟨fun _ => Alike.refl _, fun target => ?_, [], rfl, List.forall_mem_nil _⟩
      rintro ⟨node, member, at_sock⟩
      exact ⟨node, Myhashmap.mem_of_erase erased member, at_sock⟩
    · obtain ⟨_, -, rfl⟩ := setClient_ok ran
      exact .setClient fun _ _ held => by cases held

/-- A run that leads up to a drop. -/
structure Leads (own : Fin 64) (P : Message → Prop) (w w' : World) : Prop where
  others : ∀ sock, sock ≠ own → (w'.socks sock).Alike (w.socks sock)
  records : ∀ target, w'.Records target → w.Records target
  grown : ∃ events, w'.trace = events ++ w.trace ∧ ∀ e ∈ events, e.Early own (w.socks own) P

theorem Leads.refl (w : World) : Leads own P w w :=
  ⟨fun _ _ => Alike.refl _, fun _ => id, [], rfl, List.forall_mem_nil _⟩

theorem dropConn_dropped (leads : Leads own P w w₁) (asks : Asks own P w)
    (ran : dropConn own sendwill w₁ = .ok (u, w')) : Dropped own P w w' := by
  have asks : Asks own P w₁ := asks.later leads.records
  obtain ⟨events, grown, early⟩ := leads.grown
  rw [dropConn, sockAt_bind_ok, log_bind_ok] at ran
  obtain ⟨ok, w₂, asked, ran⟩ := bind_ok.mp ran
  obtain ⟨env, rfl⟩ := sendtoque_ok asked
  rw [log_bind_ok, sockAt_bind_ok] at ran
  obtain ⟨⟨⟩, w₃, willed, ran⟩ := bind_ok.mp ran
  rw [endSession, sockAt_bind_ok] at ran
  obtain ⟨⟨⟩, w₄, released, ran⟩ := bind_ok.mp ran
  obtain rfl := setSock_ok.mp ran
  have willed : Undisturbed (Event.Late own (Misread own (lastReceived w₁.trace)) P) _ w₃ :=
    publishWill_late willed ⟨asks.self, asks.others⟩
  have after := willed.trans (releaseClient_late released)
  obtain ⟨late, grown', fine⟩ := after.grown
  rw [grown] at fine
  refine ⟨fun sock other => ?_, ?_, ?_, ?_, fun target held => leads.records target (after.records target held),
    late, .queued ⟨own, .delall⟩ ok :: .dropping own (w₁.socks own) sendwill :: events, ?_, fine, ?_⟩
  · rw [setSock_other _ _ other]
    exact Alike.trans (after.alike sock) (leads.others sock other)
  · rw [setSock_socks]
  · rw [setSock_socks]
  · rw [setSock_socks]
  · rw [setSock_trace, grown']
    change late ++ .closed own :: .queued ⟨own, .delall⟩ ok :: .dropping own (w₁.socks own) sendwill :: w₁.trace = _
    rw [grown]
    simp only [List.append_assoc, List.cons_append]
  · refine List.forall_mem_cons.mpr ⟨.inl (asks.self _), List.forall_mem_cons.mpr ⟨.inr (.inl ⟨_, _, rfl⟩), early⟩⟩

/-- Dropping a connection reads no packet. -/
theorem dropConn_unread (ran : dropConn own sendwill w = .ok (u, w')) :
    lastReceived w'.trace = lastReceived w.trace := by
  obtain ⟨⟨later, ok, unread, grown⟩, -⟩ :=
    dropConn_trace (P := fun e => ∀ trace, lastReceived (e :: trace) = lastReceived trace)
    (fun e tables trace => by cases e <;> first | rfl | exact tables.elim) (fun _ _ _ => rfl)
    (fun _ _ _ _ _ _ _ _ _ _ _ _ _ _ => rfl) ran
  rw [grown]
  clear grown
  induction later with
  | nil => rfl
  | cons e later ih =>
    obtain ⟨here, rest⟩ := List.forall_mem_cons.mp unread
    exact (here _).trans (ih rest)

theorem turned_drop (asks : Asks own P w) (ran : dropConn own sendwill w = .ok (u, w')) : Turned own P w w' :=
  .inr (.inl (dropConn_dropped (.refl w) asks ran))

/-! ### The branches -/

/-- The worker serves a client that is connected. -/
structure Serves (own : Fin 64) (P : Message → Prop) (w : World) : Prop extends Asks own P w where
  named : w.Named own

theorem Serves.later {S : Prop} (serves : Serves own P w) (held : Local own S P w w') : Serves own P w' where
  toAsks := serves.toAsks.later held.records
  named := by
    rw [World.Named, (held.alike own).2.1]
    exact serves.named

theorem own_asks (asks : Asks own P w) : ∀ msg, OwnRequest own msg → P msg := by
  rintro ⟨sock, op⟩ ⟨rfl, -⟩
  exact asks.self op

theorem turned_local {m : Worker α} {a : α} (held : Along (Local own (w.Named own) P) m) (ran : m w = .ok (a, w')) :
    Turned own P w w' := .inl (held w a w' ran)

/-- A message is distributed in the name of the connection it came on. -/
theorem publishEvent_turned {header : Header} (serves : Serves own P w)
    (ran : publishEvent own header w = .ok (u, w')) : Turned own P w w' := by
  refine turned_bind ran (local_quiet (quiet_byteAt 0)) fun head w held ran => ?_
  replace serves := serves.later held
  rcases packetQos : publishQos head with _ | qos <;> rw [packetQos] at ran
  · exact turned_drop serves.toAsks ran
  refine turned_bind ran (local_quiet (quiet_ntohsAt _)) fun topicLen w held ran => ?_
  replace serves := serves.later held
  refine turned_bind ran (local_quiet (quiet_rangeAt _ _)) fun topic w held ran => ?_
  replace serves := serves.later held
  refine turned_bind ran (local_quiet ?_) fun packetid w held ran => ?_
  · split
    · exact quiet_packetIdAt _
    · exact quiet_random
  replace serves := serves.later held
  refine turned_bind ran (local_quiet (quiet_rangeAt _ _)) fun frame w held ran => ?_
  replace serves := serves.later held
  rw [sockAt_bind_ok, log_bind_ok] at ran
  obtain ⟨⟨⟩, w₁, retained, ran⟩ := bind_ok.mp ran
  obtain ⟨⟨⟩, w₂, replied, ran⟩ := bind_ok.mp ran
  have retains : Along (Local own (w.Named own) P)
      (if head &&& 0x01 ≠ 0 then retainMessage topic frame qos packetid else pure ()) := by
    split
    · exact local_shared (shared_retainMessage _ _ _ _)
    · exact local_pure _
  have accepted : Local own (w.Named own) P w (w.log (.publishing own (w.socks own) qos packetid topic frame)) :=
    .log ⟨serves.named, rfl, Alike.refl _⟩
  have first :=
    (accepted.trans (retains _ _ _ retained)).trans (local_reply (own_asks serves.toAsks) _ _ _ _ _ _ _ replied)
  have spread := publishByTopic_shared ran (serves.toAsks.later first.records).others
  have same : (some ⟨(w.socks own).tls, (w.socks own).clientid⟩ : Option Publisher) =
      some ⟨(w₂.socks own).tls, (w₂.socks own).clientid⟩ := by
    rw [(first.alike own).2.1, (first.alike own).2.2.2]
  have named : Local own (w.Named own) P w₂ (w₂.log (.distributing (some ⟨(w.socks own).tls, (w.socks own).clientid⟩)
      topic frame qos packetid)) := .log ⟨serves.named, same⟩
  exact .inl (first.trans (named.trans (.shared spread)))

/-- A message may be sent again for an acknowledgement of the wrong length. -/
theorem settle_turned {header : Header} {awaited : PacketState} {settled : PackidStateItem → PackidStateItem}
    {op : Operation} (serves : Serves own P w) (kind : op = .read ∨ op = .write)
    (ran : settle own header awaited settled op w = .ok (u, w')) : Turned own P w w' := by
  refine turned_bind ran (local_findItem serves.named _) fun found w held ran => ?_
  replace serves := serves.later held
  obtain ⟨id, _ | ⟨item, i⟩⟩ := found
  · exact turned_drop serves.toAsks ran
  refine turned_bind ran (local_quiet (quiet_storeGet _)) fun msgInfo w held ran => ?_
  replace serves := serves.later held
  refine turned_bind ran (local_quiet (quiet_wrongLength _)) fun wrong w held ran => ?_
  replace serves := serves.later held
  split at ran
  · cases msgInfo with
    | none => exact turned_drop serves.toAsks ran
    | some node =>
      rw [get_bind_ok, log_bind_ok] at ran
      exact .inl (Local.trans (.log (by exact trivial)) (local_publish _ _ _ _ _ _ _ _ _ ran))
  · refine turned_local ?_ ran
    refine local_bind (local_shared (shared_countDownIf _ _)) fun _ => local_bind (local_setItem _ _ _) fun _ => ?_
    exact local_bind (local_ask (own_asks serves.toAsks) kind) fun _ => local_pure _

theorem advance_turned {header : Header} {awaited : PacketState} {advanced : PackidStateItem → PackidStateItem}
    {op : Operation} (serves : Serves own P w) (kind : op = .read ∨ op = .write)
    (ran : advance own header awaited advanced op w = .ok (u, w')) : Turned own P w w' := by
  refine turned_bind ran (local_quiet (quiet_wrongLength _)) fun wrong w held ran => ?_
  replace serves := serves.later held
  split at ran
  · exact turned_drop serves.toAsks ran
  refine turned_bind ran (local_findItem serves.named _) fun found w held ran => ?_
  replace serves := serves.later held
  obtain ⟨id, _ | ⟨item, i⟩⟩ := found
  · exact turned_drop serves.toAsks ran
  · refine turned_local (local_bind (local_setItem _ _ _) fun _ => ?_) ran
    exact local_bind (local_ask (own_asks serves.toAsks) kind) fun _ => local_pure _

theorem subscribeEvent_turned {header : Header} (serves : Serves own P w)
    (ran : subscribeEvent own header w = .ok (u, w')) : Turned own P w w' := by
  refine turned_bind ran (local_quiet (quiet_byteAt 0)) fun head w held ran => ?_
  replace serves := serves.later held
  split at ran
  · exact turned_drop serves.toAsks ran
  refine turned_bind ran (local_quiet (quiet_onHeap _)) fun suback w held ran => ?_
  replace serves := serves.later held
  split at ran
  · exact turned_drop serves.toAsks ran
  refine turned_bind ran (local_quiet (quiet_byteAt _)) fun msb w held ran => ?_
  replace serves := serves.later held
  refine turned_bind ran (local_quiet (quiet_byteAt _)) fun lsb w held ran => ?_
  replace serves := serves.later held
  refine turned_bind ran (local_subscribeLoop (own_asks serves.toAsks) serves.named _ _ _ _) fun suback w held ran => ?_
  replace serves := serves.later held
  refine turned_bind ran (local_quiet (quiet_subackLength _ _ _ _ _)) fun written w held ran => ?_
  replace serves := serves.later held
  cases written with
  | none => exact turned_drop serves.toAsks ran
  | some suback => exact turned_local (local_answer (own_asks serves.toAsks) _) ran

theorem disconnectEvent_turned (serves : Serves own P w) (ran : disconnectEvent own w = .ok (u, w')) :
    Turned own P w w' := by
  rw [disconnectEvent, sockAt_bind_ok] at ran
  obtain ⟨addr, client, attached, held, ran⟩ := deref_bind_ok ran
  rw [log_bind_ok] at ran
  have noted : Local own (w.Named own) P w (w.log (.disconnecting (w.socks own).clientid client)) :=
    .log ⟨serves.named, rfl⟩
  refine .preceded noted ?_
  refine turned_bind ran (local_shared (shared_setClient _ fun _ _ => id)) fun _ w held ran => ?_
  exact turned_drop ((serves.later noted).later held).toAsks ran

/-! ### UNSUBSCRIBE -/

/-- Without a client the loop over the topics does not survive a topic. -/
theorem unsubscribeLoop_unattached {turns curPos : Nat} {packetLength : UInt16}
    (ran : unsubscribeLoop own turns curPos packetLength w = .ok (u, w')) (unattached : (w.socks own).client = none) :
    w' = w := by
  cases turns with
  | zero => exact absurd ran fault_ok
  | succ turns =>
    unfold unsubscribeLoop at ran
    split at ran
    · exact (pure_ok.mp ran).2
    obtain ⟨topicLen, w₁, read, ran⟩ := bind_ok.mp ran
    obtain ⟨env, buf, rfl⟩ := quiet_ntohsAt _ _ _ _ read
    obtain ⟨topic, w₂, read, ran⟩ := bind_ok.mp ran
    obtain ⟨env, buf, rfl⟩ := quiet_rangeAt _ _ _ _ _ read
    obtain ⟨⟨⟩, w₃, removed, ran⟩ := bind_ok.mp ran
    rw [unsubscribeTopic, sockAt_bind_ok] at removed
    obtain ⟨addr, client, attached, -⟩ := deref_bind_ok removed
    rw [unattached] at attached
    cases attached

/-- With the wrong reserved bits the connection is dropped, and the worker goes
on as if it were not. -/
theorem unsubscribeEvent_turned {header : Header} (serves : Serves own P w) (just : JustRead w own header)
    (unsubscribe : w.buf.getD 0 0 &&& 0xF0 = 0xA0) (ran : unsubscribeEvent own header w = .ok (u, w')) :
    Turned own P w w' := by
  obtain ⟨head, w₀, read, ran⟩ := bind_ok.mp ran
  obtain ⟨same, kept⟩ := byteAt_ok read
  subst w₀
  split at ran
  · rename_i wrong
    obtain ⟨⟨⟩, w₁, dropping, ran⟩ := bind_ok.mp ran
    have dropped := dropConn_dropped (.refl w) serves.toAsks dropping
    have misread : Misread own (lastReceived w₁.trace) := by
      obtain ⟨packet, earlier, received, readAs⟩ := just
      refine ⟨packet, ?_, fun first at_head => ?_⟩
      · rw [dropConn_unread dropping, received]
        rfl
      · have front := readAs.first at_head
        rw [front]
        exact ⟨unsubscribe, same ▸ wrong⟩
    refine .inr (.inl (dropped.followed ?_))
    obtain ⟨msb, w₂, read, ran⟩ := bind_ok.mp ran
    obtain ⟨env, buf, rfl⟩ := quiet_byteAt _ _ _ _ read
    obtain ⟨lsb, w₃, read, ran⟩ := bind_ok.mp ran
    obtain ⟨env, buf, rfl⟩ := quiet_byteAt _ _ _ _ read
    obtain ⟨⟨⟩, w₄, walked, ran⟩ := bind_ok.mp ran
    obtain rfl := unsubscribeLoop_unattached walked dropped.client
    obtain ⟨byte, w₅, read, ran⟩ := bind_ok.mp ran
    obtain ⟨env, buf, rfl⟩ := quiet_stackByte _ _ _ read
    obtain ⟨written, w₆, wrote, ran⟩ := bind_ok.mp ran
    obtain ⟨env, rfl⟩ := connWrite_ok wrote
    obtain ⟨ok, w₇, asked, ran⟩ := bind_ok.mp ran
    obtain ⟨env, rfl⟩ := sendtoque_ok asked
    rw [(pure_ok.mp ran).2]
    refine .logged (.trans (.logged (.quiet ⟨_, _, rfl⟩) ?_) (.quiet ⟨env, buf, rfl⟩)) (serves.self .read)
    exact ⟨rfl, rfl, rfl, misread⟩
  · refine turned_bind ran (local_pure _) fun _ w held ran => ?_
    replace serves := serves.later held
    refine turned_local (local_bind (local_quiet (quiet_byteAt _)) fun msb => ?_) ran
    refine local_bind (local_quiet (quiet_byteAt _)) fun lsb => ?_
    refine local_bind (local_unsubscribeLoop serves.named _ _ _) fun _ => ?_
    exact local_bind (local_quiet quiet_stackByte) fun byte => local_answer (own_asks serves.toAsks) _

/-! ### CONNECT -/

/-- A run that has read a CONNECT and not answered it yet. -/
structure Entering (own : Fin 64) (P : Message → Prop) (clean : Bool) (prev : Option Client)
    (evicted : Option (Fin 64)) (w w' : World) : Prop where
  unnamed : (w.socks own).clientid = []
  named : (w'.socks own).clientid ≠ []
  kept : (w'.socks own).phs = (w.socks own).phs ∧ (w'.socks own).tls = (w.socks own).tls
  apart : evicted ≠ some own
  others : ∀ sock, sock ≠ own → evicted ≠ some sock → (w'.socks sock).Alike (w.socks sock)
  free : ∀ prevSock, evicted = some prevSock → w.Records prevSock ∧ (w'.socks prevSock).client = none ∧
    (w'.socks prevSock).clientid = [] ∧ (w'.socks prevSock).phs = .uninit
  records : ∀ target, w'.Records target → w.Records target ∨ target = own
  grown : ∃ evictions, w'.trace = evictions ++ .connecting own (w'.socks own).clientid clean prev :: w.trace ∧
    Evictions P evicted evictions

/-- The CONNACK comes before the next request. -/
theorem acceptConnect_connected {clean : Bool} {prev : Option Client} {will : Will}
    (entering : Entering own P clean prev evicted w w₁) (asks : ∀ op, P ⟨own, op⟩)
    (ran : acceptConnect own clean will prev w₁ = .ok (u, w')) : Connected own P evicted w w' := by
  rw [acceptConnect, sockAt_bind_ok] at ran
  obtain ⟨addr, client, attached, held, ran⟩ := deref_bind_ok ran
  rw [onHeap_bind_ok] at ran
  obtain ⟨⟨⟩, w₂, set, ran⟩ := bind_ok.mp ran
  have written := Undisturbed.wrote (Q := Event.Shared P) set fun _ _ => id
  obtain ⟨_, -, rfl⟩ := setClient_ok set
  obtain ⟨connack, w₃, acked, ran⟩ := bind_ok.mp ran
  obtain ⟨ok, w₄, wrote, acked⟩ := bind_ok.mp acked
  obtain ⟨env, rfl⟩ := connWrite_ok wrote
  obtain ⟨rfl, rfl⟩ := pure_ok.mp acked
  rw [log_bind_ok] at ran
  have asked {op : Operation} : Along (Undisturbed (Event.Shared P)) (do let _ ← sendtoque ⟨own, op⟩) :=
    shared_bind (shared_request (asks op)) fun _ => shared_pure _
  have rest : Along (Undisturbed (Event.Shared P))
      (requestAfterConnack own (w₁.socks own).client client.hasQuedMsgs) := by
    unfold requestAfterConnack
    split
    · exact shared_bind (shared_setClient _ fun _ _ => id) fun _ => asked
    · exact asked
  have after := rest _ _ _ ran
  obtain ⟨late, grown, fine⟩ := after.grown
  obtain ⟨evictions, grown', evicts⟩ := entering.grown
  have same : (w'.socks own).Alike (w₁.socks own) := after.alike own
  refine ⟨entering.unnamed, same.2.1 ▸ entering.named,
    ⟨same.2.2.1.trans entering.kept.1, same.2.2.2.trans entering.kept.2⟩, entering.apart,
    fun sock other kept => Alike.trans (after.alike sock) (entering.others sock other kept),
    fun prevSock here => ?_, fun target held => entering.records target (written.records target
      (after.records target held)), late, w₁.socks own, evictions, [], clean, will, prev,
      client.subscriptions, ?_, fine, evicts, List.forall_mem_nil _⟩
  · obtain ⟨recorded, client, clientid, phs⟩ := entering.free prevSock here
    obtain ⟨same, same', same'', -⟩ := after.alike prevSock
    exact ⟨recorded, same.trans client, same'.trans clientid, same''.trans phs⟩
  · rw [grown, same.2.1, ← entering.kept.2]
    change late ++ .acknowledged (w₁.socks own).tls (w₁.socks own).clientid clean will prev connackSent
      client.subscriptions :: .wrote own (w₁.socks own) connackSent none :: w₁.trace = _
    rw [grown']
    simp only [List.append_assoc, List.cons_append, List.nil_append]

/-- Without memory for the client nothing is stored. -/
theorem newClient_refused {clientid : Key} (ran : newClient own clientid w = .ok (false, w')) :
    Undisturbed Q w w' := by
  rw [newClient, onHeap_bind_ok] at ran
  split at ran
  · rw [get_bind_ok, onHeap_bind_ok, get_bind_ok] at ran
    obtain ⟨⟨added, store, after⟩, stored, ran⟩ := check_bind_ok ran
    rw [set_bind_ok] at ran
    dsimp only at ran
    split at ran
    · obtain ⟨client, found, ran⟩ := check_bind_ok ran
      rw [setSock_bind_ok] at ran
      obtain ⟨⟨⟩, mid, set, ran⟩ := bind_ok.mp ran
      cases (pure_ok.mp ran).1
    · rename_i refused
      obtain rfl : added = false := by simpa using refused
      obtain rfl := Myhashmap.add_refused stored
      obtain ⟨-, rfl⟩ := pure_ok.mp ran
      exact ⟨fun _ => Alike.refl _, fun _ => id, [], rfl, List.forall_mem_nil _⟩
  · obtain ⟨-, rfl⟩ := pure_ok.mp ran
    exact .quiet ⟨_, w.buf, rfl⟩

/-- A new client is recorded under its own socket. -/
theorem newClient_entering {clean : Bool} (entering : Entering own P clean none none w w₁)
    (sound : w₁.clientStore.Sound) (absent : w₁.clientStore.get (w₁.socks own).clientid = .ok none)
    (ran : newClient own (w₁.socks own).clientid w₁ = .ok (true, w')) : Entering own P clean none none w w' := by
  obtain ⟨env, heap, before, after, store, client, stored, found, rfl⟩ := newClient_ok ran
  obtain ⟨rfl, -, member⟩ := acceptNew_store sound absent stored found
  have at_own : (({ w₁ with env := env, clientStore := store, nextAddr := w₁.nextAddr + 1 }.setSock own
      ({ · with client := some (Client.new w₁.nextAddr heap).1.addr })).setClient (Client.new w₁.nextAddr heap).1.addr
        ({ · with sock := some own })).socks own =
      { w₁.socks own with client := some (Client.new w₁.nextAddr heap).1.addr } := by
    rw [World.setClient_socks, setSock_socks]
  refine ⟨entering.unnamed, ?_, ?_, entering.apart, fun sock other kept => ?_, nofun, fun target => ?_, ?_⟩
  · rw [at_own]
    exact entering.named
  · rw [at_own]
    exact entering.kept
  · rw [World.setClient_socks, setSock_other _ _ other]
    exact entering.others sock other kept
  · rintro ⟨_, stored, at_sock⟩
    rw [nodes_setClient] at stored
    obtain ⟨node, inside, rfl⟩ := List.mem_map.mp stored
    unfold written at at_sock
    split at at_sock
    · exact .inr (Option.some.inj at_sock).symm
    · rcases (member node).mp inside with rfl | old
      · cases at_sock
      · exact entering.records target ⟨node, old, at_sock⟩
  · rw [at_own]
    exact entering.grown

/-- A takeover evicts another socket than its own, which a client was recorded
under. -/
theorem takeOver_entering {clean : Bool} {client : Client} (entering : Entering own P clean (some client) none w w₁)
    (recorded : ∀ prevSock, client.sock = some prevSock → w.Records prevSock) (asks : Asks own P w)
    (ran : takeOver own client w₁ = .ok (u, w')) : Entering own P clean (some client) client.sock w w' := by
  unfold takeOver at ran
  cases at_sock : client.sock with
  | none =>
    rw [at_sock] at ran
    rw [(pure_ok.mp ran).2]
    exact entering
  | some prevSock =>
    rw [at_sock] at ran
    obtain ⟨ok, w₂, asked, ran⟩ := bind_ok.mp ran
    obtain ⟨env, rfl⟩ := sendtoque_ok asked
    rw [sockAt_bind_ok, sockAt_bind_ok, log_bind_ok, setSock_bind_ok, sockAt_bind_ok] at ran
    obtain ⟨addr, held, still, at_addr, ran⟩ := deref_bind_ok ran
    have other : prevSock ≠ own := by
      rintro rfl
      rw [World.setSock_socks] at still
      cases still
    rw [log_bind_ok] at ran
    have grown : w₁.trace = .connecting own (w₁.socks own).clientid clean (some client) :: w.trace := by
      obtain ⟨_, grown, ⟨⟩⟩ := entering.grown
      exact grown
    have apart {sock : Fin 64} (kept : sock ≠ prevSock) : w'.socks sock = w₁.socks sock := by
      have same := World.setSock_other w₁ ({ · with phs := .uninit, client := none, clientid := [] }) kept
      split at ran
      · rw [onHeap_bind_ok] at ran
        obtain ⟨_, -, rfl⟩ := setClient_ok ran
        exact same
      · obtain ⟨-, rfl⟩ := pure_ok.mp ran
        exact same
    have reset : (w'.socks prevSock).client = none ∧ (w'.socks prevSock).clientid = [] ∧
        (w'.socks prevSock).phs = .uninit := by
      have same := World.setSock_socks w₁ prevSock ({ · with phs := .uninit, client := none, clientid := [] })
      split at ran
      · rw [onHeap_bind_ok] at ran
        obtain ⟨_, -, rfl⟩ := setClient_ok ran
        exact ⟨congrArg SockCid.client same, congrArg SockCid.clientid same, congrArg SockCid.phs same⟩
      · obtain ⟨-, rfl⟩ := pure_ok.mp ran
        exact ⟨congrArg SockCid.client same, congrArg SockCid.clientid same, congrArg SockCid.phs same⟩
    have calls : w'.trace = .closed prevSock :: .evicting prevSock (w₁.socks prevSock) (w₁.socks own).clientid client ::
        .queued ⟨prevSock, .delall⟩ ok :: w₁.trace ∧ ∀ target, w'.Records target → w₁.Records target := by
      split at ran
      · rw [onHeap_bind_ok] at ran
        have kept := Undisturbed.wrote (Q := fun _ => True) ran fun _ _ => id
        obtain ⟨_, -, rfl⟩ := setClient_ok ran
        exact ⟨rfl, kept.records⟩
      · obtain ⟨-, rfl⟩ := pure_ok.mp ran
        exact ⟨rfl, fun _ => id⟩
    refine ⟨entering.unnamed, ?_, ?_, fun same => other (Option.some.inj same), fun sock foreign kept => ?_, ?_,
      fun target held => entering.records target (calls.2 target held), _, ?_,
      .some (w₁.socks prevSock) (w₁.socks own).clientid client ok (asks.others _ (recorded prevSock at_sock) .delall)⟩
    · rw [apart other.symm]
      exact entering.named
    · rw [apart other.symm]
      exact entering.kept
    · rw [apart fun same => kept (same ▸ rfl)]
      exact entering.others sock foreign nofun
    · rintro _ ⟨⟩
      exact ⟨recorded prevSock at_sock, reset⟩
    · rw [calls.1, grown, apart other.symm]
      rfl

theorem connectEvent_turned {curPos : Nat} (asks : Asks own P w) (sound : w.clientStore.Sound)
    (unnamed : (w.socks own).clientid = []) (ran : connectEvent own curPos w = .ok (u, w')) : Turned own P w w' := by
  obtain ⟨ret, w₁, read, ran⟩ := bind_ok.mp ran
  rcases connectMqtt_names own curPos _ _ _ read with ⟨refused, kept⟩ | ⟨clientid, w₁, named, quiet, rfl⟩
  · rw [if_pos refused] at ran
    exact .preceded kept (turned_drop (asks.later kept.records) ran)
  have as_before : w₁.socks = w.socks ∧ w₁.trace = w.trace ∧ w₁.clientStore = w.clientStore := by
    obtain ⟨env, buf, rfl⟩ := quiet
    exact ⟨rfl, rfl, rfl⟩
  obtain ⟨socks, trace, store⟩ := as_before
  have apart {sock : Fin 64} (other : sock ≠ own) (v : World) (f : SockCid → SockCid) :
      (v.setSock own f).socks sock = v.socks sock := setSock_other v f other
  split at ran
  · have leads : Leads own P w (w₁.setSock own ({ · with clientid := clientid })) := by
      refine ⟨fun sock other => ?_, fun target held => ?_, [], trace, List.forall_mem_nil _⟩
      · rw [apart other, socks]
        exact Alike.refl _
      · rw [World.Records, setSock_clientStore, store] at held
        exact held
    exact .inr (.inl (dropConn_dropped leads asks ran))
  dsimp only at ran
  rw [sockAt_bind_ok, get_bind_ok, setSock_socks] at ran
  obtain ⟨prev, stored, ran⟩ := check_bind_ok ran
  rw [log_bind_ok, setSock_bind_ok] at ran
  generalize decide (ret.1 = .cleanSession) = clean at ran
  generalize whole : (World.log _ (.connecting own clientid clean prev)).setSock own _ = w₂ at ran
  have at_own : w₂.socks own = { w.socks own with clientid := clientid, client := prev.map Client.addr } := by
    have named_own := setSock_socks w₁ own ({ · with clientid := clientid })
    rw [← whole, setSock_socks, ← socks]
    exact congrArg (fun sockst : SockCid => { sockst with client := prev.map Client.addr }) named_own
  have others {sock : Fin 64} (other : sock ≠ own) : (w₂.socks sock).Alike (w.socks sock) := by
    have same := apart other w₁ ({ · with clientid := clientid })
    rw [← whole, apart other, ← socks]
    exact (congrArg (SockCid.Alike · (w₁.socks sock)) same).mpr (Alike.refl _)
  have grown : w₂.trace = .connecting own clientid clean prev :: w.trace := by
    rw [← whole, ← trace]
    rfl
  have same : w₂.clientStore = w.clientStore := by
    rw [← whole, ← store]
    rfl
  have records (target : Fin 64) (held : w₂.Records target) : w.Records target := by
    rw [World.Records, same] at held
    exact held
  have named_own : (w₂.socks own).clientid = clientid := by rw [at_own]
  have entering : Entering own P clean prev none w w₂ := by
    refine ⟨unnamed, named_own ▸ named, ?_, nofun, fun sock other _ => others other, nofun,
      fun target held => .inl (records target held), [], ?_, .none⟩
    · rw [at_own]
      exact ⟨rfl, rfl⟩
    · rw [grown, named_own]
      rfl
  cases prev with
  | none =>
    obtain ⟨added, w₃, made, ran⟩ := bind_ok.mp ran
    cases added with
    | false =>
      have refused := newClient_refused (Q := Event.Early own (w.socks own) P) made
      refine .inr (.inl (dropConn_dropped ⟨fun sock other => Alike.trans (refused.alike sock) (others other),
        fun target held => records target (refused.records target held), trace_trans ⟨[_], grown, ?_⟩ refused.grown⟩
        asks ran))
      exact List.forall_mem_singleton.mpr (.inr (.inr ⟨unnamed, _, _, _, rfl⟩))
    | true =>
      rw [← named_own] at made
      have absent : w₂.clientStore.get (w₂.socks own).clientid = .ok none := by
        rw [same, named_own, ← store]
        exact stored
      have entering := newClient_entering entering (same ▸ sound) absent made
      exact .inr (.inr ⟨none, acceptConnect_connected entering asks.self ran⟩)
  | some client =>
    obtain ⟨⟨⟩, w₃, took, ran⟩ := bind_ok.mp ran
    have member : ⟨clientid, client⟩ ∈ w.clientStore.nodes := sound.get_some.mp (store ▸ stored)
    have entering := takeOver_entering entering (fun prevSock at_sock => ⟨_, member, at_sock⟩) asks took
    exact .inr (.inr ⟨client.sock, acceptConnect_connected entering asks.self ran⟩)

/-! ### One message -/

theorem dispatch_turned {header : Header} (serves : Serves own P w) (just : JustRead w own header)
    (ran : dispatch own header w = .ok (u, w')) : Turned own P w w' := by
  obtain ⟨head, w₀, read, ran⟩ := bind_ok.mp ran
  obtain ⟨same, kept⟩ := byteAt_ok read
  subst w₀
  split at ran
  · exact publishEvent_turned serves ran
  split at ran
  · exact settle_turned serves (.inl rfl) ran
  split at ran
  · exact settle_turned serves (.inr rfl) ran
  split at ran
  · exact advance_turned serves (.inl rfl) ran
  split at ran
  · exact advance_turned serves (.inr rfl) ran
  split at ran
  · exact subscribeEvent_turned serves ran
  split at ran
  · rename_i kind
    exact unsubscribeEvent_turned serves just (same ▸ kind) ran
  split at ran
  · exact turned_local (local_answer (own_asks serves.toAsks) _) ran
  split at ran
  · exact disconnectEvent_turned serves ran
  · exact turned_local (local_pure _) ran

theorem readEvent_turned (asks : Asks own P w) (sound : w.clientStore.Sound)
    (ran : readEvent own w = .ok (u, w')) : Turned own P w w' := by
  obtain ⟨packet, w₁, read, ran⟩ := bind_ok.mp ran
  have quiet := quiet_readPacket _ _ _ read
  have first : Local own (w.Named own) P w w₁ := .quiet quiet
  refine .preceded first ?_
  replace asks := asks.later first.records
  replace sound : w₁.clientStore.Sound := by
    obtain ⟨env, buf, rfl⟩ := quiet
    exact sound
  cases packet with
  | none => exact turned_drop asks ran
  | some header =>
    dsimp only at ran
    rw [get_bind_ok, log_bind_ok] at ran
    have received (packet : List UInt8) :
        Local own (w₁.Named own) P w₁ (w₁.log (.received own (w₁.socks own) packet)) := .log ⟨rfl, Alike.refl _⟩
    split at ran
    · rename_i unnamed
      exact .preceded (received _) (connectEvent_turned (asks.later (received _).records) sound unnamed ran)
    · rename_i named
      exact .preceded (received _) (dispatch_turned ⟨asks.later (received _).records, named⟩ (justRead own read) ran)

theorem mqttPhase_turned {msg : Message} (asks : Asks msg.socket P w) (sound : w.clientStore.Sound)
    (ran : mqttPhase msg w = .ok (u, w')) : Turned msg.socket P w w' := by
  unfold mqttPhase at ran
  cases op : msg.op with
  | read =>
    rw [op] at ran
    exact readEvent_turned asks sound ran
  | write =>
    rw [op] at ran
    dsimp only at ran
    rw [writeEvent, get_bind_ok] at ran
    refine turned_local (local_bind (local_writeLoop _ _ _ _) fun more => ?_) ran
    exact local_bind (local_shared (shared_request (asks.self _))) fun _ => local_pure _
  | delread | delall =>
    rw [op] at ran
    exact turned_local (local_pure _) ran

/-- A TLS session is set up on the socket. -/
def begun (own : Fin 64) (w : World) : World :=
  { (w.log (.started own (w.items own))).setSock own ({ · with tls := w.nextTls }) with nextTls := w.nextTls + 1 }

theorem begun_own : (begun own w).socks own = { w.socks own with tls := w.nextTls } := by
  unfold begun
  exact setSock_socks (w.log (.started own (w.items own))) own ({ · with tls := w.nextTls })

theorem begun_other (other : sock ≠ own) : (begun own w).socks sock = w.socks sock := by
  unfold begun
  exact setSock_other (w.log (.started own (w.items own))) ({ · with tls := w.nextTls }) other

/-- What one message leads to. A handshake answers at once, with 0 or with an
error. -/
inductive Handled (own : Fin 64) (P : Message → Prop) (w w' : World) : Prop
  | refused : (w.socks own).phs = .uninit → Quiet (w.log (.closed own)) w' → Handled own P w w'
  | failed : (w.socks own).phs = .uninit → Dropped own P (begun own w) w' → Handled own P w w'
  | secured : (w.socks own).phs = .uninit →
      Undisturbed (Event.Shared P) ((begun own w).setSock own ({ · with phs := .mqtt })) w' → Handled own P w w'
  | met : (w.socks own).phs = .mqtt → Turned own P w w' → Handled own P w w'

theorem handle_handled {msg : Message} (asks : Asks msg.socket P w) (sound : w.clientStore.Sound)
    (secured : (w.socks msg.socket).phs ≠ .tlsHandshake) (prompt : ∀ code ∈ w.env.handshakes, code ≤ 0)
    (ran : handle msg w = .ok (u, w')) : Handled msg.socket P w w' := by
  rw [handle, sockAt_bind_ok] at ran
  cases phase : (w.socks msg.socket).phs with
  | uninit =>
    rw [phase] at ran
    dsimp only at ran
    rw [onHeap_bind_ok] at ran
    split at ran
    · obtain ⟨⟨⟩, w₁, started, ran⟩ := bind_ok.mp ran
      cases started
      obtain ⟨code, w₂, shook, ran⟩ := bind_ok.mp ran
      cases shook
      have answer : w.env.handshakes.headD 0 ≤ 0 := by
        cases codes : w.env.handshakes with
        | nil => exact le_refl _
        | cons code rest => exact prompt code (codes ▸ List.mem_cons_self)
      have begins (env : Env) : Local msg.socket ((begun msg.socket w).Named msg.socket) P (begun msg.socket w)
          { begun msg.socket w with env := env } := .quiet ⟨env, w.buf, rfl⟩
      split at ran
      · exact .failed phase (.preceded (begins _) (dropConn_dropped (.refl _) ⟨asks.self, asks.others⟩ ran))
      split at ran
      · rw [setSock_bind_ok] at ran
        have asked : Along (Undisturbed (Event.Shared P)) (do let _ ← sendtoque ⟨msg.socket, .read⟩) :=
          shared_bind (shared_request (asks.self _)) fun _ => shared_pure _
        refine .secured phase (.trans (.quiet ⟨_, w.buf, rfl⟩) (asked _ _ _ ran))
      · rename_i passed failed
        exact absurd (le_antisymm answer (not_lt.mp passed)) failed
    · obtain rfl := log_ok.mp ran
      exact .refused phase ⟨_, w.buf, rfl⟩
  | tlsHandshake => exact absurd phase secured
  | mqtt =>
    rw [phase] at ran
    exact .met phase (mqttPhase_turned asks sound ran)

/-! ### What is reported -/

theorem shared_reported (shared : e.Shared P) : e.Reported own P := by
  cases e <;> first | exact shared | exact trivial | exact shared.elim

theorem local_reported {sockst : SockCid} {S : Prop} (held : e.Local own sockst S P) : e.Reported own P := by
  cases e with
  | wrote | received => exact held.1
  | publishing | acked => exact held.2.1
  | sought => exact held.2
  | queued => exact held
  | closed | started | connecting | dropping | ended => exact held.elim
  | _ => exact trivial

theorem late_reported (late : e.Late own misread P) : e.Reported own P := by
  cases e with
  | wrote => exact late.1
  | ended | queued => exact late
  | _ => first | exact trivial | exact late.elim

theorem early_reported {sockst : SockCid} (early : e.Early own sockst P) : e.Reported own P := by
  rcases early with held | ⟨by_, sendwill, rfl⟩ | ⟨-, clientid, clean, prev, rfl⟩
  · exact local_reported held
  · rfl
  · rfl

theorem evictions_reported {events : List Event} (evicts : Evictions P evicted events) :
    ∀ e ∈ events, e.Reported own P := by
  cases evicts with
  | none => exact List.forall_mem_nil _
  | some victim clientid client ok asked =>
    simp only [List.forall_mem_cons]
    exact ⟨.inr asked, trivial, asked, List.forall_mem_nil _⟩

/-- The run reports only what a message for the socket can. -/
def Reports (own : Fin 64) (P : Message → Prop) (w w' : World) : Prop :=
  ∃ events, w'.trace = events ++ w.trace ∧ ∀ e ∈ events, e.Reported own P

theorem Dropped.reports (dropped : Dropped own P w w') : Reports own P w w' := by
  obtain ⟨late, early, grown, after, before⟩ := dropped.grown
  refine ⟨_, grown, ?_⟩
  simp only [List.forall_mem_append, List.forall_mem_cons]
  exact ⟨fun e member => late_reported (after e member), .inl rfl, fun e member => early_reported (before e member)⟩

theorem Connected.reports (connected : Connected own P evicted w w') : Reports own P w w' := by
  obtain ⟨late, sockst, evictions, early, clean, will, prev, subscriptions, grown, after, evicts, before⟩ :=
    connected.grown
  refine ⟨_, grown, ?_⟩
  simp only [List.forall_mem_append, List.forall_mem_cons]
  exact ⟨⟨fun e member => shared_reported (after e member), trivial, rfl, evictions_reported evicts⟩, rfl,
    fun e member => local_reported (before e member)⟩

/-- A session that is set up on the socket before. -/
theorem reports_begun (rest : Reports own P (begun own w) w') : Reports own P w w' := by
  obtain ⟨events, grown, held⟩ := rest
  refine ⟨events ++ [.started own (w.items own)], ?_, ?_⟩
  · rw [grown, List.append_assoc]
    rfl
  · exact List.forall_mem_append.mpr ⟨held, List.forall_mem_singleton.mpr rfl⟩

theorem Handled.reports (handled : Handled own P w w') : Reports own P w w' := by
  cases handled with
  | refused fresh quiet =>
    obtain ⟨env, buf, rfl⟩ := quiet
    exact ⟨[.closed own], rfl, List.forall_mem_singleton.mpr (.inl rfl)⟩
  | failed fresh dropped => exact reports_begun dropped.reports
  | secured fresh kept =>
    obtain ⟨events, grown, shared⟩ := kept.grown
    exact reports_begun ⟨events, grown, fun e member => shared_reported (shared e member)⟩
  | met settled turned =>
    rcases turned with kept | dropped | ⟨evicted, connected⟩
    · obtain ⟨events, grown, held⟩ := kept.grown
      exact ⟨events, grown, fun e member => local_reported (held e member)⟩
    · exact dropped.reports
    · exact connected.reports

/-- Clients are recorded under their sockets of before, and one under the socket
itself. -/
theorem Handled.records (handled : Handled own P w w') {target : Fin 64} (held : w'.Records target) :
    w.Records target ∨ target = own := by
  cases handled with
  | refused fresh quiet =>
    obtain ⟨env, buf, rfl⟩ := quiet
    exact .inl held
  | failed fresh dropped => exact .inl (dropped.records target held)
  | secured fresh kept => exact .inl (kept.records target held)
  | met settled turned =>
    rcases turned with kept | dropped | ⟨evicted, connected⟩
    · exact .inl (kept.records target held)
    · exact .inl (dropped.records target held)
    · exact connected.records target held

end Outcomes
end MqttBroker
