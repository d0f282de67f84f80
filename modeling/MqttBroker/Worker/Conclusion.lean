import MqttBroker.Worker.FanOut
import MqttBroker.Worker.Sessions

/-! How an event ends for its socket. Every exit of the dispatcher drops the
connection or asks for the next event, but for three: a first byte that no
branch is for, an acknowledgement of the wrong length that has its message sent
again, and an UNSUBSCRIBE with the wrong reserved bits. -/
namespace MqttBroker

/-- A read or write request for a socket. -/
def Event.Requests (sock : Fin 64) : Event → Prop
  | .queued ⟨target, .read⟩ _ | .queued ⟨target, .write⟩ _ => target = sock
  | _ => False

/-- A write, a request or a packet of a socket. -/
def Event.Touches (sock : Fin 64) : Event → Prop
  | .queued ⟨target, .read⟩ _ | .queued ⟨target, .write⟩ _ => target = sock
  | .wrote target .. | .received target .. | .acked target .. | .started target _ => target = sock
  | _ => False

namespace Conclusion
open Logic Worker World FanOut

/-- The connection is closed and the socket not touched after it. -/
def Dropped (sock : Fin 64) (events : List Event) : Prop :=
  ∃ later earlier, events = later ++ .closed sock :: earlier ∧ ∀ e ∈ later, ¬ e.Touches sock

/-- The connection is kept and a request is issued for the socket. -/
def Rearmed (sock : Fin 64) (events : List Event) : Prop :=
  .closed sock ∉ events ∧ ∃ e ∈ events, e.Requests sock

/-- The two ways in which an event may end; `events` are newest first. -/
def Concluded (sock : Fin 64) (w w' : World) : Prop :=
  ∃ events, w'.trace = events ++ w.trace ∧ (Rearmed sock events ∨
    Dropped sock events ∧ (w'.socks sock).client = none ∧ (w'.socks sock).phs = .uninit)

/-- A run that writes events of one kind. -/
def Passes (P : Event → Prop) (w w' : World) : Prop :=
  ∃ events, w'.trace = events ++ w.trace ∧ ∀ e ∈ events, P e

variable {w w₁ w₂ w' : World} {sock : Fin 64} {P Q : Event → Prop} {α β : Type} {a : α}

/-- The connection stays open. -/
def Open (sock : Fin 64) (e : Event) : Prop := e ≠ .closed sock

/-- No connection is set up or closed. -/
def Still : Event → Prop
  | .closed _ | .started .. => False
  | _ => True

theorem Still.opens {e : Event} (still : Still e) : Open sock e := by
  rintro rfl
  exact still

/-- The connection stays open and nothing is requested. -/
def Mute (sock : Fin 64) (e : Event) : Prop := e ≠ .closed sock ∧ ¬ e.Requests sock

namespace Passes

theorem trans (first : Passes P w w₁) (second : Passes P w₁ w₂) : Passes P w w₂ :=
  trace_trans first second

theorem refl (w : World) : Passes P w w := ⟨[], rfl, List.forall_mem_nil _⟩

theorem mono (passes : Passes P w w') (wider : ∀ e, P e → Q e) : Passes Q w w' :=
  passes.imp fun _ grown => ⟨grown.1, fun e member => wider e (grown.2 e member)⟩

theorem log {e : Event} (fine : P e) : Passes P w (w.log e) :=
  ⟨[e], rfl, List.forall_mem_singleton.mpr fine⟩

theorem quiet (quiet : Quiet w w') : Passes P w w' := by
  obtain ⟨env, buf, rfl⟩ := quiet
  exact .refl w

end Passes

theorem passes_bind {m : Worker α} {f : α → Worker β} (first : Along (Passes P) m)
    (rest : ∀ a, Along (Passes P) (f a)) : Along (Passes P) (m >>= f) := by
  refine Along.bind ?_ first rest
  exact Passes.trans

theorem passes_quiet {m : Worker α} (quiet : Along Quiet m) : Along (Passes P) m :=
  fun w a w' ran => .quiet (quiet w a w' ran)

theorem passes_pure (a : α) : Along (Passes P) (pure a : Worker α) := Along.pure Passes.refl a

theorem passes_sendtoque {msg : Message} (fine : ∀ ok, P (.queued msg ok)) :
    Along (Passes P) (sendtoque msg) := by
  intro w ok w' ran
  obtain ⟨env, rfl⟩ := sendtoque_ok ran
  exact (Passes.quiet ⟨env, w.buf, rfl⟩).trans (.log (fine ok))

theorem passes_write {target : Fin 64} {bytes : List UInt8} {item : Option PackidStateItem}
    (fine : ∀ sockst, P (.wrote target sockst bytes item)) :
    Along (Passes P) (connWrite target bytes item) := by
  intro w ok w' ran
  obtain ⟨env, rfl⟩ := connWrite_ok ran
  exact (Passes.quiet ⟨env, w.buf, rfl⟩).trans (.log (fine _))

/-- The events of the messages and the items, which open and close nothing. -/
def OfTables : Event → Prop
  | .willed .. | .distributing .. | .adding .. | .retain .. | .retaining _ | .keeping .. | .sought ..
  | .counting _ | .uncounting _ | .offering .. | .enqueued .. | .lost _ | .resending ..
  | .unsent _ => True
  | _ => False

theorem passes_storeAdd (tables : ∀ e, OfTables e → P e) (packetId : UInt16) (frame : List UInt8)
    (qos count : UInt8) : Along (Passes P) (storeAdd packetId frame qos count) := by
  intro w ok w' ran
  obtain ⟨-, quiet⟩ := storeAdd_ok ran
  refine Passes.trans ?_ (.quiet quiet)
  exact ⟨[_], rfl, List.forall_mem_singleton.mpr (tables _ trivial)⟩

theorem passes_countUp (tables : ∀ e, OfTables e → P e) (i : Nat) :
    Along (Passes P) (Worker.countUp i) := by
  intro w u w' ran
  obtain rfl := countUp_ok.mp ran
  exact ⟨[_], rfl, List.forall_mem_singleton.mpr (tables _ trivial)⟩

theorem passes_countDown (tables : ∀ e, OfTables e → P e) (i : Nat) (packetId : UInt16) :
    Along (Passes P) (Worker.countDown i packetId) := by
  intro w u w' ran
  obtain rfl := countDown_ok.mp ran
  exact ⟨[_], rfl, List.forall_mem_singleton.mpr (tables _ trivial)⟩

theorem passes_countDownIf (tables : ∀ e, OfTables e → P e) (packetId : UInt16) (node : Option Nat) :
    Along (Passes P) (countDownIf packetId node) := by
  cases node with
  | none => exact passes_pure _
  | some i => exact passes_countDown tables i packetId

theorem passes_setItem (target : Fin 64) (i : Nat) (f : PackidStateItem → PackidStateItem) :
    Along (Passes P) (modify (·.setItem target i f) : Worker Unit) := by
  intro w u w' ran
  obtain rfl := modify_ok.mp ran
  exact .refl w

theorem passes_addPacketId (tables : ∀ e, OfTables e → P e) (target : Fin 64)
    (item : PackidStateItem) : Along (Passes P) (addPacketId target item) := by
  intro w u w' ran
  rcases trace_added (addPacketId_ok ran) with ⟨i, same⟩ | same
  · exact ⟨[_], same, List.forall_mem_singleton.mpr (tables _ trivial)⟩
  · exact ⟨[_], same, List.forall_mem_singleton.mpr (tables _ trivial)⟩

theorem passes_log {e : Event} (fine : P e) : Along (Passes P) (Worker.log e) := by
  intro w u w' ran
  obtain rfl := log_ok.mp ran
  exact .log fine

/-! ### Publishing -/

theorem quiet_sockAt (target : Fin 64) : Along Quiet (sockAt target) :=
  quiet_get fun _ => quiet_pure _

theorem quiet_storeGet (packetId : UInt16) : Along Quiet (storeGet packetId) :=
  quiet_get fun _ => quiet_pure _

theorem passes_logFailure (tables : ∀ e, OfTables e → P e) (target : Fin 64)
    (item : PackidStateItem) (written : Bool) :
    Along (Passes P) (logFailure target item written) := by
  intro w u w' ran
  obtain rfl := logFailure_ok ran
  split
  · exact .refl w
  · exact .log (tables _ trivial)

/-- Sending a message again asks for nothing. -/
theorem passes_publish (tables : ∀ e, OfTables e → P e)
    (writes : ∀ target sockst bytes item, P (.wrote target sockst bytes item)) (frame : List UInt8) (qos : UInt8)
    (packetId : UInt16) (target : Fin 64) (i : Nat) (item : PackidStateItem) (deleteRetain : Bool) :
    Along (Passes P) (publish frame qos packetId target i item deleteRetain) := by
  unfold publish
  split
  · exact fun _ _ _ ran => absurd ran fault_ok
  · refine passes_bind (passes_write fun _ => writes _ _ _ _) fun written => ?_
    refine passes_bind (passes_quiet (quiet_storeGet _)) fun node => ?_
    refine passes_bind (passes_logFailure tables _ _ _) fun _ => ?_
    split
    · exact passes_bind (passes_setItem _ _ _) fun _ => passes_countDownIf tables _ _
    · refine passes_bind (passes_setItem _ _ _) fun _ => ?_
      split
      · exact passes_bind (passes_storeAdd tables _ _ _ _) fun _ => passes_pure _
      · exact passes_pure _

variable {p : Publication}

/-- The requests for the clients a message comes to are of this kind. -/
def AsksAll (P : Event → Prop) (p : Publication) (nodes : List (Node Client)) : Prop :=
  ∀ node ∈ nodes, Recipient p.topic node.data → ∀ target, node.data.sock = some target → ∀ op ok,
    P (.queued ⟨target, op⟩ ok)

/-- The loop over the clients asks for the sockets of those it comes to. -/
theorem passes_fanOut (tables : ∀ e, OfTables e → P e) {nodes : List (Node Client)} (asks : AsksAll P p nodes)
    (stamp i : Nat) :
    Along (Passes P) (fanOut p.topic p.frame p.qos p.packetId p.publisher stamp i nodes) := by
  induction nodes with
  | nil => exact passes_pure _
  | cons node rest ih =>
    obtain ⟨here, later⟩ := List.forall_mem_cons.mp asks
    have ih := ih later
    obtain ⟨clientid, client⟩ := node
    by_cases attached : FanOut.Attached client
    · cases subscribed : client.isSubscribed p.topic with
      | error kind =>
        intro w u w' ran
        unfold fanOut at ran
        rw [if_pos (show client.sock ≠ none ∨ ¬ client.cleanSession from attached), subscribed] at ran
        obtain ⟨granted, failed, -⟩ := check_bind_ok ran
        cases failed
      | ok granted =>
        rw [fanOut_attached attached subscribed]
        split
        · exact ih
        · rename_i some_granted
          have here := here ⟨attached, granted, subscribed, some_granted⟩
          cases at_sock : client.sock with
          | none => exact fun _ _ _ ran => absurd ran fault_ok
          | some target =>
            refine passes_bind (passes_sendtoque fun ok => here target at_sock _ ok) fun _ => ?_
            refine passes_bind (passes_sendtoque fun ok => here target at_sock _ ok) fun asked => ?_
            split
            · refine passes_bind (passes_quiet (quiet_get fun _ => quiet_pure _)) fun sockst => ?_
              refine passes_bind (passes_addPacketId tables _ _) fun _ => ?_
              exact passes_bind (passes_countUp tables _) fun _ => ih
            · exact passes_bind (passes_sendtoque fun ok => here target at_sock _ ok) fun _ => ih
    · rw [fanOut_detached attached]
      exact ih

/-- `publish_by_topic` asks for the sockets of the clients its message comes to,
if the table has one for the packet id. -/
theorem publishByTopic_passes (tables : ∀ e, OfTables e → P e) {u : Unit}
    (asks : (added w p).2.1.get p.packetId ≠ none → AsksAll P p w.clientStore.nodes)
    (ran : publishByTopic p.topic p.frame p.qos p.packetId p.publisher w = .ok (u, w')) : Passes P w w' := by
  have first : Passes P w (entered w p) :=
    ⟨[_, _], rfl, List.forall_mem_cons.mpr
      ⟨tables _ trivial, List.forall_mem_singleton.mpr (tables _ trivial)⟩⟩
  rw [publishByTopic_entered] at ran
  refine first.trans ?_
  cases found : (added w p).2.1.get p.packetId with
  | none =>
    rw [found] at ran
    rw [(pure_ok.mp ran).2]
    exact .refl _
  | some i =>
    rw [found] at ran asks
    obtain ⟨⟨⟩, w₂, fanned, ran⟩ := bind_ok.mp (log_bind_ok.mp ran)
    refine Passes.trans (.log (tables (.offering p.packetId p.topic w.clientStore.nodes) trivial)) ?_
    refine (passes_fanOut tables (asks (Option.some_ne_none i)) _ _ _ _ _ fanned).trans ?_
    exact passes_countDown tables i p.packetId _ _ _ ran

theorem tables_still (e : Event) (kind : OfTables e) : Still e := by
  cases e <;> first | exact trivial | exact kind

theorem tables_mute (e : Event) (kind : OfTables e) : Mute sock e := by
  cases e <;> simp_all [OfTables, Mute, Event.Requests]

theorem tables_away (e : Event) (kind : OfTables e) : ¬ e.Touches sock := by
  cases e <;> simp_all [OfTables, Event.Touches]

theorem passes_publishByTopic (topic frame : List UInt8) (qos : UInt8) (packetId : UInt16)
    (publisher : Option Publisher) :
    Along (Passes Still) (publishByTopic topic frame qos packetId publisher) :=
  fun _ _ _ ran => publishByTopic_passes (p := ⟨topic, frame, qos, packetId, publisher⟩) tables_still
    (fun _ _ _ _ _ _ _ _ => trivial) ran

/-! ### Closing a connection -/

/-- The will of a client as a message. -/
def willOf (client : Client) (packetId : UInt16) : Publication :=
  ⟨client.will.topic.elems, client.will.msg.elems, client.will.qos, packetId, none⟩

/-- The world in which the will of the client at an address is published. -/
def hidden (w : World) (addr : Nat) : World := w.setClient addr ({ · with sock := none })

/-- The requests for the clients that the will of a socket's client comes to are
of this kind, if the table has a message for its packet id. -/
def AsksOthers (sock : Fin 64) (P : Event → Prop) (sendwill : Bool) (w : World) : Prop :=
  ∀ addr client, (w.socks sock).client = some addr → w.clientAt addr = some client →
    (client.will.presenceFlag && sendwill) = true →
    (added (hidden w addr) (willOf client (w.env.randoms.headD 0))).2.1.get (w.env.randoms.headD 0) ≠ none →
      AsksAll P (willOf client (w.env.randoms.headD 0)) (hidden w addr).clientStore.nodes

/-- The world in which it is published. -/
def willing (w : World) (sock : Fin 64) (addr : Nat) (client : Client) : World :=
  { hidden w addr with env := { w.env with randoms := w.env.randoms.tail } }.log (.willed (w.socks sock).tls
    client.will.topic.elems client.will.msg.elems client.will.qos client.will.msg.elems)

theorem publishWill_willing {addr : Nat} {client : Client} {sendwill : Bool}
    (attached : (w.socks sock).client = some addr) (held : w.clientAt addr = some client)
    (willed : (client.will.presenceFlag && sendwill) = true) : publishWill (w.socks sock) sendwill w =
      (publishByTopic client.will.topic.elems client.will.msg.elems client.will.qos (w.env.randoms.headD 0) none >>=
        fun _ => Worker.setClient (some addr) ({ · with sock := client.sock })) (willing w sock addr client) := by
  unfold publishWill
  rw [attached]
  dsimp only
  rw [bind_of_ok (deref_held held), if_pos willed]
  rfl

theorem publishWill_unwilled {addr : Nat} {client : Client} {sendwill : Bool}
    (attached : (w.socks sock).client = some addr) (held : w.clientAt addr = some client)
    (unwilled : ¬ (client.will.presenceFlag && sendwill) = true) :
    publishWill (w.socks sock) sendwill w = .ok ((), w) := by
  unfold publishWill
  rw [attached]
  dsimp only
  rw [bind_of_ok (deref_held held), if_neg unwilled]
  rfl

theorem publishWill_vacant {sendwill : Bool} (vacant : (w.socks sock).client = none) :
    publishWill (w.socks sock) sendwill w = .ok ((), w) := by
  unfold publishWill
  rw [vacant]
  rfl

/-- The will is published to the sockets of the clients it comes to. -/
theorem publishWill_trace (tables : ∀ e, OfTables e → P e) {sendwill : Bool} {u : Unit}
    (asks : AsksOthers sock P sendwill w) (ran : publishWill (w.socks sock) sendwill w = .ok (u, w')) :
    Passes P w w' := by
  cases attached : (w.socks sock).client with
  | none =>
    rw [publishWill_vacant attached] at ran
    cases ran
    exact .refl w
  | some addr =>
    have start := ran
    rw [publishWill, attached] at start
    obtain ⟨_, client, same, held, -⟩ := deref_bind_ok start
    cases same
    by_cases willed : (client.will.presenceFlag && sendwill) = true
    · rw [publishWill_willing attached held willed] at ran
      obtain ⟨⟨⟩, w₁, published, ran⟩ := bind_ok.mp ran
      obtain ⟨_, same, rfl⟩ := setClient_ok ran
      have first : Passes P w (willing w sock addr client) :=
        ⟨[_], rfl, List.forall_mem_singleton.mpr (tables _ trivial)⟩
      have others : Passes P (willing w sock addr client) w₁ :=
        publishByTopic_passes (p := willOf client (w.env.randoms.headD 0)) tables
          (asks addr client attached held willed) published
      exact first.trans others
    · rw [publishWill_unwilled attached held willed] at ran
      cases ran
      exact .refl w

theorem releaseClient_trace (fine : ∀ clientid client, P (.ended sock clientid client)) {sockst : SockCid} {u : Unit}
    (ran : releaseClient sock sockst w = .ok (u, w')) :
    ∃ events, w'.trace = events ++ w.trace ∧ ∀ e ∈ events, P e := by
  unfold releaseClient at ran
  cases attached : sockst.client with
  | none =>
    rw [attached] at ran
    rw [(pure_ok.mp ran).2]
    exact ⟨[], rfl, List.forall_mem_nil _⟩
  | some addr =>
    rw [attached] at ran
    obtain ⟨_, client, same, held, ran⟩ := deref_bind_ok ran
    rw [log_bind_ok] at ran
    split at ran
    · rw [get_bind_ok] at ran
      obtain ⟨store, erased, ran⟩ := check_bind_ok ran
      obtain rfl := set_ok.mp ran
      exact ⟨[_], rfl, List.forall_mem_singleton.mpr (fine _ _)⟩
    · obtain ⟨_, same, rfl⟩ := setClient_ok ran
      exact ⟨[_], rfl, List.forall_mem_singleton.mpr (fine _ _)⟩

/-- The world of `drop_conn` once the connection is closed. -/
def shut (w : World) (sock : Fin 64) (sendwill : Bool) : World :=
  ({ w.log (.dropping sock (w.socks sock) sendwill) with
    env := { w.env with sends := w.env.sends.tail } }.log
      (.queued ⟨sock, .delall⟩ (w.env.sends.headD true))).log (.closed sock)

theorem shut_trace {w₀ : World} {before : List Event} (sendwill : Bool) (begun : w.trace = before ++ w₀.trace) :
    (shut w sock sendwill).trace = .closed sock :: (.queued ⟨sock, .delall⟩ (w.env.sends.headD true) ::
      .dropping sock (w.socks sock) sendwill :: before) ++ w₀.trace := by
  change .closed sock :: .queued ⟨sock, .delall⟩ (w.env.sends.headD true) ::
    .dropping sock (w.socks sock) sendwill :: w.trace = _
  rw [begun]
  rfl

theorem dropConn_shut (w : World) (sock : Fin 64) (sendwill : Bool) : dropConn sock sendwill w =
    (publishWill (w.socks sock) sendwill >>= fun _ => endSession sock) (shut w sock sendwill) := rfl

theorem endSession_trace (ended : ∀ clientid client, P (.ended sock clientid client)) {u : Unit}
    (ran : endSession sock w = .ok (u, w')) :
    Passes P w w' ∧ (w'.socks sock).client = none ∧ (w'.socks sock).phs = .uninit := by
  rw [endSession, sockAt_bind_ok] at ran
  obtain ⟨⟨⟩, w₁, released, ran⟩ := bind_ok.mp ran
  obtain rfl := setSock_ok.mp ran
  have grown : Passes P w w₁ := releaseClient_trace ended released
  exact ⟨grown, by rw [setSock_socks], by rw [setSock_socks]⟩

/-- What dropping a connection writes, before and after its close. -/
theorem dropConn_trace (tables : ∀ e, OfTables e → P e) (ended : ∀ clientid client, P (.ended sock clientid client))
    {sendwill : Bool} (asks : AsksOthers sock P sendwill w) {u : Unit}
    (ran : dropConn sock sendwill w = .ok (u, w')) :
    (∃ later ok, (∀ e ∈ later, P e) ∧ w'.trace = later ++
      .closed sock :: .queued ⟨sock, .delall⟩ ok :: .dropping sock (w.socks sock) sendwill :: w.trace) ∧
      (w'.socks sock).client = none ∧ (w'.socks sock).phs = .uninit := by
  rw [dropConn_shut] at ran
  obtain ⟨⟨⟩, w₁, willed, ran⟩ := bind_ok.mp ran
  obtain ⟨late, grown, fine⟩ := publishWill_trace (w := shut w sock sendwill) tables asks willed
  obtain ⟨⟨last, grown', fine'⟩, free⟩ := endSession_trace ended ran
  refine ⟨⟨last ++ late, w.env.sends.headD true, List.forall_mem_append.mpr ⟨fine', fine⟩, ?_⟩, free⟩
  rw [grown', grown, List.append_assoc]
  rfl

/-! ### Requests -/

/-- A request is issued for the socket and its connection kept. -/
def Asked (sock : Fin 64) (w w' : World) : Prop :=
  ∃ events, w'.trace = events ++ w.trace ∧ Rearmed sock events

theorem Asked.concluded (asked : Asked sock w w') : Concluded sock w w' :=
  asked.imp fun _ asked => ⟨asked.1, .inl asked.2⟩

theorem Asked.continued (asked : Asked sock w w₁) (rest : Passes Still w₁ w') :
    Asked sock w w' := by
  obtain ⟨events, grown, kept, e, member, requests⟩ := asked
  obtain ⟨late, grown', opens⟩ := rest
  refine ⟨late ++ events, by rw [grown', grown, List.append_assoc], ?_, e,
    List.mem_append_right _ member, requests⟩
  intro closed
  rcases List.mem_append.mp closed with closed | closed
  · exact opens _ closed
  · exact kept closed

/-- The events leave the connection open. -/
abbrev StaysOpen (sock : Fin 64) (w w' : World) : Prop :=
  ∃ events, w'.trace = events ++ w.trace ∧ ∀ e ∈ events, Open sock e

theorem Passes.stays (passes : Passes Still w w') : StaysOpen sock w w' :=
  passes.imp fun _ grown => ⟨grown.1, fun e member => (grown.2 e member).opens⟩

/-- What comes before the end of an event does not matter, as long as the
connection is open. -/
theorem Concluded.preceded (first : StaysOpen sock w w₁) (rest : Concluded sock w₁ w') :
    Concluded sock w w' := by
  obtain ⟨early, grown, opens⟩ := first
  obtain ⟨events, grown', ends⟩ := rest
  refine ⟨events ++ early, by rw [grown', grown, List.append_assoc], ?_⟩
  rcases ends with ⟨kept, e, member, requests⟩ | ⟨⟨later, earlier, rfl, away⟩, free⟩
  · refine .inl ⟨fun closed => ?_, e, List.mem_append_left _ member, requests⟩
    rcases List.mem_append.mp closed with closed | closed
    · exact kept closed
    · exact opens _ closed rfl
  · exact .inr ⟨⟨later, earlier ++ early, by simp, away⟩, free⟩

theorem asked_sendtoque {op : Operation} (asks : op = .read ∨ op = .write) {ok : Bool}
    (ran : sendtoque ⟨sock, op⟩ w = .ok (ok, w')) : Asked sock w w' := by
  obtain ⟨env, rfl⟩ := sendtoque_ok ran
  refine ⟨[_], rfl, by simp, _, List.mem_singleton_self _, ?_⟩
  rcases asks with rfl | rfl <;> rfl

theorem Asked.preceded (first : StaysOpen sock w w₁) (asked : Asked sock w₁ w') : Asked sock w w' := by
  obtain ⟨early, grown, opens⟩ := first
  obtain ⟨events, grown', kept, e, member, requests⟩ := asked
  refine ⟨events ++ early, by rw [grown', grown, List.append_assoc], fun closed => ?_, e,
    List.mem_append_left _ member, requests⟩
  rcases List.mem_append.mp closed with closed | closed
  · exact kept closed
  · exact opens _ closed rfl

/-! ### A will that comes back -/

/-- None of those the will of the socket's client comes to is recorded under the
socket. -/
def Unheard (sock : Fin 64) (sendwill : Bool) (w : World) : Prop :=
  ∀ addr client, (w.socks sock).client = some addr → w.clientAt addr = some client →
    (client.will.presenceFlag && sendwill) = true →
    (added (hidden w addr) (willOf client (w.env.randoms.headD 0))).2.1.get (w.env.randoms.headD 0) ≠ none →
      ∀ node ∈ (hidden w addr).clientStore.nodes, Recipient client.will.topic.elems node.data →
        node.data.sock ≠ some sock

theorem asksOthers_away {sendwill : Bool} (unheard : Unheard sock sendwill w) :
    AsksOthers sock (fun e => ¬ e.Touches sock) sendwill w := by
  intro addr client attached held willed found node member recipient target at_target op ok
  have elsewhere : target ≠ sock := by
    rintro rfl
    exact unheard addr client attached held willed found node member recipient at_target
  cases op <;> simp [Event.Touches, elsewhere]

/-- Every client that a message comes to has its socket asked for. -/
theorem fanOut_asks {nodes : List (Node Client)} {stamp i : Nat} {node : Node Client} (member : node ∈ nodes)
    (recipient : Recipient p.topic node.data) (at_sock : node.data.sock = some sock) {u : Unit}
    (ran : fanOut p.topic p.frame p.qos p.packetId p.publisher stamp i nodes w = .ok (u, w')) : Asked sock w w' := by
  induction nodes generalizing w with
  | nil => cases member
  | cons first rest ih =>
    obtain ⟨clientid, client⟩ := first
    have later_passes : Along (Passes Still) (fanOut p.topic p.frame p.qos p.packetId p.publisher stamp i rest) :=
      passes_fanOut tables_still (fun _ _ _ _ _ _ _ => trivial) stamp i
    have enqueues (target : Fin 64) (item : PackidStateItem) :
        Along (Passes Still) (addPacketId target item >>= fun _ => Worker.countUp i) :=
      passes_bind (passes_addPacketId tables_still _ _) fun _ => passes_countUp tables_still _
    rcases List.mem_cons.mp member with rfl | later
    · obtain ⟨attached, granted, subscribed, some_granted⟩ := recipient
      rw [fanOut_attached attached subscribed, if_neg some_granted] at ran
      replace at_sock : client.sock = some sock := at_sock
      rw [at_sock] at ran
      obtain ⟨_, w₁, cleared, ran⟩ := bind_ok.mp ran
      obtain ⟨ok, w₂, asked, ran⟩ := bind_ok.mp ran
      have first : Passes Still w w₁ := passes_sendtoque (fun _ => trivial) _ _ _ cleared
      refine (Asked.preceded first.stays (asked_sendtoque (.inr rfl) asked)).continued ?_
      split at ran
      · rw [sockAt_bind_ok] at ran
        obtain ⟨⟨⟩, w₃, added, ran⟩ := bind_ok.mp ran
        obtain ⟨⟨⟩, w₄, counted, ran⟩ := bind_ok.mp ran
        refine (enqueues _ _ _ _ _ (bind_ok.mpr ⟨_, _, added, counted⟩)).trans (later_passes _ _ _ ran)
      · obtain ⟨_, w₃, refused, ran⟩ := bind_ok.mp ran
        exact (passes_sendtoque (fun _ => trivial) _ _ _ refused).trans (later_passes _ _ _ ran)
    · by_cases attached : FanOut.Attached client
      · unfold fanOut at ran
        rw [if_pos (show client.sock ≠ none ∨ ¬ client.cleanSession from attached)] at ran
        obtain ⟨granted, -, ran⟩ := check_bind_ok ran
        split at ran
        · exact ih later ran
        · cases at_target : client.sock with
          | none =>
            simp only [at_target] at ran
            exact absurd ran fault_ok
          | some target =>
            simp only [at_target] at ran
            obtain ⟨_, w₁, cleared, ran⟩ := bind_ok.mp ran
            obtain ⟨ok, w₂, asked, ran⟩ := bind_ok.mp ran
            have first : Passes Still w w₂ :=
              (passes_sendtoque (fun _ => trivial) _ _ _ cleared).trans
                (passes_sendtoque (fun _ => trivial) _ _ _ asked)
            split at ran
            · rw [sockAt_bind_ok] at ran
              obtain ⟨⟨⟩, w₃, added, ran⟩ := bind_ok.mp ran
              obtain ⟨⟨⟩, w₄, counted, ran⟩ := bind_ok.mp ran
              have queued := first.trans (enqueues _ _ _ _ _ (bind_ok.mpr ⟨_, _, added, counted⟩))
              exact .preceded queued.stays (ih later ran)
            · obtain ⟨_, w₃, refused, ran⟩ := bind_ok.mp ran
              have queued := first.trans (passes_sendtoque (fun _ => trivial) _ _ _ refused)
              exact .preceded queued.stays (ih later ran)
      · rw [fanOut_detached attached] at ran
        exact ih later ran

/-- A will that comes to a client recorded under the socket asks for the
socket. -/
theorem publishWill_asks {sendwill : Bool} (heard : ¬ Unheard sock sendwill w) {u : Unit}
    (ran : publishWill (w.socks sock) sendwill w = .ok (u, w')) : Asked sock w w' := by
  unfold Unheard at heard
  push Not at heard
  obtain ⟨addr, client, attached, held, willed, found, node, member, recipient, at_sock⟩ := heard
  rw [publishWill_willing attached held willed] at ran
  obtain ⟨⟨⟩, w₁, published, ran⟩ := bind_ok.mp ran
  obtain ⟨_, -, rfl⟩ := setClient_ok ran
  let p := willOf client (w.env.randoms.headD 0)
  have entering : publishByTopic p.topic p.frame p.qos p.packetId p.publisher (willing w sock addr client) =
    .ok ((), w₁) := published
  rw [publishByTopic_entered] at entering
  obtain ⟨j, there⟩ := Option.ne_none_iff_exists'.mp found
  replace there : (added (willing w sock addr client) p).2.1.get p.packetId = some j := there
  rw [there] at entering
  obtain ⟨⟨⟩, w₂, fanned, counted⟩ := bind_ok.mp (log_bind_ok.mp entering)
  have asked : Asked sock (begun (willing w sock addr client) p) w₂ := fanOut_asks member recipient at_sock fanned
  have first : StaysOpen sock w (begun (willing w sock addr client) p) := ⟨[_, _, _, _], rfl, by simp [Open]⟩
  have last : Passes Still w₂ w₁ := passes_countDown tables_still _ _ _ _ _ counted
  exact .continued (.preceded first asked) last

/-- What comes after a connection is closed leaves the socket alone exactly if
it does not ask for it. -/
theorem not_concluded_again {early : List Event} (shut : w₁.trace = .closed sock :: early ++ w.trace)
    (asked : Asked sock w₁ w') : ¬ Concluded sock w w' := by
  obtain ⟨events, grown, kept, e, member, requests⟩ := asked
  have touches : e.Touches sock := by
    cases e with
    | queued msg ok =>
      obtain ⟨target, op⟩ := msg
      cases op <;> exact requests
    | _ => exact requests.elim
  rintro ⟨all, grown', ends⟩
  obtain rfl : all = events ++ .closed sock :: early := by
    have whole : all ++ w.trace = (events ++ .closed sock :: early) ++ w.trace := by
      rw [← grown', grown, shut, List.append_assoc]
    exact List.append_cancel_right whole
  rcases ends with ⟨open_still, -⟩ | ⟨⟨later, earlier, same, away⟩, -⟩
  · exact open_still (List.mem_append_right _ List.mem_cons_self)
  · rcases List.append_eq_append_iff.mp same with ⟨more, rfl, -⟩ | ⟨more, rfl, split⟩
    · exact away e (List.mem_append_left _ member) touches
    · cases more with
      | nil => exact away e (by simpa using member) touches
      | cons first more =>
        obtain ⟨rfl, -⟩ := List.cons.inj split
        exact kept (List.mem_append_right _ List.mem_cons_self)

theorem dropConn_passes {sendwill : Bool} {u : Unit} (ran : dropConn sock sendwill w = .ok (u, w')) :
    Passes Still (shut w sock sendwill) w' := by
  rw [dropConn_shut] at ran
  obtain ⟨⟨⟩, w₁, willed, ended⟩ := bind_ok.mp ran
  have first : Passes Still (shut w sock sendwill) w₁ :=
    publishWill_trace tables_still (fun _ _ _ _ _ _ _ _ _ _ _ _ _ => trivial) willed
  exact first.trans (endSession_trace (fun _ _ => trivial) ended).1

/-- A connection that is dropped ends its event unless the will comes back to
its socket. -/
theorem dropConn_concluded_iff {w₀ : World} (first : StaysOpen sock w₀ w) {sendwill : Bool} {u : Unit}
    (ran : dropConn sock sendwill w = .ok (u, w')) : Concluded sock w₀ w' ↔ Unheard sock sendwill w := by
  obtain ⟨before, begun, -⟩ := first
  constructor
  · intro ends
    by_contra heard
    rw [dropConn_shut] at ran
    obtain ⟨⟨⟩, w₁, willed, ended⟩ := bind_ok.mp ran
    have asked : Asked sock (shut w sock sendwill) w₁ := publishWill_asks heard willed
    have asked := asked.continued (endSession_trace (fun _ _ => trivial) ended).1
    exact not_concluded_again (shut_trace sendwill begun) asked ends
  · intro unheard
    obtain ⟨⟨later, ok, away, grown⟩, free⟩ := dropConn_trace (P := fun e => ¬ e.Touches sock) tables_away
      (fun _ _ => not_false) (asksOthers_away unheard) ran
    refine ⟨later ++ .closed sock :: .queued ⟨sock, .delall⟩ ok :: .dropping sock (w.socks sock) sendwill :: before,
      ?_, .inr ⟨⟨_, _, rfl, away⟩, free⟩⟩
    rw [grown, begun, List.append_assoc]
    rfl

theorem passes_queueAck (target : Fin 64) (state : PacketState) (packetid : UInt16) (qos : UInt8)
    (frame topic : List UInt8) :
    ∀ ok : Bool, Along (Passes Still) (if ok then do
      let sockst ← sockAt target
      addPacketId target ⟨packetid, state, qos, true, { conn := sockst.tls, frame, topic }⟩
      else pure ()) := by
  intro ok
  split
  · exact passes_bind (passes_quiet (quiet_get fun _ => quiet_pure _)) fun _ =>
      passes_addPacketId tables_still _ _
  · exact passes_pure _

/-- A message with the RETAIN flag is put in the tables. -/
theorem passes_retainMessage (topic frame : List UInt8) (qos : UInt8) (packetid : UInt16) :
    Along (Passes Still) (retainMessage topic frame qos packetid) := by
  refine passes_bind (passes_log trivial) fun _ => ?_
  refine passes_bind (passes_storeAdd tables_still _ _ _ _) fun ok => ?_
  split
  · refine passes_bind (passes_log trivial) fun _ => ?_
    intro w u w' ran
    rw [get_bind_ok] at ran
    obtain ⟨kept, looked, ran⟩ := check_bind_ok ran
    cases kept with
    | none =>
      obtain ⟨added, appended, ran⟩ := check_bind_ok ran
      rw [log_bind_ok, get_bind_ok] at ran
      obtain rfl := set_ok.mp ran
      exact ⟨[_], rfl, List.forall_mem_singleton.mpr trivial⟩
    | some old =>
      refine passes_bind (passes_quiet (quiet_storeGet old)) (fun node =>
        passes_bind (passes_countDownIf tables_still old node) fun _ w u w' ran => ?_) _ _ _ ran
      obtain rfl := modify_ok.mp ran
      exact .refl _
  · exact passes_pure _

theorem asked_reply (sock : Fin 64) (qos : UInt8) (packetid : UInt16) (frame topic : List UInt8)
    {u : Unit} (ran : replyToPublisher sock qos packetid frame topic w = .ok (u, w')) :
    Asked sock w w' := by
  have acks (state : PacketState) (ran : queueAck sock state packetid qos frame topic w = .ok (u, w')) :
      Asked sock w w' := by
    obtain ⟨ok, mid, asked, ran⟩ := bind_ok.mp ran
    exact (asked_sendtoque (.inr rfl) asked).continued (passes_queueAck _ _ _ _ _ _ ok _ _ _ ran)
  unfold replyToPublisher at ran
  split at ran
  · exact acks _ ran
  split at ran
  · exact acks _ ran
  · obtain ⟨ok, mid, asked, ran⟩ := bind_ok.mp ran
    exact (asked_sendtoque (.inl rfl) asked).continued (passes_pure _ _ _ _ ran)

/-! ### SUBSCRIBE, PINGREQ and DISCONNECT -/

theorem passes_sendRetained (target : Fin 64) (topic : Key) (reqQos : UInt8) :
    Along (Passes Still) (sendRetained target topic reqQos) := by
  intro w u w' ran
  unfold sendRetained at ran
  rw [get_bind_ok] at ran
  refine passes_bind (passes_quiet (quiet_check _)) (fun retained => ?_) _ _ _ ran
  cases retained with
  | none => exact passes_log trivial
  | some packetId =>
    refine passes_bind (passes_quiet (quiet_storeGet _)) fun found => ?_
    cases found with
    | none => exact passes_log trivial
    | some i =>
      intro w u w' ran
      rw [get_bind_ok] at ran
      refine passes_bind (passes_sendtoque fun _ => trivial) (fun ok => ?_) _ _ _ ran
      split
      · refine passes_bind (passes_quiet (quiet_get fun _ => quiet_pure _)) fun sockst => ?_
        refine passes_bind (passes_addPacketId tables_still _ _) fun _ => ?_
        exact passes_bind (passes_countUp tables_still _) fun _ => passes_log trivial
      · exact passes_log trivial

/-- A client's subscriptions are written. -/
theorem passes_resubscribe (client : Option Nat) (f : Client → Client) :
    Along (Passes P) (Worker.setClient client f) := by
  intro w u w' ran
  obtain ⟨addr, -, rfl⟩ := setClient_ok ran
  exact .refl w

theorem quiet_deref (client : Option Nat) : Along Quiet (deref client) := by
  intro w a w' ran
  rw [(deref_ok ran).2]
  exact Quiet.refl w

theorem passes_subscribeTopic (target : Fin 64) (topic : Key) (reqQos : UInt8) (suback : Myvector UInt8) :
    Along (Passes Still) (subscribeTopic target topic reqQos suback) := by
  refine passes_bind (passes_quiet (quiet_sockAt _)) fun sockst => ?_
  refine passes_bind (passes_quiet (quiet_deref _)) fun client => ?_
  intro w a w' ran
  rw [get_bind_ok] at ran
  refine passes_bind (passes_quiet (quiet_check _)) (fun result => ?_) _ _ _ ran
  refine passes_bind (passes_quiet (quiet_onHeap _)) fun _ => ?_
  refine passes_bind (passes_resubscribe _ _) fun _ => ?_
  refine passes_bind (passes_log trivial) fun _ => ?_
  refine passes_bind (passes_quiet (quiet_onHeap _)) fun _ => ?_
  exact passes_bind (passes_sendRetained _ _ _) fun _ => passes_pure _

theorem passes_subscribeLoop (target : Fin 64) (turns curPos : Nat) (packetLength : UInt16)
    (suback : Myvector UInt8) :
    Along (Passes Still) (subscribeLoop target turns curPos packetLength suback) := by
  induction turns generalizing curPos packetLength suback with
  | zero => exact fun _ _ _ ran => absurd ran fault_ok
  | succ turns ih =>
    unfold subscribeLoop
    split
    · exact passes_pure _
    refine passes_bind (passes_quiet (quiet_ntohsAt _)) fun topicLen => ?_
    refine passes_bind (passes_quiet (quiet_rangeAt _ _)) fun topic => ?_
    refine passes_bind (passes_quiet (quiet_byteAt _)) fun reqQos => ?_
    exact passes_bind (passes_subscribeTopic _ _ _ _) fun suback => ih _ _ _

/-! ### Acknowledgements -/

/-- The packet id of an acknowledgement that has been read. -/
def ackId (w : World) : UInt16 := ((w.buf.getD 3 0).toUInt16 <<< 8) ||| (w.buf.getD 2 0).toUInt16

/-- An acknowledgement has the wrong length, and its message and the item that
waits for it are there, so the message is sent again. -/
def Resent (w : World) (sock : Fin 64) (header : Header) (awaited : PacketState) : Prop :=
  (header.packetLength > 4 ∨ w.buf.getD 1 0 ≠ 2) ∧
    (∃ item ∈ w.items sock, item.packetId = ackId w ∧ item.state = awaited) ∧
    w.publishMsgStore.get (ackId w) ≠ none

theorem packetIdAt_ok {id : UInt16} (ran : packetIdAt 2 w = .ok (id, w')) : id = ackId w ∧ w' = w := by
  obtain ⟨low, _, read, ran⟩ := bind_ok.mp ran
  obtain ⟨rfl, rfl⟩ := byteAt_ok read
  obtain ⟨high, _, read, ran⟩ := bind_ok.mp ran
  obtain ⟨rfl, rfl⟩ := byteAt_ok read
  exact pure_ok.mp ran

theorem findItem_search {awaited : PacketState} {id : UInt16}
    {found : Option (PackidStateItem × Nat)}
    (ran : findItem sock awaited w = .ok ((id, found), w')) :
    id = ackId w ∧ Passes (Mute sock) w w' ∧ w'.buf = w.buf ∧
      w'.publishMsgStore = w.publishMsgStore ∧
      (found.isSome ↔ ∃ item ∈ w.items sock, item.packetId = ackId w ∧ item.state = awaited) := by
  obtain ⟨pubidCheck, w₁, read, ran⟩ := bind_ok.mp ran
  obtain ⟨rfl, rfl⟩ := packetIdAt_ok read
  rw [get_bind_ok] at ran
  cases search : (w₁.items sock).zipIdx.find? fun entry =>
      entry.1.packetId = ackId w₁ ∧ entry.1.state = awaited with
  | none =>
    rw [search] at ran
    obtain ⟨same, rfl⟩ := pure_ok.mp ran
    cases same
    refine ⟨rfl, .refl _, rfl, rfl, by simp, ?_⟩
    rintro ⟨item, member, fits⟩
    obtain ⟨i, at_i⟩ := List.mem_iff_getElem?.mp member
    have nothing := List.find?_eq_none.mp search (item, i)
      (List.mk_mem_zipIdx_iff_getElem?.mpr at_i)
    simp [fits] at nothing
  | some entry =>
    rw [search] at ran
    dsimp only at ran
    rw [log_bind_ok] at ran
    obtain ⟨same, rfl⟩ := pure_ok.mp ran
    cases same
    have fits := List.find?_some search
    have member := List.mem_of_find?_eq_some search
    refine ⟨rfl, .log ⟨nofun, not_false⟩, rfl, rfl, fun _ => ⟨entry.1, ?_, by simpa using fits⟩,
      fun _ => rfl⟩
    exact List.mem_of_getElem? (List.mem_zipIdx_iff_getElem?.mp member)

theorem Passes.opens (passes : Passes (Mute sock) w w') : Passes (Open sock) w w' :=
  passes.mono fun _ fine => fine.1

/-- An event that asks for nothing and closes nothing leaves its socket
unattended. -/
theorem not_concluded_mute (passes : Passes (Mute sock) w w') : ¬ Concluded sock w w' := by
  obtain ⟨events, grown, mute⟩ := passes
  rintro ⟨events', grown', ends⟩
  obtain rfl := List.append_cancel_right (grown.symm.trans grown')
  rcases ends with ⟨-, e, member, requests⟩ | ⟨⟨later, earlier, rfl, -⟩, -⟩
  · exact (mute e member).2 requests
  · exact (mute _ (List.mem_append_right _ List.mem_cons_self)).1 rfl

/-! ### UNSUBSCRIBE -/

theorem passes_unsubscribeTopic (opens : ∀ clientid subscriptions, P (.resubscribed clientid subscriptions))
    (target : Fin 64) (topic : Key) : Along (Passes P) (unsubscribeTopic target topic) := by
  refine passes_bind (passes_quiet (quiet_sockAt _)) fun sockst => ?_
  refine passes_bind (passes_quiet (quiet_deref _)) fun client => ?_
  refine passes_bind (passes_quiet (quiet_check _)) fun left => ?_
  refine passes_bind (passes_resubscribe _ _) fun _ => ?_
  exact passes_log (opens _ _)

theorem passes_unsubscribeLoop (opens : ∀ clientid subscriptions, P (.resubscribed clientid subscriptions))
    (target : Fin 64) (turns curPos : Nat) (packetLength : UInt16) :
    Along (Passes P) (unsubscribeLoop target turns curPos packetLength) := by
  induction turns generalizing curPos packetLength with
  | zero => exact fun _ _ _ ran => absurd ran fault_ok
  | succ turns ih =>
    unfold unsubscribeLoop
    split
    · exact passes_pure _
    refine passes_bind (passes_quiet (quiet_ntohsAt _)) fun topicLen => ?_
    refine passes_bind (passes_quiet (quiet_rangeAt _ _)) fun topic => ?_
    exact passes_bind (passes_unsubscribeTopic opens _ _) fun _ => ih _ _

/-! ### The dispatcher -/

/-- The first bytes that a branch of the dispatcher is for. -/
def Recognised (head : UInt8) : Prop :=
  head &&& 0xF0 = 0x30 ∨ head = 0x40 ∨ head = 0x50 ∨ head = 0x70 ∨ head = 0x62 ∨
    head &&& 0xF0 = 0x80 ∨ head &&& 0xF0 = 0xA0 ∨ head &&& 0xF0 = 0xC0 ∨ head &&& 0xF0 = 0xE0

instance : DecidablePred Recognised := fun _ => inferInstanceAs (Decidable (_ ∨ _))

/-! ### CONNECT, writes and the event -/

/-- `connect_mqtt` enters a client id at most. -/
theorem passes_connectMqtt (sock : Fin 64) (curPos : Nat) :
    Along (Passes Still) (connectMqtt sock curPos) := by
  refine passes_bind (passes_quiet (quiet_byteAt _)) fun _ => ?_
  dsimp only
  split
  · exact passes_pure _
  refine passes_bind (passes_quiet (quiet_ntohsAt _)) fun _ => ?_
  split
  · exact passes_pure _
  refine passes_bind (passes_quiet (quiet_matchesAt _ _)) fun _ => ?_
  split
  · exact passes_pure _
  refine passes_bind (passes_quiet (quiet_byteAt _)) fun _ => ?_
  split
  · refine passes_bind ?_ fun _ => passes_pure _
    exact passes_bind (passes_write fun _ => trivial) fun _ => passes_pure _
  refine passes_bind (passes_quiet (quiet_byteAt _)) fun _ => ?_
  split
  · exact passes_pure _
  split
  · exact passes_pure _
  refine passes_bind (passes_quiet (quiet_ntohsAt _)) fun _ => ?_
  refine passes_bind (passes_quiet (quiet_ntohsAt _)) fun _ => ?_
  split
  · exact passes_pure _
  refine passes_bind (passes_quiet (quiet_rangeAt _ _)) fun clientid => ?_
  refine passes_bind (fun w u w' ran => ?_) fun _ => passes_quiet (quiet_readOptions _ _ _)
  obtain rfl := setSock_ok.mp ran
  exact .refl w

/-- Every run asks for the next event. -/
def Asks (sock : Fin 64) (m : Worker Unit) : Prop := ∀ w u w', m w = .ok (u, w') → Asked sock w w'

theorem asks_bind {m : Worker α} {f : α → Worker Unit} (first : Along (Passes Still) m)
    (rest : ∀ a, Asks sock (f a)) : Asks sock (m >>= f) := by
  intro w u w' ran
  obtain ⟨a, mid, begun, ran⟩ := bind_ok.mp ran
  exact .preceded (first _ _ _ begun).stays (rest a _ _ _ ran)

theorem asks_request {op : Operation} (asks : op = .read ∨ op = .write) :
    Asks sock (do let _ ← sendtoque ⟨sock, op⟩) := by
  intro w u w' ran
  obtain ⟨ok, mid, asked, ran⟩ := bind_ok.mp ran
  obtain ⟨-, rfl⟩ := pure_ok.mp ran
  exact asked_sendtoque asks asked

theorem asks_accept (sock : Fin 64) (clean : Bool) (will : Will) (prev : Option Client) :
    Asks sock (acceptConnect sock clean will prev) := by
  refine asks_bind (passes_quiet (quiet_sockAt _)) fun sockst => ?_
  refine asks_bind (passes_quiet (quiet_deref _)) fun client => ?_
  refine asks_bind (passes_quiet (quiet_onHeap _)) fun will => ?_
  refine asks_bind (passes_resubscribe _ _) fun _ => ?_
  refine asks_bind ?_ fun connack => ?_
  · exact passes_bind (passes_write fun _ => trivial) fun _ => passes_pure _
  refine asks_bind (passes_log trivial) fun _ => ?_
  unfold requestAfterConnack
  split
  · exact asks_bind (passes_resubscribe _ _) fun _ => asks_request (.inr rfl)
  · exact asks_request (.inl rfl)

theorem newClient_trace {clientid : Key} {ok : Bool}
    (ran : newClient sock clientid w = .ok (ok, w')) :
    w'.trace = w.trace ∧ (ok = false → w'.socks = w.socks) := by
  rw [newClient, onHeap_bind_ok] at ran
  split at ran
  · rw [get_bind_ok, onHeap_bind_ok, get_bind_ok] at ran
    obtain ⟨added, stored, ran⟩ := check_bind_ok ran
    rw [set_bind_ok] at ran
    split at ran
    · obtain ⟨client, found, ran⟩ := check_bind_ok ran
      rw [setSock_bind_ok] at ran
      obtain ⟨⟨⟩, mid, set, ran⟩ := bind_ok.mp ran
      obtain ⟨addr, same, rfl⟩ := setClient_ok set
      obtain ⟨rfl, rfl⟩ := pure_ok.mp ran
      exact ⟨rfl, fun wrong => by cases wrong⟩
    · obtain ⟨rfl, rfl⟩ := pure_ok.mp ran
      exact ⟨rfl, fun _ => rfl⟩
  · obtain ⟨rfl, rfl⟩ := pure_ok.mp ran
    exact ⟨rfl, fun _ => rfl⟩

/-- A takeover closes another socket than the one it is for. -/
theorem takeOver_stays {client : Client} {u : Unit} (ran : takeOver sock client w = .ok (u, w')) :
    StaysOpen sock w w' := by
  unfold takeOver at ran
  cases recorded : client.sock with
  | none =>
    rw [recorded] at ran
    rw [(pure_ok.mp ran).2]
    exact ⟨[], rfl, List.forall_mem_nil _⟩
  | some prevSock =>
    rw [recorded] at ran
    obtain ⟨ok, w₁, asked, ran⟩ := bind_ok.mp ran
    obtain ⟨env, rfl⟩ := sendtoque_ok asked
    rw [sockAt_bind_ok, sockAt_bind_ok, log_bind_ok, setSock_bind_ok, sockAt_bind_ok] at ran
    obtain ⟨addr, held, still, at_addr, ran⟩ := deref_bind_ok ran
    have other : prevSock ≠ sock := by
      rintro rfl
      rw [World.setSock_socks] at still
      cases still
    rw [log_bind_ok] at ran
    have opens : ∀ e ∈ [Event.closed prevSock, .evicting prevSock (w.socks prevSock)
        (w.socks sock).clientid client, .queued ⟨prevSock, .delall⟩ ok], Open sock e := by
      simp [Open, other]
    split at ran
    · rw [onHeap_bind_ok] at ran
      obtain ⟨_, same, rfl⟩ := setClient_ok ran
      exact ⟨_, rfl, opens⟩
    · obtain ⟨-, rfl⟩ := pure_ok.mp ran
      exact ⟨_, rfl, opens⟩

theorem passes_sendAck (target : Fin 64) (i : Nat) (item : PackidStateItem) (type : UInt8)
    (sent : PackidStateItem → PackidStateItem) : Along (Passes Still) (sendAck target i item type sent) :=
  passes_bind (passes_write fun _ => trivial) fun _ => passes_setItem _ _ _

theorem passes_transmit (target : Fin 64) (i : Nat) (item : PackidStateItem) :
    Along (Passes Still) (transmit target i item) := by
  unfold transmit
  cases item.state with
  | sendpuback | sendpubrec | sendpubrel | sendpubcomp => exact passes_sendAck _ _ _ _ _
  | sendpublish =>
    refine passes_bind (passes_quiet (quiet_storeGet _)) fun found => ?_
    cases found with
    | none => exact passes_pure _
    | some node =>
      intro w u w' ran
      rw [get_bind_ok] at ran
      exact passes_publish tables_still (fun _ _ _ _ => trivial) _ _ _ _ _ _ _ _ _ _ ran
  | _ => exact passes_pure _

theorem passes_writeLoop (target : Fin 64) (items : List PackidStateItem) (i : Nat) (packetidPtr : Option Nat)
    (alreadySent : Bool) : Along (Passes Still) (writeLoop target i items packetidPtr alreadySent) := by
  induction items generalizing i packetidPtr alreadySent with
  | nil => exact passes_pure _
  | cons item rest ih =>
    unfold writeLoop
    dsimp only
    generalize (if PackidStateItem.Pending item then some i else packetidPtr) = packetidPtr
    split
    · exact ih _ _ _
    · split
      · exact passes_pure _
      · exact passes_bind (passes_transmit _ _ _) fun _ => ih _ _ _

/-- A client connects. -/
def connected : List (Message × Env) := [accepting 1, reading 1 (some (connectPacket [97] 2))]

end Conclusion
end MqttBroker
