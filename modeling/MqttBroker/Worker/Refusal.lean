import MqttBroker.Worker.Runs

/-! A refused CONNECT. The client id is entered before the will and the
password are looked at, but the client only behind them, so the connection that
is dropped has none. -/
namespace MqttBroker.Refusal
open Logic Worker World

variable {w w₀ w₁ w₂ w' : World} {sock : Fin 64} {α β : Type}

/-! ### Sockets without a client id -/

/-- A socket without a client id has no client. -/
def Unnamed (w : World) : Prop := ∀ sock, (w.socks sock).clientid = [] → (w.socks sock).client = none

theorem Unnamed.setSock {f : SockCid → SockCid} (unnamed : Unnamed w)
    (named : (f (w.socks sock)).clientid = [] → (f (w.socks sock)).client = none) : Unnamed (w.setSock sock f) := by
  intro other
  by_cases here : other = sock
  · subst here
    rw [setSock_socks]
    exact named
  · rw [setSock_other w f here]
    exact unnamed other

theorem unnamed_kept {masked masked' : Masked} (act : SessionAct w masked w' masked') (unnamed : Unnamed w) :
    Unnamed w' := by
  cases act with
  | phase sock => exact unnamed.setSock (unnamed sock)
  | name sock clientid empty => exact unnamed.setSock fun _ => unnamed sock empty
  | connecting sock clientid clean empty named =>
    exact Unnamed.setSock (w := w.log _) unnamed fun empty => absurd empty named
  | burn | acceptStored | touch | resubscribe | disconnect | hide | unhide => exact unnamed
  | acceptNew sock clean carried will named =>
    intro other empty
    by_cases here : other = sock
    · subst here
      simp only [setClient_socks, World.log, setSock_socks] at empty
      exact absurd empty named
    · simp only [setClient_socks, World.log, setSock_other _ _ here] at empty ⊢
      exact unnamed other empty
  | evict sock prevSock => exact Unnamed.setSock (w := w.log _) unnamed fun _ => rfl
  | vanish sock => exact unnamed.setSock fun _ => rfl
  | erase sock => exact Unnamed.setSock (w := { w.log _ with clientStore := _ }) unnamed fun _ => rfl
  | @detach sock addr client =>
    exact Unnamed.setSock (w := (w.log (.ended sock (w.socks sock).clientid client)).setClient addr _) unnamed
      fun _ => rfl

theorem reachable_unnamed (reachable : Reachable w) : Unnamed w := by
  refine reachable.sessions (fun _ => True) (fun w _ => Unnamed w) (fun boot sock _ => rfl) ?_
    (fun act _ => unnamed_kept act) fun _ _ => trivial
  intro w w' masked kept unnamed sock empty
  rw [kept.clientid] at empty
  rw [kept.client]
  exact unnamed sock empty

/-! ### What `connect_mqtt` may change -/

/-- A will or a message is published. -/
def Event.Publishes : Event → Prop
  | .willed .. | .distributing .. => True
  | _ => False

/-- Only the client id of the socket is written, and nothing is published. -/
structure Names (sock : Fin 64) (w w' : World) : Prop where
  clients : w'.clientStore = w.clientStore
  messages : w'.publishMsgStore = w.publishMsgStore
  retained : w'.retainedSubMsg = w.retainedSubMsg
  others : ∀ other, other ≠ sock → w'.socks other = w.socks other
  client : (w'.socks sock).client = (w.socks sock).client
  silent : ∃ events, w'.trace = events ++ w.trace ∧ ∀ e ∈ events, ¬ Event.Publishes e

theorem Names.refl (w : World) : Names sock w w :=
  ⟨rfl, rfl, rfl, fun _ _ => rfl, rfl, [], rfl, List.forall_mem_nil _⟩

theorem Names.trans (first : Names sock w w₁) (second : Names sock w₁ w₂) : Names sock w w₂ where
  clients := second.clients.trans first.clients
  messages := second.messages.trans first.messages
  retained := second.retained.trans first.retained
  others other different := (second.others other different).trans (first.others other different)
  client := second.client.trans first.client
  silent := trace_trans first.silent second.silent

theorem names_of_quiet (quiet : Quiet w w') : Names sock w w' := by
  obtain ⟨env, buf, rfl⟩ := quiet
  exact ⟨rfl, rfl, rfl, fun _ _ => rfl, rfl, [], rfl, List.forall_mem_nil _⟩

theorem names_log {e : Event} (harmless : ¬ Event.Publishes e) : Names sock w (w.log e) :=
  ⟨rfl, rfl, rfl, fun _ _ => rfl, rfl, [e], rfl, fun _ member => List.mem_singleton.mp member ▸ harmless⟩

theorem names_bind {m : Worker α} {f : α → Worker β} (first : Along (Names sock) m)
    (rest : ∀ a, Along (Names sock) (f a)) : Along (Names sock) (m >>= f) := by
  refine Along.bind ?_ first rest
  exact Names.trans

theorem names_read {m : Worker α} {f : α → Worker β} (read : Along Quiet m)
    (rest : ∀ a, Along (Names sock) (f a)) : Along (Names sock) (m >>= f) :=
  names_bind (read.mono fun _ _ => names_of_quiet) rest

theorem names_connAck (returnCode : UInt8) (flag : Bool) : Along (Names sock) (connAck sock returnCode flag) := by
  refine names_bind (fun w ok w' ran => ?_) fun _ => .pure Names.refl _
  obtain ⟨env, rfl⟩ := connWrite_ok ran
  have harmless : ¬ Event.Publishes (.wrote sock (w.socks sock)
      [0x20, 0x02, if flag then 0 else 1, returnCode] none) := not_false
  have quiet : Quiet w { w with env := env } := ⟨env, w.buf, rfl⟩
  exact (names_of_quiet quiet).trans (names_log harmless)

theorem names_setSock {f : SockCid → SockCid} (keeps : ∀ sockst, (f sockst).client = sockst.client) :
    Names sock w (w.setSock sock f) := by
  refine ⟨rfl, rfl, rfl, fun other different => setSock_other w f different, ?_, [], rfl, List.forall_mem_nil _⟩
  rw [setSock_socks]
  exact keeps _

theorem names_entered (clientid : Key) : Along (Names sock) (setSock sock ({ · with clientid := clientid })) := by
  intro w u w' ran
  obtain rfl := setSock_ok.mp ran
  exact names_setSock fun _ => rfl

theorem names_connectMqtt (curPos : Nat) : Along (Names sock) (connectMqtt sock curPos) := by
  have refused : Along (Names sock) (pure (.disconnect, {}) : Worker (MqttConnReturn × Will)) := .pure Names.refl _
  refine names_read (quiet_byteAt _) fun _ => ?_
  dsimp only
  split
  · exact refused
  refine names_read (quiet_ntohsAt _) fun _ => ?_
  split
  · exact refused
  refine names_read (quiet_matchesAt _ _) fun _ => ?_
  split
  · exact refused
  refine names_read (quiet_byteAt _) fun _ => ?_
  split
  · exact names_bind (names_connAck _ _) fun _ => refused
  refine names_read (quiet_byteAt _) fun _ => ?_
  split
  · exact refused
  split
  · exact refused
  refine names_read (quiet_ntohsAt _) fun _ => names_read (quiet_ntohsAt _) fun _ => ?_
  split
  · exact refused
  refine names_read (quiet_rangeAt _ _) fun _ => names_bind (names_entered _) fun _ => ?_
  exact (quiet_readOptions _ _ _).mono fun _ _ => names_of_quiet

/-! ### The connection that is dropped -/

/-- The step comes to its packet in this world: the socket is past its
handshake, or passes it. -/
inductive ComesTo (sock : Fin 64) (w : World) : World → Prop
  | mqtt : (w.socks sock).phs = .mqtt → ComesTo sock w w
  | shaken {code : Int} {w₁ : World} : (w.socks sock).phs = .tlsHandshake → handshake w = .ok (code, w₁) →
    0 < code → ComesTo sock w w₁
  | started {code : Int} {w₁ w₂ w₃ : World} : (w.socks sock).phs = .uninit →
    onHeap Heap.alloc w = .ok (true, w₁) → startTls sock w₁ = .ok ((), w₂) → handshake w₂ = .ok (code, w₃) →
    0 < code → ComesTo sock w w₃

theorem handshakeEvent_positive {code : Int} {msg : Message} {first : Bool} (shaken : handshake w = .ok (code, w₁))
    (positive : 0 < code) : handshakeEvent msg first w = mqttPhase msg w₁ := by
  have writes : code ≠ wantWrite := by
    have negative : wantWrite < 0 := by decide
    omega
  have reads : code ≠ wantRead := by
    have negative : wantRead < 0 := by decide
    omega
  rw [handshakeEvent, bind_of_ok shaken, if_neg (by omega), if_neg (by omega), if_neg writes, if_neg reads]

/-- There the step goes on by reading a packet. -/
theorem handle_comesTo (comes : ComesTo sock w w₀) : handle ⟨sock, .read⟩ w = readEvent sock w₀ := by
  have here : sockAt sock w = .ok (w.socks sock, w) := rfl
  cases comes with
  | mqtt phase =>
    rw [handle, bind_of_ok here, phase]
    rfl
  | shaken phase shaken positive =>
    rw [handle, bind_of_ok here, phase]
    exact handshakeEvent_positive shaken positive
  | started phase allocated set shaken positive =>
    rw [handle, bind_of_ok here, phase]
    dsimp only
    rw [bind_of_ok allocated, if_pos rfl, bind_of_ok set]
    exact handshakeEvent_positive shaken positive

theorem names_comesTo (comes : ComesTo sock w w₀) : Names sock w w₀ := by
  cases comes with
  | mqtt => exact .refl w
  | shaken _ shaken => exact names_of_quiet (quiet_handshake _ _ _ shaken)
  | @started _ w₁ _ _ _ allocated set shaken =>
    refine (names_of_quiet (quiet_onHeap _ _ _ _ allocated)).trans
      (Names.trans ?_ (names_of_quiet (quiet_handshake _ _ _ shaken)))
    rw [startTls, get_bind_ok, log_bind_ok, setSock_bind_ok] at set
    obtain rfl := modify_ok.mp set
    have told : ¬ Event.Publishes (.started sock (w₁.items sock)) := not_false
    have tls : Names sock (w₁.log (.started sock (w₁.items sock)))
        ((w₁.log (.started sock (w₁.items sock))).setSock sock ({ · with tls := w₁.nextTls })) :=
      names_setSock fun _ => rfl
    refine (names_log told).trans (tls.trans ?_)
    exact ⟨rfl, rfl, rfl, fun _ _ => rfl, rfl, [], rfl, List.forall_mem_nil _⟩

/-- The packet that is read in this world is the first on its connection, and
`connect_mqtt` refuses it. -/
def Refuses (sock : Fin 64) (w : World) : Prop :=
  ∃ header w₁ will w₂, readPacket w = .ok (some header, w₁) ∧ (w₁.socks sock).clientid = [] ∧
    connectMqtt sock header.curPos (w₁.log (.received sock (w₁.socks sock) (w₁.buf.take header.packetLength.toNat))) =
      .ok ((.disconnect, will), w₂)

theorem endSession_vacant (sendwill : Bool) (vacant : (w.socks sock).client = none) :
    (publishWill (w.socks sock) sendwill >>= fun _ => endSession sock) w = .ok ((), w.reset sock) := by
  have here : sockAt sock w = .ok (w.socks sock, w) := rfl
  have unwilled : publishWill (w.socks sock) sendwill w = .ok ((), w) := by
    rw [publishWill, vacant]
    rfl
  have released : releaseClient sock (w.socks sock) w = .ok ((), w) := by
    rw [releaseClient, vacant]
    rfl
  rw [bind_of_ok unwilled, endSession, bind_of_ok here, bind_of_ok released]
  rfl

/-- Without a client there is no will and nothing to erase. -/
theorem dropConn_vacant (sendwill : Bool) (vacant : (w.socks sock).client = none) :
    ∃ w', dropConn sock sendwill w = .ok ((), w'.reset sock) ∧ Names sock w w' := by
  have asked (w : World) : sendtoque ⟨sock, .delall⟩ w = .ok (w.env.sends.headD true,
      { w with env := { w.env with sends := w.env.sends.tail } }.log
        (.queued ⟨sock, .delall⟩ (w.env.sends.headD true))) := rfl
  have told (w : World) (e : Event) : log e w = .ok ((), w.log e) := rfl
  have here (w : World) : sockAt sock w = .ok (w.socks sock, w) := rfl
  have quiet (w : World) (env : Env) : Names sock w { w with env := env } := names_of_quiet ⟨env, w.buf, rfl⟩
  rw [dropConn, bind_of_ok (here _), bind_of_ok (told _ _), bind_of_ok (asked _), bind_of_ok (told _ _),
    bind_of_ok (here _)]
  refine ⟨?after, ?ran, ?names⟩
  case ran =>
    refine endSession_vacant sendwill ?_
    exact vacant
  case names =>
    refine Names.trans (names_log ?_) (Names.trans (quiet _ _) (Names.trans (names_log ?_) (names_log ?_)))
    all_goals exact not_false

/-- All that a refused CONNECT may not change is as before, and the socket is as
it was without a connection. -/
structure Unchanged (sock : Fin 64) (w w' : World) : Prop where
  clients : w'.clientStore = w.clientStore
  messages : w'.publishMsgStore = w.publishMsgStore
  retained : w'.retainedSubMsg = w.retainedSubMsg
  others : ∀ other, other ≠ sock → w'.socks other = w.socks other
  phase : (w'.socks sock).phs = .uninit
  client : (w'.socks sock).client = none
  clientid : (w'.socks sock).clientid = []
  silent : ∃ events, w'.trace = events ++ w.trace ∧ ∀ e ∈ events, ¬ Event.Publishes e

theorem unchanged_of_names (names : Names sock w w') : Unchanged sock w (w'.reset sock) := by
  refine ⟨names.clients, names.messages, names.retained, fun other different => ?_, ?_, ?_, ?_, names.silent⟩
  · rw [reset_other different]
    exact names.others other different
  all_goals simp [reset]

theorem clientid_comesTo (comes : ComesTo sock w w₀) : (w₀.socks sock).clientid = (w.socks sock).clientid := by
  cases comes with
  | mqtt => rfl
  | shaken _ shaken =>
    obtain ⟨_, _, rfl⟩ := quiet_handshake _ _ _ shaken
    rfl
  | started _ allocated set shaken =>
    obtain ⟨_, _, rfl⟩ := quiet_handshake _ _ _ shaken
    obtain ⟨_, _, rfl⟩ := quiet_onHeap _ _ _ _ allocated
    rw [startTls, get_bind_ok, log_bind_ok, setSock_bind_ok] at set
    obtain rfl := modify_ok.mp set
    change (Function.update w.socks sock _ sock).clientid = _
    rw [Function.update_self]
    rfl

/-- A refused CONNECT comes to its end and changes nothing else. -/
theorem refused_changes_nothing (sock : Fin 64) (w w₀ : World) (env : Env) (reachable : Reachable w)
    (comes : ComesTo sock { w with env := env } w₀) (refuses : Refuses sock w₀) :
    ∃ w', handle ⟨sock, .read⟩ { w with env := env } = .ok ((), w') ∧ Unchanged sock w w' := by
  obtain ⟨header, w₁, will, w₂, read, unnamed, refused⟩ := refuses
  have answers : Names sock w { w with env := env } := names_of_quiet ⟨env, w.buf, rfl⟩
  have before := answers.trans (names_comesTo comes)
  have reads : Names sock w₀ w₁ := names_of_quiet (quiet_readPacket _ _ _ read)
  have told : ¬ Event.Publishes (.received sock (w₁.socks sock) (w₁.buf.take header.packetLength.toNat)) := not_false
  have names := ((before.trans reads).trans (names_log told)).trans (names_connectMqtt _ _ _ _ refused)
  have empty : (w.socks sock).clientid = [] := by
    obtain ⟨_, _, rfl⟩ := quiet_readPacket _ _ _ read
    exact (clientid_comesTo comes).symm.trans unnamed
  have vacant : (w₂.socks sock).client = none := names.client.trans (reachable_unnamed reachable sock empty)
  obtain ⟨w₃, dropped, last⟩ := dropConn_vacant true vacant
  refine ⟨_, ?_, unchanged_of_names (names.trans last)⟩
  have seen : (get : Worker World) w₁ = .ok (w₁, w₁) := rfl
  have logged : log (.received sock (w₁.socks sock) (w₁.buf.take header.packetLength.toNat)) w₁ =
      .ok ((), w₁.log (.received sock (w₁.socks sock) (w₁.buf.take header.packetLength.toNat))) := rfl
  rw [handle_comesTo comes, readEvent, bind_of_ok read]
  dsimp only
  rw [bind_of_ok seen, bind_of_ok logged, if_pos unnamed, connectEvent, bind_of_ok refused, if_pos rfl]
  exact dropped

/-- A CONNECT with a will, which there is no memory for. -/
def unwilling : Env where
  inbound := [[0x10, 19, 0, 4, 0x4D, 0x51, 0x54, 0x54, 4, 6, 0, 60, 0, 1, 97, 0, 1, 116, 0, 1, 1]]
  heap := [false]

/-- Its packet is refused behind the client id. -/
def refusesUnwilling (w : World) : Bool :=
  match readPacket { w with env := unwilling } with
  | .ok (some header, w₁) => decide ((w₁.socks 0).clientid = []) &&
    match connectMqtt 0 header.curPos
        (w₁.log (.received 0 (w₁.socks 0) (w₁.buf.take header.packetLength.toNat))) with
    | .ok (ret, _) => decide (ret.1 = .disconnect)
    | .error _ => false
  | _ => false

theorem refuses_unwilling (shown : refusesUnwilling w = true) : Refuses 0 { w with env := unwilling } := by
  unfold refusesUnwilling at shown
  split at shown
  · rename_i header w₁ read
    rw [Bool.and_eq_true, decide_eq_true_iff] at shown
    obtain ⟨unnamed, shown⟩ := shown
    split at shown
    · rename_i ret w₂ refused
      obtain ⟨answer, will⟩ := ret
      obtain rfl : answer = .disconnect := of_decide_eq_true shown
      exact ⟨header, w₁, will, w₂, read, unnamed, refused⟩
    · cases shown
  · cases shown

/-- The client of that id is connected on another socket. -/
theorem unwilling_changes_nothing : ∃ w w' : World, Reachable w ∧ (w.clients.any fun client => client.sock = some 1) ∧
    (w.socks 1).clientid = [97] ∧ handle ⟨0, .read⟩ { w with env := unwilling } = .ok ((), w') ∧
      Unchanged 0 w w' := by
  obtain ⟨w, -, reachable, shown⟩ := reached_run .clean
    [accepting 1, reading 1 (connectPacket [97] 0), accepting 0]
    (fun w => (w.clients.any fun client => client.sock = some 1) && decide ((w.socks 1).clientid = [97]) &&
      decide ((w.socks 0).phs = .mqtt) && refusesUnwilling w) (by decide +kernel)
  simp only [Bool.and_eq_true, decide_eq_true_eq] at shown
  obtain ⟨⟨⟨stored, named⟩, phs⟩, refuses⟩ := shown
  obtain ⟨w', ran, unchanged⟩ := refused_changes_nothing 0 w { w with env := unwilling } unwilling reachable
    (.mqtt phs) (refuses_unwilling refuses)
  exact ⟨w, w', reachable, stored, named, ran, unchanged⟩

end MqttBroker.Refusal
