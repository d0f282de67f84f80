import MqttBroker.Worker.Handled

/-! What holds at every head of the event loop. A property of the messages is
proved for the steps with messages, one of the sessions for the steps with
sessions; the other steps keep all that it reads. -/
namespace MqttBroker
open Worker

/-- The events of the messages and items. -/
def Event.OfMessage : Event → Prop
  | .wrote _ _ _ (some _) | .started .. | .publishing .. | .distributing .. | .adding .. | .retain ..
  | .retaining _ | .keeping .. | .sought .. | .counting _ | .uncounting _ | .enqueued .. | .lost _
  | .resending .. | .unsent _ | .acked .. => True
  | _ => False

/-- The events of the sessions. -/
def Event.OfSession : Event → Prop
  | .connecting .. | .evicting .. | .acknowledged .. | .resubscribed .. | .disconnecting ..
  | .ended .. => True
  | _ => False

namespace World

/-- The messages and items are as before. -/
structure MessagesKept (w w' : World) : Prop where
  store : w'.publishMsgStore = w.publishMsgStore
  retained : w'.retainedSubMsg = w.retainedSubMsg
  items : w'.items = w.items
  tls : ∀ sock, (w'.socks sock).tls = (w.socks sock).tls
  nextTls : w'.nextTls = w.nextTls
  trace : ∃ events, w'.trace = events ++ w.trace ∧ ∀ e ∈ events, ¬ e.OfMessage

/-- The clients, and what the sockets have of them, are as before. -/
structure SessionsKept (w w' : World) : Prop where
  clients : w'.clientStore = w.clientStore
  nextAddr : w'.nextAddr = w.nextAddr
  client : ∀ sock, (w'.socks sock).client = (w.socks sock).client
  clientid : ∀ sock, (w'.socks sock).clientid = (w.socks sock).clientid
  trace : ∃ events, w'.trace = events ++ w.trace ∧ ∀ e ∈ events, ¬ e.OfSession

variable {w w₁ w₂ w' : World} {sock : Fin 64} {f : SockCid → SockCid} {masked masked' : Masked}
  {owed owed' : List Admitted} {e : Event}

/-- Trace that grows twice. -/
theorem trace_trans {P : Event → Prop} {before mid after : List Event}
    (first : ∃ events, mid = events ++ before ∧ ∀ e ∈ events, P e)
    (second : ∃ events, after = events ++ mid ∧ ∀ e ∈ events, P e) :
    ∃ events, after = events ++ before ∧ ∀ e ∈ events, P e := by
  obtain ⟨early, rfl, early_holds⟩ := first
  obtain ⟨late, rfl, late_holds⟩ := second
  refine ⟨late ++ early, (List.append_assoc ..).symm, fun e member => ?_⟩
  rcases List.mem_append.mp member with member | member
  · exact late_holds e member
  · exact early_holds e member

theorem MessagesKept.trans (first : MessagesKept w w₁) (second : MessagesKept w₁ w₂) :
    MessagesKept w w₂ where
  store := second.store.trans first.store
  retained := second.retained.trans first.retained
  items := second.items.trans first.items
  tls sock := (second.tls sock).trans (first.tls sock)
  nextTls := second.nextTls.trans first.nextTls
  trace := trace_trans first.trace second.trace

theorem SessionsKept.trans (first : SessionsKept w w₁) (second : SessionsKept w₁ w₂) :
    SessionsKept w w₂ where
  clients := second.clients.trans first.clients
  nextAddr := second.nextAddr.trans first.nextAddr
  client sock := (second.client sock).trans (first.client sock)
  clientid sock := (second.clientid sock).trans (first.clientid sock)
  trace := trace_trans first.trace second.trace

/-! ### The steps with sessions keep the messages -/

namespace MessagesKept

theorem refl : MessagesKept w w := ⟨rfl, rfl, rfl, fun _ => rfl, rfl, [], rfl, List.forall_mem_nil _⟩

theorem setSock (kept : MessagesKept w w')
    (keeps : ∀ sockst, (f sockst).packidState = sockst.packidState ∧ (f sockst).tls = sockst.tls) :
    MessagesKept w (w'.setSock sock f) := by
  have same (other : Fin 64) :
      ((w'.setSock sock f).socks other).packidState = (w'.socks other).packidState ∧
        ((w'.setSock sock f).socks other).tls = (w'.socks other).tls := by
    by_cases here : other = sock
    · subst here
      rw [setSock_socks]
      exact keeps _
    · rw [setSock_other w' f here]
      exact ⟨rfl, rfl⟩
  exact kept.trans ⟨rfl, rfl, funext fun other => congrArg Myvector.elems (same other).1,
    fun other => (same other).2, rfl, [], rfl, List.forall_mem_nil _⟩

theorem reset (kept : MessagesKept w w') : MessagesKept w (w'.reset sock) :=
  kept.setSock fun _ => ⟨rfl, rfl⟩

theorem log (kept : MessagesKept w w') (other : ¬ e.OfMessage) : MessagesKept w (w'.log e) :=
  kept.trans ⟨rfl, rfl, rfl, fun _ => rfl, rfl, [e], rfl,
    fun _ member => List.mem_singleton.mp member ▸ other⟩

theorem clients (kept : MessagesKept w w') (store : Myhashmap Client) (nextAddr : Nat) :
    MessagesKept w { w' with clientStore := store, nextAddr := nextAddr } :=
  kept.trans ⟨rfl, rfl, rfl, fun _ => rfl, rfl, [], rfl, List.forall_mem_nil _⟩

theorem setClient (kept : MessagesKept w w') (addr : Nat) (g : Client → Client) :
    MessagesKept w (w'.setClient addr g) :=
  kept.clients _ _

end MessagesKept

theorem session_messagesKept (act : SessionAct w masked w' masked') : MessagesKept w w' := by
  cases act with
  | phase | name => exact .setSock .refl fun _ => ⟨rfl, rfl⟩
  | connecting => exact .setSock (.log .refl not_false) fun _ => ⟨rfl, rfl⟩
  | burn => exact .clients .refl _ _
  | acceptNew =>
    refine .log (.setClient (.setClient (.setSock (.clients .refl _ _) ?_) _ _) _ _) not_false
    exact fun _ => ⟨rfl, rfl⟩
  | evict => exact .reset (.log .refl not_false)
  | acceptStored | resubscribe => exact .log (.setClient .refl _ _) not_false
  | touch | hide | unhide => exact .setClient .refl _ _
  | disconnect =>
    refine .setClient (.log .refl ?_) _ _
    exact not_false
  | vanish => exact .reset .refl
  | erase =>
    refine .reset (.clients (.log .refl ?_) _ _)
    exact not_false
  | detach =>
    refine .reset (.setClient (.log .refl ?_) _ _)
    exact not_false

/-! ### The steps with messages keep the sessions -/

namespace SessionsKept

theorem refl : SessionsKept w w := ⟨rfl, rfl, fun _ => rfl, fun _ => rfl, [], rfl, List.forall_mem_nil _⟩

theorem setSock (kept : SessionsKept w w')
    (keeps : ∀ sockst, (f sockst).client = sockst.client ∧ (f sockst).clientid = sockst.clientid) :
    SessionsKept w (w'.setSock sock f) := by
  have same (other : Fin 64) :
      ((w'.setSock sock f).socks other).client = (w'.socks other).client ∧
        ((w'.setSock sock f).socks other).clientid = (w'.socks other).clientid := by
    by_cases here : other = sock
    · subst here
      rw [setSock_socks]
      exact keeps _
    · rw [setSock_other w' f here]
      exact ⟨rfl, rfl⟩
  exact kept.trans
    ⟨rfl, rfl, fun other => (same other).1, fun other => (same other).2, [], rfl, List.forall_mem_nil _⟩

theorem log (kept : SessionsKept w w') (other : ¬ e.OfSession) : SessionsKept w (w'.log e) :=
  kept.trans ⟨rfl, rfl, fun _ => rfl, fun _ => rfl, [e], rfl,
    fun _ member => List.mem_singleton.mp member ▸ other⟩

theorem tables (kept : SessionsKept w w') (store : PublishHashmap) (retained : Myhashmap UInt16)
    (nextTls : Nat) (env : Env) :
    SessionsKept w { w' with
      publishMsgStore := store, retainedSubMsg := retained, nextTls := nextTls, env := env } :=
  kept.trans ⟨rfl, rfl, fun _ => rfl, fun _ => rfl, [], rfl, List.forall_mem_nil _⟩

theorem setItem (kept : SessionsKept w w') (sock : Fin 64) (i : Nat)
    (g : PackidStateItem → PackidStateItem) : SessionsKept w (w'.setItem sock i g) :=
  kept.setSock fun _ => ⟨rfl, rfl⟩

theorem stored (kept : SessionsKept w w') (packetId : UInt16) (frame : List UInt8)
    (qos count : UInt8) (heap : Heap) :
    SessionsKept w (w'.stored packetId frame qos count heap) := by
  refine .tables (kept.log ?_) _ _ _ _
  exact not_false

theorem countUp (kept : SessionsKept w w') (i : Nat) : SessionsKept w (w'.countUp i) := by
  refine .tables (kept.log ?_) _ _ _ _
  exact not_false

theorem countDown (kept : SessionsKept w w') (i : Nat) (packetId : UInt16) :
    SessionsKept w (w'.countDown i packetId) := by
  refine .tables (kept.log ?_) _ _ _ _
  exact not_false

theorem forget (kept : SessionsKept w w') (packetId : UInt16) :
    SessionsKept w (w'.forget packetId) := by
  unfold World.forget
  split
  · exact kept.countDown _ _
  · exact kept

end SessionsKept

theorem sessionsKept_added {item : PackidStateItem} (added : ItemAdded w sock item w') :
    SessionsKept w w' := by
  cases added with
  | reused =>
    refine .setItem (.log .refl ?_) _ _ _
    exact not_false
  | pushed env =>
    refine .setSock (.log (.tables .refl _ _ _ env) ?_) fun _ => ⟨rfl, rfl⟩
    exact not_false
  | lost env => exact .log (.tables .refl _ _ _ env) not_false

theorem message_sessionsKept (act : MessageAct w owed w' owed') : SessionsKept w w' := by
  cases act with
  | start =>
    refine .tables (.setSock (.log .refl ?_) ?_) w.publishMsgStore w.retainedSubMsg _ w.env
    · exact not_false
    · exact fun _ => ⟨rfl, rfl⟩
  | readd => exact .stored .refl _ _ _ _ _
  | enter | refuse | retainRefused =>
    refine .stored (.log .refl ?_) _ _ _ _ _
    exact not_false
  | enqueue _ _ _ _ _ _ _ _ added => exact (sessionsKept_added added).countUp _
  | deliver _ _ _ _ added => exact .log ((sessionsKept_added added).countUp _) not_false
  | retire => exact .countDown .refl _ _
  | retainNew =>
    refine .tables (.log (.log (.stored (.log .refl ?_) _ _ _ _ _) ?_) ?_) _ _ _ _ <;>
      exact not_false
  | retainReplace =>
    refine .tables (.forget (.log (.stored (.log .refl ?_) _ _ _ _ _) ?_) _) _ _ _ _ <;>
      exact not_false
  | incoming _ _ _ _ added => exact sessionsKept_added added
  | accept | send | matched | resend | unheard | unknown => exact .log .refl not_false
  | await => exact .setItem .refl _ _ _
  | reply | answer =>
    refine .setItem (.log .refl ?_) _ _ _
    exact not_false
  | release => exact .forget (.setItem .refl _ _ _) _
  | abandon =>
    refine .forget (.setItem (.log .refl ?_) _ _ _) _
    exact not_false

/-! ### Runs -/

/-- The state after some messages, each with what the outside world answers. -/
def run (w : World) : List (Message × Env) → Outcome World
  | [] => .ok w
  | (msg, env) :: rest =>
    match handle msg { w with env := env } with
    | .ok (_, w) => w.run rest
    | .error fault => .error fault

theorem reachable_run {msgs : List (Message × Env)} (reachable : Reachable w)
    (ran : w.run msgs = .ok w') : Reachable w' := by
  induction msgs generalizing w with
  | nil =>
    cases ran
    exact reachable
  | cons entry rest ih =>
    unfold run at ran
    split at ran
    · rename_i handled
      obtain ⟨boot, turns⟩ := reachable
      exact ih ⟨boot, turns.tail ⟨_, _, handled⟩⟩ ran
    · cases ran

/-- One message handled is a sequence of coarse steps. -/
theorem Turn.acts {w w' : World} (turn : Turn w w') : Acts ⟨w, [], none⟩ ⟨w', [], none⟩ := by
  obtain ⟨msg, env, ran⟩ := turn
  have quiet : Worker.Quiet w { w with env := env } := ⟨env, w.buf, rfl⟩
  exact (Acts.one (.quiet quiet)).trans (Worker.handle_moves msg _ _ _ ran)

theorem Reachable.acts {w : World} (reachable : Reachable w) :
    ∃ boot, Acts ⟨initial boot, [], none⟩ ⟨w, [], none⟩ := by
  obtain ⟨boot, turns⟩ := reachable
  refine ⟨boot, ?_⟩
  induction turns with
  | refl => exact .refl
  | tail _ turn ih => exact ih.trans turn.acts

/-- What holds initially and is kept by every coarse step holds at every head
of the event loop. -/
theorem Reachable.invariant (Inv : Config → Prop)
    (initially : ∀ boot, Inv ⟨initial boot, [], none⟩)
    (kept : ∀ c c', Inv c → Act c c' → Inv c') {w : World} (reachable : Reachable w) :
    Inv ⟨w, [], none⟩ := by
  obtain ⟨boot, acts⟩ := reachable.acts
  exact Relation.ReflTransGen.head_induction_on acts (motive := fun c _ => Inv c → Inv ⟨w, [], none⟩)
    id (fun act _ ih held => ih (kept _ _ held act)) (initially boot)

/-- What a completed run from the initial state shows is reached. -/
theorem reached_run (boot : Boot) (msgs : List (Message × Env)) (shows : World → Bool)
    (shown : ((initial boot).run msgs).toOption.any shows = true) :
    ∃ w, (initial boot).run msgs = .ok w ∧ Reachable w ∧ shows w = true := by
  cases ran : (initial boot).run msgs with
  | error fault =>
    rw [ran] at shown
    cases shown
  | ok w =>
    rw [ran] at shown
    exact ⟨w, rfl, reachable_run ⟨boot, .refl⟩ ran, shown⟩

/-- What one more completed message shows after such a run is a turn. -/
theorem reached_turn (boot : Boot) (msgs : List (Message × Env)) (last : Message × Env)
    (shows : World → World → Bool)
    (shown : ((initial boot).run msgs).toOption.any
      (fun w => (w.run [last]).toOption.any (shows w)) = true) :
    ∃ w w', Reachable w ∧ Turn w w' ∧ shows w w' = true := by
  obtain ⟨w, -, reachable, shown⟩ := reached_run boot msgs _ shown
  obtain ⟨msg, env⟩ := last
  unfold run at shown
  cases handled : handle msg { w with env := env } with
  | error fault =>
    rw [handled] at shown
    cases shown
  | ok result =>
    rw [handled] at shown
    exact ⟨w, result.2, reachable, ⟨msg, env, handled⟩, shown⟩

/-- The worker reads a packet; `none` is a connection that has ended. -/
def reading (sock : Fin 64) (packet : Option (List UInt8)) : Message × Env :=
  (⟨sock, .read⟩, { inbound := packet.toList })

def writing (sock : Fin 64) : Message × Env := (⟨sock, .write⟩, {})

/-- The first message for a connection, which ends its handshake. -/
def accepting (sock : Fin 64) : Message × Env := (⟨sock, .read⟩, {})

/-- A CONNECT without will, user name and password. -/
def connectPacket (clientid : Key) (connFlags : UInt8) : List UInt8 :=
  [0x10, 12 + clientid.length.toUInt8, 0, 4, 0x4D, 0x51, 0x54, 0x54, 4, connFlags, 0, 60,
    0, clientid.length.toUInt8] ++ clientid

/-- A PUBLISH; the packet id, if there is one, leads the rest. -/
def publishPacket (head : UInt8) (topic rest : List UInt8) : List UInt8 :=
  [head, (2 + topic.length + rest.length).toUInt8, 0, topic.length.toUInt8] ++ topic ++ rest

/-- A SUBSCRIBE for one topic. -/
def subscribePacket (topic : Key) (qos : UInt8) : List UInt8 :=
  [0x82, (5 + topic.length).toUInt8, 0, 1, 0, topic.length.toUInt8] ++ topic ++ [qos]

/-- The worker reads such a SUBSCRIBE. -/
def subscribing (sock : Fin 64) (topic : Key) (qos : UInt8) : Message × Env :=
  (⟨sock, .read⟩, { inbound := [subscribePacket topic qos], fuel := 8 })

/-- A step keeps the messages or is a step with them, and the same holds of the
sessions. -/
theorem act_split {c c' : Config} (act : Act c c') :
    (MessagesKept c.world c'.world ∧ c'.owed = c.owed ∨
        MessageAct c.world c.owed c'.world c'.owed) ∧
      (SessionsKept c.world c'.world ∧ c'.masked = c.masked ∨
        SessionAct c.world c.masked c'.world c'.masked) := by
  cases act with
  | quiet quiet =>
    obtain ⟨_, _, rfl⟩ := quiet
    exact ⟨.inl ⟨⟨rfl, rfl, rfl, fun _ => rfl, rfl, [], rfl, List.forall_mem_nil _⟩, rfl⟩,
      .inl ⟨⟨rfl, rfl, fun _ => rfl, fun _ => rfl, [], rfl, List.forall_mem_nil _⟩, rfl⟩⟩
  | @note _ _ _ e neutral =>
    have neither : ¬ e.OfMessage ∧ ¬ e.OfSession := by
      cases e with
      | wrote _ _ _ item => cases item <;> simp_all [Event.Neutral, Event.OfMessage, Event.OfSession]
      | _ => simp_all [Event.Neutral, Event.OfMessage, Event.OfSession]
    exact ⟨.inl ⟨.log .refl neither.1, rfl⟩, .inl ⟨.log .refl neither.2, rfl⟩⟩
  | session act => exact ⟨.inl ⟨session_messagesKept act, rfl⟩, .inr act⟩
  | message act => exact ⟨.inr act, .inl ⟨message_sessionsKept act, rfl⟩⟩

theorem messageAct_trace (act : MessageAct w owed w' owed') :
    ∃ events, w'.trace = events ++ w.trace :=
  (message_sessionsKept act).trace.imp fun _ grown => grown.1

theorem sessionAct_trace (act : SessionAct w masked w' masked') :
    ∃ events, w'.trace = events ++ w.trace :=
  (session_messagesKept act).trace.imp fun _ grown => grown.1

/-- The trace only grows. -/
theorem acts_trace {c c' : Config} (acts : Acts c c') :
    ∃ events, c'.world.trace = events ++ c.world.trace := by
  induction acts with
  | refl => exact ⟨[], rfl⟩
  | @tail mid c' _ act ih =>
    obtain ⟨events, grown⟩ := ih
    have last : ∃ events, c'.world.trace = events ++ mid.world.trace := by
      rcases (act_split act).1 with ⟨kept, -⟩ | act
      · exact kept.trace.imp fun _ grown => grown.1
      · exact messageAct_trace act
    obtain ⟨late, grown'⟩ := last
    exact ⟨late ++ events, by rw [grown', grown, List.append_assoc]⟩

/-- Events that meet a condition have met it earlier. -/
theorem meets_before {Cond : Event → Prop} {before after : List Event}
    (grown : ∃ events, after = events ++ before) (meets : ∀ e ∈ after, Cond e) :
    ∀ e ∈ before, Cond e := by
  obtain ⟨events, rfl⟩ := grown
  exact fun e member => meets e (List.mem_append_right _ member)

/-- A property of the messages that is kept by every step with messages is
kept by a run whose events meet a condition. -/
theorem Acts.messages (Cond : Event → Prop) (Inv : World → List Admitted → Prop)
    (frame : ∀ {w w' owed}, MessagesKept w w' → Inv w owed → Inv w' owed)
    (kept : ∀ {w owed w' owed'}, MessageAct w owed w' owed' → (∀ e ∈ w'.trace, Cond e) →
      Inv w owed → Inv w' owed')
    {c c' : Config} (acts : Acts c c') :
    (∀ e ∈ c'.world.trace, Cond e) → Inv c.world c.owed → Inv c'.world c'.owed := by
  induction acts with
  | refl => exact fun _ => id
  | tail _ act ih =>
    intro meets start
    rcases (act_split act).1 with ⟨same, owed⟩ | act
    · rw [owed]
      exact frame same (ih (meets_before (same.trace.imp fun _ grown => grown.1) meets) start)
    · exact kept act meets (ih (meets_before (messageAct_trace act) meets) start)

/-- A property of the messages that holds initially and is kept by every step
with messages, in a run whose events meet a condition. -/
theorem Reachable.messages (Cond : Event → Prop) (Inv : World → List Admitted → Prop)
    (initially : ∀ boot, Inv (initial boot) [])
    (frame : ∀ {w w' owed}, MessagesKept w w' → Inv w owed → Inv w' owed)
    (kept : ∀ {w owed w' owed'}, MessageAct w owed w' owed' → (∀ e ∈ w'.trace, Cond e) →
      Inv w owed → Inv w' owed')
    {w : World} (reachable : Reachable w) (meets : ∀ e ∈ w.trace, Cond e) : Inv w [] := by
  obtain ⟨boot, acts⟩ := reachable.acts
  exact Acts.messages Cond Inv frame kept acts meets (initially boot)

/-- The same of the sessions. -/
theorem Reachable.sessions (Cond : Event → Prop) (Inv : World → Masked → Prop)
    (initially : ∀ boot, Inv (initial boot) none)
    (frame : ∀ {w w' masked}, SessionsKept w w' → Inv w masked → Inv w' masked)
    (kept : ∀ {w masked w' masked'}, SessionAct w masked w' masked' →
      (∀ e ∈ w'.trace, Cond e) → Inv w masked → Inv w' masked')
    {w : World} (reachable : Reachable w) : (∀ e ∈ w.trace, Cond e) → Inv w none := by
  refine reachable.invariant (fun c => (∀ e ∈ c.world.trace, Cond e) → Inv c.world c.masked)
    (fun boot _ => initially boot) fun c c' held act meets => ?_
  rcases (act_split act).2 with ⟨same, masked⟩ | act
  · rw [masked]
    exact frame same (held (meets_before (same.trace.imp fun _ grown => grown.1) meets))
  · exact kept act meets (held (meets_before (sessionAct_trace act) meets))

end World
end MqttBroker
