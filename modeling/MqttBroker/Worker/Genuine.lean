import MqttBroker.Worker.Stored

/-! Which message a subscriber gets. An item has of its message no more than the
packet id its publisher chose, so what is sent for it is what the table has under
that id by then. -/
namespace MqttBroker
open Logic Worker World PublishHashmap PublishHashmapReachability

namespace Genuine

/-- A packet without the DUP, QoS and RETAIN bits of its first byte. -/
def unflagged : List UInt8 → List UInt8
  | [] => []
  | head :: rest => (head &&& 0xF0) :: rest

/-- A slot has no packet under an id but this one. -/
def Alike (x : UInt16) (frame : List UInt8) (node : NodePubmap) : Prop :=
  node.pubpackId = x → node.data ≠ [] → unflagged node.data = unflagged frame

instance (x : UInt16) (frame : List UInt8) (node : NodePubmap) : Decidable (Alike x frame node) :=
  inferInstanceAs (Decidable (_ → _ → _))

/-- An item that `publish_by_topic` has made, and that refers to its message. -/
def Delivers (item : PackidStateItem) : Prop := item.origin.subscriber.isSome ∧ item.state.Counted

instance (item : PackidStateItem) : Decidable (Delivers item) := by
  unfold Delivers PacketState.Counted
  infer_instance

/-- An id that no slot and no item has for another packet. -/
def Unused (socks : Fin 64 → SockCid) (store : PublishHashmap) (x : UInt16) (frame : List UInt8) : Prop :=
  (∀ node ∈ store.slots, Alike x frame node) ∧
    ∀ sock, ∀ item ∈ (socks sock).packidState.elems, Delivers item → item.packetId = x →
      unflagged item.origin.frame = unflagged frame

instance (socks : Fin 64 → SockCid) (store : PublishHashmap) (x : UInt16) (frame : List UInt8) :
    Decidable (Unused socks store x frame) := inferInstanceAs (Decidable (_ ∧ _))

end Genuine

/-- A message comes to the table under an id that is not in use for another one,
and no acknowledgement of packet id 0 has a free item sent again. -/
def Event.Apart : Event → Prop
  | .adding socks store x frame _ _ => x ≠ 0 → Genuine.Unused socks store x frame
  | .resending item _ => item.packetId ≠ 0
  | _ => True

instance : DecidablePred Event.Apart := fun e => by
  rcases e with ⟨⟩ <;> dsimp only [Event.Apart] <;> infer_instance

/-- An item for a subscriber comes to the socket that the subscriber has, and a
connection is set up on a socket without items in use. -/
def Event.Addressed : Event → Prop
  | .enqueued socks sock _ item =>
    item.origin.subscriber = none ∨ item.origin.subscriber = some (socks sock).clientid
  | .started _ items => ∀ item ∈ items, item.packetId = 0
  | _ => True

instance : DecidablePred Event.Addressed := fun e => by
  rcases e with ⟨⟩ <;> dsimp only [Event.Addressed] <;> infer_instance

/-- A packet for an item of `publish_by_topic` goes out on the connection that its
subscriber had when the item was made. -/
def Event.Reaches (trace : List Event) : Event → Prop
  | .wrote sock sockst _ (some item) => Genuine.Delivers item →
    ∃ socks i made, .enqueued socks sock i made ∈ trace ∧ made.origin = item.origin ∧
      (socks sock).tls = sockst.tls ∧ item.origin.subscriber = some (socks sock).clientid
  | _ => True

/-- What a packet is of the item it is written for: the message the item was made
with, that its subscriber was subscribed to. -/
def Event.Genuine (trace : List Event) : Event → Prop
  | .wrote _ _ bytes (some item) => Genuine.Delivers item →
    (∃ qos, .distributing item.origin.publisher item.origin.topic item.origin.frame qos item.packetId ∈ trace) ∧
      Genuine.unflagged bytes = Genuine.unflagged item.origin.frame ∧
      ∃ clientid, item.origin.subscriber = some clientid ∧ Heard trace item.origin.topic clientid
  | _ => True

namespace Genuine

variable {w w' : World} {owed owed' : List Admitted} {trace : List Event} {store store' : PublishHashmap}
  {publisher : Option Publisher} {topic frame bytes : List UInt8} {x y : UInt16} {qos : UInt8}
  {sock : Fin 64} {item : PackidStateItem}

theorem publishHeader_unflagged (head qos : UInt8) (deleteRetain : Bool) (rest : List UInt8) :
    unflagged (publishHeader head qos deleteRetain :: rest) = unflagged (head :: rest) := by
  simp only [unflagged, publishHeader_type]

/-- A message that `publish_by_topic` was called with, under an id that the table
has no other packet under. -/
def Backed (trace : List Event) (store : PublishHashmap) (publisher : Option Publisher) (topic frame : List UInt8)
    (x : UInt16) : Prop :=
  x ≠ 0 → (∃ qos, .distributing publisher topic frame qos x ∈ trace) ∧ AllSlots (Alike x frame) store.slots

theorem alike_steps {P : UInt16 → List UInt8 → UInt8 → Prop}
    (steps : Relation.ReflTransGen (StoreStep P) store store') (used : x ≠ 0)
    (added : ∀ y frame' qos, P y frame' qos → y = x → unflagged frame' = unflagged frame)
    (alike : AllSlots (Alike x frame) store.slots) : AllSlots (Alike x frame) store'.slots :=
  under_steps steps used added alike

theorem Backed.grown (backed : Backed w.trace store publisher topic frame x)
    (longer : ∃ events, w'.trace = events ++ w.trace) : Backed w'.trace store publisher topic frame x :=
  fun used => (backed used).imp_left fun ⟨qos, distributed⟩ => ⟨qos, logged_grown longer distributed⟩

/-- Every step leaves a message what it is, if what it brings is not another one
under its id. -/
theorem Backed.steps {P : UInt16 → List UInt8 → UInt8 → Prop}
    (backed : Backed w.trace store publisher topic frame x)
    (steps : Relation.ReflTransGen (StoreStep P) store store')
    (added : ∀ y frame' qos, P y frame' qos → y = x → x ≠ 0 → unflagged frame' = unflagged frame)
    (longer : ∃ events, w'.trace = events ++ w.trace) :
    Backed w'.trace store' publisher topic frame x := by
  intro used
  obtain ⟨⟨qos, distributed⟩, alike⟩ := backed used
  refine ⟨⟨qos, logged_grown longer distributed⟩, alike_steps steps used ?_ alike⟩
  exact fun y frame' qos brought same => added y frame' qos brought same used

/-- The items and the message in hand are of messages that nothing else is in the
table for. -/
structure Traced (w : World) (owed : List Admitted) : Prop where
  findable : Findable w.publishMsgStore
  items : ∀ sock, ∀ item ∈ w.items sock, Delivers item →
    Backed w.trace w.publishMsgStore item.origin.publisher item.origin.topic item.origin.frame item.packetId ∧
      ∃ clientid, item.origin.subscriber = some clientid ∧ Heard w.trace item.origin.topic clientid
  owed : ∀ m ∈ owed, m.stamp.isSome →
    Backed w.trace w.publishMsgStore m.publisher m.topic m.frame m.packetId
  sent : ∀ e ∈ w.trace, e.Genuine w.trace

theorem genuine_grown (longer : ∃ events, w'.trace = events ++ w.trace) {e : Event}
    (genuine : e.Genuine w.trace) : e.Genuine w'.trace := by
  cases e with
  | wrote sock sockst bytes item =>
    cases item with
    | none => trivial
    | some item =>
      intro delivers
      obtain ⟨⟨qos, distributed⟩, same, clientid, named, heard⟩ := genuine delivers
      exact ⟨⟨qos, logged_grown longer distributed⟩, same, clientid, named, heard.grown longer⟩
  | _ => trivial

theorem genuine_other {e : Event} (other : ¬ e.OfMessage) : e.Genuine trace := by
  cases e with
  | wrote _ _ _ item =>
    cases item with
    | none => trivial
    | some => exact absurd trivial other
  | _ => trivial

theorem Traced.framed (kept : MessagesKept w w') (traced : Traced w owed) : Traced w' owed := by
  obtain ⟨events, grown, others⟩ := kept.trace
  have longer : ∃ events, w'.trace = events ++ w.trace := ⟨events, grown⟩
  refine ⟨?_, fun sock item member delivers => ?_, fun m member stamped => ?_, fun e member => ?_⟩
  · rw [kept.store]
    exact traced.findable
  · rw [kept.items] at member
    obtain ⟨backed, clientid, named, heard⟩ := traced.items sock item member delivers
    rw [kept.store]
    exact ⟨backed.grown longer, clientid, named, heard.grown longer⟩
  · rw [kept.store]
    exact (traced.owed m member stamped).grown longer
  · rw [grown] at member
    rcases List.mem_append.mp member with member | member
    · exact genuine_other (others e member)
    · exact genuine_grown longer (traced.sent e member)

/-- An item that refers to its message after a step did so before, or it is new. -/
theorem item_act (act : MessageAct w owed w' owed') (member : item ∈ w'.items sock) (delivers : Delivers item) :
    (∃ old ∈ w.items sock, Delivers old ∧ old.origin = item.origin ∧
        (item.packetId = old.packetId ∨ item.packetId = 0)) ∨
      ∃ m ∈ owed, m.stamp.isSome ∧ item.packetId = m.packetId ∧ item.origin.publisher = m.publisher ∧
        item.origin.topic = m.topic ∧ item.origin.frame = m.frame ∧
        ∃ clientid, item.origin.subscriber = some clientid ∧ Heard w.trace m.topic clientid := by
  obtain ⟨k, at_k⟩ := List.mem_iff_getElem?.mp member
  have slot := slot_act act sock k
  rw [at_k] at slot
  generalize before : (w.items sock)[k]? = old at slot
  cases slot with
  | kept => exact .inl ⟨item, List.mem_of_getElem? before, delivers, rfl, .inl rfl⟩
  | changed step =>
    rename_i old
    obtain ⟨id, origin, -⟩ := step.kept
    refine .inl ⟨old, List.mem_of_getElem? before, ⟨?_, step.counted delivers.2⟩, origin.symm, id⟩
    rw [← origin]
    exact delivers.1
  | placed _ _ made =>
    cases made with
    | fannedOut qos stamped owes _ _ heard =>
      exact .inr ⟨_, owes, by rw [stamped]; rfl, rfl, rfl, rfl, rfl, _, rfl, heard⟩
    | delivered => exact absurd delivers.1 Bool.false_ne_true
    | incoming state =>
      rcases state with ⟨state, -⟩ | ⟨state, -⟩ <;> simp [Delivers, state, PacketState.Counted] at delivers

/-- What is written for an item that refers to its message is that message. -/
theorem Traced.write (traced : Traced w owed) (apart : ∀ e ∈ w.trace, e.Apart)
    (wrote : WriteStep w sock item bytes) (sockst : SockCid) :
    (Event.wrote sock sockst bytes (some item)).Genuine w.trace := by
  intro delivers
  cases wrote with
  | reply _ _ _ other => exact absurd delivers.2 other
  | send qos deleteRetain at_i counted _ sentAs first found held =>
    have used : item.packetId ≠ 0 := by
      rcases sentAs with ⟨fresh, -⟩ | ⟨node, resent, -⟩
      · exact (first fresh).1
      · exact apart _ resent
    obtain ⟨backed, heard⟩ := traced.items sock item (List.mem_of_getElem? at_i) delivers
    obtain ⟨distributed, alike⟩ := backed used
    refine ⟨distributed, ?_, heard⟩
    rw [publishHeader_unflagged, ← held]
    have free : Alike item.packetId item.origin.frame {} := fun _ none => absurd rfl none
    refine alike.slotAt free _ (traced.findable.shaped.get_id found) ?_
    rw [show slotAt w.publishMsgStore.slots _ = w.nodeAt _ from rfl, held]
    exact List.cons_ne_nil _ _

/-- What the items and the message in hand come to when nothing is brought. -/
theorem Traced.level (traced : Traced w owed) (act : MessageAct w owed w' owed')
    (steps : Relation.ReflTransGen (StoreStep fun _ _ _ => False) w.publishMsgStore w'.publishMsgStore)
    (member : item ∈ w'.items sock) (delivers : Delivers item) :
    Backed w'.trace w'.publishMsgStore item.origin.publisher item.origin.topic item.origin.frame item.packetId ∧
      ∃ clientid, item.origin.subscriber = some clientid ∧ Heard w'.trace item.origin.topic clientid := by
  have longer := messageAct_trace act
  have nothing : ∀ (y : UInt16) (frame' : List UInt8) (qos : UInt8), False →
      y = item.packetId → item.packetId ≠ 0 → unflagged frame' = unflagged item.origin.frame :=
    fun _ _ _ none => absurd none id
  rcases item_act act member delivers with ⟨old, before, refers, origin, id⟩ |
    ⟨m, owes, stamped, id, publisher, topic, frame, clientid, named, heard⟩
  · obtain ⟨backed, clientid, named, heard⟩ := traced.items sock old before refers
    rw [origin] at backed named heard
    refine ⟨Backed.steps ?_ steps nothing longer, clientid, named, heard.grown longer⟩
    rcases id with id | id
    · rwa [id]
    · exact fun used => absurd id used
  · refine ⟨Backed.steps ?_ steps nothing longer, clientid, named, topic ▸ heard.grown longer⟩
    rw [id, publisher, topic, frame]
    exact traced.owed m owes stamped

theorem traced_act (act : MessageAct w owed w' owed') (apart : ∀ e ∈ w'.trace, e.Apart)
    (traced : Traced w owed) : Traced w' owed' := by
  have longer := messageAct_trace act
  have sent : ∀ e ∈ w'.trace, e.Genuine w'.trace := by
    intro e member
    cases e with
    | wrote sock sockst bytes item =>
      cases item with
      | none => trivial
      | some item =>
        refine genuine_grown longer ?_
        rcases wrote_act act member with before | ⟨-, wrote⟩
        · exact traced.sent _ before
        · exact traced.write (meets_before longer apart) wrote sockst
    | _ => trivial
  rcases store_act act traced.findable with ⟨steps, before⟩ | ⟨came, -, same, steps, now⟩
  · refine ⟨findable_steps steps traced.findable, ?_, fun m member stamped => ?_, sent⟩
    · exact fun sock item member delivers => traced.level act steps member delivers
    · exact (traced.owed m (before m member stamped) stamped).steps steps (fun _ _ _ none => absurd none id) longer
  · rename_i x frame qos ok
    have unused : x ≠ 0 → Unused w.socks w.publishMsgStore x frame := apart _ came
    refine ⟨findable_steps steps traced.findable, fun sock item member delivers => ?_,
      fun m member stamped used => ?_, sent⟩
    · rw [items, same] at member
      obtain ⟨backed, clientid, named, heard⟩ := traced.items sock item member delivers
      refine ⟨backed.steps steps ?_ longer, clientid, named, heard.grown longer⟩
      rintro y frame' qos ⟨rfl, rfl, rfl⟩ id used
      exact ((unused (id ▸ used)).2 sock item member delivers id.symm).symm
    · obtain ⟨rfl, rfl, qos, distributed⟩ := now m member stamped
      refine ⟨⟨qos, distributed⟩, alike_steps steps used ?_ (unused used).1⟩
      rintro y frame' qos ⟨-, rfl, -⟩ _
      rfl

theorem traced_initial (boot : Boot) : Traced (initial boot) [] where
  findable := findable_initial boot
  items := fun _ _ member => absurd member List.not_mem_nil
  owed := List.forall_mem_nil _
  sent := List.forall_mem_nil _

/-- In a run in which messages come under ids that are not in use for others,
every packet sent for an item of `publish_by_topic` is the message that the item
was made with. -/
theorem sent_genuine (reachable : Reachable w) (apart : ∀ e ∈ w.trace, e.Apart) :
    ∀ e ∈ w.trace, e.Genuine w.trace :=
  (reachable.messages Event.Apart Traced traced_initial Traced.framed traced_act apart).sent

/-! ### The subscribers -/

/-- The item was made for the connection of the socket, which its subscriber had
then. -/
def Meant (w : World) (sock : Fin 64) (item : PackidStateItem) : Prop :=
  ∃ socks i made, .enqueued socks sock i made ∈ w.trace ∧ made.origin = item.origin ∧
    (socks sock).tls = (w.socks sock).tls ∧ item.origin.subscriber = some (socks sock).clientid

theorem Meant.grown (meant : Meant w sock item) (longer : ∃ events, w'.trace = events ++ w.trace)
    (tls : (w'.socks sock).tls = (w.socks sock).tls) : Meant w' sock item := by
  obtain ⟨socks, i, made, enqueued, origin, conn, subscriber⟩ := meant
  exact ⟨socks, i, made, logged_grown longer enqueued, origin, conn.trans tls.symm, subscriber⟩

/-- The items in use are meant for the connections they are on, and so was what
was sent for one. -/
structure Directed (w : World) : Prop where
  items : ∀ sock, ∀ item ∈ w.items sock, Delivers item → item.packetId ≠ 0 → Meant w sock item
  sent : ∀ e ∈ w.trace, e.Reaches w.trace

theorem reaches_grown (longer : ∃ events, w'.trace = events ++ w.trace) {e : Event}
    (reaches : e.Reaches w.trace) : e.Reaches w'.trace := by
  cases e with
  | wrote sock sockst bytes item =>
    cases item with
    | none => trivial
    | some item =>
      intro delivers
      obtain ⟨socks, i, made, enqueued, rest⟩ := reaches delivers
      exact ⟨socks, i, made, logged_grown longer enqueued, rest⟩
  | _ => trivial

theorem Directed.framed (kept : MessagesKept w w') (directed : Directed w) : Directed w' := by
  obtain ⟨events, grown, others⟩ := kept.trace
  have longer : ∃ events, w'.trace = events ++ w.trace := ⟨events, grown⟩
  refine ⟨fun sock item member delivers used => ?_, fun e member => ?_⟩
  · rw [kept.items] at member
    exact (directed.items sock item member delivers used).grown longer (kept.tls sock)
  · rw [grown] at member
    rcases List.mem_append.mp member with member | member
    · have other := others e member
      cases e with
      | wrote _ _ _ item =>
        cases item with
        | none => trivial
        | some => exact absurd trivial other
      | _ => trivial
    · exact reaches_grown longer (directed.sent e member)

/-- An item in use that refers to its message is meant for its socket after a step. -/
theorem meant_act (act : MessageAct w owed w' owed') (addressed : ∀ e ∈ w'.trace, e.Addressed)
    (directed : Directed w) (member : item ∈ w'.items sock) (delivers : Delivers item)
    (used : item.packetId ≠ 0) : Meant w' sock item := by
  have longer := messageAct_trace act
  obtain ⟨k, at_k⟩ := List.mem_iff_getElem?.mp member
  have slot := slot_act act sock k
  rw [at_k] at slot
  generalize before : (w.items sock)[k]? = held at slot
  have old {x : PackidStateItem} (at_k : (w.items sock)[k]? = some x) (delivers : Delivers x)
      (used : x.packetId ≠ 0) : Meant w' sock x := by
    have member := List.mem_of_getElem? at_k
    refine (directed.items sock x member delivers used).grown longer ?_
    rcases tls_act act sock with same | started
    · exact same
    · have free : ∀ item ∈ w.items sock, item.packetId = 0 :=
        addressed (.started sock (w.items sock)) (by simp [started])
      exact absurd (free x member) used
  cases slot with
  | kept => exact old before delivers used
  | @changed x _ step =>
    obtain ⟨id, origin, -⟩ := step.kept
    have live : x.packetId ≠ 0 := by
      rcases id with same | free
      · exact same ▸ used
      · exact absurd free used
    have refers : Delivers x := ⟨origin ▸ delivers.1, step.counted delivers.2⟩
    obtain ⟨socks, i, made, enqueued, same, conn, subscriber⟩ := old before refers live
    exact ⟨socks, i, made, enqueued, same.trans origin.symm, conn, by rw [origin]; exact subscriber⟩
  | placed _ _ _ logged =>
    obtain ⟨late, logged⟩ := logged
    have enqueued : .enqueued w.socks sock k item ∈ w'.trace := by simp [logged]
    refine ⟨w.socks, k, item, enqueued, rfl, ?_, ?_⟩
    · rcases tls_act act sock with same | started
      · exact same.symm
      · rw [started] at logged
        cases late with
        | nil => cases (List.cons.inj logged).1
        | cons e late =>
          rw [List.cons_append] at logged
          have longer := congrArg List.length (List.cons.inj logged).2
          simp only [List.length_append, List.length_cons] at longer
          omega
    · exact (addressed _ enqueued).resolve_left (Option.isSome_iff_ne_none.mp delivers.1)

/-- Every step leaves the items in use to the connections they are meant for. -/
theorem directed_act (act : MessageAct w owed w' owed')
    (meets : ∀ e ∈ w'.trace, e.Apart ∧ e.Addressed) (directed : Directed w) : Directed w' := by
  have longer := messageAct_trace act
  refine ⟨fun sock item member delivers used =>
    meant_act act (fun e member => (meets e member).2) directed member delivers used, fun e member => ?_⟩
  cases e with
  | wrote sock sockst bytes item =>
    cases item with
    | none => trivial
    | some item =>
      refine reaches_grown longer ?_
      rcases wrote_act act member with before | ⟨rfl, wrote⟩
      · exact directed.sent _ before
      · intro delivers
        cases wrote with
        | reply _ _ _ other => exact absurd delivers.2 other
        | send qos deleteRetain at_i _ _ sentAs first =>
          refine directed.items sock item (List.mem_of_getElem? at_i) delivers ?_
          rcases sentAs with ⟨fresh, -⟩ | ⟨node, resent, -⟩
          · exact (first fresh).1
          · exact (meets _ (logged_grown longer resent)).1
  | _ => trivial

/-- In a run in which messages come under ids that are not in use for others, and
items to the sockets of their subscribers, every packet sent for an item of
`publish_by_topic` is the message that the item was made with, on the connection
of a client that was subscribed to its topic. -/
theorem subscribers_get_own_message (reachable : Reachable w)
    (meets : ∀ e ∈ w.trace, e.Apart ∧ e.Addressed) :
    ∀ e ∈ w.trace, e.Genuine w.trace ∧ e.Reaches w.trace := by
  have directed : Directed w := reachable.messages (fun e => e.Apart ∧ e.Addressed) (fun w _ => Directed w)
    (fun _ => ⟨fun _ _ member => absurd member List.not_mem_nil, List.forall_mem_nil _⟩)
    Directed.framed directed_act meets
  exact fun e member => ⟨sent_genuine reachable (fun e member => (meets e member).1) e member,
    directed.sent e member⟩

/-- What is sent on a socket for an item of `publish_by_topic`. -/
def sends (sock : Fin 64) (bytes frame : List UInt8) : Event → Bool
  | .wrote s _ sent (some item) =>
    decide (s = sock ∧ sent = bytes ∧ Delivers item ∧ item.origin.frame = frame)
  | _ => false

/-- A message is published and sent to its subscriber. -/
theorem own_message_sent : ∃ w, Reachable w ∧ (∀ e ∈ w.trace, e.Apart ∧ e.Addressed) ∧
    w.trace.any (sends 2 [0x32, 6, 0, 1, 116, 0, 5, 1] [0x32, 6, 0, 1, 116, 0, 5, 1]) ∧
    ∀ e ∈ w.trace, e.Genuine w.trace ∧ e.Reaches w.trace := by
  obtain ⟨w, -, reachable, shown⟩ := reached_run .clean
    [accepting 1, reading 1 (connectPacket [97] 2), accepting 2, reading 2 (connectPacket [98] 2),
      subscribing 2 [116] 1, reading 1 (some (publishPacket 0x32 [116] [0, 5, 1])), writing 2]
    (fun w => decide (∀ e ∈ w.trace, e.Apart ∧ e.Addressed) &&
      w.trace.any (sends 2 [0x32, 6, 0, 1, 116, 0, 5, 1] [0x32, 6, 0, 1, 116, 0, 5, 1])) (by decide +kernel)
  rw [Bool.and_eq_true] at shown
  have meets := of_decide_eq_true shown.1
  exact ⟨w, reachable, meets, shown.2, subscribers_get_own_message reachable meets⟩

/-- Two clients publish under packet id 5, one to each of two subscribers' topics. -/
def crossed : List (Message × Env) :=
  [accepting 1, reading 1 (connectPacket [97] 2), accepting 2, reading 2 (connectPacket [98] 2),
    subscribing 2 [116] 1, accepting 3, reading 3 (connectPacket [99] 2), subscribing 3 [117] 1,
    accepting 4, reading 4 (connectPacket [100] 2),
    reading 1 (some (publishPacket 0x32 [116] [0, 5, 1])),
    reading 4 (some (publishPacket 0x32 [117] [0, 5, 2])), writing 3]

/-- The subscriber of the second topic is sent the message of the first. -/
theorem other_message_sent : ∃ w, (initial .clean).run crossed = .ok w ∧ Reachable w ∧
    ∃ e ∈ w.trace, sends 3 [0x32, 6, 0, 1, 116, 0, 5, 1] [0x32, 6, 0, 1, 117, 0, 5, 2] e ∧
      ¬ e.Genuine w.trace := by
  obtain ⟨w, ran, reachable, shown⟩ := reached_run .clean crossed
    (fun w => w.trace.any (sends 3 [0x32, 6, 0, 1, 116, 0, 5, 1] [0x32, 6, 0, 1, 117, 0, 5, 2])) (by decide +kernel)
  obtain ⟨e, member, shown⟩ := List.any_eq_true.mp shown
  refine ⟨w, ran, reachable, e, member, shown, fun genuine => ?_⟩
  cases e with
  | wrote sock sockst bytes item =>
    cases item with
    | none => exact absurd shown Bool.false_ne_true
    | some item =>
      obtain ⟨-, rfl, delivers, frame⟩ := of_decide_eq_true shown
      obtain ⟨-, same, -⟩ := genuine delivers
      rw [frame] at same
      exact absurd same (by decide)
  | _ => exact absurd shown Bool.false_ne_true

end Genuine

end MqttBroker
