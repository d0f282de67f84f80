import MqttBroker.Protocol.PublishPacket
import MqttBroker.Worker.Reception
import MqttBroker.Worker.Stored

/-! The frames that subscribers get. They are the stored one with another first
byte, so they keep its layout, whatever QoS they are sent with. -/
namespace MqttBroker.Forwarding
open Logic Worker World Protocol PublishHashmap PublishHashmapReachability

/-! ### The first byte -/

section Header
variable {qos : UInt8}

theorem qos_cases (valid : qos ≤ 2) : qos = 0 ∨ qos = 1 ∨ qos = 2 := by
  have small : qos.toNat ≤ 2 := UInt8.le_iff_toNat_le.mp valid
  rcases (by omega : qos.toNat = 0 ∨ qos.toNat = 1 ∨ qos.toNat = 2) with same | same | same
  · exact .inl (UInt8.toNat_inj.mp same)
  · exact .inr (.inl (UInt8.toNat_inj.mp same))
  · exact .inr (.inr (UInt8.toNat_inj.mp same))

theorem header_qos (head : UInt8) (deleteRetain : Bool) (valid : qos ≤ 2) :
    qosFlags (publishHeader head qos deleteRetain) = qos := by
  rw [qosFlags, publishHeader_qos]
  rcases qos_cases valid with rfl | rfl | rfl <;> rfl

/-- Type and DUP flag are kept, the RETAIN flag may be cleared. -/
theorem header_kept (head : UInt8) (deleteRetain : Bool) (valid : qos ≤ 2) :
    publishHeader head qos deleteRetain >>> 4 = head >>> 4 ∧
      dupFlag (publishHeader head qos deleteRetain) = dupFlag head ∧
      retainFlag (publishHeader head qos deleteRetain) = (retainFlag head && !deleteRetain) := by
  rcases qos_cases valid with rfl | rfl | rfl <;> cases deleteRetain <;> revert head <;>
    exact forall_byte (by decide +kernel)

end Header

/-- What a message is sent with: as a subscriber was granted it for the first
time, as it was published later. -/
theorem header_carries {head qos : UInt8} {rest : List UInt8} {m : PublishPacket} (deleteRetain : Bool)
    (decoded : decode (head :: rest) = some m) (lower : qos ≤ m.qos) {due : UInt8} {retain : Bool} :
    Carries (publishHeader head qos deleteRetain :: rest) m.topic m.payload due retain ↔
      (m.qos = 0 ∨ qos ≠ 0) ∧ qos = due ∧ (m.retain && !deleteRetain) = retain := by
  have valid : qos ≤ 2 := UInt8.le_trans lower m.qos_le
  obtain ⟨type, dup, kept⟩ := header_kept head deleteRetain valid
  obtain ⟨is_publish, topic, body, decodes, -⟩ := decode_cons decoded
  have is_qos := header_qos head deleteRetain valid
  have is_retain : m.retain = retainFlag head := (decodeBody_some decodes).2.2.1
  rw [carries_iff decoded (type.trans is_publish) dup (by rwa [is_qos]), is_qos, kept, is_retain]

/-! ### Retained deliveries -/

variable {w w' : World} {owed owed' : List Admitted} {trace : List Event} {sock : Fin 64} {item : PackidStateItem}
  {m : PublishPacket}

theorem lesser_granted (reqQos qos : UInt8) : (if reqQos < qos then reqQos else qos) = min reqQos qos := by
  change _ = if reqQos ≤ qos then reqQos else qos
  by_cases below : reqQos < qos
  · rw [if_pos below, if_pos (UInt8.le_of_lt below)]
  · rw [if_neg below]
    split
    · exact UInt8.le_antisymm (UInt8.not_lt.mp below) ‹_›
    · rfl

/-- An item for the retained message of a topic has its packet id and packet, and
the lesser of the two QoS. -/
def Delivers (w : World) (topic : Key) (granted : UInt8) (item : PackidStateItem) : Prop :=
  ∃ packetId j, w.retainedSubMsg.get topic = .ok (some packetId) ∧ w.publishMsgStore.get packetId = some j ∧
    item.packetId = packetId ∧ item.origin.frame = (w.nodeAt j).data ∧ item.origin.subscriber = none ∧
      item.qos = min granted (w.nodeAt j).qos ∧ item.deleteRetain = false

theorem sendRetained_items {topic : Key} {reqQos : UInt8} {u : Unit} {x : PackidStateItem}
    (ran : sendRetained sock topic reqQos w = .ok (u, w')) (member : x ∈ w'.items sock) :
    x ∈ w.items sock ∨ Delivers w topic reqQos x := by
  rw [sendRetained, get_bind_ok] at ran
  obtain ⟨retained, kept, ran⟩ := check_bind_ok ran
  cases retained with
  | none =>
    obtain rfl := log_ok.mp ran
    exact .inl member
  | some packetId =>
    dsimp only at ran
    rw [storeGet_bind_ok] at ran
    cases found : w.publishMsgStore.get packetId with
    | none =>
      rw [found] at ran
      obtain rfl := log_ok.mp ran
      exact .inl member
    | some j =>
      rw [found] at ran
      dsimp only at ran
      rw [get_bind_ok] at ran
      obtain ⟨asked, w₁, queued, ran⟩ := bind_ok.mp ran
      obtain ⟨env, rfl⟩ := sendtoque_ok queued
      cases asked with
      | false =>
        obtain rfl := log_ok.mp ran
        exact .inl member
      | true =>
        rw [if_pos rfl, sockAt_bind_ok] at ran
        obtain ⟨⟨⟩, w₂, added, ran⟩ := bind_ok.mp ran
        obtain ⟨⟨⟩, w₃, counted, ran⟩ := bind_ok.mp ran
        obtain rfl := countUp_ok.mp counted
        obtain rfl := log_ok.mp ran
        have member : x ∈ w₂.items sock := member
        refine (mem_added (addPacketId_ok added) member).imp_right fun same => ?_
        rw [same.2]
        exact ⟨packetId, j, kept, found, rfl, rfl, rfl, lesser_granted _ _, rfl⟩

/-! ### What is stored -/

/-- A slot has no packet under an id but this one. -/
def Bears (x : UInt16) (frame : List UInt8) : NodePubmap → Prop := Under x (· = frame)

instance (x : UInt16) (frame : List UInt8) : DecidablePred (Bears x frame) :=
  inferInstanceAs (DecidablePred (Under x _))

/-- A packet comes to the table under an id that no slot and no waiting item has
for another one. The payload of a will that is a PUBLISH has the QoS of the will,
and no acknowledgement of packet id 0 has a free item sent again. -/
def Sole : Event → Prop
  | .adding socks store x frame _ _ => x ≠ 0 → (∀ node ∈ store.slots, Bears x frame node) ∧
      ∀ sock, ∀ item ∈ (socks sock).packidState.elems,
        item.state.Counted → item.packetId = x → item.origin.frame = frame
  | .willed _ _ _ qos frame => ∀ m ∈ decode frame, qos = m.qos
  | .resending item _ => item.packetId ≠ 0
  | _ => True

instance : DecidablePred Sole := fun e => by
  rcases e with ⟨⟩ <;> dsimp only [Sole] <;> infer_instance

/-- A packet in the table has come from a client. -/
def Sourced (trace : List Event) (node : NodePubmap) : Prop :=
  node.data ≠ [] → Source trace node.pubpackId node.data node.qos

/-- A packet that is a PUBLISH is stored with its QoS. -/
theorem source_qos (accepted : Lawful Accepted trace) (sole : ∀ e ∈ trace, Sole e) {x : UInt16}
    {frame : List UInt8} {qos : UInt8} (source : Source trace x frame qos) (decoded : decode frame = some m) :
    qos = m.qos := by
  rcases source with ⟨sock, sockst, topic, published⟩ | ⟨conn, topic, payload, willed⟩
  · obtain ⟨earlier, -, received⟩ := accepted_mem accepted published
    exact (received.2.2 m decoded).2.1
  · exact sole _ willed m decoded

/-- The message of an item, as it was distributed. -/
def message (item : PackidStateItem) : Admitted :=
  ⟨item.packetId, item.origin.frame, item.origin.topic, item.origin.publisher, none⟩

/-- What an item was made for: a client that the message was granted to, or a new
subscription to the topic of a retained one. -/
structure Due (trace : List Event) (item : PackidStateItem) : Prop where
  granted : ∀ clientid, item.origin.subscriber = some clientid →
    item.deleteRetain = true ∧ Granted trace (message item) clientid item.qos
  delivered : item.origin.subscriber = none → item.origin.publisher = none ∧ item.deleteRetain = false ∧
    ∃ qos, Source trace item.packetId item.origin.frame qos

theorem Due.grown (due : Due w.trace item) (longer : ∃ events, w'.trace = events ++ w.trace) :
    Due w'.trace item where
  granted clientid named := (due.granted clientid named).imp_right fun granted => granted.grown longer
  delivered none := by
    obtain ⟨nobody, kept, qos, source⟩ := due.delivered none
    exact ⟨nobody, kept, qos, source.grown longer⟩

theorem Due.of {old : PackidStateItem} (due : Due trace old) (id : old.packetId = item.packetId)
    (origin : old.origin = item.origin) (qos : old.qos = item.qos)
    (dropped : old.deleteRetain = item.deleteRetain) : Due trace item := by
  have same : message old = message item := by rw [message, message, id, origin]
  refine ⟨fun clientid named => ?_, fun none => ?_⟩
  · rw [← dropped, ← same, ← qos]
    exact due.granted clientid (origin ▸ named)
  · rw [← dropped, ← id, ← origin]
    exact due.delivered (origin ▸ none)

/-- What is written for an item that refers to its message is that packet, behind
the first byte it is sent with. -/
def Sends (trace : List Event) : Event → Prop
  | .wrote _ _ bytes (some item) => item.state.Counted → ∀ m, decode item.origin.frame = some m →
    Due trace item ∧ ∃ head rest qos deleteRetain, item.origin.frame = head :: rest ∧
      bytes = publishHeader head qos deleteRetain :: rest ∧
        (item.state = .sendpublish ∧ qos = item.qos ∧ deleteRetain = item.deleteRetain ∨
          item.state ≠ .sendpublish ∧ qos = m.qos ∧ deleteRetain = true)
  | _ => True

theorem sends_grown (longer : ∃ events, w'.trace = events ++ w.trace) {e : Event} (sends : Sends w.trace e) :
    Sends w'.trace e := by
  cases e with
  | wrote sock sockst bytes item =>
    cases item with
    | none => trivial
    | some item => exact fun counted m decoded => (sends counted m decoded).imp_left fun due => due.grown longer
  | _ => trivial

/-- Every packet in the table is alone under its id, and is that of the items and
of the message in hand. -/
structure Preserved (w : World) (owed : List Admitted) : Prop where
  accepted : Lawful Accepted w.trace
  findable : Findable w.publishMsgStore
  sourced : AllSlots (Sourced w.trace) w.publishMsgStore.slots
  single : ∀ x ≠ 0, ∃ frame, AllSlots (Bears x frame) w.publishMsgStore.slots
  items : ∀ sock, ∀ item ∈ w.items sock, item.state.Counted → item.packetId ≠ 0 →
    item.origin.frame ≠ [] →
      AllSlots (Bears item.packetId item.origin.frame) w.publishMsgStore.slots ∧ Due w.trace item
  owed : ∀ m ∈ owed, m.stamp.isSome → m.packetId ≠ 0 → AllSlots (Bears m.packetId m.frame) w.publishMsgStore.slots
  sent : ∀ e ∈ w.trace, Sends w.trace e

theorem Preserved.framed (kept : MessagesKept w w') (preserved : Preserved w owed) : Preserved w' owed := by
  obtain ⟨events, grown, others⟩ := kept.trace
  have longer : ∃ events, w'.trace = events ++ w.trace := ⟨events, grown⟩
  have store := kept.store
  refine ⟨accepted_framed kept preserved.accepted, store ▸ preserved.findable, fun node member filled => ?_,
    store ▸ preserved.single, fun sock item member counted used filled => ?_, store ▸ preserved.owed,
    fun e member => ?_⟩
  · rw [store] at member
    exact (preserved.sourced node member filled).grown longer
  · rw [kept.items] at member
    rw [store]
    exact (preserved.items sock item member counted used filled).imp_right fun due => due.grown longer
  · rw [grown] at member
    rcases List.mem_append.mp member with member | member
    · have other := others e member
      cases e with
      | wrote _ _ _ item =>
        cases item with
        | none => trivial
        | some => exact absurd trivial other
      | _ => trivial
    · exact sends_grown longer (preserved.sent e member)

/-- An item that refers to its message after a step did so before, or it is new. -/
theorem counted_act (act : MessageAct w owed w' owed') (member : item ∈ w'.items sock)
    (counted : item.state.Counted) (used : item.packetId ≠ 0) :
    (∃ old ∈ w.items sock, old.state.Counted ∧ old.packetId = item.packetId ∧ old.origin = item.origin ∧
        old.qos = item.qos ∧ old.deleteRetain = item.deleteRetain) ∨ Made w owed sock item := by
  obtain ⟨k, at_k⟩ := List.mem_iff_getElem?.mp member
  have slot := slot_act act sock k
  rw [at_k] at slot
  generalize before : (w.items sock)[k]? = old at slot
  cases slot with
  | kept => exact .inl ⟨item, List.mem_of_getElem? before, counted, rfl, rfl, rfl, rfl⟩
  | @changed old _ step =>
    obtain ⟨id, origin, qos⟩ := step.kept
    exact .inl ⟨old, List.mem_of_getElem? before, step.counted counted, (id.resolve_right used).symm, origin.symm,
      qos.symm, step.deleteRetain.symm⟩
  | placed _ _ made => exact .inr made

/-- What is written for an item that refers to its message is that message. -/
theorem Preserved.write (preserved : Preserved w owed) (sole : ∀ e ∈ w.trace, Sole e) {bytes : List UInt8}
    (wrote : WriteStep w sock item bytes) (sockst : SockCid) :
    Sends w.trace (.wrote sock sockst bytes (some item)) := by
  intro counted m decoded
  cases wrote with
  | reply _ _ _ other => exact absurd counted other
  | @send i j qos deleteRetain head rest at_i _ _ sentAs first found held sentWith =>
    have used : item.packetId ≠ 0 := by
      rcases sentAs with ⟨fresh, -⟩ | ⟨node, resent, -⟩
      · exact (first fresh).1
      · exact sole _ resent
    have filled : item.origin.frame ≠ [] := by
      intro none
      rw [none] at decoded
      cases decoded
    obtain ⟨bears, due⟩ := preserved.items sock item (List.mem_of_getElem? at_i) counted used filled
    have free : Bears item.packetId item.origin.frame {} := fun _ none => absurd rfl none
    have stored : (w.nodeAt j).data ≠ [] := by
      rw [held]
      exact List.cons_ne_nil _ _
    have same : (w.nodeAt j).data = item.origin.frame :=
      bears.slotAt free j (preserved.findable.shaped.get_id found) stored
    refine ⟨due, head, rest, qos, deleteRetain, same.symm.trans held, rfl, ?_⟩
    rcases sentWith with fresh | ⟨waits, -, published, dropped⟩
    · exact .inl fresh
    refine .inr ⟨waits, ?_, dropped⟩
    have sourced : Sourced w.trace (w.nodeAt j) := preserved.sourced.slotAt (fun none => absurd rfl none) j
    have source := sourced stored
    rw [same] at source
    exact published.trans (source_qos preserved.accepted sole source decoded)

/-- A new item that refers to its message is for the one in hand, or for the
retained one that the table has. -/
theorem Preserved.made (preserved : Preserved w owed) (made : Made w owed sock item) (counted : item.state.Counted)
    (used : item.packetId ≠ 0) (filled : item.origin.frame ≠ []) :
    AllSlots (Bears item.packetId item.origin.frame) w.publishMsgStore.slots ∧ Due w.trace item := by
  cases made with
  | fannedOut qos stamped owes _ _ _ granted =>
    refine ⟨preserved.owed _ owes (by rw [stamped]; rfl) used, ?_, nofun⟩
    rintro clientid ⟨⟩
    exact ⟨rfl, granted⟩
  | @delivered packetId qos topic i found =>
    have id : (w.nodeAt i).pubpackId = packetId := preserved.findable.shaped.get_id found
    have free (frame : List UInt8) : Bears packetId frame {} := fun _ none => absurd rfl none
    obtain ⟨frame, bears⟩ := preserved.single packetId used
    have same : (w.nodeAt i).data = frame := bears.slotAt (free frame) i id filled
    have sourced : Sourced w.trace (w.nodeAt i) := preserved.sourced.slotAt (fun none => absurd rfl none) i
    have source := sourced filled
    rw [id] at source
    exact ⟨same ▸ bears, nofun, fun _ => ⟨rfl, rfl, _, source⟩⟩
  | incoming kind =>
    rcases kind with ⟨state, -⟩ | ⟨state, -⟩ <;> simp [state, PacketState.Counted] at counted

theorem preserved_act (act : MessageAct w owed w' owed') (sole : ∀ e ∈ w'.trace, Sole e)
    (preserved : Preserved w owed) : Preserved w' owed' := by
  have longer := messageAct_trace act
  have nothing {x : UInt16} {frame : List UInt8} : ∀ (y : UInt16) (frame' : List UInt8) (qos : UInt8), False →
      y = x → frame' = frame := fun _ _ _ none => absurd none id
  have sent : ∀ e ∈ w'.trace, Sends w'.trace e := by
    intro e member
    cases e with
    | wrote sock sockst bytes item =>
      cases item with
      | none => trivial
      | some item =>
        refine sends_grown longer ?_
        rcases wrote_act act member with before | ⟨-, wrote⟩
        · exact preserved.sent _ before
        · exact preserved.write (meets_before longer sole) wrote sockst
    | _ => trivial
  have sourced {P : UInt16 → List UInt8 → UInt8 → Prop}
      (steps : Relation.ReflTransGen (StoreStep P) w.publishMsgStore w'.publishMsgStore)
      (added : ∀ x frame qos, P x frame qos → Source w'.trace x frame qos) :
      AllSlots (Sourced w'.trace) w'.publishMsgStore.slots := by
    refine slots_steps steps ?_ ?_ ?_ ?_ fun node member filled => (preserved.sourced node member filled).grown longer
    · exact fun none => absurd rfl none
    · exact fun _ _ none => absurd rfl none
    · exact fun _ _ sourced => sourced
    · exact fun x frame qos _ brought _ => added x frame qos brought
  have accepted := accepted_act act preserved.accepted
  have findable := findable_act act preserved.findable
  rcases store_act act preserved.findable with ⟨steps, before⟩ | ⟨came, source, same, steps, now⟩
  · refine ⟨accepted, findable, sourced steps fun _ _ _ none => absurd none id, fun x used => ?_,
      fun sock item member counted used filled => ?_, fun m member stamped used => ?_, sent⟩
    · obtain ⟨frame, bears⟩ := preserved.single x used
      exact ⟨frame, under_steps steps used nothing bears⟩
    · rcases counted_act act member counted used with ⟨old, before, refers, id, origin, qos, dropped⟩ | made
      · obtain ⟨bears, due⟩ := preserved.items sock old before refers (id ▸ used) (origin ▸ filled)
        rw [id, origin] at bears
        exact ⟨under_steps steps used nothing bears, (due.of id origin qos dropped).grown longer⟩
      · obtain ⟨bears, due⟩ := preserved.made made counted used filled
        exact ⟨under_steps steps used nothing bears, due.grown longer⟩
    · exact under_steps steps used nothing (preserved.owed m (before m member stamped) stamped used)
  · rename_i x frame qos ok
    have alone : x ≠ 0 → (∀ node ∈ w.publishMsgStore.slots, Bears x frame node) ∧
      ∀ sock, ∀ item ∈ w.items sock, item.state.Counted → item.packetId = x → item.origin.frame = frame :=
      sole _ came
    refine ⟨accepted, findable, sourced steps ?_, fun y used => ?_, fun sock item member counted used filled => ?_,
      fun m member stamped used => ?_, sent⟩
    · rintro y frame' qos' ⟨rfl, rfl, rfl⟩
      exact source
    · by_cases here : y = x
      · subst here
        refine ⟨frame, under_steps steps used ?_ (alone used).1⟩
        rintro y frame' qos' ⟨-, rfl, -⟩ -
        rfl
      · obtain ⟨frame', bears⟩ := preserved.single y used
        refine ⟨frame', under_steps steps used ?_ bears⟩
        rintro y' frame'' qos' ⟨rfl, -, -⟩ id
        exact absurd id.symm here
    · rw [items, same] at member
      obtain ⟨bears, due⟩ := preserved.items sock item member counted used filled
      refine ⟨under_steps steps used ?_ bears, due.grown longer⟩
      rintro y frame' qos' ⟨rfl, rfl, rfl⟩ id
      exact ((alone (id ▸ used)).2 sock item member counted id.symm).symm
    · obtain ⟨rfl, rfl, qos', -⟩ := now m member stamped
      refine under_steps steps used ?_ (alone used).1
      rintro y frame' qos'' ⟨-, rfl, -⟩ -
      rfl

theorem reachable_preserved (reachable : Reachable w) (sole : ∀ e ∈ w.trace, Sole e) : Preserved w [] := by
  refine reachable.messages Sole Preserved (fun boot => ?_) Preserved.framed preserved_act sole
  refine ⟨lawful_nil, findable_initial boot, ?_, fun x _ => ⟨[], ?_⟩, ?_, ?_, ?_⟩
  · exact List.forall_mem_replicate.mpr (.inr fun none => absurd rfl none)
  · exact List.forall_mem_replicate.mpr (.inr fun _ none => absurd rfl none)
  · exact fun _ _ member => absurd member List.not_mem_nil
  · exact List.forall_mem_nil _
  · exact List.forall_mem_nil _

/-- When a frame carries the message for a subscriber with a granted QoS. -/
def Suits (m : PublishPacket) (granted : UInt8) (item : PackidStateItem) : Prop :=
  if item.state = .sendpublish then m.qos = 0 ∨ granted ≠ 0
  else m.qos ≤ granted ∧ (m.retain → item.deleteRetain)

theorem min_le (a b : UInt8) : min a b ≤ b := by
  change (if a ≤ b then a else b) ≤ b
  split
  · assumption
  · exact UInt8.le_refl b

theorem min_eq_iff (a b : UInt8) : b = min a b ↔ b ≤ a := by
  change b = (if a ≤ b then a else b) ↔ _
  split
  · rename_i below
    exact ⟨fun same => same ▸ UInt8.le_refl _, fun above => UInt8.le_antisymm above below⟩
  · rename_i above
    exact ⟨fun _ => UInt8.le_of_lt (UInt8.not_le.mp above), fun _ => rfl⟩

theorem min_ne_zero (a b : UInt8) : b = 0 ∨ min a b ≠ 0 ↔ b = 0 ∨ a ≠ 0 := by
  change b = 0 ∨ (if a ≤ b then a else b) ≠ 0 ↔ _
  split
  · rfl
  · rename_i above
    constructor
    · rintro (zero | some_qos)
      · exact .inl zero
      · refine .inr ?_
        rintro rfl
        exact above (UInt8.zero_le)
    · intro _
      exact (em (b = 0)).imp_right id

/-! ### Runs -/

/-- An item is for a PUBLISH that was accepted as it had just been received, and
its subscriber was granted a QoS for the topic. -/
def FannedOut (trace : List Event) (item : PackidStateItem) (m : PublishPacket) (granted : UInt8) : Prop :=
  (∃ sock sockst earlier, item.origin.publisher = some ⟨sockst.tls, sockst.clientid⟩ ∧
    .publishing sock sockst m.qos item.packetId m.topic item.origin.frame ::
      .received sock sockst item.origin.frame :: earlier <:+ trace) ∧
  (∃ clients node, .offering item.packetId m.topic clients ∈ trace ∧ node ∈ clients ∧
    item.origin.subscriber = some node.key ∧ node.data.isSubscribed m.topic = .ok granted ∧ granted ≠ emptyQos) ∧
  item.qos = min granted m.qos ∧ item.deleteRetain = true

/-- A packet that is written for an item that refers to a well-formed message:
where the message came from, and when the packet carries it. -/
def Carried (trace : List Event) : Event → Prop
  | .wrote _ _ bytes (some item) => item.state.Counted → ∀ m, decode item.origin.frame = some m →
      (item.origin.publisher.isSome → ∃ granted, FannedOut trace item m granted) ∧
      (item.origin.subscriber = none →
        item.deleteRetain = false ∧ Source trace item.packetId item.origin.frame m.qos) ∧
      ∀ granted, item.qos = min granted m.qos →
        (Carries bytes m.topic m.payload (min granted m.qos) (m.retain && !item.deleteRetain) ↔
          Suits m granted item)
  | _ => True

/-- An item for a client, of a message that was published, is for the PUBLISH. -/
theorem fannedOut_of_due (reachable : Reachable w) (due : Due w.trace item)
    (decoded : decode item.origin.frame = some m) (published : item.origin.publisher.isSome) :
    ∃ granted, FannedOut w.trace item m granted := by
  obtain ⟨sender, sent⟩ := Option.isSome_iff_exists.mp published
  cases named : item.origin.subscriber with
  | none =>
    rw [(due.delivered named).1] at sent
    cases sent
  | some clientid =>
    obtain ⟨dropped, qos, granted, clients, node, distributed, offered, among, rfl, subscribed, some_qos, lesser⟩ :=
      due.granted clientid named
    obtain ⟨late, earlier, split⟩ := List.append_of_mem distributed
    have distributes : Distributes earlier item.origin.publisher qos item.packetId item.origin.topic
      item.origin.frame := (Reception.received reachable).prompt late _ earlier split
    obtain ⟨sock, sockst, rfl, later, before, rfl, -⟩ := distributes.sent sender sent
    have accepts : .publishing sock sockst qos item.packetId item.origin.topic item.origin.frame ∈ w.trace := by
      simp [split]
    obtain ⟨_, suffix, ⟨before', rfl⟩, -, fields⟩ := accepted_mem (reachable_accepted reachable) accepts
    obtain ⟨topic, rfl, -⟩ := fields m decoded
    have offered : .offering item.packetId item.origin.topic clients ∈ w.trace := offered
    have subscribed : node.data.isSubscribed item.origin.topic = .ok granted := subscribed
    rw [topic] at offered subscribed suffix
    exact ⟨granted, ⟨sock, sockst, before', sent, suffix⟩, ⟨clients, node, offered, among, named, subscribed, some_qos⟩,
      lesser, dropped⟩

/-- A packet behind the first byte it is sent with carries its message exactly if
the QoS suits. -/
theorem carries_iff_suits {bytes : List UInt8} {head granted qos : UInt8} {rest : List UInt8} {deleteRetain : Bool}
    (decoded : decode (head :: rest) = some m) (same : bytes = publishHeader head qos deleteRetain :: rest)
    (sentWith : item.state = .sendpublish ∧ qos = item.qos ∧ deleteRetain = item.deleteRetain ∨
      item.state ≠ .sendpublish ∧ qos = m.qos ∧ deleteRetain = true) (lesser : item.qos = min granted m.qos) :
    Carries bytes m.topic m.payload (min granted m.qos) (m.retain && !item.deleteRetain) ↔ Suits m granted item := by
  subst same
  unfold Suits
  rcases sentWith with ⟨fresh, rfl, rfl⟩ | ⟨waits, rfl, rfl⟩
  · rw [if_pos fresh, lesser, header_carries _ decoded (min_le _ _), min_ne_zero]
    simp
  · rw [if_neg waits, header_carries _ decoded (UInt8.le_refl _), min_eq_iff]
    have layout : m.qos = 0 ∨ m.qos ≠ 0 := em _
    cases m.retain <;> cases item.deleteRetain <;> simp [layout]

/-- In a run in which every packet is alone under its id, whatever is written for
an item that refers to a well-formed message, in whatever order, is that message
as it was accepted, exactly if the QoS suits. A new subscription gets an item for
the retained message of its topic. -/
theorem frames_carry_message (w : World) :
    (Reachable w → (∀ e ∈ w.trace, Sole e) → ∀ e ∈ w.trace, Carried w.trace e) ∧
    ∀ sock topic granted w' item, sendRetained sock topic granted w = .ok ((), w') →
      item ∈ w'.items sock → item ∈ w.items sock ∨ Delivers w topic granted item := by
  refine ⟨fun reachable sole e member => ?_, fun sock topic granted w' item ran => sendRetained_items ran⟩
  have preserved := reachable_preserved reachable sole
  cases e with
  | wrote sock sockst bytes item =>
    cases item with
    | none => trivial
    | some item =>
      intro counted m decoded
      obtain ⟨due, head, rest, qos, deleteRetain, frame, same, sentWith⟩ := preserved.sent _ member counted m decoded
      refine ⟨fannedOut_of_due reachable due decoded, fun none => ?_, fun granted lesser => ?_⟩
      · obtain ⟨-, kept, published, source⟩ := due.delivered none
        exact ⟨kept, source_qos preserved.accepted sole source decoded ▸ source⟩
      · rw [frame] at decoded
        exact carries_iff_suits decoded same sentWith lesser
  | _ => trivial

/-- A message of QoS 1 with the packet id 5 and the payload 1. -/
def published : List UInt8 := publishPacket 0x32 [116] [0, 5, 1]

theorem published_decodes : ∃ m, decode published = some m ∧ m.topic = [116] ∧ m.payload = [1] ∧
    m.qos = 1 ∧ m.retain = false := by
  have decodes : (decode published).map (fun m => (m.topic, m.payload, m.qos, m.retain)) =
      some ([116], [1], 1, false) := by decide +kernel
  obtain ⟨m, decoded, contents⟩ := Option.map_eq_some_iff.mp decodes
  simp only [Prod.mk.injEq] at contents
  exact ⟨m, decoded, contents⟩

/-- It is published for a subscriber. -/
def publishedFor (granted : UInt8) : List (Message × Env) :=
  [accepting 1, reading 1 (connectPacket [97] 2), accepting 2, reading 2 (connectPacket [98] 2),
    subscribing 2 [116] granted, reading 1 (some published)]

/-- A packet written on socket 2 for the message. -/
def delivers (bytes : List UInt8) : Event → Bool
  | .wrote sock _ sent (some item) => decide (sock = 2 ∧ sent = bytes ∧ item.state = .sendpublish ∧
      item.qos = 1 ∧ item.deleteRetain = true ∧ item.origin.frame = published ∧ item.origin.publisher.isSome)
  | _ => false

theorem granted_one_carries : ∃ w : World, Reachable w ∧
    ∃ e ∈ w.trace, delivers [0x32, 6, 0, 1, 116, 0, 5, 1] e ∧ Carried w.trace e ∧
      Carries [0x32, 6, 0, 1, 116, 0, 5, 1] [116] [1] 1 false := by
  obtain ⟨w, ran, reachable, shown⟩ := reached_run .clean (publishedFor 1 ++ [writing 2])
    (fun w => decide (∀ e ∈ w.trace, Sole e) && w.trace.any (delivers [0x32, 6, 0, 1, 116, 0, 5, 1]))
    (by decide +kernel)
  rw [Bool.and_eq_true] at shown
  obtain ⟨e, member, shown'⟩ := List.any_eq_true.mp shown.2
  have carried := (frames_carry_message w).1 reachable (of_decide_eq_true shown.1) e member
  refine ⟨w, reachable, e, member, shown', carried, ?_⟩
  obtain ⟨m, decoded, topic, payload, qos, retain⟩ := published_decodes
  cases e with
  | wrote sock sockst bytes item =>
    cases item with
    | none => exact absurd shown' Bool.false_ne_true
    | some item =>
      obtain ⟨-, rfl, fresh, item_qos, dropped, frame, -⟩ := of_decide_eq_true shown'
      obtain ⟨-, -, carries⟩ := carried (.inl fresh) m (frame ▸ decoded)
      have sent := carries 1 (by rw [item_qos, qos]; rfl)
      rw [topic, payload, qos, retain, dropped] at sent
      exact sent.mpr (by simp [Suits, fresh])
  | _ => exact absurd shown' Bool.false_ne_true

/-- The message is written on socket 2 with the packet identifier in its body. -/
def garbles : Event → Bool
  | .wrote sock _ bytes (some item) => decide (sock = 2 ∧
      bytes = [0x30, 6, 0, 1, 116, 0, 5, 1] ∧ item.origin.frame = published)
  | _ => false

/-- For a subscription with QoS 0 the packet identifier stays in the body. -/
theorem granted_zero_garbled : ∃ w item sockst, (initial .clean).run (publishedFor 0 ++ [writing 2]) =
    .ok w ∧ World.Reachable w ∧
    .wrote 2 sockst [0x30, 6, 0, 1, 116, 0, 5, 1] (some item) ∈ w.trace ∧
    item.origin.frame = published ∧ Carries published [116] [1] 1 false ∧
    ¬ Carries [0x30, 6, 0, 1, 116, 0, 5, 1] [116] [1] 0 false := by
  obtain ⟨w, ran, reachable, shown⟩ := reached_run .clean (publishedFor 0 ++ [writing 2])
    (fun w => w.trace.any garbles) (by decide +kernel)
  obtain ⟨e, member, shown⟩ := List.any_eq_true.mp shown
  obtain ⟨m, decoded, topic, payload, qos, retain⟩ := published_decodes
  cases e with
  | wrote sock sockst bytes item =>
    cases item with
    | none => exact absurd shown Bool.false_ne_true
    | some item =>
      obtain ⟨rfl, rfl, frame⟩ := of_decide_eq_true shown
      refine ⟨w, item, sockst, ran, reachable, member, frame, ⟨m, decoded, topic, payload, qos, retain⟩, ?_⟩
      rintro ⟨m', decoded', -, payload', -⟩
      have garbled : (decode [0x30, 6, 0, 1, 116, 0, 5, 1]).map PublishPacket.payload =
          some [0, 5, 1] := by decide +kernel
      rw [decoded', Option.map_some, payload'] at garbled
      exact absurd garbled (by decide)
  | _ => exact absurd shown Bool.false_ne_true

end MqttBroker.Forwarding
