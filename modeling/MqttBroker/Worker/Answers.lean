import MqttBroker.Worker.Balance
import MqttBroker.Worker.Draining
import MqttBroker.Worker.Reading
import MqttBroker.Worker.Stored

/-! The acknowledgements of a run: each answers a packet that was read on its
socket and has not been answered. -/
namespace MqttBroker.Answers
open Logic Protocol RemainingLength Worker World Decoding Reading Balance PublishHashmap PublishHashmapReachability

variable {w w₁ w' : World} {sock : Fin 64} {header : Header} {pos len : Nat}

/-! ### Acknowledgements that are received -/

section Matching
variable {owing : Option (Ack × Fin 64 × UInt16)} {awaited : PacketState} {low high : UInt8} {more : List UInt8}

/-- An acknowledgement has just been received on a socket, and the buffer has
its identifier. -/
structure Acknowledged (sock : Fin 64) (x : UInt16) (w : World) : Prop where
  live : x ≠ 0
  received : ∃ sockst packet before, w.trace = .received sock sockst packet :: before ∧
    idAt (bodyOf packet) = some (idBytes x)
  held : ∃ low high more, idBytes x = [low, high] ∧ Holds w.buf 2 (low :: high :: more)

theorem findItem_inside {found : UInt16 × Option (PackidStateItem × Nat)}
    (ran : findItem sock awaited w = .ok (found, w')) : 4 ≤ w.buf.length := by
  obtain ⟨id, w₁, read, -⟩ := bind_ok.mp ran
  obtain ⟨low, w₂, first, rest⟩ := bind_ok.mp read
  obtain ⟨-, rfl⟩ := byteAt_ok first
  obtain ⟨high, w₃, second, -⟩ := bind_ok.mp rest
  rw [byteAt, get_bind_ok] at second
  split at second
  · assumption
  · exact absurd second fault_ok

/-- It is matched with an item of its identifier, or with none. -/
theorem findItem_balanced {x id : UInt16} {found : Option (PackidStateItem × Nat)} (balanced : Balanced owing w)
    (acknowledged : Acknowledged sock x w) (ran : findItem sock awaited w = .ok ((id, found), w')) :
    Balanced owing w' ∧ w'.buf = w.buf ∧ ∀ entry ∈ found, entry.1.packetId = x ∧ entry.1.state = awaited ∧
      (w'.items sock)[entry.2]? = some entry.1 := by
  obtain ⟨low, high, more, same, holds⟩ := acknowledged.held
  obtain rfl : x = (high.toUInt16 <<< 8) ||| low.toUInt16 :=
    idBytes_inj (same.trans (idBytes_word low high).symm)
  rw [findItem, bind_of_ok (packetIdAt_holds holds), get_bind_ok] at ran
  generalize search : (w.items sock).zipIdx.find? _ = entry at ran
  cases entry with
  | none =>
    obtain ⟨same, rfl⟩ := pure_ok.mp ran
    cases same
    exact ⟨balanced, rfl, nofun⟩
  | some entry =>
    obtain ⟨item, i⟩ := entry
    dsimp only at ran
    rw [log_bind_ok] at ran
    obtain ⟨same, rfl⟩ := pure_ok.mp ran
    cases same
    obtain ⟨same_id, same_state⟩ : item.packetId = (high.toUInt16 <<< 8) ||| low.toUInt16 ∧ item.state = awaited := by
      simpa using List.find?_some search
    have at_i : (w.items sock)[i]? = some item := by
      simpa [List.mem_zipIdx_iff_getElem?] using List.mem_of_find?_eq_some search
    refine ⟨balanced.log ⟨acknowledged.live, same_id, acknowledged.received⟩ fun _ _ _ => rfl, rfl, ?_⟩
    rintro entry ⟨⟩
    exact ⟨same_id, same_state, at_i⟩

theorem keeps_forget (packetId : UInt16) : Keeps w (w.forget packetId) := by
  refine keeps_of _ (forget_trace packetId) (fun e member => ?_) fun kind sock x _ => ?_
  · obtain ⟨node, rfl⟩ := mem_forgotten member
    trivial
  · rw [forget_items]

theorem keeps_done {i : Nat} {f : PackidStateItem → PackidStateItem}
    (done : ∀ kind x item, x ≠ 0 → ¬ Waits kind x (f item)) : Keeps w (w.setItem sock i f) :=
  keeps_of [] rfl (List.forall_mem_nil _) fun _ other _ used => waiting_done done used other

theorem done_free (kind : Ack) (x : UInt16) (item : PackidStateItem) (used : x ≠ 0) :
    ¬ Waits kind x { item with packetId := 0 } := fun held => used held.2.symm

theorem done_state {state : PacketState} (idle : ∀ kind, waits kind ≠ some state) (kind : Ack) (x : UInt16)
    (item : PackidStateItem) : ¬ Waits kind x { item with state := state } := fun held => idle kind held.1

theorem idle_getting {state : PacketState}
    (getting : state = .getpuback ∨ state = .getpubrec ∨ state = .getpubrel ∨ state = .getpubcomp) (kind : Ack) :
    waits kind ≠ some state := by
  rcases getting with rfl | rfl | rfl | rfl <;> cases kind <;> simp [waits]

theorem idle_counted {state : PacketState} (counted : state.Counted) (kind : Ack) : waits kind ≠ some state := by
  rcases counted with rfl | rfl | rfl <;> cases kind <;> simp [waits]

/-- A message that is sent is no answer. -/
theorem publish_keeps {frame : List UInt8} {qos : UInt8} {packetId : UInt16} {i : Nat} {item : PackidStateItem}
    {deleteRetain : Bool} (counted : item.state.Counted) :
    Along Keeps (publish frame qos packetId sock i item deleteRetain) := by
  unfold publish
  cases frame with
  | nil => exact keepsRules.fault _
  | cons head rest =>
    have unanswered : writtenAs (publishHeader head qos deleteRetain :: rest) (some item) = none := by
      rw [Option.eq_none_iff_forall_ne_some]
      exact fun kind written => idle_counted counted kind ((writtenAs_item _ _ _).mp written)
    have set_item {f : PackidStateItem → PackidStateItem} (done : ∀ kind x item, x ≠ 0 → ¬ Waits kind x (f item)) :
        Along Keeps (modify (·.setItem sock i f) : Worker Unit) := by
      intro w u w' ran
      obtain rfl := modify_ok.mp ran
      exact keeps_done done
    refine keeps_bind (keeps_write unanswered (by simpa using counted)) fun written => ?_
    refine keeps_bind (ruled_storeGet keepsRules _) fun node => ?_
    refine keeps_bind ?_ fun _ => ?_
    · unfold logFailure
      split
      · exact keepsRules.done _
      · refine keeps_bind (ruled_sockAt keepsRules _) fun _ => keeps_bind (ruled_deref keepsRules _) fun _ => ?_
        intro w u w' ran
        obtain rfl := log_ok.mp ran
        exact keeps_log trivial
    · split
      · exact keeps_bind (set_item done_free) fun _ => ruled_countDownIf keepsRules _ _
      · refine keeps_bind (set_item fun kind x item _ => done_state (idle_getting ?_) kind x item) fun _ => ?_
        · split
          · exact .inl rfl
          · exact .inr (.inl rfl)
        · split
          · exact keeps_bind (ruled_storeAdd keepsRules _ _ _ _) fun _ => keepsRules.done _
          · exact keepsRules.done _

/-- PUBACK and PUBREC, whatever the matched item is to become. -/
theorem settle_balanced {x : UInt16} {settled : PackidStateItem → PackidStateItem} {op : Operation} {u : Unit}
    (balanced : Balanced owing w) (acknowledged : Acknowledged sock x w) (counted : awaited.Counted)
    (settles : ∀ (w : World) (i : Nat) item, Balanced owing w → (w.items sock)[i]? = some item → item.packetId = x →
      Balanced none (w.setItem sock i settled))
    (ran : settle sock header awaited settled op w = .ok (u, w')) : Balanced none w' := by
  obtain ⟨⟨id, found⟩, w₁, search, ran⟩ := bind_ok.mp ran
  obtain ⟨balanced, -, matched⟩ := findItem_balanced balanced acknowledged search
  cases found with
  | none => exact keeps_dropConn sock true _ _ _ ran _ balanced.settled
  | some entry =>
    obtain ⟨item, i⟩ := entry
    obtain ⟨same_id, same_state, at_i⟩ := matched (item, i) rfl
    dsimp only at same_id same_state at_i
    rw [storeGet_bind_ok] at ran
    obtain ⟨wrong, w₂, checked, ran⟩ := bind_ok.mp ran
    obtain ⟨env, buf, rfl⟩ := quiet_wrongLength header _ _ _ checked
    have same : Keeps w₁ { w₁ with env := env, buf := buf } := keeps_same rfl rfl
    replace balanced := same _ balanced
    split at ran
    · cases stored : w₁.publishMsgStore.get id with
      | none =>
        rw [stored] at ran
        exact keeps_dropConn sock true _ _ _ ran _ balanced.settled
      | some j =>
        rw [stored] at ran
        dsimp only at ran
        rw [get_bind_ok, log_bind_ok] at ran
        refine publish_keeps (by rwa [same_state]) _ _ _ ran _ ?_
        exact keeps_log (e := .resending item (w₁.nodeAt j)) trivial _ balanced.settled
    · obtain ⟨⟨⟩, w₃, forgot, ran⟩ := bind_ok.mp ran
      obtain rfl := countDownIf_ok forgot rfl
      rw [modify_bind_ok] at ran
      obtain ⟨ok, w₄, asked, ran⟩ := bind_ok.mp ran
      rw [(pure_ok.mp ran).2]
      refine keeps_request _ _ _ _ asked _ (settles _ i item (keeps_forget _ _ balanced) ?_ same_id)
      rw [forget_items]
      exact at_i

/-- PUBCOMP and PUBREL of the right length, the same way. -/
theorem advance_balanced (owing : Option (Ack × Fin 64 × UInt16)) (x : UInt16)
    {advanced : PackidStateItem → PackidStateItem} {op : Operation} {u : Unit}
    (balanced : Balanced none w)
    (right : ¬ (header.packetLength > 4 ∨ w.buf.getD 1 0 ≠ 2) → 4 ≤ w.buf.length →
      Acknowledged sock x w ∧ Balanced owing w)
    (advances : ∀ (w : World) (i : Nat) item, Balanced owing w → (w.items sock)[i]? = some item → item.packetId = x →
      Balanced none (w.setItem sock i advanced))
    (ran : advance sock header awaited advanced op w = .ok (u, w')) : Balanced none w' := by
  obtain ⟨wrong, w₁, checked, ran⟩ := bind_ok.mp ran
  obtain ⟨byte, w₂, read, answer⟩ := bind_ok.mp checked
  obtain ⟨rfl, rfl⟩ := byteAt_ok read
  obtain ⟨rfl, rfl⟩ := pure_ok.mp answer
  split at ran
  · exact keeps_dropConn sock true _ _ _ ran _ balanced.settled
  · rename_i fits
    rw [decide_eq_true_eq] at fits
    obtain ⟨⟨id, found⟩, w₁, search, ran⟩ := bind_ok.mp ran
    obtain ⟨acknowledged, owes⟩ := right fits (findItem_inside search)
    obtain ⟨balanced, -, matched⟩ := findItem_balanced owes acknowledged search
    cases found with
    | none => exact keeps_dropConn sock true _ _ _ ran _ balanced.settled
    | some entry =>
      obtain ⟨item, i⟩ := entry
      obtain ⟨same_id, -, at_i⟩ := matched (item, i) rfl
      dsimp only at ran
      rw [modify_bind_ok] at ran
      obtain ⟨ok, w₂, asked, ran⟩ := bind_ok.mp ran
      rw [(pure_ok.mp ran).2]
      exact keeps_request _ _ _ _ asked _ (advances _ i item balanced at_i same_id)

end Matching

/-! ### PUBLISH -/

section Publish
variable {owing : Option (Ack × Fin 64 × UInt16)} {qos : UInt8} {x : UInt16} {topic frame packet : List UInt8}
  {u : Unit}

theorem queueAck_balanced {kind : Ack} {state : PacketState} (balanced : Balanced (some (kind, sock, x)) w)
    (waits : waits kind = some state) (ran : queueAck sock state x qos frame topic w = .ok (u, w')) :
    Balanced none w' := by
  obtain ⟨ok, w₁, asked, ran⟩ := bind_ok.mp ran
  replace balanced := keeps_request _ _ _ _ asked _ balanced
  split at ran
  · rw [sockAt_bind_ok] at ran
    refine Balanced.added kind ?_ ?_ (addPacketId_ok ran)
    · exact balanced
    · exact waits
  · rw [(pure_ok.mp ran).2]
    exact balanced.settled

/-- What a PUBLISH of a QoS asks for. -/
def owed (qos : UInt8) (sock : Fin 64) (x : UInt16) : Option (Ack × Fin 64 × UInt16) :=
  if qos = 1 then some (.puback, sock, x) else if qos = 2 then some (.pubrec, sock, x) else none

theorem replyToPublisher_balanced (balanced : Balanced (owed qos sock x) w)
    (ran : replyToPublisher sock qos x frame topic w = .ok (u, w')) : Balanced none w' := by
  unfold replyToPublisher at ran
  unfold owed at balanced
  split at ran
  · rw [if_pos ‹_›] at balanced
    exact queueAck_balanced balanced rfl ran
  · rw [if_neg ‹_›] at balanced
    split at ran
    · rw [if_pos ‹_›] at balanced
      exact queueAck_balanced balanced rfl ran
    · rw [if_neg ‹_›] at balanced
      obtain ⟨ok, w₁, asked, ran⟩ := bind_ok.mp ran
      rw [(pure_ok.mp ran).2]
      exact keeps_request _ _ _ _ asked _ balanced

/-- A PUBLISH that has been read: what it asks for is still to be queued, and
its identifier is its own. -/
structure Arrived (w : World) (sock : Fin 64) (header : Header) (head : UInt8) (packet : List UInt8) : Prop where
  read : ReadAs w.buf header packet
  first : Holds w.buf 0 [head]
  balanced : Balanced none w
  asks : ∀ kind x, request packet = some (kind, idBytes x) → Balanced (some (kind, sock, x)) w

/-- The identifier of a PUBLISH that is read as it is in the packet. -/
theorem readId (read : ReadAs w.buf header packet) {id : List UInt8} (found : publishId packet = some id) :
    ∃ (topicLen x : UInt16), ntohsAt header.curPos w = .ok (topicLen, w) ∧
      packetIdAt (header.curPos + 2 + topicLen.toNat) w = .ok (x, w) ∧ idBytes x = id := by
  obtain ⟨⟨topic, rest⟩, split, identified⟩ := Option.bind_eq_some_iff.mp found
  obtain ⟨topicLen, length, -, placed⟩ := read.named split
  obtain ⟨x, read', same⟩ := packetIdAt_idAt placed identified
  exact ⟨topicLen, x, length, read', same⟩

/-- The rest of a PUBLISH, once it has been read. -/
theorem accepted_balanced {head : UInt8} (balanced : Balanced (owed qos sock x) w)
    (identified : qos ≠ 0 → publishId frame = some (idBytes x))
    (ran : (sockAt sock >>= fun sockst => Worker.log (.publishing sock sockst qos x topic frame) >>= fun _ =>
      (if head &&& 0x01 ≠ 0 then retainMessage topic frame qos x else pure ()) >>= fun _ =>
        replyToPublisher sock qos x frame topic >>= fun _ =>
          publishByTopic topic frame qos x (some ⟨sockst.tls, sockst.clientid⟩)) w = .ok (u, w')) :
    Balanced none w' := by
  rw [sockAt_bind_ok, log_bind_ok] at ran
  replace balanced := balanced.log (e := .publishing sock (w.socks sock) qos x topic frame) identified
    fun _ _ _ => rfl
  obtain ⟨⟨⟩, w₁, retained, ran⟩ := bind_ok.mp ran
  have retains : Along Keeps (if head &&& 0x01 ≠ 0 then retainMessage topic frame qos x else pure ()) := by
    split
    · exact ruled_retainMessage keepsRules _ _ _ _
    · exact keepsRules.done _
  replace balanced := retains _ _ _ retained _ balanced
  obtain ⟨⟨⟩, w₂, replied, ran⟩ := bind_ok.mp ran
  replace balanced := replyToPublisher_balanced balanced replied
  exact ruled_publishByTopic keepsRules _ _ _ _ _ _ _ _ ran _ balanced

theorem request_publish {head : UInt8} {rest id : List UInt8} (publish : head &&& 0xF0 = 0x30)
    (found : publishId (head :: rest) = some id) :
    (qosFlags head = 1 → request (head :: rest) = some (.puback, id)) ∧
      (qosFlags head = 2 → request (head :: rest) = some (.pubrec, id)) := by
  constructor
  · intro one
    rw [request, if_pos publish, if_pos one, found]
    rfl
  · intro two
    rw [request, if_pos publish, if_neg (by rw [two]; decide), if_pos two, found]
    rfl

theorem publishEvent_balanced {head : UInt8} {rest : List UInt8} (arrived : Arrived w sock header head (head :: rest))
    (publish : head &&& 0xF0 = 0x30)
    (inside : qosFlags head = 1 ∨ qosFlags head = 2 → publishId (head :: rest) ≠ none)
    (ran : publishEvent sock header w = .ok (u, w')) : Balanced none w' := by
  rw [publishEvent, bind_of_ok (byteAt_holds arrived.first), publishQos_flags] at ran
  by_cases reserved : qosFlags head = 3
  · rw [if_pos reserved] at ran
    exact keeps_dropConn sock true _ _ _ ran _ arrived.balanced
  rw [if_neg reserved] at ran
  dsimp only at ran
  by_cases zero : qosFlags head = 0
  · rw [zero] at ran
    obtain ⟨topicLen, w₁, read, ran⟩ := bind_ok.mp ran
    obtain ⟨topic, w₂, read', ran⟩ := bind_ok.mp ran
    obtain ⟨x, w₃, drawn, ran⟩ := bind_ok.mp ran
    obtain ⟨frame, w₄, read'', ran⟩ := bind_ok.mp ran
    have balanced := keeps_quiet (quiet_ntohsAt _) _ _ _ read _ arrived.balanced
    replace balanced := keeps_quiet (quiet_rangeAt _ _) _ _ _ read' _ balanced
    rw [if_neg (by decide)] at drawn
    replace balanced := keeps_quiet quiet_random _ _ _ drawn _ balanced
    replace balanced := keeps_quiet (quiet_rangeAt _ _) _ _ _ read'' _ balanced
    have unidentified : (0 : UInt8) ≠ 0 → publishId frame = some (idBytes x) := absurd rfl
    have owes : Balanced (owed 0 sock x) w₄ := balanced
    exact accepted_balanced owes unidentified ran
  · have flags : qosFlags head = 1 ∨ qosFlags head = 2 := by
      have all : ∀ head : UInt8, qosFlags head = 3 ∨ qosFlags head = 0 ∨ qosFlags head = 1 ∨ qosFlags head = 2 :=
        forall_byte (by decide +kernel)
      exact ((all head).resolve_left reserved).resolve_left zero
    obtain ⟨id, found⟩ := Option.ne_none_iff_exists'.mp (inside flags)
    obtain ⟨topicLen, x, length, identified, same⟩ := readId arrived.read found
    subst same
    rw [bind_of_ok length] at ran
    obtain ⟨topic, w₁, topicRead, ran₁⟩ := bind_ok.mp ran
    obtain ⟨-, rfl⟩ := rangeAt_ok topicRead
    have some : qosFlags head > 0 := by
      rcases flags with flags | flags <;> rw [flags] <;> decide
    rw [if_pos some, bind_of_ok identified] at ran₁
    obtain ⟨frame, w₂, frameRead, ran₂⟩ := bind_ok.mp ran₁
    obtain ⟨rfl, rfl⟩ := rangeAt_ok frameRead
    rw [List.drop_zero, ← arrived.read.taken] at ran₂
    refine accepted_balanced ?_ (fun _ => found) ran₂
    obtain ⟨one, two⟩ := request_publish publish found
    rcases flags with flags | flags
    · rw [flags]
      exact arrived.asks _ _ (one flags)
    · rw [flags]
      exact arrived.asks _ _ (two flags)

end Publish

/-! ### Writing -/

section Writing
variable {item : PackidStateItem} {i : Nat} {u : Unit}

theorem sendAck_balanced (kind : Ack) {sent : PackidStateItem → PackidStateItem} (balanced : Balanced none w)
    (at_i : (w.items sock)[i]? = some item) (used : item.packetId ≠ 0) (waits : waits kind = some item.state)
    (done : ∀ kind x item, x ≠ 0 → ¬ Waits kind x (sent item))
    (ran : sendAck sock i item kind.type sent w = .ok (u, w')) : Balanced none w' := by
  obtain ⟨ok, w₁, writes, ran⟩ := bind_ok.mp ran
  obtain ⟨env, rfl⟩ := connWrite_ok writes
  obtain rfl := modify_ok.mp ran
  have same : Keeps w { w with env := env } := keeps_same rfl rfl
  exact Balanced.written (w := { w with env := env }) (same _ balanced) at_i used waits done

theorem transmit_balanced (balanced : Balanced none w) (at_i : (w.items sock)[i]? = some item)
    (used : item.packetId ≠ 0) (ran : transmit sock i item w = .ok (u, w')) : Balanced none w' := by
  unfold transmit at ran
  cases state : item.state with
  | sendpuback =>
    rw [state] at ran
    exact sendAck_balanced .puback balanced at_i used (by rw [state]; rfl) done_free ran
  | sendpubcomp =>
    rw [state] at ran
    exact sendAck_balanced .pubcomp balanced at_i used (by rw [state]; rfl) done_free ran
  | sendpubrec =>
    rw [state] at ran
    refine sendAck_balanced .pubrec balanced at_i used (by rw [state]; rfl) ?_ ran
    exact fun kind x item _ => done_state (idle_getting (by simp)) kind x item
  | sendpubrel =>
    rw [state] at ran
    refine sendAck_balanced .pubrel balanced at_i used (by rw [state]; rfl) ?_ ran
    exact fun kind x item _ => done_state (idle_getting (by simp)) kind x item
  | sendpublish =>
    rw [state] at ran
    dsimp only at ran
    rw [storeGet_bind_ok] at ran
    cases stored : w.publishMsgStore.get item.packetId with
    | none =>
      rw [stored] at ran
      rw [(pure_ok.mp ran).2]
      exact balanced
    | some node =>
      rw [stored] at ran
      exact publish_keeps (.inl state) _ _ _ ran _ balanced
  | getpuback | getpubrec | getpubrel | getpubcomp =>
    rw [state] at ran
    rw [(pure_ok.mp ran).2]
    exact balanced

/-- The write branch writes for the first item that waits, or for none. -/
theorem writeEvent_balanced (balanced : Balanced none w) (ran : writeEvent sock w = .ok (u, w')) :
    Balanced none w' := by
  rw [writeEvent, get_bind_ok] at ran
  obtain ⟨more, w₁, loops, ran⟩ := bind_ok.mp ran
  obtain ⟨ok, w₂, asked, ran⟩ := bind_ok.mp ran
  rw [(pure_ok.mp ran).2]
  refine keeps_request _ _ _ _ asked _ ?_
  cases waiting : Draining.pending 0 (w.items sock) with
  | nil =>
    rw [Draining.writeLoop_idle (Draining.pending_nil.mp waiting)] at loops
    obtain ⟨-, rfl⟩ := Prod.mk.inj (Except.ok.inj loops)
    exact balanced
  | cons entry rest =>
    obtain ⟨i, item⟩ := entry
    obtain ⟨front, back, items, -, idle, waits, -⟩ := Draining.pending_cons waiting
    rw [items, Draining.writeLoop_found idle waits, Nat.zero_add] at loops
    obtain ⟨⟨⟩, w₃, sent, done⟩ := bind_ok.mp loops
    rw [(pure_ok.mp done).2]
    refine transmit_balanced balanced ?_ waits.1 sent
    rw [items, List.getElem?_append_right le_rfl, Nat.sub_self]
    rfl

end Writing

/-! ### Every event -/

/-- Three bytes, the first of which is a whole length. -/
def Short : List UInt8 → Prop
  | length :: _ :: _ :: _ => ¬ Continues length
  | _ => False

theorem short_split {bytes : List UInt8} (short : Short bytes) :
    ∃ length first second more, bytes = length :: first :: second :: more ∧ ¬ Continues length := by
  unfold Short at short
  split at short
  · exact ⟨_, _, _, _, rfl, short⟩
  · exact absurd short id

/-- The identifiers of a packet are where they are looked for: that of a PUBLISH
is inside it, that of a PUBACK or PUBREC behind a header of two bytes, and that
of an acknowledgement is not 0; and it is no UNSUBSCRIBE. -/
def Readable : List UInt8 → Prop
  | [] => False
  | head :: rest => head &&& 0xF0 ≠ 0xA0 ∧
      (head &&& 0xF0 = 0x30 → qosFlags head = 1 ∨ qosFlags head = 2 → publishId (head :: rest) ≠ none) ∧
      (head = 0x40 ∨ head = 0x50 → Short rest) ∧
      (head ∈ [0x40, 0x50, 0x62, 0x70] → idAt (bodyOf (head :: rest)) ≠ some [0, 0])

instance : DecidablePred Short
  | [] | [_] | [_, _] => .isFalse id
  | length :: _ :: _ :: _ => inferInstanceAs (Decidable (¬ Continues length))

instance : DecidablePred Readable
  | [] => .isFalse id
  | head :: rest => inferInstanceAs (Decidable (head &&& 0xF0 ≠ 0xA0 ∧ (_ → _ → _) ∧ (_ → Short rest) ∧ (_ → _)))

/-- A packet of a connected client is readable, and the payload of a will does not
begin like one of the answers. -/
def Legible : Event → Prop
  | .received _ sockst packet => sockst.clientid ≠ [] → Readable packet
  | .willed _ _ _ _ frame => Ack.read frame = none
  | _ => True

instance : DecidablePred Legible := fun e => by
  unfold Legible
  cases e <;> infer_instance

section Events
variable {packet : List UInt8} {u : Unit}

/-- The worker has just received a packet, for a client. -/
structure Received (w : World) (sock : Fin 64) (header : Header) (packet : List UInt8) : Prop where
  read : ReadAs w.buf header packet
  trace : ∃ sockst before, w.trace = .received sock sockst packet :: before
  balanced : Balanced none w
  asks : ∀ kind x, request packet = some (kind, idBytes x) → Balanced (some (kind, sock, x)) w

theorem Received.holds (received : Received w sock header packet) : Holds w.buf 0 packet := by
  refine ⟨[], w.buf.drop header.packetLength.toNat, ?_, rfl⟩
  rw [received.read.taken, List.nil_append, List.take_append_drop]

/-- An identifier behind a header of two bytes. -/
theorem bodyOf_short {head length : UInt8} (last : ¬ Continues length) (body : List UInt8) :
    bodyOf (head :: length :: body) = body := by
  change (length :: body).drop (lengthBytes (length :: body)).length = body
  rw [lengthBytes_last last]
  rfl

theorem Received.acknowledged {head length first second : UInt8} {more : List UInt8}
    (received : Received w sock header (head :: length :: first :: second :: more)) (last : ¬ Continues length)
    (live : idAt (bodyOf (head :: length :: first :: second :: more)) ≠ some [0, 0]) :
    ∃ x, idBytes x = [first, second] ∧ Acknowledged sock x w := by
  have body : idAt (bodyOf (head :: length :: first :: second :: more)) = some [first, second] := by
    rw [bodyOf_short last]
    rfl
  refine ⟨_, idBytes_word first second, fun zero => ?_, ?_, first, second, more, idBytes_word first second,
    received.holds.tail.tail⟩
  · have bytes := idBytes_word first second
    rw [zero] at bytes
    exact live (body.trans (congrArg some bytes.symm))
  · obtain ⟨sockst, before, trace⟩ := received.trace
    exact ⟨sockst, _, before, trace, body.trans (congrArg some (idBytes_word first second).symm)⟩

theorem puback_balanced {rest : List UInt8} (received : Received w sock header (0x40 :: rest))
    (readable : Readable (0x40 :: rest)) (ran : pubackEvent sock header w = .ok (u, w')) : Balanced none w' := by
  obtain ⟨length, first, second, more, rfl, last⟩ := short_split (readable.2.2.1 (.inl rfl))
  obtain ⟨x, -, acknowledged⟩ := received.acknowledged last (readable.2.2.2 (by simp))
  refine settle_balanced received.balanced acknowledged (.inr (.inl rfl)) ?_ ran
  exact fun w i item balanced _ _ => keeps_done done_free _ balanced

theorem pubrec_balanced {rest : List UInt8} (received : Received w sock header (0x50 :: rest))
    (readable : Readable (0x50 :: rest)) (ran : pubrecEvent sock header w = .ok (u, w')) : Balanced none w' := by
  obtain ⟨length, first, second, more, rfl, last⟩ := short_split (readable.2.2.1 (.inr rfl))
  obtain ⟨x, same, acknowledged⟩ := received.acknowledged last (readable.2.2.2 (by simp))
  have requests : request (0x50 :: length :: first :: second :: more) = some (.pubrel, idBytes x) := by
    rw [request, if_neg (by decide), if_pos rfl, bodyOf_short last, same]
    rfl
  refine settle_balanced (received.asks _ _ requests) acknowledged (.inr (.inr rfl)) ?_ ran
  rintro w i item balanced at_i rfl
  exact balanced.moved at_i rfl

/-- A packet of four bytes with its identifier. -/
theorem Received.four {head : UInt8} {rest : List UInt8} (received : Received w sock header (head :: rest))
    (right : ¬ (header.packetLength > 4 ∨ w.buf.getD 1 0 ≠ 2)) (long : 4 ≤ w.buf.length) :
    ∃ first second, rest = [2, first, second] := by
  rw [not_or, not_not] at right
  obtain ⟨four, -⟩ := received.read.short right.2
  have taken := received.read.taken
  rw [four] at taken
  match same : w.buf, long with
  | head' :: length :: first :: second :: more, _ =>
    rw [same] at taken
    obtain ⟨-, rfl⟩ := List.cons.inj taken
    have two := right.2
    rw [same] at two
    obtain rfl : length = 2 := two
    exact ⟨first, second, rfl⟩

/-- The identifier that PUBCOMP and PUBREL are looked up under. -/
def lookedUp (w : World) : UInt16 := ((w.buf.getD 3 0).toUInt16 <<< 8) ||| (w.buf.getD 2 0).toUInt16

theorem right_acknowledged {head : UInt8} {rest : List UInt8} (received : Received w sock header (head :: rest))
    (live : idAt (bodyOf (head :: rest)) ≠ some [0, 0])
    (right : ¬ (header.packetLength > 4 ∨ w.buf.getD 1 0 ≠ 2)) (long : 4 ≤ w.buf.length) :
    idAt (bodyOf (head :: rest)) = some (idBytes (lookedUp w)) ∧ Acknowledged sock (lookedUp w) w := by
  obtain ⟨first, second, rfl⟩ := received.four right long
  have last : ¬ Continues 2 := by decide
  obtain ⟨x, same, acknowledged⟩ := received.acknowledged last live
  obtain ⟨front, back, buf, start⟩ := received.holds
  obtain rfl := List.length_eq_zero_iff.mp start
  have word : lookedUp w = x := by
    refine idBytes_inj ((idBytes_word _ _).trans ?_)
    rw [same, buf]
    rfl
  rw [word, bodyOf_short last, same]
  exact ⟨rfl, acknowledged⟩

theorem pubcomp_balanced {rest : List UInt8} (received : Received w sock header (0x70 :: rest))
    (readable : Readable (0x70 :: rest)) (ran : pubcompEvent sock header w = .ok (u, w')) : Balanced none w' := by
  refine advance_balanced none (lookedUp w) received.balanced (fun right long => ?_) ?_ ran
  · exact ⟨(right_acknowledged received (readable.2.2.2 (by simp)) right long).2, received.balanced⟩
  · exact fun w i item balanced _ _ => keeps_done done_free _ balanced

theorem pubrel_balanced {rest : List UInt8} (received : Received w sock header (0x62 :: rest))
    (readable : Readable (0x62 :: rest)) (ran : pubrelEvent sock header w = .ok (u, w')) : Balanced none w' := by
  refine advance_balanced (some (.pubcomp, sock, lookedUp w)) (lookedUp w) received.balanced
    (fun right long => ?_) ?_ ran
  · obtain ⟨found, acknowledged⟩ := right_acknowledged received (readable.2.2.2 (by simp)) right long
    refine ⟨acknowledged, received.asks .pubcomp _ ?_⟩
    rw [request, if_neg (by decide), if_neg (by decide), if_pos rfl, found]
    rfl
  · rintro w i item balanced at_i same
    rw [← same] at balanced
    exact balanced.moved at_i rfl

/-! The first byte of a SUBACK is not that of another answer. -/

/-- The bytes are those of a SUBACK so far. -/
def Headed (suback : Myvector UInt8) : Prop := suback.elems.head? = some 0x90

theorem subscribeTopic_headed {topic : Key} {reqQos : UInt8} {suback suback' : Myvector UInt8}
    (headed : Headed suback) (ran : subscribeTopic sock topic reqQos suback w = .ok (suback', w')) :
    Headed suback' := by
  rw [subscribeTopic, sockAt_bind_ok] at ran
  obtain ⟨addr, client, -, -, ran⟩ := deref_bind_ok ran
  rw [get_bind_ok] at ran
  obtain ⟨result, -, ran⟩ := check_bind_ok ran
  rw [onHeap_bind_ok] at ran
  obtain ⟨⟨⟩, w₁, -, ran⟩ := bind_ok.mp ran
  rw [log_bind_ok, onHeap_bind_ok] at ran
  obtain ⟨⟨⟩, w₂, -, ran⟩ := bind_ok.mp ran
  rw [(pure_ok.mp ran).1]
  have appended : (suback.elems ++ [result.1]).head? = some 0x90 := by
    rw [List.head?_append, headed]
    rfl
  unfold Headed Myvector.pushBack
  split
  · split
    · exact appended
    · exact headed
  · exact appended

theorem subscribeLoop_headed {turns curPos : Nat} {packetLength : UInt16} {suback suback' : Myvector UInt8}
    (headed : Headed suback)
    (ran : subscribeLoop sock turns curPos packetLength suback w = .ok (suback', w')) : Headed suback' := by
  induction turns generalizing curPos packetLength suback w with
  | zero => exact absurd ran fault_ok
  | succ turns ih =>
    unfold subscribeLoop at ran
    split at ran
    · rwa [(pure_ok.mp ran).1]
    · obtain ⟨topicLen, w₁, -, ran⟩ := bind_ok.mp ran
      obtain ⟨topic, w₂, -, ran⟩ := bind_ok.mp ran
      obtain ⟨reqQos, w₃, -, ran⟩ := bind_ok.mp ran
      obtain ⟨suback, w₄, added, ran⟩ := bind_ok.mp ran
      exact ih (subscribeTopic_headed headed added) ran

theorem headed_set {suback : Myvector UInt8} {pos : Nat} (headed : Headed suback) (behind : 0 < pos) (byte : UInt8) :
    Headed { suback with elems := suback.elems.set pos byte } := by
  obtain ⟨n, rfl⟩ := Nat.exists_eq_add_one.mpr behind
  unfold Headed at headed ⊢
  cases same : suback.elems with
  | nil =>
    rw [same] at headed
    cases headed
  | cons head rest =>
    rw [same] at headed
    exact headed

theorem headed_insert {suback : Myvector UInt8} {pos : Nat} (headed : Headed suback) (behind : 0 < pos) (byte : UInt8)
    (heap : Heap) : Headed (suback.insert pos byte heap).2.1 := by
  obtain ⟨n, rfl⟩ := Nat.exists_eq_add_one.mpr behind
  have inserted : (suback.elems.take (n + 1) ++ byte :: suback.elems.drop (n + 1)).head? = some 0x90 := by
    unfold Headed at headed
    cases same : suback.elems with
    | nil =>
      rw [same] at headed
      cases headed
    | cons head rest =>
      rw [same] at headed
      exact headed
  unfold Headed Myvector.insert
  split
  · exact headed
  · split
    · split
      · exact inserted
      · exact headed
    · exact inserted

theorem subackLength_headed {turns pos insertId : Nat} {len : UInt16} {suback suback' : Myvector UInt8}
    (headed : Headed suback) (behind : 0 < pos) (later : 0 < insertId)
    (ran : subackLength turns pos insertId len suback w = .ok (some suback', w')) : Headed suback' := by
  induction turns generalizing pos insertId len suback w with
  | zero => exact absurd ran fault_ok
  | succ turns ih =>
    unfold subackLength at ran
    dsimp only at ran
    split at ran
    · rw [onHeap_bind_ok] at ran
      dsimp only at ran
      split at ran
      · cases (pure_ok.mp ran).1
      · split at ran
        · exact absurd ran fault_ok
        · exact ih (headed_insert (headed_set headed behind _) later _ _) (Nat.succ_pos _) (Nat.succ_pos _) ran
    · obtain ⟨same, -⟩ := pure_ok.mp ran
      obtain rfl := Option.some.inj same
      exact headed_set headed behind _

theorem keeps_subscribeEvent (sock : Fin 64) (header : Header) : Along Keeps (subscribeEvent sock header) := by
  refine keeps_bind (keepsReads.byteAt _) fun head => ?_
  split
  · exact keeps_dropConn sock true
  refine keeps_bind (keepsRules.onHeap _) fun suback => ?_
  split
  · exact keeps_dropConn sock true
  refine keeps_bind (keepsReads.byteAt _) fun msb => keeps_bind (keepsReads.byteAt _) fun lsb => ?_
  intro w u w' ran owing balanced
  obtain ⟨suback, w₁, collected, ran⟩ := bind_ok.mp ran
  obtain ⟨written, w₂, measured, ran⟩ := bind_ok.mp ran
  replace balanced := ruled_subscribeLoop keepsReads _ _ _ _ _ _ _ _ collected _ balanced
  replace balanced := ruled_subackLength keepsRules _ _ _ _ _ _ _ _ measured _ balanced
  cases written with
  | none => exact keeps_dropConn sock true _ _ _ ran _ balanced
  | some suback =>
    have headed := subackLength_headed (subscribeLoop_headed (by rfl) collected) (by decide) (by decide) measured
    obtain ⟨ok, w₃, wrote, ran⟩ := bind_ok.mp ran
    obtain ⟨ok', w₄, asked, ran⟩ := bind_ok.mp ran
    rw [(pure_ok.mp ran).2]
    refine keeps_request _ _ _ _ asked _ (keeps_write ?_ (by simp) _ _ _ wrote _ balanced)
    rw [writtenAs, Ack.read, headed]
    rfl

theorem dispatch_balanced (received : Received w sock header packet) (readable : Readable packet)
    (ran : dispatch sock header w = .ok (u, w')) : Balanced none w' := by
  cases packet with
  | nil => exact absurd readable id
  | cons head rest =>
    have whole : Holds w.buf 0 ([head] ++ rest) := received.holds
    rw [dispatch, bind_of_ok (byteAt_holds received.holds)] at ran
    by_cases publish : head &&& 0xF0 = 0x30
    · rw [if_pos publish] at ran
      exact publishEvent_balanced ⟨received.read, whole.left, received.balanced, received.asks⟩ publish
        (readable.2.1 publish) ran
    rw [if_neg publish] at ran
    by_cases puback : head = 0x40
    · rw [if_pos puback] at ran
      subst puback
      exact puback_balanced received readable ran
    rw [if_neg puback] at ran
    by_cases pubrec : head = 0x50
    · rw [if_pos pubrec] at ran
      subst pubrec
      exact pubrec_balanced received readable ran
    rw [if_neg pubrec] at ran
    by_cases pubcomp : head = 0x70
    · rw [if_pos pubcomp] at ran
      subst pubcomp
      exact pubcomp_balanced received readable ran
    rw [if_neg pubcomp] at ran
    by_cases pubrel : head = 0x62
    · rw [if_pos pubrel] at ran
      subst pubrel
      exact pubrel_balanced received readable ran
    rw [if_neg pubrel] at ran
    by_cases subscribe : head &&& 0xF0 = 0x80
    · rw [if_pos subscribe] at ran
      exact keeps_subscribeEvent _ _ _ _ _ ran _ received.balanced
    rw [if_neg subscribe, if_neg readable.1] at ran
    by_cases ping : head &&& 0xF0 = 0xC0
    · rw [if_pos ping] at ran
      exact ruled_pingEvent keepsRules _ _ _ _ ran _ received.balanced
    rw [if_neg ping] at ran
    by_cases disconnect : head &&& 0xF0 = 0xE0
    · rw [if_pos disconnect] at ran
      exact ruled_disconnectEvent keepsRules keeps_dropConn _ _ _ _ ran _ received.balanced
    · rw [if_neg disconnect] at ran
      rw [(pure_ok.mp ran).2]
      exact received.balanced

theorem readEvent_balanced (balanced : Balanced none w) (legible : ∀ e ∈ w'.trace, Legible e)
    (ran : readEvent sock w = .ok (u, w')) : Balanced none w' := by
  obtain ⟨answer, w₁, read, ran⟩ := bind_ok.mp ran
  replace balanced := keeps_quiet quiet_readPacket _ _ _ read _ balanced
  cases answer with
  | none => exact keeps_dropConn sock true _ _ _ ran _ balanced
  | some header =>
    dsimp only at ran
    rw [get_bind_ok, log_bind_ok] at ran
    let packet := w₁.buf.take header.packetLength.toNat
    have readAs : ReadAs w₁.buf header packet := readPacket_readAs read
    have logged : Balanced none (w₁.log (.received sock (w₁.socks sock) packet)) :=
      balanced.log trivial fun _ _ _ => rfl
    split at ran
    · exact ruled_connectEvent keepsReads keeps_dropConn _ _ _ _ _ ran _ logged
    · rename_i named
      obtain ⟨late, grown⟩ := acts_trace (dispatch_moves (justRead sock read) ran)
      have readable : Readable packet := by
        refine legible (.received sock (w₁.socks sock) packet) ?_ named
        change w'.trace = late ++ _ :: _ at grown
        rw [grown]
        exact List.mem_append_right _ List.mem_cons_self
      have received : Received (w₁.log (.received sock (w₁.socks sock) packet)) sock header packet :=
        ⟨readAs, ⟨_, _, rfl⟩, logged, fun kind x requests => balanced.received named requests⟩
      exact dispatch_balanced received readable ran

theorem mqttPhase_balanced {msg : Message} (balanced : Balanced none w) (legible : ∀ e ∈ w'.trace, Legible e)
    (ran : mqttPhase msg w = .ok (u, w')) : Balanced none w' := by
  unfold mqttPhase at ran
  cases op : msg.op with
  | read =>
    rw [op] at ran
    exact readEvent_balanced balanced legible ran
  | write =>
    rw [op] at ran
    exact writeEvent_balanced balanced ran
  | delread | delall =>
    rw [op] at ran
    rw [(pure_ok.mp ran).2]
    exact balanced

theorem keeps_awaitHandshake (sock : Fin 64) (first : Bool) (op : Operation) :
    Along Keeps (awaitHandshake sock first op) := by
  refine keeps_bind (keeps_request _) fun _ => ?_
  split
  · exact keepsRules.setSock _ fun _ => rfl
  · exact keepsRules.done _

theorem handshakeEvent_balanced {msg : Message} {first : Bool} (balanced : Balanced none w)
    (legible : ∀ e ∈ w'.trace, Legible e) (ran : handshakeEvent msg first w = .ok (u, w')) : Balanced none w' := by
  obtain ⟨code, w₁, shaken, ran⟩ := bind_ok.mp ran
  replace balanced := keeps_quiet quiet_handshake _ _ _ shaken _ balanced
  split at ran
  · exact keeps_dropConn _ true _ _ _ ran _ balanced
  split at ran
  · have ends : Along Keeps (setSock msg.socket ({ · with phs := .mqtt }) >>= fun _ =>
        sendtoque ⟨msg.socket, .read⟩ >>= fun _ => pure ()) :=
      keeps_bind (keepsRules.setSock _ fun _ => rfl) fun _ => keeps_bind (keeps_request _) fun _ => keepsRules.done _
    exact ends _ _ _ ran _ balanced
  split at ran
  · exact keeps_awaitHandshake _ _ _ _ _ _ ran _ balanced
  split at ran
  · exact keeps_awaitHandshake _ _ _ _ _ _ ran _ balanced
  · exact mqttPhase_balanced balanced legible ran

theorem keeps_startTls (sock : Fin 64) : Along Keeps (startTls sock) := by
  refine keepsRules.look (fun w => keeps_bind (keepsRules.log trivial) fun _ => ?_) fun _ _ => rfl
  refine keeps_bind (keepsRules.setSock _ fun _ => rfl) fun _ => ?_
  exact keepsRules.table ⟨fun _ => rfl, fun _ => rfl, fun _ _ => rfl⟩

theorem handle_balanced {msg : Message} (balanced : Balanced none w) (legible : ∀ e ∈ w'.trace, Legible e)
    (ran : handle msg w = .ok (u, w')) : Balanced none w' := by
  rw [handle, sockAt_bind_ok] at ran
  cases phs : (w.socks msg.socket).phs with
  | uninit =>
    rw [phs] at ran
    obtain ⟨memory, w₁, allocated, ran⟩ := bind_ok.mp ran
    replace balanced := keepsRules.onHeap _ _ _ _ allocated _ balanced
    split at ran
    · obtain ⟨⟨⟩, w₂, started, ran⟩ := bind_ok.mp ran
      exact handshakeEvent_balanced (keeps_startTls _ _ _ _ started _ balanced) legible ran
    · obtain rfl := log_ok.mp ran
      exact keeps_log (e := .closed msg.socket) trivial _ balanced
  | tlsHandshake =>
    rw [phs] at ran
    exact handshakeEvent_balanced balanced legible ran
  | mqtt =>
    rw [phs] at ran
    exact mqttPhase_balanced balanced legible ran

theorem balanced_initial (boot : Boot) : Balanced none (initial boot) := by
  refine ⟨lawful_nil, fun kind sock x used => ?_⟩
  rw [if_neg (by simp)]
  exact Nat.le_refl _

theorem reachable_balanced (reachable : Reachable w) (legible : ∀ e ∈ w.trace, Legible e) : Balanced none w := by
  obtain ⟨boot, turns⟩ := reachable
  induction turns with
  | refl => exact balanced_initial boot
  | @tail w₀ _ _ turn ih =>
    have balanced := ih (meets_before (acts_trace turn.acts) legible)
    obtain ⟨msg, env, ran⟩ := turn
    have same : Keeps w₀ { w₀ with env := env } := keeps_same rfl rfl
    exact handle_balanced (same _ balanced) legible ran

end Events

/-! ### The messages of the items -/

section Messages
variable {owed owed' : List Admitted} {item : PackidStateItem} {frame : List UInt8} {x : UInt16}

/-- A PUBLISH was accepted with an identifier. -/
def Published (x : UInt16) (frame : List UInt8) (trace : List Event) : Prop :=
  ∃ sock sockst qos topic, .publishing sock sockst qos x topic frame ∈ trace

theorem Published.grown (published : Published x frame w.trace) (longer : ∃ events, w'.trace = events ++ w.trace) :
    Published x frame w'.trace := by
  obtain ⟨sock, sockst, qos, topic, accepted⟩ := published
  exact ⟨sock, sockst, qos, topic, logged_grown longer accepted⟩

/-- The states of an item with which a message goes out. -/
def Outgoing (item : PackidStateItem) : Prop :=
  item.state ∈ [.sendpublish, .getpuback, .getpubrec, .sendpubrel, .getpubcomp]

/-- The message an item was made for has the identifier of the item. -/
def Faithful (item : PackidStateItem) (trace : List Event) : Prop :=
  item.packetId ≠ 0 → Outgoing item → item.origin.publisher.isSome →
    Published item.packetId item.origin.frame trace

def FaithfulAcks (earlier : List Event) : Event → Prop
  | .acked _ _ x item => x = item.packetId → Faithful item earlier
  | _ => True

structure Traced (w : World) (owed : List Admitted) : Prop where
  items : ∀ sock, ∀ item ∈ w.items sock, Faithful item w.trace
  owed : ∀ m ∈ owed, m.publisher.isSome → Published m.packetId m.frame w.trace
  acks : Lawful FaithfulAcks w.trace

theorem Faithful.grown (faithful : Faithful item w.trace) (longer : ∃ events, w'.trace = events ++ w.trace) :
    Faithful item w'.trace :=
  fun used outgoing sent => (faithful used outgoing sent).grown longer

theorem counted_outgoing (counted : item.state.Counted) : Outgoing item := by
  rcases counted with state | state | state <;> simp [Outgoing, state]

/-- An item that a message goes out with was such before. -/
theorem outgoing_before {item' : PackidStateItem} (step : ItemStep w w' sock item item') (outgoing : Outgoing item') :
    Outgoing item := by
  cases step with
  | advanced advances =>
    cases advances with
    | done => exact outgoing
    | next states =>
      simp only [List.mem_cons, List.not_mem_nil, or_false, Prod.mk.injEq] at states
      rcases states with ⟨-, rfl⟩ | ⟨-, rfl⟩ | ⟨state, rfl⟩
      · simp [Outgoing] at outgoing
      · simp [Outgoing] at outgoing
      · simp [Outgoing, state]
  | awaited counted | released counted | abandoned counted => exact counted_outgoing counted

theorem items_traced (traced : Traced w owed) (act : MessageAct w owed w' owed') (sock : Fin 64) :
    ∀ item ∈ w'.items sock, Faithful item w'.trace := by
  intro item member
  have longer := messageAct_trace act
  obtain ⟨i, at_i⟩ := List.mem_iff_getElem?.mp member
  have step := slot_act act sock i
  rw [at_i] at step
  generalize before : (w.items sock)[i]? = old at step
  cases step with
  | kept => exact (traced.items sock item (List.mem_of_getElem? before)).grown longer
  | @changed old _ step =>
    have faithful := (traced.items sock old (List.mem_of_getElem? before)).grown longer
    obtain ⟨ids, origin, -⟩ := step.kept
    intro used outgoing sent
    have same : item.packetId = old.packetId := ids.resolve_right used
    rw [same] at used ⊢
    rw [origin] at sent ⊢
    exact faithful used (outgoing_before step outgoing) sent
  | placed _ _ made =>
    intro used outgoing sent
    cases made with
    | fannedOut _ _ admitted => exact (traced.owed _ admitted sent).grown longer
    | delivered => cases sent
    | incoming kind => rcases kind with ⟨state, -⟩ | ⟨state, -⟩ <;> simp [Outgoing, state] at outgoing

theorem owed_traced (traced : Traced w owed) (act : MessageAct w owed w' owed') :
    ∀ m ∈ owed', m.publisher.isSome → Published m.packetId m.frame w'.trace := by
  have longer := messageAct_trace act
  have kept (m : Admitted) (member : m ∈ owed) (sent : m.publisher.isSome) : Published m.packetId m.frame w'.trace :=
    (traced.owed m member sent).grown longer
  cases act with
  | accept sock qos packetId topic frame =>
    intro m member sent
    obtain rfl := List.mem_singleton.mp member
    exact ⟨sock, _, qos, topic, List.mem_cons_self⟩
  | enter m qos heap =>
    intro m' member sent
    obtain rfl := List.mem_singleton.mp member
    obtain ⟨publisher, same⟩ := Option.isSome_iff_exists.mp sent
    refine kept ⟨m'.packetId, m'.frame, m'.topic, m'.publisher, none⟩ ?_ sent
    rw [same]
    exact List.mem_singleton_self _
  | refuse | retire => exact fun m member => absurd member List.not_mem_nil
  | _ => exact kept

/-- An acknowledgement is reported with an item of its socket, and alone. -/
theorem acked_act (act : MessageAct w owed w' owed') : ∃ late, w'.trace = late ++ w.trace ∧
    ∀ sock conn x item, .acked sock conn x item ∈ late → late = [.acked sock conn x item] ∧
      ∃ sock, item ∈ w.items sock := by
  have added {w₁ : World} {sock : Fin 64} {item : PackidStateItem} (added : ItemAdded w sock item w₁) :
      ∃ e, w₁.trace = e :: w.trace ∧ ∀ sock conn x item, e ≠ .acked sock conn x item := by
    rcases trace_added added with ⟨i, grown⟩ | grown <;> exact ⟨_, grown, by simp⟩
  have unacked {late : List Event} (others : ∀ e ∈ late, ∀ sock conn x item, e ≠ .acked sock conn x item) :
      ∀ sock conn x item, .acked sock conn x item ∈ late → late = [.acked sock conn x item] ∧
        ∃ sock, item ∈ w.items sock :=
    fun sock conn x item member => absurd rfl (others _ member sock conn x item)
  cases act with
  | await => exact ⟨[], rfl, by simp⟩
  | start | accept | retire | readd | unheard | unknown | reply | send | resend => exact ⟨[_], rfl, by simp⟩
  | enter | refuse | retainRefused => exact ⟨[_, _], rfl, by simp⟩
  | retainNew => exact ⟨[_, _, _, _], rfl, by simp⟩
  | retainReplace =>
    exact ⟨_, forget_grown [_, _, _] rfl, unacked (forgotten_all (fun _ => by simp) (by simp))⟩
  | release => exact ⟨_, forget_grown [] rfl, unacked (forgotten_all (fun _ => by simp) (by simp))⟩
  | abandon => exact ⟨_, forget_grown [_] rfl, unacked (forgotten_all (fun _ => by simp) (by simp))⟩
  | enqueue _ _ _ _ _ _ _ _ put =>
    obtain ⟨e, grown, other⟩ := added put
    refine ⟨[.counting _, e], congrArg (List.cons _) grown, fun sock conn x item member => ?_⟩
    simp [(other sock conn x item).symm] at member
  | deliver _ _ _ _ put =>
    obtain ⟨e, grown, other⟩ := added put
    refine ⟨[.sought .., .counting _, e], congrArg (fun trace => _ :: _ :: trace) grown, ?_⟩
    intro sock conn x item member
    simp [(other sock conn x item).symm] at member
  | incoming _ _ _ _ put =>
    obtain ⟨e, grown, other⟩ := added put
    refine ⟨[e], grown, fun sock conn x item member => ?_⟩
    simp [(other sock conn x item).symm] at member
  | matched _ at_i | answer _ _ at_i =>
    refine ⟨[_], rfl, fun sock conn x item member => ?_⟩
    have same := List.mem_singleton.mp member
    cases same
    exact ⟨rfl, _, List.mem_of_getElem? at_i⟩

theorem traced_kept (act : MessageAct w owed w' owed') (traced : Traced w owed) : Traced w' owed' := by
  refine ⟨items_traced traced act, owed_traced traced act, ?_⟩
  obtain ⟨late, grown, acked⟩ := acked_act act
  rw [grown]
  by_cases reports : ∃ sock conn x item, .acked sock conn x item ∈ late
  · obtain ⟨sock, conn, x, item, member⟩ := reports
    obtain ⟨rfl, sock', held⟩ := acked sock conn x item member
    exact lawful_cons.mpr ⟨fun _ => traced.items sock' item held, traced.acks⟩
  · refine traced.acks.append fun e member earlier => ?_
    cases e with
    | acked sock conn x item => exact absurd ⟨sock, conn, x, item, member⟩ reports
    | _ => trivial

theorem traced_frame (kept : MessagesKept w w') (traced : Traced w owed) : Traced w' owed := by
  obtain ⟨late, grown, other⟩ := kept.trace
  have longer : ∃ events, w'.trace = events ++ w.trace := ⟨late, grown⟩
  refine ⟨fun sock item member => ?_, fun m member sent => (traced.owed m member sent).grown longer, ?_⟩
  · rw [kept.items] at member
    exact (traced.items sock item member).grown longer
  · rw [grown]
    refine traced.acks.append fun e member earlier => ?_
    cases e with
    | acked => exact absurd trivial (other _ member)
    | _ => trivial

theorem reachable_traced (reachable : Reachable w) : Traced w [] := by
  refine reachable.messages (fun _ => True) Traced (fun boot => ?_) traced_frame
    (fun act _ traced => traced_kept act traced) fun _ _ => trivial
  exact ⟨fun _ _ member => absurd member List.not_mem_nil, fun _ member => absurd member List.not_mem_nil, lawful_nil⟩

end Messages

/-! ### What the bytes are -/

section Bytes
variable {owed owed' : List Admitted}

/-- A message that is stored does not begin like an answer. -/
def Unlike (node : NodePubmap) : Prop := Ack.read node.data = none

/-- No stored message begins like an answer, and none was written that does. -/
structure Distinct (w : World) : Prop where
  accepted : Lawful Accepted w.trace
  findable : Findable w.publishMsgStore
  stored : AllSlots Unlike w.publishMsgStore.slots
  sent : ∀ sock sockst bytes item, .wrote sock sockst bytes (some item) ∈ w.trace → item.state.Counted →
    Ack.read bytes = none

theorem Distinct.framed (kept : MessagesKept w w') (distinct : Distinct w) : Distinct w' := by
  obtain ⟨events, grown, others⟩ := kept.trace
  refine ⟨accepted_framed kept distinct.accepted, kept.store ▸ distinct.findable, kept.store ▸ distinct.stored, ?_⟩
  intro sock sockst bytes item member
  rw [grown] at member
  rcases List.mem_append.mp member with member | member
  · exact absurd trivial (others _ member)
  · exact distinct.sent sock sockst bytes item member

theorem stored_distinct {P : UInt16 → List UInt8 → UInt8 → Prop} {store store' : PublishHashmap}
    (steps : Relation.ReflTransGen (StoreStep P) store store')
    (added : ∀ x frame qos, P x frame qos → Ack.read frame = none)
    (stored : AllSlots Unlike store.slots) : AllSlots Unlike store'.slots := by
  refine slots_steps steps ?_ ?_ ?_ ?_ stored
  · rfl
  · exact fun _ _ => rfl
  · exact fun _ _ unlike => unlike
  · exact fun x frame qos _ brought => added x frame qos brought

/-- A PUBLISH does not begin like an answer. -/
theorem read_publish {frame : List UInt8} (type : ∀ head ∈ frame.head?, head &&& 0xF0 = 0x30) :
    Ack.read frame = none := by
  cases frame with
  | nil => rfl
  | cons head rest =>
    have publish : head &&& 0xF0 = 0x30 &&& 0xF0 := type head rfl
    exact Ack.read_cons_congr publish rest

theorem distinct_act (act : MessageAct w owed w' owed') (legible : ∀ e ∈ w'.trace, Legible e)
    (distinct : Distinct w) : Distinct w' := by
  have now := accepted_act act distinct.accepted
  refine ⟨now, findable_act act distinct.findable, ?_, fun sock sockst bytes item member counted => ?_⟩
  · rcases store_act act distinct.findable with ⟨steps, -⟩ | ⟨-, source, -, steps, -⟩
    · exact stored_distinct steps (fun _ _ _ none => absurd none id) distinct.stored
    · refine stored_distinct steps ?_ distinct.stored
      rintro x frame qos ⟨rfl, rfl, rfl⟩
      rcases source with ⟨sock, sockst, topic, accepted⟩ | ⟨conn, topic, payload, willed⟩
      · obtain ⟨earlier, -, -, type, -⟩ := accepted_mem now accepted
        exact read_publish type
      · exact legible _ willed
  · rcases wrote_act act member with before | ⟨-, wrote⟩
    · exact distinct.sent sock sockst bytes item before counted
    · cases wrote with
      | reply _ _ _ other => exact absurd counted other
      | @send _ j qos deleteRetain head rest _ _ _ _ _ _ held =>
        have unlike : Unlike (w.nodeAt j) := distinct.stored.slotAt rfl j
        rw [Ack.read_cons_congr (publishHeader_type head qos deleteRetain), ← held]
        exact unlike

theorem reachable_distinct (reachable : Reachable w) (legible : ∀ e ∈ w.trace, Legible e) : Distinct w := by
  refine reachable.messages Legible (fun w _ => Distinct w) (fun boot => ?_) Distinct.framed distinct_act legible
  refine ⟨lawful_nil, findable_initial boot, ?_, fun _ _ _ _ member => absurd member List.not_mem_nil⟩
  exact List.forall_mem_replicate.mpr (.inr rfl)

end Bytes

/-! ### Runs -/

/-- The bytes of the answer are written on a socket. -/
def frames (kind : Ack) (sock : Fin 64) (x : UInt16) : Event → Bool
  | .wrote s _ bytes _ => decide (s = sock ∧ bytes = kind.encode x)
  | _ => false

def framed (kind : Ack) (sock : Fin 64) (x : UInt16) (trace : List Event) : Nat :=
  trace.countP (frames kind sock x)

/-- What begins like an answer is four bytes, with the identifier of a packet of
the matching kind that was received on the socket and is not yet answered so. An
acknowledgement is matched with an item of its identifier, which is also that of
the PUBLISH the item was made for. -/
def Correct (earlier : List Event) : Event → Prop
  | .wrote sock _ bytes _ => ∀ kind, Ack.read bytes = some kind →
      ∃ x, bytes = kind.encode x ∧ framed kind sock x earlier < asked kind sock x earlier
  | .acked sock _ x item => x ≠ 0 ∧ item.packetId = x ∧
      (∃ sockst packet before, earlier = .received sock sockst packet :: before ∧
        idAt (bodyOf packet) = some (idBytes x)) ∧
      (Outgoing item → item.origin.publisher.isSome → ∃ sock sockst qos topic,
        .publishing sock sockst qos x topic item.origin.frame ∈ earlier ∧
          (qos ≠ 0 → publishId item.origin.frame = some (idBytes x)))
  | _ => True

/-- A packet that begins like an answer is written as that answer. -/
theorem written_read {sockst : SockCid} {bytes : List UInt8} {item : Option PackidStateItem} {kind : Ack}
    (distinct : Distinct w) (sound : Lawful Sound w.trace) (wrote : .wrote sock sockst bytes item ∈ w.trace)
    (begins : Ack.read bytes = some kind) : writtenAs bytes item = some kind := by
  obtain ⟨late, earlier, split⟩ := List.append_of_mem wrote
  obtain ⟨answers, others⟩ := sound late _ earlier split
  cases item with
  | none => exact begins
  | some item =>
    cases written : writtenAs bytes (some item) with
    | none =>
      have unlike := distinct.sent sock sockst bytes item wrote (others written item rfl)
      exact absurd (unlike.symm.trans begins) nofun
    | some other =>
      obtain ⟨x, rfl, -⟩ := answers other written
      rwa [Ack.read_encode] at begins

/-- In every run in which clients send readable packets, and no will begins like
an answer, the acknowledgements are correct. -/
theorem acknowledgements_correct {w : World} (reachable : Reachable w) (legible : ∀ e ∈ w.trace, Legible e) :
    Lawful Correct w.trace := by
  intro late e earlier split
  have lawful := (reachable_balanced reachable legible).sound
  have sound := lawful late e earlier split
  have distinct := reachable_distinct reachable legible
  cases e with
  | wrote sock sockst bytes item =>
    intro kind begins
    have wrote : .wrote sock sockst bytes item ∈ w.trace := by simp [split]
    obtain ⟨x, same, fewer⟩ := sound.1 kind (written_read distinct lawful wrote begins)
    refine ⟨x, same, Nat.lt_of_le_of_lt (List.countP_mono_left fun e member shown => ?_) fewer⟩
    cases e with
    | wrote s sockst bytes item =>
      obtain ⟨rfl, rfl⟩ := of_decide_eq_true shown
      have wrote : .wrote s sockst (kind.encode x) item ∈ w.trace := by simp [split, member]
      exact decide_eq_true ⟨rfl, written_read distinct lawful wrote (Ack.read_encode kind x), rfl⟩
    | _ => exact absurd shown Bool.false_ne_true
  | acked sock conn x item =>
    obtain ⟨live, same, sockst, packet, before, received, identified⟩ := sound
    refine ⟨live, same, ⟨sockst, packet, before, received, identified⟩, fun outgoing sent => ?_⟩
    have faithful := (reachable_traced reachable).acks late _ earlier split
    obtain ⟨sock', sockst', qos, topic, accepted⟩ := faithful same.symm (same ▸ live) outgoing sent
    rw [same] at accepted
    refine ⟨sock', sockst', qos, topic, accepted, ?_⟩
    obtain ⟨between, before, split'⟩ := List.append_of_mem accepted
    exact lawful (late ++ .acked sock conn x item :: between) (.publishing sock' sockst' qos x topic item.origin.frame)
      before (by simp [split, split'])
  | _ => trivial

/-- A client subscribes with QoS 2 and gets a message of QoS 2 from another one;
all of it is acknowledged. -/
def handshakes : List (Message × Env) :=
  [accepting 1, reading 1 (connectPacket [97] 2), accepting 2, reading 2 (connectPacket [98] 2),
    subscribing 2 [116] 2, reading 1 (publishPacket 0x34 [116] [1, 2, 9]), writing 1,
    reading 1 (some [0x62, 2, 1, 2]), writing 1, writing 2, reading 2 (some [0x50, 2, 1, 2]), writing 2,
    reading 2 (some [0x70, 2, 1, 2])]

theorem handshakes_correct : ∃ w, (initial .clean).run handshakes = .ok w ∧
    framed .pubrec 1 0x201 w.trace = 1 ∧ framed .pubcomp 1 0x201 w.trace = 1 ∧
    framed .pubrel 2 0x201 w.trace = 1 ∧ Lawful Correct w.trace := by
  obtain ⟨w, ran, reachable, shown⟩ := reached_run .clean handshakes
    (fun w => decide (framed .pubrec 1 0x201 w.trace = 1 ∧ framed .pubcomp 1 0x201 w.trace = 1 ∧
      framed .pubrel 2 0x201 w.trace = 1) && w.trace.all fun e => decide (Legible e)) (by decide +kernel)
  rw [Bool.and_eq_true] at shown
  obtain ⟨pubrec, pubcomp, pubrel⟩ := of_decide_eq_true shown.1
  exact ⟨w, ran, pubrec, pubcomp, pubrel, acknowledgements_correct reachable (by simpa using shown.2)⟩

/-- A client subscribes and unsubscribes, with identifier 5. -/
def unsubscribes : List (Message × Env) :=
  [accepting 1, reading 1 (connectPacket [97] 2), subscribing 1 [116] 0,
    reading 1 (some [0xA2, 5, 0, 5, 0, 1, 116])]

/-- The last packet is an UNSUBACK with the identifier 0 that was not asked for. -/
def unasked : List Event → Bool
  | _ :: .wrote sock _ bytes none :: earlier =>
    decide (bytes = [0xB0, 2, 0, 0] ∧ asked .unsuback sock 0 earlier = 0)
  | _ => false

/-- The UNSUBACK has the identifier 0, which was not asked for. -/
theorem unsuback_incorrect : ∃ w, (initial .clean).run unsubscribes = .ok w ∧ Reachable w ∧
    ¬ Lawful Correct w.trace := by
  obtain ⟨w, ran, reachable, shown⟩ := reached_run .clean unsubscribes
    (fun w => unasked w.trace) (by decide +kernel)
  refine ⟨w, ran, reachable, fun lawful => ?_⟩
  unfold unasked at shown
  split at shown
  · rename_i e sock sockst bytes earlier split
    obtain ⟨rfl, unasked⟩ := of_decide_eq_true shown
    obtain ⟨x, bytes, fewer⟩ := lawful [e] _ earlier split .unsuback rfl
    have zero : idBytes 0 = idBytes x := (List.cons.inj (List.cons.inj bytes).2).2
    obtain rfl := idBytes_inj zero
    omega
  · cases shown

end MqttBroker.Answers